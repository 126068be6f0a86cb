import RerankerService.Proof.Lifecycle
import RerankerService.Proof.Names

/-!
# A runtime that serves requests

The frame of the runtime collects what predictions depend on: their calls, what the model objects
are, and the settings apart from the name of the active model. A ready runtime has an active model,
and that model is what the settings name, when the model of the initial load arrives under the name
it was asked for and no rollback goes back to an empty slot.
-/

namespace RerankerService

namespace Slots

variable {t t' : Slots}

/-- Only a switch and the shutdown change the name of the active model; a load changes the active
model itself. -/
theorem kept_of_step {e : Event} (hclose : e ≠ .close) (hactivate : e ≠ .activate)
    (hrollback : e ≠ .rollback) (hstep : t.step e = some t') :
    t'.activeIdentity = t.activeIdentity ∧
      ((∀ requested, e ≠ .load requested) → t'.active = t.active) := by
  cases step_takes hstep with
  | load => exact ⟨rfl, fun hload => absurd rfl (hload _)⟩
  | test _ | accept _ | reject _ => exact ⟨rfl, fun _ => rfl⟩
  | activate _ _ => exact absurd rfl hactivate
  | rollback _ => exact absurd rfl hrollback
  | close _ => exact absurd rfl hclose

/-- The active slot stays filled, unless a rollback empties it. -/
theorem active_isSome_of_step {e : Event} (h : t.active.isSome) (hclose : e ≠ .close)
    (hrollback : e = .rollback → ∀ previous, t.previous = some previous → previous.1.isSome)
    (hstep : t.step e = some t') : t'.active.isSome := by
  cases step_takes hstep with
  | load | activate _ _ => exact rfl
  | test _ | accept _ | reject _ => exact h
  | rollback hprevious => exact hrollback rfl _ hprevious
  | close _ => exact absurd rfl hclose

end Slots

structure Source.Named (source : Source) (settings : Settings) : Prop where
  name : source.name = settings.model
  revision : source.revision = settings.modelRevision
  resolved : source.resolvedRevision = settings.storedRevision settings.modelRevision

namespace ModelRuntime

variable {s s' : ModelRuntime} {a : Action}

structure Frame where
  calls : PredictId → PredictCall
  entered : Nat
  sources : ModelId → Source
  loaded : Nat
  constants : Settings

def sources (s : ModelRuntime) : ModelId → Source :=
  Model.toSource ∘ s.models

/-- What `backend.rerank` would run with now. -/
def activeSource (s : ModelRuntime) : Option Source :=
  s.model.map s.sources

/-- The active model truncates where the settings say, as far as its artifact allows. -/
def InSync (s : ModelRuntime) : Prop :=
  ∀ source, s.activeSource = some source → source.maxLength = min s.settings.maxLength source.cap

def frame (s : ModelRuntime) : Frame where
  calls := s.calls
  entered := s.entered
  sources := s.sources
  loaded := s.loaded
  constants := { s.settings with model := [], modelRevision := [] }

def Frame.allocate (f : Frame) (source : Source) : Frame :=
  { f with
    sources := Function.update f.sources f.loaded source
    loaded := f.loaded + 1 }

def Frame.setPhase (f : Frame) (id : PredictId) (phase : PredictPhase) : Frame :=
  { f with calls := Function.update f.calls id { f.calls id with phase } }

/-! ### The frame of each operation -/

@[simp]
theorem syncActiveBackendState_frame (s : ModelRuntime) :
    s.syncActiveBackendState.frame = s.frame := by
  unfold syncActiveBackendState
  split <;> rfl

theorem allocate_frame (s : ModelRuntime) (name revision : Text) (maxLength : Nat)
    (loaded : Loaded) :
    (s.allocate name revision maxLength loaded).frame =
      s.frame.allocate (s.settings.loadModel name revision maxLength loaded).toSource := by
  have hsources := Function.comp_update Model.toSource s.models s.loaded
    (s.settings.loadModel name revision maxLength loaded)
  exact congrArg (fun sources => { s.frame with sources, loaded := s.loaded + 1 }) hsources

theorem setPhase_frame (s : ModelRuntime) (id : PredictId) (phase : PredictPhase) :
    (s.setPhase id phase).frame = s.frame.setPhase id phase := rfl

/-- A fallback to the CPU changes no model into another one. -/
theorem fallBack_frame (s : ModelRuntime) (model : ModelId) : (s.fallBack model).frame = s.frame := by
  have hsources :=
    Function.comp_update Model.toSource s.models model (s.fallBack model |>.models model)
  have hsame : Function.update s.sources model ((s.fallBack model).sources model) = s.sources := by
    rw [Function.update_eq_self_iff]
    simp [sources, fallBack]
  refine congrArg (fun sources => { s.frame with sources }) (.trans ?_ hsame)
  simpa [sources, fallBack] using hsources

theorem finish_frame (s : ModelRuntime) (fallback : Bool) (model : Option ModelId) :
    (if fallback then model.elim s s.fallBack else s).frame = s.frame := by
  split
  · cases model with
    | none => rfl
    | some model => exact fallBack_frame s model
  · rfl

theorem resumePredict_frame {id : PredictId} {reply : Reply Score}
    (h : s.resumePredict id = some (s', reply)) :
    ∃ semaphore, s.phase id = .answered semaphore reply ∧
      s'.frame = s.frame.setPhase id .returned := by
  unfold resumePredict at h
  split at h
  · rename_i semaphore values hphase
    cases h
    refine ⟨semaphore, hphase, ?_⟩
    rw [setPhase_frame]
    exact congrArg (fun f : Frame => f.setPhase id .returned) (syncActiveBackendState_frame s)
  · rename_i semaphore error hphase
    cases h
    exact ⟨semaphore, hphase, rfl⟩
  · cases h

theorem cancelPredict_frame (s : ModelRuntime) (id : PredictId) :
    (s.cancelPredict id).frame = s.frame ∨
      ∃ phase, (phase = .returned ∨ phase = .orphaned) ∧
        (s.cancelPredict id).frame = s.frame.setPhase id phase := by
  unfold cancelPredict
  split
  · exact .inr ⟨.returned, .inl rfl, rfl⟩
  · exact .inr ⟨.returned, .inl rfl, rfl⟩
  · exact .inr ⟨.returned, .inl rfl, rfl⟩
  · exact .inr ⟨.orphaned, .inr rfl, rfl⟩
  · exact .inl rfl

theorem enter_frame (s : ModelRuntime) (pairs : List Pair) :
    (s.enter pairs).frame =
      { s.frame with
        calls := Function.update s.calls s.entered { pairs, phase := .waiting s.semaphore }
        entered := s.entered + 1 } := rfl

/-- A patch changes one truncation length: that of the active model. -/
theorem reconfigure_frame (s : ModelRuntime) (maxConcurrency maxLength : Nat) :
    (s.reconfigure maxConcurrency maxLength).frame =
      { s.frame with
        sources := fun m =>
          if s.model = some m then
            { s.sources m with maxLength := min maxLength (s.sources m).cap }
          else s.sources m
        constants := { s.frame.constants with maxConcurrency, maxLength } } := by
  unfold reconfigure
  simp only
  split
  · rename_i model hmodel
    have hactive : s.model = some model := hmodel
    have hsources := Function.comp_update Model.toSource s.models model
      ((s.models model).reconfigure maxLength)
    refine congrArg (fun sources => { s.frame with
      sources
      constants := { s.frame.constants with maxConcurrency, maxLength } }) (hsources.trans ?_)
    funext m
    by_cases hm : m = model
    · subst hm
      simp [hactive, Model.reconfigure, sources]
    · simp [hactive, hm, Ne.symm hm, sources]
  · rename_i hmodel
    have hactive : s.model = none := hmodel
    simp only [hactive, reduceCtorEq, ↓reduceIte]
    rfl

@[simp]
theorem reconfigure_settings (s : ModelRuntime) (maxConcurrency maxLength : Nat) :
    (s.reconfigure maxConcurrency maxLength).settings =
      { s.settings with maxConcurrency, maxLength } := by
  unfold reconfigure
  simp only
  split <;> rfl

theorem inSync_reconfigure (s : ModelRuntime) (maxConcurrency maxLength : Nat) :
    (s.reconfigure maxConcurrency maxLength).InSync := by
  intro source hsource
  have hframe := reconfigure_frame s maxConcurrency maxLength
  have hmodel : (s.reconfigure maxConcurrency maxLength).model = s.model :=
    congrArg Slots.active (reconfigure_slots s maxConcurrency maxLength)
  obtain ⟨m, hm, rfl⟩ := Option.map_eq_some_iff.mp hsource
  rw [hmodel] at hm
  have hactive : (s.reconfigure maxConcurrency maxLength).sources m =
      { s.sources m with maxLength := min maxLength (s.sources m).cap } :=
    (congrFun (congrArg Frame.sources hframe) m).trans (if_pos hm)
  rw [hactive, reconfigure_settings]

/-! ### Background actions -/

/-- How a permit, a thread or its end moves a prediction on. -/
inductive Advances (s : ModelRuntime) (a : Action) (id : PredictId) : PredictPhase → Prop where
  | acquired {semaphore : SemaphoreId} (hphase : s.phase id = .waiting semaphore) :
      Advances s a id (.submitted semaphore s.model)
  | begun {semaphore : SemaphoreId} {model : Option ModelId}
      (hphase : s.phase id = .submitted semaphore model) :
      Advances s a id (.running semaphore model (model.map s.sources))
  | answered {semaphore : SemaphoreId} {model : Option ModelId} {source : Option Source}
      {execution : Execution} (ha : a = .finish id execution)
      (hphase : s.phase id = .running semaphore model source) :
      Advances s a id (.answered semaphore (execution.reply source (s.calls id).pairs))
  | ended (hphase : s.phase id = .orphaned) : Advances s a id .returned

inductive MovesFrame (s : ModelRuntime) (a : Action) (f : Frame) : Prop where
  | same (heq : f = s.frame)
  | allocated (name revision : Text) (maxLength : Nat) (loaded : Loaded)
      (heq : f =
        s.frame.allocate (s.settings.loadModel name revision maxLength loaded).toSource)
  | advanced (id : PredictId) (phase : PredictPhase) (hadvances : s.Advances a id phase)
      (heq : f = s.frame.setPhase id phase)

theorem step_frame (hbackground : Application.background a)
    (h : s.step a = some s') : s.MovesFrame a s'.frame := by
  obtain ⟨-, htakes⟩ := step_takes h
  cases htakes with
  | ticked | candidateEnded | candidateQueued _ | activateQueued | rollbackQueued => exact .same rfl
  | @loadArrived name revision maxLength started loaded hloading =>
      refine .allocated name revision maxLength loaded ?_
      rw [← allocate_frame]
      exact syncActiveBackendState_frame _
  | loadRaised _ | warmedUp _ | warmUpRaised _ => exact .same rfl
  | candidateGranted _ _ | activationRefused _ _ | rollbackRefused _ _ => exact .same rfl
  | activated hqueue hcandidate hinfo => exact .same (syncActiveBackendState_frame _)
  | rolledBack hqueue hprevious => exact .same (syncActiveBackendState_frame _)
  | candidateLoaded hholder => exact .allocated _ _ _ _ (allocate_frame s _ _ _ _)
  | candidateRaised _ | candidateAccepted _ _ | candidateRejected _ _ => exact .same rfl
  | acquired hphase hpermit => exact .advanced _ _ (.acquired hphase) rfl
  | begun hphase hfree => exact .advanced _ _ (.begun hphase) rfl
  | @answered id execution semaphore model source hphase =>
      refine .advanced id _ (.answered rfl hphase) ?_
      rw [setPhase_frame, finish_frame]
  | orphanEnded hphase => exact .advanced _ _ (.ended hphase) rfl
  | _ => cases hbackground

def Switches (s : ModelRuntime) (a : Action) : Prop :=
  s.event a = some .activate ∨ s.event a = some .rollback

theorem constants_eq (hbackground : Application.background a) (h : s.step a = some s') :
    s'.frame.constants = s.frame.constants := by
  cases step_frame hbackground h with
  | same heq => rw [heq]
  | allocated name revision maxLength loaded heq =>
      rw [heq]
      rfl
  | advanced id phase hadvances heq =>
      rw [heq]
      rfl

theorem settings_eq_of_frame (hconstants : s'.frame.constants = s.frame.constants)
    (hidentity : s'.slots.activeIdentity = s.slots.activeIdentity) : s'.settings = s.settings := by
  obtain ⟨hmodel, hrevision⟩ := Prod.mk.inj hidentity
  calc s'.settings = { s'.frame.constants with
        model := s'.settings.model, modelRevision := s'.settings.modelRevision } := rfl
    _ = { s.frame.constants with
        model := s.settings.model, modelRevision := s.settings.modelRevision } := by
      rw [hconstants, hmodel, hrevision]
    _ = s.settings := rfl

theorem event_of_background (hbackground : Application.background a) {e : Slots.Event}
    (hevent : s.event a = some e) : e ≠ .close := by
  have hclose : a ≠ .close := by
    rintro rfl
    cases hbackground
  by_cases hload : ∃ outcome, a = .loadReturned outcome
  · obtain ⟨outcome, rfl⟩ := hload
    obtain ⟨requested, rfl⟩ := event_loadReturned hevent
    simp
  by_cases hlock : a = .lockAcquired
  · subst hlock
    rcases event_lockAcquired hevent with rfl | rfl
    · simp
    · simp
  · exact (event_other (not_exists.mp hload) hlock hclose hevent).2.1

/-- A step that is no switch keeps the settings, and the active model unless one is loaded. -/
theorem active_of_background (hbackground : Application.background a) (hswitch : ¬s.Switches a)
    (h : s.step a = some s') : s'.slots.activeIdentity = s.slots.activeIdentity ∧
      ((∀ requested, s.event a ≠ some (.load requested)) → s'.slots.active = s.slots.active) := by
  refine (step_slots h).keeps (P := fun t => t.activeIdentity = s.slots.activeIdentity ∧
    ((∀ requested, s.event a ≠ some (.load requested)) → t.active = s.slots.active))
    ⟨rfl, fun _ => rfl⟩ fun e hevent hmoves => ?_
  obtain ⟨hidentity, hactive⟩ := Slots.kept_of_step (event_of_background hbackground hevent)
    (fun heq => hswitch (.inl (heq ▸ hevent))) (fun heq => hswitch (.inr (heq ▸ hevent))) hmoves
  exact ⟨hidentity, fun hload => hactive fun requested heq => hload requested (heq ▸ hevent)⟩

theorem settings_eq (hbackground : Application.background a) (hswitch : ¬s.Switches a)
    (h : s.step a = some s') : s'.settings = s.settings :=
  settings_eq_of_frame (constants_eq hbackground h)
    (active_of_background hbackground hswitch h).1

/-! ### Serving -/

/-- Queued executions refer to objects that exist, and the revision that an object reports is the
one that its backend stores for the revision it was loaded for. -/
structure Frame.Consistent (f : Frame) : Prop where
  submitted : ∀ id semaphore m, (f.calls id).phase = .submitted semaphore (some m) → m < f.loaded
  resolved : ∀ m < f.loaded,
    (f.sources m).resolvedRevision = f.constants.storedRevision (f.sources m).revision

/-- What holds from the start of the service on, before, during and after the initial load. -/
structure Serving (s : ModelRuntime) : Prop where
  owned : s.slots.AtMostOnce
  consistent : s.frame.Consistent
  plain : s.Plain

/-- The active model is an object that exists. -/
theorem Serving.active_lt (h : s.Serving) {m : ModelId} (hm : s.model = some m) : m < s.loaded := by
  have howners := h.owned m
  have hactive : s.slots.active = some m := hm
  unfold Slots.owners at howners
  rw [if_pos hactive] at howners
  by_contra hlt
  rw [if_neg (show ¬m < s.slots.loaded from hlt)] at howners
  omega

namespace Frame.Consistent

variable {f : Frame}

theorem allocate (h : f.Consistent) {source : Source}
    (hresolved : source.resolvedRevision = f.constants.storedRevision source.revision) :
    (f.allocate source).Consistent where
  submitted id semaphore m hphase :=
    (h.submitted id semaphore m hphase).trans (Nat.lt_succ_self _)
  resolved m hm := by
    by_cases heq : m = f.loaded
    · subst heq
      simpa [Frame.allocate] using hresolved
    · simpa [Frame.allocate, heq] using
        h.resolved m (lt_of_le_of_ne (Nat.le_of_lt_succ hm) heq)

theorem setPhase (h : f.Consistent) {id : PredictId} {phase : PredictPhase}
    (hphase : ∀ semaphore m, phase = .submitted semaphore (some m) → m < f.loaded) :
    (f.setPhase id phase).Consistent where
  submitted other semaphore m hother := by
    by_cases heq : other = id
    · subst heq
      simp only [Frame.setPhase, Function.update_self] at hother
      exact hphase semaphore m hother
    · simp only [Frame.setPhase, Function.update_of_ne heq] at hother
      exact h.submitted other semaphore m hother
  resolved := h.resolved

end Frame.Consistent

theorem Serving.consistent_step (h : s.Serving) (hbackground : Application.background a)
    (hstep : s.step a = some s') : s'.frame.Consistent := by
  cases step_frame hbackground hstep with
  | same heq => exact heq ▸ h.consistent
  | allocated name revision maxLength loaded heq =>
      rw [heq]
      exact h.consistent.allocate rfl
  | advanced id phase hadvances heq =>
      rw [heq]
      refine h.consistent.setPhase fun semaphore m hphase => ?_
      cases hadvances with
      | acquired hwaiting =>
          obtain ⟨-, hmodel⟩ := PredictPhase.submitted.inj hphase
          exact h.active_lt hmodel
      | begun hsubmitted => cases hphase
      | answered ha hrunning => cases hphase
      | ended horphaned => cases hphase

theorem Serving.step (h : s.Serving) (hbackground : Application.background a)
    (hstep : s.step a = some s') : s'.Serving where
  owned := (step_slots hstep).keeps h.owned fun _ _ hmoves => h.owned.step hmoves
  consistent := h.consistent_step hbackground hstep
  plain := h.plain.step hbackground hstep

/-- The runtime when its initial load begins. -/
theorem serving_of_loadBegin {settings : Settings} {device : Text}
    (hconfigured : Application.Configured settings)
    (h : (new settings device).step .loadBegin = some s) : s.Serving ∧ s.settings = settings := by
  cases h
  refine ⟨⟨fun m => ?_, ⟨fun _ _ _ hphase => (by cases hphase), fun m hm => ?_⟩, ?_⟩, rfl⟩
  · exact ((Initial.slots ⟨settings, device, rfl⟩).2 m).le
  · exact absurd hm (Nat.not_lt_zero m)
  · refine ⟨hconfigured.modelAllowlist, fun m hm => absurd hm (Nat.not_lt_zero m),
      fun _ _ hmem => (by cases hmem), fun _ _ _ hholder => (by cases hholder),
      fun name revision maxLength started hloading => ?_⟩
    cases hloading
    exact ⟨hconfigured.model, hconfigured.modelRevision⟩

/-! ### The initial load -/

/-- `load()` awaits `backend.load`. -/
def AwaitsLoad (s : ModelRuntime) : Prop :=
  ∃ name revision maxLength started, s.initialLoad = .loading name revision maxLength started

/-- What a step does to the initial load. -/
inductive AdvancesLoad (s : ModelRuntime) (a : Action) (s' : ModelRuntime) : Prop where
  | same (hevent : ∀ requested, s.event a ≠ some (.load requested))
      (hload : s'.initialLoad = s.initialLoad) (hready : s'.ready = s.ready)
  | arrived {name revision : Text} {maxLength started : Nat}
      (hloading : s.initialLoad = .loading name revision maxLength started)
      (hevent : s.event a = some (.load (name, revision)))
      (hload : s'.initialLoad = .warming s.loaded started) (hready : s'.ready = s.ready)
  | failed (hevent : s.event a = none) (hload : s'.initialLoad = .idle)
      (hready : s'.ready = s.ready)
  | finished {m : ModelId} {started : Nat} (hwarming : s.initialLoad = .warming m started)
      (hevent : s.event a = none) (hload : s'.initialLoad = .idle) (hready : s'.ready = true)

theorem syncActiveBackendState_load (s : ModelRuntime) :
    s.syncActiveBackendState.initialLoad = s.initialLoad ∧
      s.syncActiveBackendState.ready = s.ready := by
  unfold syncActiveBackendState
  split <;> exact ⟨rfl, rfl⟩

theorem finish_load (s : ModelRuntime) (fallback : Bool) (model : Option ModelId) :
    (if fallback then model.elim s s.fallBack else s).initialLoad = s.initialLoad ∧
      (if fallback then model.elim s s.fallBack else s).ready = s.ready := by
  split
  · cases model <;> exact ⟨rfl, rfl⟩
  · exact ⟨rfl, rfl⟩

theorem lockAcquired_event (s : ModelRuntime) (requested : Identity) :
    s.event .lockAcquired ≠ some (.load requested) := by
  intro hevent
  rcases event_lockAcquired hevent with h | h <;> cases h

theorem candidateSmoked_event (s : ModelRuntime) (outcome : Except Error (List Value))
    (requested : Identity) : s.event (.candidateSmoked outcome) ≠ some (.load requested) := by
  intro hevent
  rcases event_candidateSmoked hevent with ⟨h, -⟩ | ⟨h, -⟩ <;> cases h

theorem step_advancesLoad (hbackground : Application.background a) (h : s.step a = some s') :
    s.AdvancesLoad a s' := by
  obtain ⟨-, htakes⟩ := step_takes h
  cases htakes with
  | ticked | candidateEnded | candidateQueued _ | activateQueued | rollbackQueued
  | candidateRaised _ | acquired _ _ | begun _ _ | orphanEnded _ =>
      exact .same (fun _ hevent => by cases hevent) rfl rfl
  | candidateGranted _ _ | activationRefused _ _ | rollbackRefused _ _ =>
      exact .same s.lockAcquired_event rfl rfl
  | activated _ _ _ | rolledBack _ _ =>
      exact .same s.lockAcquired_event (syncActiveBackendState_load _).1
        (syncActiveBackendState_load _).2
  | @loadArrived name revision maxLength started loaded hloading =>
      exact .arrived hloading (by simp only [event, hloading]) rfl (syncActiveBackendState_load _).2
  | loadRaised _ | warmUpRaised _ => exact .failed rfl rfl rfl
  | warmedUp hwarming => exact .finished hwarming rfl rfl rfl
  | candidateLoaded hholder =>
      refine .same (fun requested hevent => ?_) rfl rfl
      obtain ⟨requested', heq⟩ := event_candidateReturned hevent
      cases heq
  | candidateAccepted _ _ | candidateRejected _ _ =>
      exact .same (s.candidateSmoked_event _) rfl rfl
  | @answered id execution semaphore model source hphase =>
      exact .same (fun _ hevent => by cases hevent) (finish_load s _ model).1
        (finish_load s _ model).2
  | _ => cases hbackground

theorem loadReturned_cases {name revision : Text} {maxLength started : Nat} {loaded : Loaded}
    (hloading : s.initialLoad = .loading name revision maxLength started)
    (h : s.step (.loadReturned (.ok loaded)) = some s') :
    s'.settings = s.settings ∧
      s'.frame =
        s.frame.allocate (s.settings.loadModel name revision maxLength loaded).toSource := by
  obtain ⟨-, htakes⟩ := step_takes h
  cases htakes with
  | loadArrived hloading' =>
      cases hloading.symm.trans hloading'
      rw [← allocate_frame]
      generalize hnext : { s.allocate name revision maxLength loaded with model := some s.loaded } =
        next
      have hsettings : next.syncActiveBackendState.settings = next.settings :=
        settings_eq_of_frame (congrArg Frame.constants (syncActiveBackendState_frame next))
          (congrArg Slots.activeIdentity (syncActiveBackendState_slots next))
      constructor
      · calc next.syncActiveBackendState.settings = next.settings := hsettings
          _ = s.settings := by rw [← hnext]; rfl
      · calc _ = next.syncActiveBackendState.frame := rfl
          _ = next.frame := syncActiveBackendState_frame next
          _ = _ := by rw [← hnext]; rfl

/-- The runtime never becomes unready. -/
theorem ready_of_background (hbackground : Application.background a) (hstep : s.step a = some s')
    (h : s.ready = true) : s'.ready = true := by
  cases step_advancesLoad hbackground hstep with
  | same hevent hload hready => exact hready.trans h
  | arrived hloading hevent hload hready => exact hready.trans h
  | failed hevent hload hready => exact hready.trans h
  | finished hwarming hevent hload hready => exact hready

/-- A rollback has a model to go back to, unless `backend.load` is still awaited. An activation during
the initial load keeps the empty slot for a rollback. -/
def RollsBackToModel (s : ModelRuntime) (a : Action) : Prop :=
  ¬s.AwaitsLoad → s.event a = some .rollback →
    ∀ previous, s.previous = some previous → previous.model.isSome

/-- There is an active model from its arrival on, and it is what the settings name. -/
structure Prepared (s : ModelRuntime) : Prop where
  identified : s.slots.Identified
  unready : s.AwaitsLoad → s.ready = false
  active : (s.ready = true ∨ ∃ m started, s.initialLoad = .warming m started) →
    s.slots.active.isSome

theorem Prepared.congr (h : s.Prepared) (hslots : s'.slots = s.slots)
    (hload : s'.initialLoad = s.initialLoad) (hready : s'.ready = s.ready) : s'.Prepared where
  identified := hslots ▸ h.identified
  unready := by
    rw [AwaitsLoad, hload, hready]
    exact h.unready
  active := by
    rw [hslots, hload, hready]
    exact h.active

theorem prepared_of_loadBegin {settings : Settings} {device : Text}
    (h : (new settings device).step .loadBegin = some s) : s.Prepared := by
  cases h
  refine ⟨(Initial.slots ⟨settings, device, rfl⟩).1, fun _ => rfl, fun h => ?_⟩
  rcases h with hready | ⟨m, started, hwarming⟩
  · cases hready
  · cases hwarming

theorem Prepared.unready_step (h : s.Prepared) (hbackground : Application.background a)
    (hstep : s.step a = some s') : s'.AwaitsLoad → s'.ready = false := by
  rintro ⟨name, revision, maxLength, started, hloading⟩
  cases step_advancesLoad hbackground hstep with
  | same hevent hload hready =>
      rw [hload] at hloading
      rw [hready]
      exact h.unready ⟨_, _, _, _, hloading⟩
  | arrived _ _ hload _ | failed _ hload _ | finished _ _ hload _ =>
      rw [hload] at hloading
      cases hloading

theorem Prepared.step (h : s.Prepared) (hbackground : Application.background a)
    (hcurrent : LoadsCurrent s a) (hback : s.RollsBackToModel a) (hstep : s.step a = some s') :
    s'.Prepared := by
  refine ⟨step_identified h.identified hcurrent hstep, h.unready_step hbackground hstep,
    fun hwhen => ?_⟩
  have hslots := step_slots hstep
  have hkept : ¬s.AwaitsLoad → s.slots.active.isSome → s'.slots.active.isSome := fun hloaded hactive =>
    hslots.keeps (P := fun t => t.active.isSome) hactive fun e hevent hmoves => by
      refine Slots.active_isSome_of_step hactive (event_of_background hbackground hevent) ?_ hmoves
      rintro rfl previous hprevious
      obtain ⟨kept, hslot, rfl⟩ := Option.map_eq_some_iff.mp hprevious
      exact hback hloaded hevent kept hslot
  cases step_advancesLoad hbackground hstep with
  | same hevent hload hready =>
      rw [hload, hready] at hwhen
      refine hkept ?_ (h.active hwhen)
      rintro ⟨name, revision, maxLength, started, hloading⟩
      rcases hwhen with hready' | ⟨m, started', hwarming⟩
      · rw [h.unready ⟨_, _, _, _, hloading⟩] at hready'
        cases hready'
      · rw [hloading] at hwarming
        cases hwarming
  | arrived hloading hevent hload hready =>
      rw [hevent] at hslots
      rw [← Option.some.inj hslots]
      rfl
  | failed hevent hload hready =>
      rw [hevent] at hslots
      rcases hwhen with hready' | ⟨m, started, hwarming⟩
      · rw [show s'.slots = s.slots from hslots]
        exact h.active (.inl (hready ▸ hready'))
      · rw [hload] at hwarming
        cases hwarming
  | @finished m started hwarming hevent hload hready =>
      rw [hevent] at hslots
      rw [show s'.slots = s.slots from hslots]
      exact h.active (.inr ⟨m, started, hwarming⟩)

/-- A ready runtime predicts with the model that the settings name. -/
theorem Prepared.named (h : s.Prepared) (hserving : s.Serving) (hready : s.ready = true) :
    ∃ m, s.model = some m ∧ m < s.loaded ∧ (s.sources m).Named s.settings := by
  obtain ⟨m, hm⟩ := Option.isSome_iff_exists.mp (h.active (.inl hready))
  obtain ⟨hlt, hidentity⟩ := h.identified.active m hm
  obtain ⟨hname, hrevision⟩ := Prod.mk.inj hidentity
  refine ⟨m, hm, hlt, hname, hrevision, ?_⟩
  calc (s.sources m).resolvedRevision
      = s.settings.storedRevision (s.sources m).revision := hserving.consistent.resolved m hlt
    _ = s.settings.storedRevision s.settings.modelRevision :=
      congrArg s.settings.storedRevision hrevision

/-! ### The calls of the application -/

theorem Serving.enter (h : s.Serving) (pairs : List Pair) : (s.enter pairs).Serving where
  owned := h.owned
  plain := ⟨h.plain.allowlist, h.plain.objects, h.plain.waiting, h.plain.holding,
    h.plain.requested⟩
  consistent := by
    refine ⟨fun id semaphore m hphase => ?_, h.consistent.resolved⟩
    rw [enter_frame] at hphase
    by_cases heq : id = s.entered
    · subst heq
      simp at hphase
    · simp only [Function.update_of_ne heq] at hphase
      exact h.consistent.submitted id semaphore m hphase

theorem Serving.resumePredict (h : s.Serving) {id : PredictId} {reply : Reply Score}
    (hresume : s.resumePredict id = some (s', reply)) : s'.Serving := by
  obtain ⟨semaphore, -, hframe⟩ := resumePredict_frame hresume
  have hslots := resumePredict_slots hresume
  refine ⟨hslots ▸ h.owned, ?_, h.plain.fewer (resumePredict_names hresume)⟩
  rw [hframe]
  exact h.consistent.setPhase fun _ _ hphase => by cases hphase

theorem Serving.cancelPredict (h : s.Serving) (id : PredictId) : (s.cancelPredict id).Serving := by
  have hslots := cancelPredict_slots s id
  refine ⟨hslots ▸ h.owned, ?_, h.plain.fewer (cancelPredict_names s id)⟩
  rcases cancelPredict_frame s id with heq | ⟨phase, hphase, heq⟩
  · exact heq ▸ h.consistent
  · rw [heq]
    refine h.consistent.setPhase fun _ _ hsubmitted => ?_
    rcases hphase with rfl | rfl <;> cases hsubmitted

/-- A patch of the settings that do not name the model, followed by `reconfigure`. -/
theorem Serving.reconfigure (h : s.Serving) {settings : Settings}
    (hmodel : settings.model = s.settings.model)
    (hrevision : settings.modelRevision = s.settings.modelRevision)
    (hallowlist : settings.modelAllowlist = s.settings.modelAllowlist)
    (hbackend : settings.backend = s.settings.backend)
    (hmock : settings.mockModel = s.settings.mockModel) (maxConcurrency maxLength : Nat) :
    ({ s with settings }.reconfigure maxConcurrency maxLength).Serving := by
  have hslots : ({ s with settings }.reconfigure maxConcurrency maxLength).slots = s.slots := by
    rw [reconfigure_slots]
    simp [slots, hmodel, hrevision]
  have hplain : Plain { s with settings } :=
    h.plain.fewer ⟨hallowlist, rfl, fun _ => ⟨rfl, rfl⟩, List.Subset.refl _, .inr rfl, rfl⟩
  refine ⟨hslots ▸ h.owned, ?_, hplain.fewer (reconfigure_names _ _ _)⟩
  rw [reconfigure_frame]
  refine ⟨h.consistent.submitted, fun m hm => ?_⟩
  have hresolved := h.consistent.resolved m hm
  have hstored : ∀ revision,
      settings.storedRevision revision = s.settings.storedRevision revision := by
    intro revision
    simp [Settings.storedRevision, hbackend, hmock]
  simp only
  split
  · exact hresolved.trans (hstored _).symm
  · exact hresolved.trans (hstored _).symm

end ModelRuntime

end RerankerService
