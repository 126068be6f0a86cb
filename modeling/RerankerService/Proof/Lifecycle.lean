import RerankerService.Foundation.Run
import RerankerService.Proof.Steps
import RerankerService.Runtime.Slots

/-!
# Model identity and ownership

The runtime refines the machine of three slots: an action is one move of the slots or none. Identity
and ownership are then invariants of the slots, each under the condition on the moves that the
lifecycle operations do not check.
-/

namespace RerankerService

open Transition

namespace ModelRuntime

variable {s s' : ModelRuntime}

/-! ### The runtime refines the slots -/

@[simp]
theorem syncActiveBackendState_slots (s : ModelRuntime) :
    s.syncActiveBackendState.slots = s.slots := by
  unfold syncActiveBackendState
  split <;> rfl

theorem slots_update_models (s : ModelRuntime) (model : ModelId) (object : Model)
    (hname : object.name = (s.models model).name)
    (hrevision : object.revision = (s.models model).revision) :
    { s with models := Function.update s.models model object }.slots = s.slots := by
  unfold slots
  congr
  funext m
  by_cases hm : m = model
  · subst hm
    simp [hname, hrevision]
  · simp [hm]

theorem allocate_slots (s : ModelRuntime) (name revision : Text) (maxLength : Nat)
    (loaded : Loaded) :
    (s.allocate name revision maxLength loaded).slots =
      { s.slots with
        identity := Function.update s.slots.identity s.loaded (name, revision)
        loaded := s.loaded + 1 } := by
  unfold slots allocate
  congr
  funext m
  by_cases hm : m = s.loaded
  · subst hm
    simp [Settings.loadModel]
  · simp [hm]

theorem reconfigure_slots (s : ModelRuntime) (maxConcurrency maxLength : Nat) :
    (s.reconfigure maxConcurrency maxLength).slots = s.slots := by
  unfold reconfigure
  simp only
  split
  · exact slots_update_models _ _ _ rfl rfl
  · rfl

theorem resumePredict_slots {id : PredictId} {reply : Reply Score}
    (h : s.resumePredict id = some (s', reply)) : s'.slots = s.slots := by
  unfold resumePredict at h
  split at h
  · cases h
    exact syncActiveBackendState_slots s
  · cases h
    rfl
  · cases h

theorem cancelPredict_slots (s : ModelRuntime) (id : PredictId) :
    (s.cancelPredict id).slots = s.slots := by
  unfold cancelPredict
  split <;> rfl

theorem finish_slots (s : ModelRuntime) (fallback : Bool) (model : Option ModelId) :
    (if fallback then model.elim s s.fallBack else s).slots = s.slots := by
  split
  · cases model with
    | none => rfl
    | some model => exact slots_update_models s model _ rfl rfl
  · rfl

theorem quiescent_tested (h : s.quiescent) : s.slots.tested = none := by
  unfold quiescent at h
  simp only [Bool.and_eq_true, Option.isNone_iff_eq_none] at h
  simp [slots, h.1.2]

/-- **Refinement**: every action is one move of the slots, or none. -/
theorem step_slots {a : Action} (h : s.step a = some s') :
    s.slots.MovesTo (s.event a) s'.slots := by
  obtain ⟨-, htakes⟩ := step_takes h
  cases htakes with
  | @loadArrived name revision maxLength started loaded hloading =>
      have hallocate := s.allocate_slots name revision maxLength loaded
      have hsync := syncActiveBackendState_slots
        { s.allocate name revision maxLength loaded with model := some s.loaded }
      simp only [event, hloading, Slots.MovesTo, Slots.step]
      refine congrArg some (.trans ?_ hsync.symm)
      exact congrArg (fun t : Slots => { t with active := some s.loaded }) hallocate.symm
  | candidateGranted hfree hqueue => simp [event, hqueue, Slots.MovesTo, slots, hfree]
  | @activated started rest candidate info operation modelReady hqueue hcandidate hinfo =>
      have hsync := syncActiveBackendState_slots
        { ({ s with lockQueue := rest }.switchTo
            { model := some candidate, name := info.name, revision := info.resolvedRevision
              loadedAt := some info.loadedAt }) with
          candidate := none, candidateInfo := none }
      have hslots : s.slots.candidate = some candidate ∧
          s.slots.candidateIdentity = some (info.name, info.resolvedRevision) := by
        simp [slots, hcandidate, hinfo]
      simp only [event, hqueue, hcandidate, hinfo, Option.isSome_some, and_self, ↓reduceIte,
        Slots.MovesTo, Slots.step, hslots.1, hslots.2]
      exact congrArg some hsync.symm
  | activationRefused hqueue hnone =>
      rcases hnone with hnone | hnone
      · simp [event, hqueue, hnone, Slots.MovesTo, slots]
      · simp [event, hqueue, hnone, Slots.MovesTo, slots]
  | @rolledBack started rest previous operation hqueue hprevious =>
      have hsync := syncActiveBackendState_slots ({ s with lockQueue := rest }.switchTo previous)
      have hslots : s.slots.previous =
          some (previous.model, previous.name, previous.revision) := by
        simp [slots, hprevious]
      simp only [event, hqueue, hprevious, Option.isSome_some, ↓reduceIte, Slots.MovesTo,
        Slots.step, hslots, Option.map_some]
      exact congrArg some hsync.symm
  | rollbackRefused hqueue hnone => simp [event, hqueue, hnone, Slots.MovesTo, slots]
  | @candidateLoaded check maxLength started loaded hholder =>
      have hallocate := s.allocate_slots check.name (check.resolvedRevision.getD []) maxLength loaded
      have htested : s.slots.tested = none := by simp [slots, hholder]
      simp only [event, hholder, Slots.MovesTo, Slots.step, htested, Option.isNone_none,
        ↓reduceIte]
      exact congrArg (fun t : Slots => some { t with
        tested := some (s.loaded, check.name, check.resolvedRevision.getD []) }) hallocate.symm
  | candidateRaised hholder => simp [event, Slots.MovesTo, slots, hholder]
  | @candidateAccepted check m started outcome score operation hholder hscore =>
      have htested : s.slots.tested = some (m, check.name, check.resolvedRevision.getD []) := by
        simp [slots, hholder]
      simp only [event, hscore, Slots.MovesTo, Slots.step, htested]
      rfl
  | @candidateRejected check m started outcome error operation hholder herror =>
      have htested : s.slots.tested = some (m, check.name, check.resolvedRevision.getD []) := by
        simp [slots, hholder]
      simp only [event, herror, Slots.MovesTo, Slots.step, htested]
      rfl
  | reconfigured => exact reconfigure_slots s _ _
  | closed hquiescent =>
      have htested := quiescent_tested hquiescent
      have hprevious : s.slots.previous.bind Prod.fst = s.previous.bind Previous.model := by
        unfold slots
        cases s.previous <;> rfl
      simp only [event, Slots.MovesTo, Slots.step, htested, Option.isNone_none, ↓reduceIte,
        hprevious]
      exact congrArg some (Slots.ext rfl rfl rfl rfl rfl rfl rfl rfl htested.symm)
  | answered hphase => exact finish_slots s _ _
  | resumed hresume => exact resumePredict_slots hresume
  | cancelled => exact cancelPredict_slots s _
  | _ => rfl

/-! ### Which moves an action can be -/

theorem event_lockAcquired {e : Slots.Event} (h : s.event .lockAcquired = some e) :
    e = .activate ∨ e = .rollback := by
  simp only [event] at h
  split at h
  · split at h
    · exact .inl (Option.some.inj h).symm
    · cases h
  · split at h
    · exact .inr (Option.some.inj h).symm
    · cases h
  · cases h

theorem event_candidateReturned {outcome : Except Error Loaded} {e : Slots.Event}
    (h : s.event (.candidateReturned outcome) = some e) : ∃ requested, e = .test requested := by
  cases outcome with
  | error error => cases h
  | ok loaded =>
      simp only [event] at h
      split at h
      · exact ⟨_, (Option.some.inj h).symm⟩
      · cases h

theorem event_candidateSmoked {outcome : Except Error (List Value)} {e : Slots.Event}
    (h : s.event (.candidateSmoked outcome) = some e) :
    (e = .accept ∧ ∃ score, smokeTest outcome = .ok score) ∨
      (e = .reject ∧ ∃ error, smokeTest outcome = .error error) := by
  simp only [event] at h
  split at h
  · rename_i score hscore
    exact .inl ⟨(Option.some.inj h).symm, score, hscore⟩
  · rename_i error herror
    exact .inr ⟨(Option.some.inj h).symm, error, herror⟩

theorem event_loadReturned {outcome : Except Error Loaded} {e : Slots.Event}
    (h : s.event (.loadReturned outcome) = some e) : ∃ requested, e = .load requested := by
  cases outcome with
  | error error => cases h
  | ok loaded =>
      simp only [event] at h
      split at h
      · exact ⟨_, (Option.some.inj h).symm⟩
      · cases h

/-- Apart from the load, the lock and the shutdown no action moves the active slot. -/
theorem event_other {a : Action} (hload : ∀ outcome, a ≠ .loadReturned outcome)
    (hlock : a ≠ .lockAcquired) (hclose : a ≠ .close) {e : Slots.Event}
    (h : s.event a = some e) :
    (∀ requested, e ≠ .load requested) ∧ e ≠ .close ∧ e ≠ .activate ∧ e ≠ .rollback := by
  cases a with
  | loadReturned outcome => exact absurd rfl (hload outcome)
  | lockAcquired => exact absurd rfl hlock
  | close => exact absurd rfl hclose
  | candidateReturned outcome =>
      obtain ⟨requested, rfl⟩ := event_candidateReturned h
      simp
  | candidateSmoked outcome =>
      rcases event_candidateSmoked h with ⟨rfl, -⟩ | ⟨rfl, -⟩
      · simp
      · simp
  | _ => cases h

theorem model_eq {a : Action} (hevent : ∀ e, s.event a = some e →
      (∀ requested, e ≠ .load requested) ∧ e ≠ .close ∧ e ≠ .activate ∧ e ≠ .rollback)
    (hstep : s.step a = some s') : s'.model = s.model := by
  refine (step_slots hstep).keeps (P := fun t => t.active = s.model) rfl fun e he hmoves => ?_
  obtain ⟨hload, hclose, hactivate, hrollback⟩ := hevent e he
  exact (Slots.active_of_step hload hclose hactivate hrollback hmoves).1

/-- The coroutine that gets the lock, and the model that is active afterwards. -/
inductive Grants (s s' : ModelRuntime) : Prop where
  | queued {check : CandidateCheck} {started : Nat} {rest : List LockRequest}
      (hqueue : s.lockQueue = .candidate check started :: rest) (hmodel : s'.model = s.model)
  | activated {started : Nat} {rest : List LockRequest} {candidate : ModelId}
      {info : CandidateInfo} (hqueue : s.lockQueue = .activate started :: rest)
      (hcandidate : s.candidate = some candidate) (hinfo : s.candidateInfo = some info)
      (hmodel : s'.model = some candidate)
  | refused {started : Nat} {rest : List LockRequest}
      (hqueue : s.lockQueue = .activate started :: rest)
      (hnone : s.candidate = none ∨ s.candidateInfo = none) (hmodel : s'.model = s.model)
  | rolledBack {started : Nat} {rest : List LockRequest} {previous : Previous}
      (hqueue : s.lockQueue = .rollback started :: rest)
      (hprevious : s.previous = some previous) (hmodel : s'.model = previous.model)
  | stayed {started : Nat} {rest : List LockRequest}
      (hqueue : s.lockQueue = .rollback started :: rest) (hnone : s.previous = none)
      (hmodel : s'.model = s.model)

theorem lockAcquired_grants (h : s.step .lockAcquired = some s') : s.Grants s' := by
  obtain ⟨-, htakes⟩ := step_takes h
  cases htakes with
  | candidateGranted hfree hqueue => exact .queued hqueue rfl
  | activated hqueue hcandidate hinfo =>
      exact .activated hqueue hcandidate hinfo (congrArg Slots.active (syncActiveBackendState_slots _))
  | activationRefused hqueue hnone => exact .refused hqueue hnone rfl
  | rolledBack hqueue hprevious =>
      exact .rolledBack hqueue hprevious (congrArg Slots.active (syncActiveBackendState_slots _))
  | rollbackRefused hqueue hnone => exact .stayed hqueue hnone rfl

/-! ### Identity -/

/-- What the active slot, the candidate slot and the rollback slot hold was loaded for the name and
revision stored with it. -/
structure IdentitiesHold (s : ModelRuntime) : Prop where
  active : ∀ m, s.model = some m → m < s.loaded ∧
    (s.models m).name = s.settings.model ∧ (s.models m).revision = s.settings.modelRevision
  candidate : ∀ m, s.candidate = some m → m < s.loaded ∧ ∃ info, s.candidateInfo = some info ∧
    (s.models m).name = info.name ∧ (s.models m).revision = info.resolvedRevision
  previous : ∀ previous m, s.previous = some previous → previous.model = some m → m < s.loaded ∧
    (s.models m).name = previous.name ∧ (s.models m).revision = previous.revision

theorem identitiesHold_of_identified (h : s.slots.Identified) : s.IdentitiesHold where
  active m hm := by
    obtain ⟨hlt, hidentity⟩ := h.active m hm
    exact ⟨hlt, Prod.mk.inj hidentity⟩
  candidate m hm := by
    obtain ⟨hlt, hidentity⟩ := h.candidate m hm
    obtain ⟨info, hinfo, heq⟩ := Option.map_eq_some_iff.mp hidentity
    obtain ⟨hname, hrevision⟩ := Prod.mk.inj heq
    exact ⟨hlt, info, hinfo, hname.symm, hrevision.symm⟩
  previous previous m hprevious hm := by
    have hslot : s.slots.previous = some (some m, previous.name, previous.revision) := by
      simp [slots, hprevious, hm]
    obtain ⟨hlt, hidentity⟩ := h.previous m _ hslot
    exact ⟨hlt, Prod.mk.inj hidentity⟩

theorem Initial.slots (h : Initial s) : s.slots.Identified ∧ s.slots.Owned := by
  obtain ⟨settings, backendDevice, rfl⟩ := h
  refine ⟨⟨?_, ?_, ?_, ?_⟩, fun m => ?_⟩ <;> simp [new, ModelRuntime.slots, Slots.owners]

/-- When the model of an initial load arrives, the settings still name what it was loaded for. -/
def LoadsCurrent (s : ModelRuntime) (a : Action) : Prop :=
  ∀ requested, s.event a = some (.load requested) →
    requested = (s.settings.model, s.settings.modelRevision)

theorem step_identified {a : Action} (h : s.slots.Identified) (hcurrent : LoadsCurrent s a)
    (hstep : s.step a = some s') : s'.slots.Identified := by
  refine (step_slots hstep).keeps h fun e hevent hmoves => h.step (fun requested he => ?_) hmoves
  exact hcurrent requested (he ▸ hevent)

/-- An initial load whose model arrives under another name breaks the identity at once. -/
theorem loadsCurrent_of_identitiesHold {a : Action} (h : s'.IdentitiesHold)
    (hstep : s.step a = some s') : LoadsCurrent s a := by
  intro requested hevent
  have hmoves := step_slots hstep
  rw [hevent] at hmoves
  have hslots := Option.some.inj hmoves
  have hactive : s'.slots.active = some s.loaded := by
    rw [← hslots]
    rfl
  have hidentity : s'.slots.identity s.loaded = requested := by
    rw [← hslots]
    exact Function.update_self _ _ _
  have hcurrent : s'.slots.activeIdentity = s.slots.activeIdentity := by
    rw [← hslots]
  obtain ⟨-, hname, hrevision⟩ := h.active s.loaded hactive
  rw [← hidentity]
  exact (Prod.ext hname hrevision : _ = s'.slots.activeIdentity).trans hcurrent

/-- **Model identity** holds in every state of the runs in which every initial load is current when
its model arrives, and a step that is not breaks it. -/
theorem identities_hold (hreach : Reaches step Initial LoadsCurrent s) :
    s.IdentitiesHold ∧
      ∀ a s', s.step a = some s' → (s'.IdentitiesHold ↔ LoadsCurrent s a) := by
  have hidentified : s.slots.Identified :=
    hreach.invariant (fun _ h => (Initial.slots h).1) fun _ _ _ h hcurrent hstep =>
      step_identified h hcurrent hstep
  refine ⟨identitiesHold_of_identified hidentified, fun a s' hstep => ⟨fun h => ?_, fun h => ?_⟩⟩
  · exact loadsCurrent_of_identitiesHold h hstep
  · exact identitiesHold_of_identified (step_identified hidentified h hstep)

def loadedModel : Loaded where
  requestedRevision := List.replicate 40 'a'
  cap := 8192
  activeProvider := "CPUExecutionProvider".toList

def twoRevisions : Settings where
  model := ['m']
  modelRevision := List.replicate 40 'a'
  modelAllowlist := ['m']

def idleMachine : Probe where
  hub := .ok (List.replicate 40 'b')
  availableBytes := 4000000000
  artifactAvailable := true
  gpuParallelLoadSupported := true

def loadAndWarmUp : List Action :=
  [.loadBegin, .loadReturned (.ok loadedModel), .warmedUp (.ok ())]

def loadCandidate : List Action :=
  [.candidateBegin idleMachine ['m'] (List.replicate 40 'b'), .lockAcquired,
    .candidateReturned (.ok loadedModel), .candidateSmoked (.ok [.finite 1])]

theorem loadsCurrent_of_ne {a : Action} (h : ∀ loaded, a ≠ .loadReturned (.ok loaded)) :
    LoadsCurrent s a := by
  intro requested hevent
  revert hevent
  unfold event
  split
  · rename_i loaded
    exact absurd rfl (h loaded)
  all_goals repeat' split
  all_goals simp

theorem identities_hold_activated : ∃ s,
    run step (new twoRevisions "auto".toList)
      (loadAndWarmUp ++ (loadCandidate ++ [.activateBegin, .lockAcquired])) = some s ∧
      s.model = some 1 ∧ s.previous.bind Previous.model = some 0 ∧ s.IdentitiesHold := by
  have hstart : Reaches step Initial LoadsCurrent (new twoRevisions "auto".toList) :=
    .start ⟨twoRevisions, _, rfl⟩
  have hbegun := hstart.next (a := .loadBegin) (fun _ hevent => nomatch hevent) rfl
  have hloaded := hbegun.next (a := .loadReturned (.ok loadedModel)) (fun requested hevent => by
    cases hevent
    rfl) rfl
  have hrest : ∀ a ∈ Action.warmedUp (.ok ()) :: (loadCandidate ++ [.activateBegin, .lockAcquired]),
      ∀ t, LoadsCurrent t a := by
    intro a ha t
    refine loadsCurrent_of_ne ?_
    rintro loaded rfl
    simp [loadCandidate] at ha
  have hactivated := hloaded.extend hrest rfl
  exact ⟨_, rfl, rfl, rfl, (identities_hold hactivated).1⟩

/-- The candidate is activated while the initial load still awaits `backend.load`. -/
def activatedDuringLoad : List Action :=
  .loadBegin :: loadCandidate ++ [.activateBegin, .lockAcquired, .loadReturned (.ok loadedModel)]

theorem loaded_under_another_revision :
    ¬∀ s, Reachable step Initial s → s.IdentitiesHold := by
  intro hclaim
  have hrun : run step (new twoRevisions "auto".toList) activatedDuringLoad = some (_ : ModelRuntime) :=
    rfl
  have hholds := hclaim _ (reachable_of_run ⟨twoRevisions, _, rfl⟩ hrun)
  have hrevision := (hholds.active 1 rfl).2.2
  revert hrevision
  decide

/-! ### Ownership -/

def Holds (s : ModelRuntime) (m : ModelId) : Prop :=
  s.model = some m ∨ s.candidate = some m ∨
    ∃ previous, s.previous = some previous ∧ previous.model = some m

/-- The object is in a slot and not unloaded, or it was unloaded exactly once. -/
def AccountedFor (s : ModelRuntime) (m : ModelId) : Prop :=
  (s.Holds m ∧ m ∉ s.unloaded) ∨ s.unloaded.count m = 1

/-- No step overwrites a slot that holds a model. -/
def FillsEmptySlots (s : ModelRuntime) (a : Action) : Prop :=
  ∀ e, s.event a = some e → s.slots.FillsEmpty e

theorem step_owned {a : Action} (h : s.slots.Owned) (hempty : FillsEmptySlots s a)
    (hstep : s.step a = some s') : s'.slots.Owned :=
  (step_slots hstep).keeps h fun e hevent hmoves => h.step (hempty e hevent) hmoves

theorem accountedFor_of_owned (h : s.slots.Owned) (hquiescent : s.quiescent) {m : ModelId}
    (hm : m < s.loaded) : s.AccountedFor m := by
  have hcount := h m
  rw [if_pos (show m < s.slots.loaded from hm)] at hcount
  unfold Slots.owners at hcount
  rw [quiescent_tested hquiescent] at hcount
  by_cases hunloaded : s.unloaded.count m = 1
  · exact .inr hunloaded
  · have hle : s.slots.unloaded.count m = 0 := by
      have : s.slots.unloaded.count m ≠ 1 := hunloaded
      omega
    refine .inl ⟨?_, List.count_eq_zero.mp hle⟩
    by_contra hnot
    simp only [Holds, not_or, not_exists, not_and] at hnot
    obtain ⟨hactive, hcandidate, hprevious⟩ := hnot
    have hback : s.slots.previous.bind Prod.fst ≠ some m := by
      unfold slots
      cases hslot : s.previous with
      | none => simp
      | some previous => simpa using hprevious previous hslot
    rw [if_neg (show s.slots.active ≠ some m from hactive),
      if_neg (show s.slots.candidate ≠ some m from hcandidate), if_neg hback, hle] at hcount
    simp at hcount

/-- **No model is leaked or unloaded twice** in the runs whose steps fill empty slots only. -/
theorem models_accounted (hreach : Reaches step Initial FillsEmptySlots s) :
    (s.quiescent → ∀ m < s.loaded, s.AccountedFor m) ∧
      ∀ s', s.step .close = some s' → ∀ m < s'.loaded, s'.unloaded.count m = 1 := by
  have howned : s.slots.Owned :=
    hreach.invariant (fun _ h => (Initial.slots h).2) fun _ _ _ h hempty hstep =>
      step_owned h hempty hstep
  refine ⟨fun hquiescent m hm => accountedFor_of_owned howned hquiescent hm,
    fun s' hclose m hm => ?_⟩
  have hcount := step_owned howned (fun e he => by cases he; trivial) hclose m
  have hmoves := step_slots hclose
  simp only [event, Slots.MovesTo, Slots.step] at hmoves
  split at hmoves
  · rename_i htested
    have hslots := Option.some.inj hmoves
    rw [Option.isNone_iff_eq_none] at htested
    rw [if_pos (show m < s'.slots.loaded from hm)] at hcount
    unfold Slots.owners at hcount
    rw [← hslots] at hcount
    simp only [htested, reduceCtorEq, ↓reduceIte, Option.bind_none, Option.map_none, zero_add]
      at hcount
    calc s'.unloaded.count m = s'.slots.unloaded.count m := rfl
      _ = 1 := by rw [← hslots]; exact hcount
  · cases hmoves

/-- The activated candidate and the model kept for a rollback are both unloaded. -/
theorem models_accounted_after_close : ∃ s,
    run step (new twoRevisions "auto".toList)
      (loadAndWarmUp ++ loadCandidate ++ [.activateBegin, .lockAcquired, .close]) = some s ∧
      s.unloaded.count 0 = 1 ∧ s.unloaded.count 1 = 1 := by
  have hstart : Reaches step Initial FillsEmptySlots (new twoRevisions "auto".toList) :=
    .start ⟨twoRevisions, _, rfl⟩
  have hbegun := hstart.next (a := .loadBegin) (fun _ hevent => nomatch hevent) rfl
  have hloaded := hbegun.next (a := .loadReturned (.ok loadedModel)) (fun e hevent => by
    cases hevent
    rfl) rfl
  have hwarm := hloaded.next (a := .warmedUp (.ok ())) (fun _ hevent => nomatch hevent) rfl
  have hchecked := hwarm.next (a := .candidateBegin idleMachine ['m'] (List.replicate 40 'b'))
    (fun _ hevent => nomatch hevent) rfl
  have hlocked := hchecked.next (a := .lockAcquired) (fun _ hevent => nomatch hevent) rfl
  have hcandidate := hlocked.next (a := .candidateReturned (.ok loadedModel)) (fun e hevent => by
    cases hevent
    trivial) rfl
  have haccepted := hcandidate.next (a := .candidateSmoked (.ok [.finite 1])) (fun e hevent => by
    cases hevent
    rfl) rfl
  have hqueued := haccepted.next (a := .activateBegin) (fun _ hevent => nomatch hevent) rfl
  have hactivated := hqueued.next (a := .lockAcquired) (fun e hevent => by
    cases hevent
    rfl) rfl
  have hclosed := (models_accounted hactivated).2 _ rfl
  exact ⟨_, rfl, hclosed 0 (by decide), hclosed 1 (by decide)⟩

/-- Neither the first of two candidates nor its memory is ever given back. -/
theorem first_candidate_leaked : ¬∀ s, Reachable step Initial s → s.quiescent →
    ∀ m < s.loaded, s.AccountedFor m := by
  intro hclaim
  have hrun : run step (new twoRevisions "auto".toList)
      (loadAndWarmUp ++ loadCandidate ++ loadCandidate) = some (_ : ModelRuntime) := rfl
  have hholds := hclaim _ (reachable_of_run ⟨twoRevisions, _, rfl⟩ hrun) rfl 1
    (Nat.lt_of_sub_eq_succ rfl)
  rcases hholds with ⟨hactive | hcandidate | ⟨previous, hprevious, -⟩, -⟩ | hcount
  · cases hactive
  · cases hcandidate
  · cases hprevious
  · cases hcount

end ModelRuntime

end RerankerService
