import RerankerService.Proof.Failures

/-!
# Readiness

`ready` is written by the initial load only, the active model by the lifecycle operations too. The
runtime is watched here: `passed` collects the objects that passed their warm-up or smoke test, and
the application calls `load` once.
-/

namespace RerankerService

open Transition

namespace ModelRuntime

variable {s s' : ModelRuntime} {a : Action}

def Action.beginsLoad : Action → Bool
  | .loadBegin => true
  | _ => false

def passes (s : ModelRuntime) : Action → Option ModelId
  | .warmedUp (.ok _) =>
      match s.initialLoad with
      | .warming m _ => some m
      | _ => none
  | .candidateSmoked outcome =>
      match smokeTest outcome, s.lockHolder with
      | .ok _, some (.smoking _ m _) => some m
      | _, _ => none
  | _ => none

structure Watched where
  runtime : ModelRuntime
  passed : List ModelId := []
  begun : Bool := false

namespace Watched

variable {w w' : Watched}

def step (w : Watched) (a : Action) : Option Watched :=
  if w.begun && a.beginsLoad then none
  else
    (w.runtime.step a).map fun runtime =>
      { runtime
        passed := w.passed ++ (w.runtime.passes a).toList
        begun := w.begun || a.beginsLoad }

def Initial (w : Watched) : Prop :=
  ∃ s, ModelRuntime.Initial s ∧ w = { runtime := s }

/-- The slot holds an object that passed its warm-up or smoke test. -/
def Tested (w : Watched) (model : Option ModelId) : Prop :=
  ∃ m, model = some m ∧ m ∈ w.passed

def Truthful (w : Watched) : Prop :=
  w.runtime.ready = true ↔ w.Tested w.runtime.model

/-- A load fails while no tested model is active, and succeeds while the model that it warmed up or
another tested one is. Without a load in progress, a candidate is activated when the runtime is
ready, and a rollback activates a tested model exactly when it is. -/
def KeepsReadiness (w : Watched) : Action → Prop
  | .loadReturned (.error _) | .warmedUp (.error _) | .loadCancelled =>
      ¬w.Tested w.runtime.model
  | .warmedUp (.ok _) =>
      match w.runtime.initialLoad with
      | .warming m _ => w.runtime.model = some m ∨ w.Tested w.runtime.model
      | _ => True
  | .lockAcquired =>
      w.runtime.initialLoad = .idle →
        match w.runtime.lockQueue with
        | .activate _ :: _ =>
            w.runtime.candidate.isSome → w.runtime.candidateInfo.isSome → w.runtime.ready = true
        | .rollback _ :: _ =>
            ∀ previous, w.runtime.previous = some previous →
              (w.runtime.ready = true ↔ w.Tested previous.model)
        | _ => True
  | _ => True

end Watched

/-! ### Which steps move the load -/

def Action.loads : Action → Bool
  | .loadBegin | .loadReturned _ | .warmedUp _ | .loadCancelled => true
  | _ => false

def gate (s : ModelRuntime) : Bool × InitialLoad :=
  (s.ready, s.initialLoad)

theorem syncActiveBackendState_gate (s : ModelRuntime) :
    s.syncActiveBackendState.gate = s.gate := by
  unfold syncActiveBackendState
  split <;> rfl

theorem reconfigure_gate (s : ModelRuntime) (maxConcurrency maxLength : Nat) :
    (s.reconfigure maxConcurrency maxLength).gate = s.gate := by
  unfold reconfigure
  dsimp only
  split <;> rfl

theorem finish_gate (s : ModelRuntime) (fallback : Bool) (model : Option ModelId) :
    (if fallback then model.elim s s.fallBack else s).gate = s.gate := by
  cases fallback <;> cases model <;> rfl

theorem resumePredict_gate {id : PredictId} {reply : Reply Score}
    (h : s.resumePredict id = some (s', reply)) : s'.gate = s.gate := by
  unfold resumePredict at h
  split at h
  · cases h
    exact syncActiveBackendState_gate s
  · cases h
    rfl
  · cases h

theorem cancelPredict_gate (s : ModelRuntime) (id : PredictId) :
    (s.cancelPredict id).gate = s.gate := by
  unfold cancelPredict
  split <;> rfl

inductive MovesLoad (s s' : ModelRuntime) : Action → Prop where
  | begun (hidle : s.initialLoad = .idle) (hready : s'.ready = s.ready)
      (hload : s'.initialLoad ≠ .idle) : MovesLoad s s' .loadBegin
  | arrived (loaded : Loaded) (hidle : s.initialLoad ≠ .idle) (hready : s'.ready = s.ready)
      (hload : s'.initialLoad ≠ .idle) : MovesLoad s s' (.loadReturned (.ok loaded))
  | failed {a : Action} (ha : (∃ error, a = .loadReturned (.error error)) ∨
        (∃ error, a = .warmedUp (.error error)) ∨ a = .loadCancelled)
      (hload : s.initialLoad ≠ .idle) (hready : s'.ready = s.ready)
      (hidle : s'.initialLoad = .idle) : MovesLoad s s' a
  | warmed (m : ModelId) (started : Nat) (hload : s.initialLoad = .warming m started)
      (hready : s'.ready = true) (hidle : s'.initialLoad = .idle) :
      MovesLoad s s' (.warmedUp (.ok ()))
  | other {a : Action} (ha : a.loads = false) (hready : s'.ready = s.ready)
      (hload : s'.initialLoad = s.initialLoad) : MovesLoad s s' a

theorem step_movesLoad (h : s.step a = some s') : s.MovesLoad s' a := by
  obtain ⟨-, htakes⟩ := step_takes h
  have hother (ha : a.loads = false) (hgate : s'.gate = s.gate) : s.MovesLoad s' a :=
    .other ha (congrArg Prod.fst hgate) (congrArg Prod.snd hgate)
  cases htakes with
  | loadBegun hidle => exact .begun hidle rfl (by simp)
  | loadArrived hloading =>
      refine .arrived _ (by simp [hloading]) ?_ (by simp)
      exact congrArg Prod.fst (syncActiveBackendState_gate _)
  | loadRaised hloading => exact .failed (.inl ⟨_, rfl⟩) (by simp [hloading]) rfl rfl
  | warmedUp hwarming => exact .warmed _ _ hwarming rfl rfl
  | warmUpRaised hwarming => exact .failed (.inr (.inl ⟨_, rfl⟩)) (by simp [hwarming]) rfl rfl
  | loadCancelled hload => exact .failed (.inr (.inr rfl)) hload rfl rfl
  | activated hqueue hcandidate hinfo => exact hother rfl (syncActiveBackendState_gate _)
  | rolledBack hqueue hprevious => exact hother rfl (syncActiveBackendState_gate _)
  | reconfigured => exact hother rfl (reconfigure_gate s _ _)
  | answered hphase => exact hother rfl (finish_gate s _ _)
  | resumed hresume => exact hother rfl (resumePredict_gate hresume)
  | cancelled => exact hother rfl (cancelPredict_gate s _)
  | _ => exact hother rfl rfl

theorem event_accept (h : s.event a = some .accept) :
    ∃ outcome score, a = .candidateSmoked outcome ∧ smokeTest outcome = .ok score := by
  cases a with
  | candidateSmoked outcome =>
      rcases event_candidateSmoked h with ⟨-, score, hscore⟩ | ⟨heq, -⟩
      · exact ⟨outcome, score, rfl, hscore⟩
      · cases heq
  | lockAcquired => rcases event_lockAcquired h with heq | heq <;> cases heq
  | loadReturned outcome =>
      obtain ⟨requested, heq⟩ := event_loadReturned h
      cases heq
  | candidateReturned outcome =>
      obtain ⟨requested, heq⟩ := event_candidateReturned h
      cases heq
  | _ => cases h

theorem passes_eq_none (ha : a.loads = false) (hevent : s.event a ≠ some .accept) :
    s.passes a = none := by
  cases a with
  | loadBegin | loadReturned _ | warmedUp _ | loadCancelled => cases ha
  | candidateSmoked outcome =>
      dsimp only [passes]
      cases hsmoke : smokeTest outcome with
      | ok score => simp [event, hsmoke] at hevent
      | error error => rfl
  | _ => rfl

theorem passes_accept (hevent : s.event a = some .accept) {m : ModelId} {identity : Identity}
    (htested : s.slots.tested = some (m, identity)) : s.passes a = some m := by
  obtain ⟨outcome, score, rfl, hscore⟩ := event_accept hevent
  simp only [slots] at htested
  split at htested
  · rename_i check m' started hholder
    cases htested
    simp only [passes, hscore, hholder]
  · cases htested

namespace Watched

variable {w w' : Watched}

theorem step_cases (h : w.step a = some w') :
    (w.begun && a.beginsLoad) = false ∧ w.runtime.step a = some w'.runtime ∧
      w'.passed = w.passed ++ (w.runtime.passes a).toList ∧
        w'.begun = (w.begun || a.beginsLoad) := by
  unfold step at h
  split at h
  · cases h
  · rename_i hbegun
    obtain ⟨runtime, hruntime, rfl⟩ := Option.map_eq_some_iff.mp h
    exact ⟨Bool.eq_false_iff.mpr hbegun, hruntime, rfl, rfl⟩

theorem open_of_step (h : w.step a = some w') : w.runtime.closed = false := by
  obtain ⟨-, hruntime, -, -⟩ := step_cases h
  exact (step_takes hruntime).1

/-- What holds in every run: a candidate was tested, and the runtime becomes ready at the end of
the load at the earliest. -/
structure Sound (w : Watched) : Prop where
  slots : w.runtime.slots.AtMostOnce
  candidate : ∀ m, w.runtime.candidate = some m → m ∈ w.passed
  unbegun : w.begun = false → w.runtime.ready = false ∧ w.runtime.initialLoad = .idle
  unready : w.runtime.initialLoad ≠ .idle → w.runtime.ready = false

theorem Initial.sound (h : Initial w) : w.Sound := by
  obtain ⟨s, hs, rfl⟩ := h
  obtain ⟨settings, backendDevice, rfl⟩ := hs
  constructor
  · exact ModelRuntime.Initial.atMostOnce ⟨settings, backendDevice, rfl⟩
  · intro m hm
    cases hm
  · exact fun _ => ⟨rfl, rfl⟩
  · exact fun _ => rfl

/-! ### The candidate was tested -/

theorem candidate_tested (h : ∀ m, w.runtime.candidate = some m → m ∈ w.passed)
    (hstep : w.step a = some w') : ∀ m, w'.runtime.candidate = some m → m ∈ w'.passed := by
  obtain ⟨-, hruntime, hpassed, -⟩ := step_cases hstep
  intro m hm
  rw [hpassed, List.mem_append]
  have hslot : w'.runtime.slots.candidate = some m → m ∈ w.passed ∨
      m ∈ (w.runtime.passes a).toList := by
    refine (step_slots hruntime).keeps (P := fun t => t.candidate = some m → m ∈ w.passed ∨
      m ∈ (w.runtime.passes a).toList) (fun hsame => .inl (h m hsame)) fun e hevent hmoves hnew => ?_
    rcases Slots.candidate_of_step hmoves with hsame | hnone | ⟨rfl, n, identity, htested, hn⟩
    · exact .inl (h m (hsame.symm.trans hnew))
    · cases hnone.symm.trans hnew
    · obtain rfl : n = m := Option.some.inj (hn.symm.trans hnew)
      rw [passes_accept hevent htested]
      exact .inr List.mem_cons_self
  exact hslot hm

theorem Sound.step (h : w.Sound) (hstep : w.step a = some w') : w'.Sound := by
  obtain ⟨hfirst, hruntime, -, hbegun⟩ := step_cases hstep
  refine ⟨atMostOnce_step h.slots hruntime, candidate_tested h.candidate hstep, fun hnot => ?_,
    fun hload => ?_⟩
  · rw [hbegun, Bool.or_eq_false_iff] at hnot
    obtain ⟨hready, hidle⟩ := h.unbegun hnot.1
    cases step_movesLoad hruntime with
    | begun => cases hnot.2
    | arrived loaded hload => exact absurd hidle hload
    | failed ha hload => exact absurd hidle hload
    | warmed m started hload => cases hload.symm.trans hidle
    | other ha hsame hstays => exact ⟨hsame.trans hready, hstays.trans hidle⟩
  · cases step_movesLoad hruntime with
    | begun hidle hsame =>
        rw [Action.beginsLoad, Bool.and_true] at hfirst
        exact hsame.trans (h.unbegun hfirst).1
    | arrived loaded hbefore hsame => exact hsame.trans (h.unready hbefore)
    | failed ha hbefore hsame hidle => exact absurd hidle hload
    | warmed m started hbefore hsame hidle => exact absurd hidle hload
    | other ha hsame hstays => exact hsame.trans (h.unready (hstays ▸ hload))

/-! ### One step -/

theorem Sound.tested_ne (h : w.Sound) {m : ModelId} {identity : Identity}
    (htested : w.runtime.slots.tested = some (m, identity)) : w.runtime.model ≠ some m := by
  intro hactive
  have hcount := h.slots.owners_le m
  have hslot : w.runtime.slots.active = some m := hactive
  simp only [Slots.owners, hslot, htested, Option.map_some, ↓reduceIte] at hcount
  omega

theorem truthful_iff_of_model (hready : w'.runtime.ready = w.runtime.ready)
    (hmodel : w'.runtime.model = w.runtime.model)
    (hpassed : ∀ m, w.runtime.model = some m → (m ∈ w'.passed ↔ m ∈ w.passed)) :
    w'.Truthful ↔ w.Truthful := by
  unfold Truthful Tested
  rw [hready, hmodel]
  have hsame : (∃ m, w.runtime.model = some m ∧ m ∈ w'.passed) ↔
      ∃ m, w.runtime.model = some m ∧ m ∈ w.passed :=
    exists_congr fun m => and_congr_right (hpassed m)
  rw [hsame]

theorem closed_of_close (h : s.step .close = some s') : s'.closed = true := by
  obtain ⟨-, htakes⟩ := step_takes h
  cases htakes with
  | closed hquiescent => rfl

theorem lockAcquired_truthful_iff (h : w.Sound) (hidle : w.runtime.initialLoad = .idle)
    (ht : w.Truthful) (hready : w'.runtime.ready = w.runtime.ready) (hpassed : w'.passed = w.passed)
    (hstep : w.runtime.step .lockAcquired = some w'.runtime) :
    w'.Truthful ↔ w.KeepsReadiness .lockAcquired := by
  have hkept (hmodel : w'.runtime.model = w.runtime.model) : w'.Truthful :=
    (truthful_iff_of_model hready hmodel fun m _ => by rw [hpassed]).mpr ht
  have htested (model : Option ModelId) : w'.Tested model ↔ w.Tested model := by
    unfold Tested
    rw [hpassed]
  simp only [KeepsReadiness, hidle, forall_const]
  cases lockAcquired_grants hstep with
  | queued hqueue hmodel =>
      simp only [hqueue, iff_true]
      exact hkept hmodel
  | @activated started rest candidate info hqueue hcandidate hinfo hmodel =>
      have hgood : w.Tested (some candidate) := ⟨candidate, rfl, h.candidate candidate hcandidate⟩
      rw [Truthful, hready, hmodel, htested]
      simp only [hqueue, hcandidate, hinfo, Option.isSome_some, forall_const, hgood, iff_true]
  | refused hqueue hnone hmodel =>
      simp only [hqueue]
      refine iff_of_true (hkept hmodel) fun hcandidate hinfo => ?_
      rcases hnone with hnone | hnone
      · simp [hnone] at hcandidate
      · simp [hnone] at hinfo
  | rolledBack hqueue hprevious hmodel =>
      rw [Truthful, hready, hmodel, htested]
      simp only [hqueue, hprevious, Option.some.injEq, forall_eq']
  | stayed hqueue hnone hmodel =>
      simp only [hqueue]
      refine iff_of_true (hkept hmodel) fun previous hprevious => ?_
      cases hnone.symm.trans hprevious

theorem keepsReadiness_of_other (hlock : a ≠ .lockAcquired) (ha : a.loads = false) :
    w.KeepsReadiness a := by
  cases a with
  | lockAcquired => exact absurd rfl hlock
  | loadBegin | loadReturned _ | warmedUp _ | loadCancelled => cases ha
  | _ => trivial

theorem active_not_passing (h : w.Sound) (ha : a.loads = false)
    (hstep : w.runtime.step a = some s') {m : ModelId} (hm : w.runtime.model = some m) :
    m ∉ (w.runtime.passes a).toList := by
  intro hmem
  rw [Option.mem_toList] at hmem
  by_cases hevent : w.runtime.event a = some .accept
  · have hmoves := step_slots hstep
    rw [hevent] at hmoves
    obtain ⟨⟨n, identity⟩, htested, -⟩ := Option.map_eq_some_iff.mp hmoves
    rw [passes_accept hevent htested] at hmem
    exact h.tested_ne htested (hm.trans hmem.symm)
  · rw [passes_eq_none ha hevent] at hmem
    cases hmem

theorem step_truthful_iff (h : w.Sound) (ht : w.runtime.initialLoad = .idle → w.Truthful)
    (hstep : w.step a = some w') (hopen : w'.runtime.closed = false)
    (hquiet : w'.runtime.initialLoad = .idle) : w'.Truthful ↔ w.KeepsReadiness a := by
  obtain ⟨-, hruntime, hpassed, -⟩ := step_cases hstep
  cases step_movesLoad hruntime with
  | begun hidle hready hload => exact absurd hquiet hload
  | arrived loaded hidle hready hload => exact absurd hquiet hload
  | failed ha hload hready hidle =>
      have hnone : w.runtime.passes a = none ∧ w.runtime.event a = none := by
        rcases ha with ⟨error, rfl⟩ | ⟨error, rfl⟩ | rfl <;> exact ⟨rfl, rfl⟩
      have hmodel : w'.runtime.model = w.runtime.model :=
        model_eq (by simp [hnone.2]) hruntime
      have hkeeps : w.KeepsReadiness a = ¬w.Tested w.runtime.model := by
        rcases ha with ⟨error, rfl⟩ | ⟨error, rfl⟩ | rfl <;> rfl
      rw [hnone.1, Option.toList_none, List.append_nil] at hpassed
      rw [hkeeps, Truthful, hready, h.unready hload, hmodel, Tested, hpassed]
      simp only [Bool.false_eq_true, false_iff]
      rfl
  | warmed m started hload hready hidle =>
      have hmodel : w'.runtime.model = w.runtime.model := model_eq (by simp [event]) hruntime
      rw [passes, hload] at hpassed
      rw [Truthful, hready, hmodel, Tested, hpassed]
      simp only [KeepsReadiness, hload, Tested, List.mem_append, Option.toList_some,
        List.mem_singleton, true_iff]
      grind
  | other ha hready hload =>
      have hidle : w.runtime.initialLoad = .idle := hload.symm.trans hquiet
      by_cases hlock : a = .lockAcquired
      · subst hlock
        have hnone : w.runtime.passes .lockAcquired = none := rfl
        rw [hnone, Option.toList_none, List.append_nil] at hpassed
        exact lockAcquired_truthful_iff h hidle (ht hidle) hready hpassed hruntime
      · have hclose : a ≠ .close := by
          rintro rfl
          cases hopen.symm.trans (closed_of_close hruntime)
        have hload (outcome : Except Error Loaded) : a ≠ .loadReturned outcome := by
          rintro rfl
          cases ha
        have hmodel := model_eq (fun e => event_other hload hlock hclose) hruntime
        refine iff_of_true ((truthful_iff_of_model hready hmodel fun m hm => ?_).mpr (ht hidle))
          (keepsReadiness_of_other hlock ha)
        rw [hpassed, List.mem_append, or_iff_left]
        exact active_not_passing h ha hruntime hm

/-! ### Runs -/

/-- **Readiness tells the truth** whenever no load is in progress, in the runs whose steps keep it,
and a step to such a state that does not keep it breaks it. -/
theorem ready_iff_tested (hreach : Reaches step Initial KeepsReadiness w) :
    (w.runtime.closed = false → w.runtime.initialLoad = .idle → w.Truthful) ∧
      ∀ a w', w.step a = some w' → w'.runtime.closed = false → w'.runtime.initialLoad = .idle →
        (w'.Truthful ↔ w.KeepsReadiness a) := by
  have hsound {v : Watched} (hv : Reaches step Initial KeepsReadiness v) : v.Sound :=
    hv.invariant (fun _ h => h.sound) fun _ _ _ h _ hstep => h.step hstep
  have htruthful : w.runtime.closed = false → w.runtime.initialLoad = .idle → w.Truthful := by
    refine hreach.invariant_of (I := Sound)
      (J := fun v => v.runtime.closed = false → v.runtime.initialLoad = .idle → v.Truthful)
      (fun v => hsound) ?_ ?_
    · rintro v ⟨s, ⟨settings, backendDevice, rfl⟩, rfl⟩ - -
      refine iff_of_false Bool.false_ne_true ?_
      rintro ⟨m, hm, -⟩
      cases hm
    · intro v a v' h ht hkeeps hstep hopen hidle
      exact (step_truthful_iff h (ht (open_of_step hstep)) hstep hopen hidle).mpr hkeeps
  refine ⟨htruthful, fun a w' hstep hopen hidle => ?_⟩
  exact step_truthful_iff (hsound hreach) (htruthful (open_of_step hstep)) hstep hopen hidle

theorem ready_iff_tested_activated : ∃ w,
    run step { runtime := new twoRevisions "auto".toList }
      (loadAndWarmUp ++ (loadCandidate ++ [.activateBegin, .lockAcquired])) = some w ∧
      w.runtime.model = some 1 ∧ w.runtime.ready = true ∧ w.Truthful := by
  have hstart : Reaches step Initial KeepsReadiness { runtime := new twoRevisions "auto".toList } :=
    .start ⟨_, ⟨twoRevisions, _, rfl⟩, rfl⟩
  have hbegun := hstart.next (a := .loadBegin) (by trivial) rfl
  have hloaded := hbegun.next (a := .loadReturned (.ok loadedModel)) (by trivial) rfl
  have hwarm := hloaded.next (a := .warmedUp (.ok ())) (by exact .inl rfl) rfl
  have hchecked := hwarm.next (a := .candidateBegin idleMachine ['m'] (List.replicate 40 'b'))
    (by trivial) rfl
  have hlocked := hchecked.next (a := .lockAcquired) (by exact fun _ => trivial) rfl
  have hcandidate := hlocked.next (a := .candidateReturned (.ok loadedModel)) (by trivial) rfl
  have haccepted := hcandidate.next (a := .candidateSmoked (.ok [.finite 1])) (by trivial) rfl
  have hqueued := haccepted.next (a := .activateBegin) (by trivial) rfl
  have hactivated := hqueued.next (a := .lockAcquired) (by exact fun _ _ _ => rfl) rfl
  exact ⟨_, rfl, rfl, rfl, (ready_iff_tested hactivated).1 rfl rfl⟩

/-- The artifact of the first model is missing; the operator loads and activates another one. -/
def activatedAfterFailure : List Action :=
  [.loadBegin, .loadReturned (.error (.runtimeError "artifact is missing"))] ++ loadCandidate ++
    [.activateBegin, .lockAcquired]

theorem tested_model_refused : ¬∀ w, Reachable step Initial w →
    w.runtime.closed = false → w.runtime.quiescent → w.Truthful := by
  intro hclaim
  have hrun : run step { runtime := new twoRevisions "auto".toList } activatedAfterFailure =
      some (_ : Watched) := rfl
  have htruthful := hclaim _ (reachable_of_run ⟨_, ⟨twoRevisions, _, rfl⟩, rfl⟩ hrun) rfl rfl
  have hready := htruthful.mpr ⟨0, rfl, List.mem_cons_self⟩
  cases hready

end Watched

end ModelRuntime

end RerankerService
