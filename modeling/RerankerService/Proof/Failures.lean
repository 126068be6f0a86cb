import RerankerService.Proof.Lifecycle

/-!
# Failed lifecycle operations

A `load_candidate` that is declined or fails, an activation without a candidate and a rollback
without a previous model leave what serves requests as it was, however their steps interleave; a
model that failed its smoke test is unloaded once.
-/

namespace RerankerService

open Transition

namespace ModelRuntime

variable {s s' : ModelRuntime} {a : Action}

/-- What serves requests, and what an activation or a rollback would replace it by. -/
structure Served where
  model : Option (ModelId × Model)
  name : Text
  revision : Text
  loadedAt : Option Nat
  ready : Bool
  device : Text
  effectiveMaxConcurrency : Nat
  candidate : Option (ModelId × Model)
  candidateInfo : Option CandidateInfo
  previous : Option (Previous × Option Model)

def served (s : ModelRuntime) : Served where
  model := s.model.map fun m => (m, s.models m)
  name := s.settings.model
  revision := s.settings.modelRevision
  loadedAt := s.loadedAt
  ready := s.ready
  device := s.device
  effectiveMaxConcurrency := s.effectiveMaxConcurrency
  candidate := s.candidate.map fun m => (m, s.models m)
  candidateInfo := s.candidateInfo
  previous := s.previous.map fun previous => (previous, previous.model.map s.models)

/-- A step of a lifecycle operation that does not succeed: of `load_candidate` up to the end of its
smoke rerank and the exception after it, of an activation without a candidate, or of a rollback
without a previous model. -/
def Fails (s : ModelRuntime) : Action → Prop
  | .tick => True
  | .candidateBegin _ _ _ => True
  | .activateBegin => True
  | .rollbackBegin => True
  | .lockAcquired =>
      match s.lockQueue with
      | .activate _ :: _ => s.candidate = none ∨ s.candidateInfo = none
      | .rollback _ :: _ => s.previous = none
      | _ => True
  | .candidateReturned _ => True
  | .candidateSmoked outcome => ∃ error, smokeTest outcome = .error error
  | _ => False

/-! ### What the slots hold is older than a new object -/

theorem atMostOnce_step (h : s.slots.AtMostOnce) (hstep : s.step a = some s') :
    s'.slots.AtMostOnce :=
  (step_slots hstep).keeps h fun _ _ hmoves => h.step hmoves

theorem Initial.atMostOnce (h : Initial s) : s.slots.AtMostOnce :=
  fun m => (h.slots.2 m).le

theorem atMostOnce_of_reachable (hreach : Reachable step Initial s) : s.slots.AtMostOnce :=
  hreach.invariant (I := fun t => t.slots.AtMostOnce) (fun _ h => h.atMostOnce)
    fun _ _ _ h _ hstep => atMostOnce_step h hstep

theorem lt_loaded_of_owners (h : s.slots.AtMostOnce) {m : ModelId} (hm : 0 < s.slots.owners m) :
    m < s.loaded := by
  by_contra hle
  have hcount := h m
  rw [if_neg (show ¬m < s.slots.loaded from hle)] at hcount
  omega

structure Older (s : ModelRuntime) : Prop where
  model : ∀ m, s.model = some m → m < s.loaded
  candidate : ∀ m, s.candidate = some m → m < s.loaded
  previous : ∀ previous m, s.previous = some previous → previous.model = some m → m < s.loaded

theorem older_of_atMostOnce (h : s.slots.AtMostOnce) : s.Older where
  model m hm := by
    apply lt_loaded_of_owners h
    have : s.slots.active = some m := hm
    simp only [Slots.owners, this, ↓reduceIte]
    omega
  candidate m hm := by
    apply lt_loaded_of_owners h
    have : s.slots.candidate = some m := hm
    simp only [Slots.owners, this, ↓reduceIte]
    omega
  previous previous m hprevious hm := by
    apply lt_loaded_of_owners h
    have : s.slots.previous.bind Prod.fst = some m := by simp [slots, hprevious, hm]
    simp only [Slots.owners, this, ↓reduceIte]
    omega

/-! ### One step -/

theorem allocate_served (h : s.Older) (name revision : Text) (maxLength : Nat) (loaded : Loaded) :
    (s.allocate name revision maxLength loaded).served = s.served := by
  have hmodels {m : ModelId} (hm : m < s.loaded) :
      (s.allocate name revision maxLength loaded).models m = s.models m :=
    Function.update_of_ne hm.ne _ _
  have hmodel : s.model.map (fun m =>
      (m, (s.allocate name revision maxLength loaded).models m)) =
      s.model.map fun m => (m, s.models m) :=
    Option.map_congr fun m hm => by rw [hmodels (h.model m hm)]
  have hcandidate : s.candidate.map (fun m =>
      (m, (s.allocate name revision maxLength loaded).models m)) =
      s.candidate.map fun m => (m, s.models m) :=
    Option.map_congr fun m hm => by rw [hmodels (h.candidate m hm)]
  have hprevious : s.previous.map (fun previous => (previous,
      previous.model.map (s.allocate name revision maxLength loaded).models)) =
      s.previous.map fun previous => (previous, previous.model.map s.models) := by
    refine Option.map_congr fun previous hslot => ?_
    rw [Option.map_congr fun m hm => hmodels (h.previous previous m hslot hm)]
  unfold served
  rw [← hmodel, ← hcandidate, ← hprevious]
  rfl

theorem step_served (h : s.Older) (hfails : s.Fails a) (hstep : s.step a = some s') :
    s'.served = s.served := by
  obtain ⟨-, htakes⟩ := step_takes hstep
  cases htakes with
  | ticked | candidateEnded | candidateQueued _ | activateQueued | rollbackQueued => rfl
  | candidateGranted _ _ | activationRefused _ _ | rollbackRefused _ _ => rfl
  | activated hqueue hcandidate hinfo =>
      simp only [Fails, hqueue, hcandidate, hinfo, reduceCtorEq, or_self] at hfails
  | rolledBack hqueue hprevious => simp only [Fails, hqueue, hprevious, reduceCtorEq] at hfails
  | candidateLoaded hholder => exact allocate_served h _ _ _ _
  | candidateRaised _ | candidateRejected _ _ => rfl
  | candidateAccepted hholder hscore =>
      obtain ⟨error, herror⟩ := hfails
      cases hscore.symm.trans herror
  | _ => exact hfails.elim

/-! ### The object that failed its smoke test -/

theorem count_unloaded_le {m : ModelId} (hreach : Reachable step (· = s) s') :
    s.unloaded.count m ≤ s'.unloaded.count m := by
  refine hreach.invariant (I := fun t => s.unloaded.count m ≤ t.unloaded.count m)
    (fun t ht => ht ▸ le_rfl) fun t a t' h _ hstep => h.trans ?_
  refine (step_slots hstep).keeps (P := fun slots => t.unloaded.count m ≤ slots.unloaded.count m)
    le_rfl fun e _ hmoves => ?_
  exact (Slots.unloaded_grows hmoves).sublist.count_le m

theorem unloaded_once (hreach : Reachable step Initial s) {outcome : Except Error (List Value)}
    {error : Error} (herror : smokeTest outcome = .error error)
    (hstep : s.step (.candidateSmoked outcome) = some s') :
    ∃ check m started, s.lockHolder = some (.smoking check m started) ∧
      ∀ t, Reachable step (· = s') t → t.unloaded.count m = 1 := by
  have hreach' := hreach.next trivial hstep
  obtain ⟨-, htakes⟩ := step_takes hstep
  cases htakes with
  | candidateAccepted hholder hscore => cases hscore.symm.trans herror
  | @candidateRejected check m started _ error' operation hholder herror' =>
      refine ⟨check, m, started, hholder, fun t ht => ?_⟩
      have hone : 1 ≤ (s.unloaded ++ [m]).count m := by simp
      have hlower : (s.unloaded ++ [m]).count m ≤ t.unloaded.count m := count_unloaded_le ht
      have hupper : t.slots.owners m + t.unloaded.count m ≤ _ :=
        atMostOnce_of_reachable (hreach'.trans ht) m
      split at hupper <;> omega

/-- **Failures leave the active model serving**: from any reachable state, the steps of lifecycle
operations that do not succeed change nothing of what is served, and a model that fails its smoke
test is unloaded exactly once. -/
theorem failures_leave_served (hreach : Reachable step Initial s) :
    (∀ s', Reaches step (· = s) Fails s' → s'.served = s.served) ∧
      ∀ outcome error s', smokeTest outcome = .error error →
        s.step (.candidateSmoked outcome) = some s' →
        ∃ check m started, s.lockHolder = some (.smoking check m started) ∧
          ∀ t, Reachable step (· = s') t → t.unloaded.count m = 1 := by
  refine ⟨fun s' hfailing => ?_, fun outcome error s' => unloaded_once hreach⟩
  induction hfailing with
  | start h => rw [h]
  | next hrun hfails hstep ih =>
      have hold := older_of_atMostOnce (atMostOnce_of_reachable (hreach.trans hrun.reachable))
      exact (step_served hold hfails hstep).trans ih

def testedCandidate : List Action :=
  [.candidateBegin idleMachine ['m'] (List.replicate 40 'b'), .lockAcquired,
    .candidateReturned (.ok loadedModel)]

theorem failures_leave_served_twoScores : ∃ s s',
    run step (new twoRevisions "auto".toList) (loadAndWarmUp ++ testedCandidate) = some s ∧
      s.step (.candidateSmoked (.ok [.finite 1, .finite 1])) = some s' ∧
      s'.served = s.served ∧ s'.unloaded.count 1 = 1 := by
  obtain ⟨s, s', hrun, ⟨check, started, hholder⟩, hstep⟩ : ∃ s s',
      run step (new twoRevisions "auto".toList) (loadAndWarmUp ++ testedCandidate) = some s ∧
        (∃ check started, s.lockHolder = some (.smoking check 1 started)) ∧
          s.step (.candidateSmoked (.ok [.finite 1, .finite 1])) = some s' :=
    ⟨_, _, rfl, ⟨_, _, rfl⟩, rfl⟩
  have hreach : Reachable step Initial s := reachable_of_run ⟨twoRevisions, _, rfl⟩ hrun
  obtain ⟨hserved, honce⟩ := failures_leave_served hreach
  obtain ⟨other, m, start, hother, hcount⟩ := honce _ _ s' rfl hstep
  rw [hholder] at hother
  cases hother
  have hfails : s.Fails (.candidateSmoked (.ok [.finite 1, .finite 1])) := ⟨_, rfl⟩
  exact ⟨s, s', hrun, hstep, hserved s' (.next (.start rfl) hfails hstep), hcount s' (.start rfl)⟩

end ModelRuntime

end RerankerService
