import Mathlib.Algebra.Order.BigOperators.Group.Finset
import RerankerService.Proof.Concurrency

/-!
# The runtime comes to rest

No permit is ever lost: what is free and what calls hold of a semaphore stays the same number from
its creation on, whatever loads, activations, patches and cancellations come between. So a call can
only wait while another one goes on, and as everything that is in progress takes a bounded number of
steps, the runtime comes to rest when nothing new is started.
-/

namespace RerankerService

open Permits Transition

namespace ModelRuntime

variable {c c' : Concurrency} {s s' : ModelRuntime} {a : Action}

/-! ### Permits -/

/-- The permits of a semaphore, free or held. -/
def Concurrency.total (c : Concurrency) (k : SemaphoreId) : Nat :=
  c.semaphores k + (c.book.holders k).card

/-- Calls refer to semaphores that were created. -/
def Concurrency.Refers (c : Concurrency) : Prop :=
  ∀ id semaphore, (c.phase id).semaphore = some semaphore →
    c.Known 0 semaphore ∧ id < c.entered

/-- What no step changes: the permits of the semaphores that there are. -/
structure Concurrency.Keeps (c c' : Concurrency) : Prop where
  refers : c'.Refers
  total : ∀ k ≤ c.semaphore, c'.total k = c.total k
  current : c'.semaphore = c.semaphore ∧ c'.effective = c.effective ∨
    c'.semaphore = c.semaphore + 1 ∧ c'.total c'.semaphore = c'.effective

theorem Concurrency.book_balanced (c : Concurrency) (k : SemaphoreId) :
    c.book.Balanced (· = k) (c.total k) := by
  intro other hother
  rw [hother]
  rfl

theorem Concurrency.total_of_book {k : SemaphoreId}
    (h : c'.book.Balanced (· = k) (c.total k)) : c'.total k = c.total k :=
  h k rfl

theorem Concurrency.Refers.keeps_same (h : c.Refers) : c.Keeps c :=
  ⟨h, fun _ _ => rfl, .inl ⟨rfl, rfl⟩⟩

/-- A second step that leaves the semaphore in use. -/
theorem Concurrency.Keeps.trans {c'' : Concurrency} (h : c.Keeps c') (hrest : c'.Keeps c'')
    (hsame : c''.semaphore = c'.semaphore ∧ c''.effective = c'.effective) : c.Keeps c'' := by
  obtain ⟨hsemaphore, heffective⟩ := hsame
  refine ⟨hrest.refers, fun k hk => ?_, ?_⟩
  · have hle : k ≤ c'.semaphore := by
      rcases h.current with ⟨heq, -⟩ | ⟨heq, -⟩
      · exact heq ▸ hk
      · exact heq ▸ hk.trans (Nat.le_succ _)
    exact (hrest.total k hle).trans (h.total k hk)
  · rw [hsemaphore, heffective, hrest.total _ le_rfl]
    exact h.current

theorem Concurrency.Refers.renew (h : c.Refers) (effective : Nat) : c.Keeps (c.renew effective) := by
  have hnew : ∀ id ∈ c.book.members, c.book.holds id ≠ some (c.semaphore + 1) := fun id _ hholds =>
    Nat.not_succ_le_self _ (h id _ (PredictPhase.semaphore_of_permit hholds)).1.2
  refine ⟨fun id semaphore hphase => ?_, fun k hk => ?_, .inr ⟨rfl, ?_⟩⟩
  · have hknown := h id semaphore hphase
    exact ⟨⟨hknown.1.1, hknown.1.2.trans (Nat.le_succ _)⟩, hknown.2⟩
  · have hne : k ≠ c.semaphore + 1 := fun heq => Nat.not_succ_le_self _ (heq ▸ hk)
    rw [total, total]
    exact congrArg (· + _) (Function.update_of_ne hne _ _)
  · have hnone : c.book.Balanced (fun _ => False) effective := fun _ hk => hk.elim
    have hissued : (c.book.issue (c.semaphore + 1) effective).Balanced (· = c.semaphore + 1)
        effective := hnone.issue hnew fun _ hk => .inr hk
    exact hissued _ rfl

theorem Concurrency.Refers.renewedTo (h : c.Refers) (hrenewed : c.RenewedTo c') : c.Keeps c' := by
  rcases hrenewed with rfl | ⟨effective, rfl⟩
  · exact h.keeps_same
  · exact h.renew effective

theorem Concurrency.Refers.move (h : c.Refers) {id : PredictId} {phase : PredictPhase}
    (hpermit : phase.permit = (c.phase id).permit)
    (hphase : phase.semaphore = none ∨ phase.semaphore = (c.phase id).semaphore) :
    c.Keeps (c.setPhase id phase) := by
  refine ⟨known_setPhase h hphase, fun k _ => ?_, .inl ⟨rfl, rfl⟩⟩
  have hbook : (c.setPhase id phase).book = c.book := by
    rw [book_setPhase, hpermit]
    exact congrArg (fun holds => { c.book with holds }) (Function.update_eq_self id _)
  rw [total, hbook]
  rfl

theorem Concurrency.Refers.acquire (h : c.Refers) {id : PredictId} {semaphore : SemaphoreId}
    (hwaiting : c.phase id = .waiting semaphore) (hpermit : 0 < c.semaphores semaphore)
    (model : Option ModelId) :
    c.Keeps (Concurrency.setPhase { c with
      semaphores := Function.update c.semaphores semaphore (c.semaphores semaphore - 1) }
      id (.submitted semaphore model)) := by
  have hsemaphore : (c.phase id).semaphore = some semaphore := by rw [hwaiting]; rfl
  refine ⟨known_setPhase h (.inr hsemaphore.symm), fun k _ => ?_, .inl ⟨rfl, rfl⟩⟩
  have hbook := (c.book_balanced k).acquire (Finset.mem_range.mpr (h id semaphore hsemaphore).2)
    (show c.book.holds id = none by simp only [book, hwaiting]; rfl) hpermit
  refine total_of_book ?_
  rw [book_setPhase]
  exact hbook

theorem Concurrency.Refers.release (h : c.Refers) {id : PredictId} {semaphore : SemaphoreId}
    (hholds : (c.phase id).permit = some semaphore) {phase : PredictPhase}
    (hphase : phase = .returned ∨ phase = .orphaned) :
    c.Keeps (Concurrency.setPhase { c with
      semaphores := Function.update c.semaphores semaphore (c.semaphores semaphore + 1) }
      id phase) := by
  have hnone : phase.permit = none ∧ phase.semaphore = none := by
    rcases hphase with rfl | rfl
    · exact ⟨rfl, rfl⟩
    · exact ⟨rfl, rfl⟩
  refine ⟨known_setPhase h (.inl hnone.2), fun k _ => ?_, .inl ⟨rfl, rfl⟩⟩
  have hbook := (c.book_balanced k).release
    (Finset.mem_range.mpr (h id semaphore (PredictPhase.semaphore_of_permit hholds)).2) hholds
  refine total_of_book ?_
  rw [book_setPhase, hnone.1]
  exact hbook

theorem Concurrency.book_enter (c : Concurrency) (pairs : List Pair) :
    (c.enter pairs).book = c.book.join c.entered := by
  refine Book.ext Finset.range_add_one rfl (funext fun other => ?_)
  change ((c.enter pairs).phase other).permit = Function.update c.book.holds c.entered none other
  rw [phase_enter]
  by_cases hother : other = c.entered
  · rw [hother, Function.update_self, Function.update_self]
    rfl
  · rw [Function.update_of_ne hother, Function.update_of_ne hother]
    rfl

theorem Concurrency.Refers.enter (h : c.Refers) (pairs : List Pair) : c.Keeps (c.enter pairs) := by
  refine ⟨fun id semaphore hphase => ?_, fun k _ => ?_, .inl ⟨rfl, rfl⟩⟩
  · rw [phase_enter] at hphase
    by_cases hid : id = c.entered
    · subst hid
      rw [Function.update_self] at hphase
      cases hphase
      exact ⟨⟨Nat.zero_le _, le_rfl⟩, Nat.lt_succ_self _⟩
    · rw [Function.update_of_ne hid] at hphase
      have hknown := h id semaphore hphase
      exact ⟨hknown.1, hknown.2.trans (Nat.lt_succ_self _)⟩
  · refine total_of_book ?_
    rw [book_enter]
    exact (c.book_balanced k).join (by simp [book])

/-- **Every step keeps the permits.** -/
theorem step_keeps (h : s.concurrency.Refers) (hstep : s.step a = some s') :
    s.concurrency.Keeps s'.concurrency := by
  have hmoves := step_concurrency hstep
  generalize s'.concurrency = next at hmoves
  cases hmoves with
  | renewed hrenewed => exact h.renewedTo hrenewed
  | entered pairs => exact h.enter pairs
  | acquired hphase hpermit => exact h.acquire hphase hpermit _
  | begun ha hphase => exact h.move (by rw [hphase]; rfl) (.inr (by rw [hphase]; rfl))
  | moved hpermit hsemaphore hexecuting => exact h.move hpermit hsemaphore
  | released hrenewed hpermit hphase =>
      have hfirst := h.renewedTo hrenewed
      refine hfirst.trans (hfirst.refers.release ?_ (hphase.imp_right And.left)) ⟨rfl, rfl⟩
      exact (congrArg PredictPhase.permit (hrenewed.phase _)).trans hpermit

theorem reachable_refers (hreach : Reachable step Initial s) :
    s.concurrency.Refers ∧ s.concurrency.total s.semaphore = s.effectiveMaxConcurrency := by
  refine hreach.invariant (I := fun s => s.concurrency.Refers ∧
    s.concurrency.total s.semaphore = s.effectiveMaxConcurrency) (fun s hinit => ?_)
    fun s a s' h _ hstep => ?_
  · obtain ⟨settings, backendDevice, rfl⟩ := hinit
    exact ⟨fun _ _ => nofun, rfl⟩
  · have hkeeps := step_keeps h.1 hstep
    refine ⟨hkeeps.refers, ?_⟩
    rcases hkeeps.current with ⟨hsame, heffective⟩ | ⟨-, hfresh⟩
    · calc s'.concurrency.total s'.semaphore
          = s'.concurrency.total s.semaphore := congrArg _ hsame
        _ = s.concurrency.total s.semaphore := hkeeps.total _ le_rfl
        _ = s.effectiveMaxConcurrency := h.2
        _ = s'.effectiveMaxConcurrency := heffective.symm
    · exact hfresh

/-- The calls that hold a permit of the semaphore. -/
def holders (s : ModelRuntime) (k : SemaphoreId) : Finset PredictId :=
  (Finset.range s.entered).filter fun id => (s.phase id).permit = some k

/-- **No permit is lost**: the semaphore in use has as many permits, free or held, as predictions may
run; and every semaphore keeps the number that it has now for ever, so that all of them are free again
once no call holds one. -/
theorem permits_kept (hreach : Reachable step Initial s) :
    s.semaphores s.semaphore + (s.holders s.semaphore).card = s.effectiveMaxConcurrency ∧
      ∀ s', Reachable step (· = s) s' → ∀ k ≤ s.semaphore,
        s'.semaphores k + (s'.holders k).card = s.semaphores k + (s.holders k).card := by
  obtain ⟨hrefers, hcurrent⟩ := reachable_refers hreach
  refine ⟨hcurrent, fun s' hrest => ?_⟩
  refine (hrest.invariant (I := fun t => t.concurrency.Refers ∧ s.semaphore ≤ t.semaphore ∧
    ∀ k ≤ s.semaphore, t.concurrency.total k = s.concurrency.total k)
    (fun t heq => ?_) fun t a t' h _ hstep => ?_).2.2
  · rw [heq]
    exact ⟨hrefers, le_rfl, fun _ _ => rfl⟩
  · have hkeeps := step_keeps h.1 hstep
    refine ⟨hkeeps.refers, h.2.1.trans ?_, fun k hk => ?_⟩
    · rcases hkeeps.current with ⟨hsame, -⟩ | ⟨hnext, -⟩
      · exact hsame.ge
      · exact (Nat.le_succ _).trans hnext.ge
    · exact (hkeeps.total k (hk.trans h.2.1)).trans (h.2.2 k hk)

/-- One call waits for the permit that another one holds. -/
theorem permits_kept_waiting : ∃ s, run step gpuRuntime [.enter onePair, .enter onePair, .acquire 0] =
    some s ∧ s.phase 1 = .waiting s.semaphore ∧ s.effectiveMaxConcurrency = 1 ∧
    s.semaphores s.semaphore + (s.holders s.semaphore).card = s.effectiveMaxConcurrency := by
  obtain ⟨s, hrun, hwaits, hlimit⟩ : ∃ s,
      run step gpuRuntime [.enter onePair, .enter onePair, .acquire 0] = some s ∧
      s.phase 1 = .waiting s.semaphore ∧ s.effectiveMaxConcurrency = 1 := ⟨_, rfl, rfl, rfl⟩
  have hreach := reachable_gpuRuntime.extend (fun _ _ _ => trivial) hrun
  exact ⟨s, hrun, hwaits, hlimit, (permits_kept hreach).1⟩

/-! ### Permits for everybody -/

/-- Every call that is not over has entered. -/
def Concurrency.Entered (c : Concurrency) : Prop :=
  ∀ id, c.phase id ≠ .returned → id < c.entered

theorem Concurrency.Entered.setPhase (h : c.Entered) {id : PredictId} {phase : PredictPhase}
    (hphase : phase = .returned ∨ c.phase id ≠ .returned) : (c.setPhase id phase).Entered := by
  intro other hother
  rw [phase_setPhase] at hother
  by_cases heq : other = id
  · rw [heq, Function.update_self] at hother
    exact heq ▸ h id (hphase.resolve_left hother)
  · rw [Function.update_of_ne heq] at hother
    exact h other hother

theorem step_entered (h : s.concurrency.Entered) (hstep : s.step a = some s') :
    s'.concurrency.Entered := by
  have hmoves := step_concurrency hstep
  generalize s'.concurrency = next at hmoves
  cases hmoves with
  | renewed hrenewed =>
      rcases hrenewed with rfl | ⟨effective, rfl⟩
      · exact h
      · exact h
  | entered pairs =>
      intro id hid
      rw [Concurrency.phase_enter] at hid
      by_cases heq : id = s.concurrency.entered
      · exact heq ▸ Nat.lt_succ_self _
      · rw [Function.update_of_ne heq] at hid
        exact (h id hid).trans (Nat.lt_succ_self _)
  | acquired hphase hpermit =>
      refine Concurrency.Entered.setPhase (c := { s.concurrency with semaphores := _ }) h (.inr ?_)
      exact fun hreturned => nomatch hphase.symm.trans hreturned
  | begun ha hphase => exact h.setPhase (.inr fun hreturned => nomatch hphase.symm.trans hreturned)
  | @moved id phase hpermit hsemaphore hexecuting =>
      refine h.setPhase (Classical.or_iff_not_imp_right.mpr fun hreturned => ?_)
      rw [not_not] at hreturned
      have hnone : phase.semaphore = none := by
        rcases hsemaphore with hnone | hsame
        · exact hnone
        · rw [hsame, hreturned]
          rfl
      cases phase with
      | returned => rfl
      | orphaned => cases hexecuting
      | _ => cases hnone
  | @released id semaphore phase c' hrenewed hpermit hphase =>
      have hbefore : c'.Entered := by
        rcases hrenewed with rfl | ⟨effective, rfl⟩
        · exact h
        · exact h
      refine Concurrency.Entered.setPhase (c := { c' with semaphores := _ }) hbefore (.inr ?_)
      intro hreturned
      have hpermit' := (congrArg PredictPhase.permit (hrenewed.phase id)).trans hpermit
      cases (congrArg PredictPhase.permit hreturned).symm.trans hpermit'

end ModelRuntime

/-- At least one prediction may run on any device: the fields have `ge=1`. -/
def Settings.Permissive (settings : Settings) : Prop :=
  1 ≤ settings.maxConcurrency ∧ 1 ≤ settings.gpuMaxConcurrency ∧ 1 ≤ settings.cpuMaxConcurrency

namespace ModelRuntime

variable {c c' : Concurrency} {s s' : ModelRuntime} {a : Action}

/-- A runtime that was given valid settings. -/
structure Manned (s : ModelRuntime) : Prop where
  settings : s.settings.Permissive
  workers : 1 ≤ s.maxWorkers
  effective : 1 ≤ s.effectiveMaxConcurrency

/-- A patch is validated. -/
def Action.Validated (a : Action) : Prop :=
  ∀ maxConcurrency maxLength, a = .reconfigure maxConcurrency maxLength → 1 ≤ maxConcurrency

theorem Manned.configureConcurrency (h : s.Manned) : s.configureConcurrency.Manned := by
  refine ⟨h.settings, h.workers, le_min h.settings.1 ?_⟩
  split
  · exact h.settings.2.1
  · exact h.settings.2.2

theorem Manned.syncActiveBackendState (h : s.Manned) : s.syncActiveBackendState.Manned := by
  unfold ModelRuntime.syncActiveBackendState
  split
  · exact Manned.configureConcurrency ⟨h.settings, h.workers, h.effective⟩
  · exact h

/-- The staffing of a runtime after it has read off the state of its backend. -/
theorem Manned.of_synced (h : s.Manned) (hsettings : s'.settings = s.syncActiveBackendState.settings)
    (hworkers : s'.maxWorkers = s.syncActiveBackendState.maxWorkers)
    (heffective : s'.effectiveMaxConcurrency = s.syncActiveBackendState.effectiveMaxConcurrency) :
    s'.Manned := by
  have hsynced := h.syncActiveBackendState
  exact ⟨hsettings ▸ hsynced.settings, hworkers ▸ hsynced.workers, heffective ▸ hsynced.effective⟩

theorem Manned.resumePredict {id : PredictId} {reply : Reply Score} (h : s.Manned)
    (hresume : s.resumePredict id = some (s', reply)) : s'.Manned := by
  unfold ModelRuntime.resumePredict at hresume
  split at hresume
  · cases hresume
    exact h.of_synced rfl rfl rfl
  · cases hresume
    exact ⟨h.settings, h.workers, h.effective⟩
  · cases hresume

theorem Manned.step (h : s.Manned) (hvalid : a.Validated) (hstep : s.step a = some s') :
    s'.Manned := by
  obtain ⟨-, htakes⟩ := step_takes hstep
  cases htakes with
  | @loadArrived name revision maxLength started loaded hloading =>
      exact Manned.of_synced (s := { s.allocate name revision maxLength loaded with
        model := some s.loaded }) ⟨h.settings, h.workers, h.effective⟩ rfl rfl rfl
  | @activated started rest candidate info operation modelReady hqueue hcandidate hinfo =>
      exact Manned.of_synced (s := { ({ s with lockQueue := rest }.switchTo
          { model := some candidate, name := info.name, revision := info.resolvedRevision
            loadedAt := some info.loadedAt }) with
        candidate := none, candidateInfo := none })
        ⟨h.settings, h.workers, h.effective⟩ rfl rfl rfl
  | @rolledBack started rest previous operation hqueue hprevious =>
      exact Manned.of_synced (s := { s with lockQueue := rest }.switchTo previous)
        ⟨h.settings, h.workers, h.effective⟩ rfl rfl rfl
  | @reconfigured maxConcurrency maxLength =>
      have hsettings : Settings.Permissive { s.settings with maxConcurrency, maxLength } :=
        ⟨hvalid _ _ rfl, h.settings.2⟩
      have hconfigured := Manned.configureConcurrency
        (s := { s with settings := { s.settings with maxConcurrency, maxLength } })
        ⟨hsettings, h.workers, h.effective⟩
      unfold ModelRuntime.reconfigure
      dsimp only
      split
      · exact ⟨hconfigured.settings, hconfigured.workers, hconfigured.effective⟩
      · exact hconfigured
  | @answered id execution semaphore model source hphase =>
      cases model <;> cases execution.fallback <;> exact ⟨h.settings, h.workers, h.effective⟩
  | resumed hresume => exact h.resumePredict hresume
  | @cancelled id =>
      unfold ModelRuntime.cancelPredict
      split <;> exact ⟨h.settings, h.workers, h.effective⟩
  | _ => exact ⟨h.settings, h.workers, h.effective⟩

end ModelRuntime

/-! ### What is left to do -/

/-- How often a call of `predict` and its thread still have to go on. -/
def PredictPhase.work : PredictPhase → Nat
  | .waiting _ => 4
  | .submitted _ _ => 3
  | .running _ _ _ => 2
  | .answered _ _ | .orphaned => 1
  | .returned => 0

def LockRequest.work : LockRequest → Nat
  | .candidate _ _ => 3
  | .activate _ | .rollback _ => 1

def CandidateLoad.work : CandidateLoad → Nat
  | .loading _ _ _ => 2
  | .smoking _ _ _ => 1

def InitialLoad.work : InitialLoad → Nat
  | .idle => 0
  | .loading _ _ _ _ => 2
  | .warming _ _ => 1

namespace ModelRuntime

variable {s s' : ModelRuntime} {a : Action}

def callWork (s : ModelRuntime) : Nat :=
  ∑ id ∈ Finset.range s.entered, (s.phase id).work

/-- What the lifecycle operations still have to do. -/
def lifecycleWork (s : ModelRuntime) : Nat :=
  (s.lockQueue.map LockRequest.work).sum + s.lockHolder.elim 0 CandidateLoad.work +
    s.initialLoad.work

def work (s : ModelRuntime) : Nat :=
  s.callWork + s.lifecycleWork

/-- Something that is in progress goes on. -/
def Action.proceeds : Action → Bool
  | .loadReturned _ | .warmedUp _ | .lockAcquired | .candidateReturned _ | .candidateSmoked _
  | .acquire _ | .begin _ | .finish _ _ | .resumePredict _ => true
  | _ => false

/-- Nothing new is started: what is in progress goes on or is cancelled, time passes, and the settings
are patched. -/
def Action.startsNothing : Action → Bool
  | .enter _ | .loadBegin | .candidateBegin _ _ _ | .activateBegin | .rollbackBegin | .close => false
  | _ => true

theorem callWork_setPhase_lt {id : PredictId} {phase : PredictPhase} (hid : id < s.entered)
    (hless : phase.work < (s.phase id).work) : (s.setPhase id phase).callWork < s.callWork := by
  have hphase : (s.setPhase id phase).phase = Function.update s.phase id phase :=
    s.concurrency.phase_setPhase id phase
  refine Finset.sum_lt_sum (fun other _ => ?_) ⟨id, Finset.mem_range.mpr hid, ?_⟩
  · rw [hphase]
    by_cases heq : other = id
    · rw [heq, Function.update_self]
      exact hless.le
    · rw [Function.update_of_ne heq]
  · rw [hphase, Function.update_self]
    exact hless

theorem callWork_congr (hcalls : s'.calls = s.calls) (hentered : s'.entered = s.entered) :
    s'.callWork = s.callWork := by
  unfold callWork phase
  rw [hcalls, hentered]

theorem work_of_lifecycle (hcalls : s'.calls = s.calls) (hentered : s'.entered = s.entered)
    {n : Nat} (hless : s'.lifecycleWork + n ≤ s.lifecycleWork) : s'.work + n ≤ s.work := by
  rw [work, work, callWork_congr hcalls hentered, Nat.add_assoc]
  exact Nat.add_le_add_left hless _

theorem work_of_call (hlifecycle : s'.lifecycleWork = s.lifecycleWork)
    (hless : s'.callWork < s.callWork) : s'.work + 1 ≤ s.work := by
  rw [work, work, hlifecycle]
  exact Nat.add_lt_add_right hless _

theorem syncActiveBackendState_inProgress (s : ModelRuntime) :
    s.syncActiveBackendState.calls = s.calls ∧ s.syncActiveBackendState.entered = s.entered ∧
      s.syncActiveBackendState.lockQueue = s.lockQueue ∧
      s.syncActiveBackendState.lockHolder = s.lockHolder ∧
      s.syncActiveBackendState.initialLoad = s.initialLoad := by
  unfold syncActiveBackendState
  split
  · exact ⟨rfl, rfl, rfl, rfl, rfl⟩
  · exact ⟨rfl, rfl, rfl, rfl, rfl⟩

theorem reconfigure_work (s : ModelRuntime) (maxConcurrency maxLength : Nat) :
    (s.reconfigure maxConcurrency maxLength).work = s.work := by
  unfold reconfigure
  dsimp only
  split
  · rfl
  · rfl

theorem lockAcquired_work (htakes : s.Takes .lockAcquired s') : s'.work + 1 ≤ s.work := by
  cases htakes with
  | candidateGranted hfree hqueue =>
      refine work_of_lifecycle ?_ ?_ ?_
      · rfl
      · rfl
      · simp only [lifecycleWork, hfree, hqueue, List.map_cons, List.sum_cons, LockRequest.work,
          CandidateLoad.work, Option.elim_some, Option.elim_none]
        omega
  | activated hqueue hcandidate hinfo =>
      refine work_of_lifecycle ?_ ?_ ?_
      · exact (syncActiveBackendState_inProgress _).1
      · exact (syncActiveBackendState_inProgress _).2.1
      · simp only [lifecycleWork, syncActiveBackendState_inProgress, hqueue, switchTo,
          List.map_cons, List.sum_cons, LockRequest.work]
        omega
  | rolledBack hqueue hprevious =>
      refine work_of_lifecycle ?_ ?_ ?_
      · exact (syncActiveBackendState_inProgress _).1
      · exact (syncActiveBackendState_inProgress _).2.1
      · simp only [lifecycleWork, syncActiveBackendState_inProgress, hqueue, switchTo,
          List.map_cons, List.sum_cons, LockRequest.work]
        omega
  | activationRefused hqueue | rollbackRefused hqueue =>
      refine work_of_lifecycle ?_ ?_ ?_
      · rfl
      · rfl
      · simp only [lifecycleWork, hqueue, List.map_cons, List.sum_cons, LockRequest.work]
        omega

/-- A call goes on, after a step that leaves the calls and the lifecycle alone. -/
theorem call_proceeds {t : ModelRuntime} (hcalls : t.calls = s.calls) (hentered : t.entered = s.entered)
    (hlifecycle : t.lifecycleWork = s.lifecycleWork) {id : PredictId} {phase : PredictPhase}
    (hid : id < s.entered) (hless : phase.work < (s.phase id).work) :
    (t.setPhase id phase).work + 1 ≤ s.work := by
  refine work_of_call hlifecycle ?_
  rw [← callWork_congr hcalls hentered]
  refine callWork_setPhase_lt (hentered ▸ hid) ?_
  have hphase : t.phase id = s.phase id := by rw [ModelRuntime.phase, ModelRuntime.phase, hcalls]
  rwa [hphase]

theorem resumePredict_work {id : PredictId} {reply : Reply Score} (hentered : s.concurrency.Entered)
    (hstep : s.resumePredict id = some (s', reply)) : s'.work + 1 ≤ s.work := by
  have hknown : ∀ id, s.phase id ≠ .returned → id < s.entered := hentered
  obtain ⟨hcalls, hentered', hlockQueue, hlockHolder, hinitialLoad⟩ :=
    syncActiveBackendState_inProgress s
  unfold resumePredict at hstep
  split at hstep
  · rename_i semaphore values hphase
    cases hstep
    refine call_proceeds hcalls hentered' ?_ (hknown id fun h => nomatch hphase.symm.trans h) ?_
    · rw [lifecycleWork, hlockQueue, hlockHolder, hinitialLoad]
      rfl
    · rw [hphase]
      exact Nat.one_pos
  · rename_i semaphore error hphase
    cases hstep
    refine call_proceeds ?_ ?_ ?_ (hknown id fun h => nomatch hphase.symm.trans h) ?_
    · rfl
    · rfl
    · rfl
    · rw [hphase]
      exact Nat.one_pos
  · cases hstep

theorem cancelPredict_work (hentered : s.concurrency.Entered) (id : PredictId) :
    (s.cancelPredict id).work ≤ s.work := by
  have hknown : ∀ id, s.phase id ≠ .returned → id < s.entered := hentered
  have hless : ∀ (t : ModelRuntime) (phase : PredictPhase), t.calls = s.calls →
      t.entered = s.entered → t.lifecycleWork = s.lifecycleWork → phase.work < (s.phase id).work →
      (t.setPhase id phase).work ≤ s.work := fun t phase hcalls hentered hlifecycle hphase => by
    refine Nat.le_of_succ_le (call_proceeds hcalls hentered hlifecycle (hknown id fun h => ?_) hphase)
    rw [h] at hphase
    exact Nat.not_lt_zero _ hphase
  unfold cancelPredict
  split
  · rename_i semaphore hphase
    refine hless s .returned rfl rfl rfl ?_
    rw [hphase]
    exact Nat.succ_pos 3
  · rename_i semaphore model hphase
    refine hless (s.release semaphore) .returned rfl rfl rfl ?_
    rw [hphase]
    exact Nat.succ_pos 2
  · rename_i semaphore reply hphase
    refine hless (s.release semaphore) .returned rfl rfl rfl ?_
    rw [hphase]
    exact Nat.one_pos
  · rename_i semaphore model source hphase
    refine hless (s.release semaphore) .orphaned rfl rfl rfl ?_
    rw [hphase]
    exact Nat.lt_succ_self 1
  · exact le_rfl

/-- **What is in progress gets less** with every step of it, and nothing but a start makes it more. -/
theorem step_work (hentered : s.concurrency.Entered) (ha : a.startsNothing = true)
    (hstep : s.step a = some s') : s'.work + (if a.proceeds then 1 else 0) ≤ s.work := by
  obtain ⟨-, htakes⟩ := step_takes hstep
  have hknown : ∀ id, s.phase id ≠ .returned → id < s.entered := hentered
  cases htakes with
  | loadBegun | candidateEnded | candidateQueued | activateQueued | rollbackQueued | closed
  | entered => cases ha
  | ticked => exact le_rfl
  | reconfigured => exact (reconfigure_work s _ _).le
  | loadArrived hloading =>
      refine work_of_lifecycle ?_ ?_ ?_
      · exact (syncActiveBackendState_inProgress _).1
      · exact (syncActiveBackendState_inProgress _).2.1
      · simp only [lifecycleWork, syncActiveBackendState_inProgress, hloading, allocate,
          InitialLoad.work]
        exact le_rfl
  | loadRaised hloading =>
      refine work_of_lifecycle ?_ ?_ ?_
      · rfl
      · rfl
      · simp only [lifecycleWork, hloading, InitialLoad.work]
        exact Nat.le_succ _
  | warmedUp hwarming | warmUpRaised hwarming =>
      refine work_of_lifecycle ?_ ?_ ?_
      · rfl
      · rfl
      · simp only [lifecycleWork, hwarming, InitialLoad.work]
        exact le_rfl
  | loadCancelled hload =>
      refine work_of_lifecycle ?_ ?_ ?_
      · rfl
      · rfl
      · exact Nat.add_le_add_left (Nat.zero_le _) _
  | candidateGranted hfree hqueue => exact lockAcquired_work (.candidateGranted hfree hqueue)
  | activated hqueue hcandidate hinfo =>
      exact lockAcquired_work (.activated hqueue hcandidate hinfo)
  | activationRefused hqueue hnone => exact lockAcquired_work (.activationRefused hqueue hnone)
  | rolledBack hqueue hprevious => exact lockAcquired_work (.rolledBack hqueue hprevious)
  | rollbackRefused hqueue hnone => exact lockAcquired_work (.rollbackRefused hqueue hnone)
  | candidateLoaded hholder =>
      refine work_of_lifecycle ?_ ?_ ?_
      · rfl
      · rfl
      · simp only [lifecycleWork, hholder, allocate, CandidateLoad.work, Option.elim_some]
        simp only [Action.proceeds, if_true]
        omega
  | candidateRaised hholder | candidateAccepted hholder | candidateRejected hholder =>
      refine work_of_lifecycle ?_ ?_ ?_
      · rfl
      · rfl
      · simp only [lifecycleWork, hholder, unload, CandidateLoad.work, Option.elim_some,
          Option.elim_none, Action.proceeds, if_true]
        omega
  | acquired hphase hpermit =>
      refine call_proceeds ?_ ?_ ?_ (hknown _ fun h => nomatch hphase.symm.trans h) ?_
      · rfl
      · rfl
      · rfl
      · rw [hphase]
        exact Nat.lt_succ_self 3
  | begun hphase hfree =>
      refine call_proceeds ?_ ?_ ?_ (hknown _ fun h => nomatch hphase.symm.trans h) ?_
      · rfl
      · rfl
      · rfl
      · rw [hphase]
        exact Nat.lt_succ_self 2
  | @answered id execution semaphore model source hphase =>
      have hid := hknown id fun h => nomatch hphase.symm.trans h
      have hless : ∀ t : ModelRuntime, t.calls = s.calls → t.entered = s.entered →
          t.lifecycleWork = s.lifecycleWork →
          (t.setPhase id (.answered semaphore (execution.reply source (s.calls id).pairs))).work + 1 ≤
            s.work := fun t hcalls hentered hlifecycle => by
        refine call_proceeds hcalls hentered hlifecycle hid ?_
        rw [hphase]
        exact Nat.lt_succ_self 1
      cases execution.fallback with
      | false => exact hless s rfl rfl rfl
      | true =>
          cases model with
          | none => exact hless s rfl rfl rfl
          | some m => exact hless (s.fallBack m) rfl rfl rfl
  | orphanEnded hphase =>
      refine call_proceeds ?_ ?_ ?_ (hknown _ fun h => nomatch hphase.symm.trans h) ?_
      · rfl
      · rfl
      · rfl
      · rw [hphase]
        exact Nat.one_pos
  | resumed hresume => exact resumePredict_work hentered hresume
  | cancelled => exact cancelPredict_work hentered _

/-! ### Rest -/

/-- What holds in every run with valid settings. -/
structure Running (s : ModelRuntime) : Prop where
  manned : s.Manned
  refers : s.concurrency.Refers
  entered : s.concurrency.Entered
  permits : ∀ k ≤ s.semaphore, 1 ≤ s.concurrency.total k

/-- A runtime as the application creates it from settings that were validated. -/
def ValidInitial (s : ModelRuntime) : Prop :=
  ∃ settings backendDevice, settings.Permissive ∧ s = new settings backendDevice

theorem ValidInitial.running (h : s.ValidInitial) : s.Running := by
  obtain ⟨settings, backendDevice, hsettings, rfl⟩ := h
  refine ⟨⟨hsettings, ?_, hsettings.1⟩, fun _ _ => nofun, fun id hid => absurd rfl hid, fun k _ => ?_⟩
  · exact hsettings.1.trans (le_max_left _ _)
  · exact hsettings.1.trans (Nat.le_add_right _ _)

theorem Running.step (h : s.Running) (hvalid : a.Validated) (hstep : s.step a = some s') :
    s'.Running := by
  have hkeeps := step_keeps h.refers hstep
  have hmanned := h.manned.step hvalid hstep
  refine ⟨hmanned, hkeeps.refers, step_entered h.entered hstep, fun k hk => ?_⟩
  rcases hkeeps.current with ⟨hsame, -⟩ | ⟨hnext, hfresh⟩
  · have hold : k ≤ s.semaphore := hk.trans hsame.le
    exact (h.permits k hold).trans (hkeeps.total k hold).ge
  · rcases Nat.lt_succ_iff_lt_or_eq.mp (Nat.lt_succ_of_le (hk.trans hnext.le)) with hlt | heq
    · have hold : k ≤ s.semaphore := Nat.le_of_lt_succ hlt
      exact (h.permits k hold).trans (hkeeps.total k hold).ge
    · have hlatest : k = s'.concurrency.semaphore := heq.trans hnext.symm
      rw [hlatest, hfresh]
      exact hmanned.effective

/-- Nothing that is in progress can go on. -/
def Stuck (s : ModelRuntime) : Prop :=
  ∀ a : Action, a.proceeds = true → s.step a = none

theorem Stuck.quiescent (h : s.Stuck) (hopen : s.closed = false) : s.quiescent = true := by
  have hclosed : ¬s.closed = true := by rw [hopen]; exact Bool.false_ne_true
  have hload : s.initialLoad = .idle := by
    cases hphase : s.initialLoad with
    | idle => rfl
    | loading name revision maxLength started =>
        have hreturned := h (.loadReturned (.error .cancelled)) rfl
        simp only [step, if_neg hclosed, loadReturned, hphase] at hreturned
        cases hreturned
    | warming model started =>
        have hwarmed := h (.warmedUp (.error .cancelled)) rfl
        simp only [step, if_neg hclosed, warmedUp, hphase] at hwarmed
        cases hwarmed
  have hholder : s.lockHolder = none := by
    cases hlock : s.lockHolder with
    | none => rfl
    | some holder =>
        cases holder with
        | loading check maxLength started =>
            have hreturned := h (.candidateReturned (.error .cancelled)) rfl
            simp only [step, if_neg hclosed, candidateReturned, hlock] at hreturned
            cases hreturned
        | smoking check model started =>
            have hsmoked := h (.candidateSmoked (.error .cancelled)) rfl
            simp only [step, if_neg hclosed, candidateSmoked, hlock, smokeTest] at hsmoked
            cases hsmoked
  have hqueue : s.lockQueue = [] := by
    cases hwaits : s.lockQueue with
    | nil => rfl
    | cons request rest =>
        have hacquired := h .lockAcquired rfl
        cases request with
        | candidate | activate | rollback =>
            simp only [step, if_neg hclosed, lockAcquired, hholder, hwaits] at hacquired
            cases hacquired
  rw [ModelRuntime.quiescent, hload, hholder, hqueue]
  rfl

/-- No thread works and none has answered. -/
theorem Stuck.idle (h : s.Stuck) (hopen : s.closed = false) (id : PredictId) :
    (s.phase id).executing = false ∧ ∀ k reply, s.phase id ≠ .answered k reply := by
  have hclosed : ¬s.closed = true := by rw [hopen]; exact Bool.false_ne_true
  have hfinish := h (.finish id { result := .ok [] }) rfl
  have hresume := h (.resumePredict id) rfl
  simp only [step, if_neg hclosed] at hfinish hresume
  cases hphase : s.phase id with
  | waiting | submitted | returned => exact ⟨rfl, fun _ _ => nofun⟩
  | running semaphore model source =>
      simp only [finish, hphase] at hfinish
      cases hfinish
  | orphaned =>
      simp only [finish, hphase] at hfinish
      cases hfinish
  | answered semaphore reply =>
      cases reply with
      | scores | raised =>
          simp only [resumePredict, hphase, Option.map_some] at hresume
          cases hresume

/-- **A runtime in which nothing can go on is at rest**: a call waits only while others hold the
permits, and they can go on. -/
theorem Running.rests (h : s.Running) (hopen : s.closed = false) (hstuck : s.Stuck) :
    s.quiescent = true ∧ ∀ id, s.phase id = .returned := by
  have hclosed : ¬s.closed = true := by rw [hopen]; exact Bool.false_ne_true
  have hnone : s.executions = ∅ := Finset.filter_eq_empty_iff.mpr fun id _ => by
    rw [(hstuck.idle hopen id).1]
    exact Bool.false_ne_true
  have hsubmitted : ∀ id k model, s.phase id ≠ .submitted k model := fun id k model hphase => by
    have hbegin := hstuck (.begin id) rfl
    have hfree : s.executions.card < s.maxWorkers := by
      rw [hnone, Finset.card_empty]
      exact h.manned.workers
    simp only [ModelRuntime.step, if_neg hclosed, begin, hphase, if_pos hfree] at hbegin
    cases hbegin
  have hholds : ∀ id, (s.phase id).permit = none := fun id => by
    obtain ⟨hexecuting, hanswered⟩ := hstuck.idle hopen id
    cases hphase : s.phase id with
    | waiting | orphaned | returned => rfl
    | submitted k model => exact absurd hphase (hsubmitted id k model)
    | running k model source => rw [hphase] at hexecuting; cases hexecuting
    | answered k reply => exact absurd hphase (hanswered k reply)
  refine ⟨hstuck.quiescent hopen, fun id => ?_⟩
  obtain ⟨hexecuting, hanswered⟩ := hstuck.idle hopen id
  cases hphase : s.phase id with
  | returned => rfl
  | submitted k model => exact absurd hphase (hsubmitted id k model)
  | answered k reply => exact absurd hphase (hanswered k reply)
  | running | orphaned => rw [hphase] at hexecuting; cases hexecuting
  | waiting k =>
      have hknown := h.refers id k (by rw [phase_concurrency, hphase]; rfl)
      have hpermits := h.permits k hknown.1.2
      have hempty : s.concurrency.book.holders k = ∅ :=
        Finset.filter_eq_empty_iff.mpr fun other _ => by
          change ¬(s.phase other).permit = some k
          rw [hholds other]
          exact nofun
      rw [Concurrency.total, hempty, Finset.card_empty] at hpermits
      have hacquire := hstuck (.acquire id) rfl
      have hfree : 0 < s.semaphores k := hpermits
      simp only [ModelRuntime.step, if_neg hclosed, acquire, hphase, if_pos hfree] at hacquire
      cases hacquire

theorem syncActiveBackendState_closed (s : ModelRuntime) :
    s.syncActiveBackendState.closed = s.closed := by
  unfold syncActiveBackendState
  split
  · rfl
  · rfl

/-- Only `close()` closes. -/
theorem step_open (ha : a.startsNothing = true) (hstep : s.step a = some s') :
    s'.closed = false := by
  obtain ⟨hopen, htakes⟩ := step_takes hstep
  cases htakes with
  | loadArrived | activated | rolledBack => exact (syncActiveBackendState_closed _).trans hopen
  | closed => cases ha
  | @reconfigured maxConcurrency maxLength =>
      unfold reconfigure
      dsimp only
      split
      · exact hopen
      · exact hopen
  | @answered id execution semaphore model source hphase =>
      cases execution.fallback with
      | false => exact hopen
      | true =>
          cases model with
          | none => exact hopen
          | some m => exact hopen
  | @resumed id _ reply hresume =>
      unfold resumePredict at hresume
      split at hresume
      · cases hresume
        exact (syncActiveBackendState_closed s).trans hopen
      · cases hresume
        exact hopen
      · cases hresume
  | @cancelled id =>
      unfold cancelPredict
      split
      · exact hopen
      · exact hopen
      · exact hopen
      · exact hopen
      · exact hopen
  | _ => exact hopen

/-- **The runtime comes to rest**: when nothing new is started, then in whatever order what is in
progress goes on, is cancelled or is patched, and whatever loads, threads and backends answer, it
goes on no more often than its work says; and when nothing can go on any more, every prediction is
over, no operation of the lifecycle is in progress and nobody waits for the lock. -/
theorem comes_to_rest (hreach : Reaches step ValidInitial (fun _ a => a.Validated) s)
    (hopen : s.closed = false) {actions : List Action}
    (hactions : ∀ a ∈ actions, a.startsNothing = true ∧ a.Validated)
    (hrun : run step s actions = some s') :
    actions.countP Action.proceeds ≤ s.work ∧
      (s'.Stuck → s'.quiescent = true ∧ ∀ id, s'.phase id = .returned) := by
  have hstart : s.Running := hreach.invariant (fun _ h => h.running) fun _ _ _ h hvalid hstep =>
    h.step hvalid hstep
  obtain ⟨⟨hlast, hstill⟩, hcount⟩ := run_countP_le work Action.proceeds
    (I := fun t => t.Running ∧ t.closed = false)
    (C := fun _ a => a.startsNothing = true ∧ a.Validated)
    (fun t a t' ht ha hstep =>
      ⟨⟨ht.1.step ha.2 hstep, step_open ha.1 hstep⟩, step_work ht.1.entered ha.1 hstep⟩)
    ⟨hstart, hopen⟩ (fun a ha _ => hactions a ha) hrun
  exact ⟨(Nat.le_add_left _ _).trans hcount, fun hstuck => hlast.rests hstill hstuck⟩

/-- Two predictions wait for one permit while a candidate is loaded. -/
def busyRun : List Action :=
  gpuLoad ++ [.enter onePair, .enter onePair, .acquire 0, .activateBegin]

/-- The first prediction is over, its successor runs and is cancelled, and its thread ends. -/
def restingRun : List Action :=
  [.begin 0, .finish 0 { result := .ok [.finite 1] }, .lockAcquired, .resumePredict 0, .acquire 1,
    .begin 1, .cancelPredict 1, .finish 1 { result := .ok [.finite 1] }]

theorem comes_to_rest_busy : ∃ s s', run step (new {} "auto".toList) busyRun = some s ∧
    run step s restingRun = some s' ∧ restingRun.countP Action.proceeds ≤ s.work ∧ s.work = 8 := by
  obtain ⟨s, hrun, hopen, hwork, s', hrest⟩ : ∃ s, run step (new {} "auto".toList) busyRun = some s ∧
      s.closed = false ∧ s.work = 8 ∧ ∃ s', run step s restingRun = some s' :=
    ⟨_, rfl, rfl, rfl, _, rfl⟩
  have hsettings : Settings.Permissive {} := ⟨by decide, by decide, by decide⟩
  have hinit : ValidInitial (new {} "auto".toList) := ⟨{}, "auto".toList, hsettings, rfl⟩
  have hreach : Reaches step ValidInitial (fun _ a => a.Validated) s := by
    refine .extend (.start hinit) (fun a ha _ maxConcurrency maxLength heq => ?_) hrun
    subst heq
    simp [busyRun, gpuLoad] at ha
  have hnothing : ∀ a ∈ restingRun, a.startsNothing = true ∧ a.Validated := by
    refine fun a ha => ⟨?_, fun maxConcurrency maxLength heq => ?_⟩
    · revert a
      decide
    · subst heq
      simp [restingRun] at ha
  obtain ⟨hcount, -⟩ := comes_to_rest hreach hopen hnothing hrest
  exact ⟨s, s', hrun, hrest, hcount, hwork⟩

end ModelRuntime

end RerankerService
