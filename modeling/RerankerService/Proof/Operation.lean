import RerankerService.Foundation.Run
import RerankerService.Runtime.Lifecycle

/-!
# The report of the running operation

`state()` shows one record, of the lifecycle operation that was begun or ended last. Operations queue
for the model lock, so an older one may end while the record speaks of a younger one. The record is
believed for what it says: whatever it calls running is in progress, and its times are in order.
-/

namespace RerankerService

open Transition

/-- A record as it may be read at the time `now`. -/
def Operation.WellFormed (operation : Operation) (now : Nat) : Prop :=
  match operation.status with
  | .idle => operation.type = none ∧ operation.startedAt = none ∧ operation.finishedAt = none ∧
      operation.error = none
  | .running => operation.type.isSome ∧ operation.finishedAt = none ∧ operation.error = none ∧
      ∃ started ≤ now, operation.startedAt = some started
  | .completed => operation.type.isSome ∧ operation.error = none ∧
      ∃ started finished, operation.startedAt = some started ∧
        operation.finishedAt = some finished ∧ started ≤ finished ∧ finished ≤ now
  | .error => operation.type.isSome ∧ operation.error.isSome ∧
      ∃ started finished, operation.startedAt = some started ∧
        operation.finishedAt = some finished ∧ started ≤ finished ∧ finished ≤ now

theorem Operation.WellFormed.later {operation : Operation} {now later : Nat}
    (h : operation.WellFormed now) (hle : now ≤ later) : operation.WellFormed later := by
  unfold WellFormed at h ⊢
  split
  · rename_i hstatus
    rw [hstatus] at h
    exact h
  · rename_i hstatus
    rw [hstatus] at h
    obtain ⟨htype, hfinished, herror, started, hstarted, heq⟩ := h
    exact ⟨htype, hfinished, herror, started, hstarted.trans hle, heq⟩
  · rename_i hstatus
    rw [hstatus] at h
    obtain ⟨htype, herror, started, finished, hstarted, hfinished, horder, hbefore⟩ := h
    exact ⟨htype, herror, started, finished, hstarted, hfinished, horder, hbefore.trans hle⟩
  · rename_i hstatus
    rw [hstatus] at h
    obtain ⟨htype, herror, started, finished, hstarted, hfinished, horder, hbefore⟩ := h
    exact ⟨htype, herror, started, finished, hstarted, hfinished, horder, hbefore.trans hle⟩

/-! ### Operations in progress -/

def InitialLoad.begun : InitialLoad → List (OperationType × Nat)
  | .idle => []
  | .loading _ _ _ started | .warming _ started => [(.initialLoad, started)]

def CandidateLoad.begun : CandidateLoad → OperationType × Nat
  | .loading _ _ started | .smoking _ _ started => (.candidateLoad, started)

def LockRequest.begun : LockRequest → OperationType × Nat
  | .candidate _ started => (.candidateLoad, started)
  | .activate started => (.candidateActivate, started)
  | .rollback started => (.rollback, started)

namespace ModelRuntime

/-- What the report and the operations in progress consist of. -/
structure Desk where
  clock : Nat
  operation : Operation
  initialLoad : InitialLoad
  lockHolder : Option CandidateLoad
  lockQueue : List LockRequest

def desk (s : ModelRuntime) : Desk where
  clock := s.clock
  operation := s.operation
  initialLoad := s.initialLoad
  lockHolder := s.lockHolder
  lockQueue := s.lockQueue

/-- The operations that have not ended, with the times at which they were begun. -/
def Desk.inProgress (d : Desk) : List (OperationType × Nat) :=
  d.initialLoad.begun ++ d.lockHolder.toList.map CandidateLoad.begun ++
    d.lockQueue.map LockRequest.begun

structure Desk.Truthful (d : Desk) : Prop where
  running : d.operation.status = .running → ∃ type started, d.operation.type = some type ∧
    d.operation.startedAt = some started ∧ (type, started) ∈ d.inProgress
  wellFormed : d.operation.WellFormed d.clock
  begun : ∀ entry ∈ d.inProgress, entry.2 ≤ d.clock

variable {d d' : Desk} {s s' : ModelRuntime} {a : Action}

/-! ### What can happen to the record -/

/-- The record stays, and so do the operations in progress. -/
theorem Desk.Truthful.keeps (h : d.Truthful) (hoperation : d'.operation = d.operation)
    (hclock : d.clock ≤ d'.clock) (hsame : d'.inProgress = d.inProgress) : d'.Truthful where
  running hrunning := by
    rw [hoperation] at hrunning ⊢
    rw [hsame]
    exact h.running hrunning
  wellFormed := hoperation ▸ h.wellFormed.later hclock
  begun entry hentry := (h.begun entry (hsame ▸ hentry)).trans hclock

/-- An operation begins. -/
theorem Desk.Truthful.begins (h : d.Truthful) {type : OperationType}
    (hoperation : d'.operation = { type := some type, status := .running, startedAt := some d.clock })
    (hclock : d'.clock = d.clock)
    (hprogress : d'.inProgress.Perm ((type, d.clock) :: d.inProgress)) : d'.Truthful where
  running _ := by
    refine ⟨type, d.clock, ?_, ?_, hprogress.mem_iff.mpr List.mem_cons_self⟩
    · rw [hoperation]
    · rw [hoperation]
  wellFormed := by
    rw [hoperation, hclock]
    exact ⟨rfl, rfl, rfl, d.clock, le_rfl, rfl⟩
  begun entry hentry := by
    rw [hclock]
    rcases List.mem_cons.mp (hprogress.mem_iff.mp hentry) with rfl | hold
    · exact le_rfl
    · exact h.begun entry hold

/-- An operation ends. -/
theorem Desk.Truthful.ends (h : d.Truthful) {type : OperationType} {status : OperationStatus}
    {started : Nat} {error : Option Error} (hstarted : started ≤ d.clock)
    (hstatus : status = .completed ∧ error = none ∨ status = .error ∧ error.isSome)
    (hoperation : d'.operation =
      { type := some type, status, startedAt := some started, finishedAt := some d.clock, error })
    (hclock : d'.clock = d.clock) (hothers : d'.inProgress ⊆ d.inProgress) : d'.Truthful where
  running hrunning := by
    rw [hoperation] at hrunning
    rcases hstatus with ⟨rfl, -⟩ | ⟨rfl, -⟩
    · cases hrunning
    · cases hrunning
  wellFormed := by
    rw [hoperation, hclock]
    rcases hstatus with ⟨rfl, rfl⟩ | ⟨rfl, herror⟩
    · exact ⟨rfl, rfl, started, d.clock, rfl, rfl, hstarted, le_rfl⟩
    · exact ⟨rfl, herror, started, d.clock, rfl, rfl, hstarted, le_rfl⟩
  begun entry hentry := hclock ▸ h.begun entry (hothers hentry)

@[simp]
theorem syncActiveBackendState_desk (s : ModelRuntime) : s.syncActiveBackendState.desk = s.desk := by
  unfold syncActiveBackendState
  split
  · rfl
  · rfl

theorem synced_desk (s : ModelRuntime) (initialLoad : InitialLoad) :
    { s.syncActiveBackendState with initialLoad }.desk = { s.desk with initialLoad } :=
  congrArg (fun d : Desk => { d with initialLoad }) (syncActiveBackendState_desk s)

theorem setOperation_desk (s : ModelRuntime) (type : OperationType) (status : OperationStatus)
    (started : Nat) (error : Option Error) :
    (s.setOperation type status started error).desk = { s.desk with
      operation :=
        { type := some type, status, startedAt := some started
          finishedAt := if status = .running then none else some s.desk.clock, error } } := rfl

theorem setModelReady_desk (s : ModelRuntime) (model device : Text) (value : Bool) :
    (s.setModelReady model device value).desk = s.desk := rfl

/-! ### The steps -/

theorem inProgress_desk (s : ModelRuntime) :
    s.desk.inProgress = s.initialLoad.begun ++ s.lockHolder.toList.map CandidateLoad.begun ++
      s.lockQueue.map LockRequest.begun := rfl

theorem loadFailed_truthful {started : Nat} (h : s.desk.Truthful)
    (hload : s.initialLoad.begun = [(.initialLoad, started)]) (error : Error) :
    (s.loadFailed error started).desk.Truthful := by
  have hbegun : started ≤ s.clock := by
    refine h.begun (.initialLoad, started) ?_
    rw [inProgress_desk, hload]
    exact List.mem_cons_self
  refine h.ends hbegun (.inr ⟨rfl, rfl⟩) rfl rfl ?_
  rw [inProgress_desk, inProgress_desk, List.append_assoc, List.append_assoc]
  exact List.subset_append_right _ _

theorem loadReturned_truthful {outcome : Except Error Loaded} (h : s.desk.Truthful)
    (hstep : s.loadReturned outcome = some s') : s'.desk.Truthful := by
  unfold loadReturned at hstep
  split at hstep
  · rename_i name revision maxLength started loaded hload
    have hsync := synced_desk { s.allocate name revision maxLength loaded with model := some s.loaded }
      (.warming s.loaded started)
    have hdesk : s'.desk = { s.desk with initialLoad := .warming s.loaded started } :=
      (congrArg desk (Option.some.inj hstep).symm).trans hsync
    rw [hdesk]
    refine h.keeps rfl le_rfl ?_
    rw [inProgress_desk, hload]
    rfl
  · rename_i name revision maxLength started error hload
    cases hstep
    exact loadFailed_truthful h (by rw [hload, InitialLoad.begun]) error
  · cases hstep

theorem warmedUp_truthful {outcome : Except Error Unit} (h : s.desk.Truthful)
    (hstep : s.warmedUp outcome = some s') : s'.desk.Truthful := by
  unfold warmedUp at hstep
  split at hstep
  · rename_i model started _ hload
    cases hstep
    have hbegun : started ≤ s.clock := by
      refine h.begun (.initialLoad, started) ?_
      rw [inProgress_desk, hload]
      exact List.mem_cons_self
    refine h.ends hbegun (.inl ⟨rfl, rfl⟩) rfl rfl ?_
    rw [inProgress_desk, inProgress_desk, List.append_assoc, List.append_assoc]
    exact List.subset_append_right _ _
  · rename_i model started error hload
    cases hstep
    exact loadFailed_truthful h (by rw [hload, InitialLoad.begun]) error
  · cases hstep

/-- A coroutine begins to wait for the lock. -/
theorem queued_truthful (h : s.desk.Truthful) {request : LockRequest} {type : OperationType}
    (hrequest : request.begun = (type, s.clock)) :
    Desk.Truthful { s.desk with
      operation := { type := some type, status := .running, startedAt := some s.clock }
      lockQueue := s.lockQueue ++ [request] } := by
  refine h.begins rfl rfl ?_
  rw [Desk.inProgress, List.map_append, List.map_singleton, hrequest, ← List.append_assoc]
  exact List.perm_append_singleton _ _

theorem candidateBegin_truthful (h : s.desk.Truthful) (probe : Probe) (name revision : Text) :
    (s.candidateBegin probe name revision).desk.Truthful := by
  unfold candidateBegin
  dsimp only
  split
  · rename_i hrefused
    exact h.ends le_rfl (.inr ⟨rfl, hrefused⟩) rfl rfl (List.Subset.refl _)
  split
  · exact h.ends le_rfl (.inr ⟨rfl, rfl⟩) rfl rfl (List.Subset.refl _)
  split
  · exact h.ends le_rfl (.inl ⟨rfl, rfl⟩) rfl rfl (List.Subset.refl _)
  · exact queued_truthful h rfl

theorem activateCandidate_desk (s : ModelRuntime) (started : Nat) :
    ∃ status error, (status = .completed ∧ error = none ∨ status = .error ∧ error.isSome) ∧
      (s.activateCandidate started).desk = { s.desk with
        operation := { type := some .candidateActivate, status, startedAt := some started
                       finishedAt := some s.clock, error } } := by
  unfold activateCandidate
  split
  · refine ⟨.completed, none, .inl ⟨rfl, rfl⟩, ?_⟩
    simp only [setOperation_desk, setModelReady_desk, syncActiveBackendState_desk]
    rfl
  · exact ⟨.error, _, .inr ⟨rfl, rfl⟩, rfl⟩

theorem rollback_desk (s : ModelRuntime) (started : Nat) :
    ∃ status error, (status = .completed ∧ error = none ∨ status = .error ∧ error.isSome) ∧
      (s.rollback started).desk = { s.desk with
        operation := { type := some .rollback, status, startedAt := some started
                       finishedAt := some s.clock, error } } := by
  unfold rollback
  split
  · refine ⟨.completed, none, .inl ⟨rfl, rfl⟩, ?_⟩
    simp only [setOperation_desk, syncActiveBackendState_desk]
    rfl
  · exact ⟨.error, _, .inr ⟨rfl, rfl⟩, rfl⟩

/-- The first of those that wait for the lock gets it and ends at once. -/
theorem granted_truthful (h : s.desk.Truthful) {request : LockRequest} {rest : List LockRequest}
    {type : OperationType} {started : Nat} (hqueue : s.lockQueue = request :: rest)
    (hrequest : request.begun = (type, started)) {status : OperationStatus} {error : Option Error}
    (hstatus : status = .completed ∧ error = none ∨ status = .error ∧ error.isSome) :
    Desk.Truthful { s.desk with
      operation := { type := some type, status, startedAt := some started
                     finishedAt := some s.clock, error }
      lockQueue := rest } := by
  have hold : s.desk.inProgress = s.initialLoad.begun ++ s.lockHolder.toList.map CandidateLoad.begun ++
      (type, started) :: rest.map LockRequest.begun := by
    rw [inProgress_desk, hqueue, List.map_cons, hrequest]
  have hstarted : started ≤ s.clock := by
    refine h.begun (type, started) ?_
    rw [hold]
    exact List.mem_append_right _ List.mem_cons_self
  refine h.ends hstarted hstatus rfl rfl ?_
  rw [hold]
  intro entry hentry
  rcases List.mem_append.mp hentry with hfront | hback
  · exact List.mem_append_left _ hfront
  · exact List.mem_append_right _ (List.mem_cons_of_mem _ hback)

theorem lockAcquired_truthful (h : s.desk.Truthful) (hstep : s.lockAcquired = some s') :
    s'.desk.Truthful := by
  unfold lockAcquired at hstep
  split at hstep
  · rename_i check started rest hfree hqueue
    cases hstep
    refine h.keeps rfl le_rfl ?_
    rw [inProgress_desk, inProgress_desk, hfree, hqueue, List.append_assoc, List.append_assoc]
    rfl
  · rename_i started rest _ hqueue
    obtain rfl := Option.some.inj hstep
    obtain ⟨status, error, hstatus, hdesk⟩ :=
      activateCandidate_desk { s with lockQueue := rest } started
    rw [hdesk]
    exact granted_truthful h hqueue rfl hstatus
  · rename_i started rest _ hqueue
    obtain rfl := Option.some.inj hstep
    obtain ⟨status, error, hstatus, hdesk⟩ := rollback_desk { s with lockQueue := rest } started
    rw [hdesk]
    exact granted_truthful h hqueue rfl hstatus
  · cases hstep

/-- The candidate load that holds the lock ends and gives it back. -/
theorem released_truthful (h : s.desk.Truthful) {holder : CandidateLoad} {started : Nat}
    (hholder : s.lockHolder = some holder) (hbegun : holder.begun = (.candidateLoad, started))
    {status : OperationStatus} {error : Option Error}
    (hstatus : status = .completed ∧ error = none ∨ status = .error ∧ error.isSome) :
    Desk.Truthful { s.desk with
      operation := { type := some .candidateLoad, status, startedAt := some started
                     finishedAt := some s.clock, error }
      lockHolder := none } := by
  have hold : s.desk.inProgress = s.initialLoad.begun ++
      ((.candidateLoad, started) :: s.lockQueue.map LockRequest.begun) := by
    rw [inProgress_desk, hholder, List.append_assoc, Option.toList_some, List.map_singleton, hbegun]
    rfl
  have hstarted : started ≤ s.clock := by
    refine h.begun (.candidateLoad, started) ?_
    rw [hold]
    exact List.mem_append_right _ List.mem_cons_self
  refine h.ends hstarted hstatus rfl rfl ?_
  rw [hold]
  intro entry hentry
  rcases List.mem_append.mp hentry with hfront | hback
  · rw [Option.toList_none, List.map_nil, List.append_nil] at hfront
    exact List.mem_append_left _ hfront
  · exact List.mem_append_right _ (List.mem_cons_of_mem _ hback)

theorem candidateReturned_truthful {outcome : Except Error Loaded} (h : s.desk.Truthful)
    (hstep : s.candidateReturned outcome = some s') : s'.desk.Truthful := by
  unfold candidateReturned at hstep
  split at hstep
  · rename_i check maxLength started loaded hholder
    cases hstep
    refine h.keeps rfl le_rfl ?_
    rw [inProgress_desk s, hholder]
    rfl
  · rename_i check maxLength started error hholder
    cases hstep
    exact released_truthful h hholder rfl (.inr ⟨rfl, rfl⟩)
  · cases hstep

theorem candidateSmoked_truthful {outcome : Except Error (List Value)} (h : s.desk.Truthful)
    (hstep : s.candidateSmoked outcome = some s') : s'.desk.Truthful := by
  unfold candidateSmoked at hstep
  split at hstep
  · rename_i check model started hholder
    split at hstep
    · cases hstep
      exact released_truthful h hholder rfl (.inl ⟨rfl, rfl⟩)
    · cases hstep
      exact released_truthful h hholder rfl (.inr ⟨rfl, rfl⟩)
  · cases hstep

theorem reconfigure_desk (s : ModelRuntime) (maxConcurrency maxLength : Nat) :
    s.desk = (s.reconfigure maxConcurrency maxLength).desk := by
  unfold reconfigure
  dsimp only
  split
  · rfl
  · rfl

theorem acquire_desk {id : PredictId} (hstep : s.acquire id = some s') : s.desk = s'.desk := by
  unfold acquire at hstep
  split at hstep
  · split at hstep
    · cases hstep
      rfl
    · cases hstep
  · cases hstep

theorem begin_desk {id : PredictId} (hstep : s.begin id = some s') : s.desk = s'.desk := by
  unfold begin at hstep
  split at hstep
  · split at hstep
    · cases hstep
      rfl
    · cases hstep
  · cases hstep

theorem finish_desk {id : PredictId} {execution : Execution}
    (hstep : s.finish id execution = some s') : s.desk = s'.desk := by
  unfold finish at hstep
  split at hstep
  · rename_i semaphore model source hphase
    obtain rfl := Option.some.inj hstep
    cases execution.fallback with
    | false => rfl
    | true =>
        cases model with
        | none => rfl
        | some m => rfl
  · cases hstep
    rfl
  · cases hstep

theorem resumePredict_desk {id : PredictId} {reply : Reply Score}
    (hstep : s.resumePredict id = some (s', reply)) : s.desk = s'.desk := by
  unfold resumePredict at hstep
  split at hstep
  · cases hstep
    exact (syncActiveBackendState_desk s).symm
  · cases hstep
    rfl
  · cases hstep

theorem cancelPredict_desk (s : ModelRuntime) (id : PredictId) :
    s.desk = (s.cancelPredict id).desk := by
  unfold cancelPredict
  split
  · rfl
  · rfl
  · rfl
  · rfl
  · rfl

/-- **Every step keeps the report truthful**, but for a cancellation of the initial load. -/
theorem step_truthful (h : s.desk.Truthful) (ha : a ≠ .loadCancelled) (hstep : s.step a = some s') :
    s'.desk.Truthful := by
  unfold step at hstep
  split at hstep
  · cases hstep
  cases a with
  | tick =>
      cases hstep
      exact h.keeps rfl (Nat.le_succ _) rfl
  | loadBegin =>
      simp only [loadBegin] at hstep
      split at hstep
      · rename_i hidle
        cases hstep
        refine h.begins rfl rfl ?_
        rw [inProgress_desk s, hidle]
        exact .refl _
      · cases hstep
  | loadReturned outcome => exact loadReturned_truthful h hstep
  | warmedUp outcome => exact warmedUp_truthful h hstep
  | loadCancelled => exact absurd rfl ha
  | candidateBegin probe name revision =>
      cases hstep
      exact candidateBegin_truthful h probe name revision
  | activateBegin | rollbackBegin =>
      cases hstep
      exact queued_truthful h rfl
  | lockAcquired => exact lockAcquired_truthful h hstep
  | candidateReturned outcome => exact candidateReturned_truthful h hstep
  | candidateSmoked outcome => exact candidateSmoked_truthful h hstep
  | reconfigure maxConcurrency maxLength =>
      cases hstep
      exact reconfigure_desk s maxConcurrency maxLength ▸ h
  | close =>
      simp only [close] at hstep
      split at hstep
      · cases hstep
        exact h
      · cases hstep
  | enter pairs =>
      cases hstep
      exact h
  | acquire id => exact acquire_desk hstep ▸ h
  | begin id => exact begin_desk hstep ▸ h
  | finish id execution => exact finish_desk hstep ▸ h
  | resumePredict id =>
      obtain ⟨⟨t, reply⟩, hresume, rfl⟩ := Option.map_eq_some_iff.mp hstep
      exact resumePredict_desk hresume ▸ h
  | cancelPredict id =>
      cases hstep
      exact cancelPredict_desk s id ▸ h

theorem inProgress_of_quiescent (h : s.quiescent = true) : s.desk.inProgress = [] := by
  unfold quiescent at h
  rw [Bool.and_eq_true, Bool.and_eq_true, Option.isNone_iff_eq_none, List.isEmpty_iff] at h
  obtain ⟨⟨hload, hholder⟩, hqueue⟩ := h
  rw [inProgress_desk, hholder, hqueue]
  cases hphase : s.initialLoad with
  | idle => rfl
  | loading | warming => rw [hphase] at hload; cases hload

/-- **The report is true** in every run in which the initial load is not cancelled: what it says is
well formed and in time order, and what it calls running has not ended. So nothing is called running
when the runtime is quiet. -/
theorem operation_truthful (hreach : Reaches step Initial (fun _ a => a ≠ .loadCancelled) s) :
    s.operation.WellFormed s.clock ∧
      (s.operation.status = .running → ∃ type started, s.operation.type = some type ∧
        s.operation.startedAt = some started ∧ (type, started) ∈ s.desk.inProgress) ∧
      (s.quiescent = true → s.operation.status ≠ .running) := by
  have h : s.desk.Truthful := by
    refine hreach.invariant (fun s hinit => ?_) fun _ _ _ h ha hstep => step_truthful h ha hstep
    obtain ⟨settings, backendDevice, rfl⟩ := hinit
    exact ⟨nofun, ⟨rfl, rfl, rfl, rfl⟩, fun _ => nofun⟩
  refine ⟨h.wellFormed, h.running, fun hquiet hrunning => ?_⟩
  obtain ⟨type, started, -, -, hprogress⟩ := h.running hrunning
  rw [inProgress_of_quiescent hquiet] at hprogress
  cases hprogress

/-- A rollback is asked for while the model is loaded, and the load ends first. -/
theorem operation_truthful_overtaken : ∃ s,
    run step (new {} "auto".toList) [.loadBegin, .tick, .rollbackBegin,
      .loadReturned (.error (.runtimeError "model repository is not reachable"))] = some s ∧
    s.desk.inProgress = [(.rollback, 1)] ∧ s.operation.status = .error ∧
    s.operation.WellFormed s.clock := by
  obtain ⟨s, hrun, hprogress, hstatus⟩ : ∃ s, run step (new {} "auto".toList)
      [.loadBegin, .tick, .rollbackBegin,
        .loadReturned (.error (.runtimeError "model repository is not reachable"))] = some s ∧
      s.desk.inProgress = [(.rollback, 1)] ∧ s.operation.status = .error := ⟨_, rfl, rfl, rfl⟩
  have hinit : Initial (new {} "auto".toList) := ⟨{}, "auto".toList, rfl⟩
  have hreach : Reaches step Initial (fun _ a => a ≠ .loadCancelled) s :=
    .extend (.start hinit) (by simp) hrun
  exact ⟨s, hrun, hprogress, hstatus, (operation_truthful hreach).1⟩

end ModelRuntime

end RerankerService
