import RerankerService.Runtime.Lifecycle

/-!
# What a step of the runtime can do

Every action with the guards under which it is taken and the state that it leads to, read off the
code once. The record of the running operation and the readiness gauges, which nothing reads back,
are left open.
-/

namespace RerankerService

namespace ModelRuntime

variable {s s' : ModelRuntime} {a : Action}

inductive Takes (s : ModelRuntime) : Action → ModelRuntime → Prop where
  | ticked : Takes s .tick { s with clock := s.clock + 1 }
  | loadBegun {operation : Operation} (hidle : s.initialLoad = .idle) :
      Takes s .loadBegin { s with
        operation
        initialLoad :=
          .loading s.settings.model s.settings.modelRevision s.settings.maxLength s.clock }
  | loadArrived {name revision : Text} {maxLength started : Nat} {loaded : Loaded}
      (hloading : s.initialLoad = .loading name revision maxLength started) :
      Takes s (.loadReturned (.ok loaded))
        { syncActiveBackendState { s.allocate name revision maxLength loaded with
            model := some s.loaded } with
          initialLoad := .warming s.loaded started }
  | loadRaised {name revision : Text} {maxLength started : Nat} {error : Error}
      {operation : Operation} {modelReady : Text × Text → Bool}
      (hloading : s.initialLoad = .loading name revision maxLength started) :
      Takes s (.loadReturned (.error error))
        { s with loadError := some error, operation, modelReady, initialLoad := .idle }
  | warmedUp {m : ModelId} {started : Nat} {operation : Operation}
      {modelReady : Text × Text → Bool} (hwarming : s.initialLoad = .warming m started) :
      Takes s (.warmedUp (.ok ())) { s with
        ready := true
        loadedAt := some s.clock
        loadError := none
        operation, modelReady
        initialLoad := .idle }
  | warmUpRaised {m : ModelId} {started : Nat} {error : Error} {operation : Operation}
      {modelReady : Text × Text → Bool} (hwarming : s.initialLoad = .warming m started) :
      Takes s (.warmedUp (.error error))
        { s with loadError := some error, operation, modelReady, initialLoad := .idle }
  | loadCancelled (hload : s.initialLoad ≠ .idle) :
      Takes s .loadCancelled { s with initialLoad := .idle }
  | candidateEnded {probe : Probe} {name revision : Text} {operation : Operation} :
      Takes s (.candidateBegin probe name revision) { s with operation }
  | candidateQueued {probe : Probe} {name revision : Text} {operation : Operation}
      (hvalid : (s.checkCandidate probe name revision).valid = true) :
      Takes s (.candidateBegin probe name revision) { s with
        operation
        lockQueue := s.lockQueue ++ [.candidate (s.checkCandidate probe name revision) s.clock] }
  | activateQueued {operation : Operation} :
      Takes s .activateBegin { s with
        operation, lockQueue := s.lockQueue ++ [.activate s.clock] }
  | rollbackQueued {operation : Operation} :
      Takes s .rollbackBegin { s with
        operation, lockQueue := s.lockQueue ++ [.rollback s.clock] }
  | candidateGranted {check : CandidateCheck} {started : Nat} {rest : List LockRequest}
      (hfree : s.lockHolder = none) (hqueue : s.lockQueue = .candidate check started :: rest) :
      Takes s .lockAcquired { s with
        lockQueue := rest
        lockHolder := some (.loading check s.settings.maxLength started) }
  | activated {started : Nat} {rest : List LockRequest} {candidate : ModelId}
      {info : CandidateInfo} {operation : Operation} {modelReady : Text × Text → Bool}
      (hqueue : s.lockQueue = .activate started :: rest)
      (hcandidate : s.candidate = some candidate) (hinfo : s.candidateInfo = some info) :
      Takes s .lockAcquired
        { syncActiveBackendState { ({ s with lockQueue := rest }.switchTo
              { model := some candidate, name := info.name, revision := info.resolvedRevision
                loadedAt := some info.loadedAt }) with
            candidate := none
            candidateInfo := none } with
          operation, modelReady }
  | activationRefused {started : Nat} {rest : List LockRequest} {operation : Operation}
      (hqueue : s.lockQueue = .activate started :: rest)
      (hnone : s.candidate = none ∨ s.candidateInfo = none) :
      Takes s .lockAcquired { s with lockQueue := rest, operation }
  | rolledBack {started : Nat} {rest : List LockRequest} {previous : Previous}
      {operation : Operation} (hqueue : s.lockQueue = .rollback started :: rest)
      (hprevious : s.previous = some previous) :
      Takes s .lockAcquired
        { ({ s with lockQueue := rest }.switchTo previous).syncActiveBackendState with operation }
  | rollbackRefused {started : Nat} {rest : List LockRequest} {operation : Operation}
      (hqueue : s.lockQueue = .rollback started :: rest) (hnone : s.previous = none) :
      Takes s .lockAcquired { s with lockQueue := rest, operation }
  | candidateLoaded {check : CandidateCheck} {maxLength started : Nat} {loaded : Loaded}
      (hholder : s.lockHolder = some (.loading check maxLength started)) :
      Takes s (.candidateReturned (.ok loaded))
        { s.allocate check.name (check.resolvedRevision.getD []) maxLength loaded with
          lockHolder := some (.smoking check s.loaded started) }
  | candidateRaised {check : CandidateCheck} {maxLength started : Nat} {error : Error}
      {operation : Operation} (hholder : s.lockHolder = some (.loading check maxLength started)) :
      Takes s (.candidateReturned (.error error)) { s with operation, lockHolder := none }
  | candidateAccepted {check : CandidateCheck} {m : ModelId} {started : Nat}
      {outcome : Except Error (List Value)} {score : Value} {operation : Operation}
      (hholder : s.lockHolder = some (.smoking check m started))
      (hscore : smokeTest outcome = .ok score) :
      Takes s (.candidateSmoked outcome) { s with
        operation
        candidate := some m
        candidateInfo := some
          { name := check.name, resolvedRevision := check.resolvedRevision.getD []
            testScore := score, loadedAt := s.clock }
        lockHolder := none }
  | candidateRejected {check : CandidateCheck} {m : ModelId} {started : Nat}
      {outcome : Except Error (List Value)} {error : Error} {operation : Operation}
      (hholder : s.lockHolder = some (.smoking check m started))
      (herror : smokeTest outcome = .error error) :
      Takes s (.candidateSmoked outcome) { s.unload m with operation, lockHolder := none }
  | reconfigured {maxConcurrency maxLength : Nat} :
      Takes s (.reconfigure maxConcurrency maxLength) (s.reconfigure maxConcurrency maxLength)
  | closed (hquiescent : s.quiescent = true) :
      Takes s .close { s with
        unloaded := s.unloaded ++
          unloadOnce [] [s.model, s.candidate, s.previous.bind Previous.model]
        model := none
        candidate := none
        previous := none
        closed := true }
  | entered {pairs : List Pair} : Takes s (.enter pairs) (s.enter pairs)
  | acquired {id : PredictId} {semaphore : SemaphoreId} (hphase : s.phase id = .waiting semaphore)
      (hpermit : 0 < s.semaphores semaphore) :
      Takes s (.acquire id) (setPhase { s with
        semaphores := Function.update s.semaphores semaphore (s.semaphores semaphore - 1) }
        id (.submitted semaphore s.model))
  | begun {id : PredictId} {semaphore : SemaphoreId} {model : Option ModelId}
      (hphase : s.phase id = .submitted semaphore model)
      (hfree : s.executions.card < s.maxWorkers) :
      Takes s (.begin id)
        (s.setPhase id (.running semaphore model (model.map fun m => (s.models m).toSource)))
  | answered {id : PredictId} {execution : Execution} {semaphore : SemaphoreId}
      {model : Option ModelId} {source : Option Source}
      (hphase : s.phase id = .running semaphore model source) :
      Takes s (.finish id execution)
        (setPhase (if execution.fallback then model.elim s s.fallBack else s) id
          (.answered semaphore (execution.reply source (s.calls id).pairs)))
  | orphanEnded {id : PredictId} {execution : Execution} (hphase : s.phase id = .orphaned) :
      Takes s (.finish id execution) (s.setPhase id .returned)
  | resumed {id : PredictId} {s' : ModelRuntime} {reply : Reply Score}
      (hresume : s.resumePredict id = some (s', reply)) : Takes s (.resumePredict id) s'
  | cancelled {id : PredictId} : Takes s (.cancelPredict id) (s.cancelPredict id)

theorem loadReturned_takes {outcome : Except Error Loaded} (h : s.loadReturned outcome = some s') :
    s.Takes (.loadReturned outcome) s' := by
  unfold loadReturned at h
  split at h
  · rename_i hloading
    cases h
    exact .loadArrived hloading
  · rename_i hloading
    cases h
    exact .loadRaised hloading
  · cases h

theorem warmedUp_takes {outcome : Except Error Unit} (h : s.warmedUp outcome = some s') :
    s.Takes (.warmedUp outcome) s' := by
  unfold warmedUp at h
  split at h
  · rename_i hwarming
    cases h
    exact .warmedUp hwarming
  · rename_i hwarming
    cases h
    exact .warmUpRaised hwarming
  · cases h

theorem candidateBegin_takes (s : ModelRuntime) (probe : Probe) (name revision : Text) :
    s.Takes (.candidateBegin probe name revision) (s.candidateBegin probe name revision) := by
  unfold candidateBegin
  dsimp only
  split
  · exact .candidateEnded
  split
  · exact .candidateEnded
  rename_i hvalid
  split
  · exact .candidateEnded
  · exact .candidateQueued (Bool.not_eq_false _ ▸ hvalid)

theorem activateCandidate_failed (h : s.candidate = none ∨ s.candidateInfo = none)
    (started : Nat) :
    s.activateCandidate started = s.setOperation .candidateActivate .error started
      (some (.valueError "no candidate model is ready")) := by
  unfold activateCandidate
  split
  · rename_i candidate info hcandidate hinfo
    rw [hcandidate, hinfo] at h
    rcases h with hnone | hnone
    · cases hnone
    · cases hnone
  · rfl

theorem activateCandidate_ready {candidate : ModelId} {info : CandidateInfo}
    (hcandidate : s.candidate = some candidate) (hinfo : s.candidateInfo = some info)
    (started : Nat) :
    ∃ operation modelReady, s.activateCandidate started =
      { syncActiveBackendState { (s.switchTo
            { model := some candidate, name := info.name, revision := info.resolvedRevision
              loadedAt := some info.loadedAt }) with
          candidate := none
          candidateInfo := none } with
        operation, modelReady } := by
  unfold activateCandidate
  rw [hcandidate, hinfo]
  dsimp only
  generalize syncActiveBackendState _ = next
  exact ⟨_, _, rfl⟩

theorem rollback_failed (h : s.previous = none) (started : Nat) :
    s.rollback started = s.setOperation .rollback .error started
      (some (.valueError "no previous model is available")) := by
  unfold rollback
  rw [h]

theorem rollback_ready {previous : Previous} (hprevious : s.previous = some previous)
    (started : Nat) :
    ∃ operation, s.rollback started =
      { (s.switchTo previous).syncActiveBackendState with operation } := by
  unfold rollback
  rw [hprevious]
  exact ⟨_, rfl⟩

theorem lockAcquired_takes (h : s.lockAcquired = some s') : s.Takes .lockAcquired s' := by
  unfold lockAcquired at h
  split at h
  · rename_i hfree hqueue
    cases h
    exact .candidateGranted hfree hqueue
  · rename_i started rest _ hqueue
    cases h
    by_cases hnone : s.candidate = none ∨ s.candidateInfo = none
    · rw [activateCandidate_failed (s := { s with lockQueue := rest }) hnone]
      exact .activationRefused hqueue hnone
    · rw [not_or] at hnone
      obtain ⟨candidate, hcandidate⟩ := Option.ne_none_iff_exists'.mp hnone.1
      obtain ⟨info, hinfo⟩ := Option.ne_none_iff_exists'.mp hnone.2
      obtain ⟨operation, modelReady, heq⟩ :=
        activateCandidate_ready (s := { s with lockQueue := rest }) hcandidate hinfo started
      rw [heq]
      exact .activated hqueue hcandidate hinfo
  · rename_i started rest _ hqueue
    cases h
    by_cases hnone : s.previous = none
    · rw [rollback_failed (s := { s with lockQueue := rest }) hnone]
      exact .rollbackRefused hqueue hnone
    · obtain ⟨previous, hprevious⟩ := Option.ne_none_iff_exists'.mp hnone
      obtain ⟨operation, heq⟩ :=
        rollback_ready (s := { s with lockQueue := rest }) hprevious started
      rw [heq]
      exact .rolledBack hqueue hprevious
  · cases h

theorem candidateReturned_takes {outcome : Except Error Loaded}
    (h : s.candidateReturned outcome = some s') : s.Takes (.candidateReturned outcome) s' := by
  unfold candidateReturned at h
  split at h
  · rename_i hholder
    cases h
    exact .candidateLoaded hholder
  · rename_i hholder
    cases h
    exact .candidateRaised hholder
  · cases h

theorem candidateSmoked_takes {outcome : Except Error (List Value)}
    (h : s.candidateSmoked outcome = some s') : s.Takes (.candidateSmoked outcome) s' := by
  unfold candidateSmoked at h
  split at h
  · rename_i hholder
    split at h
    · rename_i hscore
      cases h
      exact .candidateAccepted hholder hscore
    · rename_i herror
      cases h
      exact .candidateRejected hholder herror
  · cases h

theorem acquire_takes {id : PredictId} (h : s.acquire id = some s') : s.Takes (.acquire id) s' := by
  unfold acquire at h
  split at h
  · rename_i hphase
    split at h
    · rename_i hpermit
      cases h
      exact .acquired hphase hpermit
    · cases h
  · cases h

theorem begin_takes {id : PredictId} (h : s.begin id = some s') : s.Takes (.begin id) s' := by
  unfold begin at h
  split at h
  · rename_i hphase
    split at h
    · rename_i hfree
      cases h
      exact .begun hphase hfree
    · cases h
  · cases h

theorem finish_takes {id : PredictId} {execution : Execution} (h : s.finish id execution = some s') :
    s.Takes (.finish id execution) s' := by
  unfold finish at h
  split at h
  · rename_i semaphore model source hphase
    cases h
    have hcalls : (if execution.fallback then model.elim s s.fallBack else s).calls = s.calls := by
      cases model <;> cases execution.fallback <;> rfl
    rw [hcalls]
    exact .answered hphase
  · rename_i hphase
    cases h
    exact .orphanEnded hphase
  · cases h

/-- **Inversion**: a step is one of these, taken before the shutdown. -/
theorem step_takes (h : s.step a = some s') : s.closed = false ∧ s.Takes a s' := by
  unfold step at h
  split at h
  · cases h
  rename_i hopen
  refine ⟨Bool.eq_false_iff.mpr hopen, ?_⟩
  cases a with
  | tick =>
      cases h
      exact .ticked
  | loadBegin =>
      simp only [loadBegin] at h
      split at h
      · rename_i hidle
        cases h
        exact .loadBegun hidle
      · cases h
  | loadReturned outcome => exact loadReturned_takes h
  | warmedUp outcome => exact warmedUp_takes h
  | loadCancelled =>
      simp only [loadCancelled] at h
      split at h
      · cases h
      · rename_i hload
        cases h
        exact .loadCancelled hload
  | candidateBegin probe name revision =>
      cases h
      exact candidateBegin_takes s probe name revision
  | activateBegin =>
      cases h
      exact .activateQueued
  | rollbackBegin =>
      cases h
      exact .rollbackQueued
  | lockAcquired => exact lockAcquired_takes h
  | candidateReturned outcome => exact candidateReturned_takes h
  | candidateSmoked outcome => exact candidateSmoked_takes h
  | reconfigure maxConcurrency maxLength =>
      cases h
      exact .reconfigured
  | close =>
      simp only [close] at h
      split at h
      · rename_i hquiescent
        cases h
        exact .closed hquiescent
      · cases h
  | enter pairs =>
      cases h
      exact .entered
  | acquire id => exact acquire_takes h
  | begin id => exact begin_takes h
  | finish id execution => exact finish_takes h
  | resumePredict id =>
      obtain ⟨⟨t, reply⟩, hresume, rfl⟩ := Option.map_eq_some_iff.mp h
      exact .resumed hresume
  | cancelPredict id =>
      cases h
      exact .cancelled

end ModelRuntime

end RerankerService
