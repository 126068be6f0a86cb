import RerankerService.Proof.Progress

/-!
# Which requests a failing predictor call reaches

The handler of `_process` walks over all active jobs, not over the slices of the batch that failed,
and leaves the loop. A failure therefore stays with the requests it concerns exactly when no other
job of the group is still waiting at that moment.
-/

namespace RerankerService

variable {σ : Type}

theorem BatchJob.Answered.not_exception {R : Pair → σ → Prop} {job job' : BatchJob σ}
    {values : List σ} (h : job.Answered R (.ok values) job') {error : Error}
    (hfuture : job'.future = .exception error) : job.future = .exception error := by
  cases h with
  | unchanged => exact hfuture
  | received =>
      simp only [BatchJob.receive] at hfuture
      split at hfuture
      · cases hfuture
      · exact hfuture

namespace DynamicBatcher

variable {jobs now : Jobs σ} {ids active : List JobId} {batch : Batch}
  {env : Nat → CallEnvironment σ} {n : Nat}

/-- What the `n`-th predictor call comes to when it is given `batch`. -/
def CallEnvironment.outcome (env : CallEnvironment σ) (batch : Batch) : Except Error (List σ) :=
  (env.predict batch.combined).check batch.combined

/-- A predictor failure is confined to the requests it concerns: a job with the exception has a pair
in the call that raised it, and a job whose own calls succeed gets its scores. -/
def Confined (f : Pair → σ) (env : Nat → CallEnvironment σ) (jobs : Jobs σ) (ids : List JobId) :
    Prop :=
  ∀ final batches, process env jobs ids = some (final, batches) →
    ∀ id ∈ ids, (jobs id).future = .pending →
      (∀ error, (final id).future = .exception error →
        ∃ n batch, batches[n]? = some batch ∧ (env n).outcome batch = .error error ∧
          id ∈ batch.slices.map Prod.fst) ∧
      ((∀ n batch, batches[n]? = some batch → id ∈ batch.slices.map Prod.fst →
          ∃ values, (env n).outcome batch = .ok values) →
        (∀ n < batches.length, id ∉ (env n).cancelled) →
        (final id).future = .result ((jobs id).pairs.map f))

/-! ### The call that fails is the last one -/

theorem drop_of_processFrom {fuel call : Nat} {process : Process} {final : Jobs σ}
    {batches : List Batch} (h : processFrom env fuel call now process = some (final, batches)) :
    ∀ active batch, process = .predicting active batch →
      ∃ fuel' rest, batches = batch :: rest ∧
        processFrom env fuel' (call + 1)
          (resume (env (call + 1)).limits (cancelAll now (env call).cancelled) active batch
            ((env call).predict batch.combined)).1
          (resume (env (call + 1)).limits (cancelAll now (env call).cancelled) active batch
            ((env call).predict batch.combined)).2 = some (final, rest) := by
  rintro active batch rfl
  cases fuel with
  | zero => cases h
  | succ fuel =>
      simp only [processFrom, Option.map_eq_some_iff, Prod.exists, Prod.mk.injEq] at h
      obtain ⟨_, rest, hrest, rfl, rfl⟩ := h
      exact ⟨fuel, rest, rfl, hrest⟩

namespace Iteration

/-- An execution that reaches a turn goes on from there. -/
theorem rest_of_process {final : Jobs σ} {batches : List Batch}
    (h : Iteration env jobs ids n now active batch)
    (hrun : process env jobs ids = some (final, batches)) :
    ∃ fuel, processFrom env fuel n now (.predicting active batch) =
      some (final, batches.drop n) := by
  induction h with
  | first hstart =>
      rw [process, hstart] at hrun
      exact ⟨_, hrun⟩
  | @next n now now' active active' batch batch' h hresume ih =>
      obtain ⟨fuel, hfrom⟩ := ih
      obtain ⟨fuel', rest, hdrop, hrest⟩ := drop_of_processFrom hfrom active batch rfl
      rw [hresume] at hrest
      refine ⟨fuel', ?_⟩
      rw [← List.drop_drop, hdrop]
      exact hrest

theorem batch_of_process {final : Jobs σ} {batches : List Batch}
    (h : Iteration env jobs ids n now active batch)
    (hrun : process env jobs ids = some (final, batches)) : batches[n]? = some batch := by
  obtain ⟨fuel, hfrom⟩ := h.rest_of_process hrun
  obtain ⟨-, rest, hdrop, -⟩ := drop_of_processFrom hfrom active batch rfl
  rw [← List.head?_drop, hdrop, List.head?_cons]

/-- A failing call fails every active job and ends the execution. -/
theorem final_of_failure {final : Jobs σ} {batches : List Batch} {error : Error}
    (h : Iteration env jobs ids n now active batch)
    (hrun : process env jobs ids = some (final, batches))
    (hfailure : (env n).outcome batch = .error error) :
    batches.length = n + 1 ∧ final = failAll (cancelAll now (env n).cancelled) error active := by
  obtain ⟨fuel, hfrom⟩ := h.rest_of_process hrun
  obtain ⟨fuel', rest, hdrop, hrest⟩ := drop_of_processFrom hfrom active batch rfl
  rw [CallEnvironment.outcome] at hfailure
  simp only [resume, hfailure, processFrom_returned, Option.some.injEq, Prod.mk.injEq] at hrest
  obtain ⟨hfinal, rfl⟩ := hrest
  have hlength : (batches.drop n).length = 1 := by rw [hdrop, List.length_singleton]
  rw [List.length_drop] at hlength
  exact ⟨by omega, hfinal.symm⟩

/-- As long as the loop goes on no job has been settled with an exception. -/
theorem not_exception (hlimits : ∀ n, 1 ≤ (env n).limits.maxBatchPairs) (hnodup : ids.Nodup)
    (hfresh : ∀ id ∈ ids, (jobs id).Fresh) (h : Iteration env jobs ids n now active batch)
    {id : JobId} {error : Error} (hpending : (jobs id).future = .pending) :
    (now id).future ≠ .exception error := by
  induction h with
  | first hstart =>
      rw [hpending]
      simp
  | @next n now now' active active' batch batch' h hresume ih =>
      intro hexception
      obtain ⟨hinvariant, -⟩ := h.invariant hlimits hnodup hfresh
      have hjob := resume_cancelAll_job (env (n + 1)).limits hnodup (env n).cancelled
        hinvariant.located ((env n).predict batch.combined) id
      cases hcheck : ((env n).predict batch.combined).check batch.combined with
      | error error =>
          simp only [resume, hcheck] at hresume
          cases hresume
      | ok values =>
          rw [hcheck, hresume] at hjob
          have hcancelled := hjob.not_exception hexception
          rw [cancelAll_future] at hcancelled
          split at hcancelled
          · cases hcancelled
          · exact ih hcancelled

/-- A job that is still pending has been so from the start. -/
theorem pending_of_pending (hlimits : ∀ n, 1 ≤ (env n).limits.maxBatchPairs) (hnodup : ids.Nodup)
    (hfresh : ∀ id ∈ ids, (jobs id).Fresh) (h : Iteration env jobs ids n now active batch)
    {id : JobId} (hpending : (now id).future = .pending) : (jobs id).future = .pending := by
  induction h with
  | first hstart => exact hpending
  | @next n now now' active active' batch batch' h hresume ih =>
      obtain ⟨hinvariant, -⟩ := h.invariant hlimits hnodup hfresh
      have hjob := resume_cancelAll_job (env (n + 1)).limits hnodup (env n).cancelled
        hinvariant.located ((env n).predict batch.combined) id
      rw [hresume] at hjob
      exact ih (pending_of_cancelAll (hjob.pending hpending)).2

/-- A job that ends with the exception was waiting when the failing call came back. -/
theorem pending_of_failed (hlimits : ∀ n, 1 ≤ (env n).limits.maxBatchPairs) (hnodup : ids.Nodup)
    (hfresh : ∀ id ∈ ids, (jobs id).Fresh) (h : Iteration env jobs ids n now active batch)
    {final : Jobs σ} {batches : List Batch} (hrun : process env jobs ids = some (final, batches))
    {error : Error} (hfailure : (env n).outcome batch = .error error) {id : JobId}
    (hpending : (jobs id).future = .pending) (hexception : (final id).future = .exception error) :
    (cancelAll now (env n).cancelled id).future = .pending := by
  obtain ⟨-, hfinal⟩ := h.final_of_failure hrun hfailure
  rw [← Future.done_eq_false, ← Bool.not_eq_true]
  intro hdone
  have hkept : (final id).future = (cancelAll now (env n).cancelled id).future := by
    rw [hfinal, failAll]
    split
    · rw [BatchJob.fail_future, if_pos hdone]
    · rfl
  rw [hkept, cancelAll_future] at hexception
  split at hexception
  · cases hexception
  · exact h.not_exception hlimits hnodup hfresh hpending hexception

end Iteration

/-- **A failure is confined exactly when nothing else is waiting.** Limits, cancellations and
replies are arbitrary from call to call; an accepted reply holds `f` of each pair. -/
theorem confined_iff (f : Pair → σ) (env : Nat → CallEnvironment σ)
    (hlimits : ∀ n, 1 ≤ (env n).limits.maxBatchPairs)
    (hpredict : ∀ n combined values, (env n).predict combined = .scores values →
      values.length = combined.length → values = combined.map f)
    (hnodup : ids.Nodup) (hfresh : ∀ id ∈ ids, (jobs id).Fresh) :
    Confined f env jobs ids ↔
      ∀ n now active batch, Iteration env jobs ids n now active batch →
        ∀ error, (env n).outcome batch = .error error →
          ∀ id ∈ ids, (cancelAll now (env n).cancelled id).future = .pending →
            id ∈ batch.slices.map Prod.fst := by
  obtain ⟨final, batches, hrun, hsettled⟩ := process_settles f env hlimits hpredict hnodup hfresh
  constructor
  · intro hconfined n now active batch h error hfailure id hid hpending
    obtain ⟨hlength, hfinal⟩ := h.final_of_failure hrun hfailure
    obtain ⟨hinvariant, hactive⟩ := h.invariant hlimits hnodup hfresh
    obtain ⟨-, hnow⟩ := pending_of_cancelAll hpending
    have hmem : id ∈ active := by
      rw [hactive]
      exact mem_unfinished.mpr ⟨hid, hnow⟩
    have hexception : (final id).future = .exception error := by
      rw [hfinal, failAll, if_pos hmem, BatchJob.fail_future, hpending]
      rfl
    obtain ⟨m, other, hother, hcheck, hslice⟩ :=
      (hconfined final batches hrun id hid (h.pending_of_pending hlimits hnodup hfresh hnow)).1 error
        hexception
    obtain ⟨now', active', h'⟩ := Iteration.of_process hrun m hother
    obtain ⟨hlength', -⟩ := h'.final_of_failure hrun hcheck
    have heq : m = n := by omega
    rw [heq, h.batch_of_process hrun] at hother
    rw [Option.some.inj hother]
    exact hslice
  · intro hcondition final' batches' hrun' id hid hpending
    rw [hrun] at hrun'
    obtain ⟨rfl, rfl⟩ := Prod.mk.inj (Option.some.inj hrun')
    have hown : ∀ error, (final id).future = .exception error →
        ∃ n batch, batches[n]? = some batch ∧ (env n).outcome batch = .error error ∧
          id ∈ batch.slices.map Prod.fst := by
      intro error hexception
      rcases hsettled id hid hpending with hresult | ⟨hcancelled, -⟩ |
        ⟨n, batch, raised, -, hbatch, hcheck, hraised⟩
      · rw [hresult] at hexception
        cases hexception
      · rw [hcancelled] at hexception
        cases hexception
      · obtain rfl : raised = error := by
          rw [hraised] at hexception
          exact Future.exception.inj hexception
        obtain ⟨now, active, h⟩ := Iteration.of_process hrun n hbatch
        have hwaiting := h.pending_of_failed hlimits hnodup hfresh hrun hcheck hpending hexception
        exact ⟨n, batch, hbatch, hcheck,
          hcondition n now active batch h raised hcheck id hid hwaiting⟩
    refine ⟨hown, fun hcalls hkept => ?_⟩
    rcases hsettled id hid hpending with hresult | ⟨-, n, hn, hcancelled⟩ |
      ⟨n, batch, error, -, -, -, hraised⟩
    · exact hresult
    · exact absurd hcancelled (hkept n hn)
    · obtain ⟨m, own, hown', hcheck, hslice⟩ := hown error hraised
      obtain ⟨values, hvalues⟩ := hcalls m own hown' hslice
      rw [hcheck] at hvalues
      cases hvalues

/-- Batches of one pair; the first predictor call raises. -/
def raisingEnvironment (n : Nat) : CallEnvironment Nat where
  limits := { maxBatchPairs := 1, maxBatchTokens := 100 }
  cancelled := []
  predict combined :=
    if n = 0 then .raised (.runtimeError "out of memory")
    else .scores (combined.map fun pair => pair.2.length)

def onePairJobs (id : JobId) : BatchJob Nat where
  pairs := [("q".toList, decimal id)]

theorem confined_iff_raising :
    Confined (fun pair => pair.2.length) raisingEnvironment onePairJobs [0, 1] ↔
      ∀ n now active batch, Iteration raisingEnvironment onePairJobs [0, 1] n now active batch →
        ∀ error, (raisingEnvironment n).outcome batch = .error error →
          ∀ id ∈ [0, 1], (cancelAll now (raisingEnvironment n).cancelled id).future = .pending →
            id ∈ batch.slices.map Prod.fst := by
  refine confined_iff (fun pair => pair.2.length) raisingEnvironment (fun _ => le_rfl)
    (fun n combined values hreply _ => ?_) (by decide) fun id _ => ⟨by simp [onePairJobs], .inl rfl⟩
  simp only [raisingEnvironment] at hreply
  split at hreply
  · cases hreply
  · exact (Reply.scores.inj hreply).symm

/-- Job `1` has no pair in the only call, and gets its exception. -/
theorem not_confined_raising :
    ¬Confined (fun pair => pair.2.length) raisingEnvironment onePairJobs [0, 1] := by
  intro hconfined
  obtain ⟨hown, -⟩ := hconfined _ _ rfl 1 (by decide) rfl
  obtain ⟨n, batch, hbatch, -, hslice⟩ := hown _ rfl
  have hslices : batch.slices.map Prod.fst = [0] := by
    cases n with
    | zero =>
        obtain rfl := Option.some.inj hbatch
        rfl
    | succ n => cases hbatch
  rw [hslices] at hslice
  cases hslice with
  | tail _ h => cases h

end DynamicBatcher

end RerankerService
