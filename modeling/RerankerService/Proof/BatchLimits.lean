import RerankerService.Proof.Process

/-!
# Every batch respects both limits

The invariant of the batch under assembly: it has room for its pairs, its counter is the sum of their
tokens, and that sum is within the limit unless the batch is a single pair.
-/

namespace RerankerService.DynamicBatcher

variable {σ : Type} {limits : Limits} {jobs now : Jobs σ} {ids active : List JobId} {batch : Batch}

structure Within (limits : Limits) (combined : List Pair) (tokens : Nat) : Prop where
  pairs : combined.length ≤ limits.maxBatchPairs
  counted : tokens = (combined.map pairTokens).sum
  tokens : tokens ≤ limits.maxBatchTokens ∨ combined.length = 1

theorem one_le_pairTokens (pair : Pair) : 1 ≤ pairTokens pair :=
  le_max_left _ _

theorem Within.nil (limits : Limits) : Within limits [] 0 where
  pairs := Nat.zero_le _
  counted := rfl
  tokens := .inl (Nat.zero_le _)

theorem Within.append {combined : List Pair} {tokens : Nat} {pair : Pair}
    (h : Within limits combined tokens) (hroom : combined.length < limits.maxBatchPairs)
    (hfits : combined = [] ∨ tokens + pairTokens pair ≤ limits.maxBatchTokens) :
    Within limits (combined ++ [pair]) (tokens + pairTokens pair) where
  pairs := by
    rw [List.length_append, List.length_singleton]
    omega
  counted := by
    rw [h.counted, List.map_append, List.sum_append, List.map_singleton, List.sum_singleton]
  tokens := by
    rcases hfits with hempty | hfits
    · apply Or.inr
      rw [hempty, List.nil_append, List.length_singleton]
    · exact .inl hfits

theorem takePairs_within (rest : List Pair) :
    ∀ (combined : List Pair) (tokens count : Nat), Within limits combined tokens →
      Within limits (takePairs limits combined tokens count rest).1
        (takePairs limits combined tokens count rest).2.1 := by
  induction rest with
  | nil => exact fun combined tokens count h => h
  | cons pair rest ih =>
      intro combined tokens count h
      by_cases hfull : limits.maxBatchPairs ≤ combined.length
      · rw [takePairs, if_pos hfull]
        exact h
      by_cases hexceeds : combined ≠ [] ∧ limits.maxBatchTokens < tokens + pairTokens pair
      · rw [takePairs, if_neg hfull, if_pos hexceeds]
        exact h
      have hfits : combined = [] ∨ tokens + pairTokens pair ≤ limits.maxBatchTokens := by
        by_cases hempty : combined = []
        · exact .inl hempty
        · exact .inr (not_lt.mp fun hlt => hexceeds ⟨hempty, hlt⟩)
      have hnext := h.append (not_le.mp hfull) hfits
      by_cases hlast : limits.maxBatchTokens ≤ tokens + pairTokens pair
      · rw [takePairs, if_neg hfull, if_neg hexceeds, if_pos hlast]
        exact hnext
      · rw [takePairs, if_neg hfull, if_neg hexceeds, if_neg hlast]
        exact ih (combined ++ [pair]) (tokens + pairTokens pair) (count + 1) hnext

/-- Breaking the inner loop does not stop the outer one, so every later job meets the same
invariant. -/
theorem assemble_within (limits : Limits) (jobs : Jobs σ) (ids : List JobId) :
    ∀ batch : Batch, Within limits batch.combined batch.tokens →
      Within limits (assemble limits jobs batch ids).combined
        (assemble limits jobs batch ids).tokens := by
  induction ids with
  | nil => exact fun batch h => h
  | cons id rest ih =>
      intro batch h
      by_cases hfull : limits.maxBatchPairs ≤ batch.combined.length
      · rw [assemble, if_pos hfull]
        exact h
      · rw [assemble, if_neg hfull]
        apply ih
        exact takePairs_within (jobs id).unscored batch.combined batch.tokens 0 h

theorem assemble_slices_pos (limits : Limits) (jobs : Jobs σ) (ids : List JobId) :
    ∀ batch : Batch, (∀ slice ∈ batch.slices, 1 ≤ slice.2) →
      ∀ slice ∈ (assemble limits jobs batch ids).slices, 1 ≤ slice.2 := by
  induction ids with
  | nil => exact fun batch h => h
  | cons id rest ih =>
      intro batch h
      by_cases hfull : limits.maxBatchPairs ≤ batch.combined.length
      · rw [assemble, if_pos hfull]
        exact h
      · rw [assemble, if_neg hfull]
        apply ih
        intro slice hslice
        by_cases hnone : (takePairs limits batch.combined batch.tokens 0 (jobs id).unscored).2.2 = 0
        · exact h slice (by simpa [hnone] using hslice)
        · simp only [hnone, ↓reduceIte, List.mem_append, List.mem_singleton] at hslice
          rcases hslice with hold | hnew
          · exact h slice hold
          · rw [hnew]
            exact Nat.one_le_iff_ne_zero.mpr hnone

/-! ### The iterations of `_process` -/

theorem nextBatch_predicting {active' : List JobId}
    (h : nextBatch limits jobs active = .predicting active' batch) :
    active' = active ∧ batch = assemble limits jobs {} active ∧ batch.combined ≠ [] := by
  by_cases hnil : active = []
  · rw [nextBatch, if_pos hnil] at h
    cases h
  by_cases hempty : (assemble limits jobs {} active).combined = []
  · simp only [nextBatch, if_neg hnil, if_pos hempty] at h
    cases h
  · simp only [nextBatch, if_neg hnil, if_neg hempty, Process.predicting.injEq] at h
    obtain ⟨hactive, hbatch⟩ := h
    exact ⟨hactive.symm, hbatch.symm, hbatch ▸ hempty⟩

/-- A loop that goes on after a reply has delivered it and goes on with the jobs still pending. -/
theorem resume_predicting {jobs' : Jobs σ} {active' : List JobId} {batch' : Batch} {reply : Reply σ}
    (h : resume limits jobs active batch reply = (jobs', .predicting active' batch')) :
    nextBatch limits jobs' (unfinished jobs' active) = .predicting active' batch' := by
  unfold resume at h
  cases hcheck : reply.check batch.combined with
  | error error => simp [hcheck] at h
  | ok scores =>
      simp only [hcheck, Prod.mk.injEq] at h
      rw [← h.1]
      exact h.2

namespace Iteration

variable {env : Nat → CallEnvironment σ} {n : Nat}

theorem assembled (h : Iteration env jobs ids n now active batch) :
    active.Sublist ids ∧ batch = assemble (env n).limits now {} active ∧ batch.combined ≠ [] := by
  induction h with
  | first hstart =>
      obtain ⟨hactive, hbatch⟩ := nextBatch_predicting hstart
      exact ⟨hactive ▸ List.filter_sublist, hactive ▸ hbatch⟩
  | next h hresume ih =>
      obtain ⟨hactive, hbatch⟩ := nextBatch_predicting (resume_predicting hresume)
      exact ⟨hactive ▸ List.filter_sublist.trans ih.1, hactive ▸ hbatch⟩

theorem of_processFrom {fuel call : Nat} {process : Process} {final : Jobs σ} {batches : List Batch}
    (hprocess : ∀ active batch, process = .predicting active batch →
      Iteration env jobs ids call now active batch)
    (hrun : processFrom env fuel call now process = some (final, batches)) (n : Nat) {batch : Batch}
    (hbatch : batches[n]? = some batch) :
    ∃ now active, Iteration env jobs ids (call + n) now active batch := by
  induction fuel generalizing call now process batches n with
  | zero =>
      cases process with
      | predicting active batch => cases hrun
      | returned =>
          obtain ⟨-, rfl⟩ := Prod.mk.inj (Option.some.inj hrun)
          cases hbatch
  | succ fuel ih =>
      cases process with
      | returned =>
          obtain ⟨-, rfl⟩ := Prod.mk.inj (Option.some.inj hrun)
          cases hbatch
      | predicting active first =>
          have hfirst := hprocess active first rfl
          simp only [processFrom, Option.map_eq_some_iff, Prod.exists, Prod.mk.injEq] at hrun
          obtain ⟨_, rest, hrest, rfl, rfl⟩ := hrun
          cases n with
          | zero =>
              obtain rfl := Option.some.inj hbatch
              exact ⟨now, active, hfirst⟩
          | succ n =>
              have hshift : call + (n + 1) = call + 1 + n := by omega
              rw [hshift]
              refine ih (fun active' batch' hnext => ?_) hrest n hbatch
              exact hfirst.next (Prod.ext rfl hnext)

theorem of_process {final : Jobs σ} {batches : List Batch}
    (hrun : process env jobs ids = some (final, batches)) (n : Nat)
    (hbatch : batches[n]? = some batch) :
    ∃ now active, Iteration env jobs ids n now active batch := by
  obtain ⟨now, active, h⟩ := of_processFrom (fun _ _ hstart => .first hstart) hrun n hbatch
  exact ⟨now, active, by rwa [zero_add] at h⟩

/-- **Every micro-batch respects both limits** and takes from each job the block at its cursor. The
limits may differ from turn to turn, and need not be positive. -/
theorem respects_limits (h : Iteration env jobs ids n now active batch) :
    (1 ≤ batch.combined.length ∧ batch.combined.length ≤ (env n).limits.maxBatchPairs) ∧
      (∀ pair ∈ batch.combined, 1 ≤ pairTokens pair) ∧
      ((batch.combined.map pairTokens).sum ≤ (env n).limits.maxBatchTokens ∨
        batch.combined.length = 1) ∧
      batch.combined = batch.slices.flatMap (fun slice =>
        ((now slice.1).pairs.drop (now slice.1).cursor).take slice.2) ∧
      ∀ slice ∈ batch.slices, slice.1 ∈ ids ∧ 1 ≤ slice.2 ∧
        (now slice.1).cursor + slice.2 ≤ (now slice.1).pairs.length := by
  obtain ⟨hactive, hassembled, hnonempty⟩ := h.assembled
  have hwithin := assemble_within (env n).limits now active {} (Within.nil _)
  have hsliced := assemble_wellSliced (env n).limits now active
  have hpositive := assemble_slices_pos (env n).limits now active {} (by simp)
  rw [← hassembled] at hwithin hsliced hpositive
  refine ⟨⟨List.length_pos_of_ne_nil hnonempty, hwithin.pairs⟩,
    fun pair _ => one_le_pairTokens pair, ?_, hsliced.combined, fun slice hslice => ?_⟩
  · rw [← hwithin.counted]
    exact hwithin.tokens
  · have hcount := hsliced.count_le slice hslice
    have hone := hpositive slice hslice
    have hmem := hsliced.sublist.subset (List.mem_map_of_mem hslice)
    rw [BatchJob.length_unscored] at hcount
    exact ⟨hactive.subset hmem, hone, by omega⟩

/-- The second call takes the last pair of job `0` and the first one of job `1`. -/
theorem respects_limits_split :
    ∃ (now : Jobs Nat) (batch : Batch), batch.slices = [(0, 1), (1, 1)] ∧
      (1 ≤ batch.combined.length ∧ batch.combined.length ≤ 2) ∧
      (∀ pair ∈ batch.combined, 1 ≤ pairTokens pair) ∧
      ((batch.combined.map pairTokens).sum ≤ 100 ∨ batch.combined.length = 1) ∧
      batch.combined = batch.slices.flatMap (fun slice =>
        ((now slice.1).pairs.drop (now slice.1).cursor).take slice.2) ∧
      ∀ slice ∈ batch.slices, slice.1 ∈ [0, 1] ∧ 1 ≤ slice.2 ∧
        (now slice.1).cursor + slice.2 ≤ (now slice.1).pairs.length := by
  have hfirst : Iteration splitEnvironment splitJobs [0, 1] 0 splitJobs [0, 1] _ := .first rfl
  refine ⟨_, _, ?_, respects_limits (hfirst.next rfl)⟩
  rfl

end Iteration

end RerankerService.DynamicBatcher
