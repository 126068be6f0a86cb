import RerankerService.Proof.BatchLimits

/-!
# The batch loop comes to an end and serves the oldest job first

A job is worth its unscored pairs while it is pending and nothing once it is settled. Every call
starts with a pair of the first unfinished job, so among the first `k` jobs the total worth drops at
each call until it is zero, whatever the later jobs, the limits and the cancellations are.
-/

namespace RerankerService

variable {σ : Type}

def BatchJob.outstanding (job : BatchJob σ) : Nat :=
  if job.future.done then 0 else job.unscored.length

namespace BatchJob

variable {job job' : BatchJob σ} {R : Pair → σ → Prop}

theorem outstanding_of_done (hdone : job.future.done = true) : job.outstanding = 0 :=
  if_pos hdone

theorem outstanding_of_pending (hpending : job.future = .pending) :
    job.outstanding = job.unscored.length := by
  rw [outstanding, hpending]
  rfl

theorem outstanding_le (job : BatchJob σ) : job.outstanding ≤ job.unscored.length := by
  unfold outstanding
  split
  · exact Nat.zero_le _
  · exact le_rfl

theorem Scored.outstanding_eq_zero (h : job.Scored R) :
    job.outstanding = 0 ↔ job.future.done = true := by
  constructor
  · intro hzero
    by_contra hopen
    have hpending := Future.done_eq_false.mp (Bool.not_eq_true _ ▸ hopen)
    have hcursor := h.pending hpending
    rw [outstanding_of_pending hpending, length_unscored] at hzero
    omega
  · exact outstanding_of_done

/-- A job that stays pending may only lose unscored pairs, and a settled one stays settled. -/
theorem outstanding_mono (hdone : job.future.done = true → job'.future.done = true)
    (hunscored : job'.unscored.length ≤ job.unscored.length) :
    job'.outstanding ≤ job.outstanding := by
  by_cases h : job'.future.done = true
  · rw [outstanding_of_done h]
    exact Nat.zero_le _
  · have hopen : ¬job.future.done = true := fun hold => h (hdone hold)
    rw [outstanding, outstanding, if_neg h, if_neg hopen]
    exact hunscored

theorem Answered.outstanding_le {outcome : Except Error (List σ)}
    (h : job.Answered R outcome job') : job'.outstanding ≤ job.outstanding := by
  apply outstanding_mono _ h.length_unscored_le
  intro hdone
  rw [h.future hdone]
  exact hdone

/-- Pairs that are scored are not outstanding any more. -/
theorem outstanding_receive_lt (part : List σ) {count : Nat} (hcount : 1 ≤ count)
    (hpos : 0 < job.outstanding) : (job.receive part count).outstanding < job.outstanding := by
  have hopen : ¬job.future.done = true := by
    intro hdone
    rw [outstanding_of_done hdone] at hpos
    omega
  have hworth : job.outstanding = job.unscored.length := if_neg hopen
  calc (job.receive part count).outstanding
      ≤ (job.receive part count).unscored.length := BatchJob.outstanding_le _
    _ = job.unscored.length - count := length_unscored_receive job part count
    _ < job.outstanding := by omega

end BatchJob

theorem Reply.sound_true (reply : Reply σ) (combined : List Pair) :
    reply.Sound (fun _ _ => True) combined := by
  intro values hvalues
  have hlength : values.length = combined.length := by
    cases reply with
    | raised error => cases hvalues
    | scores given =>
        rw [Reply.check] at hvalues
        split at hvalues
        · cases hvalues
          assumption
        · cases hvalues
  exact List.forall₂_iff_zip.mpr ⟨hlength.symm, fun _ => trivial⟩

namespace DynamicBatcher

variable {jobs now : Jobs σ} {ids active : List JobId} {limits : Limits} {batch : Batch}
  {env : Nat → CallEnvironment σ} {n : Nat}

/-! ### The first job of a batch -/

theorem takePairs_first (hlimit : 1 ≤ limits.maxBatchPairs) (pair : Pair) (rest : List Pair)
    (tokens : Nat) :
    ∃ taken, (takePairs limits [] tokens 0 (pair :: rest)).1 = pair :: rest.take taken ∧
      (takePairs limits [] tokens 0 (pair :: rest)).2.2 = taken + 1 := by
  have hroom : ¬limits.maxBatchPairs ≤ ([] : List Pair).length := by
    rw [List.length_nil]
    omega
  rw [takePairs, if_neg hroom, if_neg (by simp)]
  split
  · exact ⟨0, rfl, rfl⟩
  · obtain ⟨taken, -, hcombined, hcount⟩ :=
      takePairs_spec limits rest ([] ++ [pair]) (tokens + pairTokens pair) (0 + 1)
    refine ⟨taken, hcombined, ?_⟩
    rw [hcount]
    omega

/-- The batch starts with the next unscored pair of the first unfinished job of the group. -/
def ServesFirst (now : Jobs σ) (ids : List JobId) (batch : Batch) : Prop :=
  ∃ id rest pair count, unfinished now ids = id :: rest ∧
    (now id).unscored.head? = some pair ∧ batch.combined.head? = some pair ∧
    batch.slices.head? = some (id, count + 1)

theorem assemble_first (hlimit : 1 ≤ limits.maxBatchPairs) {id : JobId} {pair : Pair}
    (hpair : (jobs id).unscored.head? = some pair) (rest : List JobId) :
    (assemble limits jobs {} (id :: rest)).combined.head? = some pair ∧
      ∃ count, (assemble limits jobs {} (id :: rest)).slices.head? = some (id, count + 1) := by
  obtain ⟨others, hunscored⟩ := List.head?_eq_some_iff.mp hpair
  have hroom : ¬limits.maxBatchPairs ≤ ([] : List Pair).length := by
    rw [List.length_nil]
    omega
  obtain ⟨taken, hcombined, hcount⟩ := takePairs_first hlimit pair others 0
  rw [assemble, if_neg hroom, hunscored]
  simp only [hcombined, hcount]
  obtain ⟨more, hmore, hslices, -⟩ := assemble_spec limits jobs rest
    { combined := pair :: others.take taken
      slices := if taken + 1 = 0 then [] else [] ++ [(id, taken + 1)]
      tokens := (takePairs limits [] 0 0 (pair :: others)).2.1 }
  refine ⟨?_, taken, ?_⟩
  · rw [hmore]
    rfl
  · rw [hslices, if_neg (Nat.succ_ne_zero taken)]
    rfl

/-! ### What is outstanding along the calls -/

theorem unfinished_unfinished {now' : Jobs σ}
    (hdone : ∀ id ∈ ids, (now id).future.done = true → (now' id).future.done = true) :
    unfinished now' (unfinished now ids) = unfinished now' ids := by
  rw [unfinished, unfinished, unfinished, List.filter_filter]
  apply List.filter_congr
  intro id hid
  cases hold : (now id).future.done with
  | false => simp
  | true => simp [hdone id hid hold]

theorem unfinished_take (now : Jobs σ) (ids : List JobId) (k : Nat) :
    unfinished now ids = unfinished now (ids.take k) ++ unfinished now (ids.drop k) := by
  rw [unfinished, unfinished, unfinished, ← List.filter_append, List.take_append_drop]

def outstanding (now : Jobs σ) (ids : List JobId) : Nat :=
  (ids.map fun id => (now id).outstanding).sum

theorem outstanding_le_totalPairs (now : Jobs σ) (ids : List JobId) :
    outstanding now ids ≤ totalPairs now ids := by
  refine List.sum_le_sum fun id _ => ?_
  calc (now id).outstanding
      ≤ (now id).unscored.length := (now id).outstanding_le
    _ = (now id).pairs.length - (now id).cursor := BatchJob.length_unscored _
    _ ≤ (now id).pairs.length := Nat.sub_le _ _

theorem outstanding_eq_zero {R : Pair → σ → Prop} (hscored : ∀ id ∈ ids, (now id).Scored R) :
    outstanding now ids = 0 ↔ ∀ id ∈ ids, (now id).future.done = true := by
  rw [outstanding, List.sum_eq_zero_iff, List.forall_mem_map]
  exact forall₂_congr fun id hid => (hscored id hid).outstanding_eq_zero

theorem cancelAll_located {process : Process} (h : process.Located now ids)
    (cancelled : List JobId) : process.Located (cancelAll now cancelled) ids :=
  h.congr (fun id _ => cancelAll_unscored now cancelled id)
    fun _ _ hpending => (pending_of_cancelAll hpending).2

/-- What happens to one job from one call to the next. -/
theorem resume_cancelAll_job (limits : Limits) (hnodup : ids.Nodup) (cancelled : List JobId)
    (hlocated : (Process.predicting active batch).Located now ids) (reply : Reply σ) (id : JobId) :
    (cancelAll now cancelled id).Answered (fun _ _ => True) (reply.check batch.combined)
      ((resume limits (cancelAll now cancelled) active batch reply).1 id) :=
  resume_job limits hnodup (cancelAll_located hlocated cancelled)
    (reply.sound_true batch.combined) id

theorem cancelAll_done (cancelled : List JobId) {id : JobId}
    (hdone : (now id).future.done = true) :
    (cancelAll now cancelled id).future.done = true := by
  rw [cancelAll_future, if_neg (by simp [hdone])]
  exact hdone

theorem cancelAll_outstanding_le (now : Jobs σ) (cancelled : List JobId) (id : JobId) :
    (cancelAll now cancelled id).outstanding ≤ (now id).outstanding := by
  apply BatchJob.outstanding_mono (cancelAll_done cancelled)
  rw [cancelAll_unscored]

/-- A job that is served loses outstanding pairs, also when its caller cancels it meanwhile. -/
theorem resume_outstanding_lt (limits : Limits) (hnodup : ids.Nodup) (cancelled : List JobId)
    (hlocated : (Process.predicting active batch).Located now ids) {reply : Reply σ}
    {values : List σ} (hvalues : reply.check batch.combined = .ok values) {id : JobId} {count : Nat}
    (hslice : (id, count + 1) ∈ batch.slices) (hpos : 0 < (now id).outstanding) :
    ((resume limits (cancelAll now cancelled) active batch reply).1 id).outstanding
      < (now id).outstanding := by
  have hcancelled := cancelAll_located hlocated cancelled
  obtain ⟨part, hpart⟩ := resume_slice limits hnodup hcancelled (reply.sound_true batch.combined)
    hvalues hslice
  have hcancel := cancelAll_outstanding_le now cancelled id
  rcases Nat.eq_zero_or_pos (cancelAll now cancelled id).outstanding with hnone | hsome
  · have hanswer := (resume_job limits hnodup hcancelled
      (reply.sound_true batch.combined) id).outstanding_le
    omega
  · have hreceive := BatchJob.outstanding_receive_lt part (Nat.succ_pos count) hsome
    rw [hpart]
    exact hreceive.trans_le hcancel

/-- As long as a job of the first `k` is unfinished, the first unfinished job is one of them. -/
theorem first_mem_take {first : JobId} {rest : List JobId} {k : Nat}
    (hunfinished : unfinished now ids = first :: rest)
    (hopen : ¬∀ id ∈ ids.take k, (now id).future.done = true) :
    first ∈ unfinished now (ids.take k) := by
  rw [unfinished_take now ids k] at hunfinished
  cases hfront : unfinished now (ids.take k) with
  | nil =>
      refine absurd (fun id hid => ?_) hopen
      by_contra hpending
      have hmem : id ∈ unfinished now (ids.take k) :=
        mem_unfinished.mpr ⟨hid, Future.done_eq_false.mp (Bool.not_eq_true _ ▸ hpending)⟩
      rw [hfront] at hmem
      cases hmem
  | cons head others =>
      rw [hfront] at hunfinished
      obtain ⟨rfl, -⟩ := List.cons.inj hunfinished
      exact List.mem_cons_self

namespace Iteration

/-- The jobs assembled into the next batch are the unfinished ones of the whole group. -/
theorem invariant (hlimits : ∀ n, 1 ≤ (env n).limits.maxBatchPairs) (hnodup : ids.Nodup)
    (hfresh : ∀ id ∈ ids, (jobs id).Fresh) (h : Iteration env jobs ids n now active batch) :
    Invariant (fun _ _ => True) now ids (.predicting active batch) ∧ active = unfinished now ids := by
  induction h with
  | first hstart =>
      have hinvariant := startProcess_invariant (R := fun _ _ => True) (hlimits 0) hfresh
      rw [hstart] at hinvariant
      exact ⟨hinvariant, (nextBatch_predicting hstart).1⟩
  | @next n now now' active active' batch batch' h hresume ih =>
      obtain ⟨hinvariant, hactive⟩ := ih
      have hjob := resume_cancelAll_job (env (n + 1)).limits hnodup (env n).cancelled
        hinvariant.located ((env n).predict batch.combined)
      have hnext := resume_invariant (hlimits (n + 1)) hnodup
        (hinvariant.cancelAll (env n).cancelled)
        (((env n).predict batch.combined).sound_true batch.combined)
      rw [hresume] at hjob hnext
      refine ⟨hnext, ?_⟩
      rw [(nextBatch_predicting (resume_predicting hresume)).1, hactive]
      apply unfinished_unfinished
      intro id _ hdone
      have hcancelled := cancelAll_done (env n).cancelled hdone
      rw [(hjob id).future hcancelled]
      exact hcancelled

theorem servesFirst (hlimits : ∀ n, 1 ≤ (env n).limits.maxBatchPairs) (hnodup : ids.Nodup)
    (hfresh : ∀ id ∈ ids, (jobs id).Fresh) (h : Iteration env jobs ids n now active batch) :
    ServesFirst now ids batch := by
  obtain ⟨⟨hscored, hlocated⟩, hactive⟩ := h.invariant hlimits hnodup hfresh
  obtain ⟨-, hassembled, hnonempty⟩ := h.assembled
  have hcons : active ≠ [] := by
    intro hnil
    rw [hassembled, hnil] at hnonempty
    exact hnonempty rfl
  obtain ⟨first, rest, heq⟩ := List.exists_cons_of_ne_nil hcons
  have hfirst : first ∈ ids ∧ (now first).future = .pending := by
    rw [← mem_unfinished, ← hactive, heq]
    exact List.mem_cons_self
  have hunscored : (now first).unscored ≠ [] := by
    have hcursor := (hscored first hfirst.1).pending hfirst.2
    rw [ne_eq, ← List.length_eq_zero_iff, BatchJob.length_unscored]
    omega
  obtain ⟨pair, others, hpairs⟩ := List.exists_cons_of_ne_nil hunscored
  have hpair : (now first).unscored.head? = some pair := by rw [hpairs, List.head?_cons]
  obtain ⟨hcombined, count, hslice⟩ := assemble_first (hlimits n) hpair rest
  rw [← heq, ← hassembled] at hcombined hslice
  exact ⟨first, rest, pair, count, hactive ▸ heq, hpair, hcombined, hslice⟩

/-- **One call settles the first job or scores one of its pairs.** -/
theorem outstanding_lt (hlimits : ∀ n, 1 ≤ (env n).limits.maxBatchPairs) (hnodup : ids.Nodup)
    (hfresh : ∀ id ∈ ids, (jobs id).Fresh) (h : Iteration env jobs ids n now active batch)
    {now' : Jobs σ} {active' : List JobId} {batch' : Batch}
    (hresume : resume (env (n + 1)).limits (cancelAll now (env n).cancelled) active batch
      ((env n).predict batch.combined) = (now', .predicting active' batch')) (k : Nat) :
    outstanding now' (ids.take k) ≤ outstanding now (ids.take k) - 1 := by
  obtain ⟨hinvariant, -⟩ := h.invariant hlimits hnodup hfresh
  obtain ⟨first, rest, pair, count, hunfinished, -, -, hslice⟩ :=
    h.servesFirst hlimits hnodup hfresh
  have hprior : ∀ id ∈ ids.take k, (now id).Scored fun _ _ => True := fun id hid =>
    hinvariant.scored id (List.mem_of_mem_take hid)
  have hle : ∀ id, (now' id).outstanding ≤ (now id).outstanding := by
    intro id
    have hjob := resume_cancelAll_job (env (n + 1)).limits hnodup (env n).cancelled
      hinvariant.located ((env n).predict batch.combined) id
    rw [hresume] at hjob
    exact hjob.outstanding_le.trans (cancelAll_outstanding_le now (env n).cancelled id)
  by_cases hsettled : ∀ id ∈ ids.take k, (now id).future.done = true
  · calc outstanding now' (ids.take k)
        ≤ outstanding now (ids.take k) := List.sum_le_sum fun id _ => hle id
      _ = 0 := (outstanding_eq_zero hprior).mpr hsettled
      _ ≤ outstanding now (ids.take k) - 1 := Nat.zero_le _
  · obtain ⟨hmem, hpending⟩ := mem_unfinished.mp (first_mem_take hunfinished hsettled)
    have hpos : 0 < (now first).outstanding := by
      rw [BatchJob.outstanding_of_pending hpending, BatchJob.length_unscored]
      have hcursor := (hprior first hmem).pending hpending
      omega
    cases hcheck : ((env n).predict batch.combined).check batch.combined with
    | error error =>
        simp only [resume, hcheck] at hresume
        cases hresume
    | ok values =>
        have hlt := resume_outstanding_lt (env (n + 1)).limits hnodup (env n).cancelled
          hinvariant.located hcheck (List.mem_of_head? hslice) hpos
        rw [hresume] at hlt
        have hsum : outstanding now' (ids.take k) < outstanding now (ids.take k) :=
          List.sum_lt_sum _ _ (fun id _ => hle id) ⟨first, hmem, hlt⟩
        omega

/-- After `n` calls at least `n` of the pairs of the first `k` jobs are not outstanding any more. -/
theorem outstanding_le (hlimits : ∀ n, 1 ≤ (env n).limits.maxBatchPairs) (hnodup : ids.Nodup)
    (hfresh : ∀ id ∈ ids, (jobs id).Fresh) (h : Iteration env jobs ids n now active batch)
    (k : Nat) : outstanding now (ids.take k) ≤ totalPairs jobs (ids.take k) - n := by
  induction h with
  | first hstart => exact outstanding_le_totalPairs jobs (ids.take k)
  | @next n now now' active active' batch batch' h hresume ih =>
      have hstep := h.outstanding_lt hlimits hnodup hfresh hresume k
      omega

end Iteration

theorem length_le_fuel {fuel call : Nat} {process : Process} {final : Jobs σ}
    {batches : List Batch} (hrun : processFrom env fuel call now process = some (final, batches)) :
    batches.length ≤ fuel := by
  induction fuel generalizing call now process batches with
  | zero =>
      cases process with
      | predicting active batch => cases hrun
      | returned =>
          cases hrun
          exact le_rfl
  | succ fuel ih =>
      cases process with
      | returned =>
          cases hrun
          exact Nat.zero_le _
      | predicting active batch =>
          simp only [processFrom, Option.map_eq_some_iff, Prod.exists, Prod.mk.injEq] at hrun
          obtain ⟨_, rest, hrest, rfl, rfl⟩ := hrun
          exact Nat.succ_le_succ (ih hrest)

theorem Settled.done {R : Pair → σ → Prop} {call : Nat} {batches : List Batch} {id : JobId}
    {job : BatchJob σ} {future : Future σ} (h : Settled R env call batches id job future) :
    future.done = true := by
  cases h with
  | before hdone => exact hdone
  | scored => rfl
  | cancelled => rfl
  | failed => rfl

/-- **The batch loop ends and starves nobody.** Limits, cancellations and replies are arbitrary from
call to call. Before its call number `n` every job of `ids.take k` is settled if these jobs have at
most `n` pairs together. -/
theorem process_starves_nobody (env : Nat → CallEnvironment σ)
    (hlimits : ∀ n, 1 ≤ (env n).limits.maxBatchPairs) (hnodup : ids.Nodup)
    (hfresh : ∀ id ∈ ids, (jobs id).Fresh) :
    ∃ final batches, process env jobs ids = some (final, batches) ∧
      batches.length ≤ totalPairs jobs ids ∧
      (∀ id ∈ ids, (final id).future.done = true) ∧
      ∀ n batch, batches[n]? = some batch →
        ∃ now active, Iteration env jobs ids n now active batch ∧ ServesFirst now ids batch ∧
          ∀ k, totalPairs jobs (ids.take k) ≤ n →
            ∀ id ∈ ids.take k, (now id).future.done = true := by
  obtain ⟨final, batches, hrun, hsettled⟩ := processFrom_settles (R := fun _ _ => True) hlimits
    (fun n combined => ((env n).predict combined).sound_true combined) hnodup
    (totalPairs jobs ids) 0 (startProcess_invariant (hlimits 0) hfresh)
    (remaining_le_totalPairs jobs ids)
  refine ⟨final, batches, hrun, length_le_fuel hrun, fun id hid => (hsettled id hid).done, ?_⟩
  intro n batch hbatch
  obtain ⟨now, active, h⟩ := Iteration.of_process hrun n hbatch
  refine ⟨now, active, h, h.servesFirst hlimits hnodup hfresh, ?_⟩
  intro k hk id hid
  obtain ⟨hinvariant, -⟩ := h.invariant hlimits hnodup hfresh
  have hle := h.outstanding_le hlimits hnodup hfresh k
  have hzero : outstanding now (ids.take k) = 0 := by omega
  have hprior : ∀ id ∈ ids.take k, (now id).Scored fun _ _ => True := fun id hid =>
    hinvariant.scored id (List.mem_of_mem_take hid)
  exact (outstanding_eq_zero hprior).mp hzero id hid

theorem process_starves_nobody_split :
    ∃ final batches, process splitEnvironment splitJobs [0, 1] = some (final, batches) ∧
      batches.length ≤ totalPairs splitJobs [0, 1] ∧
      (∀ id ∈ [0, 1], (final id).future.done = true) ∧
      ∀ n batch, batches[n]? = some batch →
        ∃ now active, Iteration splitEnvironment splitJobs [0, 1] n now active batch ∧
          ServesFirst now [0, 1] batch ∧
          ∀ k, totalPairs splitJobs (List.take k [0, 1]) ≤ n →
            ∀ id ∈ List.take k [0, 1], (now id).future.done = true :=
  process_starves_nobody splitEnvironment (fun _ => Nat.le_succ 1) (by decide)
    fun id _ => ⟨by simp [splitJobs], .inl rfl⟩

end DynamicBatcher

end RerankerService
