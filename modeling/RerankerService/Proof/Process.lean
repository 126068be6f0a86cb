import Mathlib.Algebra.Order.BigOperators.Group.List
import Mathlib.Data.List.Forall2
import RerankerService.Batching.Process

/-!
# Batching keeps the scores of a job together

`R pair score` says what the predictor promises about one score. The invariant of a job ties its
cursor to the scores it has collected; the invariant of `_process` ties the slices of the batch in
flight to those cursors, so that handing out a reply is one induction over the slices.
-/

namespace RerankerService

open List (Forall₂)

variable {σ : Type} {R : Pair → σ → Prop}

namespace BatchJob

variable {job : BatchJob σ}

/-- The collected scores are those of the first `cursor` pairs, in order; a pending job still has
pairs to score, and a result is complete. -/
structure Scored (R : Pair → σ → Prop) (job : BatchJob σ) : Prop where
  scores : Forall₂ R (job.pairs.take job.cursor) job.scores
  cursor_le : job.cursor ≤ job.pairs.length
  pending : job.future = .pending → job.cursor < job.pairs.length
  result : ∀ values, job.future = .result values → Forall₂ R job.pairs values

/-- A job as `predict` puts it in the queue, possibly cancelled by its caller since. -/
def Fresh (job : BatchJob σ) : Prop :=
  job.pairs ≠ [] ∧
    (job = { pairs := job.pairs } ∨ job = { pairs := job.pairs, future := .cancelled })

theorem Fresh.cancel (hfresh : job.Fresh) : job.cancel.Fresh := by
  obtain ⟨hnonempty, hjob⟩ := hfresh
  rcases hjob with hjob | hjob <;> rw [hjob]
  · exact ⟨hnonempty, .inr rfl⟩
  · exact ⟨hnonempty, .inr rfl⟩

theorem Fresh.scored (hfresh : job.Fresh) : job.Scored R := by
  obtain ⟨hnonempty, hjob⟩ := hfresh
  have hlength := List.length_pos_of_ne_nil hnonempty
  rcases hjob with hjob | hjob <;> rw [hjob]
  · exact ⟨.nil, Nat.zero_le _, fun _ => hlength, fun _ h => by cases h⟩
  · exact ⟨.nil, Nat.zero_le _, fun _ => hlength, fun _ h => by cases h⟩

@[simp]
theorem cancel_pairs (job : BatchJob σ) : job.cancel.pairs = job.pairs := by
  unfold cancel
  split <;> rfl

@[simp]
theorem cancel_cursor (job : BatchJob σ) : job.cancel.cursor = job.cursor := by
  unfold cancel
  split <;> rfl

@[simp]
theorem cancel_unscored (job : BatchJob σ) : job.cancel.unscored = job.unscored := by
  simp [unscored]

theorem cancel_future (job : BatchJob σ) :
    job.cancel.future = if job.future.done then job.future else .cancelled := by
  unfold cancel
  split <;> rfl

@[simp]
theorem fail_pairs (job : BatchJob σ) (error : Error) : (job.fail error).pairs = job.pairs := by
  unfold fail
  split <;> rfl

theorem fail_future (job : BatchJob σ) (error : Error) :
    (job.fail error).future = if job.future.done then job.future else .exception error := by
  unfold fail
  split <;> rfl

theorem length_unscored (job : BatchJob σ) :
    job.unscored.length = job.pairs.length - job.cursor := by
  simp [unscored]

theorem length_unscored_receive (job : BatchJob σ) (slice : List σ) (count : Nat) :
    (job.receive slice count).unscored.length = job.unscored.length - count := by
  simp only [length_unscored, receive]
  omega

/-- An update of a pending future by anything but a score list keeps the invariant. -/
theorem Scored.settle (h : job.Scored R) {future : Future σ} (hdone : future ≠ .pending)
    (hresult : ∀ values, future ≠ .result values) : { job with future }.Scored R where
  scores := h.scores
  cursor_le := h.cursor_le
  pending hpending := absurd hpending hdone
  result values hvalues := absurd hvalues (hresult values)

theorem Scored.cancel (h : job.Scored R) : job.cancel.Scored R := by
  unfold BatchJob.cancel
  split
  · exact h
  · exact h.settle (by simp) (by simp)

theorem Scored.fail (h : job.Scored R) (error : Error) : (job.fail error).Scored R := by
  unfold BatchJob.fail
  split
  · exact h
  · exact h.settle (by simp) (by simp)

theorem Scored.receive (h : job.Scored R) {slice : List σ} {count : Nat}
    (hcount : count ≤ job.unscored.length) (hslice : Forall₂ R (job.unscored.take count) slice) :
    (job.receive slice count).Scored R := by
  have hscores : Forall₂ R (job.pairs.take (job.cursor + count)) (job.scores ++ slice) := by
    rw [List.take_add]
    exact List.rel_append h.scores hslice
  have hle : job.cursor + count ≤ job.pairs.length := by
    have := h.cursor_le
    rw [length_unscored] at hcount
    omega
  refine ⟨hscores, hle, ?_, ?_⟩
  · intro hpending
    simp only [BatchJob.receive] at hpending ⊢
    split at hpending
    · cases hpending
    · rename_i hopen
      exact lt_of_le_of_ne hle fun heq => hopen ⟨heq, by rw [hpending]; rfl⟩
  · intro values hvalues
    simp only [BatchJob.receive] at hvalues ⊢
    split at hvalues
    · rename_i hcomplete
      cases hvalues
      rwa [hcomplete.1, List.take_length] at hscores
    · exact h.result values hvalues

end BatchJob

/-- What the predictor promises about a reply: a list of the right length holds the scores of the
pairs in order. -/
def Reply.Sound (R : Pair → σ → Prop) (combined : List Pair) (reply : Reply σ) : Prop :=
  ∀ values, reply.check combined = .ok values → Forall₂ R combined values

/-- What a reply may do to a job: leave it alone, give it the scores of its next pairs, or settle it
with the exception. -/
inductive BatchJob.Answered (R : Pair → σ → Prop) (job : BatchJob σ) :
    Except Error (List σ) → BatchJob σ → Prop where
  | unchanged {outcome : Except Error (List σ)} : Answered R job outcome job
  | received {values part : List σ} {count : Nat} (hcount : count ≤ job.unscored.length)
      (hpart : Forall₂ R (job.unscored.take count) part) :
      Answered R job (.ok values) (job.receive part count)
  | failed {error : Error} : Answered R job (.error error) (job.fail error)

@[simp]
theorem Future.done_eq_false {future : Future σ} : future.done = false ↔ future = .pending := by
  cases future <;> simp [done]

theorem Future.done_iff {future : Future σ} : future.done = true ↔ future ≠ .pending := by
  cases future <;> simp [done]

namespace BatchJob.Answered

variable {job job' : BatchJob σ} {outcome : Except Error (List σ)}

theorem scored (h : job.Answered R outcome job') (hjob : job.Scored R) : job'.Scored R := by
  cases h with
  | unchanged => exact hjob
  | received hcount hpart => exact hjob.receive hcount hpart
  | failed => exact hjob.fail _

theorem pairs (h : job.Answered R outcome job') : job'.pairs = job.pairs := by
  cases h with
  | unchanged => rfl
  | received => rfl
  | failed => exact fail_pairs job _

theorem length_unscored_le (h : job.Answered R outcome job') :
    job'.unscored.length ≤ job.unscored.length := by
  cases h with
  | unchanged => exact le_rfl
  | received =>
      rw [length_unscored_receive]
      omega
  | failed =>
      unfold fail
      split <;> exact le_rfl

theorem future (h : job.Answered R outcome job') (hdone : job.future.done) :
    job'.future = job.future := by
  cases h with
  | unchanged => rfl
  | received => simp [receive, hdone]
  | failed => rw [fail_future, if_pos hdone]

theorem pending (h : job.Answered R outcome job') (hpending : job'.future = .pending) :
    job.future = .pending := by
  by_contra hdone
  rw [← Future.done_eq_false, Bool.not_eq_false] at hdone
  rw [h.future hdone] at hpending
  simp [hpending, Future.done] at hdone

theorem settles (h : job.Answered R outcome job') (hpending : job.future = .pending)
    (hdone : job'.future.done) :
    (∃ values, job'.future = .result values) ∨
      ∃ error, outcome = .error error ∧ job'.future = .exception error := by
  cases h with
  | unchanged => simp [hpending, Future.done] at hdone
  | received =>
      simp only [receive] at hdone ⊢
      split at hdone
      · exact .inl ⟨_, by rw [if_pos ‹_›]⟩
      · simp [hpending, Future.done] at hdone
  | failed => exact .inr ⟨_, rfl, by rw [fail_future, hpending]; rfl⟩

end BatchJob.Answered

namespace DynamicBatcher

variable {jobs : Jobs σ} {ids active : List JobId} {limits : Limits} {batch : Batch}

/-! ### Assembling a batch -/

theorem takePairs_spec (limits : Limits) (rest : List Pair) :
    ∀ (combined : List Pair) (tokens count : Nat), ∃ taken ≤ rest.length,
      (takePairs limits combined tokens count rest).1 = combined ++ rest.take taken ∧
        (takePairs limits combined tokens count rest).2.2 = count + taken := by
  induction rest with
  | nil => exact fun combined tokens count => ⟨0, le_rfl, by simp [takePairs], rfl⟩
  | cons pair rest ih =>
      intro combined tokens count
      unfold takePairs
      split
      · exact ⟨0, Nat.zero_le _, by simp, rfl⟩
      split
      · exact ⟨0, Nat.zero_le _, by simp, rfl⟩
      split
      · exact ⟨1, by simp, by simp, rfl⟩
      · obtain ⟨taken, hle, hcombined, hcount⟩ :=
          ih (combined ++ [pair]) (tokens + pairTokens pair) (count + 1)
        refine ⟨taken + 1, by simpa using hle, ?_, ?_⟩
        · rw [hcombined, List.take_succ_cons, List.append_assoc, List.singleton_append]
        · rw [hcount]
          omega

/-- The first job of a batch always gets a pair into it, whatever the token limit is. -/
theorem takePairs_progress (hlimit : 1 ≤ limits.maxBatchPairs) {rest : List Pair}
    (hrest : rest ≠ []) (tokens count : Nat) : (takePairs limits [] tokens count rest).1 ≠ [] := by
  obtain ⟨pair, rest, rfl⟩ := List.exists_cons_of_ne_nil hrest
  unfold takePairs
  have hroom : ¬limits.maxBatchPairs ≤ ([] : List Pair).length := by simp; omega
  rw [if_neg hroom, if_neg (by simp)]
  split
  · simp
  · obtain ⟨taken, -, hcombined, -⟩ :=
      takePairs_spec limits rest ([] ++ [pair]) (tokens + pairTokens pair) (count + 1)
    rw [hcombined]
    simp

def covered (jobs : Jobs σ) (slices : List (JobId × Nat)) : List Pair :=
  slices.flatMap fun slice => (jobs slice.1).unscored.take slice.2

theorem covered_congr {jobs' : Jobs σ} {slices : List (JobId × Nat)}
    (h : ∀ slice ∈ slices, (jobs' slice.1).unscored = (jobs slice.1).unscored) :
    covered jobs' slices = covered jobs slices :=
  List.flatMap_congr fun slice hslice => by rw [h slice hslice]

theorem assemble_spec (limits : Limits) (jobs : Jobs σ) (ids : List JobId) :
    ∀ batch : Batch, ∃ more : List (JobId × Nat),
      (assemble limits jobs batch ids).combined = batch.combined ++ covered jobs more ∧
      (assemble limits jobs batch ids).slices = batch.slices ++ more ∧
      (more.map Prod.fst).Sublist ids ∧
      ∀ slice ∈ more, slice.2 ≤ (jobs slice.1).unscored.length := by
  induction ids with
  | nil => exact fun batch => ⟨[], by simp [assemble, covered]⟩
  | cons id rest ih =>
      intro batch
      unfold assemble
      split
      · exact ⟨[], by simp [covered]⟩
      obtain ⟨taken, hle, hcombined, hcount⟩ :=
        takePairs_spec limits (jobs id).unscored batch.combined batch.tokens 0
      rw [zero_add] at hcount
      simp only [hcombined, hcount]
      obtain ⟨more, hmore, hslices, hsublist, hcounts⟩ := ih
        { combined := batch.combined ++ (jobs id).unscored.take taken
          slices := if taken = 0 then batch.slices else batch.slices ++ [(id, taken)]
          tokens := (takePairs limits batch.combined batch.tokens 0 (jobs id).unscored).2.1 }
      by_cases hnone : taken = 0
      · subst hnone
        exact ⟨more, by simpa using hmore, by simpa using hslices, hsublist.cons id, hcounts⟩
      · refine ⟨(id, taken) :: more, ?_, ?_, hsublist.cons_cons id, ?_⟩
        · rw [hmore]
          simp [covered]
        · rw [hslices, if_neg hnone]
          simp
        · exact List.forall_mem_cons.mpr ⟨hle, hcounts⟩

theorem assemble_progress (hlimit : 1 ≤ limits.maxBatchPairs) {id : JobId} {rest : List JobId}
    (hid : (jobs id).unscored ≠ []) : (assemble limits jobs {} (id :: rest)).combined ≠ [] := by
  have hroom : ¬limits.maxBatchPairs ≤ ([] : List Pair).length := by simp; omega
  unfold assemble
  rw [if_neg hroom]
  obtain ⟨more, hmore, -⟩ := assemble_spec limits jobs rest _
  rw [hmore]
  exact fun h => takePairs_progress hlimit hid 0 0 (List.append_eq_nil_iff.mp h).1

/-- The batch is made of one initial segment of the unscored pairs of each of some active jobs. -/
structure WellSliced (jobs : Jobs σ) (active : List JobId) (batch : Batch) : Prop where
  combined : batch.combined = covered jobs batch.slices
  sublist : (batch.slices.map Prod.fst).Sublist active
  count_le : ∀ slice ∈ batch.slices, slice.2 ≤ (jobs slice.1).unscored.length

theorem assemble_wellSliced (limits : Limits) (jobs : Jobs σ) (active : List JobId) :
    WellSliced jobs active (assemble limits jobs {} active) := by
  obtain ⟨more, hcombined, hslices, hsublist, hcounts⟩ := assemble_spec limits jobs active {}
  simp only [List.nil_append] at hcombined hslices
  exact ⟨by rw [hcombined, hslices], by rwa [hslices], by rwa [hslices]⟩

/-- Only the unscored pairs matter, so cancellations while the batch is in flight do not. -/
theorem WellSliced.congr {jobs' : Jobs σ} (h : WellSliced jobs active batch)
    (hjobs : ∀ id ∈ active, (jobs' id).unscored = (jobs id).unscored) :
    WellSliced jobs' active batch := by
  have hslices : ∀ slice ∈ batch.slices, (jobs' slice.1).unscored = (jobs slice.1).unscored :=
    fun slice hslice => hjobs _ (h.sublist.subset (List.mem_map_of_mem hslice))
  refine ⟨?_, h.sublist, ?_⟩
  · rw [h.combined, covered_congr hslices]
  · intro slice hslice
    rw [hslices slice hslice]
    exact h.count_le slice hslice

/-! ### Handing out a reply -/

theorem deliver_of_notMem {slices : List (JobId × Nat)} {id : JobId}
    (hid : id ∉ slices.map Prod.fst) (jobs : Jobs σ) (scores : List σ) :
    deliver jobs scores slices id = jobs id := by
  induction slices generalizing jobs scores with
  | nil => rfl
  | cons slice rest ih =>
      simp only [List.map_cons, List.mem_cons, not_or] at hid
      rw [deliver, ih hid.2, Function.update_of_ne hid.1]

/-- Every slice goes to its own job, and is related to the pairs it was cut from. -/
theorem deliver_spec {slices : List (JobId × Nat)} (hnodup : (slices.map Prod.fst).Nodup)
    {jobs : Jobs σ} (hcounts : ∀ slice ∈ slices, slice.2 ≤ (jobs slice.1).unscored.length)
    {scores : List σ} (hscores : Forall₂ R (covered jobs slices) scores) :
    ∀ slice ∈ slices, ∃ part, Forall₂ R ((jobs slice.1).unscored.take slice.2) part ∧
      deliver jobs scores slices slice.1 = (jobs slice.1).receive part slice.2 := by
  induction slices generalizing jobs scores with
  | nil => simp
  | cons head rest ih =>
      obtain ⟨id, count⟩ := head
      rw [List.map_cons, List.nodup_cons] at hnodup
      have hne : ∀ slice ∈ rest, slice.1 ≠ id := fun slice hslice heq =>
        hnodup.1 (List.mem_map.mpr ⟨slice, hslice, heq⟩)
      have hlength : ((jobs id).unscored.take count).length = count :=
        List.length_take_of_le (hcounts _ List.mem_cons_self)
      have hhead := List.forall₂_take count hscores
      have htail := List.forall₂_drop count hscores
      simp only [covered, List.flatMap_cons] at hhead htail
      rw [List.take_left' hlength] at hhead
      rw [List.drop_left' hlength] at htail
      let jobs' := Function.update jobs id ((jobs id).receive (scores.take count) count)
      have hsame : ∀ slice ∈ rest, jobs' slice.1 = jobs slice.1 := fun slice hslice =>
        Function.update_of_ne (hne slice hslice) _ _
      refine List.forall_mem_cons.mpr ⟨⟨scores.take count, hhead, ?_⟩, ?_⟩
      · rw [deliver, deliver_of_notMem hnodup.1, Function.update_self]
      · have hcounts' : ∀ slice ∈ rest, slice.2 ≤ (jobs' slice.1).unscored.length := by
          intro slice hslice
          rw [hsame slice hslice]
          exact hcounts slice (List.mem_cons_of_mem _ hslice)
        have hscores' : Forall₂ R (covered jobs' rest) (scores.drop count) := by
          rw [covered_congr fun slice hslice => by rw [hsame slice hslice]]
          exact htail
        intro slice hslice
        obtain ⟨part, hpart, hdeliver⟩ := ih hnodup.2 hcounts' hscores' slice hslice
        rw [hsame slice hslice] at hpart hdeliver
        exact ⟨part, hpart, hdeliver⟩

/-! ### The invariant of the loop -/

/-- Every pending job of the group is active while the predictor is awaited, and none is left at the
end. -/
def Process.Located (jobs : Jobs σ) (ids : List JobId) : Process → Prop
  | .predicting active batch =>
      active.Sublist ids ∧ (∀ id ∈ ids, (jobs id).future = .pending → id ∈ active) ∧
        WellSliced jobs active batch ∧ batch.combined ≠ []
  | .returned => ∀ id ∈ ids, (jobs id).future ≠ .pending

structure Invariant (R : Pair → σ → Prop) (jobs : Jobs σ) (ids : List JobId) (process : Process) :
    Prop where
  scored : ∀ id ∈ ids, (jobs id).Scored R
  located : process.Located jobs ids

theorem mem_unfinished {id : JobId} :
    id ∈ unfinished jobs ids ↔ id ∈ ids ∧ (jobs id).future = .pending := by
  simp [unfinished]

theorem nextBatch_located (hlimit : 1 ≤ limits.maxBatchPairs)
    (hscored : ∀ id ∈ ids, (jobs id).Scored R) (hsublist : active.Sublist ids)
    (hactive : ∀ id ∈ ids, (jobs id).future = .pending → id ∈ active) :
    (nextBatch limits jobs (unfinished jobs active)).Located jobs ids := by
  have hpending : ∀ id ∈ ids, (jobs id).future = .pending → id ∈ unfinished jobs active :=
    fun id hid h => mem_unfinished.mpr ⟨hactive id hid h, h⟩
  unfold nextBatch
  split
  · rename_i hnil
    intro id hid h
    simpa [hnil] using hpending id hid h
  · rename_i hcons
    obtain ⟨first, rest, heq⟩ := List.exists_cons_of_ne_nil hcons
    have hfirst : first ∈ active ∧ (jobs first).future = .pending :=
      mem_unfinished.mp (heq ▸ List.mem_cons_self)
    have hunscored : (jobs first).unscored ≠ [] := by
      have := (hscored first (hsublist.subset hfirst.1)).pending hfirst.2
      rw [ne_eq, ← List.length_eq_zero_iff, BatchJob.length_unscored]
      omega
    have hcombined : (assemble limits jobs {} (unfinished jobs active)).combined ≠ [] := by
      rw [heq]
      exact assemble_progress hlimit hunscored
    simp only [hcombined, ↓reduceIte]
    exact ⟨List.filter_sublist.trans hsublist, hpending, assemble_wellSliced limits jobs _,
      hcombined⟩

theorem startProcess_invariant (hlimit : 1 ≤ limits.maxBatchPairs)
    (hfresh : ∀ id ∈ ids, (jobs id).Fresh) :
    Invariant R jobs ids (startProcess limits jobs ids) where
  scored id hid := (hfresh id hid).scored
  located := nextBatch_located (R := R) hlimit (fun id hid => (hfresh id hid).scored)
    (List.Sublist.refl ids) fun _ hid _ => hid

/-- A step that leaves the pairs and cursors of the group alone and makes no job pending keeps the
place of the loop. -/
theorem Process.Located.congr {jobs' : Jobs σ} {process : Process}
    (h : process.Located jobs ids)
    (hunscored : ∀ id ∈ ids, (jobs' id).unscored = (jobs id).unscored)
    (hpending : ∀ id ∈ ids, (jobs' id).future = .pending → (jobs id).future = .pending) :
    process.Located jobs' ids := by
  cases process with
  | predicting active batch =>
      obtain ⟨hsublist, hactive, hsliced, hcombined⟩ := h
      exact ⟨hsublist, fun id hid hid' => hactive id hid (hpending id hid hid'),
        hsliced.congr fun id hid => hunscored id (hsublist.subset hid), hcombined⟩
  | returned => exact fun id hid hid' => h id hid (hpending id hid hid')

theorem cancelAll_unscored (jobs : Jobs σ) (ids : List JobId) (id : JobId) :
    (cancelAll jobs ids id).unscored = (jobs id).unscored := by
  unfold cancelAll
  split <;> simp

theorem cancelAll_pairs (jobs : Jobs σ) (ids : List JobId) (id : JobId) :
    (cancelAll jobs ids id).pairs = (jobs id).pairs := by
  unfold cancelAll
  split <;> simp

theorem cancelAll_future (jobs : Jobs σ) (ids : List JobId) (id : JobId) :
    (cancelAll jobs ids id).future =
      if id ∈ ids ∧ (jobs id).future.done = false then .cancelled else (jobs id).future := by
  unfold cancelAll
  by_cases hid : id ∈ ids
  · rw [if_pos hid, BatchJob.cancel_future]
    cases (jobs id).future <;> simp [Future.done, hid]
  · simp [hid]

theorem cancelAll_fresh {jobs : Jobs σ} {id : JobId} (h : (jobs id).Fresh) (ids : List JobId) :
    (cancelAll jobs ids id).Fresh := by
  unfold cancelAll
  split
  · exact h.cancel
  · exact h

theorem cancelAll_scored {jobs : Jobs σ} {id : JobId} (h : (jobs id).Scored R)
    (ids : List JobId) : (cancelAll jobs ids id).Scored R := by
  unfold cancelAll
  split
  · exact h.cancel
  · exact h

theorem pending_of_cancelAll {jobs : Jobs σ} {ids : List JobId} {id : JobId}
    (h : (cancelAll jobs ids id).future = .pending) : id ∉ ids ∧ (jobs id).future = .pending := by
  rw [cancelAll_future] at h
  split at h
  · cases h
  · rename_i hnot
    refine ⟨fun hid => hnot ⟨hid, ?_⟩, h⟩
    rw [h]
    rfl

theorem Invariant.cancelAll {process : Process} (h : Invariant R jobs ids process)
    (cancelled : List JobId) : Invariant R (cancelAll jobs cancelled) ids process where
  scored id hid := cancelAll_scored (h.scored id hid) cancelled
  located := h.located.congr (fun id _ => cancelAll_unscored jobs cancelled id)
    fun _ _ hpending => (pending_of_cancelAll hpending).2

theorem resume_of_notMem (limits : Limits) (hsliced : WellSliced jobs active batch) (reply : Reply σ)
    {id : JobId} (hid : id ∉ active) : (resume limits jobs active batch reply).1 id = jobs id := by
  unfold resume
  cases reply.check batch.combined with
  | error error => exact if_neg hid
  | ok values => exact deliver_of_notMem (fun h => hid (hsliced.sublist.subset h)) jobs values

theorem resume_job (limits : Limits) (hnodup : ids.Nodup)
    (hlocated : (Process.predicting active batch).Located jobs ids) {reply : Reply σ}
    (hreply : reply.Sound R batch.combined) (id : JobId) :
    (jobs id).Answered R (reply.check batch.combined)
      ((resume limits jobs active batch reply).1 id) := by
  obtain ⟨hsublist, -, hsliced, -⟩ := hlocated
  unfold resume
  cases hcheck : reply.check batch.combined with
  | error error =>
      simp only [failAll]
      split
      · exact .failed
      · exact .unchanged
  | ok values =>
      by_cases hid : id ∈ batch.slices.map Prod.fst
      · obtain ⟨⟨id, count⟩, hslice, rfl⟩ := List.mem_map.mp hid
        have hscores : Forall₂ R (covered jobs batch.slices) values := by
          rw [← hsliced.combined]
          exact hreply values hcheck
        obtain ⟨part, hpart, hdeliver⟩ := deliver_spec
          ((hsliced.sublist.trans hsublist).nodup hnodup) hsliced.count_le hscores _ hslice
        simp only [hdeliver]
        exact .received (hsliced.count_le _ hslice) hpart
      · simp only [deliver_of_notMem hid]
        exact .unchanged

theorem resume_located (hlimit : 1 ≤ limits.maxBatchPairs) (hnodup : ids.Nodup)
    (h : Invariant R jobs ids (.predicting active batch)) {reply : Reply σ}
    (hreply : reply.Sound R batch.combined) :
    (resume limits jobs active batch reply).2.Located (resume limits jobs active batch reply).1
      ids := by
  have hjob := resume_job limits hnodup h.located hreply
  have hpending := fun id => (hjob id).pending
  have hscored := fun id hid => (hjob id).scored (h.scored id hid)
  obtain ⟨hsublist, hactive, -, -⟩ := h.located
  unfold resume at hpending hscored ⊢
  cases hcheck : reply.check batch.combined with
  | error error =>
      simp only [hcheck] at hpending ⊢
      intro id hid hstill
      have hmem := hactive id hid (hpending id hstill)
      simp only [failAll, hmem, ↓reduceIte, BatchJob.fail_future] at hstill
      split at hstill
      · rename_i hdone
        simp [hstill, Future.done] at hdone
      · cases hstill
  | ok values =>
      simp only [hcheck] at hpending hscored ⊢
      exact nextBatch_located hlimit hscored hsublist fun id hid hstill =>
        hactive id hid (hpending id hstill)

/-- **One turn of the loop keeps the invariant.** -/
theorem resume_invariant (hlimit : 1 ≤ limits.maxBatchPairs) (hnodup : ids.Nodup)
    (h : Invariant R jobs ids (.predicting active batch)) {reply : Reply σ}
    (hreply : reply.Sound R batch.combined) :
    Invariant R (resume limits jobs active batch reply).1 ids
      (resume limits jobs active batch reply).2 where
  scored id hid := (resume_job limits hnodup h.located hreply id).scored (h.scored id hid)
  located := resume_located hlimit hnodup h hreply

/-! ### Termination: every reply that is accepted scores at least one pair -/

def remaining (jobs : Jobs σ) (ids : List JobId) : Nat :=
  (ids.map fun id => (jobs id).unscored.length).sum

theorem remaining_cancelAll (jobs : Jobs σ) (ids cancelled : List JobId) :
    remaining (cancelAll jobs cancelled) ids = remaining jobs ids := by
  simp [remaining, cancelAll_unscored]

/-- The batch in flight holds a pair of some job. -/
theorem exists_scoring_slice (hsliced : WellSliced jobs active batch) (hcombined : batch.combined ≠ []) :
    ∃ slice ∈ batch.slices, 0 < slice.2 ∧ 0 < (jobs slice.1).unscored.length := by
  by_contra! hnone
  refine hcombined (hsliced.combined.trans (List.flatMap_eq_nil_iff.mpr fun slice hslice => ?_))
  rw [List.take_eq_nil_iff, ← List.length_eq_zero_iff]
  have := hnone slice hslice
  omega

theorem remaining_pos (hlocated : (Process.predicting active batch).Located jobs ids) :
    0 < remaining jobs ids := by
  obtain ⟨hsublist, -, hsliced, hcombined⟩ := hlocated
  obtain ⟨slice, hslice, -, hpos⟩ := exists_scoring_slice hsliced hcombined
  have hmem : slice.1 ∈ ids :=
    hsublist.subset (hsliced.sublist.subset (List.mem_map_of_mem hslice))
  exact hpos.trans_le (List.le_sum_of_mem (List.mem_map_of_mem hmem))

/-- An accepted reply hands every slice to its job. -/
theorem resume_slice (limits : Limits) (hnodup : ids.Nodup)
    (hlocated : (Process.predicting active batch).Located jobs ids) {reply : Reply σ}
    (hreply : reply.Sound R batch.combined) {values : List σ}
    (hvalues : reply.check batch.combined = .ok values) {slice : JobId × Nat}
    (hslice : slice ∈ batch.slices) :
    ∃ part, (resume limits jobs active batch reply).1 slice.1 =
      (jobs slice.1).receive part slice.2 := by
  obtain ⟨hsublist, -, hsliced, -⟩ := hlocated
  have hcovered : Forall₂ R (covered jobs batch.slices) values := by
    rw [← hsliced.combined]
    exact hreply values hvalues
  obtain ⟨part, -, hdeliver⟩ := deliver_spec
    ((hsliced.sublist.trans hsublist).nodup hnodup) hsliced.count_le hcovered slice hslice
  refine ⟨part, ?_⟩
  simp only [resume, hvalues]
  exact hdeliver

theorem remaining_resume_lt (limits : Limits) (hnodup : ids.Nodup)
    (hlocated : (Process.predicting active batch).Located jobs ids) {reply : Reply σ}
    (hreply : reply.Sound R batch.combined) {values : List σ}
    (hvalues : reply.check batch.combined = .ok values) :
    remaining (resume limits jobs active batch reply).1 ids < remaining jobs ids := by
  have hjob := resume_job limits hnodup hlocated hreply
  have hreceived : ∀ slice ∈ batch.slices, ∃ part,
      (resume limits jobs active batch reply).1 slice.1 = (jobs slice.1).receive part slice.2 :=
    fun _ hslice => resume_slice limits hnodup hlocated hreply hvalues hslice
  obtain ⟨hsublist, -, hsliced, hcombined⟩ := hlocated
  obtain ⟨slice, hslice, hcount, hpos⟩ := exists_scoring_slice hsliced hcombined
  obtain ⟨part, hresume⟩ := hreceived slice hslice
  refine List.sum_lt_sum _ _ (fun id _ => (hjob id).length_unscored_le) ⟨slice.1, ?_, ?_⟩
  · exact hsublist.subset (hsliced.sublist.subset (List.mem_map_of_mem hslice))
  · rw [hresume, BatchJob.length_unscored_receive]
    omega

theorem remaining_le_totalPairs (jobs : Jobs σ) (ids : List JobId) :
    remaining jobs ids ≤ totalPairs jobs ids := by
  refine List.sum_le_sum fun id _ => ?_
  rw [BatchJob.length_unscored]
  omega

/-! ### A whole execution -/

/-- How the execution whose first predictor call has the number `call`, and which passed `batches`
to the predictor, may leave the future of a job. -/
inductive Settled (R : Pair → σ → Prop) (env : Nat → CallEnvironment σ) (call : Nat)
    (batches : List Batch) (id : JobId) (job : BatchJob σ) : Future σ → Prop where
  | before (hdone : job.future.done) : Settled R env call batches id job job.future
  | scored {values : List σ} (hvalues : Forall₂ R job.pairs values) :
      Settled R env call batches id job (.result values)
  | cancelled {n : Nat} (hn : n < batches.length) (hid : id ∈ (env (call + n)).cancelled) :
      Settled R env call batches id job .cancelled
  | failed {n : Nat} {batch : Batch} {error : Error} (hlast : n + 1 = batches.length)
      (hbatch : batches[n]? = some batch)
      (hreply : ((env (call + n)).predict batch.combined).check batch.combined = .error error) :
      Settled R env call batches id job (.exception error)

/-- One more call in front of an execution; after a failing call there is none. -/
theorem Settled.cons {env : Nat → CallEnvironment σ} {call : Nat} {batches : List Batch}
    {id : JobId} {job' : BatchJob σ} {future : Future σ}
    (hanswer : (cancelAll jobs (env call).cancelled id).Answered R
      (((env call).predict batch.combined).check batch.combined) job')
    (hscored : job'.Scored R)
    (herror : ∀ error, ((env call).predict batch.combined).check batch.combined = .error error →
      batches = [])
    (h : Settled R env (call + 1) batches id job' future) :
    Settled R env call (batch :: batches) id (jobs id) future := by
  have hpairs : job'.pairs = (jobs id).pairs :=
    hanswer.pairs.trans (cancelAll_pairs jobs (env call).cancelled id)
  have hshift : ∀ n, call + (n + 1) = call + 1 + n := fun n => by omega
  have hfuture := cancelAll_future jobs (env call).cancelled id
  cases h with
  | scored hvalues => exact .scored (hpairs ▸ hvalues)
  | cancelled hn hid => exact .cancelled (Nat.succ_lt_succ hn) ((hshift _).symm ▸ hid)
  | failed hlast hbatch hreply =>
      exact .failed (congrArg Nat.succ hlast) hbatch ((hshift _).symm ▸ hreply)
  | before hdone =>
      cases hold : (jobs id).future.done with
      | true =>
          rw [if_neg (by simp [hold])] at hfuture
          have heq := hanswer.future (hfuture ▸ hold)
          rw [heq, hfuture]
          exact .before hold
      | false =>
          by_cases hid : id ∈ (env call).cancelled
          · rw [if_pos ⟨hid, hold⟩] at hfuture
            rw [hanswer.future (by rw [hfuture]; rfl), hfuture]
            exact .cancelled (n := 0) (Nat.succ_pos _) hid
          · rw [if_neg (by simp [hid]), Future.done_eq_false.mp hold] at hfuture
            rcases hanswer.settles hfuture hdone with ⟨values, hvalues⟩ | ⟨error, hcheck, hvalue⟩
            · rw [hvalues]
              exact .scored (hpairs ▸ hscored.result values hvalues)
            · rw [hvalue, herror error hcheck]
              exact .failed (n := 0) rfl rfl hcheck

theorem processFrom_returned (env : Nat → CallEnvironment σ) (fuel call : Nat) (jobs : Jobs σ) :
    processFrom env fuel call jobs .returned = some (jobs, []) := by
  cases fuel <;> rfl

/-- By induction on the number of pairs that are still to be scored. -/
theorem processFrom_settles {env : Nat → CallEnvironment σ}
    (hlimits : ∀ n, 1 ≤ (env n).limits.maxBatchPairs)
    (hpredict : ∀ n combined, ((env n).predict combined).Sound R combined) (hnodup : ids.Nodup)
    (fuel call : Nat) {process : Process} (h : Invariant R jobs ids process)
    (hfuel : remaining jobs ids ≤ fuel) :
    ∃ jobs' batches, processFrom env fuel call jobs process = some (jobs', batches) ∧
      ∀ id ∈ ids, Settled R env call batches id (jobs id) (jobs' id).future := by
  induction fuel generalizing call jobs process with
  | zero =>
      cases process with
      | predicting active batch => exact absurd hfuel (remaining_pos h.located).not_ge
      | returned => exact ⟨jobs, [], rfl, fun id hid => .before (Future.done_iff.mpr (h.located id hid))⟩
  | succ fuel ih =>
      cases process with
      | returned => exact ⟨jobs, [], rfl, fun id hid => .before (Future.done_iff.mpr (h.located id hid))⟩
      | predicting active batch =>
          have hcancelled := h.cancelAll (env call).cancelled
          have hreply := hpredict call batch.combined
          have hnext := resume_invariant (hlimits (call + 1)) hnodup hcancelled hreply
          have hanswer := resume_job (env (call + 1)).limits hnodup hcancelled.located hreply
          simp only [processFrom]
          cases hcheck : ((env call).predict batch.combined).check batch.combined with
          | error error =>
              have hreturned : ∀ jobs : Jobs σ, (resume (env (call + 1)).limits jobs active batch
                  ((env call).predict batch.combined)).2 = .returned := fun jobs => by
                simp only [resume, hcheck]
              rw [hreturned, processFrom_returned]
              refine ⟨_, _, rfl, fun id hid => ?_⟩
              rw [hreturned] at hnext
              refine .cons (hanswer id) (hnext.scored id hid) (fun _ _ => rfl) (.before ?_)
              exact Future.done_iff.mpr (hnext.located id hid)
          | ok values =>
              have hless := remaining_resume_lt (env (call + 1)).limits hnodup hcancelled.located
                hreply hcheck
              rw [remaining_cancelAll] at hless
              obtain ⟨jobs', batches, hrun, hsettled⟩ :=
                ih (call + 1) hnext (Nat.le_of_lt_succ (hless.trans_le hfuel))
              refine ⟨jobs', batch :: batches, by rw [hrun]; rfl, fun id hid => ?_⟩
              refine .cons (hanswer id) (hnext.scored id hid) (fun error herror => ?_)
                (hsettled id hid)
              rw [hcheck] at herror
              cases herror

/-- **Micro-batching never mixes, loses, duplicates or reorders scores.** Limits, cancellations and
replies are arbitrary from call to call; a reply that has the right length holds `f` of each pair. -/
theorem process_settles (f : Pair → σ) (env : Nat → CallEnvironment σ)
    (hlimits : ∀ n, 1 ≤ (env n).limits.maxBatchPairs)
    (hpredict : ∀ n combined values, (env n).predict combined = .scores values →
      values.length = combined.length → values = combined.map f)
    (hnodup : ids.Nodup) (hfresh : ∀ id ∈ ids, (jobs id).Fresh) :
    ∃ jobs' batches, process env jobs ids = some (jobs', batches) ∧
      ∀ id ∈ ids, (jobs id).future = .pending →
        (jobs' id).future = .result ((jobs id).pairs.map f) ∨
        ((jobs' id).future = .cancelled ∧ ∃ n < batches.length, id ∈ (env n).cancelled) ∨
        ∃ n batch error, n + 1 = batches.length ∧ batches[n]? = some batch ∧
          ((env n).predict batch.combined).check batch.combined = .error error ∧
          (jobs' id).future = .exception error := by
  have hsound : ∀ n combined,
      ((env n).predict combined).Sound (fun pair score => f pair = score) combined := by
    intro n combined values hcheck
    have hvalues : (env n).predict combined = .scores values ∧ values.length = combined.length := by
      unfold Reply.check at hcheck
      grind
    rw [hpredict n combined values hvalues.1 hvalues.2, List.forall₂_map_right_iff]
    exact List.forall₂_same.mpr fun _ _ => rfl
  obtain ⟨jobs', batches, hrun, hsettled⟩ := processFrom_settles hlimits hsound hnodup
    (totalPairs jobs ids) 0 (startProcess_invariant (hlimits 0) hfresh) (remaining_le_totalPairs jobs ids)
  refine ⟨jobs', batches, hrun, fun id hid hpending => ?_⟩
  have hid' := hsettled id hid
  revert hid'
  generalize (jobs' id).future = future
  intro hid'
  cases hid' with
  | before hdone => simp [hpending, Future.done] at hdone
  | @scored values hvalues =>
      rw [← List.forall₂_map_left_iff (f := f) (R := Eq), List.forall₂_eq_eq_eq] at hvalues
      exact .inl (congrArg Future.result hvalues.symm)
  | @cancelled n hn hmem =>
      rw [zero_add] at hmem
      exact .inr (.inl ⟨rfl, n, hn, hmem⟩)
  | @failed n batch error hlast hbatch hreply =>
      rw [zero_add] at hreply
      exact .inr (.inr ⟨n, batch, error, hlast, hbatch, hreply, rfl⟩)

/-- Two jobs of three pairs and batches of two; job `1` is cancelled during the second call, and any
third call would raise. -/
def splitEnvironment (n : Nat) : CallEnvironment Nat where
  limits := { maxBatchPairs := 2, maxBatchTokens := 100 }
  cancelled := if n = 1 then [1] else []
  predict combined :=
    if n < 2 then .scores (combined.map fun pair => pair.2.length)
    else .raised (.runtimeError "out of memory")

def splitJobs (id : JobId) : BatchJob Nat where
  pairs := [("q".toList, "a".toList), ("q".toList, "bb".toList), ("q".toList, decimal id)]

theorem process_settles_split :
    ∃ jobs' batches, process splitEnvironment splitJobs [0, 1] = some (jobs', batches) ∧
      ∀ id ∈ [0, 1], (splitJobs id).future = .pending →
        (jobs' id).future = .result ((splitJobs id).pairs.map fun pair => pair.2.length) ∨
        ((jobs' id).future = .cancelled ∧
          ∃ n < batches.length, id ∈ (splitEnvironment n).cancelled) ∨
        ∃ n batch error, n + 1 = batches.length ∧ batches[n]? = some batch ∧
          ((splitEnvironment n).predict batch.combined).check batch.combined = .error error ∧
          (jobs' id).future = .exception error := by
  refine process_settles (fun pair => pair.2.length) splitEnvironment (fun _ => Nat.le_succ 1)
    (fun n combined values hreply _ => ?_) (by decide) (fun id _ => ⟨by simp [splitJobs], .inl rfl⟩)
  simp only [splitEnvironment] at hreply
  split at hreply
  · exact (Reply.scores.inj hreply).symm
  · cases hreply

end DynamicBatcher

end RerankerService
