import RerankerService.Proof.Progress
import RerankerService.Proof.Worker

/-!
# First come, first served

The jobs that the worker gets, those that `close()` finds waiting and those in the hands of a worker
when it is cancelled are written down beside the batcher. One equation about a step, between what was
waiting or arrives and what is got, drained or still waiting, is where the order of the queue comes
from. How much the worker still has to do is a number that every step of it makes smaller.
-/

namespace RerankerService

open Transition

namespace DynamicBatcher

variable {σ : Type} {R : Pair → σ → Prop} {s s' : DynamicBatcher σ} {a : Action σ}

/-- What the worker gets from the queue in a step. -/
def got (s : DynamicBatcher σ) : Action σ → List JobId
  | .take => s.queue.take 1
  | _ => []

/-- What `close()` empties the queue of in a step. -/
def drained (s : DynamicBatcher σ) : Action σ → List JobId
  | .closeReturn => s.queue
  | .close => if s.worker.isNone then s.queue else []
  | _ => []

/-- What a cancelled worker has in its hands. -/
def abandoned (s : DynamicBatcher σ) : Action σ → List JobId
  | .workerCancelled => s.held
  | _ => []

/-! ### What a step does to the queue -/

/-- A step from `s` to `s'` as the queue sees it; `arrived` is the job that is put in it, if any. -/
structure Moves (s : DynamicBatcher σ) (a : Action σ) (s' : DynamicBatcher σ)
    (arrived : List JobId) : Prop where
  submitted : List.range s'.submitted = List.range s.submitted ++ arrived
  queue : s.queue ++ arrived = s.got a ++ s.drained a ++ s'.queue
  held : s'.held = s.held ++ s.got a ∨ s'.held = [] ∧ s.got a = []
  size : s'.maxQueueSize = s.maxQueueSize
  room : arrived = [] ∨ s.maxQueueSize = 0 ∨ s.queue.length + arrived.length ≤ s.maxQueueSize
  drains : ∀ id ∈ s.drained a, (s'.jobs id).future ≠ .pending
  pending : ∀ id < s.submitted, (s'.jobs id).future = .pending → (s.jobs id).future = .pending
  putDown : ∀ id ∈ s.held, (s'.jobs id).future = .pending → id ∈ s'.held ∨ id ∈ s.abandoned a

/-- A step that leaves the queue alone. -/
theorem Moves.still (hgot : s.got a = []) (hdrained : s.drained a = [])
    (hsubmitted : s'.submitted = s.submitted) (hqueue : s'.queue = s.queue)
    (hsize : s'.maxQueueSize = s.maxQueueSize)
    (hpending : ∀ id, (s'.jobs id).future = .pending → (s.jobs id).future = .pending)
    (hheld : s'.held = s.held ∨ s'.held = [] ∧
      ∀ id ∈ s.held, (s'.jobs id).future = .pending → id ∈ s.abandoned a) :
    s.Moves a s' [] where
  submitted := by rw [hsubmitted, List.append_nil]
  queue := by rw [hgot, hdrained, hqueue, List.append_nil, List.nil_append, List.nil_append]
  held := by
    rw [hgot, List.append_nil]
    exact hheld.imp_right fun h => ⟨h.1, rfl⟩
  size := hsize
  room := .inl rfl
  drains id hid := by
    rw [hdrained] at hid
    cases hid
  pending id _ := hpending id
  putDown id hid hstill := by
    rcases hheld with hsame | ⟨-, hput⟩
    · exact .inl (hsame ▸ hid)
    · exact .inr (hput id hid hstill)

/-- A job that stays pending stays in the queue or in the hands of the worker, or gets there. -/
theorem Moves.place {arrived : List JobId} (h : s.Moves a s' arrived) {id : JobId}
    (hid : id ∈ s.queue ++ arrived ∨ id ∈ s.held) (hpending : (s'.jobs id).future = .pending) :
    id ∈ s'.queue ++ s'.held ∨ id ∈ s.abandoned a := by
  rcases hid with hqueue | hheld
  · rw [h.queue, List.mem_append, List.mem_append] at hqueue
    rcases hqueue with (hgot | hdrained) | hwaits
    · rcases h.held with hheld | ⟨-, hnone⟩
      · refine .inl (List.mem_append_right _ ?_)
        rw [hheld]
        exact List.mem_append_right _ hgot
      · rw [hnone] at hgot
        cases hgot
    · exact absurd hpending (h.drains id hdrained)
    · exact .inl (List.mem_append_left _ hwaits)
  · exact (h.putDown id hheld hpending).imp_left (List.mem_append_right _)

theorem started_moves (hgot : s.got a = []) (hdrained : s.drained a = []) (hnone : s.worker = none) :
    s.Moves a { s with worker := some .waiting } [] := by
  refine .still hgot hdrained rfl rfl rfl (fun _ h => h) (.inr ⟨rfl, fun id hid _ => ?_⟩)
  rw [held_eq_nil hnone] at hid
  cases hid

theorem reconfigure_moves (hgot : s.got a = []) (hdrained : s.drained a = [])
    (h : s.reconfigure = some s') : s.Moves a s' [] := by
  cases reconfigure_cases h with
  | started hon hnone => exact started_moves hgot hdrained hnone
  | closing hoff hopen hsome => exact .still hgot hdrained rfl rfl rfl (fun _ h => h) (.inl rfl)
  | kept hstaffed => exact .still hgot hdrained rfl rfl rfl (fun _ h => h) (.inl rfl)

/-- `_process` is entered or resumed. -/
theorem process_moves (hgot : s.got a = []) (hdrained : s.drained a = []) {jobs : Jobs σ}
    {process : Process}
    (hpending : ∀ id, (jobs id).future = .pending → (s.jobs id).future = .pending)
    (hlocated : process.Located jobs s.held) :
    s.Moves a { s with jobs, worker := some (process.worker s.held) } [] := by
  refine .still hgot hdrained rfl rfl rfl hpending ?_
  cases process with
  | predicting active batch => exact .inl rfl
  | returned => exact .inr ⟨rfl, fun id hid hstill => absurd hstill (hlocated id hid)⟩

theorem drain_settles {id : JobId} (hid : id ∈ s.queue) : (s.drain.jobs id).future ≠ .pending :=
  fun h => (pending_of_cancelAll h).1 hid

theorem held_worker (process : Process) (group : List JobId) :
    (process.worker group).held = group ∨ (process.worker group).held = [] := by
  cases process with
  | predicting active batch => exact .inl rfl
  | returned => exact .inr rfl

theorem predict_moves (s : DynamicBatcher σ) (pairs : List Pair) :
    ∃ arrived, s.Moves (.predict pairs) (s.predict pairs).1 arrived := by
  have hsame : s.Moves (.predict pairs) s [] := .still rfl rfl rfl rfl rfl (fun _ h => h) (.inl rfl)
  unfold DynamicBatcher.predict
  split
  · exact ⟨[], hsame⟩
  split
  · exact ⟨[], hsame⟩
  split
  · exact ⟨[], hsame⟩
  rename_i hroom
  refine ⟨[s.submitted], List.range_succ, rfl, .inl (List.append_nil _).symm, rfl, .inr ?_, nofun,
    fun id hid hstill => ?_, fun id hid _ => .inl hid⟩
  · rw [List.length_singleton]
    omega
  · simpa only [enqueue, Function.update_of_ne hid.ne] using hstill

/-- **Every step** moves the queue in one of a few ways. -/
theorem step_moves (hsound : s.Sound R) (hreplies : SoundReplies R s a)
    (hstep : s.step a = some s') : ∃ arrived, s.Moves a s' arrived := by
  cases a with
  | start =>
      obtain rfl := Option.some.inj hstep
      rcases start_cases s with heq | ⟨hnone, heq⟩
      · exact ⟨[], heq.symm ▸ .still rfl rfl rfl rfl rfl (fun _ h => h) (.inl rfl)⟩
      · exact ⟨[], heq.symm ▸ started_moves rfl rfl hnone⟩
  | predict pairs =>
      simp only [step] at hstep
      split at hstep
      · cases hstep
      · exact Option.some.inj hstep ▸ predict_moves s pairs
  | cancelJob id =>
      obtain rfl := Option.some.inj hstep
      exact ⟨[], .still rfl rfl rfl rfl rfl (fun _ h => (pending_of_cancelAll h).2) (.inl rfl)⟩
  | take =>
      obtain ⟨-, -, id, rest, hqueue, hheld, rfl⟩ := take_cases hstep
      have hgot : s.got .take = [id] := by rw [got, hqueue, List.take_succ_cons, List.take_zero]
      refine ⟨[], (List.append_nil _).symm, ?_, .inl ?_, rfl, .inl rfl,
        fun other hnone => (List.not_mem_nil hnone).elim, fun _ _ h => h,
        fun other hother _ => .inl (List.mem_append_left _ (hheld ▸ hother))⟩
      · rw [hgot, hqueue]
        exact List.append_nil _
      · rw [hgot, hheld]
        rfl
  | windowClosed =>
      obtain ⟨-, -, hheld, rfl⟩ := windowClosed_cases hstep
      have hstart : Invariant R s.jobs s.held (startProcess s.limits s.jobs s.held) :=
        startProcess_invariant hsound.limits fun id hid =>
          hsound.fresh id (List.mem_append_right _ (hheld ▸ hid))
      rw [← hheld]
      exact ⟨[], process_moves rfl rfl (fun _ h => h) hstart.located⟩
  | replied reply =>
      obtain ⟨-, active, batch, hworker, rfl⟩ := replied_cases hstep
      have hreply := hreplies reply _ _ _ rfl hworker
      have hlocated := hsound.located _ _ _ hworker
      have hnodup := (List.nodup_append.mp hsound.nodup).2.1
      have hanswer := resume_job s.limits hnodup hlocated hreply
      refine ⟨[], process_moves rfl rfl (fun id => (hanswer id).pending)
        (resume_located hsound.limits hnodup ⟨fun id hid => ?_, hlocated⟩ hreply)⟩
      exact hsound.scored id (hsound.submitted id (List.mem_append_right _ hid))
  | patch dynamicBatching limits =>
      simp only [step] at hstep
      split at hstep
      · obtain ⟨hsubmitted, hqueue, hheld, hsize, hroom, hdrains, hpending, hput⟩ :=
          reconfigure_moves (s := { s with dynamicBatching, limits })
            (a := .patch dynamicBatching limits) rfl rfl hstep
        exact ⟨[], hsubmitted, hqueue, hheld, hsize, hroom, hdrains, hpending, hput⟩
      · cases hstep
  | close =>
      rcases close_cases hstep with ⟨hnone, rfl⟩ | ⟨-, hsome, rfl⟩
      · refine ⟨[], (List.append_nil _).symm, ?_, .inl (List.append_nil _).symm, rfl, .inl rfl,
          fun id hid => ?_, fun id _ h => (pending_of_cancelAll h).2, fun id hid _ => .inl hid⟩
        · simp only [drained, got, hnone, drain, Option.isNone_none, if_true, List.append_nil,
            List.nil_append]
        · rw [drained, hnone] at hid
          exact drain_settles hid
      · refine ⟨[], .still rfl (if_neg ?_) rfl rfl rfl (fun _ h => h) (.inl rfl)⟩
        rw [Option.isNone_iff_eq_none]
        exact Option.isSome_iff_ne_none.mp hsome
  | workerCancelled =>
      rw [workerCancelled_eq hstep]
      exact ⟨[], .still rfl rfl rfl rfl rfl (fun _ h => h) (.inr ⟨rfl, fun _ hid _ => hid⟩)⟩
  | closeReturn =>
      obtain ⟨hworker, rfl⟩ := closeReturn_eq hstep
      have hnil : s.held = [] := by
        rw [held, hworker]
        rfl
      refine ⟨[], (List.append_nil _).symm, ?_, .inr ⟨rfl, rfl⟩, rfl, .inl rfl,
        fun id hid => drain_settles hid, fun id _ h => (pending_of_cancelAll h).2,
        fun id hid _ => ?_⟩
      · simp only [drained, got, drain, List.append_nil, List.nil_append]
      · rw [hnil] at hid
        cases hid

end DynamicBatcher

/-! ### The story of the queue -/

/-- The batcher with what has become of the jobs of its queue. -/
structure Queued (σ : Type) where
  batcher : DynamicBatcher σ
  /-- The jobs in the order in which the worker got them. -/
  taken : List JobId := []
  /-- The jobs that a `close()` found in the queue. -/
  drained : List JobId := []
  /-- The jobs that a worker had in its hands when it was cancelled. -/
  abandoned : List JobId := []

namespace Queued

open DynamicBatcher

variable {σ : Type} {q q' : Queued σ} {a : Action σ}

def step (q : Queued σ) (a : Action σ) : Option (Queued σ) :=
  (q.batcher.step a).map fun next =>
    { batcher := next
      taken := q.taken ++ q.batcher.got a
      drained := q.drained ++ q.batcher.drained a
      abandoned := q.abandoned ++ q.batcher.abandoned a }

def Initial (q : Queued σ) : Prop :=
  ∃ batcher : DynamicBatcher σ, batcher.Initial ∧ q = { batcher }

structure Orderly (q : Queued σ) : Prop where
  sound : q.batcher.Sound fun _ _ => True
  partition : (q.taken ++ q.drained ++ q.batcher.queue).Perm (List.range q.batcher.submitted)
  fifo : (q.taken ++ q.batcher.queue).Pairwise (· < ·)
  inHand : q.batcher.held <:+ q.taken
  lost : q.abandoned ⊆ q.taken
  bounded : q.batcher.maxQueueSize = 0 ∨ q.batcher.queue.length ≤ q.batcher.maxQueueSize
  placed : ∀ id < q.batcher.submitted, (q.batcher.jobs id).future = .pending →
    id ∈ q.batcher.queue ++ q.batcher.held ∨ id ∈ q.abandoned

theorem Initial.orderly (h : q.Initial) : q.Orderly := by
  obtain ⟨batcher, hinit, rfl⟩ := h
  have haccounted := hinit.accounted
  obtain ⟨settings, hlimits, rfl⟩ := hinit
  exact ⟨Initial.sound ⟨settings, hlimits, rfl⟩, .refl _, .nil, List.nil_suffix,
    List.nil_subset _, .inr (Nat.zero_le _), fun id hid hpending => .inl (haccounted id hid hpending)⟩

/-- What a step moves stays within what was there and what arrives. -/
theorem sublist_of_moves {s s' : DynamicBatcher σ} {arrived : List JobId}
    (hmoves : s.Moves a s' arrived) (before : List JobId) :
    (before ++ s.got a ++ s'.queue).Sublist (before ++ s.queue ++ arrived) := by
  rw [List.append_assoc, List.append_assoc, hmoves.queue, List.append_assoc]
  exact (List.Sublist.refl before).append
    ((List.Sublist.refl _).append (List.sublist_append_right _ _))

theorem Orderly.step (h : q.Orderly) (hstep : q.step a = some q') : q'.Orderly := by
  obtain ⟨s', hs', rfl⟩ := Option.map_eq_some_iff.mp hstep
  have hreplies := soundReplies_true q.batcher a
  obtain ⟨arrived, hmoves⟩ := step_moves h.sound hreplies hs'
  have hbelow : ∀ id ∈ q.taken ++ q.batcher.queue, id ∈ List.range q.batcher.submitted :=
    fun id hid => by
      refine h.partition.subset ?_
      simp only [List.mem_append] at hid ⊢
      tauto
  have hhands : q.batcher.abandoned a ⊆ q.batcher.held := by
    cases a with
    | workerCancelled => exact List.Subset.refl _
    | _ => exact List.nil_subset _
  refine ⟨step_sound a h.sound hreplies hs', ?_, ?_, ?_, ?_, ?_, fun id hid hpending => ?_⟩
  · calc (q.taken ++ q.batcher.got a ++ (q.drained ++ q.batcher.drained a) ++ s'.queue).Perm
          (q.taken ++ q.drained ++ (q.batcher.got a ++ q.batcher.drained a ++ s'.queue)) :=
          List.perm_iff_count.mpr fun id => by
            simp only [List.count_append]
            omega
      _ = q.taken ++ q.drained ++ q.batcher.queue ++ arrived := by
          rw [← hmoves.queue, List.append_assoc _ q.batcher.queue]
      List.Perm _ (List.range q.batcher.submitted ++ arrived) := h.partition.append_right _
      _ = List.range s'.submitted := hmoves.submitted.symm
  · have hrange := List.pairwise_lt_range (n := s'.submitted)
    rw [hmoves.submitted] at hrange
    obtain ⟨-, harrived, hlater⟩ := List.pairwise_append.mp hrange
    refine List.Pairwise.sublist (sublist_of_moves hmoves q.taken) ?_
    exact List.pairwise_append.mpr ⟨h.fifo, harrived, fun id hid => hlater id (hbelow id hid)⟩
  · rcases hmoves.held with hheld | ⟨hheld, -⟩
    · obtain ⟨before, hbefore⟩ := h.inHand
      refine ⟨before, ?_⟩
      rw [hheld, ← List.append_assoc, hbefore]
    · rw [hheld]
      exact List.nil_suffix
  · refine List.append_subset.mpr ⟨fun id hid => ?_, fun id hid => ?_⟩
    · exact List.mem_append_left _ (h.lost hid)
    · exact List.mem_append_left _ (h.inHand.subset (hhands hid))
  · change s'.maxQueueSize = 0 ∨ s'.queue.length ≤ s'.maxQueueSize
    rw [hmoves.size]
    have hlength := congrArg List.length hmoves.queue
    simp only [List.length_append] at hlength
    rcases hmoves.room with rfl | hnone | hroom
    · refine h.bounded.imp_right fun hle => ?_
      rw [List.length_nil] at hlength
      omega
    · exact .inl hnone
    · exact .inr (by omega)
  · have hplace : id ∈ q.batcher.queue ++ arrived ∨ id ∈ q.batcher.held ∨ id ∈ q.abandoned := by
      have hrange := List.mem_range.mpr hid
      rw [hmoves.submitted] at hrange
      rcases List.mem_append.mp hrange with hold | hnew
      · have hlt := List.mem_range.mp hold
        have hplaced := h.placed id hlt (hmoves.pending id hlt hpending)
        simp only [List.mem_append] at hplaced ⊢
        tauto
      · exact .inl (List.mem_append_right _ hnew)
    rcases hplace with hqueue | hheld | hlost
    · exact (hmoves.place (.inl hqueue) hpending).imp_right (List.mem_append_right _)
    · exact (hmoves.place (.inr hheld) hpending).imp_right (List.mem_append_right _)
    · exact .inr (List.mem_append_left _ hlost)

theorem Orderly.place (h : q.Orderly) {id : JobId} (hid : id ∈ q.taken ++ q.drained)
    (hpending : (q.batcher.jobs id).future = .pending) :
    id ∈ q.batcher.held ∨ id ∈ q.abandoned := by
  have hnodup : (q.taken ++ q.drained ++ q.batcher.queue).Nodup :=
    h.partition.nodup_iff.mpr List.nodup_range
  have hsubmitted := List.mem_range.mp (h.partition.subset (List.mem_append_left _ hid))
  rcases h.placed id hsubmitted hpending with hplace | hlost
  · refine .inl ((List.mem_append.mp hplace).resolve_left fun hqueue => ?_)
    exact (List.nodup_append.mp hnodup).2.2 id hid id hqueue rfl
  · exact .inr hlost

theorem orderly (hreach : Reachable step Initial q) : q.Orderly :=
  hreach.invariant (fun _ h => h.orderly) fun _ _ _ h _ hstep => h.step hstep

/-- **First come, first served**: every job is taken, drained or waiting, and only once; jobs leave
the queue in the order in which they came, those that wait came after all that the worker got. The
jobs in its hands are the last ones it got, and those before them are settled unless a cancellation
of the worker lost them. The queue never holds more than its size, and a caller is turned away only
when it is full. -/
theorem first_come_first_served (hreach : Reachable step Initial q) :
    (q.taken ++ q.drained ++ q.batcher.queue).Perm (List.range q.batcher.submitted) ∧
      (q.taken ++ q.batcher.queue).Pairwise (· < ·) ∧
      (∃ before, q.taken = before ++ q.batcher.held ∧
        ∀ id ∈ before, (q.batcher.jobs id).future = .pending → id ∈ q.abandoned) ∧
      (∀ id ∈ q.drained, (q.batcher.jobs id).future ≠ .pending) ∧
      (q.batcher.maxQueueSize = 0 ∨ q.batcher.queue.length ≤ q.batcher.maxQueueSize) ∧
      ∀ pairs status code message,
        (q.batcher.predict pairs).2 = .raised (.service status code message) →
          0 < q.batcher.maxQueueSize ∧ q.batcher.queue.length = q.batcher.maxQueueSize := by
  have h := orderly hreach
  have hnodup : (q.taken ++ q.drained ++ q.batcher.queue).Nodup :=
    h.partition.nodup_iff.mpr List.nodup_range
  obtain ⟨htaken, -, hapart⟩ := List.nodup_append.mp (List.nodup_append.mp hnodup).1
  obtain ⟨before, hbefore⟩ := h.inHand
  refine ⟨h.partition, h.fifo, ⟨before, hbefore.symm, fun id hid hpending => ?_⟩,
    fun id hid hpending => ?_, h.bounded, fun pairs status code message hraised => ?_⟩
  · have hmem : id ∈ q.taken := hbefore ▸ List.mem_append_left _ hid
    refine (h.place (List.mem_append_left _ hmem) hpending).resolve_left fun hheld => ?_
    rw [← hbefore] at htaken
    exact (List.nodup_append.mp htaken).2.2 id hid id hheld rfl
  · have hmem : id ∈ q.taken := by
      rcases h.place (List.mem_append_right _ hid) hpending with hheld | hlost
      · exact h.inHand.subset hheld
      · exact h.lost hlost
    exact hapart id hmem id hid rfl
  · unfold DynamicBatcher.predict at hraised
    split_ifs at hraised with hoff hnone hfull
    · cases hraised
    · have hbounded := h.bounded
      omega

/-- With room for one job, the second caller is turned away until the worker has taken the first. -/
theorem first_come_first_served_full : ∃ q : Queued Nat,
    run step { batcher := new { maxQueueSize := 1 } }
      [.start, .predict onePair, .predict onePair, .take, .predict onePair] = some q ∧
    q.taken = [0] ∧ q.batcher.queue = [1] ∧ (q.taken ++ q.batcher.queue).Pairwise (· < ·) := by
  obtain ⟨q, hrun, htaken, hqueue⟩ : ∃ q : Queued Nat,
      run step { batcher := new { maxQueueSize := 1 } }
        [.start, .predict onePair, .predict onePair, .take, .predict onePair] = some q ∧
      q.taken = [0] ∧ q.batcher.queue = [1] := ⟨_, rfl, rfl, rfl⟩
  have hinit : Initial { batcher := (new { maxQueueSize := 1 } : DynamicBatcher Nat) } :=
    ⟨_, ⟨{ maxQueueSize := 1 }, by decide, rfl⟩, rfl⟩
  exact ⟨q, hrun, htaken, hqueue, (first_come_first_served (reachable_of_run hinit hrun)).2.1⟩

end Queued

/-! ### The worker gets through -/

namespace DynamicBatcher

variable {σ : Type} {s s' : DynamicBatcher σ} {a : Action σ}

/-- The steps of the worker. -/
def Action.works : Action σ → Bool
  | .take | .windowClosed | .replied _ => true
  | _ => false

/-- The steps that let the worker work: its own ones, callers that give up, and patches that do not
switch dynamic batching off. -/
def Action.undisturbing : Action σ → Bool
  | .take | .windowClosed | .replied _ | .cancelJob _ => true
  | .patch dynamicBatching _ => dynamicBatching
  | _ => false

/-- A worker that collects still has to close its window. -/
def openWindow (s : DynamicBatcher σ) : Nat :=
  match s.worker with
  | some (.collecting _) => 1
  | _ => 0

/-- A bound for the steps that the worker has to take. -/
def backlog (s : DynamicBatcher σ) : Nat :=
  2 * s.queue.length + remaining s.jobs (s.queue ++ s.held) + s.openWindow

theorem openWindow_le (s : DynamicBatcher σ) : s.openWindow ≤ 1 := by
  unfold openWindow
  split
  · exact Nat.le_refl 1
  · exact Nat.zero_le 1

theorem remaining_append (jobs : Jobs σ) (ids more : List JobId) :
    remaining jobs (ids ++ more) = remaining jobs ids + remaining jobs more := by
  rw [remaining, List.map_append, List.sum_append]
  rfl

theorem remaining_congr {jobs jobs' : Jobs σ} {ids : List JobId}
    (hsame : ∀ id ∈ ids, jobs' id = jobs id) : remaining jobs' ids = remaining jobs ids :=
  congrArg List.sum (List.map_congr_left fun id hid => by rw [hsame id hid])

/-- A batcher whose worker runs and is not being cancelled. -/
structure AtWork (s : DynamicBatcher σ) : Prop where
  sound : s.Sound fun _ _ => True
  opened : s.closing = false
  running : ∃ worker, s.worker = some worker ∧ worker ≠ .stopped

theorem worker_running (process : Process) (group : List JobId) :
    some (process.worker group) ≠ some Worker.stopped := by
  cases process with
  | predicting | returned => exact nofun

theorem windowClosed_openWindow (h : s.windowClosed = some s') : s.openWindow = 1 := by
  unfold windowClosed at h
  split at h
  · cases h
  · split at h
    · rename_i group hworker
      rw [openWindow, hworker]
    · cases h

/-- What is left when `_process` was entered or resumed. -/
theorem backlog_process {jobs : Jobs σ} (process : Process)
    (hqueue : ∀ id ∈ s.queue, jobs id = s.jobs id) :
    { s with jobs, worker := some (process.worker s.held) }.backlog =
      2 * s.queue.length + remaining s.jobs s.queue +
        remaining jobs (process.worker s.held).held := by
  have hopen : { s with jobs, worker := some (process.worker s.held) }.openWindow = 0 := by
    cases process with
    | predicting | returned => rfl
  have hheld : { s with jobs, worker := some (process.worker s.held) }.held =
      (process.worker s.held).held := rfl
  rw [backlog, hopen, hheld, remaining_append, remaining_congr hqueue, Nat.add_zero, Nat.add_assoc]

/-- A worker that has ended was cancelled by a `close()` that awaits it. -/
theorem running (hreach : Reachable step Initial s) (hopen : s.closing = false) :
    s.worker ≠ some .stopped := by
  refine hreach.invariant (I := fun s => s.closing = false → s.worker ≠ some .stopped)
    (fun s hinit _ => ?_) (fun s a s' h _ hstep hopen => ?_) hopen
  · obtain ⟨settings, -, rfl⟩ := hinit
    intro heq
    cases heq
  cases a with
  | start =>
      obtain rfl := Option.some.inj hstep
      rcases start_cases s with heq | ⟨-, heq⟩
      · rw [heq] at hopen ⊢
        exact h hopen
      · rw [heq]
        intro heq
        cases heq
  | predict pairs =>
      simp only [step] at hstep
      split at hstep
      · cases hstep
      obtain rfl := Option.some.inj hstep
      rcases predict_cases s pairs with heq | heq
      · rw [heq] at hopen ⊢
        exact h hopen
      · rw [heq] at hopen ⊢
        exact h hopen
  | cancelJob id =>
      obtain rfl := Option.some.inj hstep
      exact h hopen
  | take =>
      obtain ⟨-, -, id, rest, -, -, rfl⟩ := take_cases hstep
      intro heq
      cases heq
  | windowClosed =>
      obtain ⟨-, -, -, rfl⟩ := windowClosed_cases hstep
      exact worker_running _ _
  | replied reply =>
      obtain ⟨-, active, batch, -, rfl⟩ := replied_cases hstep
      exact worker_running _ _
  | patch dynamicBatching limits =>
      simp only [step] at hstep
      split at hstep
      · cases reconfigure_cases hstep with
        | started =>
            intro heq
            cases heq
        | closing => cases hopen
        | kept => exact h hopen
      · cases hstep
  | close =>
      rcases close_cases hstep with ⟨-, rfl⟩ | ⟨-, -, rfl⟩
      · exact h hopen
      · cases hopen
  | workerCancelled =>
      have hclosing : s.closing = true := by
        by_contra hnot
        simp only [step, workerCancelled, if_neg hnot] at hstep
        cases hstep
      rw [workerCancelled_eq hstep] at hopen
      cases hclosing.symm.trans hopen
  | closeReturn =>
      rw [(closeReturn_eq hstep).2]
      intro heq
      cases heq

theorem AtWork.step (h : s.AtWork) (ha : a.undisturbing = true) (hstep : s.step a = some s') :
    s'.AtWork ∧ s'.backlog + (if a.works then 1 else 0) ≤ s.backlog := by
  have hsound := step_sound a h.sound (soundReplies_true s a) hstep
  cases a with
  | start | predict | close | workerCancelled | closeReturn => cases ha
  | take =>
      obtain ⟨-, -, id, rest, hqueue, hheld, rfl⟩ := take_cases hstep
      refine ⟨⟨hsound, h.opened, _, rfl, nofun⟩, ?_⟩
      have hsame : remaining s.jobs (rest ++ (s.collected ++ [id])) =
          remaining s.jobs (s.queue ++ s.held) := by
        rw [hqueue, hheld, ← List.append_assoc]
        exact ((List.perm_append_singleton id (rest ++ s.collected)).map _).sum_eq
      have hlength : s.queue.length = rest.length + 1 := by rw [hqueue, List.length_cons]
      change 2 * rest.length + remaining s.jobs (rest ++ (s.collected ++ [id])) + 1 + 1 ≤ s.backlog
      rw [hsame, backlog]
      omega
  | windowClosed =>
      have hwindow := windowClosed_openWindow hstep
      obtain ⟨-, -, hheld, rfl⟩ := windowClosed_cases hstep
      rw [← hheld] at hsound ⊢
      refine ⟨⟨hsound, h.opened, _, rfl, fun heq => worker_running _ _ (congrArg some heq)⟩, ?_⟩
      rw [backlog_process _ fun _ _ => rfl, backlog, hwindow, remaining_append]
      have hle : remaining s.jobs ((startProcess s.limits s.jobs s.held).worker s.held).held ≤
          remaining s.jobs s.held := by
        rcases held_worker (startProcess s.limits s.jobs s.held) s.held with heq | heq
        · rw [heq]
        · rw [heq]
          exact Nat.zero_le _
      exact Nat.add_le_add_right (by omega) 1
  | replied reply =>
      obtain ⟨-, active, batch, hworker, rfl⟩ := replied_cases hstep
      refine ⟨⟨hsound, h.opened, _, rfl, fun heq => worker_running _ _ (congrArg some heq)⟩, ?_⟩
      have hlocated := h.sound.located _ _ _ hworker
      obtain ⟨-, hnodup, hdisjoint⟩ := List.nodup_append.mp h.sound.nodup
      have hreply := soundReplies_true s (.replied reply) reply _ _ _ rfl hworker
      have hwindow : s.openWindow = 0 := by rw [openWindow, hworker]
      have hlt : remaining (resume s.limits s.jobs active batch reply).1
          ((resume s.limits s.jobs active batch reply).2.worker s.held).held <
            remaining s.jobs s.held := by
        cases hcheck : reply.check batch.combined with
        | error error =>
            simp only [resume, hcheck]
            exact remaining_pos hlocated
        | ok values =>
            refine Nat.lt_of_le_of_lt ?_ (remaining_resume_lt s.limits hnodup hlocated hreply hcheck)
            rcases held_worker (resume s.limits s.jobs active batch reply).2 s.held with heq | heq
            · rw [heq]
            · rw [heq]
              exact Nat.zero_le _
      rw [backlog_process _ fun id hid => ?_, backlog, hwindow, remaining_append]
      · refine Nat.succ_le_of_lt ?_
        omega
      · exact resume_of_notMem s.limits hlocated.2.2.1 reply fun hactive =>
          hdisjoint id hid id (hlocated.1.subset hactive) rfl
  | cancelJob id =>
      obtain rfl := Option.some.inj hstep
      refine ⟨⟨hsound, h.opened, h.running⟩, ?_⟩
      change 2 * s.queue.length + remaining (cancelAll s.jobs [id]) (s.queue ++ s.held) +
        s.openWindow + 0 ≤ s.backlog
      rw [remaining_cancelAll]
      exact Nat.le_refl _
  | patch dynamicBatching limits =>
      obtain ⟨worker, hworker, hrunning⟩ := h.running
      simp only [step] at hstep
      split at hstep
      · cases reconfigure_cases hstep with
        | started hon hnone => cases hworker.symm.trans hnone
        | closing hoff => cases ha.symm.trans hoff
        | kept => exact ⟨⟨hsound, h.opened, worker, hworker, hrunning⟩, Nat.le_refl _⟩
      · cases hstep

theorem abandoned_undisturbing (ha : a.undisturbing = true) : s.abandoned a = [] := by
  cases a with
  | workerCancelled => cases ha
  | _ => rfl

/-- A worker that can do nothing waits at an empty queue. -/
theorem AtWork.idle (h : s.AtWork) (hstuck : ∀ a : Action σ, a.works = true → s.step a = none) :
    s.queue ++ s.held = [] := by
  obtain ⟨worker, hworker, hrunning⟩ := h.running
  have hopen : ¬s.closing = true := by rw [h.opened]; exact Bool.false_ne_true
  cases worker with
  | waiting =>
      have htake := hstuck .take rfl
      cases hqueue : s.queue with
      | nil => rw [held, hworker]; rfl
      | cons id rest =>
          simp only [DynamicBatcher.step, take, if_neg hopen, hworker, hqueue] at htake
          cases htake
  | collecting group =>
      have hclosed := hstuck .windowClosed rfl
      simp only [DynamicBatcher.step, windowClosed, if_neg hopen, hworker] at hclosed
      cases hclosed
  | predicting group active batch =>
      have hreplied := hstuck (.replied (.scores [])) rfl
      simp only [DynamicBatcher.step, replied, if_neg hopen, hworker] at hreplied
      cases hreplied
  | stopped => exact absurd rfl hrunning

/-- What the worker makes of the batcher `s`: the jobs that it had stay in their places until they
are settled. -/
structure Continues (s t : DynamicBatcher σ) : Prop where
  atWork : t.AtWork
  known : ∀ id ∈ s.queue ++ s.held, id < t.submitted
  keeps : ∀ id ∈ s.queue ++ s.held, (t.jobs id).future = .pending → id ∈ t.queue ++ t.held

theorem Continues.step {t t' : DynamicBatcher σ} (h : s.Continues t) (ha : a.undisturbing = true)
    (hstep : t.step a = some t') :
    s.Continues t' ∧ t'.backlog + (if a.works then 1 else 0) ≤ t.backlog := by
  obtain ⟨arrived, hmoves⟩ := step_moves h.atWork.sound (soundReplies_true t a) hstep
  obtain ⟨hnext, hdrop⟩ := h.atWork.step ha hstep
  refine ⟨⟨hnext, fun id hid => ?_, fun id hid hpending => ?_⟩, hdrop⟩
  · have hmem := List.mem_append_left arrived (List.mem_range.mpr (h.known id hid))
    exact List.mem_range.mp (hmoves.submitted ▸ hmem)
  · have hbefore := h.keeps id hid (hmoves.pending id (h.known id hid) hpending)
    have hplace : id ∈ t.queue ++ arrived ∨ id ∈ t.held :=
      (List.mem_append.mp hbefore).imp_left (List.mem_append_left arrived)
    refine (hmoves.place hplace hpending).resolve_right fun hlost => ?_
    rw [abandoned_undisturbing ha] at hlost
    cases hlost

/-- **The worker gets through**: from any reachable state in which it runs, in whatever order its
own steps, giving up callers and patches come and whatever the predictor answers, it takes no more
steps than twice the jobs that wait and the pairs that are not scored, and one; and when it can take
none, every job that waited or was in its hands is settled. -/
theorem worker_gets_through (hreach : Reachable step Initial s) (hopen : s.closing = false)
    (hworker : s.worker.isSome) {actions : List (Action σ)}
    (hactions : ∀ a ∈ actions, a.undisturbing = true) (hrun : run step s actions = some s') :
    actions.countP Action.works ≤
        2 * s.queue.length + remaining s.jobs (s.queue ++ s.held) + 1 ∧
      ((∀ a : Action σ, a.works = true → s'.step a = none) →
        ∀ id ∈ s.queue ++ s.held, (s'.jobs id).future ≠ .pending) := by
  obtain ⟨worker, hsome⟩ := Option.isSome_iff_exists.mp hworker
  have hrunning : worker ≠ .stopped := fun heq =>
    running hreach hopen (hsome.trans (congrArg some heq))
  have hsound := reaches_sound (hreach.mono fun t b _ => soundReplies_true t b)
  have hstart : s.Continues s :=
    ⟨⟨hsound, hopen, worker, hsome, hrunning⟩, hsound.submitted, fun id hid _ => hid⟩
  obtain ⟨hlast, hcount⟩ := run_countP_le backlog Action.works
    (C := fun _ a => a.undisturbing = true) (fun _ _ _ h ha hstep => Continues.step h ha hstep) hstart
    (fun a ha _ => hactions a ha) hrun
  refine ⟨?_, fun hstuck id hid hpending => ?_⟩
  · have hwindow := openWindow_le s
    unfold backlog at hcount
    omega
  · have hplace := hlast.keeps id hid hpending
    rw [hlast.atWork.idle hstuck] at hplace
    cases hplace

/-- The caller of the only job gives up while the predictor is busy with it. -/
def oneJobServed : List (Action Nat) :=
  [.take, .windowClosed, .cancelJob 0, .replied (.scores [7])]

theorem worker_gets_through_cancelled : ∃ s s' : DynamicBatcher Nat,
    run step defaultBatcher [.start, .predict onePair] = some s ∧ run step s oneJobServed = some s' ∧
    oneJobServed.countP Action.works ≤
      2 * s.queue.length + remaining s.jobs (s.queue ++ s.held) + 1 ∧
    (s'.jobs 0).future ≠ .pending := by
  obtain ⟨s, hrun, hopen, hworker, s', hserved, hstuck, hzero⟩ : ∃ s : DynamicBatcher Nat,
      run step defaultBatcher [.start, .predict onePair] = some s ∧ s.closing = false ∧
      s.worker.isSome ∧ ∃ s', run step s oneJobServed = some s' ∧
      (∀ a : Action Nat, a.works = true → s'.step a = none) ∧ 0 ∈ s.queue ++ s.held := by
    refine ⟨_, rfl, rfl, rfl, _, rfl, fun a ha => ?_, List.mem_singleton_self 0⟩
    cases a with
    | take | windowClosed | replied => rfl
    | _ => cases ha
  have hreach := reachable_of_run initial_defaultBatcher hrun
  obtain ⟨hcount, hsettled⟩ := worker_gets_through hreach hopen hworker (by decide) hserved
  exact ⟨s, s', hrun, hserved, hcount, hsettled hstuck 0 hzero⟩

end DynamicBatcher

end RerankerService
