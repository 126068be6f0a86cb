import Mathlib.Data.List.Nodup
import RerankerService.Batching.Worker
import RerankerService.Foundation.Run
import RerankerService.Proof.Process

/-!
# No accepted job is abandoned

A job that is pending is in the queue or in the hands of the worker. Every action keeps that, except
the cancellation of a worker that still holds pending jobs: `close()` drains the queue only.
-/

namespace RerankerService

open Transition

namespace DynamicBatcher

variable {σ : Type} {R : Pair → σ → Prop} {s s' : DynamicBatcher σ}

def collected (s : DynamicBatcher σ) : List JobId :=
  match s.worker with
  | some (.collecting group) => group
  | _ => []

theorem collected_subset_held : s.collected ⊆ s.held := by
  unfold collected
  split
  · rename_i group hworker
    simp [held, hworker, Worker.held]
  · exact List.nil_subset _

/-- What every reachable batcher satisfies when the replies satisfy `R`. -/
structure Sound (R : Pair → σ → Prop) (s : DynamicBatcher σ) : Prop where
  limits : 1 ≤ s.limits.maxBatchPairs
  nodup : (s.queue ++ s.held).Nodup
  submitted : ∀ id ∈ s.queue ++ s.held, id < s.submitted
  scored : ∀ id < s.submitted, (s.jobs id).Scored R
  fresh : ∀ id ∈ s.queue ++ s.collected, (s.jobs id).Fresh
  located : ∀ group active batch, s.worker = some (.predicting group active batch) →
    (Process.predicting active batch).Located s.jobs group

/-- Every pending job has a place. -/
def Accounted (s : DynamicBatcher σ) : Prop :=
  ∀ id < s.submitted, (s.jobs id).future = .pending → id ∈ s.queue ++ s.held

theorem Initial.sound (h : Initial s) : s.Sound R := by
  obtain ⟨settings, hlimits, rfl⟩ := h
  refine ⟨hlimits, .nil, ?_, ?_, ?_, ?_⟩ <;> simp [new, held, collected]

theorem Initial.accounted (h : Initial s) : s.Accounted := by
  obtain ⟨settings, -, rfl⟩ := h
  exact fun id hid => absurd hid (Nat.not_lt_zero id)

/-! ### What the calls do -/

theorem start_cases (s : DynamicBatcher σ) :
    s.start = s ∨ s.worker = none ∧ s.start = { s with worker := some .waiting } := by
  unfold DynamicBatcher.start
  split
  · rename_i hstart
    exact .inr ⟨Option.isNone_iff_eq_none.mp hstart.2, rfl⟩
  · exact .inl rfl

theorem close_cases (h : s.close = some s') :
    s.worker = none ∧ s' = s.drain ∨
      s.closing = false ∧ s.worker.isSome ∧ s' = { s with closing := true } := by
  unfold DynamicBatcher.close at h
  split at h
  · cases h
  rename_i hopen
  split at h
  · rename_i hnone
    cases h
    exact .inl ⟨Option.isNone_iff_eq_none.mp hnone, rfl⟩
  · rename_i hsome
    cases h
    refine .inr ⟨Bool.eq_false_iff.mpr hopen, ?_, rfl⟩
    rwa [← Option.not_isNone, Bool.not_eq_true', ← Bool.not_eq_true]

/-- What `reconfigure()` does up to its suspension or return. -/
inductive Reconfigured (s : DynamicBatcher σ) : DynamicBatcher σ → Prop where
  | started (hon : s.dynamicBatching = true) (hnone : s.worker = none) :
      Reconfigured s { s with worker := some .waiting }
  | closing (hoff : s.dynamicBatching = false) (hopen : s.closing = false)
      (hsome : s.worker.isSome) : Reconfigured s { s with closing := true }
  | kept (hstaffed : s.dynamicBatching = s.worker.isSome) : Reconfigured s s

theorem reconfigure_cases (h : s.reconfigure = some s') : s.Reconfigured s' := by
  unfold DynamicBatcher.reconfigure at h
  split at h
  · rename_i hstart
    cases h
    rw [DynamicBatcher.start, if_pos hstart]
    exact .started hstart.1 (Option.isNone_iff_eq_none.mp hstart.2)
  rename_i hstart
  split at h
  · rename_i hclose
    rcases close_cases h with ⟨hnone, -⟩ | ⟨hopen, hsome, rfl⟩
    · rw [hnone] at hclose
      cases hclose.2
    · exact .closing hclose.1 hopen hsome
  · rename_i hclose
    cases h
    refine .kept ?_
    rw [← Option.not_isSome] at hstart
    revert hstart hclose
    cases s.dynamicBatching <;> cases s.worker.isSome <;> simp

theorem workerCancelled_eq (h : s.workerCancelled = some s') :
    s' = { s with worker := some .stopped } := by
  unfold workerCancelled at h
  split at h
  · split at h
    · cases h
    · cases h
    · cases h
      rfl
  · cases h

theorem closeReturn_eq (h : s.closeReturn = some s') :
    s.worker = some .stopped ∧ s' = { s.drain with worker := none, closing := false } := by
  unfold closeReturn at h
  split at h
  · rename_i hworker
    cases h
    exact ⟨hworker, rfl⟩
  · cases h

theorem predict_cases (s : DynamicBatcher σ) (pairs : List Pair) :
    (s.predict pairs).1 = s ∨ (s.predict pairs).1 = s.enqueue pairs := by
  unfold DynamicBatcher.predict
  split
  · exact .inl rfl
  split
  · exact .inl rfl
  split
  · exact .inl rfl
  · exact .inr rfl

/-- The worker goes on unless a cancellation was requested. -/
theorem take_cases (h : s.take = some s') :
    s.closing = false ∧ s.worker.isSome ∧ ∃ id rest, s.queue = id :: rest ∧ s.held = s.collected ∧
      s' = { s with queue := rest, worker := some (.collecting (s.collected ++ [id])) } := by
  unfold take at h
  split at h
  · cases h
  rename_i hopen
  refine ⟨Bool.eq_false_iff.mpr hopen, ?_⟩
  split at h
  · rename_i id rest hworker hqueue
    cases h
    exact ⟨by rw [hworker]; rfl, id, rest, hqueue, by simp [held, collected, hworker, Worker.held]⟩
  · rename_i group id rest hworker hqueue
    cases h
    exact ⟨by rw [hworker]; rfl, id, rest, hqueue, by simp [held, collected, hworker, Worker.held]⟩
  · cases h

theorem windowClosed_cases (h : s.windowClosed = some s') :
    s.closing = false ∧ s.worker.isSome ∧ s.held = s.collected ∧
      s' = { s with worker := some ((startProcess s.limits s.jobs s.collected).worker s.collected) }
    := by
  unfold windowClosed at h
  split at h
  · cases h
  rename_i hopen
  split at h
  · rename_i group hworker
    cases h
    refine ⟨Bool.eq_false_iff.mpr hopen, by rw [hworker]; rfl, ?_⟩
    simp [held, collected, hworker, Worker.held]
  · cases h

theorem replied_cases {reply : Reply σ} (h : s.replied reply = some s') :
    s.closing = false ∧ ∃ active batch, s.worker = some (.predicting s.held active batch) ∧
      s' = { s with
        jobs := (resume s.limits s.jobs active batch reply).1
        worker := some ((resume s.limits s.jobs active batch reply).2.worker s.held) } := by
  unfold replied at h
  split at h
  · cases h
  rename_i hopen
  split at h
  · rename_i group active batch hworker
    cases h
    have hheld : s.held = group := by simp [held, hworker, Worker.held]
    exact ⟨Bool.eq_false_iff.mpr hopen, active, batch, hheld ▸ hworker, by rw [hheld]⟩
  · cases h

/-! ### Starting and stopping -/

theorem Sound.cancelAll (h : s.Sound R) (ids : List JobId) :
    { s with jobs := cancelAll s.jobs ids }.Sound R where
  limits := h.limits
  nodup := h.nodup
  submitted := h.submitted
  scored id hid := cancelAll_scored (h.scored id hid) ids
  fresh id hid := cancelAll_fresh (h.fresh id hid) ids
  located group active batch hworker :=
    (h.located group active batch hworker).congr (fun id _ => cancelAll_unscored s.jobs ids id)
      fun _ _ hpending => (pending_of_cancelAll hpending).2

theorem Sound.drain (h : s.Sound R) : s.drain.Sound R where
  limits := h.limits
  nodup := (List.nodup_append.mp h.nodup).2.1
  submitted id hid := h.submitted id (List.mem_append_right _ hid)
  scored := (h.cancelAll s.queue).scored
  fresh id hid := (h.cancelAll s.queue).fresh id (List.mem_append_right _ hid)
  located := (h.cancelAll s.queue).located

theorem Sound.idle (h : s.Sound R) {worker : Option Worker}
    (hworker : worker = none ∨ worker = some .waiting ∨ worker = some .stopped) (closing : Bool) :
    { s with worker, closing }.Sound R where
  limits := h.limits
  nodup := by
    have := (List.nodup_append.mp h.nodup).1
    rcases hworker with rfl | rfl | rfl <;> simpa [held, Worker.held] using this
  submitted id hid := by
    refine h.submitted id (List.mem_append_left _ ?_)
    rcases hworker with rfl | rfl | rfl <;> simpa [held, Worker.held] using hid
  scored := h.scored
  fresh id hid := by
    refine h.fresh id (List.mem_append_left _ ?_)
    rcases hworker with rfl | rfl | rfl <;> simpa [collected] using hid
  located group active batch hpredicting := by
    rcases hworker with rfl | rfl | rfl <;> simp at hpredicting

theorem Sound.start (h : s.Sound R) : s.start.Sound R := by
  rcases start_cases s with heq | ⟨-, heq⟩
  · rwa [heq]
  · rw [heq]
    exact h.idle (.inr (.inl rfl)) s.closing

theorem Sound.close (h : s.Sound R) (hclose : s.close = some s') : s'.Sound R := by
  rcases close_cases hclose with ⟨-, rfl⟩ | ⟨-, -, rfl⟩
  · exact h.drain
  · exact ⟨h.limits, h.nodup, h.submitted, h.scored, h.fresh, h.located⟩

theorem Sound.reconfigure (h : s.Sound R) (hreconfigure : s.reconfigure = some s') :
    s'.Sound R := by
  cases reconfigure_cases hreconfigure with
  | started hon hnone => exact h.idle (.inr (.inl rfl)) s.closing
  | closing hoff hopen hsome =>
      exact ⟨h.limits, h.nodup, h.submitted, h.scored, h.fresh, h.located⟩
  | kept hstaffed => exact h

/-! ### Callers -/

theorem Sound.enqueue (h : s.Sound R) {pairs : List Pair} (hpairs : pairs ≠ []) :
    (s.enqueue pairs).Sound R := by
  have hfresh : ({ pairs } : BatchJob σ).Fresh := ⟨hpairs, .inl rfl⟩
  have hold : ∀ id < s.submitted, (s.enqueue pairs).jobs id = s.jobs id := fun id hid =>
    Function.update_of_ne hid.ne _ _
  have hnew : (s.enqueue pairs).jobs s.submitted = { pairs } := Function.update_self _ _ _
  have hnotMem : s.submitted ∉ s.queue ++ s.held := fun hmem =>
    (h.submitted s.submitted hmem).false
  rw [List.mem_append, not_or] at hnotMem
  obtain ⟨hqueue, hheld, hdisjoint⟩ := List.nodup_append.mp h.nodup
  refine ⟨h.limits, ?_, ?_, ?_, ?_, ?_⟩
  · refine List.nodup_append.mpr ⟨?_, hheld, ?_⟩
    · exact List.nodup_append.mpr ⟨hqueue, List.nodup_singleton _, fun a ha b hb => by
        rw [List.mem_singleton.mp hb]
        exact fun heq => hnotMem.1 (heq ▸ ha)⟩
    · intro a ha b hb
      rcases List.mem_append.mp ha with ha | ha
      · exact hdisjoint a ha b hb
      · rw [List.mem_singleton.mp ha]
        exact fun heq => hnotMem.2 (heq ▸ hb)
  · intro id hid
    have : id ∈ s.queue ++ s.held ∨ id = s.submitted := by
      simp only [DynamicBatcher.enqueue, held, List.mem_append, List.mem_singleton] at hid ⊢
      tauto
    rcases this with hid | rfl
    · exact (h.submitted id hid).trans (Nat.lt_succ_self _)
    · exact Nat.lt_succ_self _
  · intro id hid
    rcases (Nat.lt_succ_iff_lt_or_eq.mp hid) with hid | rfl
    · rw [hold id hid]
      exact h.scored id hid
    · rw [hnew]
      exact hfresh.scored
  · intro id hid
    have : id ∈ s.queue ++ s.collected ∨ id = s.submitted := by
      simp only [DynamicBatcher.enqueue, collected, List.mem_append, List.mem_singleton] at hid ⊢
      tauto
    rcases this with hid | rfl
    · have hlt : id < s.submitted := by
        refine h.submitted id ?_
        rcases List.mem_append.mp hid with hid | hid
        · exact List.mem_append_left _ hid
        · exact List.mem_append_right _ (collected_subset_held hid)
      rw [hold id hlt]
      exact h.fresh id hid
    · rw [hnew]
      exact hfresh
  · intro group active batch hworker
    have hheld : s.held = group := by
      simp only [DynamicBatcher.enqueue] at hworker
      simp [held, hworker, Worker.held]
    have hsame : ∀ id ∈ group, (s.enqueue pairs).jobs id = s.jobs id := fun id hid =>
      hold id (h.submitted id (List.mem_append_right _ (hheld ▸ hid)))
    exact (h.located group active batch hworker).congr (fun id hid => by rw [hsame id hid])
      fun id hid hpending => by rwa [hsame id hid] at hpending

theorem Sound.predict (h : s.Sound R) {pairs : List Pair} (hpairs : pairs ≠ []) :
    (s.predict pairs).1.Sound R := by
  rcases predict_cases s pairs with heq | heq
  · rwa [heq]
  · rw [heq]
    exact h.enqueue hpairs

/-! ### The worker -/

theorem Sound.take (h : s.Sound R) (htake : s.take = some s') : s'.Sound R := by
  obtain ⟨-, -, id, rest, hqueue, hheld, rfl⟩ := take_cases htake
  have hperm : (rest ++ (s.collected ++ [id])).Perm (s.queue ++ s.collected) := by
    rw [hqueue, ← List.append_assoc]
    exact List.perm_append_singleton id (rest ++ s.collected)
  refine ⟨h.limits, ?_, fun id hid => ?_, h.scored, fun id hid => ?_, ?_⟩
  · exact hperm.nodup_iff.mpr (hheld ▸ h.nodup)
  · exact h.submitted id (hheld ▸ hperm.mem_iff.mp hid)
  · exact h.fresh id (hperm.mem_iff.mp hid)
  · intro group active batch hworker
    cases hworker

theorem Sound.process (h : s.Sound R) {jobs : Jobs σ} {process : Process}
    (hscored : ∀ id < s.submitted, (jobs id).Scored R)
    (hqueue : ∀ id ∈ s.queue, jobs id = s.jobs id)
    (hlocated : process.Located jobs s.held) :
    { s with jobs, worker := some (process.worker s.held) }.Sound R := by
  have hsub : (process.worker s.held).held.Sublist s.held := by
    cases process with
    | predicting active batch => exact List.Sublist.refl _
    | returned => exact List.nil_sublist _
  refine ⟨h.limits, ?_, ?_, hscored, ?_, ?_⟩
  · exact ((List.Sublist.refl s.queue).append hsub).nodup h.nodup
  · intro id hid
    exact h.submitted id (((List.Sublist.refl s.queue).append hsub).subset hid)
  · intro id hid
    have hid : id ∈ s.queue := by
      cases process <;> simpa [collected, Process.worker] using hid
    simp only [hqueue id hid]
    exact h.fresh id (List.mem_append_left _ hid)
  · intro group active batch hworker
    cases process with
    | predicting active' batch' =>
        cases hworker
        exact hlocated
    | returned => cases hworker

theorem Sound.windowClosed (h : s.Sound R) (hclosed : s.windowClosed = some s') :
    s'.Sound R := by
  obtain ⟨-, -, hheld, rfl⟩ := windowClosed_cases hclosed
  have hstart : Invariant R s.jobs s.held (startProcess s.limits s.jobs s.held) :=
    startProcess_invariant h.limits fun id hid =>
      h.fresh id (List.mem_append_right _ (hheld ▸ hid))
  rw [← hheld]
  exact h.process h.scored (fun _ _ => rfl) hstart.located

theorem Sound.replied (h : s.Sound R) {reply : Reply σ} (hreplied : s.replied reply = some s')
    (hreply : ∀ group active batch, s.worker = some (.predicting group active batch) →
      reply.Sound R batch.combined) : s'.Sound R := by
  obtain ⟨-, active, batch, hworker, rfl⟩ := replied_cases hreplied
  have hlocated := h.located _ _ _ hworker
  obtain ⟨hqueue, hheld, hdisjoint⟩ := List.nodup_append.mp h.nodup
  have hsound := hreply _ _ _ hworker
  have hanswer := resume_job s.limits hheld hlocated hsound
  have hinvariant : Invariant R s.jobs s.held (.predicting active batch) :=
    ⟨fun id hid => h.scored id (h.submitted id (List.mem_append_right _ hid)), hlocated⟩
  refine h.process (fun id hid => (hanswer id).scored (h.scored id hid)) (fun id hid => ?_)
    (resume_located h.limits hheld hinvariant hsound)
  exact resume_of_notMem s.limits hlocated.2.2.1 reply fun hactive =>
    hdisjoint id hid id (hlocated.1.subset hactive) rfl

def SoundReplies (R : Pair → σ → Prop) (s : DynamicBatcher σ) (a : Action σ) : Prop :=
  ∀ reply group active batch, a = .replied reply →
    s.worker = some (.predicting group active batch) → reply.Sound R batch.combined

theorem step_sound (a : Action σ) (h : s.Sound R) (hreplies : SoundReplies R s a)
    (hstep : s.step a = some s') : s'.Sound R := by
  cases a with
  | start => exact Option.some.inj hstep ▸ h.start
  | predict pairs =>
      simp only [step] at hstep
      split at hstep
      · cases hstep
      · exact Option.some.inj hstep ▸ h.predict ‹_›
  | cancelJob id => exact Option.some.inj hstep ▸ h.cancelAll [id]
  | take => exact h.take hstep
  | windowClosed => exact h.windowClosed hstep
  | replied reply =>
      exact h.replied hstep fun group active batch => hreplies reply group active batch rfl
  | patch dynamicBatching limits =>
      simp only [step] at hstep
      split at hstep
      · rename_i hlimits
        refine Sound.reconfigure (s := { s with dynamicBatching, limits }) ?_ hstep
        exact ⟨hlimits, h.nodup, h.submitted, h.scored, h.fresh, h.located⟩
      · cases hstep
  | close => exact h.close hstep
  | workerCancelled =>
      rw [workerCancelled_eq hstep]
      exact h.idle (.inr (.inr rfl)) s.closing
  | closeReturn =>
      rw [(closeReturn_eq hstep).2]
      exact h.drain.idle (.inl rfl) false

/-- **Every reachable batcher is sound**, whatever the interleaving. -/
theorem reaches_sound (hreach : Reaches step Initial (SoundReplies R) s) : s.Sound R :=
  hreach.invariant (fun _ h => h.sound) fun _ a _ h hreplies hstep =>
    step_sound a h hreplies hstep

/-! ### Where the pending jobs are -/

/-- A step that makes no job pending, and leaves every pending job in a place, keeps the account. -/
theorem Accounted.keep (h : s.Accounted) (hsubmitted : s'.submitted = s.submitted)
    (hpending : ∀ id < s.submitted, (s'.jobs id).future = .pending → (s.jobs id).future = .pending)
    (hplace : ∀ id ∈ s.queue ++ s.held, (s'.jobs id).future = .pending →
      id ∈ s'.queue ++ s'.held) : s'.Accounted := by
  intro id hid hstill
  rw [hsubmitted] at hid
  exact hplace id (h id hid (hpending id hid hstill)) hstill

theorem held_eq_nil (h : s.worker = none) : s.held = [] := by
  simp [held, h]

theorem Accounted.started (h : s.Accounted) (hnone : s.worker = none) :
    { s with worker := some .waiting }.Accounted :=
  h.keep rfl (fun _ _ hpending => hpending) fun id hid _ => by
    simpa [held_eq_nil hnone] using List.mem_append_left _ hid

theorem Accounted.start (h : s.Accounted) : s.start.Accounted := by
  rcases start_cases s with heq | ⟨hnone, heq⟩
  · rwa [heq]
  · rw [heq]
    exact h.started hnone

/-- After the queue is drained, the pending jobs are those in the hands of the worker. -/
theorem Accounted.drain (h : s.Accounted) (hheld : ∀ id ∈ s.held, (s.jobs id).future ≠ .pending) :
    s.drain.AllSettled := by
  intro id hid hstill
  obtain ⟨hqueue, hpending⟩ := pending_of_cancelAll hstill
  rcases List.mem_append.mp (h id hid hpending) with hmem | hmem
  · exact hqueue hmem
  · exact hheld id hmem hpending

theorem AllSettled.accounted (h : s.AllSettled) : s.Accounted := fun id hid hpending =>
  absurd hpending (h id hid)

theorem Accounted.close (h : s.Accounted) (hclose : s.close = some s') :
    s'.Accounted ∧ (s.worker = none → s'.AllSettled) := by
  rcases close_cases hclose with ⟨hnone, rfl⟩ | ⟨-, hsome, rfl⟩
  · have hsettled := h.drain (by simp [held_eq_nil hnone])
    exact ⟨hsettled.accounted, fun _ => hsettled⟩
  · exact ⟨h, fun hnone => by simp [hnone] at hsome⟩

theorem Accounted.reconfigure (h : s.Accounted) (hreconfigure : s.reconfigure = some s') :
    s'.Accounted := by
  cases reconfigure_cases hreconfigure with
  | started hon hnone => exact h.started hnone
  | closing hoff hopen hsome => exact h
  | kept hstaffed => exact h

theorem Accounted.predict (h : s.Accounted) (pairs : List Pair) : (s.predict pairs).1.Accounted := by
  rcases predict_cases s pairs with heq | heq
  · rwa [heq]
  rw [heq]
  intro id hid hpending
  rcases Nat.lt_succ_iff_lt_or_eq.mp hid with hid | rfl
  · simp only [enqueue, Function.update_of_ne hid.ne] at hpending
    have := h id hid hpending
    simp only [enqueue, held, List.mem_append] at this ⊢
    tauto
  · exact List.mem_append_left _ (List.mem_append_right _ (List.mem_singleton_self _))

/-- What the worker holds after `_process` was entered or resumed covers what is pending. -/
theorem Accounted.process (h : s.Accounted) {jobs : Jobs σ} {process : Process}
    (hpending : ∀ id, (jobs id).future = .pending → (s.jobs id).future = .pending)
    (hlocated : process.Located jobs s.held) :
    { s with jobs, worker := some (process.worker s.held) }.Accounted := by
  refine h.keep rfl (fun id _ => hpending id) fun id hid hstill => ?_
  rcases List.mem_append.mp hid with hid | hid
  · exact List.mem_append_left _ hid
  · cases process with
    | predicting active batch => exact List.mem_append_right _ hid
    | returned => exact absurd hstill (hlocated id hid)

/-- The cancellation of a worker finds no pending job in its hands. -/
def CancelsIdle (s : DynamicBatcher σ) (a : Action σ) : Prop :=
  a = .workerCancelled → ∀ id ∈ s.held, (s.jobs id).future ≠ .pending

theorem step_accounted (a : Action σ) (hsound : s.Sound R) (hreplies : SoundReplies R s a)
    (h : s.Accounted) (hidle : CancelsIdle s a) (hstep : s.step a = some s') :
    s'.Accounted ∧ (s.closeReturns a → s'.AllSettled) := by
  cases a with
  | start => exact ⟨Option.some.inj hstep ▸ h.start, False.elim⟩
  | predict pairs =>
      simp only [step] at hstep
      split at hstep
      · cases hstep
      · exact ⟨Option.some.inj hstep ▸ h.predict pairs, False.elim⟩
  | cancelJob id =>
      cases hstep
      exact ⟨h.keep rfl (fun _ _ hpending => (pending_of_cancelAll hpending).2)
        fun _ hid _ => hid, False.elim⟩
  | take =>
      obtain ⟨-, -, id, rest, hqueue, hheld, rfl⟩ := take_cases hstep
      refine ⟨h.keep rfl (fun _ _ hpending => hpending) fun other hother _ => ?_, False.elim⟩
      rw [hqueue, hheld] at hother
      simp only [held, Option.elim_some, Worker.held, List.mem_append, List.mem_cons] at hother ⊢
      tauto
  | windowClosed =>
      obtain ⟨-, -, hheld, rfl⟩ := windowClosed_cases hstep
      have hstart : Invariant R s.jobs s.held (startProcess s.limits s.jobs s.held) :=
        startProcess_invariant hsound.limits fun id hid =>
          hsound.fresh id (List.mem_append_right _ (hheld ▸ hid))
      rw [← hheld]
      exact ⟨h.process (fun _ hpending => hpending) hstart.located, False.elim⟩
  | replied reply =>
      obtain ⟨-, active, batch, hworker, rfl⟩ := replied_cases hstep
      have hreply := hreplies reply _ _ _ rfl hworker
      have hlocated := hsound.located _ _ _ hworker
      have hnodup := (List.nodup_append.mp hsound.nodup).2.1
      have hanswer := resume_job s.limits hnodup hlocated hreply
      refine ⟨h.process (fun id hpending => (hanswer id).pending hpending)
        (resume_located hsound.limits hnodup ⟨fun id hid => ?_, hlocated⟩ hreply), False.elim⟩
      exact hsound.scored id (hsound.submitted id (List.mem_append_right _ hid))
  | patch dynamicBatching limits =>
      simp only [step] at hstep
      split at hstep
      · exact ⟨Accounted.reconfigure (s := { s with dynamicBatching, limits }) h hstep, False.elim⟩
      · cases hstep
  | close => exact h.close hstep
  | workerCancelled =>
      rw [workerCancelled_eq hstep]
      refine ⟨h.keep rfl (fun _ _ hpending => hpending) fun id hid hstill => ?_, False.elim⟩
      rcases List.mem_append.mp hid with hid | hid
      · exact List.mem_append_left _ hid
      · exact absurd hstill (hidle rfl id hid)
  | closeReturn =>
      obtain ⟨hworker, rfl⟩ := closeReturn_eq hstep
      have hsettled := h.drain (by simp [held, hworker, Worker.held])
      exact ⟨AllSettled.accounted hsettled, fun _ => hsettled⟩

theorem soundReplies_true (s : DynamicBatcher σ) (a : Action σ) :
    SoundReplies (fun _ _ => True) s a := by
  intro reply _ _ batch _ _ values hcheck
  have hlength : values.length = batch.combined.length := by
    unfold Reply.check at hcheck
    grind
  exact List.forall₂_iff_zip.mpr ⟨hlength.symm, fun _ => trivial⟩

/-- **No accepted job is abandoned** in the runs whose workers are cancelled only while they hold no
pending job: whenever `close()` returns, every job that was ever put in the queue is settled. -/
theorem close_settles (hreach : Reaches step Initial CancelsIdle s) {a : Action σ}
    (hidle : CancelsIdle s a) (hstep : s.step a = some s') (hreturns : s.closeReturns a) :
    s'.AllSettled := by
  have hboth : ∀ t : DynamicBatcher σ, Reaches step Initial CancelsIdle t →
      t.Sound (fun _ _ => True) := fun t ht =>
    reaches_sound (ht.mono fun u b _ => soundReplies_true u b)
  have haccounted : s.Accounted :=
    hreach.invariant_of hboth (fun _ h => h.accounted) fun t b t' hsound h hb ht =>
      (step_accounted b hsound (soundReplies_true t b) h hb ht).1
  exact (step_accounted a (hboth s hreach) (soundReplies_true s a) haccounted hidle hstep).2
    hreturns

def defaultBatcher : DynamicBatcher Nat := new {}

theorem initial_defaultBatcher : Initial defaultBatcher := ⟨{}, by decide, rfl⟩

def onePair : List Pair := [(['q'], ['d'])]

theorem close_settles_queued_job : ∃ s : DynamicBatcher Nat,
    run step defaultBatcher [.start, .predict onePair, .close, .workerCancelled, .closeReturn] =
      some s ∧ s.submitted = 1 ∧ s.AllSettled := by
  have hstart : Reaches step Initial CancelsIdle defaultBatcher := .start initial_defaultBatcher
  have hworker := hstart.next (a := .start) (fun h => nomatch h) rfl
  have hqueued := hworker.next (a := .predict onePair) (fun h => nomatch h) rfl
  have hclosing := hqueued.next (a := .close) (fun h => nomatch h) rfl
  have hstopped := hclosing.next (a := .workerCancelled) (fun _ id hid => nomatch hid) rfl
  exact ⟨_, rfl, rfl,
    close_settles hstopped (a := .closeReturn) (fun h => nomatch h) rfl trivial⟩

/-- The worker is cancelled while it awaits the predictor: the job in its hands is in no queue any
more, and stays pending. -/
theorem close_abandons_batch : ¬∀ s s' : DynamicBatcher Nat, ∀ a : Action Nat,
    Reachable step Initial s → s.step a = some s' → s.closeReturns a → s'.AllSettled := by
  intro hclaim
  have hrun : run step defaultBatcher
      [.start, .predict onePair, .take, .windowClosed, .close, .workerCancelled] = some _ := rfl
  have hreach : Reachable step Initial _ := reachable_of_run initial_defaultBatcher hrun
  exact hclaim _ _ .closeReturn hreach rfl trivial 0 (by decide) rfl

end DynamicBatcher

end RerankerService
