import Mathlib.Data.List.Basic
import RerankerService.Batching.Switch
import RerankerService.Proof.Worker

/-!
# The worker matches the setting

Whatever overlaps, the worker is awaited by a `close()` while batching is off. The other half, that
there is a worker while batching is on, is lost when a `close()` returns after batching was switched
on again.
-/

namespace RerankerService

open Transition

namespace DynamicBatcher

namespace Switch

variable {s s' : Switch}

/-- A live worker task exists exactly when the setting says so, and `predict` finds it. -/
structure Matches (s : Switch) : Prop where
  live : (∃ task, s.Live task) ↔ s.dynamicBatching = true
  predict : s.predictRaises = false

/-- Batching is off whenever a `close()` returns. -/
def ClosesOff (s : Switch) : Action → Prop
  | .closeReturned _ => s.dynamicBatching = false
  | _ => True

/-- Tasks are created before they are used, and a worker that has ended is awaited by a `close()`. -/
structure Known (s : Switch) : Prop where
  worker : ∀ task, s.worker = some task → task < s.tasks
  closing : ∀ task ∈ s.closing, task < s.tasks
  ended : ∀ task ∈ s.ended, task < s.tasks
  awaited : ∀ task, s.worker = some task → task ∈ s.ended → task ∈ s.closing

/-- What no interleaving breaks: while batching is off, the worker is awaited by a `close()`. -/
structure Sound (s : Switch) : Prop extends Known s where
  off : s.dynamicBatching = false → ∀ task, s.worker = some task → task ∈ s.closing

/-- What a returning `close()` may break: a live task is the worker or being closed, and batching
that is on has a worker. -/
structure Staffed (s : Switch) : Prop where
  live : ∀ task, s.Live task → s.worker = some task ∨ task ∈ s.closing
  worker : s.dynamicBatching = true → s.worker.isSome

/-! ### What a call does -/

/-- What `start()` or `reconfigure()` does up to its suspension or return, after a patch has set the
flag of `s`. -/
inductive Turns (s : Switch) : Switch → Prop where
  | started (hon : s.dynamicBatching = true) (hnone : s.worker = none) :
      Turns s { s with worker := some s.tasks, tasks := s.tasks + 1 }
  | closed {task : TaskId} (hoff : s.dynamicBatching = false) (hworker : s.worker = some task)
      (hended : task ∈ s.ended) : Turns s { s with worker := none }
  | closing {task : TaskId} (hoff : s.dynamicBatching = false) (hworker : s.worker = some task)
      (hlive : task ∉ s.ended) : Turns s { s with closing := s.closing ++ [task] }
  | kept (hstaffed : s.dynamicBatching = s.worker.isSome) : Turns s s

theorem start_turns (hon : s.dynamicBatching = true) (hnone : s.worker = none) :
    s.Turns s.start := by
  have hstart : s.start = { s with worker := some s.tasks, tasks := s.tasks + 1 } :=
    if_pos ⟨hon, Option.isNone_iff_eq_none.mpr hnone⟩
  rw [hstart]
  exact .started hon hnone

theorem start_cases (s : Switch) : s.start = s ∨ s.Turns s.start := by
  by_cases h : s.dynamicBatching = true ∧ s.worker = none
  · exact .inr (start_turns h.1 h.2)
  · rw [← Option.isNone_iff_eq_none] at h
    exact .inl (if_neg h)

theorem close_turns (hoff : s.dynamicBatching = false) : s.Turns s.close := by
  unfold close
  split
  · rename_i hworker
    exact .kept (by simp [hoff, hworker])
  · rename_i task hworker
    split
    · rename_i hended
      exact .closed hoff hworker hended
    · rename_i hlive
      exact .closing hoff hworker hlive

theorem reconfigure_turns (s : Switch) : s.Turns s.reconfigure := by
  unfold reconfigure
  split
  · rename_i h
    exact start_turns h.1 (Option.isNone_iff_eq_none.mp h.2)
  · rename_i hstart
    split
    · rename_i hclose
      exact close_turns hclose.1
    · rename_i hclose
      refine .kept ?_
      cases hon : s.dynamicBatching with
      | true =>
          cases hworker : s.worker with
          | none => exact absurd ⟨hon, by rw [hworker]; rfl⟩ hstart
          | some task => rfl
      | false =>
          cases hworker : s.worker with
          | none => rfl
          | some task => exact absurd ⟨hon, by rw [hworker]; rfl⟩ hclose

/-! ### The invariants -/

theorem Known.turns (h : s.Known) (hturns : s.Turns s') : s'.Sound := by
  cases hturns with
  | started hon hnone =>
      refine ⟨⟨?_, ?_, ?_, ?_⟩, ?_⟩
      · rintro task ⟨⟩
        exact Nat.lt_succ_self _
      · exact fun task htask => (h.closing task htask).trans (Nat.lt_succ_self _)
      · exact fun task htask => (h.ended task htask).trans (Nat.lt_succ_self _)
      · rintro task ⟨⟩ hended
        exact absurd (h.ended _ hended) (lt_irrefl _)
      · exact fun hoff => by cases hon.symm.trans hoff
  | closed hoff hworker hended =>
      exact { h with
        worker := fun _ hnone => by cases hnone
        awaited := fun _ hnone => by cases hnone
        off := fun _ _ hnone => by cases hnone }
  | @closing task hoff hworker hlive =>
      have hmem : ∀ other, s.worker = some other → other ∈ s.closing ++ [task] := by
        intro other hother
        obtain rfl : task = other := Option.some.inj (hworker.symm.trans hother)
        exact List.mem_append_right _ List.mem_cons_self
      refine ⟨{ h with closing := fun other hother => ?_, awaited := fun other hother _ => ?_ },
        fun _ => hmem⟩
      · rcases List.mem_append.mp hother with hold | hnew
        · exact h.closing other hold
        · obtain rfl := List.mem_singleton.mp hnew
          exact h.worker other hworker
      · exact hmem other hother
  | kept hstaffed =>
      refine ⟨h, fun hoff task htask => ?_⟩
      rw [hoff, htask] at hstaffed
      cases hstaffed

theorem Sound.step {a : Action} (h : s.Sound) (hstep : s.step a = some s') : s'.Sound := by
  cases a with
  | start =>
      cases hstep
      rcases start_cases s with heq | hturns
      · rwa [heq]
      · exact h.toKnown.turns hturns
  | reconfigure =>
      cases hstep
      exact h.toKnown.turns (reconfigure_turns s)
  | patch dynamicBatching =>
      cases hstep
      have hknown : { s with dynamicBatching }.Known := { h with }
      exact hknown.turns (reconfigure_turns _)
  | workerEnded task =>
      simp only [Switch.step, workerEnded] at hstep
      split at hstep
      · rename_i hclosing
        cases hstep
        refine ⟨{ h with ended := fun other hother => ?_, awaited := fun other hother hended => ?_ },
          h.off⟩
        · rcases List.mem_cons.mp hother with rfl | hold
          · exact h.closing other hclosing.1
          · exact h.ended other hold
        · rcases List.mem_cons.mp hended with rfl | hold
          · exact hclosing.1
          · exact h.awaited other hother hold
      · cases hstep
  | closeReturned task =>
      simp only [Switch.step, closeReturned] at hstep
      split at hstep
      · cases hstep
        exact { h with
          worker := fun _ hnone => by cases hnone
          closing := fun other hother => h.closing other (List.mem_of_mem_erase hother)
          awaited := fun _ hnone => by cases hnone
          off := fun _ _ hnone => by cases hnone }
      · cases hstep

theorem Staffed.turns
    (hlive : ∀ task, s.Live task → s.worker = some task ∨ task ∈ s.closing) (hturns : s.Turns s') :
    s'.Staffed := by
  cases hturns with
  | started hon hnone =>
      refine ⟨fun task htask => ?_, fun _ => rfl⟩
      rcases Nat.lt_succ_iff_lt_or_eq.mp htask.1 with hlt | rfl
      · rcases hlive task ⟨hlt, htask.2⟩ with hworker | hclosing
        · cases hnone.symm.trans hworker
        · exact .inr hclosing
      · exact .inl rfl
  | @closed task hoff hworker hended =>
      refine ⟨fun other hother => ?_, fun hon => by cases hoff.symm.trans hon⟩
      rcases hlive other hother with hsame | hclosing
      · obtain rfl : task = other := Option.some.inj (hworker.symm.trans hsame)
        exact absurd hended hother.2
      · exact .inr hclosing
  | closing hoff hworker hrunning =>
      refine ⟨fun other hother => ?_, fun hon => by cases hoff.symm.trans hon⟩
      exact (hlive other hother).imp_right (List.mem_append_left _)
  | kept hstaffed => exact ⟨hlive, fun hon => hstaffed ▸ hon⟩

theorem Staffed.step {a : Action} (h : s.Staffed) (hsound : s.Sound) (hcloses : s.ClosesOff a)
    (hstep : s.step a = some s') : s'.Staffed := by
  cases a with
  | start =>
      cases hstep
      rcases start_cases s with heq | hturns
      · rwa [heq]
      · exact .turns h.live hturns
  | reconfigure =>
      cases hstep
      exact .turns h.live (reconfigure_turns s)
  | patch dynamicBatching =>
      cases hstep
      exact .turns (s := { s with dynamicBatching }) h.live (reconfigure_turns _)
  | workerEnded task =>
      simp only [Switch.step, workerEnded] at hstep
      split at hstep
      · cases hstep
        refine ⟨fun other hother => ?_, h.worker⟩
        exact h.live other ⟨hother.1, fun hended => hother.2 (List.mem_cons_of_mem _ hended)⟩
      · cases hstep
  | closeReturned task =>
      have hoff : s.dynamicBatching = false := hcloses
      simp only [Switch.step, closeReturned] at hstep
      split at hstep
      · rename_i hclosing
        cases hstep
        refine ⟨fun other hother => .inr ?_, fun hon => by cases hoff.symm.trans hon⟩
        have hmem : other ∈ s.closing := (h.live other hother).elim (hsound.off hoff other) id
        have hne : other ≠ task := by
          rintro rfl
          exact hother.2 hclosing.2
        exact (List.mem_erase_of_ne hne).mpr hmem
      · cases hstep

/-! ### Quiet states -/

theorem matches_of_staffed (hsound : s.Sound) (hstaffed : s.Staffed) (hquiet : s.closing = []) :
    s.Matches where
  live := by
    constructor
    · rintro ⟨task, hlive⟩
      by_contra hoff
      rw [Bool.not_eq_true] at hoff
      have hmem := (hstaffed.live task hlive).elim (hsound.off hoff task) id
      simp [hquiet] at hmem
    · intro hon
      obtain ⟨task, hworker⟩ := Option.isSome_iff_exists.mp (hstaffed.worker hon)
      refine ⟨task, hsound.worker task hworker, fun hended => ?_⟩
      have hmem := hsound.awaited task hworker hended
      simp [hquiet] at hmem
  predict := by
    unfold predictRaises
    cases hon : s.dynamicBatching with
    | false => rfl
    | true => rw [Option.isNone_eq_false_iff.mpr (hstaffed.worker hon), Bool.and_false]

/-- A `close()` that returns while batching is on leaves it without a worker. -/
theorem closesOff_of_matches {a : Action} (h : s'.Matches) (hstep : s.step a = some s') :
    s.ClosesOff a := by
  cases a with
  | closeReturned task =>
      simp only [Switch.step, closeReturned] at hstep
      split at hstep
      · cases hstep
        simpa [predictRaises, ClosesOff] using h.predict
      · cases hstep
  | _ => trivial

theorem Initial.sound (h : Initial s) : s.Sound ∧ s.Staffed := by
  obtain ⟨dynamicBatching, rfl⟩ := h
  have hknown : { dynamicBatching : Switch }.Known := by
    constructor <;> simp
  have hlive (task : TaskId) : ¬{ dynamicBatching : Switch }.Live task :=
    fun h => Nat.not_lt_zero task h.1
  cases dynamicBatching with
  | false =>
      refine ⟨⟨hknown, fun _ task hnone => by cases hnone⟩, ?_, fun hon => by cases hon⟩
      exact fun task htask => absurd htask (hlive task)
  | true =>
      have hturns := start_turns (s := { dynamicBatching := true }) rfl rfl
      exact ⟨hknown.turns hturns, .turns (fun task htask => absurd htask (hlive task)) hturns⟩

theorem staffed_of_reaches (hreach : Reaches step Initial ClosesOff s) : s.Sound ∧ s.Staffed :=
  hreach.invariant (I := fun t => t.Sound ∧ t.Staffed) (fun _ h => h.sound)
    fun _ _ _ h hcloses hstep => ⟨h.1.step hstep, h.2.step h.1 hcloses hstep⟩

/-- **The worker matches the setting** whenever no `close()` is in progress, in the runs in which
batching is off whenever a `close()` returns; one that returns while batching is on breaks it. -/
theorem worker_matches (hreach : Reaches step Initial ClosesOff s) :
    (s.closing = [] → s.Matches) ∧
      ∀ a s', s.step a = some s' → s'.closing = [] → (s'.Matches ↔ s.ClosesOff a) := by
  obtain ⟨hsound, hstaffed⟩ := staffed_of_reaches hreach
  refine ⟨matches_of_staffed hsound hstaffed, fun a s' hstep hquiet => ⟨fun h => ?_, fun h => ?_⟩⟩
  · exact closesOff_of_matches h hstep
  · exact matches_of_staffed (hsound.step hstep) (hstaffed.step hsound h hstep) hquiet

/-- Batching is switched off and, after the `close()` has returned, on again. -/
theorem worker_matches_restarted : ∃ s,
    run step ({ dynamicBatching := true : Switch }.start)
      [.patch false, .workerEnded 0, .closeReturned 0, .patch true] = some s ∧
      s.worker = some 1 ∧ s.Matches := by
  have hstart : Reaches step Initial ClosesOff { dynamicBatching := true : Switch }.start :=
    .start ⟨true, rfl⟩
  have hoff := hstart.next (a := .patch false) (by trivial) rfl
  have hended := hoff.next (a := .workerEnded 0) (by trivial) rfl
  have hclosed := hended.next (a := .closeReturned 0) (by rfl) rfl
  have hon := hclosed.next (a := .patch true) (by trivial) rfl
  exact ⟨_, rfl, rfl, (worker_matches hon).1 rfl⟩

/-- A second patch switches batching on while the `close()` of the first awaits the worker. -/
theorem switched_on_while_closing : ¬∀ s, Reachable step Initial s → s.closing = [] → s.Matches := by
  intro hclaim
  have hrun : run step ({ dynamicBatching := true : Switch }.start)
      [.patch false, .patch true, .workerEnded 0, .closeReturned 0] = some (_ : Switch) := rfl
  have hpredict := (hclaim _ (reachable_of_run ⟨true, rfl⟩ hrun) rfl).predict
  cases hpredict

end Switch

/-! ### The batcher with its queue

With at most one `close()` in progress the batcher moves like the switch. -/

variable {σ : Type} {d d' : DynamicBatcher σ} {s : Switch}

/-- The batcher seen as a switch: its worker is the worker of the switch, and the `close()` in
progress awaits it. -/
structure Switched (d : DynamicBatcher σ) (s : Switch) : Prop where
  flag : s.dynamicBatching = d.dynamicBatching
  worker : s.worker.isSome = d.worker.isSome
  ended : ∀ task, s.worker = some task → (task ∈ s.ended ↔ d.worker = some .stopped)
  closing : s.closing = if d.closing then s.worker.toList else []
  running : d.closing = false → d.worker ≠ some .stopped
  closed : d.closing = true → d.worker.isSome

theorem worker_ne_stopped (group : List JobId) (process : Process) :
    process.worker group ≠ .stopped := by
  cases process <;> simp [Process.worker]

theorem Switched.isNone_eq (h : Switched d s) : s.worker.isNone = d.worker.isNone := by
  rw [← Option.not_isSome, ← Option.not_isSome, h.worker]

theorem Switched.opened (h : Switched d s) (hnone : d.worker.isNone) : d.closing = false := by
  by_contra hclosing
  rw [Bool.not_eq_false] at hclosing
  have hsome := h.closed hclosing
  rw [← Option.not_isNone, hnone] at hsome
  cases hsome

theorem Switched.congr (h : Switched d s) (hflag : d'.dynamicBatching = d.dynamicBatching)
    (hworker : d'.worker = d.worker) (hclosing : d'.closing = d.closing) : Switched d' s := by
  constructor
  · rw [hflag, h.flag]
  · rw [hworker, h.worker]
  · rw [hworker]
    exact h.ended
  · rw [hclosing, h.closing]
  · rw [hclosing, hworker]
    exact h.running
  · rw [hclosing, hworker]
    exact h.closed

theorem Switched.works (h : Switched d s) (hclosing : d.closing = false) (hworker : d.worker.isSome)
    {worker : Worker} (hrunning : worker ≠ .stopped)
    (hflag : d'.dynamicBatching = d.dynamicBatching) (hsame : d'.closing = d.closing)
    (hnew : d'.worker = some worker) : Switched d' s := by
  have hbefore := h.running hclosing
  refine ⟨h.flag.trans hflag.symm, ?_, fun task htask => ?_, ?_, fun _ => ?_, fun hc => ?_⟩
  · rw [h.worker, hworker, hnew, Option.isSome_some]
  · simp [h.ended task htask, hbefore, hnew, hrunning]
  · rw [h.closing, hsame]
  · simp [hnew, hrunning]
  · cases (hsame.trans hclosing).symm.trans hc

theorem Switched.started (h : Switched d s) (hsound : s.Known) (hnone : d.worker = none) :
    Switched { d with worker := some .waiting } { s with worker := some s.tasks, tasks := s.tasks + 1 }
    := by
  have hopen := h.opened (Option.isNone_iff_eq_none.mpr hnone)
  refine ⟨h.flag, rfl, fun task htask => ?_, ?_, fun _ => by simp, fun _ => rfl⟩
  · obtain rfl : s.tasks = task := Option.some.inj htask
    refine iff_of_false (fun hended => ?_) (by simp)
    exact absurd (hsound.ended _ hended) (lt_irrefl _)
  · simp [h.closing, hopen]

theorem Switched.start (h : Switched d s) (hsound : s.Known) : Switched d.start s.start := by
  have hsame : (s.dynamicBatching = true ∧ s.worker.isNone) ↔
      d.dynamicBatching = true ∧ d.worker.isNone := by
    rw [h.flag, h.isNone_eq]
  unfold DynamicBatcher.start Switch.start
  by_cases hstart : d.dynamicBatching = true ∧ d.worker.isNone
  · rw [if_pos hstart, if_pos (hsame.mpr hstart)]
    exact h.started hsound (Option.isNone_iff_eq_none.mp hstart.2)
  · rw [if_neg hstart, if_neg (hsame.not.mpr hstart)]
    exact h

theorem Switched.close (h : Switched d s) (hopen : d.closing = false)
    (hsome : d.worker.isSome) : Switched { d with closing := true } s.close := by
  obtain ⟨task, hworker⟩ := Option.isSome_iff_exists.mp (h.worker.trans hsome)
  have hlive : task ∉ s.ended := fun hended => h.running hopen ((h.ended task hworker).mp hended)
  simp only [Switch.close, hworker, if_neg hlive]
  refine ⟨h.flag, hworker ▸ h.worker, hworker ▸ h.ended, ?_, fun hfalse => (by cases hfalse),
    fun _ => hsome⟩
  simp [h.closing, hopen]

theorem Switched.reconfigure (h : Switched d s) (hsound : s.Known)
    (hstep : d.reconfigure = some d') : Switched d' s.reconfigure := by
  unfold Switch.reconfigure
  rw [h.flag, h.isNone_eq, h.worker]
  cases reconfigure_cases hstep with
  | started hon hnone =>
      rw [if_pos ⟨hon, Option.isNone_iff_eq_none.mpr hnone⟩]
      have hstart : s.dynamicBatching = true ∧ s.worker.isNone :=
        ⟨h.flag.trans hon, h.isNone_eq.trans (Option.isNone_iff_eq_none.mpr hnone)⟩
      rw [Switch.start, if_pos hstart]
      exact h.started hsound hnone
  | closing hoff hopen hsome =>
      rw [if_neg (by simp [hoff]), if_pos ⟨hoff, hsome⟩]
      exact h.close hopen hsome
  | kept hstaffed =>
      rw [hstaffed, if_neg, if_neg]
      · exact h
      · simp
      · simp [Option.isSome_iff_ne_none]

theorem Switched.workerCancelled (h : Switched d s) (hstep : d.workerCancelled = some d') :
    ∃ task s', s.workerEnded task = some s' ∧ Switched d' s' := by
  unfold DynamicBatcher.workerCancelled at hstep
  split at hstep
  · rename_i hclosing
    obtain ⟨task, hworker⟩ := Option.isSome_iff_exists.mp (h.worker.trans (h.closed hclosing))
    have hawaited : s.closing = [task] := by
      rw [h.closing, hclosing, hworker]
      rfl
    split at hstep
    · cases hstep
    · cases hstep
    · rename_i hrunning hsome
      cases hstep
      have hlive : task ∉ s.ended := by
        intro hended
        have hstopped := (h.ended task hworker).mp hended
        exact hrunning (Option.some.inj (hsome.symm.trans hstopped))
      refine ⟨task, _, if_pos ⟨by simp [hawaited], hlive⟩, h.flag, ?_, fun other hother => ?_,
        h.closing, fun hopen => ?_, fun _ => rfl⟩
      · rw [hworker]
        rfl
      · obtain rfl : task = other := Option.some.inj (hworker.symm.trans hother)
        exact iff_of_true List.mem_cons_self rfl
      · cases hclosing.symm.trans hopen
  · cases hstep

theorem Switched.closeReturn (h : Switched d s) (hstep : d.closeReturn = some d') :
    ∃ task s', s.closeReturned task = some s' ∧ Switched d' s' := by
  unfold DynamicBatcher.closeReturn at hstep
  split at hstep
  · rename_i hstopped
    cases hstep
    have hsome : s.worker.isSome := by rw [h.worker, hstopped, Option.isSome_some]
    obtain ⟨task, hworker⟩ := Option.isSome_iff_exists.mp hsome
    have hclosing : d.closing = true := by
      by_contra hopen
      exact h.running (Bool.eq_false_iff.mpr hopen) hstopped
    have hawaited : s.closing = [task] := by
      rw [h.closing, hclosing, hworker]
      rfl
    refine ⟨task, _, if_pos ⟨by simp [hawaited], (h.ended task hworker).mpr hstopped⟩,
      h.flag, rfl, fun _ hnone => (by cases hnone), ?_, fun _ => by simp, fun hfalse => ?_⟩
    · simp [hawaited]
    · cases hfalse
  · cases hstep

theorem Switched.predict (h : Switched d s) (pairs : List Pair) :
    Switched (d.predict pairs).1 s := by
  rcases predict_cases d pairs with heq | heq
  · rwa [heq]
  · rw [heq]
    exact h.congr rfl rfl rfl

/-- No shutdown, and batching is off whenever a `close()` returns. -/
def ClosesOff (d : DynamicBatcher σ) : Action σ → Prop
  | .close => False
  | .closeReturn => d.dynamicBatching = false
  | _ => True

/-- A step of the batcher is a step of the switch, or none. -/
theorem Switched.step {a : Action σ} (h : Switched d s) (hsound : s.Known) (hcloses : d.ClosesOff a)
    (hstep : d.step a = some d') :
    ∃ s', Switched d' s' ∧ (s' = s ∨ ∃ b, s.ClosesOff b ∧ s.step b = some s') := by
  cases a with
  | start =>
      cases hstep
      exact ⟨s.start, h.start hsound, .inr ⟨.start, trivial, rfl⟩⟩
  | predict pairs =>
      simp only [DynamicBatcher.step] at hstep
      split at hstep
      · cases hstep
      · cases hstep
        exact ⟨s, h.predict pairs, .inl rfl⟩
  | cancelJob id =>
      cases hstep
      exact ⟨s, h.congr rfl rfl rfl, .inl rfl⟩
  | take =>
      obtain ⟨hopen, hworker, id, rest, -, -, rfl⟩ := take_cases hstep
      exact ⟨s, h.works hopen hworker (by simp) rfl rfl rfl, .inl rfl⟩
  | windowClosed =>
      obtain ⟨hopen, hworker, -, rfl⟩ := windowClosed_cases hstep
      exact ⟨s, h.works hopen hworker (worker_ne_stopped _ _) rfl rfl rfl, .inl rfl⟩
  | replied reply =>
      obtain ⟨hopen, active, batch, hworker, rfl⟩ := replied_cases hstep
      have hsome : d.worker.isSome := by rw [hworker, Option.isSome_some]
      exact ⟨s, h.works hopen hsome (worker_ne_stopped _ _) rfl rfl rfl, .inl rfl⟩
  | patch dynamicBatching limits =>
      simp only [DynamicBatcher.step] at hstep
      split at hstep
      · have hpatched : Switched { d with dynamicBatching, limits } { s with dynamicBatching } :=
          { h with flag := rfl }
        exact ⟨_, hpatched.reconfigure { hsound with } hstep,
          .inr ⟨.patch dynamicBatching, trivial, rfl⟩⟩
      · cases hstep
  | close => exact hcloses.elim
  | workerCancelled =>
      obtain ⟨task, s', hended, hswitched⟩ := h.workerCancelled hstep
      exact ⟨s', hswitched, .inr ⟨.workerEnded task, trivial, hended⟩⟩
  | closeReturn =>
      obtain ⟨task, s', hreturned, hswitched⟩ := h.closeReturn hstep
      exact ⟨s', hswitched, .inr ⟨.closeReturned task, h.flag.trans hcloses, hreturned⟩⟩

/-- **Simulation**: a run of the batcher is a run of the switch. -/
theorem reaches_switched (hreach : Reaches DynamicBatcher.step
      (fun d : DynamicBatcher σ => ∃ settings : Settings, d = (new settings).start) ClosesOff d) :
    ∃ s, Reaches Switch.step Switch.Initial Switch.ClosesOff s ∧ Switched d s := by
  induction hreach with
  | start h =>
      obtain ⟨settings, rfl⟩ := h
      have hnew : Switched (new settings : DynamicBatcher σ)
          { dynamicBatching := settings.dynamicBatching } := by
        constructor <;> simp [new]
      exact ⟨_, .start ⟨settings.dynamicBatching, rfl⟩, hnew.start (by constructor <;> simp)⟩
  | next _ hcloses hstep ih =>
      obtain ⟨s, hs, hswitched⟩ := ih
      have hsound := (Switch.staffed_of_reaches hs).1
      obtain ⟨s', hswitched', rfl | ⟨b, hb, hmoves⟩⟩ :=
        hswitched.step hsound.toKnown hcloses hstep
      · exact ⟨s', hs, hswitched'⟩
      · exact ⟨s', hs.next hb hmoves, hswitched'⟩

/-- The batcher with its queue has a worker exactly while batching is on. -/
theorem worker_isSome_iff (hreach : Reaches DynamicBatcher.step
      (fun d : DynamicBatcher σ => ∃ settings : Settings, d = (new settings).start) ClosesOff d)
    (hquiet : d.closing = false) : d.worker.isSome ↔ d.dynamicBatching = true := by
  obtain ⟨s, hs, hswitched⟩ := reaches_switched hreach
  have hclosing : s.closing = [] := by simp [hswitched.closing, hquiet]
  obtain ⟨hsound, hstaffed⟩ := Switch.staffed_of_reaches hs
  rw [← hswitched.worker, ← hswitched.flag]
  refine ⟨fun hsome => ?_, hstaffed.worker⟩
  obtain ⟨task, hworker⟩ := Option.isSome_iff_exists.mp hsome
  by_contra hoff
  have hmem := hsound.off (Bool.eq_false_iff.mpr hoff) task hworker
  simp [hclosing] at hmem

end DynamicBatcher

end RerankerService
