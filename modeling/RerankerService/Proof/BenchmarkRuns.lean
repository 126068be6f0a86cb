import RerankerService.Proof.Benchmark

/-!
# Runs of the benchmark runner

What every step can do, in one inversion, and from it what holds over whole runs: a benchmark that
has ended stays as it is, at most one listed benchmark is the baseline, and a server that has shut
down without taking another request has no benchmark going on.
-/

namespace RerankerService.BenchmarkRunner

open Transition

variable {s s' t : BenchmarkRunner} {id : BenchmarkId} {a : Action}

/-! ### Removals -/

/-- A step of `delete` or `close()`: runs and tasks are taken out, cancellations requested. -/
structure Removes (s s' : BenchmarkRunner) : Prop where
  created : s'.created = s.created
  run : s'.run = s.run
  phase : s'.phase = s.phase
  runs : s'.runs ⊆ s.runs
  cancelling : s.cancelling ⊆ s'.cancelling

theorem Removes.refl (s : BenchmarkRunner) : s.Removes s :=
  ⟨rfl, rfl, rfl, List.Subset.refl _, List.Subset.refl _⟩

theorem Removes.trans (h : s.Removes s') (h' : s'.Removes t) : s.Removes t :=
  ⟨h'.created.trans h.created, h'.run.trans h.run, h'.phase.trans h.phase,
    List.Subset.trans h'.runs h.runs, List.Subset.trans h.cancelling h'.cancelling⟩

theorem Removes.frame (h : s.Removes s') (deleting : List BenchmarkId) (closing : Closing) :
    s.Removes { s' with deleting := deleting, closing := closing } :=
  ⟨h.created, h.run, h.phase, h.runs, h.cancelling⟩

theorem popTask_removes (s : BenchmarkRunner) (id : BenchmarkId) : s.Removes (s.popTask id).1 := by
  rw [popTask_eq]
  refine ⟨rfl, rfl, rfl, List.Subset.refl _, ?_⟩
  dsimp only
  split_ifs
  · exact List.subset_cons_self _ _
  · exact List.Subset.refl _

theorem popRun_removes (s : BenchmarkRunner) (id : BenchmarkId) : s.Removes (s.popRun id) := by
  unfold popRun
  split_ifs
  · exact ⟨rfl, rfl, rfl, List.erase_subset, List.Subset.refl _⟩
  · exact Removes.refl s

theorem closeLoop_removes (s : BenchmarkRunner) (ids : List BenchmarkId) :
    s.Removes (s.closeLoop ids) := by
  induction ids generalizing s with
  | nil => exact (Removes.refl s).frame _ _
  | cons id rest ih =>
      have hpop := s.popTask_removes id
      unfold closeLoop
      split
      · rename_i next hnext
        rw [hnext] at hpop
        exact hpop.frame _ _
      · rename_i next hnext
        rw [hnext] at hpop
        exact (hpop.trans (popRun_removes next id)).trans (ih _)

theorem delete_removes (s : BenchmarkRunner) (id : BenchmarkId) : s.Removes (s.delete id) := by
  have hpop := s.popTask_removes id
  unfold delete
  split
  · rename_i next hnext
    rw [hnext] at hpop
    exact hpop.frame _ _
  · rename_i next hnext
    rw [hnext] at hpop
    exact hpop.trans (popRun_removes next id)

/-- **Inversion**: what one step does. -/
theorem step_cases (hstep : s.step a = some s') :
    (∃ spec now, a.answer = none ∧ s' = s.start spec now) ∨
    (∃ id elapsed run phase events, a.answer = elapsed.map (id, ·) ∧
      Turn s id elapsed run phase events ∧ s' = s.advance id run phase events) ∨
    (∃ id, a.answer = none ∧ s.baseline id = .ok s') ∨
    a.answer = none ∧ s.Removes s' := by
  cases a with
  | create ready spec now =>
      exact .inl ⟨spec, now, rfl, createBenchmark_step hstep⟩
  | begin id now | answered id outcome now | woke id now | cancelled id now =>
      exact .inr (.inl ⟨id, task_cases rfl hstep⟩)
  | delete id => exact .inr (.inr (.inr ⟨rfl, Option.some.inj hstep ▸ s.delete_removes id⟩))
  | deleteResumed id =>
      refine .inr (.inr (.inr ⟨rfl, ?_⟩))
      simp only [step, deleteResumed] at hstep
      split_ifs at hstep
      rw [← Option.some.inj hstep]
      exact ((Removes.refl s).frame _ s.closing).trans (popRun_removes _ id)
  | baseline id => exact .inr (.inr (.inl ⟨id, rfl, baseline_step hstep⟩))
  | close =>
      refine .inr (.inr (.inr ⟨rfl, ?_⟩))
      simp only [step, close] at hstep
      split at hstep
      · exact Option.some.inj hstep ▸ s.closeLoop_removes s.tasks
      · cases hstep
  | closeResumed =>
      refine .inr (.inr (.inr ⟨rfl, ?_⟩))
      simp only [step, closeResumed] at hstep
      split at hstep
      · rename_i id rest hclosing
        split_ifs at hstep
        exact Option.some.inj hstep ▸ (s.popRun_removes id).trans (closeLoop_removes _ rest)
      · cases hstep

/-! ### What has ended -/

/-- The run and the task of a benchmark that has ended stay as they are, but for the mark of the
baseline; and it does not come back to the list. -/
structure Ended (s s' : BenchmarkRunner) (id : BenchmarkId) : Prop where
  created : s.created ≤ s'.created
  phase : s'.phase id = .ended
  run : ∃ baseline, s'.run id = { s.run id with baseline := baseline }
  runs : id ∈ s'.runs → id ∈ s.runs

theorem Ended.step (h : s.Sound) (hid : id < s.created) (hended : s.phase id = .ended)
    (hstep : s.step a = some s') : s.Ended s' id := by
  rcases step_cases hstep with ⟨spec, now, -, rfl⟩ | ⟨other, elapsed, run, phase, events, -,
    hturn, rfl⟩ | ⟨other, -, hbaseline⟩ | ⟨-, hremoves⟩
  · have hne : id ≠ s.created := Nat.ne_of_lt hid
    obtain ⟨hrun, hphase⟩ : (s.start spec now).run id = s.run id ∧
        (s.start spec now).phase id = s.phase id := start_of_ne hne
    refine ⟨Nat.le_succ _, hphase.trans hended, ⟨_, hrun⟩, fun hmem => ?_⟩
    exact (List.mem_append.mp hmem).resolve_right fun hnew => hne (List.mem_singleton.mp hnew)
  · -- the task that goes on is another one
    have hne : id ≠ other := by
      rintro rfl
      have hlive := (h.turns hturn).live
      rw [hended] at hlive
      cases hlive
    obtain ⟨hrun, hphase⟩ : (s.advance other run phase events).run id = s.run id ∧
        (s.advance other run phase events).phase id = s.phase id := advance_of_ne hne
    exact ⟨Nat.le_refl _, hphase.trans hended, ⟨_, hrun⟩, fun hmem => hmem⟩
  · obtain ⟨-, -, rfl⟩ := baseline_cases hbaseline
    refine ⟨Nat.le_refl _, hended, ?_, fun hmem => hmem⟩
    dsimp only [record]
    split_ifs
    · exact ⟨_, rfl⟩
    · exact ⟨(s.run id).baseline, rfl⟩
  · exact ⟨hremoves.created.ge, (congrFun hremoves.phase id).trans hended,
      ⟨_, congrFun hremoves.run id⟩, fun hmem => hremoves.runs hmem⟩

theorem ended_final (hreach : Reachable step Initial s) (hid : id < s.created)
    (hended : s.phase id = .ended) (hrest : Reachable step (· = s) s') : s.Ended s' id := by
  induction hrest with
  | start h =>
      obtain rfl := h
      exact ⟨Nat.le_refl _, hended, ⟨_, rfl⟩, fun hmem => hmem⟩
  | next hrest _ hstep ih =>
      have hsound := sound (hreach.trans hrest)
      have hnext := Ended.step hsound (hid.trans_le ih.created) ih.phase hstep
      obtain ⟨baseline, hrun⟩ := ih.run
      obtain ⟨baseline', hrun'⟩ := hnext.run
      exact ⟨ih.created.trans hnext.created, hnext.phase, ⟨baseline', hrun'.trans (by rw [hrun])⟩,
        fun hmem => ih.runs (hnext.runs hmem)⟩

/-! ### The baseline -/

/-- The baseline of the list is one completed benchmark, if there is one. -/
structure Based (s : BenchmarkRunner) : Prop where
  completed : ∀ id < s.created, (s.run id).baseline = true → (s.run id).status = .completed
  unique : ∀ id ∈ s.runs, ∀ other ∈ s.runs, (s.run id).baseline = true →
    (s.run other).baseline = true → id = other

theorem Based.step (hsound : s.Sound) (h : s.Based) (hstep : s.step a = some s') : s'.Based := by
  rcases step_cases hstep with ⟨spec, now, -, rfl⟩ | ⟨id, elapsed, run, phase, events, -, hturn,
    rfl⟩ | ⟨id, -, hbaseline⟩ | ⟨-, hremoves⟩
  · have hnew : ((s.start spec now).run s.created).baseline = false := by
      rw [start_self.1]
    have hold : ∀ id ≠ s.created, (s.start spec now).run id = s.run id :=
      fun id hne => (start_of_ne hne).1
    have hmarked : ∀ id, ((s.start spec now).run id).baseline = true → id ≠ s.created :=
      fun id hmark heq => Bool.false_ne_true (hnew.symm.trans (heq ▸ hmark))
    have hlisted : ∀ id ≠ s.created, id ∈ (s.start spec now).runs → id ∈ s.runs :=
      fun id hne hmem => (List.mem_append.mp hmem).resolve_right
        fun hlast => hne (List.mem_singleton.mp hlast)
    refine ⟨fun id hid hmark => ?_, fun id hid other hother hmark hmark' => ?_⟩
    · have hne := hmarked id hmark
      rw [hold id hne] at hmark ⊢
      exact h.completed id (lt_of_le_of_ne (Nat.lt_succ_iff.mp hid) hne) hmark
    · have hne := hmarked id hmark
      have hne' := hmarked other hmark'
      rw [hold id hne] at hmark
      rw [hold other hne'] at hmark'
      exact h.unique id (hlisted id hne hid) other (hlisted other hne' hother) hmark hmark'
  · -- a run that goes on has not been completed, so it is not the baseline
    have hturns := hsound.turns hturn
    have hid := (hsound.live id hturns.live).1
    have hnone : ((s.advance id run phase events).run id).baseline = false := by
      rw [advance_self.1, hturns.baseline]
      by_contra hmark
      have hstatus := h.completed id hid (Bool.eq_true_of_not_eq_false hmark)
      rcases hturns.before with hbefore | hbefore <;> rw [hstatus] at hbefore <;> cases hbefore
    have hold : ∀ other ≠ id, (s.advance id run phase events).run other = s.run other :=
      fun other hne => (advance_of_ne hne).1
    have hmarked : ∀ other, ((s.advance id run phase events).run other).baseline = true →
        other ≠ id :=
      fun other hmark heq => Bool.false_ne_true (hnone.symm.trans (heq ▸ hmark))
    refine ⟨fun other hother hmark => ?_, fun other hother other' hother' hmark hmark' => ?_⟩
    · have hne := hmarked other hmark
      rw [hold other hne] at hmark ⊢
      exact h.completed other hother hmark
    · have hne := hmarked other hmark
      have hne' := hmarked other' hmark'
      rw [hold other hne] at hmark
      rw [hold other' hne'] at hmark'
      exact h.unique other hother other' hother' hmark hmark'
  · obtain ⟨hruns, hcompleted, rfl⟩ := baseline_cases hbaseline
    refine ⟨fun other hother hmark => ?_, fun other hother other' hother' hmark hmark' => ?_⟩
    · dsimp only [record] at hmark ⊢
      split_ifs at hmark ⊢ with hmem
      · obtain rfl := of_decide_eq_true hmark
        exact hcompleted
      · exact h.completed other hother hmark
    · dsimp only [record] at hmark hmark' hother hother'
      rw [if_pos hother] at hmark
      rw [if_pos hother'] at hmark'
      exact (of_decide_eq_true hmark).trans (of_decide_eq_true hmark').symm
  · refine ⟨fun id hid hmark => ?_, fun id hid other hother hmark hmark' => ?_⟩
    · rw [hremoves.run] at hmark ⊢
      exact h.completed id (hremoves.created ▸ hid) hmark
    · rw [hremoves.run] at hmark hmark'
      exact h.unique id (hremoves.runs hid) other (hremoves.runs hother) hmark hmark'

theorem based (hreach : Reachable step Initial s) : s.Based := by
  refine hreach.invariant_of (fun _ => sound) (fun s hinit => ?_)
    fun _ _ _ hsound h _ hstep => h.step hsound hstep
  obtain rfl : s = {} := hinit
  exact ⟨fun _ => nofun, fun _ => nofun⟩

/-- **The life of a benchmark**: the status of its run says what is set and where its task is, a task
that begins finds its run, one completed benchmark at most is the baseline of the list, and one that
has ended stays as it is. -/
theorem lifecycle (hreach : Reachable step Initial s) (hid : id < s.created) :
    (s.run id).Consistent (s.phase id) ∧
      (s.phase id = .created → id ∉ s.cancelling → id ∈ s.runs) ∧
      ((s.run id).baseline = true → (s.run id).status = .completed ∧
        (id ∈ s.runs → ∀ other ∈ s.runs, (s.run other).baseline = true → other = id)) ∧
      ∀ s', s.phase id = .ended → Reachable step (· = s) s' → s.Ended s' id := by
  have hsound := sound hreach
  have hbased := based hreach
  refine ⟨hsound.consistent id hid, fun hphase hcancelling => ?_, fun hmark => ?_,
    fun s' hended hrest => ended_final hreach hid hended hrest⟩
  · have hlive : (s.phase id).done = false := by rw [hphase]; rfl
    exact (hsound.tasks id ((hsound.live id hlive).2.resolve_right hcancelling)).1
  · exact ⟨hbased.completed id hid hmark, fun hmem other hother hmark' =>
      hbased.unique other hother id hmem hmark' hmark⟩

/-- The last answer of a benchmark in exclusive mode. -/
theorem answered_last (id : BenchmarkId) {progress : Progress} (elapsed now : Rat)
    {results : BenchmarkResults}
    (hphase : s.phase id = .calling progress) (hcancelling : id ∉ s.cancelling)
    (hmode : (s.run id).parameters.mode = .exclusive)
    (hpending : (progress.answered (s.run id).parameters elapsed).pending = [])
    (heval : evaluate (progress.answered (s.run id).parameters elapsed).latencies
      (progress.answered (s.run id).parameters elapsed).pairs = .ok results) :
    s.step (.answered id (.ok elapsed) now) = some (s.completed id results now) := by
  simp only [step, answered, hphase, hcancelling, hmode, if_false, proceed, hpending, heval]
  rfl

/-- A benchmark is completed, becomes the baseline, and is deleted. -/
theorem lifecycle_of_deleted : ∃ s t, Reachable step Initial s ∧
    (s.run 0).Consistent (s.phase 0) ∧ (s.run 0).status = .completed ∧
    (∀ other ∈ s.runs, (s.run other).baseline = true → other = 0) ∧
    s.step (.delete 0) = some t ∧ t.runs = [] ∧ s.Ended t 0 := by
  obtain ⟨results, heval⟩ : ∃ results, evaluate [5] 2 = .ok results := by
    have hok : (evaluate [5] 2).isOk = true := by decide +kernel
    cases h : evaluate [5] 2 with
    | ok results => exact ⟨results, rfl⟩
    | error error => rw [h] at hok; cases hok
  have hrun : Transition.run step {} [.create true {
        mode := .exclusive, repetitions := 1, warmupCount := 0, multilingual := false
        confirm := some "EXCLUSIVE" } 0, .begin 0 0] = some _ := rfl
  have hinit : Initial {} := rfl
  have hbegun := reachable_of_run hinit hrun
  have hcompleted := hbegun.next trivial (answered_last 0 5 0 rfl List.not_mem_nil rfl rfl heval)
  have hmarked := hcompleted.next (a := .baseline 0) trivial rfl
  have hcreated : 0 < 1 := Nat.one_pos
  obtain ⟨hconsistent, -, hbaseline, hended⟩ := lifecycle hmarked hcreated
  refine ⟨_, _, hmarked, hconsistent, rfl, (hbaseline rfl).2 List.mem_cons_self, rfl, rfl,
    hended _ rfl ?_⟩
  exact .next (a := .delete 0) (.start rfl) trivial rfl

/-! ### Shutting down -/

/-- Every listed benchmark has its task in the dictionary, unless its deletion is under way. -/
structure Guarded (s : BenchmarkRunner) : Prop where
  listed : ∀ id ∈ s.runs, id ∈ s.tasks ∨ s.Awaits id
  awaiting : ∀ id rest, s.closing = .awaiting id rest → s.tasks ⊆ rest
  closed : s.closing = .closed → s.tasks = []

/-- What is left of a loop of `close()` that goes on with these benchmarks. -/
structure Left (s : BenchmarkRunner) (ids : List BenchmarkId) : Prop where
  listed : ∀ id ∈ s.runs, id ∈ s.tasks ∨ id ∈ s.deleting
  tasks : s.tasks ⊆ ids

theorem popTask_frame (s : BenchmarkRunner) (id : BenchmarkId) :
    (s.popTask id).1.runs = s.runs ∧ (s.popTask id).1.tasks = s.tasks.erase id ∧
      (s.popTask id).1.deleting = s.deleting ∧ (s.popTask id).1.closing = s.closing := by
  rw [popTask_eq]
  exact ⟨rfl, rfl, rfl, rfl⟩

theorem popRun_frame (s : BenchmarkRunner) (id : BenchmarkId) :
    (s.popRun id).runs = s.runs.erase id ∧ (s.popRun id).tasks = s.tasks ∧
      (s.popRun id).deleting = s.deleting ∧ (s.popRun id).closing = s.closing := by
  unfold popRun
  split_ifs with hmem
  · exact ⟨rfl, rfl, rfl, rfl⟩
  · exact ⟨(List.erase_of_not_mem hmem).symm, rfl, rfl, rfl⟩

/-- The loop of `close()`: what it has not come to yet is still in `ids`. -/
theorem Left.closeLoop {ids : List BenchmarkId} (hsound : s.Sound) (h : s.Left ids) :
    (s.closeLoop ids).Guarded := by
  induction ids generalizing s with
  | nil =>
      refine ⟨fun id hid => (h.listed id hid).imp_right .inl, nofun, fun _ => ?_⟩
      exact List.subset_nil.mp h.tasks
  | cons id rest ih =>
      obtain ⟨hruns, htasks, hdeleting, -⟩ := s.popTask_frame id
      have hpop := hsound.popTask id
      have hgone := notMem_popTask hsound id
      -- the tasks that are left are among those the loop has not come to
      have hrest : s.tasks.erase id ⊆ rest := fun other hother => by
        obtain ⟨hne, hold⟩ := hsound.tasks_nodup.mem_erase_iff.mp hother
        exact (List.mem_cons.mp (h.tasks hold)).resolve_left hne
      have hlisted : ∀ other ∈ s.runs, other ≠ id → other ∈ s.tasks.erase id ∨ other ∈ s.deleting :=
        fun other hother hne => (h.listed other hother).imp_left
          fun htask => (List.mem_erase_of_ne hne).mpr htask
      unfold BenchmarkRunner.closeLoop
      split
      · rename_i next hnext
        rw [hnext] at hruns htasks hdeleting
        refine ⟨fun other hother => ?_, fun other rest' heq => ?_, nofun⟩
        · by_cases hne : other = id
          · exact .inr (.inr ⟨rest, by rw [hne]⟩)
          · exact (hlisted other (hruns ▸ hother) hne).imp (htasks ▸ ·) fun hmem =>
              .inl (hdeleting ▸ hmem)
        · exact (Closing.awaiting.inj heq).2 ▸ htasks ▸ hrest
      · rename_i next hnext
        rw [hnext] at hruns htasks hdeleting hpop hgone
        obtain ⟨hruns', htasks', hdeleting', -⟩ := next.popRun_frame id
        refine ih (hpop.popRun hgone) ⟨fun other hother => ?_, ?_⟩
        · rw [hruns', hruns] at hother
          obtain ⟨hne, hold⟩ := hsound.runs_nodup.mem_erase_iff.mp hother
          rw [htasks', htasks, hdeleting', hdeleting]
          exact hlisted other hold hne
        · rw [htasks', htasks]
          exact hrest

theorem Guarded.delete (hsound : s.Sound) (h : s.Guarded) (id : BenchmarkId) :
    (s.delete id).Guarded := by
  obtain ⟨hruns, htasks, hdeleting, hclosing⟩ := s.popTask_frame id
  have herase : s.tasks.erase id ⊆ s.tasks := List.erase_subset
  have hlisted : ∀ other ∈ s.runs, other ≠ id → other ∈ s.tasks.erase id ∨ s.Awaits other :=
    fun other hother hne => (h.listed other hother).imp_left
      fun htask => (List.mem_erase_of_ne hne).mpr htask
  have hempty : s.closing = .closed → s.tasks.erase id = [] := fun hclosed =>
    List.subset_nil.mp ((h.closed hclosed) ▸ herase)
  unfold BenchmarkRunner.delete
  split
  · rename_i next hnext
    rw [hnext] at hruns htasks hdeleting hclosing
    refine ⟨fun other hother => ?_, fun other rest heq => ?_, fun hclosed => ?_⟩
    · by_cases hne : other = id
      · exact .inr (.inl (hne ▸ List.mem_cons_self))
      · refine (hlisted other (hruns ▸ hother) hne).imp (htasks ▸ ·) fun hawaits => ?_
        refine hawaits.imp (fun hmem => List.mem_cons_of_mem _ (hdeleting ▸ hmem)) ?_
        exact fun ⟨rest, heq⟩ => ⟨rest, hclosing.trans heq⟩
    · exact htasks ▸ List.Subset.trans herase (h.awaiting other rest (hclosing.symm.trans heq))
    · exact htasks.trans (hempty (hclosing.symm.trans hclosed))
  · rename_i next hnext
    rw [hnext] at hruns htasks hdeleting hclosing
    obtain ⟨hruns', htasks', hdeleting', hclosing'⟩ := next.popRun_frame id
    rw [hruns] at hruns'
    rw [htasks] at htasks'
    rw [hdeleting] at hdeleting'
    rw [hclosing] at hclosing'
    refine ⟨fun other hother => ?_, fun other rest heq => ?_, fun hclosed => ?_⟩
    · obtain ⟨hne, hold⟩ := hsound.runs_nodup.mem_erase_iff.mp (hruns' ▸ hother)
      unfold Awaits
      rw [htasks', hdeleting', hclosing']
      exact hlisted other hold hne
    · exact htasks' ▸ List.Subset.trans herase (h.awaiting other rest (hclosing'.symm.trans heq))
    · exact htasks'.trans (hempty (hclosing'.symm.trans hclosed))

theorem Guarded.step (hsound : s.Sound) (h : s.Guarded) (hserves : s.TakesRequests a)
    (hstep : s.step a = some s') : s'.Guarded := by
  cases a with
  | create ready spec now =>
      obtain rfl := createBenchmark_step hstep
      have hserving := hserves ready spec now rfl
      have hnever : ∀ closing, (s.start spec now).closing = closing → closing = .serving :=
        fun closing heq => heq.symm.trans hserving
      refine ⟨fun id hid => ?_, fun id rest heq => absurd (hnever _ heq) nofun,
        fun heq => absurd (hnever _ heq) nofun⟩
      rcases List.mem_append.mp hid with hold | hnew
      · exact (h.listed id hold).imp_left (List.mem_append_left _)
      · exact .inl (List.mem_append_right _ hnew)
  | begin id now | answered id outcome now | woke id now | cancelled id now =>
      obtain ⟨elapsed, run, phase, events, -, -, rfl⟩ := task_cases rfl hstep
      exact ⟨h.listed, h.awaiting, h.closed⟩
  | delete id => exact Option.some.inj hstep ▸ h.delete hsound id
  | deleteResumed id =>
      simp only [BenchmarkRunner.step, deleteResumed] at hstep
      split_ifs at hstep with hawaited
      obtain ⟨hruns, htasks, hdeleting, hclosing⟩ :=
        BenchmarkRunner.popRun_frame { s with deleting := s.deleting.erase id } id
      rw [Option.some.inj hstep] at hruns htasks hdeleting hclosing
      refine ⟨fun other hother => ?_, fun other rest heq => ?_, fun hclosed => ?_⟩
      · obtain ⟨hne, hold⟩ := hsound.runs_nodup.mem_erase_iff.mp (hruns ▸ hother)
        refine (h.listed other hold).imp (fun htask => htasks ▸ htask) fun hawaits => ?_
        refine hawaits.imp (fun hmem => ?_) (Exists.imp fun rest heq => hclosing.trans heq)
        exact hdeleting ▸ (List.mem_erase_of_ne hne).mpr hmem
      · exact htasks ▸ h.awaiting other rest (hclosing.symm.trans heq)
      · exact htasks.trans (h.closed (hclosing.symm.trans hclosed))
  | baseline id =>
      obtain ⟨-, -, rfl⟩ := baseline_cases (baseline_step hstep)
      exact ⟨h.listed, h.awaiting, h.closed⟩
  | close =>
      simp only [BenchmarkRunner.step, close] at hstep
      split at hstep
      · rename_i hserving
        refine Option.some.inj hstep ▸ Left.closeLoop hsound ⟨fun id hid => ?_, List.Subset.refl _⟩
        refine (h.listed id hid).imp_right fun hawaits => hawaits.resolve_right ?_
        rintro ⟨rest, heq⟩
        cases hserving.symm.trans heq
      · cases hstep
  | closeResumed =>
      simp only [BenchmarkRunner.step, closeResumed] at hstep
      split at hstep
      · rename_i id rest hclosing
        split_ifs at hstep
        obtain ⟨hruns, htasks, hdeleting, -⟩ := s.popRun_frame id
        rw [← Option.some.inj hstep]
        refine Left.closeLoop (hsound.popRun (hsound.notMem_tasks (.inr ⟨rest, hclosing⟩)))
          ⟨fun other hother => ?_, ?_⟩
        · obtain ⟨hne, hold⟩ := hsound.runs_nodup.mem_erase_iff.mp (hruns ▸ hother)
          rw [htasks, hdeleting]
          refine (h.listed other hold).imp_right fun hawaits => hawaits.resolve_right ?_
          rintro ⟨rest', heq⟩
          exact hne (Closing.awaiting.inj (heq.symm.trans hclosing)).1
        · rw [htasks]
          exact h.awaiting id rest hclosing
      · cases hstep

theorem guarded (hreach : Reaches step Initial TakesRequests s) : s.Guarded := by
  refine hreach.invariant_of (fun _ h => sound h.reachable) (fun s hinit => ?_)
    fun _ _ _ hsound h hserves hstep => h.step hsound hserves hstep
  obtain rfl : s = {} := hinit
  exact ⟨fun _ => nofun, fun _ _ => nofun, fun _ => rfl⟩

/-- A runner that is closed stays so. -/
theorem closed_step (hclosed : s.closing = .closed) (hstep : s.step a = some s') :
    s'.closing = .closed := by
  cases a with
  | create ready spec now => exact createBenchmark_step hstep ▸ hclosed
  | begin id now | answered id outcome now | woke id now | cancelled id now =>
      obtain ⟨elapsed, run, phase, events, -, -, rfl⟩ := task_cases rfl hstep
      exact hclosed
  | delete id =>
      obtain ⟨-, -, -, hclosing⟩ := s.popTask_frame id
      rw [← Option.some.inj hstep, BenchmarkRunner.delete]
      split
      · rename_i next hnext
        rw [hnext] at hclosing
        exact hclosing.trans hclosed
      · rename_i next hnext
        rw [hnext] at hclosing
        exact (next.popRun_frame id).2.2.2.trans (hclosing.trans hclosed)
  | deleteResumed id =>
      simp only [step, deleteResumed] at hstep
      split_ifs at hstep
      rw [← Option.some.inj hstep]
      exact (popRun_frame _ id).2.2.2.trans hclosed
  | baseline id =>
      obtain ⟨-, -, rfl⟩ := baseline_cases (baseline_step hstep)
      exact hclosed
  | close =>
      simp only [step, close, hclosed] at hstep
      cases hstep
  | closeResumed =>
      simp only [step, closeResumed, hclosed] at hstep
      cases hstep

theorem cancelling_step {now : Rat} (outcome : Except Error Rat) (hmem : id ∈ s.cancelling) :
    s.step (.begin id now) = none ∧ s.step (.answered id outcome now) = none ∧
      s.step (.woke id now) = none := by
  simp only [step, begin, answered, woke]
  refine ⟨?_, ?_, ?_⟩
  · split
    · exact if_pos hmem
    · rfl
  · split
    · exact if_pos hmem
    · rfl
  · split
    · exact if_pos hmem
    · rfl

/-- **Shutdown** of a server that takes no request meanwhile: no task is in the dictionary, a
benchmark that is still listed is being deleted, and a task that goes on only takes its
cancellation. -/
theorem shut_down (hreach : Reaches step Initial TakesRequests s) (hclosed : s.closing = .closed) :
    s.tasks = [] ∧ (∀ id ∈ s.runs, id ∈ s.deleting) ∧
      ∀ s', Reaches step (· = s) TakesRequests s' → ∀ a id next, a.task = some id →
        s'.step a = some next → ∃ now, a = .cancelled id now := by
  have hguarded := guarded hreach
  have htasks := hguarded.closed hclosed
  refine ⟨htasks, fun id hid => ?_, fun s' hrest a id next htask hstep => ?_⟩
  · rcases hguarded.listed id hid with htask | hdeleting | ⟨rest, hclosing⟩
    · rw [htasks] at htask
      cases htask
    · exact hdeleting
    · cases hclosed.symm.trans hclosing
  have hstill : s'.closing = .closed :=
    hrest.invariant (I := fun t => t.closing = .closed) (fun t h => by rw [h]; exact hclosed)
      fun _ _ _ ht _ hstep => closed_step ht hstep
  have hlater := hreach.trans hrest
  have hsound := sound hlater.reachable
  obtain ⟨elapsed, run, phase, events, -, hturn, -⟩ := task_cases htask hstep
  -- the task is live and not in the dictionary, so it was cancelled
  have hcancelling : id ∈ s'.cancelling := by
    refine ((hsound.live id (hsound.turns hturn).live).2).resolve_left fun hmem => ?_
    rw [(guarded hlater).closed hstill] at hmem
    cases hmem
  cases a with
  | begin id' now =>
      obtain rfl := Option.some.inj htask
      exact nomatch (cancelling_step (.ok 0) hcancelling).1.symm.trans hstep
  | answered id' outcome now =>
      obtain rfl := Option.some.inj htask
      exact nomatch (cancelling_step outcome hcancelling).2.1.symm.trans hstep
  | woke id' now =>
      obtain rfl := Option.some.inj htask
      exact nomatch (cancelling_step (.ok 0) hcancelling).2.2.symm.trans hstep
  | cancelled id' now =>
      obtain rfl := Option.some.inj htask
      exact ⟨now, rfl⟩
  | create _ _ _ | delete _ | deleteResumed _ | baseline _ | close | closeResumed => cases htask

theorem takesRequests_of_task {actions : List Action}
    (h : ∀ ready spec now, Action.create ready spec now ∉ actions) :
    ∀ a ∈ actions, ∀ t : BenchmarkRunner, t.TakesRequests a := by
  rintro a ha t ready spec now rfl
  exact absurd ha (h ready spec now)

/-- The server shuts down while one benchmark makes its first request and another has not begun. -/
theorem shut_down_of_created : ∃ s, Reaches step Initial TakesRequests s ∧ s.created = 2 ∧
    s.runs = [] ∧ s.tasks = [] ∧ ∀ s', Reaches step (· = s) TakesRequests s' → ∀ now,
      s'.step (.begin 1 now) = none := by
  have hinit : Initial {} := rfl
  have hstart : Reaches step Initial TakesRequests {} := .start hinit
  have hfirst := hstart.next (a := .create true {} 0) (fun _ _ _ _ => rfl) rfl
  have hsecond := hfirst.next (a := .create true {} 0) (fun _ _ _ _ => rfl) rfl
  have htakes : ∀ a ∈ [Action.begin 0 0, .close, .cancelled 0 0, .closeResumed, .cancelled 1 0,
      .closeResumed], ∀ t : BenchmarkRunner, t.TakesRequests a := takesRequests_of_task (by simp)
  have hclosed := hsecond.extend htakes rfl
  obtain ⟨htasks, -, hrest⟩ := shut_down hclosed rfl
  refine ⟨_, hclosed, rfl, rfl, htasks, fun s' h now => ?_⟩
  cases hstep : s'.step (.begin 1 now) with
  | none => rfl
  | some next =>
      obtain ⟨time, heq⟩ := hrest s' h _ 1 next rfl hstep
      cases heq

/-! ### The shutdown ends -/

theorem closeLoop_closing (s : BenchmarkRunner) (ids : List BenchmarkId) :
    (s.closeLoop ids).closing = .closed ∨
      ∃ id rest, (s.closeLoop ids).closing = .awaiting id rest ∧ rest.length < ids.length := by
  induction ids generalizing s with
  | nil => exact .inl rfl
  | cons id rest ih =>
      unfold closeLoop
      split
      · exact .inr ⟨id, rest, rfl, Nat.lt_succ_self _⟩
      · rename_i next _
        refine (ih _).imp_right ?_
        rintro ⟨other, rest', hclosing, hlt⟩
        exact ⟨other, rest', hclosing, hlt.trans (Nat.lt_succ_self _)⟩

/-- A task whose cancellation was requested ends once it sees it. -/
theorem cancelled_ends (hmem : id ∈ s.cancelling) (hlive : (s.phase id).done = false) (now : Rat) :
    ∃ s', s.step (.cancelled id now) = some s' ∧ (s'.phase id).done = true ∧
      s'.closing = s.closing := by
  have hdone : (TaskPhase.ended).done = true := rfl
  simp only [step, cancelled, if_pos hmem]
  generalize hphase : s.phase id = phase at hlive
  cases phase with
  | created =>
      refine ⟨_, rfl, ?_, rfl⟩
      simp only [setPhase, Function.update_self, hdone]
  | calling progress | sleeping progress =>
      refine ⟨_, rfl, ?_, rfl⟩
      simp only [raised, setPhase, Function.update_self, hdone]
  | ended => cases hlive

/-- **`close()` ends**: the tasks only have to see their cancellations. -/
theorem close_ends (hreach : Reachable step Initial s) (hclosing : s.closing ≠ .serving) :
    ∃ actions s', (∀ a ∈ actions, a = .closeResumed ∨ ∃ id now, a = .cancelled id now) ∧
      Transition.run step s actions = some s' ∧ s'.closing = .closed := by
  generalize hlast : s.closing = closing at hclosing
  cases closing with
  | serving => exact absurd rfl hclosing
  | closed => exact ⟨[], s, nofun, rfl, hlast⟩
  | awaiting id rest =>
      clear hclosing
      induction hlength : rest.length using Nat.strong_induction_on generalizing s id rest with
      | _ count ih =>
          have hmem := (sound hreach).awaited id (.inr ⟨rest, hlast⟩)
          -- first the awaited task ends
          obtain ⟨actions, t, hactions, hrun, hdone, ht⟩ : ∃ actions t,
              (∀ a ∈ actions, a = .closeResumed ∨ ∃ id now, a = Action.cancelled id now) ∧
                Transition.run step s actions = some t ∧ (t.phase id).done = true ∧
                  t.closing = s.closing := by
            cases hlive : (s.phase id).done with
            | true => exact ⟨[], s, nofun, rfl, hlive, rfl⟩
            | false =>
                obtain ⟨t, hstep, hdone, ht⟩ := cancelled_ends hmem hlive 0
                refine ⟨[.cancelled id 0], t, fun a ha => ?_, ?_, hdone, ht⟩
                · exact .inr ⟨id, 0, List.mem_singleton.mp ha⟩
                · rw [Transition.run, hstep]
                  rfl
          -- then the loop goes on
          have hstep : t.step .closeResumed = some ((t.popRun id).closeLoop rest) := by
            simp only [step, closeResumed, ht.trans hlast, if_pos hdone]
          have hnext : Transition.run step s (actions ++ [.closeResumed]) =
              some ((t.popRun id).closeLoop rest) := by
            rw [run_append, hrun]
            simp only [Option.bind_some, Transition.run, hstep]
          have hactions' : ∀ a ∈ actions ++ [Action.closeResumed],
              a = .closeResumed ∨ ∃ id now, a = Action.cancelled id now := by
            intro a ha
            rcases List.mem_append.mp ha with hold | hnew
            · exact hactions a hold
            · exact .inl (List.mem_singleton.mp hnew)
          rcases closeLoop_closing (t.popRun id) rest with hclosed | ⟨id', rest', hawaiting, hlt⟩
          · exact ⟨_, _, hactions', hnext, hclosed⟩
          · have hreach' := hreach.extend (fun _ _ _ => trivial) hnext
            obtain ⟨more, s', hmore, hrun', hclosed⟩ :=
              ih rest'.length (hlength ▸ hlt) hreach' id' rest' hawaiting rfl
            refine ⟨actions ++ [.closeResumed] ++ more, s', fun a ha => ?_, ?_, hclosed⟩
            · exact (List.mem_append.mp ha).elim (hactions' a) (hmore a)
            · rw [run_append, hnext]
              exact hrun'

/-- A server that begins to shut down while a benchmark makes its first request. -/
theorem close_ends_of_begun : ∃ s actions s', Reachable step Initial s ∧
    s.closing = .awaiting 0 [] ∧ Transition.run step s actions = some s' ∧ s'.closing = .closed := by
  have hrun : Transition.run step {} [.create true {} 0, .begin 0 0, .close] = some _ := rfl
  have hinit : Initial {} := rfl
  have hreach := reachable_of_run hinit hrun
  obtain ⟨actions, s', -, hmore, hclosed⟩ := close_ends hreach nofun
  exact ⟨_, actions, s', hreach, rfl, hmore, hclosed⟩

end RerankerService.BenchmarkRunner
