import RerankerService.Foundation.Outcome
import RerankerService.Foundation.Run
import RerankerService.Service.Benchmark

/-!
# The life of a benchmark

A task that goes on changes its own run and phase only, and writes at most one event; `Turn` lists
what it can do. From this the status of a run says which of its fields are set, and the audit log has
each event of a benchmark as often as it happened: never more than once.
-/

namespace RerankerService

namespace BenchmarkParameters

theorem cases_length_pos (parameters : BenchmarkParameters) : 0 < parameters.cases.length := by
  unfold cases
  split <;> decide

/-- The bodies of the warm-up come first. -/
theorem plan_eq (parameters : BenchmarkParameters) :
    parameters.plan =
      ((List.range parameters.warmupCount).flatMap fun iteration =>
        parameters.cases.map fun case => (iteration, case)) ++
      (List.range parameters.repetitions).flatMap fun iteration =>
        parameters.cases.map fun case => (parameters.warmupCount + iteration, case) := by
  rw [plan, List.range_add, List.flatMap_append, List.flatMap_map]

theorem plan_length (parameters : BenchmarkParameters) :
    parameters.plan.length =
      (parameters.warmupCount + parameters.repetitions) * parameters.cases.length := by
  simp [plan, List.length_flatMap]

theorem plan_ne (parameters : BenchmarkParameters) : parameters.plan ≠ [] := by
  intro hnil
  have hlength := parameters.plan_length
  have hcases := parameters.cases_length_pos
  have hrepetitions := parameters.repetitions_range.1
  rw [hnil, List.length_nil] at hlength
  have hpos : 0 < (parameters.warmupCount + parameters.repetitions) * parameters.cases.length :=
    Nat.mul_pos (by omega) hcases
  omega

end BenchmarkParameters

/-- The fields of a run that go with its status, and where its task is then. -/
inductive BenchmarkRun.Consistent : BenchmarkRun → TaskPhase → Prop where
  | queued {run : BenchmarkRun} {phase : TaskPhase} (hstatus : run.status = .queued)
      (hstarted : run.startedAt = none) (hfinished : run.finishedAt = none)
      (hresults : run.results = none) (herror : run.error = none)
      (hphase : phase = .created ∨ phase = .ended) : Consistent run phase
  | running {run : BenchmarkRun} {phase : TaskPhase} (hstatus : run.status = .running)
      (hstarted : run.startedAt.isSome) (hfinished : run.finishedAt = none)
      (hresults : run.results = none) (herror : run.error = none)
      (hphase : phase ≠ .created ∧ phase ≠ .ended) : Consistent run phase
  | completed {run : BenchmarkRun} (hstatus : run.status = .completed)
      (hstarted : run.startedAt.isSome) (hfinished : run.finishedAt.isSome)
      (hresults : run.results.isSome) (herror : run.error = none) : Consistent run .ended
  | cancelled {run : BenchmarkRun} (hstatus : run.status = .cancelled)
      (hstarted : run.startedAt.isSome) (hfinished : run.finishedAt.isSome)
      (hresults : run.results = none) (herror : run.error = none) : Consistent run .ended
  | failed {run : BenchmarkRun} (hstatus : run.status = .failed)
      (hstarted : run.startedAt.isSome) (hfinished : run.finishedAt.isSome)
      (hresults : run.results = none) (herror : run.error.isSome) : Consistent run .ended

theorem BenchmarkRun.Consistent.mark {run : BenchmarkRun} {phase : TaskPhase}
    (h : run.Consistent phase) (baseline : Bool) :
    { run with baseline := baseline }.Consistent phase := by
  cases h with
  | queued hstatus hstarted hfinished hresults herror hphase =>
      exact .queued hstatus hstarted hfinished hresults herror hphase
  | running hstatus hstarted hfinished hresults herror hphase =>
      exact .running hstatus hstarted hfinished hresults herror hphase
  | completed hstatus hstarted hfinished hresults herror =>
      exact .completed hstatus hstarted hfinished hresults herror
  | cancelled hstatus hstarted hfinished hresults herror =>
      exact .cancelled hstatus hstarted hfinished hresults herror
  | failed hstatus hstarted hfinished hresults herror =>
      exact .failed hstatus hstarted hfinished hresults herror

/-- The benchmark that an event is about. -/
def AuditEvent.id : AuditEvent → BenchmarkId
  | .created id _ | .completed id | .failed id _ | .deleted id | .baseline id => id

/-- What is written when a run ends. -/
def BenchmarkRun.ending (run : BenchmarkRun) (id : BenchmarkId) : List AuditEvent :=
  match run.status, run.error with
  | .completed, _ => [.completed id]
  | .failed, some name => [.failed id name]
  | _, _ => []

namespace BenchmarkRunner

open Transition

variable {s s' : BenchmarkRunner} {id other : BenchmarkId}

/-! ### What a task does -/

/-- One task goes on, and with it its run. -/
def advance (s : BenchmarkRunner) (id : BenchmarkId) (run : BenchmarkRun) (phase : TaskPhase)
    (events : List AuditEvent) : BenchmarkRunner :=
  { s with
    run := Function.update s.run id run
    phase := Function.update s.phase id phase
    audit := events ++ s.audit }

theorem advance_self {run : BenchmarkRun} {phase : TaskPhase} {events : List AuditEvent} :
    (s.advance id run phase events).run id = run ∧
      (s.advance id run phase events).phase id = phase :=
  ⟨Function.update_self _ _ _, Function.update_self _ _ _⟩

theorem advance_of_ne {run : BenchmarkRun} {phase : TaskPhase} {events : List AuditEvent}
    (hne : other ≠ id) : (s.advance id run phase events).run other = s.run other ∧
      (s.advance id run phase events).phase other = s.phase other :=
  ⟨Function.update_of_ne hne _ _, Function.update_of_ne hne _ _⟩

theorem start_self {spec : BenchmarkSpec} {now : Rat} :
    (s.start spec now).run s.created =
        { createdAt := now, parameters := spec.toBenchmarkParameters } ∧
      (s.start spec now).phase s.created = .created :=
  ⟨Function.update_self _ _ _, Function.update_self _ _ _⟩

theorem start_of_ne {spec : BenchmarkSpec} {now : Rat} (hne : other ≠ s.created) :
    (s.start spec now).run other = s.run other ∧
      (s.start spec now).phase other = s.phase other :=
  ⟨Function.update_of_ne hne _ _, Function.update_of_ne hne _ _⟩

/-- The locals that a task goes on with; `elapsed` is the time of a request that was answered. -/
inductive Goes (parameters : BenchmarkParameters) : TaskPhase → Option Rat → Progress → Prop where
  | answered {progress : Progress} {elapsed : Rat} :
      Goes parameters (.calling progress) (some elapsed) (progress.answered parameters elapsed)
  | woke {progress : Progress} : Goes parameters (.sleeping progress) none progress

/-- What becomes of a run and its task, with the events that are written. -/
inductive Turn (s : BenchmarkRunner) (id : BenchmarkId) :
    Option Rat → BenchmarkRun → TaskPhase → List AuditEvent → Prop where
  | begun {now : Rat} (hphase : s.phase id = .created) (hcancelling : id ∉ s.cancelling) :
      Turn s id none { s.run id with status := .running, startedAt := some now }
        (.calling { pending := (s.run id).parameters.plan }) []
  | dropped (hphase : s.phase id = .created) (hgone : id ∈ s.cancelling ∨ id ∉ s.runs) :
      Turn s id none (s.run id) .ended []
  | called {elapsed : Option Rat} {progress : Progress}
      (hgoes : Goes (s.run id).parameters (s.phase id) elapsed progress)
      (hpending : progress.pending ≠ []) : Turn s id elapsed (s.run id) (.calling progress) []
  | napped {elapsed : Option Rat} {progress : Progress}
      (hgoes : Goes (s.run id).parameters (s.phase id) elapsed progress) :
      Turn s id elapsed (s.run id) (.sleeping progress) []
  | completed {elapsed : Option Rat} {progress : Progress} {results : BenchmarkResults} {now : Rat}
      (hgoes : Goes (s.run id).parameters (s.phase id) elapsed progress)
      (hpending : progress.pending = [])
      (hresults : evaluate progress.latencies progress.pairs = .ok results)
      (hcancelling : id ∉ s.cancelling) :
      Turn s id elapsed
        { s.run id with status := .completed, results := some results, finishedAt := some now }
        .ended [.completed id]
  | cancelled {elapsed : Option Rat} {now : Rat}
      (hphase : s.phase id ≠ .created ∧ s.phase id ≠ .ended) :
      Turn s id elapsed { s.run id with status := .cancelled, finishedAt := some now } .ended []
  | failed {elapsed : Option Rat} {name : String} {now : Rat}
      (hphase : s.phase id ≠ .created ∧ s.phase id ≠ .ended) (hcancelling : id ∉ s.cancelling) :
      Turn s id elapsed
        { s.run id with status := .failed, error := some name, finishedAt := some now } .ended
        [.failed id name]

theorem Goes.phase_ne {parameters : BenchmarkParameters} {phase : TaskPhase} {elapsed : Option Rat}
    {progress : Progress} (h : Goes parameters phase elapsed progress) :
    phase ≠ .created ∧ phase ≠ .ended := by
  cases h <;> exact ⟨nofun, nofun⟩

theorem setPhase_eq (phase : TaskPhase) :
    s.setPhase id phase = s.advance id (s.run id) phase [] := by
  simp [setPhase, advance]

theorem raised_turn (hphase : s.phase id ≠ .created ∧ s.phase id ≠ .ended) (error : Error)
    (hcancelling : error ≠ .cancelled → id ∉ s.cancelling) (elapsed : Option Rat) (now : Rat) :
    ∃ run phase events, Turn s id elapsed run phase events ∧
      s.raised id error now = s.advance id run phase events := by
  cases error with
  | cancelled => exact ⟨_, _, _, .cancelled hphase, rfl⟩
  | service _ _ _ | runtimeError _ | valueError _ | exception _ _ =>
      exact ⟨_, _, _, .failed hphase (hcancelling nofun), rfl⟩

theorem proceed_turn {elapsed : Option Rat} {progress : Progress}
    (hgoes : Goes (s.run id).parameters (s.phase id) elapsed progress)
    (hcancelling : id ∉ s.cancelling) (now : Rat) :
    ∃ run phase events, Turn s id elapsed run phase events ∧
      s.proceed id progress now = s.advance id run phase events := by
  unfold proceed
  split
  · rename_i hpending
    exact ⟨_, _, _, .called hgoes (by rw [hpending]; exact List.cons_ne_nil _ _), setPhase_eq _⟩
  · rename_i hpending
    split
    · rename_i results hresults
      exact ⟨_, _, _, .completed hgoes hpending hresults hcancelling, rfl⟩
    · rename_i error _
      exact raised_turn hgoes.phase_ne error (fun _ => hcancelling) elapsed now

/-- The request that an action answers, with its time. -/
def Action.answer : Action → Option (BenchmarkId × Rat)
  | .answered id (.ok elapsed) _ => some (id, elapsed)
  | _ => none

/-- The actions that make one task go on. -/
def Action.task : Action → Option BenchmarkId
  | .begin id _ | .answered id _ _ | .woke id _ | .cancelled id _ => some id
  | _ => none

/-- **Inversion**: a task that goes on takes a turn. -/
theorem task_cases {a : Action} (htask : a.task = some id) (hstep : s.step a = some s') :
    ∃ elapsed run phase events, a.answer = elapsed.map (id, ·) ∧
      Turn s id elapsed run phase events ∧ s' = s.advance id run phase events := by
  cases a with
  | begin id' now =>
      obtain rfl := Option.some.inj htask
      simp only [step, begin] at hstep
      split at hstep
      · rename_i hphase
        split_ifs at hstep with hcancelling hruns
        · have hne := (s.run id').parameters.plan_ne
          obtain ⟨first, rest, hplan⟩ := List.exists_cons_of_ne_nil hne
          have hbegun : Turn s id' none _ _ [] := @Turn.begun s id' now hphase hcancelling
          refine ⟨none, _, _, _, rfl, hbegun, ?_⟩
          rw [← Option.some.inj hstep, proceed]
          simp only [hplan]
          rw [← hplan]
          rfl
        · exact ⟨none, _, _, _, rfl, .dropped hphase (.inr hruns),
            (Option.some.inj hstep).symm.trans (setPhase_eq _)⟩
      · cases hstep
  | answered id' outcome now =>
      obtain rfl := Option.some.inj htask
      simp only [step, answered] at hstep
      split at hstep
      · rename_i progress hphase
        by_cases hcancelling : id' ∈ s.cancelling
        · rw [if_pos hcancelling] at hstep
          cases hstep
        rw [if_neg hcancelling] at hstep
        cases outcome with
        | ok elapsed =>
            have hgoes : Goes (s.run id').parameters (s.phase id') (some elapsed)
                (progress.answered (s.run id').parameters elapsed) := hphase ▸ .answered
            simp only at hstep
            split_ifs at hstep with hmode
            · exact ⟨some elapsed, _, _, _, rfl, .napped hgoes,
                (Option.some.inj hstep).symm.trans (setPhase_eq _)⟩
            · obtain ⟨run, phase, events, hturn, hnext⟩ := proceed_turn hgoes hcancelling now
              exact ⟨some elapsed, run, phase, events, rfl, hturn,
                (Option.some.inj hstep).symm.trans hnext⟩
        | error error =>
            obtain ⟨run, phase, events, hturn, hnext⟩ :=
              raised_turn (by rw [hphase]; exact ⟨nofun, nofun⟩) error (fun _ => hcancelling) none
                now
            exact ⟨none, run, phase, events, rfl, hturn,
              (Option.some.inj hstep).symm.trans hnext⟩
      · cases hstep
  | woke id' now =>
      obtain rfl := Option.some.inj htask
      simp only [step, woke] at hstep
      split at hstep
      · rename_i progress hphase
        split_ifs at hstep with hcancelling
        have hgoes : Goes (s.run id').parameters (s.phase id') none progress := hphase ▸ .woke
        obtain ⟨run, phase, events, hturn, hnext⟩ := proceed_turn hgoes hcancelling now
        exact ⟨none, run, phase, events, rfl, hturn, (Option.some.inj hstep).symm.trans hnext⟩
      · cases hstep
  | cancelled id' now =>
      obtain rfl := Option.some.inj htask
      simp only [step, cancelled] at hstep
      split_ifs at hstep with hcancelling
      split at hstep
      · rename_i hphase
        exact ⟨none, _, _, _, rfl, .dropped hphase (.inl hcancelling),
          (Option.some.inj hstep).symm.trans (setPhase_eq _)⟩
      · rename_i progress hphase
        obtain ⟨run, phase, events, hturn, hnext⟩ :=
          raised_turn (by rw [hphase]; exact ⟨nofun, nofun⟩) .cancelled (fun h => absurd rfl h) none
            now
        exact ⟨none, run, phase, events, rfl, hturn, (Option.some.inj hstep).symm.trans hnext⟩
      · rename_i progress hphase
        obtain ⟨run, phase, events, hturn, hnext⟩ :=
          raised_turn (by rw [hphase]; exact ⟨nofun, nofun⟩) .cancelled (fun h => absurd rfl h) none
            now
        exact ⟨none, run, phase, events, rfl, hturn, (Option.some.inj hstep).symm.trans hnext⟩
      · cases hstep
  | create _ _ _ | delete _ | deleteResumed _ | baseline _ | close | closeResumed => cases htask

/-! ### The audit log -/

/-- The events of one benchmark, in the order in which they were written. -/
def story (s : BenchmarkRunner) (id : BenchmarkId) : List AuditEvent :=
  s.audit.reverse.filter fun event => event.id = id

/-- The story of a benchmark: it was created, its run ended, it was the baseline now and then, and
it was deleted. -/
structure Logged (s : BenchmarkRunner) (id : BenchmarkId) : Prop where
  unwritten : s.created ≤ id → s.story id = []
  written : id < s.created → ∃ count, ((s.run id).status ≠ .completed → count = 0) ∧
    s.story id = .created id (s.run id).parameters.mode :: ((s.run id).ending id ++
      (List.replicate count (.baseline id) ++ if id ∈ s.runs then [] else [.deleted id]))

theorem story_append (events : List AuditEvent) (haudit : s'.audit = events ++ s.audit)
    (id : BenchmarkId) :
    s'.story id = s.story id ++ events.reverse.filter fun event => event.id = id := by
  rw [story, haudit, List.reverse_append, List.filter_append, story]

theorem story_cons (event : AuditEvent) (haudit : s'.audit = event :: s.audit) (id : BenchmarkId) :
    s'.story id = s.story id ++ if event.id = id then [event] else [] := by
  refine (story_append [event] haudit id).trans (congrArg _ ?_)
  simp [List.filter_cons]

/-- Nothing that the story of a benchmark depends on has changed. -/
theorem Logged.congr (h : s.Logged id) (hstory : s'.story id = s.story id)
    (hcreated : id < s'.created ↔ id < s.created)
    (hrun : id < s.created → (s'.run id).status = (s.run id).status ∧
      (s'.run id).error = (s.run id).error ∧ (s'.run id).parameters = (s.run id).parameters)
    (hruns : id < s.created → (id ∈ s'.runs ↔ id ∈ s.runs)) : s'.Logged id where
  unwritten hle := hstory.trans (h.unwritten (not_lt.mp fun hlt => not_lt.mpr hle (hcreated.mpr hlt)))
  written hlt := by
    have hold := hcreated.mp hlt
    obtain ⟨count, hcount, htold⟩ := h.written hold
    obtain ⟨hstatus, herror, hparameters⟩ := hrun hold
    refine ⟨count, fun hne => hcount (hstatus ▸ hne), hstory.trans (htold.trans ?_)⟩
    rw [BenchmarkRun.ending, BenchmarkRun.ending, hstatus, herror, hparameters]
    rw [if_congr (hruns hold) rfl rfl]

/-! ### The invariant -/

/-- A `delete` of a client or the loop of `close()` awaits the task. -/
def Awaits (s : BenchmarkRunner) (id : BenchmarkId) : Prop :=
  id ∈ s.deleting ∨ ∃ rest, s.closing = .awaiting id rest

/-- A task that has not ended is in the dictionary, or its cancellation was requested. -/
structure Sound (s : BenchmarkRunner) : Prop where
  runs_nodup : s.runs.Nodup
  tasks_nodup : s.tasks.Nodup
  runs_lt : ∀ id ∈ s.runs, id < s.created
  cancelling_lt : ∀ id ∈ s.cancelling, id < s.created
  tasks : ∀ id ∈ s.tasks, id ∈ s.runs ∧ id ∉ s.cancelling
  live : ∀ id, (s.phase id).done = false → id < s.created ∧ (id ∈ s.tasks ∨ id ∈ s.cancelling)
  consistent : ∀ id < s.created, (s.run id).Consistent (s.phase id)
  dropped : ∀ id < s.created, (s.run id).status = .queued → (s.phase id).done = true →
    id ∈ s.cancelling
  awaited : ∀ id, s.Awaits id → id ∈ s.cancelling
  logged : ∀ id, s.Logged id

theorem Initial.sound (hinit : Initial s) : s.Sound := by
  obtain rfl : s = {} := hinit
  exact {
    runs_nodup := .nil
    tasks_nodup := .nil
    runs_lt := fun _ => nofun
    cancelling_lt := fun _ => nofun
    tasks := fun _ => nofun
    live := fun _ => nofun
    consistent := fun _ => nofun
    dropped := fun _ => nofun
    awaited := fun _ hawaits => hawaits.elim nofun fun ⟨_, hclosing⟩ => nomatch hclosing
    logged := fun _ => ⟨fun _ => rfl, nofun⟩ }

/-- The status after a turn, with the events that go with it. -/
structure Turns (s : BenchmarkRunner) (id : BenchmarkId) (run : BenchmarkRun) (phase : TaskPhase)
    (events : List AuditEvent) : Prop where
  live : (s.phase id).done = false
  consistent : run.Consistent phase
  dropped : run.status = .queued → phase.done = true → id ∈ s.cancelling
  before : (s.run id).status = .queued ∨ (s.run id).status = .running
  written : events = run.ending id
  listed : events ≠ [] → id ∈ s.runs
  baseline : run.baseline = (s.run id).baseline
  parameters : run.parameters = (s.run id).parameters

theorem Sound.turns (h : s.Sound) {elapsed : Option Rat} {run : BenchmarkRun} {phase : TaskPhase}
    {events : List AuditEvent} (hturn : Turn s id elapsed run phase events) :
    s.Turns id run phase events := by
  -- what is known of a task that is under way
  have hunderWay : s.phase id ≠ .created ∧ s.phase id ≠ .ended →
      (s.phase id).done = false ∧ (s.run id).status = .running ∧ (s.run id).startedAt.isSome ∧
        (s.run id).finishedAt = none ∧ (s.run id).results = none ∧ (s.run id).error = none := by
    rintro ⟨hcreated, hended⟩
    have hlive : (s.phase id).done = false := by
      generalize s.phase id = phase at *
      cases phase <;> first | rfl | exact absurd rfl hended
    refine ⟨hlive, ?_⟩
    have hid := (h.live id hlive).1
    generalize hphase : s.phase id = phase at *
    cases hphase ▸ h.consistent id hid with
    | queued _ _ _ _ _ hat => rcases hat with hat | hat <;> contradiction
    | running hstatus hstarted hfinished hresults herror _ =>
        exact ⟨hstatus, hstarted, hfinished, hresults, herror⟩
    | completed _ _ _ _ _ | cancelled _ _ _ _ _ | failed _ _ _ _ _ => exact absurd rfl hended
  -- and of one that has not run yet
  have hfresh : s.phase id = .created → (s.phase id).done = false ∧
      (s.run id).status = .queued ∧ (s.run id).startedAt = none ∧ (s.run id).finishedAt = none ∧
        (s.run id).results = none ∧ (s.run id).error = none := by
    intro hcreated
    have hlive : (s.phase id).done = false := by rw [hcreated]; rfl
    refine ⟨hlive, ?_⟩
    have hid := (h.live id hlive).1
    cases hcreated ▸ h.consistent id hid with
    | queued hstatus hstarted hfinished hresults herror _ =>
        exact ⟨hstatus, hstarted, hfinished, hresults, herror⟩
    | running _ _ _ _ _ hat => exact absurd rfl hat.1
  have hlisted : (s.phase id).done = false → id ∉ s.cancelling → id ∈ s.runs :=
    fun hlive hcancelling => (h.tasks id ((h.live id hlive).2.resolve_right hcancelling)).1
  cases hturn with
  | begun hphase hcancelling =>
      obtain ⟨hlive, hstatus, -, hfinished, hresults, herror⟩ := hfresh hphase
      exact ⟨hlive, .running rfl rfl hfinished hresults herror ⟨nofun, nofun⟩, nofun,
        .inl hstatus, rfl, fun h => absurd rfl h, rfl, rfl⟩
  | dropped hphase hgone =>
      obtain ⟨hlive, hstatus, hstarted, hfinished, hresults, herror⟩ := hfresh hphase
      refine ⟨hlive, .queued hstatus hstarted hfinished hresults herror (.inr rfl),
        fun _ _ => ?_, .inl hstatus, by rw [BenchmarkRun.ending, hstatus],
        fun h => absurd rfl h, rfl, rfl⟩
      rcases (h.live id hlive).2 with htask | hcancelling
      · exact hgone.resolve_right (not_not_intro (h.tasks id htask).1)
      · exact hcancelling
  | called hgoes hpending =>
      obtain ⟨hlive, hstatus, hstarted, hfinished, hresults, herror⟩ := hunderWay hgoes.phase_ne
      exact ⟨hlive, .running hstatus hstarted hfinished hresults herror ⟨nofun, nofun⟩, nofun,
        .inr hstatus, by rw [BenchmarkRun.ending, hstatus], fun h => absurd rfl h, rfl, rfl⟩
  | napped hgoes =>
      obtain ⟨hlive, hstatus, hstarted, hfinished, hresults, herror⟩ := hunderWay hgoes.phase_ne
      exact ⟨hlive, .running hstatus hstarted hfinished hresults herror ⟨nofun, nofun⟩, nofun,
        .inr hstatus, by rw [BenchmarkRun.ending, hstatus], fun h => absurd rfl h, rfl, rfl⟩
  | completed hgoes hpending hresults hcancelling =>
      obtain ⟨hlive, hstatus, hstarted, -, -, herror⟩ := hunderWay hgoes.phase_ne
      exact ⟨hlive, .completed rfl hstarted rfl rfl herror, nofun, .inr hstatus, rfl,
        fun _ => hlisted hlive hcancelling, rfl, rfl⟩
  | cancelled hphase =>
      obtain ⟨hlive, hstatus, hstarted, -, hresults, herror⟩ := hunderWay hphase
      exact ⟨hlive, .cancelled rfl hstarted rfl hresults herror, nofun, .inr hstatus, rfl,
        fun h => absurd rfl h, rfl, rfl⟩
  | failed hphase hcancelling =>
      obtain ⟨hlive, hstatus, hstarted, -, hresults, herror⟩ := hunderWay hphase
      exact ⟨hlive, .failed rfl hstarted rfl hresults rfl, nofun, .inr hstatus, rfl,
        fun _ => hlisted hlive hcancelling, rfl, rfl⟩

theorem Logged.advance {run : BenchmarkRun} {phase : TaskPhase} {events : List AuditEvent}
    (h : s.Logged other) (hid : id < s.created) (hturns : s.Turns id run phase events) :
    (s.advance id run phase events).Logged other := by
  have hevents := hturns.written
  have hall : ∀ event ∈ events, event.id = id := by
    intro event hevent
    rw [hevents, BenchmarkRun.ending] at hevent
    split at hevent
    · exact congrArg AuditEvent.id (List.mem_singleton.mp hevent)
    · exact congrArg AuditEvent.id (List.mem_singleton.mp hevent)
    · cases hevent
  have hstory : (s.advance id run phase events).story other = _ :=
    story_append (s := s) events rfl other
  by_cases heq : other = id
  · subst heq
    have hrun : (s.advance other run phase events).run other = run := advance_self.1
    refine ⟨fun hle => absurd hid (not_lt.mpr hle), fun _ => ?_⟩
    obtain ⟨count, hcount, htold⟩ := h.written hid
    -- a task that goes on has not written anything yet
    have hbefore : (s.run other).status ≠ .completed ∧ (s.run other).ending other = [] := by
      rcases hturns.before with hstatus | hstatus <;>
        exact ⟨by rw [hstatus]; exact nofun, by rw [BenchmarkRun.ending, hstatus]⟩
    rw [hcount hbefore.1, hbefore.2] at htold
    refine ⟨0, fun _ => rfl, hstory.trans ?_⟩
    rw [htold, hrun, hturns.parameters, ← hevents,
      List.filter_eq_self.mpr fun event hevent =>
        decide_eq_true (hall event (List.mem_reverse.mp hevent))]
    by_cases hnone : events = []
    · rw [hnone]
      exact List.append_nil _
    · -- one event, and the benchmark is still there
      have hone : events.reverse = events := by
        rw [hevents, BenchmarkRun.ending]
        split <;> rfl
      have hlisted := hturns.listed hnone
      rw [if_pos hlisted, if_pos (show other ∈ (s.advance other run phase events).runs from hlisted),
        hone]
      simp
  · have hrun : (s.advance id run phase events).run other = s.run other := (advance_of_ne heq).1
    refine h.congr (hstory.trans ?_) Iff.rfl (fun _ => by rw [hrun]; exact ⟨rfl, rfl, rfl⟩)
      fun _ => Iff.rfl
    rw [List.filter_eq_nil_iff.mpr fun event hevent => ?_, List.append_nil]
    rw [hall event (List.mem_reverse.mp hevent), decide_eq_true_eq]
    exact Ne.symm heq

theorem Sound.advance (h : s.Sound) {elapsed : Option Rat} {run : BenchmarkRun} {phase : TaskPhase}
    {events : List AuditEvent} (hturn : Turn s id elapsed run phase events) :
    (s.advance id run phase events).Sound := by
  have hturns := h.turns hturn
  have hid := (h.live id hturns.live).1
  exact {
    runs_nodup := h.runs_nodup
    tasks_nodup := h.tasks_nodup
    runs_lt := h.runs_lt
    cancelling_lt := h.cancelling_lt
    tasks := h.tasks
    live := fun other hlive => by
      by_cases heq : other = id
      · exact heq ▸ h.live id hturns.live
      · exact h.live other ((advance_of_ne heq).2 ▸ hlive)
    consistent := fun other hother => by
      by_cases heq : other = id
      · rw [heq, advance_self.1, advance_self.2]
        exact hturns.consistent
      · rw [(advance_of_ne heq).1, (advance_of_ne heq).2]
        exact h.consistent other hother
    dropped := fun other hother => by
      by_cases heq : other = id
      · rw [heq, advance_self.1, advance_self.2]
        exact hturns.dropped
      · rw [(advance_of_ne heq).1, (advance_of_ne heq).2]
        exact h.dropped other hother
    awaited := h.awaited
    logged := fun other => (h.logged other).advance hid hturns }

/-! ### Creation and deletion -/

theorem Sound.start (h : s.Sound) (spec : BenchmarkSpec) (now : Rat) :
    (s.start spec now).Sound := by
  have hfresh : s.created ∉ s.runs := fun hmem => Nat.lt_irrefl _ (h.runs_lt _ hmem)
  have hcancelling : s.created ∉ s.cancelling :=
    fun hmem => Nat.lt_irrefl _ (h.cancelling_lt _ hmem)
  have htasks : s.created ∉ s.tasks := fun hmem => hfresh (h.tasks _ hmem).1
  have hlt : ∀ {other}, other < (s.start spec now).created → other ≠ s.created →
      other < s.created := fun hother hne =>
    lt_of_le_of_ne (Nat.lt_succ_iff.mp hother) hne
  exact {
    runs_nodup := List.Nodup.append h.runs_nodup (List.nodup_singleton _)
      (List.disjoint_singleton.mpr hfresh)
    tasks_nodup := List.Nodup.append h.tasks_nodup (List.nodup_singleton _)
      (List.disjoint_singleton.mpr htasks)
    runs_lt := fun other hother => by
      rcases List.mem_append.mp hother with hold | hnew
      · exact (h.runs_lt other hold).trans (Nat.lt_succ_self _)
      · exact List.mem_singleton.mp hnew ▸ Nat.lt_succ_self _
    cancelling_lt := fun other hother => (h.cancelling_lt other hother).trans (Nat.lt_succ_self _)
    tasks := fun other hother => by
      rcases List.mem_append.mp hother with hold | hnew
      · exact ⟨List.mem_append_left _ (h.tasks other hold).1, (h.tasks other hold).2⟩
      · rw [List.mem_singleton.mp hnew]
        exact ⟨List.mem_append_right _ (List.mem_singleton_self _), hcancelling⟩
    live := fun other hlive => by
      by_cases heq : other = s.created
      · rw [heq]
        exact ⟨Nat.lt_succ_self _, .inl (List.mem_append_right _ (List.mem_singleton_self _))⟩
      · obtain ⟨hold, htask⟩ := h.live other ((start_of_ne heq).2 ▸ hlive)
        exact ⟨hold.trans (Nat.lt_succ_self _), htask.imp_left (List.mem_append_left _)⟩
    consistent := fun other hother => by
      by_cases heq : other = s.created
      · rw [heq, start_self.1, start_self.2]
        exact .queued rfl rfl rfl rfl rfl (.inl rfl)
      · rw [(start_of_ne heq).1, (start_of_ne heq).2]
        exact h.consistent other (hlt hother heq)
    dropped := fun other hother hstatus hdone => by
      by_cases heq : other = s.created
      · rw [heq, start_self.2] at hdone
        cases hdone
      · rw [(start_of_ne heq).1] at hstatus
        rw [(start_of_ne heq).2] at hdone
        exact h.dropped other (hlt hother heq) hstatus hdone
    awaited := h.awaited
    logged := fun other => by
      have hold := h.logged other
      have hstory : (s.start spec now).story other = s.story other ++
          if s.created = other then [.created s.created spec.mode] else [] :=
        story_cons (s := s) (.created s.created spec.mode) rfl other
      by_cases heq : other = s.created
      · rw [if_pos heq.symm] at hstory
        have hnew : (s.start spec now).story other = [.created s.created spec.mode] :=
          hstory.trans (congrArg (· ++ [AuditEvent.created s.created spec.mode])
            (hold.unwritten heq.ge))
        refine ⟨fun hle => absurd hle (not_le.mpr (heq ▸ Nat.lt_succ_self _)), fun _ => ?_⟩
        refine ⟨0, fun _ => rfl, hnew.trans ?_⟩
        rw [heq, start_self.1, if_pos (show s.created ∈ (s.start spec now).runs from
          List.mem_append_right _ (List.mem_singleton_self _))]
        rfl
      · rw [if_neg (Ne.symm heq), List.append_nil] at hstory
        have hruns : other ∈ (s.start spec now).runs ↔ other ∈ s.runs := by
          refine List.mem_append.trans (or_iff_left fun hmem => ?_)
          exact heq (List.mem_singleton.mp hmem)
        refine hold.congr hstory ⟨fun hlt' => hlt hlt' heq, fun hlt' => hlt'.trans (Nat.lt_succ_self _)⟩
          (fun _ => ?_) fun _ => hruns
        rw [(start_of_ne heq).1]
        exact ⟨rfl, rfl, rfl⟩ }

theorem popTask_eq (s : BenchmarkRunner) (id : BenchmarkId) :
    (s.popTask id).1 = { s with
      tasks := s.tasks.erase id
      cancelling := if id ∈ s.tasks ∧ (s.phase id).done = false then id :: s.cancelling
        else s.cancelling } := by
  unfold popTask
  split_ifs <;> rfl

theorem Sound.popTask (h : s.Sound) (id : BenchmarkId) : (s.popTask id).1.Sound := by
  rw [popTask_eq]
  have hmem : ∀ other, other ∈ s.tasks.erase id → other ∈ s.tasks ∧ other ≠ id :=
    fun other hother => ((h.tasks_nodup.mem_erase_iff).mp hother).symm
  exact {
    runs_nodup := h.runs_nodup
    tasks_nodup := h.tasks_nodup.erase id
    runs_lt := h.runs_lt
    cancelling_lt := fun other hother => by
      dsimp only at hother
      split_ifs at hother with hlive
      · rcases List.mem_cons.mp hother with rfl | hold
        · exact h.runs_lt _ (h.tasks _ hlive.1).1
        · exact h.cancelling_lt other hold
      · exact h.cancelling_lt other hother
    tasks := fun other hother => by
      obtain ⟨hold, hne⟩ := hmem other hother
      refine ⟨(h.tasks other hold).1, ?_⟩
      dsimp only
      split_ifs
      · exact fun hmem => (List.mem_cons.mp hmem).elim hne (h.tasks other hold).2
      · exact (h.tasks other hold).2
    live := fun other hlive => by
      obtain ⟨hlt, hwhere⟩ := h.live other hlive
      refine ⟨hlt, ?_⟩
      dsimp only
      by_cases heq : other = id
      · subst heq
        rcases hwhere with htask | hcancelling
        · rw [if_pos ⟨htask, hlive⟩]
          exact .inr List.mem_cons_self
        · split_ifs
          · exact .inr List.mem_cons_self
          · exact .inr hcancelling
      · refine hwhere.imp (fun htask => (List.mem_erase_of_ne heq).mpr htask) fun hcancelling => ?_
        split_ifs
        · exact List.mem_cons_of_mem _ hcancelling
        · exact hcancelling
    consistent := h.consistent
    dropped := fun other hother hstatus hdone => by
      have hold := h.dropped other hother hstatus hdone
      dsimp only
      split_ifs
      · exact List.mem_cons_of_mem _ hold
      · exact hold
    awaited := fun other hawaits => by
      have hold := h.awaited other hawaits
      dsimp only
      split_ifs
      · exact List.mem_cons_of_mem _ hold
      · exact hold
    logged := fun other =>
      (h.logged other).congr rfl Iff.rfl (fun _ => ⟨rfl, rfl, rfl⟩) fun _ => Iff.rfl }

/-- A deletion takes the run out once its task is gone. -/
theorem Sound.popRun (h : s.Sound) (hid : id ∉ s.tasks) : (s.popRun id).Sound := by
  unfold BenchmarkRunner.popRun
  split_ifs with hruns
  · have hlt := h.runs_lt id hruns
    have hmem : ∀ other, other ∈ s.runs.erase id ↔ other ≠ id ∧ other ∈ s.runs :=
      fun other => h.runs_nodup.mem_erase_iff
    exact {
      runs_nodup := h.runs_nodup.erase id
      tasks_nodup := h.tasks_nodup
      runs_lt := fun other hother => h.runs_lt other (List.mem_of_mem_erase hother)
      cancelling_lt := h.cancelling_lt
      tasks := fun other hother => by
        have hne : other ≠ id := fun heq => hid (heq ▸ hother)
        exact ⟨(hmem other).mpr ⟨hne, (h.tasks other hother).1⟩, (h.tasks other hother).2⟩
      live := h.live
      consistent := h.consistent
      dropped := h.dropped
      awaited := h.awaited
      logged := fun other => by
        have hold := h.logged other
        have hstory : (BenchmarkRunner.record { s with runs := s.runs.erase id }
            (.deleted id)).story other = s.story other ++ if id = other then [.deleted id] else [] :=
          story_cons (s := s) (.deleted id) rfl other
        by_cases heq : other = id
        · subst heq
          refine ⟨fun hle => absurd hlt (not_lt.mpr hle), fun _ => ?_⟩
          obtain ⟨count, hcount, htold⟩ := hold.written hlt
          rw [if_pos hruns, List.append_nil] at htold
          refine ⟨count, hcount, ?_⟩
          calc _ = s.story other ++ [.deleted other] := hstory.trans (by rw [if_pos rfl])
            _ = .created other (s.run other).parameters.mode :: ((s.run other).ending other ++
                (List.replicate count (.baseline other) ++
                  if other ∈ s.runs.erase other then [] else [.deleted other])) := by
              rw [htold, if_neg (fun hmem' => ((hmem other).mp hmem').1 rfl)]
              simp
        · rw [if_neg (Ne.symm heq), List.append_nil] at hstory
          exact hold.congr hstory Iff.rfl (fun _ => ⟨rfl, rfl, rfl⟩) fun _ =>
            (hmem other).trans (and_iff_right heq) }
  · exact h

theorem notMem_popTask (h : s.Sound) (id : BenchmarkId) : id ∉ (s.popTask id).1.tasks := by
  rw [popTask_eq]
  exact fun hmem => ((h.tasks_nodup.mem_erase_iff).mp hmem).1 rfl

theorem popTask_cancelling {next : BenchmarkRunner} (hpop : s.popTask id = (next, true)) :
    id ∈ next.cancelling := by
  unfold BenchmarkRunner.popTask at hpop
  split_ifs at hpop
  · exact (Prod.mk.inj hpop).1 ▸ List.mem_cons_self
  · cases (Prod.mk.inj hpop).2

theorem Sound.frame (h : s.Sound) {deleting : List BenchmarkId} {closing : Closing}
    (hdeleting : ∀ id ∈ deleting, id ∈ s.cancelling)
    (hclosing : ∀ id rest, closing = .awaiting id rest → id ∈ s.cancelling) :
    Sound { s with deleting := deleting, closing := closing } :=
  ⟨h.runs_nodup, h.tasks_nodup, h.runs_lt, h.cancelling_lt, h.tasks, h.live, h.consistent,
    h.dropped, fun id hawaits => hawaits.elim (hdeleting id) fun ⟨rest, heq⟩ => hclosing id rest heq,
    fun id => (h.logged id).congr rfl Iff.rfl (fun _ => ⟨rfl, rfl, rfl⟩) fun _ => Iff.rfl⟩

theorem Sound.delete (h : s.Sound) (id : BenchmarkId) : (s.delete id).Sound := by
  have hpop := h.popTask id
  have hgone := notMem_popTask h id
  unfold BenchmarkRunner.delete
  split
  · rename_i next hnext
    rw [hnext] at hpop
    refine hpop.frame (fun other hother => ?_) fun other rest heq => hpop.awaited other (.inr ⟨rest, heq⟩)
    rcases List.mem_cons.mp hother with rfl | hold
    · exact popTask_cancelling hnext
    · exact hpop.awaited other (.inl hold)
  · rename_i next hnext
    rw [hnext] at hpop hgone
    exact hpop.popRun hgone

theorem Sound.notMem_tasks (h : s.Sound) (hawaits : s.Awaits id) : id ∉ s.tasks :=
  fun htask => (h.tasks id htask).2 (h.awaited id hawaits)

theorem Sound.closeLoop (h : s.Sound) (ids : List BenchmarkId) : (s.closeLoop ids).Sound := by
  induction ids generalizing s with
  | nil => exact h.frame (fun other hother => h.awaited other (.inl hother)) nofun
  | cons id rest ih =>
      have hpop := h.popTask id
      have hgone := notMem_popTask h id
      unfold BenchmarkRunner.closeLoop
      split
      · rename_i next hnext
        rw [hnext] at hpop
        refine hpop.frame (fun other hother => hpop.awaited other (.inl hother))
          fun other rest' heq => ?_
        exact (Closing.awaiting.inj heq).1 ▸ popTask_cancelling hnext
      · rename_i next hnext
        rw [hnext] at hpop hgone
        exact ih (hpop.popRun hgone)

/-! ### The baseline -/

theorem baseline_cases (hbaseline : s.baseline id = .ok s') :
    id ∈ s.runs ∧ (s.run id).status = .completed ∧ s' = BenchmarkRunner.record { s with
      run := fun other =>
        if other ∈ s.runs then { s.run other with baseline := decide (other = id) }
        else s.run other } (.baseline id) := by
  obtain ⟨run, hrun, hrest⟩ := Outcome.bind_eq_ok.mp hbaseline
  unfold benchmark at hrun
  split_ifs at hrun with hruns
  obtain rfl := Except.ok.inj hrun
  split_ifs at hrest with hstatus
  · cases hrest
  · cases hrest
    exact ⟨hruns, not_not.mp hstatus, rfl⟩

theorem Sound.baseline (h : s.Sound) (hbaseline : s.baseline id = .ok s') : s'.Sound := by
  obtain ⟨hruns, hcompleted, rfl⟩ := baseline_cases hbaseline
  have hmark : ∀ other, ∃ baseline, (if other ∈ s.runs then
      { s.run other with baseline := decide (other = id) } else s.run other) =
        { s.run other with baseline := baseline } := by
    intro other
    split_ifs
    · exact ⟨_, rfl⟩
    · exact ⟨(s.run other).baseline, rfl⟩
  exact {
    runs_nodup := h.runs_nodup
    tasks_nodup := h.tasks_nodup
    runs_lt := h.runs_lt
    cancelling_lt := h.cancelling_lt
    tasks := h.tasks
    live := h.live
    consistent := fun other hother => by
      obtain ⟨baseline, hrun⟩ := hmark other
      dsimp only [record]
      rw [hrun]
      exact (h.consistent other hother).mark baseline
    dropped := fun other hother hstatus hdone => by
      obtain ⟨baseline, hrun⟩ := hmark other
      dsimp only [record] at hstatus
      rw [hrun] at hstatus
      exact h.dropped other hother hstatus hdone
    awaited := h.awaited
    logged := fun other => by
      have hold := h.logged other
      obtain ⟨baseline, hrun⟩ := hmark other
      by_cases heq : other = id
      · subst heq
        have hlt := h.runs_lt other hruns
        obtain ⟨count, -, htold⟩ := hold.written hlt
        refine ⟨fun hle => absurd hlt (not_lt.mpr hle), fun _ => ⟨count + 1, ?_, ?_⟩⟩
        · intro hne
          dsimp only [record] at hne
          rw [hrun] at hne
          exact absurd hcompleted hne
        · refine (story_cons (s := s) (.baseline other) rfl other).trans ?_
          dsimp only [record, AuditEvent.id]
          rw [hrun, htold, if_pos hruns, List.replicate_succ']
          simp [BenchmarkRun.ending, hruns]
      · refine hold.congr ((story_cons (s := s) (.baseline id) rfl other).trans ?_) Iff.rfl
          (fun _ => ?_) fun _ => Iff.rfl
        · rw [if_neg (show (AuditEvent.baseline id).id ≠ other from Ne.symm heq), List.append_nil]
        · dsimp only [record]
          rw [hrun]
          exact ⟨rfl, rfl, rfl⟩ }

/-! ### Every run -/

theorem createBenchmark_step {ready : Bool} {spec : BenchmarkSpec} {now : Rat}
    (hstep : s.step (.create ready spec now) = some s') : s' = s.start spec now := by
  simp only [step, createBenchmark] at hstep
  split_ifs at hstep
  · cases hstep
  · cases hstep
  · exact (Option.some.inj hstep).symm

theorem baseline_step (hstep : s.step (.baseline id) = some s') : s.baseline id = .ok s' := by
  simp only [step] at hstep
  generalize s.baseline id = result at hstep ⊢
  cases result with
  | error error => cases hstep
  | ok next => exact congrArg Except.ok (Option.some.inj hstep)

/-- **One step.** -/
theorem Sound.step (h : s.Sound) {a : Action} (hstep : s.step a = some s') : s'.Sound := by
  cases a with
  | create ready spec now =>
      obtain rfl := createBenchmark_step hstep
      exact h.start spec now
  | begin id now | answered id outcome now | woke id now | cancelled id now =>
      obtain ⟨elapsed, run, phase, events, -, hturn, rfl⟩ := task_cases rfl hstep
      exact h.advance hturn
  | delete id => exact Option.some.inj hstep ▸ h.delete id
  | deleteResumed id =>
      simp only [BenchmarkRunner.step, deleteResumed] at hstep
      split_ifs at hstep with hawaited
      rw [← Option.some.inj hstep]
      have hgone := h.notMem_tasks (.inl hawaited.1)
      refine Sound.popRun (h.frame (fun other hother => ?_) fun other rest heq => ?_) hgone
      · exact h.awaited other (.inl (List.mem_of_mem_erase hother))
      · exact h.awaited other (.inr ⟨rest, heq⟩)
  | baseline id => exact h.baseline (baseline_step hstep)
  | close =>
      simp only [BenchmarkRunner.step, close] at hstep
      split at hstep
      · exact Option.some.inj hstep ▸ h.closeLoop s.tasks
      · cases hstep
  | closeResumed =>
      simp only [BenchmarkRunner.step, closeResumed] at hstep
      split at hstep
      · rename_i id rest hclosing
        split_ifs at hstep
        rw [← Option.some.inj hstep]
        exact (h.popRun (h.notMem_tasks (.inr ⟨rest, hclosing⟩))).closeLoop rest
      · cases hstep

theorem sound (hreach : Reachable step Initial s) : s.Sound :=
  hreach.invariant (fun _ => Initial.sound) fun _ _ _ h _ hstep => h.step hstep

/-- **The audit log** tells the whole life of every benchmark, each event once and in order. -/
theorem audit_story (hreach : Reachable step Initial s) (id : BenchmarkId) : s.Logged id :=
  (sound hreach).logged id

/-- A benchmark that is deleted twice, the second time while the first deletion awaits its task. -/
theorem audit_story_of_deleted : ∃ s, Reachable step Initial s ∧ s.Logged 0 ∧
    s.story 0 = [.created 0 .lowPriority, .deleted 0] := by
  have hrun : Transition.run step {} [.create true {} 0, .begin 0 0, .delete 0, .delete 0,
    .cancelled 0 0, .deleteResumed 0] = some _ := rfl
  have hinit : Initial {} := rfl
  have hreach := reachable_of_run hinit hrun
  exact ⟨_, hreach, audit_story hreach 0, rfl⟩

end BenchmarkRunner

end RerankerService
