import Mathlib.Tactic.Linarith
import RerankerService.Foundation.OrderStatistics
import RerankerService.Proof.BenchmarkRuns
import RerankerService.Proof.Timeseries

/-!
# What a benchmark reports

The times of the requests of a benchmark, in the order in which they were answered, are kept beside
the runner. The results of a completed run are the statistics of those after the warm-up, which are
as many as the parameters ask for.
-/

namespace RerankerService

open OrderStatistics Transition

/-! ### Percentiles -/

theorem roundHalfEven_mono {x y : Rat} (hle : x ≤ y) : roundHalfEven x ≤ roundHalfEven y := by
  have hfloor : ⌊x⌋ ≤ ⌊y⌋ := Int.floor_le_floor hle
  rcases hfloor.lt_or_eq with hlt | heq
  · have hhigh : roundHalfEven x ≤ ⌊x⌋ + 1 := by
      unfold roundHalfEven
      dsimp only
      split_ifs <;> omega
    have hlow : ⌊y⌋ ≤ roundHalfEven y := by
      unfold roundHalfEven
      dsimp only
      split_ifs <;> omega
    omega
  · have hrest : x - ⌊x⌋ ≤ y - ⌊x⌋ := by linarith
    unfold roundHalfEven
    rw [← heq]
    dsimp only
    split_ifs <;> first | omega | (exfalso; linarith)

/-- The rank that a percentile has among so many values. -/
def percentileRank (count : Nat) (fraction : Rat) : Nat := (percentileIndex count fraction).toNat

theorem percentileIndex_nonneg {count : Nat} {fraction : Rat} (hcount : 0 < count)
    (hfraction : 0 ≤ fraction) : 0 ≤ percentileIndex count fraction := by
  have hlast : (0 : Rat) ≤ (count : Rat) - 1 := by
    have hone : (1 : Rat) ≤ count := by exact_mod_cast hcount
    linarith
  exact le_min (roundHalfEven_nonneg (mul_nonneg hlast hfraction)) (by omega)

theorem percentileRank_lt {count : Nat} (hcount : 0 < count) (fraction : Rat) :
    percentileRank count fraction < count := by
  have hle : percentileIndex count fraction ≤ count - 1 := min_le_right _ _
  unfold percentileRank
  omega

theorem percentileRank_mono {count : Nat} {fraction fraction' : Rat} (hcount : 0 < count)
    (hle : fraction ≤ fraction') : percentileRank count fraction ≤ percentileRank count fraction' := by
  have hlast : (0 : Rat) ≤ (count : Rat) - 1 := by
    have hone : (1 : Rat) ≤ count := by exact_mod_cast hcount
    linarith
  exact Int.toNat_le_toNat
    (min_le_min_right _ (roundHalfEven_mono (mul_le_mul_of_nonneg_left hle hlast)))

theorem percentile_ranked {values : List Rat} {fraction : Rat} (hne : values ≠ [])
    (hfraction : 0 ≤ fraction) : ∃ value, percentile values fraction = .ok value ∧
      Ranked values (percentileRank values.length fraction) value := by
  have hcount : 0 < values.length := List.length_pos_iff.mpr hne
  have hlength : (values.insertionSort (· ≤ ·)).length = values.length :=
    List.length_insertionSort _ _
  have hnonneg := percentileIndex_nonneg hcount hfraction
  have hrank : percentileRank values.length fraction < (values.insertionSort (· ≤ ·)).length :=
    (percentileRank_lt hcount fraction).trans_eq hlength.symm
  refine ⟨_, ?_, ranked_insertionSort values hrank⟩
  unfold percentile
  dsimp only
  rw [hlength]
  unfold getIndex
  dsimp only
  rw [if_neg hnonneg.not_gt, if_neg hnonneg.not_gt]
  simp only [← percentileRank.eq_1, List.getElem?_eq_getElem hrank]

/-! ### The statistics of one benchmark -/

/-- The results are the statistics of these times, each of a request with so many documents. -/
structure BenchmarkResults.Summarizes (results : BenchmarkResults) (times : List Rat)
    (documentCount : Nat) : Prop where
  requests : results.requests = times.length
  pairs : results.pairs = times.length * documentCount
  p50 : Ranked times (percentileRank times.length (50 / 100)) results.p50Ms
  p95 : Ranked times (percentileRank times.length (95 / 100)) results.p95Ms
  p99 : Ranked times (percentileRank times.length (99 / 100)) results.p99Ms
  ordered : results.p50Ms ≤ results.p95Ms ∧ results.p95Ms ≤ results.p99Ms
  mean : results.meanMs * times.length = times.sum
  between : ∃ least ∈ times, ∃ largest ∈ times, (∀ time ∈ times, least ≤ time ∧ time ≤ largest) ∧
    least ≤ results.meanMs ∧ results.meanMs ≤ largest
  throughput : times.sum ≠ 0 → results.pairsPerSecond * (times.sum / 1000) = results.pairs
  documents : results.documentsPerSecond = results.pairsPerSecond

/-- With a measured request there are results. -/
theorem evaluate_summarizes {times : List Rat} (hne : times ≠ []) (documentCount : Nat) :
    ∃ results, evaluate times (times.length * documentCount) = .ok results ∧
      results.Summarizes times documentCount := by
  have hcount : 0 < times.length := List.length_pos_iff.mpr hne
  have hlength : (times.length : Rat) ≠ 0 := by exact_mod_cast hcount.ne'
  obtain ⟨p50, hp50, hrank50⟩ := percentile_ranked hne (show (0 : Rat) ≤ 50 / 100 by norm_num)
  obtain ⟨p95, hp95, hrank95⟩ := percentile_ranked hne (show (0 : Rat) ≤ 95 / 100 by norm_num)
  obtain ⟨p99, hp99, hrank99⟩ := percentile_ranked hne (show (0 : Rat) ≤ 99 / 100 by norm_num)
  obtain ⟨least, hleast, largest, hlargest, hbetween⟩ := AdminState.exists_extremes hne
  have hmean : mean times = .ok (times.sum / times.length) := if_neg hne
  refine ⟨_, by rw [evaluate, hp50, hp95, hp99, hmean]; rfl, ?_⟩
  exact {
    requests := rfl
    pairs := rfl
    p50 := hrank50
    p95 := hrank95
    p99 := hrank99
    ordered :=
      ⟨hrank50.le hrank95 (percentileRank_mono hcount (by norm_num)),
        hrank95.le hrank99 (percentileRank_mono hcount (by norm_num))⟩
    mean := div_mul_cancel₀ _ hlength
    between := ⟨least, hleast, largest, hlargest, hbetween,
      AdminState.mean_range hcount hbetween⟩
    throughput := fun hsum => by
      have hseconds : times.sum / 1000 ≠ 0 := div_ne_zero hsum (by norm_num)
      dsimp only [perSecond]
      rw [if_neg hseconds, div_mul_cancel₀ _ hseconds]
    documents := rfl }

/-! ### The requests of one benchmark -/

namespace BenchmarkParameters

variable (parameters : BenchmarkParameters)

/-- The requests of the warm-up. -/
def warmups : Nat := parameters.warmupCount * parameters.cases.length

theorem warmups_lt : parameters.warmups < parameters.plan.length := by
  have hcases := parameters.cases_length_pos
  have hrepetitions := parameters.repetitions_range.1
  have hmore := Nat.mul_pos hrepetitions hcases
  rw [plan_length, Nat.add_mul, warmups]
  omega

/-- A body belongs to the warm-up if and only if it is among the first ones. -/
theorem plan_warmup {index iteration : Nat} {case : DatasetCase}
    (hbody : parameters.plan[index]? = some (iteration, case)) :
    parameters.warmupCount ≤ iteration ↔ parameters.warmups ≤ index := by
  rw [plan_eq] at hbody
  have hlength : ((List.range parameters.warmupCount).flatMap fun iteration =>
      parameters.cases.map fun case => (iteration, case)).length = parameters.warmups := by
    simp [List.length_flatMap, warmups]
  by_cases hlt : index < parameters.warmups
  · rw [List.getElem?_append_left (hlength ▸ hlt)] at hbody
    obtain ⟨i, hi, hmem⟩ := List.mem_flatMap.mp (List.mem_of_getElem? hbody)
    obtain ⟨_, -, heq⟩ := List.mem_map.mp hmem
    have hiteration := (Prod.mk.inj heq).1
    rw [List.mem_range] at hi
    omega
  · rw [List.getElem?_append_right (hlength ▸ not_lt.mp hlt)] at hbody
    obtain ⟨i, hi, hmem⟩ := List.mem_flatMap.mp (List.mem_of_getElem? hbody)
    obtain ⟨_, -, heq⟩ := List.mem_map.mp hmem
    have hiteration := (Prod.mk.inj heq).1
    omega

end BenchmarkParameters

/-- The locals of a task after requests that took these times. -/
structure Progress.Tracks (progress : Progress) (parameters : BenchmarkParameters)
    (times : List Rat) : Prop where
  within : times.length ≤ parameters.plan.length
  pending : progress.pending = parameters.plan.drop times.length
  latencies : progress.latencies = times.drop parameters.warmups
  pairs : progress.pairs = (times.drop parameters.warmups).length * parameters.documentCount

theorem Progress.Tracks.answered {progress : Progress} {parameters : BenchmarkParameters}
    {times : List Rat} (h : progress.Tracks parameters times) (hpending : progress.pending ≠ [])
    (elapsed : Rat) :
    (progress.answered parameters elapsed).Tracks parameters (times ++ [elapsed]) := by
  obtain ⟨⟨iteration, case⟩, rest, hbody⟩ := List.exists_cons_of_ne_nil hpending
  have hdrop := h.pending.symm.trans hbody
  have hrest : parameters.plan.drop (times ++ [elapsed]).length = rest := by
    rw [List.length_append, List.length_singleton, ← List.drop_drop, hdrop]
    rfl
  have hget : parameters.plan[times.length]? = some (iteration, case) := by
    rw [← List.head?_drop, hdrop]
    rfl
  have hwithin : (times ++ [elapsed]).length ≤ parameters.plan.length := by
    have hlt := (List.getElem?_eq_some_iff.mp hget).1
    simpa using Nat.succ_le_of_lt hlt
  have hwarmup := parameters.plan_warmup hget
  unfold Progress.answered
  rw [hbody]
  dsimp only
  split_ifs with hmeasured
  · have hlast : (times ++ [elapsed]).drop parameters.warmups =
        times.drop parameters.warmups ++ [elapsed] :=
      List.drop_append_of_le_length (hwarmup.mp hmeasured)
    refine ⟨hwithin, hrest.symm, ?_, ?_⟩
    · rw [hlast, h.latencies]
    · rw [hlast, h.pairs, List.length_append, List.length_singleton, Nat.add_mul, Nat.one_mul]
  · have hshort : times.length < parameters.warmups := not_le.mp fun hle => hmeasured (hwarmup.mpr hle)
    have hnone : times.drop parameters.warmups = [] := List.drop_eq_nil_of_le hshort.le
    have hnone' : (times ++ [elapsed]).drop parameters.warmups = [] :=
      List.drop_eq_nil_of_le (by simpa using Nat.succ_le_of_lt hshort)
    refine ⟨hwithin, hrest.symm, ?_, ?_⟩
    · rw [hnone', h.latencies, hnone]
    · rw [hnone', h.pairs, hnone]

/-! ### Every run -/

/-- The runner, with the times of the requests of each benchmark. -/
structure Watched where
  runner : BenchmarkRunner
  times : BenchmarkId → List Rat

namespace Watched

variable {w w' : Watched}

def step (w : Watched) (a : BenchmarkRunner.Action) : Option Watched :=
  (w.runner.step a).map fun runner =>
    { runner
      times :=
        match a.answer with
        | some (id, elapsed) => Function.update w.times id (w.times id ++ [elapsed])
        | none => w.times }

def Initial (w : Watched) : Prop :=
  BenchmarkRunner.Initial w.runner ∧ w.times = fun _ => []

theorem step_cases {a : BenchmarkRunner.Action} (hstep : w.step a = some w') :
    w.runner.step a = some w'.runner ∧ w'.times =
      match a.answer with
      | some (id, elapsed) => Function.update w.times id (w.times id ++ [elapsed])
      | none => w.times := by
  obtain ⟨runner, hrunner, rfl⟩ := Option.map_eq_some_iff.mp hstep
  exact ⟨hrunner, rfl⟩

/-- A run without its times is a run of the runner. -/
theorem reachable (hreach : Reachable step Initial w) :
    Reachable BenchmarkRunner.step BenchmarkRunner.Initial w.runner := by
  induction hreach with
  | start hinit => exact .start hinit.1
  | next _ _ hstep ih => exact .next ih trivial (step_cases hstep).1

/-- What is known of a benchmark whose requests took these times. -/
inductive Measured (run : BenchmarkRun) (times : List Rat) : TaskPhase → Prop where
  | created (htimes : times = []) : Measured run times .created
  | calling {progress : Progress} (htracks : progress.Tracks run.parameters times)
      (hpending : progress.pending ≠ []) : Measured run times (.calling progress)
  | sleeping {progress : Progress} (htracks : progress.Tracks run.parameters times) :
      Measured run times (.sleeping progress)
  | ended
      (hcompleted : run.status = .completed → times.length = run.parameters.plan.length ∧
        ∃ results, run.results = some results ∧
          results.Summarizes (times.drop run.parameters.warmups) run.parameters.documentCount) :
      Measured run times .ended

/-- What a task goes on with tracks the requests, the one that was just answered included. -/
theorem Measured.goes {run : BenchmarkRun} {times : List Rat} {phase : TaskPhase}
    {elapsed : Option Rat} {progress : Progress} (h : Measured run times phase)
    (hgoes : BenchmarkRunner.Goes run.parameters phase elapsed progress) :
    progress.Tracks run.parameters (times ++ elapsed.toList) := by
  cases hgoes with
  | answered =>
      cases h with
      | calling htracks hpending => exact htracks.answered hpending _
  | woke =>
      cases h with
      | sleeping htracks =>
          rw [Option.toList_none, List.append_nil]
          exact htracks

theorem Measured.turn {s : BenchmarkRunner} {id : BenchmarkId} {times : List Rat}
    {elapsed : Option Rat} {run : BenchmarkRun} {phase : TaskPhase} {events : List AuditEvent}
    (hsound : s.Sound) (h : Measured (s.run id) times (s.phase id))
    (hturn : BenchmarkRunner.Turn s id elapsed run phase events) :
    Measured run (times ++ elapsed.toList) phase := by
  have hstatus := (hsound.turns hturn).before
  cases hturn with
  | begun hphase hcancelling =>
      rw [hphase] at h
      cases h with
      | created htimes =>
          rw [htimes]
          exact .calling ⟨Nat.zero_le _, rfl, List.drop_nil.symm, by simp⟩
            (s.run id).parameters.plan_ne
  | dropped hphase hgone =>
      refine .ended fun hcompleted => ?_
      rcases hstatus with hbefore | hbefore <;> rw [hcompleted] at hbefore <;> cases hbefore
  | called hgoes hpending => exact .calling (h.goes hgoes) hpending
  | napped hgoes => exact .sleeping (h.goes hgoes)
  | completed hgoes hpending hresults hcancelling =>
      have htracks := h.goes hgoes
      generalize times ++ elapsed.toList = times' at htracks
      refine .ended fun _ => ?_
      have hall : times'.length = (s.run id).parameters.plan.length := by
        have hdrop := List.drop_eq_nil_iff.mp (htracks.pending.symm.trans hpending)
        exact le_antisymm htracks.within hdrop
      have hne : times'.drop (s.run id).parameters.warmups ≠ [] := by
        have hlt := (s.run id).parameters.warmups_lt
        rw [Ne, List.drop_eq_nil_iff]
        omega
      obtain ⟨results', heval, hsummarizes⟩ :=
        evaluate_summarizes hne (s.run id).parameters.documentCount
      rw [htracks.latencies, htracks.pairs, heval] at hresults
      exact ⟨hall, results', congrArg some (Except.ok.inj hresults).symm, hsummarizes⟩
  | cancelled hphase => exact .ended nofun
  | failed hphase hcancelling => exact .ended nofun

theorem measured (hreach : Reachable step Initial w) (id : BenchmarkId) :
    (id < w.runner.created →
      Measured (w.runner.run id) (w.times id) (w.runner.phase id)) ∧
      (w.runner.created ≤ id → w.times id = []) := by
  induction hreach with
  | start hinit =>
      obtain ⟨hrunner, htimes⟩ := hinit
      rw [show _ = _ from hrunner, htimes]
      exact ⟨nofun, fun _ => rfl⟩
  | @next w a w' hreach _ hstep ih =>
      have hsound := BenchmarkRunner.sound (reachable hreach)
      obtain ⟨hrunner, htimes⟩ := step_cases hstep
      generalize w'.runner = s' at hrunner ⊢
      rcases BenchmarkRunner.step_cases hrunner with ⟨spec, now, hanswer, rfl⟩ |
        ⟨other, elapsed, run, phase, events, hanswer, hturn, rfl⟩ | ⟨other, hanswer, hbaseline⟩ |
        ⟨hanswer, hremoves⟩
      · rw [hanswer] at htimes
        rw [htimes]
        refine ⟨fun hid => ?_, fun hid => ih.2 ((Nat.le_succ _).trans hid)⟩
        by_cases heq : id = w.runner.created
        · rw [heq, BenchmarkRunner.start_self.1, BenchmarkRunner.start_self.2]
          exact .created (heq ▸ ih.2 heq.ge)
        · rw [(BenchmarkRunner.start_of_ne heq).1, (BenchmarkRunner.start_of_ne heq).2]
          exact ih.1 (lt_of_le_of_ne (Nat.lt_succ_iff.mp hid) heq)
      · have hother := (hsound.live other (hsound.turns hturn).live).1
        have htold : w'.times other = w.times other ++ elapsed.toList ∧
            ∀ id ≠ other, w'.times id = w.times id := by
          rw [htimes, hanswer]
          cases elapsed with
          | none => exact ⟨(List.append_nil _).symm, fun _ _ => rfl⟩
          | some time =>
              exact ⟨Function.update_self _ _ _, fun id hne => Function.update_of_ne hne _ _⟩
        by_cases heq : id = other
        · subst heq
          rw [BenchmarkRunner.advance_self.1, BenchmarkRunner.advance_self.2, htold.1]
          exact ⟨fun _ => (ih.1 hother).turn hsound hturn,
            fun hle => absurd hother (not_lt.mpr hle)⟩
        · rw [(BenchmarkRunner.advance_of_ne heq).1, (BenchmarkRunner.advance_of_ne heq).2,
            htold.2 id heq]
          exact ih
      · rw [hanswer] at htimes
        rw [htimes]
        obtain ⟨-, -, rfl⟩ := BenchmarkRunner.baseline_cases hbaseline
        refine ⟨fun hid => ?_, ih.2⟩
        have hold := ih.1 hid
        dsimp only [BenchmarkRunner.record]
        split_ifs
        · generalize w.runner.phase id = phase at hold ⊢
          cases hold with
          | created hnone => exact .created hnone
          | calling htracks hpending => exact .calling htracks hpending
          | sleeping htracks => exact .sleeping htracks
          | ended hcompleted => exact .ended hcompleted
        · exact hold
      · rw [hanswer] at htimes
        rw [htimes, hremoves.run, hremoves.phase, hremoves.created]
        exact ih

/-- The last answer of a benchmark in exclusive mode. -/
theorem step_last {id : BenchmarkId} {progress : Progress} (elapsed now : Rat)
    {results : BenchmarkResults} (hphase : w.runner.phase id = .calling progress)
    (hcancelling : id ∉ w.runner.cancelling)
    (hmode : (w.runner.run id).parameters.mode = .exclusive)
    (hpending : (progress.answered (w.runner.run id).parameters elapsed).pending = [])
    (heval : evaluate (progress.answered (w.runner.run id).parameters elapsed).latencies
      (progress.answered (w.runner.run id).parameters elapsed).pairs = .ok results) :
    w.step (.answered id (.ok elapsed) now) = some
      { runner := w.runner.completed id results now
        times := Function.update w.times id (w.times id ++ [elapsed]) } := by
  rw [step, BenchmarkRunner.answered_last id elapsed now hphase hcancelling hmode hpending heval]
  rfl

/-- **A completed benchmark** has made every request that its parameters ask for, and reports the
statistics of those after the warm-up. -/
theorem completed_results (hreach : Reachable step Initial w) {id : BenchmarkId}
    (hid : id < w.runner.created) (hcompleted : (w.runner.run id).status = .completed) :
    (w.times id).length = ((w.runner.run id).parameters.warmupCount +
        (w.runner.run id).parameters.repetitions) * (w.runner.run id).parameters.cases.length ∧
      ∃ results, (w.runner.run id).results = some results ∧
        results.requests = (w.runner.run id).parameters.repetitions *
          (w.runner.run id).parameters.cases.length ∧
        results.Summarizes ((w.times id).drop ((w.runner.run id).parameters.warmupCount *
          (w.runner.run id).parameters.cases.length)) (w.runner.run id).parameters.documentCount := by
  have hmeasured := (measured hreach id).1 hid
  have hended : w.runner.phase id = .ended := by
    have hconsistent := (BenchmarkRunner.sound (reachable hreach)).consistent id hid
    generalize w.runner.phase id = phase at hconsistent
    cases hconsistent with
    | completed => rfl
    | queued hstatus | running hstatus | cancelled hstatus | failed hstatus =>
        cases hstatus.symm.trans hcompleted
  rw [hended] at hmeasured
  cases hmeasured with
  | ended h =>
      obtain ⟨hlength, results, hresults, hsummarizes⟩ := h hcompleted
      rw [BenchmarkParameters.plan_length] at hlength
      refine ⟨hlength, results, hresults, ?_, hsummarizes⟩
      rw [hsummarizes.requests, List.length_drop, hlength, BenchmarkParameters.warmups, Nat.add_mul,
        Nat.add_sub_cancel_left]

/-- A benchmark with one request to warm up and two that are measured. -/
theorem completed_results_of_two : ∃ w results, Reachable step Initial w ∧
    w.times 0 = [4, 5, 7] ∧ (w.runner.run 0).results = some results ∧ results.requests = 2 := by
  obtain ⟨w, hrun, hphase, hcancelling, hparameters, htimes, hcreated⟩ : ∃ w,
      run step { runner := {}, times := fun _ => [] }
        [.create true {
            mode := .exclusive, repetitions := 2, warmupCount := 1, multilingual := false
            confirm := some "EXCLUSIVE" } 0,
          .begin 0 0, .answered 0 (.ok 4) 0, .answered 0 (.ok 5) 0] = some w ∧
        w.runner.phase 0 = .calling { latencies := [5], pairs := 2
                                      pending := (w.runner.run 0).parameters.plan.drop 2 } ∧
        w.runner.cancelling = [] ∧ (w.runner.run 0).parameters =
          { mode := .exclusive, repetitions := 2, warmupCount := 1, multilingual := false } ∧
        w.times 0 = [4, 5] ∧ w.runner.created = 1 := ⟨_, rfl, rfl, rfl, rfl, rfl, rfl⟩
  have hinit : Initial { runner := {}, times := fun _ => [] } := ⟨rfl, rfl⟩
  have hbegun := reachable_of_run hinit hrun
  obtain ⟨results, heval, -⟩ := evaluate_summarizes (List.cons_ne_nil (5 : Rat) [7]) 2
  have hreach := hbegun.next trivial (step_last 7 0 hphase (by rw [hcancelling]; exact nofun)
    (by rw [hparameters]) (by rw [hparameters]; rfl) (by rw [hparameters]; exact heval))
  have hlast : (w.runner.completed 0 results 0).run 0 = { w.runner.run 0 with
      status := .completed, results := some results, finishedAt := some 0 } := by
    simp [BenchmarkRunner.completed, BenchmarkRunner.record, BenchmarkRunner.setPhase,
      BenchmarkRunner.setRun]
  obtain ⟨-, results', hresults, hrequests, -⟩ :=
    completed_results hreach (hcreated ▸ Nat.one_pos) (congrArg BenchmarkRun.status hlast)
  refine ⟨_, results', hreach, ?_, hresults, hrequests.trans ?_⟩
  · simp [htimes]
  · rw [hlast, hparameters]
    rfl

end Watched

end RerankerService
