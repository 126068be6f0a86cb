import RerankerService.Arithmetic
import RerankerService.Runtime.Candidate
import RerankerService.Service.Request

/-!
# Benchmarks

`benchmark.py` and the `/v1/admin/benchmarks` endpoints of `main.py`. Runs are objects that the tasks
keep after a deletion, so they are numbered; `runs` and `tasks` are the keys of the two dictionaries.
One action is what one coroutine does between two awaits. The memory figures are left out, and a
cancellation that was requested is the next thing that a task sees.
-/

namespace RerankerService

inductive BenchmarkMode where
  | lowPriority
  | exclusive
  deriving DecidableEq

/-- What a run keeps of its specification. -/
structure BenchmarkParameters where
  mode : BenchmarkMode := .lowPriority
  repetitions : Nat := 5
  warmupCount : Nat := 1
  documentCount : Nat := 2
  multilingual : Bool := true
  repetitions_range : 1 ≤ repetitions ∧ repetitions ≤ 100 := by decide
  warmupCount_range : warmupCount ≤ 20 := by decide
  documentCount_range : 1 ≤ documentCount ∧ documentCount ≤ 100 := by decide

structure BenchmarkSpec extends BenchmarkParameters where
  confirm : Option String := none

/-! ### The dataset -/

structure DatasetCase where
  query : Text
  candidates : List Text
  query_ne : query ≠ [] := by decide
  candidates_ne : 0 < candidates.length := by decide
  texts_ne : ∀ text ∈ candidates, text ≠ [] := by decide

def dataset : List DatasetCase :=
  [{ query := "Describe the candidate's Kubernetes experience".toList
     candidates :=
      ["Basic conceptual knowledge of Kubernetes. No hands-on production experience.".toList,
        "Production experience with Docker and Docker Compose.".toList,
        "Strong experience administering Microsoft SQL Server.".toList] },
    { query := "Опишите опыт кандидата с Python".toList
      candidates :=
        ["Пять лет разрабатывал backend-сервисы на Python и FastAPI.".toList,
          "Администрировал кластеры Microsoft SQL Server.".toList,
          "Работал с Docker и Kubernetes в production.".toList] }]

namespace DatasetCase

/-- `candidates[index % len(candidates)]`. -/
def candidate (case : DatasetCase) (index : Nat) : Text :=
  case.candidates.get ⟨index % case.candidates.length, Nat.mod_lt _ case.candidates_ne⟩

def document (case : DatasetCase) (index : Nat) : Document where
  id := "bench-".toList ++ decimal index
  text := case.candidate index
  text_ne := case.texts_ne _ (List.get_mem _ _)

theorem documents_ne (case : DatasetCase) {count : Nat} (hcount : 1 ≤ count) :
    (List.range count).map case.document ≠ [] := by
  rw [Ne, List.map_eq_nil_iff, List.range_eq_nil]
  omega

end DatasetCase

namespace BenchmarkParameters

def cases (parameters : BenchmarkParameters) : List DatasetCase :=
  if parameters.multilingual then dataset else dataset.take 1

/-- The bodies of the two loops, each with its iteration. -/
def plan (parameters : BenchmarkParameters) : List (Nat × DatasetCase) :=
  (List.range (parameters.warmupCount + parameters.repetitions)).flatMap fun iteration =>
    parameters.cases.map fun case => (iteration, case)

/-- The request of one body. -/
def request (parameters : BenchmarkParameters) (case : DatasetCase) (requestId : Nat) :
    RerankRequest where
  requestId := requestId
  query := case.query
  documents := (List.range parameters.documentCount).map case.document
  topN := some parameters.documentCount
  returnDocuments := false
  query_ne := case.query_ne
  documents_ne := case.documents_ne parameters.documentCount_range.1
  topN_pos := fun _ htop => Option.some.inj htop ▸ parameters.documentCount_range.1

end BenchmarkParameters

/-! ### Results -/

structure BenchmarkResults where
  requests : Nat
  pairs : Nat
  p50Ms : Rat
  p95Ms : Rat
  p99Ms : Rat
  meanMs : Rat
  pairsPerSecond : Rat
  documentsPerSecond : Rat
  deriving DecidableEq

def percentileIndex (count : Nat) (fraction : Rat) : Int :=
  min (roundHalfEven ((count - 1) * fraction)) (count - 1)

def percentile (values : List Rat) (fraction : Rat) : Except Error Rat :=
  let ordered := values.insertionSort (· ≤ ·)
  getIndex ordered (percentileIndex ordered.length fraction)

/-- `statistics.mean(values)`. -/
def mean (values : List Rat) : Except Error Rat :=
  if values = [] then
    .error (.exception "StatisticsError" "mean requires at least one data point")
  else .ok (values.sum / values.length)

/-- `pairs / seconds if seconds else 0`. -/
def perSecond (pairs : Nat) (seconds : Rat) : Rat :=
  if seconds = 0 then 0 else pairs / seconds

/-- The `results` of a run that measured these latencies. -/
def evaluate (latencies : List Rat) (pairs : Nat) : Except Error BenchmarkResults := do
  let seconds := latencies.sum / 1000
  let p50 ← percentile latencies (50 / 100)
  let p95 ← percentile latencies (95 / 100)
  let p99 ← percentile latencies (99 / 100)
  let mean ← mean latencies
  return {
    requests := latencies.length
    pairs
    p50Ms := p50
    p95Ms := p95
    p99Ms := p99
    meanMs := mean
    pairsPerSecond := perSecond pairs seconds
    documentsPerSecond := perSecond pairs seconds }

/-! ### Runs and their tasks -/

inductive RunStatus where
  | queued
  | running
  | completed
  | cancelled
  | failed
  deriving DecidableEq

structure BenchmarkRun where
  status : RunStatus := .queued
  createdAt : Rat
  parameters : BenchmarkParameters
  baseline : Bool := false
  results : Option BenchmarkResults := none
  error : Option String := none
  startedAt : Option Rat := none
  finishedAt : Option Rat := none

/-- The locals of `_execute`: what was measured, and the bodies of the loops that are left. -/
structure Progress where
  latencies : List Rat := []
  pairs : Nat := 0
  pending : List (Nat × DatasetCase)

/-- Where a task is. While it awaits `service.rerank`, that is for the first pending body. -/
inductive TaskPhase where
  | created
  | calling (progress : Progress)
  | sleeping (progress : Progress)
  | ended

def TaskPhase.done : TaskPhase → Bool
  | .ended => true
  | _ => false

/-- The request was answered after `elapsed` milliseconds; a warm-up is not measured. -/
def Progress.answered (progress : Progress) (parameters : BenchmarkParameters) (elapsed : Rat) :
    Progress :=
  match progress.pending with
  | [] => progress
  | (iteration, _) :: rest =>
      if parameters.warmupCount ≤ iteration then
        { latencies := progress.latencies ++ [elapsed]
          pairs := progress.pairs + parameters.documentCount
          pending := rest }
      else { progress with pending := rest }

abbrev BenchmarkId := Nat

inductive AuditEvent where
  | created (id : BenchmarkId) (mode : BenchmarkMode)
  | completed (id : BenchmarkId)
  | failed (id : BenchmarkId) (error : String)
  | deleted (id : BenchmarkId)
  | baseline (id : BenchmarkId)
  deriving DecidableEq

/-- How far the loop of `close()` is. -/
inductive Closing where
  | serving
  | awaiting (id : BenchmarkId) (rest : List BenchmarkId)
  | closed

/-- The runs created so far are those below `created`. `cancelling` are the tasks whose cancellation
was requested, `deleting` those that a `delete` of a client awaits. `audit` has every event, the
latest first; the deque keeps the first thousand. -/
structure BenchmarkRunner where
  created : Nat := 0
  run : BenchmarkId → BenchmarkRun := fun _ => { createdAt := 0, parameters := {} }
  runs : List BenchmarkId := []
  tasks : List BenchmarkId := []
  phase : BenchmarkId → TaskPhase := fun _ => .ended
  cancelling : List BenchmarkId := []
  deleting : List BenchmarkId := []
  closing : Closing := .serving
  audit : List AuditEvent := []

namespace BenchmarkRunner

def record (s : BenchmarkRunner) (event : AuditEvent) : BenchmarkRunner :=
  { s with audit := event :: s.audit }

def setRun (s : BenchmarkRunner) (id : BenchmarkId) (run : BenchmarkRun) : BenchmarkRunner :=
  { s with run := Function.update s.run id run }

def setPhase (s : BenchmarkRunner) (id : BenchmarkId) (phase : TaskPhase) : BenchmarkRunner :=
  { s with phase := Function.update s.phase id phase }

/-! ### Starting -/

def start (s : BenchmarkRunner) (spec : BenchmarkSpec) (now : Rat) : BenchmarkRunner :=
  BenchmarkRunner.record { s with
    created := s.created + 1
    run := Function.update s.run s.created
      { createdAt := now, parameters := spec.toBenchmarkParameters }
    runs := s.runs ++ [s.created]
    tasks := s.tasks ++ [s.created]
    phase := Function.update s.phase s.created .created } (.created s.created spec.mode)

/-- `POST /v1/admin/benchmarks`. -/
def createBenchmark (s : BenchmarkRunner) (ready : Bool) (spec : BenchmarkSpec) (now : Rat) :
    Except Error BenchmarkRunner :=
  if spec.mode = .exclusive ∧ spec.confirm ≠ some "EXCLUSIVE" then
    .error (.service 400 "invalid_request" "exclusive mode confirmation required")
  else if ready = false then .error (.service 503 "model_not_ready" "model is not ready")
  else .ok (s.start spec now)

/-! ### `_execute` -/

/-- The `except` branches, and the `finally`. -/
def raised (s : BenchmarkRunner) (id : BenchmarkId) (error : Error) (now : Rat) :
    BenchmarkRunner :=
  match error with
  | .cancelled =>
      (s.setRun id { s.run id with status := .cancelled, finishedAt := some now }).setPhase id
        .ended
  | error =>
      ((s.setRun id { s.run id with
        status := .failed, error := some error.className, finishedAt := some now }).setPhase id
        .ended).record (.failed id error.className)

def completed (s : BenchmarkRunner) (id : BenchmarkId) (results : BenchmarkResults) (now : Rat) :
    BenchmarkRunner :=
  ((s.setRun id { s.run id with
    status := .completed, results := some results, finishedAt := some now }).setPhase id
    .ended).record (.completed id)

/-- The next body of the loops, or what follows them. -/
def proceed (s : BenchmarkRunner) (id : BenchmarkId) (progress : Progress) (now : Rat) :
    BenchmarkRunner :=
  match progress.pending with
  | _ :: _ => s.setPhase id (.calling progress)
  | [] =>
      match evaluate progress.latencies progress.pairs with
      | .ok results => s.completed id results now
      | .error error => s.raised id error now

/-- The task runs for the first time; without its run it ends in a `KeyError`. -/
def begin (s : BenchmarkRunner) (id : BenchmarkId) (now : Rat) : Option BenchmarkRunner :=
  match s.phase id with
  | .created =>
      if id ∈ s.cancelling then none
      else if id ∈ s.runs then
        some ((s.setRun id { s.run id with status := .running, startedAt := some now }).proceed id
          { pending := (s.run id).parameters.plan } now)
      else some (s.setPhase id .ended)
  | _ => none

/-- `service.rerank` returns, or raises. -/
def answered (s : BenchmarkRunner) (id : BenchmarkId) (outcome : Except Error Rat) (now : Rat) :
    Option BenchmarkRunner :=
  match s.phase id with
  | .calling progress =>
      if id ∈ s.cancelling then none
      else
        match outcome with
        | .ok elapsed =>
            let progress := progress.answered (s.run id).parameters elapsed
            if (s.run id).parameters.mode = .lowPriority then
              some (s.setPhase id (.sleeping progress))
            else some (s.proceed id progress now)
        | .error error => some (s.raised id error now)
  | _ => none

/-- `asyncio.sleep` is over. -/
def woke (s : BenchmarkRunner) (id : BenchmarkId) (now : Rat) : Option BenchmarkRunner :=
  match s.phase id with
  | .sleeping progress => if id ∈ s.cancelling then none else some (s.proceed id progress now)
  | _ => none

/-- `CancelledError` is thrown into the task; one that has not run yet never does. -/
def cancelled (s : BenchmarkRunner) (id : BenchmarkId) (now : Rat) : Option BenchmarkRunner :=
  if id ∈ s.cancelling then
    match s.phase id with
    | .created => some (s.setPhase id .ended)
    | .calling _ | .sleeping _ => some (s.raised id .cancelled now)
    | .ended => none
  else none

/-! ### Deleting -/

/-- `delete` up to `await task`, and whether it gets there. -/
def popTask (s : BenchmarkRunner) (id : BenchmarkId) : BenchmarkRunner × Bool :=
  if id ∈ s.tasks ∧ (s.phase id).done = false then
    ({ s with tasks := s.tasks.erase id, cancelling := id :: s.cancelling }, true)
  else ({ s with tasks := s.tasks.erase id }, false)

/-- The rest of `delete`. -/
def popRun (s : BenchmarkRunner) (id : BenchmarkId) : BenchmarkRunner :=
  if id ∈ s.runs then BenchmarkRunner.record { s with runs := s.runs.erase id } (.deleted id)
  else s

/-- `DELETE /v1/admin/benchmarks/{id}`, up to its await or its end. -/
def delete (s : BenchmarkRunner) (id : BenchmarkId) : BenchmarkRunner :=
  match s.popTask id with
  | (s, true) => { s with deleting := id :: s.deleting }
  | (s, false) => s.popRun id

def deleteResumed (s : BenchmarkRunner) (id : BenchmarkId) : Option BenchmarkRunner :=
  if id ∈ s.deleting ∧ (s.phase id).done = true then
    some (BenchmarkRunner.popRun { s with deleting := s.deleting.erase id } id)
  else none

/-- The loop of `close()`. -/
def closeLoop (s : BenchmarkRunner) : List BenchmarkId → BenchmarkRunner
  | [] => { s with closing := .closed }
  | id :: rest =>
      match s.popTask id with
      | (s, true) => { s with closing := .awaiting id rest }
      | (s, false) => (s.popRun id).closeLoop rest

def close (s : BenchmarkRunner) : Option BenchmarkRunner :=
  match s.closing with
  | .serving => some (s.closeLoop s.tasks)
  | _ => none

def closeResumed (s : BenchmarkRunner) : Option BenchmarkRunner :=
  match s.closing with
  | .awaiting id rest =>
      if (s.phase id).done = true then some ((s.popRun id).closeLoop rest) else none
  | _ => none

/-! ### Reading, and the baseline -/

/-- `GET /v1/admin/benchmarks/{id}`. -/
def benchmark (s : BenchmarkRunner) (id : BenchmarkId) : Except Error BenchmarkRun :=
  if id ∈ s.runs then .ok (s.run id)
  else .error (.service 404 "not_found" "benchmark not found")

/-- `GET /v1/admin/benchmarks`. -/
def benchmarks (s : BenchmarkRunner) : List BenchmarkRun :=
  s.runs.map s.run

/-- `POST /v1/admin/benchmarks/{id}/baseline`. -/
def baseline (s : BenchmarkRunner) (id : BenchmarkId) : Except Error BenchmarkRunner := do
  let run ← s.benchmark id
  if run.status ≠ .completed then
    throw (.service 409 "benchmark_not_complete" "benchmark is not complete")
  return BenchmarkRunner.record { s with
    run := fun other =>
      if other ∈ s.runs then { s.run other with baseline := decide (other = id) }
      else s.run other } (.baseline id)

/-! ### The system -/

inductive Action where
  | create (ready : Bool) (spec : BenchmarkSpec) (now : Rat)
  | begin (id : BenchmarkId) (now : Rat)
  | answered (id : BenchmarkId) (outcome : Except Error Rat) (now : Rat)
  | woke (id : BenchmarkId) (now : Rat)
  | cancelled (id : BenchmarkId) (now : Rat)
  | delete (id : BenchmarkId)
  | deleteResumed (id : BenchmarkId)
  | baseline (id : BenchmarkId)
  | close
  | closeResumed

def step (s : BenchmarkRunner) : Action → Option BenchmarkRunner
  | .create ready spec now => (s.createBenchmark ready spec now).toOption
  | .begin id now => s.begin id now
  | .answered id outcome now => s.answered id outcome now
  | .woke id now => s.woke id now
  | .cancelled id now => s.cancelled id now
  | .delete id => some (s.delete id)
  | .deleteResumed id => s.deleteResumed id
  | .baseline id => (s.baseline id).toOption
  | .close => s.close
  | .closeResumed => s.closeResumed

def Initial (s : BenchmarkRunner) : Prop :=
  s = {}

/-- The server takes no request any more when `lifespan` calls `close()`. The runner does not check
it. -/
def TakesRequests (s : BenchmarkRunner) (a : Action) : Prop :=
  ∀ ready spec now, a = .create ready spec now → s.closing = .serving

end BenchmarkRunner

end RerankerService
