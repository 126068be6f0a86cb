import Mathlib.Algebra.Order.Ring.Nat
import RerankerService.Errors
import RerankerService.Settings

/-!
# One group of jobs: `DynamicBatcher._process`

Jobs are objects shared by reference between the queue, the worker and the callers, so they live in a
store indexed by `JobId`. `_process` is suspended only while it awaits the predictor; `Process` is
what it holds there, `nextBatch` the head of its loop and `resume` the code after the await.
-/

namespace RerankerService

/-- An `asyncio.Future` holding a score list. -/
inductive Future (σ : Type) where
  | pending
  | result (scores : List σ)
  | exception (error : Error)
  | cancelled
  deriving DecidableEq

def Future.done {σ : Type} : Future σ → Bool
  | .pending => false
  | _ => true

structure BatchJob (σ : Type) where
  pairs : List Pair
  future : Future σ := .pending
  cursor : Nat := 0
  scores : List σ := []

abbrev JobId := Nat

abbrev Jobs (σ : Type) := JobId → BatchJob σ

structure Limits where
  maxBatchPairs : Nat
  maxBatchTokens : Nat

def Settings.limits (settings : Settings) : Limits where
  maxBatchPairs := settings.maxBatchPairs
  maxBatchTokens := settings.maxBatchTokens

variable {σ : Type}

def BatchJob.unscored (job : BatchJob σ) : List Pair :=
  job.pairs.drop job.cursor

/-- Give a job its slice of the scores; the last slice settles its future. -/
def BatchJob.receive (job : BatchJob σ) (slice : List σ) (count : Nat) : BatchJob σ :=
  let scores := job.scores ++ slice
  let cursor := job.cursor + count
  { job with
    scores, cursor
    future :=
      if cursor = job.pairs.length ∧ job.future.done = false then .result scores
      else job.future }

/-- `future.set_exception(error)` for a future that is not done. -/
def BatchJob.fail (job : BatchJob σ) (error : Error) : BatchJob σ :=
  if job.future.done then job else { job with future := .exception error }

/-- `future.cancel()`. -/
def BatchJob.cancel (job : BatchJob σ) : BatchJob σ :=
  if job.future.done then job else { job with future := .cancelled }

/-- The answer of one predictor call. -/
inductive Reply (σ : Type) where
  | scores (values : List σ)
  | raised (error : Error)

def invalidScoreCount : Error :=
  .runtimeError "predictor returned an invalid score count"

/-- The body of the `try`: the scores, or the exception that its handler receives. -/
def Reply.check (combined : List Pair) : Reply σ → Except Error (List σ)
  | .scores values =>
      if values.length = combined.length then .ok values else .error invalidScoreCount
  | .raised error => .error error

namespace DynamicBatcher

def pairTokens (pair : Pair) : Nat :=
  max 1 ((splitWords pair.1).length + (splitWords pair.2).length)

/-- The batch under assembly: the pairs, the slices they came from and their token count. -/
structure Batch where
  combined : List Pair := []
  slices : List (JobId × Nat) := []
  tokens : Nat := 0

/-- The inner loop over the unscored pairs of one job, with its counter. -/
def takePairs (limits : Limits) (combined : List Pair) (tokens count : Nat) :
    List Pair → List Pair × Nat × Nat
  | [] => (combined, tokens, count)
  | pair :: rest =>
      if limits.maxBatchPairs ≤ combined.length then (combined, tokens, count)
      else if combined ≠ [] ∧ limits.maxBatchTokens < tokens + pairTokens pair then
        (combined, tokens, count)
      else if limits.maxBatchTokens ≤ tokens + pairTokens pair then
        (combined ++ [pair], tokens + pairTokens pair, count + 1)
      else
        takePairs limits (combined ++ [pair]) (tokens + pairTokens pair) (count + 1) rest

/-- The outer loop over the active jobs. -/
def assemble (limits : Limits) (jobs : Jobs σ) (batch : Batch) : List JobId → Batch
  | [] => batch
  | id :: rest =>
      if limits.maxBatchPairs ≤ batch.combined.length then batch
      else
        let taken := takePairs limits batch.combined batch.tokens 0 (jobs id).unscored
        assemble limits jobs
          { combined := taken.1
            slices := if taken.2.2 = 0 then batch.slices else batch.slices ++ [(id, taken.2.2)]
            tokens := taken.2.1 } rest

/-- What `_process` is at: the await of the predictor, with its local `active` and batch, or its
end. -/
inductive Process where
  | predicting (active : List JobId) (batch : Batch)
  | returned

/-- `[job for job in ids if not job.future.done()]`. -/
def unfinished (jobs : Jobs σ) (ids : List JobId) : List JobId :=
  ids.filter fun id => !(jobs id).future.done

/-- The head of the loop, up to the call of the predictor. -/
def nextBatch (limits : Limits) (jobs : Jobs σ) (active : List JobId) : Process :=
  if active = [] then .returned
  else
    let batch := assemble limits jobs {} active
    if batch.combined = [] then .returned else .predicting active batch

def startProcess (limits : Limits) (jobs : Jobs σ) (ids : List JobId) : Process :=
  nextBatch limits jobs (unfinished jobs ids)

def deliver (jobs : Jobs σ) (scores : List σ) : List (JobId × Nat) → Jobs σ
  | [] => jobs
  | (id, count) :: rest =>
      deliver (Function.update jobs id ((jobs id).receive (scores.take count) count))
        (scores.drop count) rest

def failAll (jobs : Jobs σ) (error : Error) (active : List JobId) : Jobs σ := fun id =>
  if id ∈ active then (jobs id).fail error else jobs id

def cancelAll (jobs : Jobs σ) (ids : List JobId) : Jobs σ := fun id =>
  if id ∈ ids then (jobs id).cancel else jobs id

/-- The code after the await; `limits` are those in force when the next batch is assembled. -/
def resume (limits : Limits) (jobs : Jobs σ) (active : List JobId) (batch : Batch)
    (reply : Reply σ) : Jobs σ × Process :=
  match reply.check batch.combined with
  | .error error => (failAll jobs error active, .returned)
  | .ok scores =>
      let jobs := deliver jobs scores batch.slices
      (jobs, nextBatch limits jobs (unfinished jobs active))

/-! ### A whole execution

The environment of the `n`-th predictor call: the limits when its batch is assembled, the jobs whose
callers cancel them while it is in flight, and its answer. -/

structure CallEnvironment (σ : Type) where
  limits : Limits
  cancelled : List JobId
  predict : List Pair → Reply σ

/-- Run from a suspension with at most `fuel` predictor calls: the jobs at the end and the batches
that were passed to the predictor. -/
def processFrom (env : Nat → CallEnvironment σ) :
    (fuel call : Nat) → Jobs σ → Process → Option (Jobs σ × List Batch)
  | _, _, jobs, .returned => some (jobs, [])
  | 0, _, _, .predicting _ _ => none
  | fuel + 1, call, jobs, .predicting active batch =>
      let jobs := cancelAll jobs (env call).cancelled
      let next := resume (env (call + 1)).limits jobs active batch
        ((env call).predict batch.combined)
      (processFrom env fuel (call + 1) next.1 next.2).map fun r => (r.1, batch :: r.2)

def totalPairs (jobs : Jobs σ) (ids : List JobId) : Nat :=
  (ids.map fun id => (jobs id).pairs.length).sum

/-- `_process(ids)`. -/
def process (env : Nat → CallEnvironment σ) (jobs : Jobs σ) (ids : List JobId) :
    Option (Jobs σ × List Batch) :=
  processFrom env (totalPairs jobs ids) 0 jobs (startProcess (env 0).limits jobs ids)

/-- The `n`-th turn of the loop of `_process(ids)`, started on `jobs`: it assembles `batch` from the
unfinished jobs `active` as they stand in `now`. -/
inductive Iteration (env : Nat → CallEnvironment σ) (jobs : Jobs σ) (ids : List JobId) :
    Nat → Jobs σ → List JobId → Batch → Prop where
  | first {active : List JobId} {batch : Batch}
      (hstart : startProcess (env 0).limits jobs ids = .predicting active batch) :
      Iteration env jobs ids 0 jobs active batch
  | next {n : Nat} {now now' : Jobs σ} {active active' : List JobId} {batch batch' : Batch}
      (h : Iteration env jobs ids n now active batch)
      (hresume : resume (env (n + 1)).limits (cancelAll now (env n).cancelled) active batch
        ((env n).predict batch.combined) = (now', .predicting active' batch')) :
      Iteration env jobs ids (n + 1) now' active' batch'

end DynamicBatcher

end RerankerService
