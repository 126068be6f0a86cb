import Mathlib.Data.Finset.Card
import Mathlib.Data.Finset.Range
import RerankerService.Runtime.State

/-!
# `ModelRuntime.predict`: semaphore, executor and threads

Each function is what happens at one moment of a `predict` call: the coroutine between two awaits,
or the executor thread that works for it. Which waiter a released permit goes to is left open.
-/

namespace RerankerService

/-- The semaphore of which the call holds a permit. -/
def PredictPhase.permit : PredictPhase → Option SemaphoreId
  | .submitted semaphore _ | .running semaphore _ _ | .answered semaphore _ => some semaphore
  | _ => none

/-- A thread of the executor is busy with the call. -/
def PredictPhase.executing : PredictPhase → Bool
  | .running _ _ _ | .orphaned => true
  | _ => false

/-- The scores of one execution with their provenance. -/
def tagScores (source : Option Source) (pairs : List Pair) (values : List Value) : List Score :=
  values.mapIdx fun i value => { value, source, pair := pairs[i]? }

/-- What a thread answers: scores or an exception of `backend.rerank`; an ONNX session may have
fallen back to the CPU on the way. -/
structure Execution where
  result : Except Error (List Value)
  fallback : Bool := false

def Execution.reply (execution : Execution) (source : Option Source) (pairs : List Pair) :
    Reply Score :=
  match execution.result with
  | .ok values => .scores (tagScores source pairs values)
  | .error error => .raised error

namespace ModelRuntime

def setPhase (s : ModelRuntime) (id : PredictId) (phase : PredictPhase) : ModelRuntime :=
  { s with calls := Function.update s.calls id { s.calls id with phase } }

def phase (s : ModelRuntime) (id : PredictId) : PredictPhase :=
  (s.calls id).phase

def release (s : ModelRuntime) (semaphore : SemaphoreId) : ModelRuntime :=
  { s with
    semaphores := Function.update s.semaphores semaphore (s.semaphores semaphore + 1) }

/-- The calls that occupy a thread of the executor. -/
def executions (s : ModelRuntime) : Finset PredictId :=
  (Finset.range s.entered).filter fun id => (s.phase id).executing

/-- `predict(pairs)` reaches `async with self._semaphore`. -/
def enter (s : ModelRuntime) (pairs : List Pair) : ModelRuntime :=
  { s with
    calls := Function.update s.calls s.entered { pairs, phase := .waiting s.semaphore }
    entered := s.entered + 1 }

/-- The permit is acquired; up to the submission there is no await, and the model is read. -/
def acquire (s : ModelRuntime) (id : PredictId) : Option ModelRuntime :=
  match s.phase id with
  | .waiting semaphore =>
      if 0 < s.semaphores semaphore then
        some (setPhase { s with
          semaphores := Function.update s.semaphores semaphore (s.semaphores semaphore - 1) }
          id (.submitted semaphore s.model))
      else none
  | _ => none

/-- A free thread of the executor starts `backend.rerank(model, pairs)`, which first of all tokenizes
its inputs at the truncation length of that moment. -/
def begin (s : ModelRuntime) (id : PredictId) : Option ModelRuntime :=
  match s.phase id with
  | .submitted semaphore model =>
      if s.executions.card < s.maxWorkers then
        some (s.setPhase id (.running semaphore model (model.map fun m => (s.models m).toSource)))
      else none
  | _ => none

/-- The controlled fallback of an ONNX model to its CPU session. -/
def fallBack (s : ModelRuntime) (model : ModelId) : ModelRuntime :=
  { s with
    models := Function.update s.models model { s.models model with
      activeProvider := "CPUExecutionProvider".toList
      fallbackProvider := some "CPUExecutionProvider".toList
      fallbackReason := some "cuda_inference_failed_using_cpu_fallback".toList } }

/-- The thread ends. -/
def finish (s : ModelRuntime) (id : PredictId) (execution : Execution) : Option ModelRuntime :=
  match s.phase id with
  | .running semaphore model source =>
      let s := if execution.fallback then model.elim s s.fallBack else s
      some (s.setPhase id
        (.answered semaphore (execution.reply source (s.calls id).pairs)))
  | .orphaned => some (s.setPhase id .returned)
  | _ => none

/-- The coroutine goes on with the answer of its thread and returns it. -/
def resumePredict (s : ModelRuntime) (id : PredictId) : Option (ModelRuntime × Reply Score) :=
  match s.phase id with
  | .answered semaphore (.scores values) =>
      some ((s.syncActiveBackendState.release semaphore).setPhase id .returned, .scores values)
  | .answered semaphore (.raised error) =>
      some ((s.release semaphore).setPhase id .returned, .raised error)
  | _ => none

/-- The task of the call is cancelled: a queued execution is dropped, a running one goes on. -/
def cancelPredict (s : ModelRuntime) (id : PredictId) : ModelRuntime :=
  match s.phase id with
  | .waiting _ => s.setPhase id .returned
  | .submitted semaphore _ | .answered semaphore _ => (s.release semaphore).setPhase id .returned
  | .running semaphore _ _ => (s.release semaphore).setPhase id .orphaned
  | _ => s

end ModelRuntime

end RerankerService
