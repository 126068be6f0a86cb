import RerankerService.Batching.Worker

/-!
# Switching the worker on and off

The batcher reduced to its worker tasks, for any number of overlapping `start()` and `reconfigure()`
calls. Only `close()` suspends: it cancels the task that is the worker at that moment and awaits its
end, and an await of a task that has ended does not suspend.
-/

namespace RerankerService

namespace DynamicBatcher

abbrev TaskId := Nat

/-- The tasks created so far are those below `tasks`; `closing` has for each suspended `close()` the
task it awaits. -/
structure Switch where
  dynamicBatching : Bool
  tasks : Nat := 0
  ended : List TaskId := []
  worker : Option TaskId := none
  closing : List TaskId := []

namespace Switch

def start (s : Switch) : Switch :=
  if s.dynamicBatching ∧ s.worker.isNone then
    { s with worker := some s.tasks, tasks := s.tasks + 1 }
  else s

/-- `close()` up to its suspension or return. -/
def close (s : Switch) : Switch :=
  match s.worker with
  | none => s
  | some task =>
      if task ∈ s.ended then { s with worker := none }
      else { s with closing := s.closing ++ [task] }

def reconfigure (s : Switch) : Switch :=
  if s.dynamicBatching ∧ s.worker.isNone then s.start
  else if s.dynamicBatching = false ∧ s.worker.isSome then s.close
  else s

/-- A cancelled task ends; `_run` has no other end. -/
def workerEnded (s : Switch) (task : TaskId) : Option Switch :=
  if task ∈ s.closing ∧ task ∉ s.ended then some { s with ended := task :: s.ended } else none

/-- A `close()` that awaited the task goes on and returns. -/
def closeReturned (s : Switch) (task : TaskId) : Option Switch :=
  if task ∈ s.closing ∧ task ∈ s.ended then
    some { s with worker := none, closing := s.closing.erase task }
  else none

inductive Action where
  | start
  | reconfigure
  | patch (dynamicBatching : Bool)
  | workerEnded (task : TaskId)
  | closeReturned (task : TaskId)

def step (s : Switch) : Action → Option Switch
  | .start => some s.start
  | .reconfigure => some s.reconfigure
  | .patch dynamicBatching => some { s with dynamicBatching }.reconfigure
  | .workerEnded task => s.workerEnded task
  | .closeReturned task => s.closeReturned task

/-- The application starts the batcher before it serves. -/
def Initial (s : Switch) : Prop :=
  ∃ dynamicBatching, s = { dynamicBatching : Switch }.start

/-- A task that `_run` has not left. -/
def Live (s : Switch) (task : TaskId) : Prop :=
  task < s.tasks ∧ task ∉ s.ended

/-- The test in `predict` that raises "dynamic batcher is not started". -/
def predictRaises (s : Switch) : Bool :=
  s.dynamicBatching && s.worker.isNone

end Switch

end DynamicBatcher

end RerankerService
