import RerankerService.Batching.Process

/-!
# The batcher: queue, worker task and shutdown

One action is what one coroutine does between two awaits. The worker task is suspended in
`queue.get()`, in the `wait_for` of the collection window or in the predictor; a requested
cancellation is the next thing it sees. `close()` is suspended while it awaits the cancelled worker,
and at most one `close()` is in progress at a time.
-/

namespace RerankerService

namespace DynamicBatcher

/-- Where the worker task is suspended, with the jobs that its locals hold. -/
inductive Worker where
  | waiting
  | collecting (group : List JobId)
  | predicting (group active : List JobId) (batch : Batch)
  | stopped

def Worker.held : Worker → List JobId
  | .collecting group => group
  | .predicting group _ _ => group
  | _ => []

/-- `_run` around one suspension or the end of `_process(group)`. -/
def Process.worker (group : List JobId) : Process → Worker
  | .predicting active batch => .predicting group active batch
  | .returned => .waiting

end DynamicBatcher

/-- The jobs created so far are those below `submitted`. -/
structure DynamicBatcher (σ : Type) where
  dynamicBatching : Bool
  limits : Limits
  maxQueueSize : Nat
  jobs : Jobs σ := fun _ => { pairs := [] }
  submitted : Nat := 0
  queue : List JobId := []
  worker : Option DynamicBatcher.Worker := none
  closing : Bool := false

namespace DynamicBatcher

variable {σ : Type}

def new (settings : Settings) : DynamicBatcher σ where
  dynamicBatching := settings.dynamicBatching
  limits := settings.limits
  maxQueueSize := settings.maxQueueSize

def held (s : DynamicBatcher σ) : List JobId :=
  s.worker.elim [] Worker.held

def start (s : DynamicBatcher σ) : DynamicBatcher σ :=
  if s.dynamicBatching ∧ s.worker.isNone then { s with worker := some .waiting } else s

/-- The loop at the end of `close`. -/
def drain (s : DynamicBatcher σ) : DynamicBatcher σ :=
  { s with jobs := cancelAll s.jobs s.queue, queue := [] }

/-- `close()` up to its first await: without a worker it returns at once, otherwise it requests the
cancellation of the worker and awaits it. -/
def close (s : DynamicBatcher σ) : Option (DynamicBatcher σ) :=
  if s.closing then none
  else if s.worker.isNone then some s.drain
  else some { s with closing := true }

def reconfigure (s : DynamicBatcher σ) : Option (DynamicBatcher σ) :=
  if s.dynamicBatching ∧ s.worker.isNone then some s.start
  else if s.dynamicBatching = false ∧ s.worker.isSome then s.close
  else some s

/-- `CancelledError` is thrown into the worker at its await; `_process` catches only `Exception`. -/
def workerCancelled (s : DynamicBatcher σ) : Option (DynamicBatcher σ) :=
  if s.closing then
    match s.worker with
    | none | some .stopped => none
    | some _ => some { s with worker := some .stopped }
  else none

/-- `close()` after the worker has ended. -/
def closeReturn (s : DynamicBatcher σ) : Option (DynamicBatcher σ) :=
  match s.worker with
  | some .stopped => some { s.drain with worker := none, closing := false }
  | _ => none

/-- What a call of `predict` does before it is suspended: go to the predictor itself, raise, or await
the future of a new job. -/
inductive Ticket where
  | direct
  | raised (error : Error)
  | queued (id : JobId)

def enqueue (s : DynamicBatcher σ) (pairs : List Pair) : DynamicBatcher σ :=
  { s with
    jobs := Function.update s.jobs s.submitted { pairs }
    submitted := s.submitted + 1
    queue := s.queue ++ [s.submitted] }

def predict (s : DynamicBatcher σ) (pairs : List Pair) : DynamicBatcher σ × Ticket :=
  if s.dynamicBatching = false then (s, .direct)
  else if s.worker.isNone then
    (s, .raised (.runtimeError "dynamic batcher is not started"))
  else if 0 < s.maxQueueSize ∧ s.maxQueueSize ≤ s.queue.length then
    (s, .raised (.service 429 "reranker_overloaded" "reranker queue is full"))
  else (s.enqueue pairs, .queued s.submitted)

/-- The caller of a job is cancelled, and with it the future it awaits. -/
def cancelJob (s : DynamicBatcher σ) (id : JobId) : DynamicBatcher σ :=
  { s with jobs := cancelAll s.jobs [id] }

/-- `queue.get()` gives the worker a job. -/
def take (s : DynamicBatcher σ) : Option (DynamicBatcher σ) :=
  if s.closing then none
  else
    match s.worker, s.queue with
    | some .waiting, id :: rest =>
        some { s with queue := rest, worker := some (.collecting [id]) }
    | some (.collecting group), id :: rest =>
        some { s with queue := rest, worker := some (.collecting (group ++ [id])) }
    | _, _ => none

/-- The collection window is over: `_process` runs up to its first call of the predictor. -/
def windowClosed (s : DynamicBatcher σ) : Option (DynamicBatcher σ) :=
  if s.closing then none
  else
    match s.worker with
    | some (.collecting group) =>
        some { s with worker := some ((startProcess s.limits s.jobs group).worker group) }
    | _ => none

/-- The predictor answers. -/
def replied (s : DynamicBatcher σ) (reply : Reply σ) : Option (DynamicBatcher σ) :=
  if s.closing then none
  else
    match s.worker with
    | some (.predicting group active batch) =>
        let next := resume s.limits s.jobs active batch reply
        some { s with jobs := next.1, worker := some (next.2.worker group) }
    | _ => none

inductive Action (σ : Type) where
  | start
  | predict (pairs : List Pair)
  | cancelJob (id : JobId)
  | take
  | windowClosed
  | replied (reply : Reply σ)
  /-- `PATCH /v1/admin/runtime`: the settings are assigned, then `reconfigure()` is called. -/
  | patch (dynamicBatching : Bool) (limits : Limits)
  | close
  | workerCancelled
  | closeReturn

/-- `RerankService` submits at least one pair, and a patch is validated (`max_batch_pairs ≥ 1`). -/
def step (s : DynamicBatcher σ) : Action σ → Option (DynamicBatcher σ)
  | .start => some s.start
  | .predict pairs => if pairs = [] then none else some (s.predict pairs).1
  | .cancelJob id => some (s.cancelJob id)
  | .take => s.take
  | .windowClosed => s.windowClosed
  | .replied reply => s.replied reply
  | .patch dynamicBatching limits =>
      if 1 ≤ limits.maxBatchPairs then reconfigure { s with dynamicBatching, limits } else none
  | .close => s.close
  | .workerCancelled => s.workerCancelled
  | .closeReturn => s.closeReturn

/-- The batchers of valid settings, before anything has happened. -/
def Initial (s : DynamicBatcher σ) : Prop :=
  ∃ settings : Settings, 1 ≤ settings.maxBatchPairs ∧ s = new settings

/-- `close()` returns to its caller in this step. -/
def closeReturns (s : DynamicBatcher σ) : Action σ → Prop
  | .closeReturn => True
  | .close => s.worker = none
  | _ => False

/-- No job that was ever put in the queue is left pending. -/
def AllSettled (s : DynamicBatcher σ) : Prop :=
  ∀ id < s.submitted, (s.jobs id).future ≠ .pending

end DynamicBatcher

end RerankerService
