import RerankerService.Runtime.Predict

/-!
# The lifecycle of models

`load`, `load_candidate`, `activate_candidate`, `rollback`, `close` and the runtime part of a patch,
cut at their awaits. `load` runs outside `_model_lock`; the other three queue for it in FIFO order,
and `lockAcquired` is the moment the next of them gets it.
-/

namespace RerankerService

/-! ### Checking a candidate -/

/-- What a check reads from outside: the commit that the Hub reports, the free memory and the
requirements that the backend states, unless it raises instead. -/
structure Probe where
  hub : Except Error Text
  availableBytes : Nat
  artifactAvailable : Bool
  gpuParallelLoadSupported : Bool
  refusal : Option Error := none

def resolveImmutableRevision (hub : Except Error Text) (revision : Text) : Except Error Text :=
  if isFullRevision (lower revision) then .ok (lower revision)
  else
    match hub with
    | .error error => .error error
    | .ok sha =>
        if isFullRevision (lower sha) then .ok (lower sha)
        else .error
          (.runtimeError "model repository did not resolve to an immutable commit SHA")

namespace ModelRuntime

def checkCandidate (s : ModelRuntime) (probe : Probe) (name revision : Text) : CandidateCheck :=
  let allowed := decide (name ∈ s.settings.allowedModels)
  let resolution :=
    if s.settings.mockModel then .ok (lower revision)
    else resolveImmutableRevision probe.hub revision
  let estimatedBytes := if s.device = "cpu".toList then 3500000000 else 3000000000
  let fits := s.settings.mockModel || decide (estimatedBytes ≤ probe.availableBytes)
  { name, revision, allowed
    resolvedRevision :=
      if validRevisionReference revision && allowed then resolution.toOption else none
    revisionValid := validRevisionReference revision
    canParallelLoad :=
      if s.device = "cuda".toList ∧ probe.artifactAvailable then
        fits && probe.gpuParallelLoadSupported
      else fits }

/-! ### The initial load -/

def loadBegin (s : ModelRuntime) : Option ModelRuntime :=
  match s.initialLoad with
  | .idle =>
      some { s.setOperation .initialLoad .running s.clock none with
        initialLoad :=
          .loading s.settings.model s.settings.modelRevision s.settings.maxLength s.clock }
  | _ => none

/-- The `except` branch of `load`. -/
def loadFailed (s : ModelRuntime) (error : Error) (started : Nat) : ModelRuntime :=
  { (s.setModelReady s.settings.model s.device false).setOperation .initialLoad .error started
      (some error) with
    loadError := some error
    initialLoad := .idle }

/-- `backend.load` returns or raises. -/
def loadReturned (s : ModelRuntime) (outcome : Except Error Loaded) : Option ModelRuntime :=
  match s.initialLoad, outcome with
  | .loading name revision maxLength started, .ok loaded =>
      let id := s.loaded
      let s := s.allocate name revision maxLength loaded
      some { syncActiveBackendState { s with model := some id } with
        initialLoad := .warming id started }
  | .loading _ _ _ started, .error error => some (s.loadFailed error started)
  | _, _ => none

/-- The warm-up returns or raises. -/
def warmedUp (s : ModelRuntime) (outcome : Except Error Unit) : Option ModelRuntime :=
  match s.initialLoad, outcome with
  | .warming _ started, .ok _ =>
      let s := { s with ready := true, loadedAt := some s.clock }
      let s := s.setModelReady s.settings.model s.device true
      some { setOperation { s with loadError := none } .initialLoad .completed started none with
        initialLoad := .idle }
  | .warming _ started, .error error => some (s.loadFailed error started)
  | _, _ => none

/-- The background task is cancelled at its await. -/
def loadCancelled (s : ModelRuntime) : Option ModelRuntime :=
  match s.initialLoad with
  | .idle => none
  | _ => some { s with initialLoad := .idle }

/-! ### Candidates -/

/-- `load_candidate` up to `async with self._model_lock`. -/
def candidateBegin (s : ModelRuntime) (probe : Probe) (name revision : Text) : ModelRuntime :=
  let s := s.setOperation .candidateLoad .running s.clock none
  let check := s.checkCandidate probe name revision
  if probe.refusal.isSome then s.setOperation .candidateLoad .error s.clock probe.refusal
  else if check.valid = false then
    s.setOperation .candidateLoad .error s.clock
      (some (.valueError "candidate model or revision is not allowed"))
  else if check.canParallelLoad = false then
    s.setOperation .candidateLoad .completed s.clock none
  else { s with lockQueue := s.lockQueue ++ [.candidate check s.clock] }

/-- `backend.load` of the candidate returns or raises. -/
def candidateReturned (s : ModelRuntime) (outcome : Except Error Loaded) : Option ModelRuntime :=
  match s.lockHolder, outcome with
  | some (.loading check maxLength started), .ok loaded =>
      some { s.allocate check.name (check.resolvedRevision.getD []) maxLength loaded with
        lockHolder := some (.smoking check s.loaded started) }
  | some (.loading _ _ started), .error error =>
      some { s.setOperation .candidateLoad .error started (some error) with lockHolder := none }
  | _, _ => none

/-- The test of the scores of the smoke rerank, or the exception it ends in. -/
def smokeTest : Except Error (List Value) → Except Error Value
  | .ok [score] =>
      if score.isFinite then .ok score
      else .error (.runtimeError "candidate test rerank failed")
  | .ok _ => .error (.runtimeError "candidate test rerank failed")
  | .error error => .error error

/-- The smoke rerank of the candidate returns or raises. -/
def candidateSmoked (s : ModelRuntime) (outcome : Except Error (List Value)) :
    Option ModelRuntime :=
  match s.lockHolder with
  | some (.smoking check model started) =>
      match smokeTest outcome with
      | .ok score =>
          some { s.setOperation .candidateLoad .completed started none with
            candidate := some model
            candidateInfo := some
              { name := check.name, resolvedRevision := check.resolvedRevision.getD []
                testScore := score, loadedAt := s.clock }
            lockHolder := none }
      | .error error =>
          some { (s.unload model).setOperation .candidateLoad .error started (some error) with
            lockHolder := none }
  | _ => none

/-! ### Activation and rollback -/

def activateBegin (s : ModelRuntime) : ModelRuntime :=
  { s.setOperation .candidateActivate .running s.clock none with
    lockQueue := s.lockQueue ++ [.activate s.clock] }

/-- The active model with what is stored beside it. -/
def current (s : ModelRuntime) : Previous where
  model := s.model
  name := s.settings.model
  revision := s.settings.modelRevision
  loadedAt := s.loadedAt

/-- The assignments that make `next` the active model and keep the current one for a rollback. -/
def switchTo (s : ModelRuntime) (next : Previous) : ModelRuntime :=
  { s with
    previous := some s.current
    model := next.model
    settings := { s.settings with model := next.name, modelRevision := next.revision }
    loadedAt := next.loadedAt }

/-- The body of `activate_candidate` under the lock; it has no await. -/
def activateCandidate (s : ModelRuntime) (started : Nat) : ModelRuntime :=
  match s.candidate, s.candidateInfo with
  | some candidate, some info =>
      let oldName := s.settings.model
      let s := { s.switchTo
          { model := some candidate, name := info.name, revision := info.resolvedRevision
            loadedAt := some info.loadedAt } with
        candidate := none
        candidateInfo := none }
      let s := s.syncActiveBackendState
      let s := s.setModelReady oldName s.device false
      let s := s.setModelReady s.settings.model s.device true
      s.setOperation .candidateActivate .completed started none
  | _, _ =>
      s.setOperation .candidateActivate .error started
        (some (.valueError "no candidate model is ready"))

def rollbackBegin (s : ModelRuntime) : ModelRuntime :=
  { s.setOperation .rollback .running s.clock none with
    lockQueue := s.lockQueue ++ [.rollback s.clock] }

/-- The body of `rollback` under the lock. -/
def rollback (s : ModelRuntime) (started : Nat) : ModelRuntime :=
  match s.previous with
  | some previous =>
      (s.switchTo previous).syncActiveBackendState.setOperation .rollback .completed started none
  | none =>
      s.setOperation .rollback .error started
        (some (.valueError "no previous model is available"))

/-- The lock is free and goes to the first coroutine that waits for it. -/
def lockAcquired (s : ModelRuntime) : Option ModelRuntime :=
  match s.lockHolder, s.lockQueue with
  | none, .candidate check started :: rest =>
      some { s with
        lockQueue := rest
        lockHolder := some (.loading check s.settings.maxLength started) }
  | none, .activate started :: rest =>
      some (activateCandidate { s with lockQueue := rest } started)
  | none, .rollback started :: rest => some (rollback { s with lockQueue := rest } started)
  | _, _ => none

/-! ### Shutdown -/

/-- The loop of `close` over the three slots. -/
def unloadOnce (seen : List ModelId) : List (Option ModelId) → List ModelId
  | [] => []
  | none :: rest => unloadOnce seen rest
  | some model :: rest =>
      if model ∈ seen then unloadOnce seen rest
      else model :: unloadOnce (model :: seen) rest

/-- No lifecycle operation is in progress. -/
def quiescent (s : ModelRuntime) : Bool :=
  (match s.initialLoad with | .idle => true | _ => false) && s.lockHolder.isNone &&
    s.lockQueue.isEmpty

/-- `close()`; the executor drops the executions that are still queued. -/
def close (s : ModelRuntime) : Option ModelRuntime :=
  if s.quiescent then
    some { s with
      unloaded := s.unloaded ++
        unloadOnce [] [s.model, s.candidate, s.previous.bind Previous.model]
      model := none
      candidate := none
      previous := none
      closed := true }
  else none

/-! ### The system -/

inductive Action where
  | tick
  | loadBegin
  | loadReturned (outcome : Except Error Loaded)
  | warmedUp (outcome : Except Error Unit)
  | loadCancelled
  | candidateBegin (probe : Probe) (name revision : Text)
  | activateBegin
  | rollbackBegin
  | lockAcquired
  | candidateReturned (outcome : Except Error Loaded)
  | candidateSmoked (outcome : Except Error (List Value))
  | reconfigure (maxConcurrency maxLength : Nat)
  | close
  | enter (pairs : List Pair)
  | acquire (id : PredictId)
  | begin (id : PredictId)
  | finish (id : PredictId) (execution : Execution)
  | resumePredict (id : PredictId)
  | cancelPredict (id : PredictId)

def step (s : ModelRuntime) (a : Action) : Option ModelRuntime :=
  if s.closed then none
  else
    match a with
    | .tick => some { s with clock := s.clock + 1 }
    | .loadBegin => s.loadBegin
    | .loadReturned outcome => s.loadReturned outcome
    | .warmedUp outcome => s.warmedUp outcome
    | .loadCancelled => s.loadCancelled
    | .candidateBegin probe name revision => some (s.candidateBegin probe name revision)
    | .activateBegin => some s.activateBegin
    | .rollbackBegin => some s.rollbackBegin
    | .lockAcquired => s.lockAcquired
    | .candidateReturned outcome => s.candidateReturned outcome
    | .candidateSmoked outcome => s.candidateSmoked outcome
    | .reconfigure maxConcurrency maxLength => some (s.reconfigure maxConcurrency maxLength)
    | .close => s.close
    | .enter pairs => some (s.enter pairs)
    | .acquire id => s.acquire id
    | .begin id => s.begin id
    | .finish id execution => s.finish id execution
    | .resumePredict id => (s.resumePredict id).map Prod.fst
    | .cancelPredict id => some (s.cancelPredict id)

/-- A runtime as the application creates it. -/
def Initial (s : ModelRuntime) : Prop :=
  ∃ settings backendDevice, s = new settings backendDevice

end ModelRuntime

end RerankerService
