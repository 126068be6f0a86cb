import RerankerService.Batching.Process
import RerankerService.Revisions
import RerankerService.Scores

/-!
# The model runtime

`runtime.py`. The objects that `backend.load` returned live in a store indexed by `ModelId`; so do
the semaphores that `_configure_concurrency` creates one after the other. The metrics are left out,
except the readiness gauge.
-/

namespace RerankerService

/-- A loaded model with what its backend reports about it. -/
structure Model extends Source where
  requestedRevision : Text
  activeProvider : Text
  fallbackProvider : Option Text := none
  fallbackReason : Option Text := none

/-- What a successful `backend.load` takes from the artifact and the machine. -/
structure Loaded where
  requestedRevision : Text
  cap : Nat
  sigmoid : Bool := false
  activeProvider : Text
  fallbackProvider : Option Text := none
  fallbackReason : Option Text := none

/-- The revision a loaded model carries: the ONNX backend loads exactly the artifact of the revision
it is asked for, the remote-code backends store `revision.lower()`. -/
def Settings.storedRevision (settings : Settings) (revision : Text) : Text :=
  match settings.backend with
  | .jinaListwise | .alibabaGte => if settings.mockModel then revision else lower revision
  | _ => revision

/-- `backend.load(name, revision, max_length)`. -/
def Settings.loadModel (settings : Settings) (name revision : Text) (maxLength : Nat)
    (loaded : Loaded) : Model where
  name := name
  revision := revision
  requestedRevision :=
    match settings.backend with
    | .onnxPairwise => loaded.requestedRevision
    | _ => settings.storedRevision revision
  resolvedRevision := settings.storedRevision revision
  cap := loaded.cap
  maxLength := min maxLength loaded.cap
  sigmoid := loaded.sigmoid
  activeProvider := loaded.activeProvider
  fallbackProvider := loaded.fallbackProvider
  fallbackReason := loaded.fallbackReason

/-- `backend.reconfigure(model, max_length)`. -/
def Model.reconfigure (model : Model) (maxLength : Nat) : Model :=
  { model with maxLength := min maxLength model.cap }

structure Metadata where
  requestedRevision : Option Text := none
  resolvedRevision : Option Text := none
  activeProvider : Option Text := none
  fallbackProvider : Option Text := none
  fallbackReason : Option Text := none

/-- `backend.metadata(model)`; `device` is the backend's own. -/
def Settings.metadata (settings : Settings) (device : Text) (model : Option Model) : Metadata :=
  match settings.backend, model with
  | .legacyCrossEncoder, _ => { activeProvider := some device }
  | .onnxPairwise, none => {}
  | .onnxPairwise, some model =>
      { requestedRevision := some model.requestedRevision
        resolvedRevision := some model.resolvedRevision
        activeProvider := some model.activeProvider
        fallbackProvider := model.fallbackProvider
        fallbackReason := model.fallbackReason }
  | _, model =>
      let revision := model.elim settings.modelRevision (fun model => model.resolvedRevision)
      { requestedRevision := some revision
        resolvedRevision := some revision
        activeProvider := some device }

inductive OperationType where
  | initialLoad
  | candidateLoad
  | candidateActivate
  | rollback
  deriving DecidableEq

inductive OperationStatus where
  | idle
  | running
  | completed
  | error
  deriving DecidableEq

structure Operation where
  type : Option OperationType := none
  status : OperationStatus := .idle
  startedAt : Option Nat := none
  finishedAt : Option Nat := none
  error : Option Error := none

/-- The report of `check_candidate`. -/
structure CandidateCheck where
  name : Text
  revision : Text
  resolvedRevision : Option Text
  allowed : Bool
  revisionValid : Bool
  canParallelLoad : Bool

def CandidateCheck.valid (check : CandidateCheck) : Bool :=
  check.allowed && check.revisionValid && check.resolvedRevision.isSome

structure CandidateInfo where
  name : Text
  resolvedRevision : Text
  testScore : Value
  loadedAt : Nat

/-- The tuple kept for a rollback. -/
structure Previous where
  model : Option ModelId
  name : Text
  revision : Text
  loadedAt : Option Nat

/-- Where `load()` is suspended. -/
inductive InitialLoad where
  | idle
  | loading (name revision : Text) (maxLength started : Nat)
  | warming (model : ModelId) (started : Nat)

/-- Where the `load_candidate` that holds `_model_lock` is suspended. -/
inductive CandidateLoad where
  | loading (check : CandidateCheck) (maxLength started : Nat)
  | smoking (check : CandidateCheck) (model : ModelId) (started : Nat)

/-- The coroutines that wait for `_model_lock`, with their locals. -/
inductive LockRequest where
  | candidate (check : CandidateCheck) (started : Nat)
  | activate (started : Nat)
  | rollback (started : Nat)

abbrev SemaphoreId := Nat

abbrev PredictId := Nat

/-- Where a call of `predict` is: it waits for the semaphore it found, its execution is queued in the
executor or runs in a thread, or the thread has answered. A thread cannot be stopped, so a call that
is cancelled while it runs leaves an orphan. -/
inductive PredictPhase where
  | waiting (semaphore : SemaphoreId)
  | submitted (semaphore : SemaphoreId) (model : Option ModelId)
  | running (semaphore : SemaphoreId) (model : Option ModelId) (source : Option Source)
  | answered (semaphore : SemaphoreId) (reply : Reply Score)
  | orphaned
  | returned

structure PredictCall where
  pairs : List Pair
  phase : PredictPhase

/-- The model objects are those below `loaded`, the calls of `predict` those below `entered`;
`unloaded` lists the calls of `backend.unload`. -/
structure ModelRuntime where
  settings : Settings
  backendDevice : Text
  maxWorkers : Nat
  clock : Nat := 0
  models : ModelId → Model
  loaded : Nat := 0
  unloaded : List ModelId := []
  model : Option ModelId := none
  ready : Bool := false
  loadedAt : Option Nat := none
  loadError : Option Error := none
  device : Text
  effectiveMaxConcurrency : Nat
  semaphore : SemaphoreId := 0
  semaphores : SemaphoreId → Nat
  candidate : Option ModelId := none
  candidateInfo : Option CandidateInfo := none
  previous : Option Previous := none
  operation : Operation := {}
  modelReady : Text × Text → Bool := fun _ => false
  initialLoad : InitialLoad := .idle
  lockHolder : Option CandidateLoad := none
  lockQueue : List LockRequest := []
  entered : Nat := 0
  calls : PredictId → PredictCall := fun _ => { pairs := [], phase := .returned }
  closed : Bool := false

namespace ModelRuntime

def new (settings : Settings) (backendDevice : Text) : ModelRuntime where
  settings := settings
  backendDevice := backendDevice
  maxWorkers :=
    max settings.maxConcurrency (max settings.gpuMaxConcurrency settings.cpuMaxConcurrency)
  models _ := settings.loadModel [] [] 0 { requestedRevision := [], cap := 0, activeProvider := [] }
  device := backendDevice
  effectiveMaxConcurrency := settings.maxConcurrency
  semaphores _ := settings.maxConcurrency

def metadata (s : ModelRuntime) : Metadata :=
  s.settings.metadata s.backendDevice (s.model.map s.models)

def setOperation (s : ModelRuntime) (type : OperationType) (status : OperationStatus)
    (started : Nat) (error : Option Error) : ModelRuntime :=
  { s with
    operation :=
      { type := some type, status, startedAt := some started
        finishedAt := if status = .running then none else some s.clock, error } }

def setModelReady (s : ModelRuntime) (model device : Text) (value : Bool) : ModelRuntime :=
  { s with modelReady := Function.update s.modelReady (model, device) value }

/-- A fresh `asyncio.Semaphore` replaces the current one. -/
def configureConcurrency (s : ModelRuntime) : ModelRuntime :=
  let providerLimit :=
    if s.device = "cuda".toList then s.settings.gpuMaxConcurrency
    else s.settings.cpuMaxConcurrency
  let effective := min s.settings.maxConcurrency providerLimit
  { s with
    effectiveMaxConcurrency := effective
    semaphore := s.semaphore + 1
    semaphores := Function.update s.semaphores (s.semaphore + 1) effective }

def providerDevice (provider : Text) : Text :=
  if provider = "CUDAExecutionProvider".toList then "cuda".toList
  else if provider = "CPUExecutionProvider".toList then "cpu".toList
  else provider

def syncActiveBackendState (s : ModelRuntime) : ModelRuntime :=
  match s.metadata.activeProvider with
  | some provider => configureConcurrency { s with device := providerDevice provider }
  | none => s

/-- `reconfigure`, after `patch_runtime` has assigned the settings. -/
def reconfigure (s : ModelRuntime) (maxConcurrency maxLength : Nat) : ModelRuntime :=
  let s := configureConcurrency { s with
    settings := { s.settings with maxConcurrency, maxLength } }
  match s.model with
  | some model =>
      { s with models := Function.update s.models model ((s.models model).reconfigure maxLength) }
  | none => s

/-- `backend.load` returns a new object. -/
def allocate (s : ModelRuntime) (name revision : Text) (maxLength : Nat) (loaded : Loaded) :
    ModelRuntime :=
  { s with
    models := Function.update s.models s.loaded
      (s.settings.loadModel name revision maxLength loaded)
    loaded := s.loaded + 1 }

def unload (s : ModelRuntime) (model : ModelId) : ModelRuntime :=
  { s with unloaded := s.unloaded ++ [model] }

end ModelRuntime

end RerankerService
