import RerankerService.Service.Application

/-!
# Administration of the runtime settings

`admin.py` and the `/v1/admin/runtime` endpoints of `main.py`. `AdminState` keeps its own dictionary
of the settings that `RuntimePatch` names, beside the settings that the service, the batcher and the
runtime read.
-/

namespace RerankerService

/-- A dictionary over the fields of `RuntimePatch`. -/
@[ext]
structure RuntimeConfiguration where
  batchSize : Nat
  maxConcurrency : Nat
  maxLength : Nat
  dynamicBatching : Bool
  batchWindowMs : Nat
  maxBatchPairs : Nat
  requestTimeoutSeconds : Rat
  defaultTopN : Nat
  deriving DecidableEq

/-- A validated body of `PATCH /v1/admin/runtime`, with the three settings that only the
administration looks at here. A field that is sent as `null` is `none` too. -/
structure PatchBody extends RuntimePatch where
  batchSize : Option Nat := none
  batchWindowMs : Option Nat := none
  requestTimeoutSeconds : Option Rat := none
  batchSize_range : ∀ n, batchSize = some n → 1 ≤ n ∧ n ≤ 256 := by simp
  maxConcurrency_range : ∀ n, maxConcurrency = some n → 1 ≤ n ∧ n ≤ 32 := by simp
  maxLength_range : ∀ n, maxLength = some n → 64 ≤ n ∧ n ≤ 8192 := by simp
  batchWindowMs_range : ∀ n, batchWindowMs = some n → n ≤ 1000 := by simp
  maxBatchPairs_range : ∀ n, maxBatchPairs = some n → 1 ≤ n ∧ n ≤ 2048 := by simp
  requestTimeoutSeconds_range : ∀ t, requestTimeoutSeconds = some t → 0 < t ∧ t ≤ 300 := by simp
  defaultTopN_range : ∀ n, defaultTopN = some n → 1 ≤ n ∧ n ≤ 100 := by simp

/-- `configuration | patch.model_dump(exclude_none=True)`. -/
def RuntimeConfiguration.updated (configuration : RuntimeConfiguration) (patch : PatchBody) :
    RuntimeConfiguration where
  batchSize := patch.batchSize.getD configuration.batchSize
  maxConcurrency := patch.maxConcurrency.getD configuration.maxConcurrency
  maxLength := patch.maxLength.getD configuration.maxLength
  dynamicBatching := patch.dynamicBatching.getD configuration.dynamicBatching
  batchWindowMs := patch.batchWindowMs.getD configuration.batchWindowMs
  maxBatchPairs := patch.maxBatchPairs.getD configuration.maxBatchPairs
  requestTimeoutSeconds :=
    patch.requestTimeoutSeconds.getD configuration.requestTimeoutSeconds
  defaultTopN := patch.defaultTopN.getD configuration.defaultTopN

/-- What `validate` reports. -/
structure Validation where
  valid : Bool
  configuration : RuntimeConfiguration
  restartRequired : Bool
  memoryWarning : Bool

/-- The audit log is left out. -/
structure AdminState where
  runtime : RuntimeConfiguration
  previous : RuntimeConfiguration

namespace AdminState

def new (configuration : RuntimeConfiguration) : AdminState where
  runtime := configuration
  previous := configuration

def validate (s : AdminState) (patch : PatchBody) : Validation :=
  let candidate := s.runtime.updated patch
  { valid := true
    configuration := candidate
    restartRequired := false
    memoryWarning := decide (32768 < candidate.batchSize * candidate.maxLength) }

def apply (s : AdminState) (patch : PatchBody) : AdminState × Validation :=
  let result := s.validate patch
  ({ previous := s.runtime, runtime := result.configuration }, result)

end AdminState

/-- The application with its administration; the last three are fields of the settings. -/
structure Administration where
  admin : AdminState
  application : Application
  batchSize : Nat := 16
  batchWindowMs : Nat := 10
  requestTimeoutSeconds : Rat := 15

namespace Administration

variable (prims : Primitives)

/-- The values of the settings that are in force. -/
def cfg (s : Administration) : RuntimeConfiguration where
  batchSize := s.batchSize
  maxConcurrency := s.application.settings.maxConcurrency
  maxLength := s.application.settings.maxLength
  dynamicBatching := s.application.settings.dynamicBatching
  batchWindowMs := s.batchWindowMs
  maxBatchPairs := s.application.settings.maxBatchPairs
  requestTimeoutSeconds := s.requestTimeoutSeconds
  defaultTopN := s.application.settings.defaultTopN

/-- `PATCH /v1/admin/runtime` up to the `close()` that the batcher may await. -/
def patchRuntime (s : Administration) (body : PatchBody) : Option (Administration × Validation) :=
  let (admin, result) := s.admin.apply body
  (s.application.patchRuntime body.toRuntimePatch).map fun application =>
    ({ admin, application
       batchSize := body.batchSize.getD s.batchSize
       batchWindowMs := body.batchWindowMs.getD s.batchWindowMs
       requestTimeoutSeconds := body.requestTimeoutSeconds.getD s.requestTimeoutSeconds },
      result)

/-- `POST /v1/admin/runtime/rollback`: the rollback of the model, if there is one, which then waits
for the model lock; otherwise that of the dictionary. -/
def rollbackRuntime (s : Administration) : Administration :=
  if s.application.runtime.previous.isSome then
    { s with application := { s.application with runtime := s.application.runtime.rollbackBegin } }
  else { s with admin := { runtime := s.admin.previous, previous := s.admin.runtime } }

inductive Action where
  | patch (body : PatchBody)
  | rollback
  | application (action : Application.Action)

/-- The only way to patch the application is the endpoint. -/
def Action.admitted : Action → Bool
  | .application (.patchRuntime _) => false
  | _ => true

def step (s : Administration) (a : Action) : Option Administration :=
  if a.admitted then
    match a with
    | .patch body => (s.patchRuntime body).map Prod.fst
    | .rollback => some s.rollbackRuntime
    | .application action =>
        (s.application.step prims action).map fun application => { s with application }
  else none

/-- `create_app` makes the administration from the settings that the application shares. -/
structure Initial (s : Administration) : Prop where
  admin : s.admin = AdminState.new s.cfg
  dynamicBatching :
    s.application.batcher.dynamicBatching = s.application.settings.dynamicBatching
  limits : s.application.batcher.limits = s.application.settings.limits

end Administration

end RerankerService
