import RerankerService.Artifact.Store
import RerankerService.Backend.Scores

/-!
# ONNX sessions and the fallback to the CPU

`_load_sync` and `_infer` of `backends/onnx.py`. A loaded model has the session it runs and the CPU
session that was validated first. What the tokenizer, the artifact store and `session.run` answer is
the environment's; the outputs carry the session that computed them.
-/

namespace RerankerService

def cudaProvider : Text :=
  "CUDAExecutionProvider".toList

def cpuProvider : Text :=
  "CPUExecutionProvider".toList

inductive Session where
  | cpu
  | cuda
  deriving DecidableEq

inductive Device where
  | cpu
  | cuda
  | auto
  deriving DecidableEq

structure OnnxSettings where
  device : Device := .auto
  cpuFallbackEnabled : Bool := true
  onnxProviders : Text := cudaProvider ++ ',' :: cpuProvider

def OnnxSettings.configuredOnnxProviders (settings : OnnxSettings) : List Text :=
  ((settings.onnxProviders.splitOn ',').map strip).filter (· ≠ [])

/-- `device == "cuda" or not cpu_fallback_enabled`. -/
def OnnxSettings.failsClosed (settings : OnnxSettings) : Bool :=
  settings.device = .cuda || !settings.cpuFallbackEnabled

/-- The names of the inputs are the same for both sessions of a graph. -/
structure OnnxLoadedModel where
  session : Session
  cpuSession : Session := .cpu
  inputNames : List Text
  artifact : LoadedArtifact
  activeProvider : Text
  availableProviders : List Text
  configuredProviders : List Text
  fallbackProvider : Option Text := none
  fallbackReason : Option Text := none
  maxLength : Int

/-- `str(error)`. -/
def Error.str : Error → Text
  | .service _ _ message | .runtimeError message | .valueError message | .exception _ message =>
      message.toList
  | .cancelled => []

/-- `marker in text`. -/
def occursIn (marker text : Text) : Bool :=
  text.tails.any (marker.isPrefixOf ·)

/-- What happens in one call of `_infer`: the tokenizer's part, and each run of a session. -/
structure Runs where
  encoded : Except Error Unit := .ok ()
  first : Except Error (List NdArray)
  retry : Except Error (List NdArray) := first
  onCpu : Except Error (List NdArray) := first

namespace OnnxPairwiseBackend

variable (casefold : Text → Text)

def isOutOfMemory (error : Error) : Bool :=
  occursIn "out of memory".toList (casefold error.str)

def isCudaProviderError (error : Error) : Bool :=
  occursIn "cuda".toList (casefold error.str) || occursIn "cudnn".toList (casefold error.str) ||
    occursIn "cublas".toList (casefold error.str) || isOutOfMemory casefold error

/-- The four assignments, with the reason of a failed inference. -/
def switchToCpu (model : OnnxLoadedModel) : OnnxLoadedModel :=
  { model with
    session := model.cpuSession
    activeProvider := cpuProvider
    fallbackProvider := some cpuProvider
    fallbackReason := some "cuda_inference_failed_using_cpu_fallback".toList }

abbrev Outputs := Session × List NdArray

/-- The `try` statement of `_infer`. -/
def runSession (settings : OnnxSettings) (model : OnnxLoadedModel) (runs : Runs) :
    OnnxLoadedModel × Except Error Outputs :=
  match runs.first with
  | .ok outputs => (model, .ok (model.session, outputs))
  | .error error =>
      if model.activeProvider ≠ cudaProvider ∨ isCudaProviderError casefold error = false then
        (model, .error error)
      else if settings.failsClosed then (model, .error error)
      else
        let fallback :=
          (switchToCpu model, runs.onCpu.map fun outputs => (model.cpuSession, outputs))
        if isOutOfMemory casefold error then fallback
        else
          match runs.retry with
          | .ok outputs => (model, .ok (model.session, outputs))
          | .error retried =>
              if isCudaProviderError casefold retried then fallback else (model, .error retried)

def supportedInputs : List Text :=
  ["input_ids".toList, "attention_mask".toList, "token_type_ids".toList]

/-- `_infer`; the scores come with the session that computed them. -/
def infer (settings : OnnxSettings) (model : OnnxLoadedModel) (runs : Runs) (pairs : List Pair) :
    OnnxLoadedModel × Except Error (Option Session × List Value) :=
  if pairs = [] then (model, .ok (none, []))
  else
    match runs.encoded with
    | .error error => (model, .error error)
    | .ok () =>
        if (model.inputNames.all (· ∈ supportedInputs) && "input_ids".toList ∈ model.inputNames) =
            false then
          (model, .error (.runtimeError "ONNX model has unsupported input names"))
        else
          let (next, returned) := runSession casefold settings model runs
          (next, do
            let (session, outputs) ← returned
            let scores ← scoresFromOutputs (model.artifact.manifest.scoreOutputIndex.map Int.toNat)
              pairs.length outputs
            return (some session, scores))

def warmupPairs : List Pair :=
  [("warmup".toList, "warmup".toList)]

/-! ### Loading -/

/-- What `_load_sync` finds: the artifact of the store, the packages, the providers, and what the
creation and the warm-up of each session come to. -/
structure LoadEnvironment where
  artifact : Except Error LoadedArtifact
  dependencies : Except Error Unit := .ok ()
  available : List Text
  tokenizer : Except Error Unit := .ok ()
  cpuSession : Except Error Unit := .ok ()
  inputNames : List Text := supportedInputs
  cpuWarmup : Runs
  cudaSession : Except Error (List Text) := .ok [cudaProvider, cpuProvider]
  cudaWarmup : Runs

def fallbackOrRaise (settings : OnnxSettings) (cpuModel : OnnxLoadedModel) (reason : String) :
    Except Error OnnxLoadedModel :=
  if settings.failsClosed then .error (.runtimeError "CUDAExecutionProvider is unavailable")
  else .ok { cpuModel with
    fallbackProvider := some cpuProvider
    fallbackReason := some reason.toList }

/-- `_infer` on the warm-up pair, for its effect on the model. -/
def warmUp (settings : OnnxSettings) (model : OnnxLoadedModel) (runs : Runs) :
    Except Error OnnxLoadedModel :=
  (infer casefold settings model runs warmupPairs).2.map fun _ =>
    (infer casefold settings model runs warmupPairs).1

/-- The `try` statement of `_load_sync`. -/
def validateCuda (settings : OnnxSettings) (env : LoadEnvironment) (cpuModel : OnnxLoadedModel) :
    Except Error OnnxLoadedModel := do
  let activeProviders ← env.cudaSession
  if activeProviders.head? ≠ some cudaProvider then
    .error (.runtimeError "CUDAExecutionProvider was not selected by the inference session")
  else
    let cudaModel := { cpuModel with
      session := .cuda
      activeProvider := cudaProvider
      fallbackProvider := none
      fallbackReason := none }
    warmUp casefold settings cudaModel env.cudaWarmup

/-- What `_load_sync` returns once the CPU session is validated. -/
def selectProvider (settings : OnnxSettings) (env : LoadEnvironment) (cpuModel : OnnxLoadedModel) :
    Except Error OnnxLoadedModel :=
  if settings.device = .cpu then .ok cpuModel
  else if cudaProvider ∉ settings.configuredOnnxProviders then
    if settings.device = .cuda then
      .error (.runtimeError "CUDAExecutionProvider is not configured")
    else .ok cpuModel
  else if cudaProvider ∉ env.available then
    fallbackOrRaise settings cpuModel "cuda_unavailable_using_cpu_fallback"
  else
    match validateCuda casefold settings env cpuModel with
    | .ok cudaModel => .ok cudaModel
    | .error _ =>
        if settings.failsClosed then
          .error (.runtimeError "CUDAExecutionProvider session validation failed")
        else .ok { cpuModel with
          fallbackProvider := some cpuProvider
          fallbackReason := some "cuda_initialization_failed_using_cpu_fallback".toList }

def loadSync (settings : OnnxSettings) (env : LoadEnvironment) (revision : Text)
    (maxLength : Int) : Except Error OnnxLoadedModel :=
  if revision.length ≠ 40 then
    .error (artifactError "ONNX runtime requires a resolved 40-character revision")
  else do
    let artifact ← env.artifact
    env.dependencies
    if cpuProvider ∉ settings.configuredOnnxProviders ∨ cpuProvider ∉ env.available then
      .error (.runtimeError "CPUExecutionProvider is required for artifact validation")
    else
      env.tokenizer
      env.cpuSession
      let cpuModel : OnnxLoadedModel :=
        { session := .cpu
          inputNames := env.inputNames
          artifact
          activeProvider := cpuProvider
          availableProviders := env.available
          configuredProviders := settings.configuredOnnxProviders
          maxLength := min maxLength artifact.manifest.maxLength }
      let cpuModel ← warmUp casefold settings cpuModel env.cpuWarmup
      selectProvider casefold settings env cpuModel

/-- One call of `rerank` on a model, which shares it with every later call. -/
structure RerankRun where
  runs : Runs
  pairs : List Pair

def step (settings : OnnxSettings) (model : OnnxLoadedModel) (call : RerankRun) :
    Option OnnxLoadedModel :=
  some (infer casefold settings model call.runs call.pairs).1

end OnnxPairwiseBackend

end RerankerService
