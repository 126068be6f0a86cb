import RerankerService.Artifact.Manifest
import RerankerService.Runtime.Lifecycle

/-!
# The report on a candidate

`check_candidate` with everything it returns and with what the backend may raise.
-/

namespace RerankerService

open Files

/-- `ModelCandidateRequest`, as far as it accepts a body. -/
structure ModelCandidateRequest where
  name : Text
  revision : Text := "main".toList
  nameLength : 1 ≤ name.length ∧ name.length ≤ 200
  revisionLength : 1 ≤ revision.length ∧ revision.length ≤ 200
  safeRevision : validRevisionReference revision = true

/-- `type(exc).__name__`. -/
def Error.className : Error → String
  | .service _ _ _ => "ServiceError"
  | .runtimeError _ => "RuntimeError"
  | .valueError _ => "ValueError"
  | .exception name _ => name
  | .cancelled => "CancelledError"

/-- The machine and the Hub at the time of a check. `hub` is the commit of the revision or what
asking for it raises; `artifactBytes` is the size of the file that a path under the root resolves
to, if there is one inside the root. -/
structure Surroundings where
  hub : Except Error Text
  availableBytes : Nat
  artifactRoot : Path Text
  artifactBytes : Path Text → Option Nat
  gpuMemoryFreeBytes : Option Nat
  cudaFreeBytes : Option Nat

/-- The dictionaries that `candidate_requirements` returns. -/
inductive Requirements where
  | empty
  | noArtifact
  | artifact (artifactBytes estimatedGpuBytes : Nat) (gpuMemoryFreeBytes : Option Nat)
      (gpuParallelLoadSupported : Bool)
  | constant (estimatedGpuBytes : Nat) (gpuFreeBytes : Option Nat) (gpuParallelLoadSupported : Bool)

namespace Requirements

def artifactAvailable : Requirements → Bool
  | .empty | .noArtifact => false
  | .artifact _ _ _ _ | .constant _ _ _ => true

def gpuParallelLoadSupported : Requirements → Bool
  | .empty | .noArtifact => false
  | .artifact _ _ _ supported | .constant _ _ supported => supported

end Requirements

structure CandidateReport where
  name : Text
  requestedRevision : Text
  resolvedRevision : Option Text
  revisionResolutionError : Option String
  allowed : Bool
  revisionValid : Bool
  device : Text
  availableMemoryBytes : Nat
  estimatedAdditionalMemoryBytes : Nat
  canParallelLoad : Bool
  backendRequirements : Requirements

namespace CandidateReport

def controlledRestartRequired (report : CandidateReport) : Bool :=
  !report.canParallelLoad

def valid (report : CandidateReport) : Bool :=
  report.allowed && report.revisionValid && report.resolvedRevision.isSome

end CandidateReport

/-- `OnnxPairwiseBackend.candidate_requirements`; `int(artifact_bytes * 2.5)` is exact below
2 ^ 50 bytes. -/
def onnxRequirements (precision : Precision) (host : Surroundings) (model revision : Text) :
    Except Error Requirements :=
  if revision.length ≠ 40 then .ok .noArtifact
  else do
    let directory ←
      artifactDirectory host.artifactRoot model (lower revision) .onnxPairwise precision
    match host.artifactBytes (directory ++ [.name "model.onnx".toList]) with
    | none => return .noArtifact
    | some artifactBytes =>
        let estimated := artifactBytes * 5 / 2
        return .artifact artifactBytes estimated host.gpuMemoryFreeBytes
          (host.gpuMemoryFreeBytes.any (estimated + 512 * 1024 * 1024 ≤ ·))

/-- `backend.candidate_requirements(model, revision)`. -/
def Settings.candidateRequirements (settings : Settings) (host : Surroundings)
    (model revision : Text) : Except Error Requirements :=
  match settings.backend with
  | .onnxPairwise => onnxRequirements settings.precision host model revision
  | .jinaListwise =>
      .ok (.constant 3500000000 host.cudaFreeBytes (host.cudaFreeBytes.all (3500000000 ≤ ·)))
  | .legacyCrossEncoder | .alibabaGte => .ok .empty

namespace ModelRuntime

def resolveRevision (s : ModelRuntime) (host : Surroundings) (revision : Text) :
    Except Error Text :=
  if s.settings.mockModel then .ok (lower revision) else resolveImmutableRevision host.hub revision

/-- The outcome of the resolution, where it is tried. -/
def resolution (s : ModelRuntime) (host : Surroundings) (name revision : Text) :
    Option (Except Error Text) :=
  if validRevisionReference revision && decide (name ∈ s.settings.allowedModels) then
    some (s.resolveRevision host revision)
  else none

def resolvedRevision (s : ModelRuntime) (host : Surroundings) (name revision : Text) :
    Option Text :=
  (s.resolution host name revision).bind Except.toOption

def requirements (s : ModelRuntime) (host : Surroundings) (name revision : Text) :
    Except Error Requirements :=
  s.settings.candidateRequirements host name ((s.resolvedRevision host name revision).getD revision)

/-- `check_candidate`. -/
def candidateReport (s : ModelRuntime) (host : Surroundings) (name revision : Text) :
    Except Error CandidateReport := do
  let resolutionError :=
    match s.resolution host name revision with
    | some (.error error) => some error.className
    | _ => none
  let estimatedBytes := if s.device = "cpu".toList then 3500000000 else 3000000000
  let fits := s.settings.mockModel || decide (estimatedBytes ≤ host.availableBytes)
  let backendRequirements ← s.requirements host name revision
  return {
    name
    requestedRevision := revision
    resolvedRevision := s.resolvedRevision host name revision
    revisionResolutionError := resolutionError
    allowed := decide (name ∈ s.settings.allowedModels)
    revisionValid := validRevisionReference revision
    device := s.device
    availableMemoryBytes := host.availableBytes
    estimatedAdditionalMemoryBytes := estimatedBytes
    canParallelLoad :=
      if s.device = "cuda".toList ∧ backendRequirements.artifactAvailable then
        fits && backendRequirements.gpuParallelLoadSupported
      else fits
    backendRequirements }

end ModelRuntime

end RerankerService
