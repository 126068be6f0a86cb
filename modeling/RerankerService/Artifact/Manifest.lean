import Mathlib.Data.Char
import Mathlib.Data.List.Lex
import Mathlib.Data.List.Sort
import RerankerService.Errors
import RerankerService.Foundation.FileSystem
import RerankerService.Revisions
import RerankerService.Scores

/-!
# Artifact manifests

The manifest of `artifacts.py`, what makes one valid, and the directory that an artifact has under
the root.
-/

namespace RerankerService

open Files

/-- A `dict` with string keys, in insertion order. -/
structure Dict (α : Type) where
  entries : List (Text × α)
  nodup : (entries.map Prod.fst).Nodup
  deriving DecidableEq

namespace Dict

variable {α : Type}

def empty : Dict α :=
  ⟨[], List.nodup_nil⟩

def keys (d : Dict α) : List Text :=
  d.entries.map Prod.fst

def values (d : Dict α) : List α :=
  d.entries.map Prod.snd

def get? (d : Dict α) (key : Text) : Option α :=
  d.entries.lookup key

/-- The order of `json.dumps(value, sort_keys=True)`. -/
def sortKeys (d : Dict α) : Dict α where
  entries := d.entries.insertionSort fun a b => a.1 ≤ b.1
  nodup := ((List.perm_insertionSort _ _).map Prod.fst).nodup_iff.mpr d.nodup

end Dict

inductive ArtifactScalar where
  | str (value : Text)
  | int (value : Int)
  | float (value : Value)
  | bool (value : Bool)
  | none
  deriving DecidableEq

def ArtifactScalar.isFloat : ArtifactScalar → Bool
  | .float _ => true
  | _ => false

/-- The backends that have artifacts. -/
inductive ArtifactBackend where
  | onnxPairwise
  deriving DecidableEq, Repr

def ArtifactBackend.text : ArtifactBackend → Text
  | .onnxPairwise => "onnx_pairwise".toList

inductive ScoreTransform where
  | identity
  | sigmoid
  deriving DecidableEq, Repr

/-- Seconds since the epoch. -/
abbrev Timestamp := Nat

/-- The fields of version 1, the only one. -/
structure ArtifactManifest where
  modelId : Text
  requestedRevision : Text
  resolvedRevision : Text
  backend : ArtifactBackend := .onnxPairwise
  precision : Precision
  files : Dict Text
  checksums : Dict Text
  onnxOpset : Int
  exportMetadata : Dict ArtifactScalar := .empty
  createdAt : Timestamp
  runtimeRequirements : Dict Text := .empty
  supportedProviders : List Text
  preferredProvider : Text
  tokenizerMetadata : Dict ArtifactScalar := .empty
  maxLength : Int
  scoreTransform : ScoreTransform := .identity
  scoreOutputName : Option Text := none
  scoreOutputIndex : Option Int := none
  deriving DecidableEq

namespace ArtifactManifest

/-- The manifest with every `dict` in the order of its keys. -/
def sortKeys (manifest : ArtifactManifest) : ArtifactManifest :=
  { manifest with
    files := manifest.files.sortKeys
    checksums := manifest.checksums.sortKeys
    exportMetadata := manifest.exportMetadata.sortKeys
    runtimeRequirements := manifest.runtimeRequirements.sortKeys
    tokenizerMetadata := manifest.tokenizerMetadata.sortKeys }

/-- The metadata has texts, integers, booleans and nulls only. -/
def floatless (manifest : ArtifactManifest) : Bool :=
  (manifest.exportMetadata.values ++ manifest.tokenizerMetadata.values).all (!·.isFloat)

end ArtifactManifest

/-- `SHA256_PATTERN`. -/
def isSha256 (digest : Text) : Bool :=
  digest.length == 64 && digest.all fun c => c.isDigit || ('a' ≤ c && c ≤ 'f')

/-! ### Relative paths -/

/-- The parts of a `PurePosixPath`, without the root. -/
def pathParts (value : Text) : List Text :=
  (value.splitOn '/').filter fun part => part ≠ [] && part ≠ ['.']

/-- `directory / value` goes on with these. -/
def relativePath (value : Text) : Path Text :=
  (pathParts value).map fun part => if part = ['.', '.'] then .parent else .name part

/-- The two checks of `_validate_relative_path`. -/
def relativePathChecks (value : Text) : List (Bool × String) :=
  [(value ≠ [] && '\\' ∉ value,
      "artifact file paths must use non-empty POSIX relative paths"),
    (value.head? ≠ some '/' && ['.', '.'] ∉ pathParts value,
      "artifact file paths must stay inside the artifact directory")]

/-! ### Validation -/

namespace ArtifactManifest

def fieldChecks (manifest : ArtifactManifest) : List (Bool × String) :=
  [(manifest.modelId ≠ [], "String should have at least 1 character"),
    (manifest.requestedRevision ≠ [], "String should have at least 1 character"),
    (11 ≤ manifest.onnxOpset, "Input should be greater than or equal to 11"),
    (manifest.onnxOpset ≤ 30, "Input should be less than or equal to 30"),
    (manifest.supportedProviders ≠ [], "List should have at least 1 item after validation, not 0"),
    (64 ≤ manifest.maxLength, "Input should be greater than or equal to 64"),
    (manifest.maxLength ≤ 8192, "Input should be less than or equal to 8192"),
    (manifest.scoreOutputIndex.all (0 ≤ ·), "Input should be greater than or equal to 0")]

/-- `validate_contract`. -/
def contractChecks (manifest : ArtifactManifest) : List (Bool × String) :=
  [(isFullRevision manifest.resolvedRevision,
      "resolved_revision must be a lowercase 40-character commit SHA"),
    (manifest.files.keys ⊆ manifest.checksums.keys && manifest.checksums.keys ⊆ manifest.files.keys,
      "checksums must exactly match the declared files"),
    ("model".toList ∈ manifest.files.keys && "tokenizer".toList ∈ manifest.files.keys,
      "manifest must declare model and tokenizer files"),
    (manifest.checksums.values.all isSha256, "checksums must be lowercase SHA-256 values")] ++
  manifest.files.values.flatMap relativePathChecks ++
  [(decide (manifest.preferredProvider ∈ manifest.supportedProviders),
      "preferred_provider must be included in supported_providers")]

/-- `ArtifactManifest.model_validate`, once the fields have their types: the first check that fails
is reported. -/
def validate (manifest : ArtifactManifest) : Except Error ArtifactManifest :=
  match (manifest.fieldChecks ++ manifest.contractChecks).find? fun check => check.1 = false with
  | some check => .error (.valueError check.2)
  | none => .ok manifest

end ArtifactManifest

/-! ### Addressing -/

def isUnreserved (c : Char) : Bool :=
  c.isAlphanum || c == '_' || c == '.' || c == '-' || c == '~'

def percent (byte : UInt8) : Text :=
  ['%', (Nat.digitChar (byte.toNat / 16)).toUpper, (Nat.digitChar (byte.toNat % 16)).toUpper]

/-- `urllib.parse.quote(text, safe="-_.")`. -/
def quote (text : Text) : Text :=
  text.flatMap fun c => if isUnreserved c then [c] else (String.utf8EncodeChar c).flatMap percent

def safeModelDirectoryName (modelId : Text) : Except Error Text :=
  if modelId = [] ∨ strip modelId ≠ modelId then
    .error (.valueError "model_id must be a non-empty canonical repository id")
  else if quote modelId = [] ∨ quote modelId = ['.'] ∨ quote modelId = ['.', '.'] then
    .error (.valueError "model_id cannot be represented safely")
  else .ok (quote modelId)

def artifactDirectory (root : Path Text) (modelId resolvedRevision : Text)
    (backend : ArtifactBackend) (precision : Precision) : Except Error (Path Text) :=
  if isFullRevision resolvedRevision = false then
    .error (.valueError "resolved_revision must be a lowercase 40-character commit SHA")
  else
    (safeModelDirectoryName modelId).map fun name =>
      root ++ [.name name, .name resolvedRevision, .name backend.text, .name precision.text]

end RerankerService
