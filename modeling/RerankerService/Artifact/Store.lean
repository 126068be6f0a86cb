import RerankerService.Artifact.Manifest

/-!
# The artifact store

`ArtifactStore.load`. What a JSON text says and how it is hashed are parameters; contents of files are
of any type.
-/

namespace RerankerService

open Files

/-- What `hashlib`, `json` and `pydantic` do: `hexdigest` of a content, the text of a manifest
(`json.dumps` of `model_dump`), and the fields in a text, where they are there with their types. -/
structure ArtifactFormat (β : Type) where
  sha256 : β → Text
  dumps : ArtifactManifest → β
  loads : β → Option ArtifactManifest

/-- **The law of the format**: what `json.dumps(..., sort_keys=True)` has written is read back with
the keys in order. -/
def ArtifactFormat.RoundTrips {β : Type} (format : ArtifactFormat β) : Prop :=
  ∀ manifest : ArtifactManifest, manifest.floatless = true →
    format.loads (format.dumps manifest) = some manifest.sortKeys

def artifactError (message : String) : Error :=
  .exception "ArtifactError" message

def osError : OsError → Error
  | .notFound => .exception "FileNotFoundError" ""
  | .notDirectory => .exception "NotADirectoryError" ""
  | .isDirectory => .exception "IsADirectoryError" ""
  | .exists => .exception "FileExistsError" ""
  | .denied => .exception "PermissionError" ""
  | .notEmpty | .invalid | .busy | .loop => .exception "OSError" ""

/-- What `Path.resolve(strict=True)` raises: a loop of links is no `OSError`. -/
def resolveError (raised : OsError → Error) : OsError → Error
  | .loop => .runtimeError "Symlink loop"
  | error => raised error

/-- `if not condition: raise error`. -/
def require (condition : Bool) (error : Error) : Except Error Unit :=
  if condition then .ok () else .error error

/-- `files` has the resolved path of each declared file. -/
structure LoadedArtifact where
  manifest : ArtifactManifest
  directory : Location Text
  files : List (Text × Location Text)
  deriving DecidableEq

structure ArtifactStore where
  root : Path Text

namespace ArtifactStore

variable {β : Type} (format : ArtifactFormat β) (fs : FileSystem Text β)

def invalidManifest : Error :=
  artifactError "artifact manifest is missing or invalid"

/-- The `try` of `load`, from the expected directory to the validated manifest. -/
def readManifest (store : ArtifactStore) (expected : Path Text) :
    Except Error (Location Text × ArtifactManifest) := do
  let raised := resolveError fun _ => invalidManifest
  let root ← (fs.resolve store.root).mapError raised
  let directory ← (fs.resolve expected).mapError raised
  require (root <+: directory) (artifactError "artifact directory escapes the configured root")
  let resolved ← (fs.resolve (expected ++ [.name "manifest.json".toList])).mapError raised
  require (directory <+: resolved && fs.isFile (resolved.map .name))
    (artifactError "artifact manifest escapes the artifact directory")
  let text ← (fs.read (resolved.map .name)).mapError raised
  match format.loads text with
  | none => .error invalidManifest
  | some fields =>
      let manifest ← fields.validate.mapError fun _ => invalidManifest
      return (directory, manifest)

/-- The body of the loop over `manifest.files`. -/
def loadFile (directory : Location Text) (manifest : ArtifactManifest) (file : Text × Text) :
    Except Error (Text × Location Text) := do
  let resolved ← (fs.resolve (directory.map .name ++ relativePath file.2)).mapError
    (resolveError fun _ => artifactError "artifact file is missing")
  require (directory <+: resolved && fs.isFile (resolved.map .name))
    (artifactError "artifact file escapes the artifact directory")
  let content ← (fs.read (resolved.map .name)).mapError osError
  match manifest.checksums.get? file.1 with
  | none => .error (.exception "KeyError" "")
  | some checksum =>
      require (format.sha256 content = checksum)
        (artifactError "artifact checksum verification failed")
      return (file.1, resolved)

def load (store : ArtifactStore) (modelId resolvedRevision : Text) (backend : ArtifactBackend)
    (precision : Precision) : Except Error LoadedArtifact := do
  let expected ← artifactDirectory store.root modelId resolvedRevision backend precision
  let (directory, manifest) ← store.readManifest format fs expected
  require (manifest.modelId = modelId && manifest.resolvedRevision = resolvedRevision &&
      manifest.backend = backend && manifest.precision = precision)
    (artifactError "artifact manifest identity does not match the requested artifact")
  let files ← manifest.files.entries.mapM (loadFile format fs directory manifest)
  return { manifest, directory, files }

end ArtifactStore

end RerankerService
