import RerankerService.Artifact.Store

/-!
# The exporter

`exporter.py`. The callbacks are parameters: a resolver answers or raises, an exporter leaves any tree
where the staging directory was and returns or raises.
-/

namespace RerankerService

open Files

inductive ExportDevice where
  | cpu
  | cuda
  deriving DecidableEq, Repr

def ExportDevice.text : ExportDevice → Text
  | .cpu => "cpu".toList
  | .cuda => "cuda".toList

structure ExportRequest where
  modelId : Text
  requestedRevision : Text
  artifactRoot : Path Text
  allowedModels : List Text
  precision : Precision
  opset : Int
  maxLength : Int
  scoreTransform : ScoreTransform
  scoreOutputName : Option Text := none
  scoreOutputIndex : Option Int := none
  exportDevice : ExportDevice := .cpu

abbrev RevisionResolver := ExportRequest → Except Error Text

abbrev ArtifactExporter (β : Type) := ExportRequest → Text → Except Error Unit × Tree Text β

namespace Exporter

def modelFile : Text :=
  "model.onnx".toList

def tokenizerFile : Text :=
  "tokenizer.json".toList

def manifestFile : Text :=
  "manifest.json".toList

/-- The manifest that `prepare_artifact` builds, before it is validated. -/
def manifest (request : ExportRequest) (resolvedRevision : Text) (now : Timestamp)
    (modelDigest tokenizerDigest : Text) : ArtifactManifest where
  modelId := request.modelId
  requestedRevision := request.requestedRevision
  resolvedRevision := resolvedRevision
  precision := request.precision
  files :=
    { entries := [("model".toList, modelFile), ("tokenizer".toList, tokenizerFile)]
      nodup := by decide }
  checksums :=
    { entries := [("model".toList, modelDigest), ("tokenizer".toList, tokenizerDigest)]
      nodup := show ["model".toList, "tokenizer".toList].Nodup by decide }
  onnxOpset := request.opset
  exportMetadata :=
    { entries := [("exporter".toList, .str "optimum".toList),
        ("export_device".toList, .str request.exportDevice.text),
        ("validation".toList, .bool true)]
      nodup := show ["exporter".toList, "export_device".toList, "validation".toList].Nodup by decide }
  createdAt := now
  runtimeRequirements :=
    { entries := [("onnxruntime-gpu".toList, "1.26.0".toList), ("cuda".toList, "12.8".toList),
        ("cudnn".toList, "9.x".toList)]
      nodup := by decide }
  supportedProviders := ["CUDAExecutionProvider".toList, "CPUExecutionProvider".toList]
  preferredProvider := "CUDAExecutionProvider".toList
  tokenizerMetadata :=
    { entries := [("file".toList, .str tokenizerFile), ("fast".toList, .bool true)]
      nodup := by decide }
  maxLength := request.maxLength
  scoreTransform := request.scoreTransform
  scoreOutputName := request.scoreOutputName
  scoreOutputIndex := request.scoreOutputIndex

variable {β : Type} (format : ArtifactFormat β)

/-- The checks of the export directory and of its parent. -/
def checkParent (fs : FileSystem Text β) (root parent : Path Text) : Except Error Unit := do
  let root ← (fs.resolve root).mapError (resolveError osError)
  let parent ← (fs.resolve parent).mapError (resolveError osError)
  require (root <+: parent) (artifactError "artifact export directory escapes the configured root")

/-- The checks of what the exporter left, and the manifest of it. -/
def exportedManifest (fs : FileSystem Text β) (request : ExportRequest) (resolvedRevision : Text)
    (now : Timestamp) (staging : Path Text) : Except Error ArtifactManifest := do
  let modelPath := staging ++ [.name modelFile]
  let tokenizerPath := staging ++ [.name tokenizerFile]
  require (fs.isFile modelPath && fs.isFile tokenizerPath)
    (artifactError "exporter did not produce model.onnx and tokenizer.json")
  let model ← (fs.read modelPath).mapError osError
  let tokenizer ← (fs.read tokenizerPath).mapError osError
  (manifest request resolvedRevision now (format.sha256 model)
    (format.sha256 tokenizer)).validate

variable (refusals : Refusals Text)

/-- What follows the exporter in the `try`. -/
def publish (fs : FileSystem Text β) (request : ExportRequest) (resolvedRevision : Text)
    (now : Timestamp) (staging target : Path Text) : Except Error Unit × FileSystem Text β :=
  match exportedManifest format fs request resolvedRevision now staging with
  | .error error => (.error error, fs)
  | .ok manifest =>
      match fs.writeText refusals (staging ++ [.name manifestFile]) (format.dumps manifest) with
      | .error error => (.error (osError error), fs)
      | .ok written =>
          match written.replace refusals staging target with
          | .error error => (.error (osError error), written)
          | .ok published => (.ok (), published)

/-- The `finally`. -/
def cleanUp (fs : FileSystem Text β) (staging : Path Text) : Except Error Unit × FileSystem Text β :=
  if fs.pathExists staging then
    let removed := fs.rmtree refusals staging
    (removed.1.mapError osError, removed.2)
  else (.ok (), fs)

/-- The `try` on the new staging directory. -/
def exportInto (fs : FileSystem Text β) (request : ExportRequest) (resolvedRevision : Text)
    (now : Timestamp) (exporter : ArtifactExporter β) (staging target : Path Text) :
    Except Error Unit × FileSystem Text β :=
  match (fs.entry staging).bind fun l => fs.put l (exporter request resolvedRevision).2 with
  | .error error => (.error (osError error), fs)
  | .ok exported =>
      match (exporter request resolvedRevision).1 with
      | .error error => (.error error, exported)
      | .ok () => publish format refusals exported request resolvedRevision now staging target

/-- The directory that `mkdtemp` makes; `suffix` is the random part of the name that it finds unused. -/
def madePath (target : Path Text) (suffix : Text) : Path Text :=
  target.dropLast ++ [.name (".export-".toList ++ suffix)]

/-- What `mkdtemp` returns. -/
def stagingPath (target : Path Text) (suffix : Text) : Path Text :=
  FileSystem.abspath (madePath target suffix)

/-- `prepare_artifact` from the creation of the parent on. -/
def prepareFresh (fs : FileSystem Text β) (request : ExportRequest) (resolvedRevision : Text)
    (now : Timestamp) (suffix : Text) (exporter : ArtifactExporter β) (target : Path Text) :
    Except Error LoadedArtifact × FileSystem Text β :=
  let parent := target.dropLast
  let staging := stagingPath target suffix
  match fs.makeDirectories refusals parent.inits with
  | (.error error, fs) => (.error (osError error), fs)
  | (.ok (), fs) =>
      match checkParent fs request.artifactRoot parent with
      | .error error => (.error error, fs)
      | .ok () =>
          match fs.makeDirectory refusals (madePath target suffix) with
          | .error error => (.error (osError error), fs)
          | .ok created =>
              let attempt := exportInto format refusals created request resolvedRevision now exporter
                staging target
              let cleaned := cleanUp refusals attempt.2 staging
              match cleaned.1, attempt.1 with
              | .error error, _ => (.error error, cleaned.2)
              | .ok (), .error error => (.error error, cleaned.2)
              | .ok (), .ok () =>
                  (ArtifactStore.load format cleaned.2 { root := request.artifactRoot } request.modelId
                    resolvedRevision .onnxPairwise request.precision, cleaned.2)

def prepareArtifact (fs : FileSystem Text β) (request : ExportRequest) (resolver : RevisionResolver)
    (exporter : ArtifactExporter β) (now : Timestamp) (suffix : Text) :
    Except Error LoadedArtifact × FileSystem Text β :=
  match resolver request with
  | .error error => (.error error, fs)
  | .ok revision =>
      if isFullRevision (lower revision) = false then
        (.error (.runtimeError "revision resolver returned a non-immutable revision"), fs)
      else
        match artifactDirectory request.artifactRoot request.modelId (lower revision) .onnxPairwise
          request.precision with
        | .error error => (.error error, fs)
        | .ok target =>
            if fs.pathExists target then
              (ArtifactStore.load format fs { root := request.artifactRoot } request.modelId
                (lower revision) .onnxPairwise request.precision, fs)
            else
              prepareFresh format refusals fs request (lower revision) now suffix exporter target

end Exporter

end RerankerService
