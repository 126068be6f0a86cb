import RerankerService.Console.Storage

/-!
# The saved inputs of the Playground

`loadPlaygroundState` and `savePlaygroundState`. A value that is not an object has no properties
here, so that a look-up contains the loader's `isRecord` for the value it looks in.
-/

namespace RerankerService.Console

/-- The importer and the inputs of the page build it, without a check of the type of `metadata`. -/
structure PlaygroundDocument where
  id : JsString
  text : JsString
  metadata : JsonValue

def playgroundStorageKey : JsString := js "reranker.playground.v1"

def playgroundRememberKey : JsString := js "reranker.playground.remember"

def playgroundStorageVersion : Value := .finite 1

/-- Without the `version`, which is always the same. -/
structure PlaygroundState where
  query : JsString
  documents : List PlaygroundDocument
  topN : Value

def defaultPlaygroundState : PlaygroundState where
  query := js "Describe the candidate's Kubernetes experience"
  documents :=
    [⟨js "kubernetes", js "Basic conceptual knowledge of Kubernetes.", emptyObject⟩,
      ⟨js "docker", js "Production experience with Docker Compose.", emptyObject⟩]
  topN := .finite 10

/-! ### Loading -/

/-- `Number.isInteger`. -/
def isInteger : Value → Bool
  | .finite value => value.den = 1
  | _ => false

def validTopN (topN : Value) : Bool :=
  isInteger topN && !topN.lt (.finite 1) && !(Value.finite 100).lt topN

def readDocument (document : JsonValue) : Option PlaygroundDocument :=
  match document.get? (js "id"), document.get? (js "text"), document.get? (js "metadata") with
  | some (.string id), some (.string text), some metadata =>
      if metadata.isRecord then some ⟨id, text, metadata⟩ else none
  | _, _, _ => none

/-- A single document that is not accepted makes the loader drop everything. -/
def readPlaygroundState (value : JsonValue) : Option PlaygroundState :=
  match value.get? (js "version"), value.get? (js "query"), value.get? (js "documents"),
    value.get? (js "top_n") with
  | some (.number version), some (.string query), some (.array documents), some (.number topN) =>
      if version = playgroundStorageVersion ∧ validTopN topN then
        ((documents.mapM readDocument).filter fun documents => documents.length ≤ 100).map
          fun documents => ⟨query, documents, topN⟩
      else none
  | _, _, _, _ => none

section Library

variable (json : JsonLibrary)

/-- The state that is loaded, and the storage, from which an opted out user's inputs are removed. -/
def loadPlaygroundState (storage : LocalStorage) : PlaygroundState × LocalStorage :=
  if storage.getItem playgroundRememberKey = some (js "false") then
    (defaultPlaygroundState, storage.removeItem playgroundStorageKey)
  else
    let raw := (storage.getItem playgroundStorageKey).filter (· ≠ [])
    (((raw.bind json.parse).bind readPlaygroundState).getD defaultPlaygroundState, storage)

/-! ### Saving -/

def PlaygroundDocument.persisted (document : PlaygroundDocument) : JsonValue :=
  .object [(js "id", .string document.id), (js "metadata", document.metadata),
    (js "text", .string document.text)]

def PlaygroundState.persisted (state : PlaygroundState) : JsonValue :=
  .object [(js "documents", .array (state.documents.map PlaygroundDocument.persisted)),
    (js "query", .string state.query), (js "top_n", .number state.topN),
    (js "version", .number playgroundStorageVersion)]

def savePlaygroundState (storage : LocalStorage) (state : PlaygroundState) : LocalStorage :=
  if state.query = [] ∧ state.documents.length = 0 ∧ state.topN = .finite 10 then
    storage.removeItem playgroundStorageKey
  else storage.setItem playgroundStorageKey (json.stringify state.persisted)

end Library

end RerankerService.Console
