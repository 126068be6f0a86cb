import RerankerService.Console.Csv
import RerankerService.Console.Playground

/-!
# Importing documents

`parseDocuments`: the documents of a JSON, CSV or text file. `toLowerCase` is a parameter, no result
depends on Unicode's tables.
-/

namespace RerankerService.Console

/-- What `parseDocuments` throws: an error of the language, or its own with this message. -/
inductive ImportError where
  | syntaxError
  | typeError
  | error (message : JsString)
  deriving DecidableEq

def documentId (index : Nat) : JsString :=
  js "doc-" ++ decimalUnits (index + 1)

/-! ### Strings -/

/-- `WhiteSpace` and `LineTerminator` of the language. -/
def isWhiteSpace (c : UInt16) : Bool :=
  (9 ≤ c && c ≤ 13) || c = 0x20 || c = 0xA0 || c = 0x1680 || (0x2000 ≤ c && c ≤ 0x200A) ||
    c = 0x2028 || c = 0x2029 || c = 0x202F || c = 0x205F || c = 0x3000 || c = 0xFEFF

/-- `s.trim()`. -/
def trim (s : JsString) : JsString :=
  ((s.dropWhile isWhiteSpace).reverse.dropWhile isWhiteSpace).reverse

/-- `s.split('.').pop()`. -/
def afterLastDot (s : JsString) : JsString :=
  (s.reverse.takeWhile (· ≠ unit '.')).reverse

/-- `s.split(/\r?\n/)`. -/
def splitLines : JsString → List JsString
  | [] => [[]]
  | c :: rest =>
      if c = lineFeed then [] :: splitLines rest
      else if c = carriageReturn ∧ rest.head? = some lineFeed then splitLines rest
      else (splitLines rest).modifyHead (c :: ·)

/-! ### The three formats -/

/-- `typeof value === 'object'` for a value other than `null`: arrays are objects, too. -/
def isObject : JsonValue → Bool
  | .array _ | .object _ => true
  | _ => false

/-- The values for the documents in a JSON file. -/
def jsonValues : JsonValue → Except ImportError (List JsonValue)
  | .array values => .ok values
  | .null => .error .typeError
  | parsed =>
      match parsed.get? (js "documents") with
      | some (.array values) => .ok values
      | _ => .error (.error (js "JSON must contain a document array"))

def jsonMetadata (value : JsonValue) : JsonValue :=
  ((value.get? (js "metadata")).filter isObject).getD emptyObject

def jsonDocument (value : JsonValue) (index : Nat) : Except ImportError PlaygroundDocument :=
  match value with
  | .string text => .ok ⟨documentId index, text, emptyObject⟩
  | _ =>
      match value.get? (js "text") with
      | some (.string text) =>
          let id :=
            match value.get? (js "id") with
            | some (.string id) => id
            | _ => documentId index
          .ok ⟨id, text, jsonMetadata value⟩
      | _ => .error (.error (js "Document " ++ decimalUnits (index + 1) ++ js " has no text"))

/-- A CSV file: the indices of the columns that are read, and the rows after the headers. -/
structure Columns where
  textIndex : Nat
  idIndex : Option Nat
  metadataIndex : Option Nat
  rows : List (List JsString)

/-- The cell, or the empty string where the row or the column is missing. -/
def cell (row : List JsString) (index : Option Nat) : JsString :=
  (index.bind (row[·]?)).getD []

section Library

variable (json : JsonLibrary) (toLowerCase : JsString → JsString)

def csvColumns (content : JsString) : Except ImportError Columns :=
  match csvRows content with
  | [] => .error (.error (js "CSV requires a text column"))
  | first :: rows =>
      let headers := first.map fun header => toLowerCase (trim header)
      match headers.idxOf? (js "text") with
      | some textIndex =>
          .ok ⟨textIndex, headers.idxOf? (js "id"), headers.idxOf? (js "metadata"), rows⟩
      | none => .error (.error (js "CSV requires a text column"))

/-- A cell that is not JSON becomes a property of its own. -/
def csvMetadata (text : JsString) : JsonValue :=
  if text = [] then emptyObject
  else (json.parse text).getD (.object [(js "imported_metadata", .string text)])

def csvDocument (columns : Columns) (row : List JsString) (index : Nat) : PlaygroundDocument where
  id := if cell row columns.idIndex = [] then documentId index else cell row columns.idIndex
  text := cell row (some columns.textIndex)
  metadata := csvMetadata json (cell row columns.metadataIndex)

def textDocument (text : JsString) (index : Nat) : PlaygroundDocument :=
  ⟨documentId index, text, emptyObject⟩

/-- The documents of the file, those without text included. -/
def fileDocuments (filename content : JsString) : Except ImportError (List PlaygroundDocument) :=
  let extension := afterLastDot (toLowerCase filename)
  if extension = js "json" then do
    let some parsed := json.parse content | throw .syntaxError
    let values ← jsonValues parsed
    values.zipIdx.mapM fun (value, index) => jsonDocument value index
  else if extension = js "csv" then do
    let columns ← csvColumns toLowerCase content
    return columns.rows.mapIdx fun index row => csvDocument json columns row index
  else
    .ok (((splitLines content).filter (· ≠ [])).mapIdx fun index text => textDocument text index)

def parseDocuments (filename content : JsString) :
    Except ImportError (List PlaygroundDocument) := do
  let documents ← fileDocuments json toLowerCase filename content
  let documents := documents.filter fun document => 0 < document.text.length
  if documents.length = 0 then throw (.error (js "No documents found"))
  if 100 < documents.length then
    throw (.error (js "A request may contain at most 100 documents"))
  return documents

end Library

end RerankerService.Console
