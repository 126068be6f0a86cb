import RerankerService.Console.Strings

/-!
# The CSV reader

`csvRows`: one pass over the code units with one unit of look-ahead. Beside it, what a CSV text is:
how the fields of a row are quoted and how rows end.
-/

namespace RerankerService.Console

/-- The variables of the loop; `skip` is an `index += 1` in its body. -/
structure CsvState where
  rows : List (List JsString) := []
  row : List JsString := []
  field : JsString := []
  quoted : Bool := false
  skip : Bool := false

namespace CsvState

/-- `row.push(field); if (row.some(Boolean)) rows.push(row)`. -/
def endRow (s : CsvState) : CsvState :=
  let row := s.row ++ [s.field]
  { s with rows := if row.any (· ≠ []) then s.rows ++ [row] else s.rows, row := [], field := [] }

/-- The body of the loop for `character`, of which `next` follows it. -/
def read (s : CsvState) (character : UInt16) (next : Option UInt16) : CsvState :=
  if character = doubleQuote ∧ s.quoted = true ∧ next = some doubleQuote then
    { s with field := s.field ++ [doubleQuote], skip := true }
  else if character = doubleQuote then { s with quoted := !s.quoted }
  else if character = comma ∧ s.quoted = false then
    { s with row := s.row ++ [s.field], field := [] }
  else if (character = lineFeed ∨ character = carriageReturn) ∧ s.quoted = false then
    { s.endRow with skip := decide (character = carriageReturn ∧ next = some lineFeed) }
  else { s with field := s.field ++ [character] }

/-- The loop. -/
def readAll (s : CsvState) : JsString → CsvState
  | [] => s
  | character :: rest =>
      readAll (if s.skip then { s with skip := false } else s.read character rest.head?) rest

end CsvState

def csvRows (content : JsString) : List (List JsString) :=
  (CsvState.readAll {} content).endRow.rows

/-! ### What a table looks like in CSV -/

/-- A field with the way it is written: in quotes, or bare when nothing in it needs them. -/
structure CsvField where
  value : JsString
  inQuotes : Bool
  bare : inQuotes = false → ∀ c ∈ value,
    c ≠ comma ∧ c ≠ doubleQuote ∧ c ≠ carriageReturn ∧ c ≠ lineFeed

def doubleQuotes (value : JsString) : JsString :=
  value.flatMap fun c => if c = doubleQuote then [doubleQuote, doubleQuote] else [c]

def CsvField.text (field : CsvField) : JsString :=
  if field.inQuotes then doubleQuote :: (doubleQuotes field.value ++ [doubleQuote]) else field.value

inductive LineEnd where
  | lf
  | cr
  | crlf

def LineEnd.text : LineEnd → JsString
  | .lf => [lineFeed]
  | .cr => [carriageReturn]
  | .crlf => [carriageReturn, lineFeed]

abbrev CsvRow := List CsvField

def CsvRow.text (row : CsvRow) : JsString :=
  [comma].intercalate (row.map CsvField.text)

def CsvRow.values (row : CsvRow) : List JsString :=
  row.map CsvField.value

/-- Rows with their terminators, and possibly a last one without. -/
structure CsvTable where
  lines : List (CsvRow × LineEnd)
  last : Option CsvRow := none

namespace CsvTable

def text (table : CsvTable) : JsString :=
  (table.lines.flatMap fun line => line.1.text ++ line.2.text) ++
    (table.last.map CsvRow.text).getD []

def rows (table : CsvTable) : List (List JsString) :=
  (table.lines.map Prod.fst ++ table.last.toList).map CsvRow.values

end CsvTable

end RerankerService.Console
