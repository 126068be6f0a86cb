import Mathlib.Data.List.Dedup
import RerankerService.Errors
import RerankerService.Settings
import RerankerService.Scores

/-!
# From the output of a model to scores

What each backend's `rerank` does with the value that its library returns: the selection of a column,
the conversion to floats, and the checks of counts, indexes and finiteness, in the order of the code.
-/

namespace RerankerService

/-- An element of a returned container: a number, or something that `float()` and `int()` reject. -/
inductive Cell where
  | number (value : Value)
  | other

def conversionError : Error :=
  .exception "TypeError" "float() argument must be a string or a real number"

/-- `float(cell)`. -/
def Cell.float : Cell → Except Error Value
  | .number value => .ok value
  | .other => .error conversionError

/-- A `numpy` array by its number of dimensions; three and more are never looked into. -/
inductive NdArray where
  | scalar (value : Cell)
  | vector (values : List Cell)
  | matrix (columns : Nat) (rows : List (Fin columns → Cell))
  | tensor

/-- One result of Jina's `model.rerank`; `index` is `none` when `int()` rejects it. -/
structure JinaResult where
  index : Option Int
  relevanceScore : Cell

/-- What the models of the backends return: the outputs of an ONNX session, the values of
`CrossEncoder.predict` (`none` when they cannot be iterated), the flattened logits of Alibaba's model
and the results of Jina's. -/
structure ModelOutput where
  outputs : List NdArray := []
  predictions : Option (List Cell) := none
  logits : List Value := []
  ranked : List JinaResult := []

/-- What the mock branches take from the standard library: `re.findall(r"\w+", text.casefold())`, and
the rounding of a quotient or difference to a float. -/
structure MockPrimitives where
  words : Text → List Text
  round : Rat → Rat

/-- The share of the query's words that the document has. -/
def MockPrimitives.overlap (mock : MockPrimitives) (query document : Text) : Rat :=
  let queryWords := (mock.words query).dedup
  mock.round ((queryWords.filter (· ∈ mock.words document)).length / max queryWords.length 1)

namespace OnnxPairwiseBackend

/-- The branches of `_extract_scores` that reassign `array`. -/
def selectScores (outputIndex : Option Nat) (pairCount : Nat) : NdArray → Except Error NdArray
  | .scalar value => .ok (if pairCount = 1 then .vector [value] else .scalar value)
  | .matrix columns rows =>
      if rows.length ≠ pairCount then .ok (.matrix columns rows)
      else if h : columns = 1 then .ok (.vector (rows.map fun row => row ⟨0, by omega⟩))
      else
        match outputIndex with
        | some index =>
            if h : index < columns then .ok (.vector (rows.map fun row => row ⟨index, h⟩))
            else .error (.runtimeError "multi-column ONNX scores require score_output_index")
        | none => .error (.runtimeError "multi-column ONNX scores require score_output_index")
  | array => .ok array

def shapeMismatch : Error :=
  .runtimeError "ONNX score output shape does not match the input pair count"

def extractScores (outputIndex : Option Nat) (pairCount : Nat) (output : NdArray) :
    Except Error (List Value) := do
  match ← selectScores outputIndex pairCount output with
  | .vector values => if values.length = pairCount then values.mapM Cell.float else throw shapeMismatch
  | _ => throw shapeMismatch

def scoresFromOutputs (outputIndex : Option Nat) (pairCount : Nat) (outputs : List NdArray) :
    Except Error (List Value) :=
  match outputs with
  | [output] => do
      let scores ← extractScores outputIndex pairCount output
      if scores.all Value.isFinite then return scores
      else throw (.runtimeError "ONNX reranker returned non-finite scores")
  | _ => .error (.runtimeError "ONNX reranker must expose exactly one selected score output")

/-- `rerank`, whose session runs return `outputs` or raise. -/
def rerank (outputIndex : Option Nat) (returned : Except Error ModelOutput) (pairs : List Pair) :
    Except Error (List Value) :=
  if pairs = [] then .ok []
  else do
    let output ← returned
    scoresFromOutputs outputIndex pairs.length output.outputs

end OnnxPairwiseBackend

namespace LegacyCrossEncoderBackend

def mockRerank (mock : MockPrimitives) (pairs : List Pair) : List Value :=
  pairs.map fun pair => .finite (mock.round (mock.overlap pair.1 pair.2 * 8 - 3))

def rerank (mock : MockPrimitives) (mockModel : Bool) (returned : Except Error ModelOutput)
    (pairs : List Pair) : Except Error (List Value) :=
  if mockModel then .ok (mockRerank mock pairs)
  else do
    let output ← returned
    match output.predictions with
    | some values => values.mapM Cell.float
    | none => throw (.exception "TypeError" "object is not iterable")

end LegacyCrossEncoderBackend

namespace AlibabaGteBackend

def rerank (mock : MockPrimitives) (mockModel : Bool) (returned : Except Error ModelOutput)
    (pairs : List Pair) : Except Error (List Value) :=
  if mockModel then .ok (pairs.map fun pair => .finite (mock.overlap pair.1 pair.2))
  else do
    let output ← returned
    let scores := output.logits
    if scores.length ≠ pairs.length ∨ scores.all Value.isFinite = false then
      throw (.runtimeError "Alibaba GTE returned invalid scores")
    return scores

end AlibabaGteBackend

namespace JinaListwiseBackend

/-- The body of the loop over the results. -/
def place (scores : List (Option Value)) (result : JinaResult) :
    Except Error (List (Option Value)) :=
  match result.index with
  | none => .error conversionError
  | some index =>
      if index < 0 ∨ scores[index.toNat]? ≠ some none then
        .error (.runtimeError "Jina returned invalid document indexes")
      else do
        let score ← result.relevanceScore.float
        if score.isFinite then return scores.set index.toNat (some score)
        else throw (.runtimeError "Jina returned a non-finite relevance score")

def collect (documents : Nat) (ranked : List JinaResult) : Except Error (List Value) := do
  let scores ← ranked.foldlM place (List.replicate documents none)
  if scores.any Option.isNone then throw (.runtimeError "Jina did not return every document")
  return scores.reduceOption

def rerank (mock : MockPrimitives) (settings : Settings) (returned : Except Error ModelOutput)
    (pairs : List Pair) : Except Error (List Value) :=
  match pairs with
  | [] => .ok []
  | (query, document) :: rest =>
      if rest.any fun pair => pair.1 ≠ query then
        .error (.valueError "listwise inference cannot combine different queries")
      else if min settings.maxDocuments 64 < ((query, document) :: rest).length then
        .error (.valueError "too many documents for Jina listwise inference")
      else if settings.mockModel then
        .ok (((query, document) :: rest).map fun pair => .finite (mock.overlap query pair.2))
      else do
        let output ← returned
        collect ((query, document) :: rest).length output.ranked

end JinaListwiseBackend

/-- `backend.rerank(model, pairs)` of the configured backend, on a model that returns or raises
`returned`. -/
def Settings.rerank (settings : Settings) (mock : MockPrimitives) (outputIndex : Option Nat)
    (returned : Except Error ModelOutput) (pairs : List Pair) : Except Error (List Value) :=
  match settings.backend with
  | .onnxPairwise => OnnxPairwiseBackend.rerank outputIndex returned pairs
  | .legacyCrossEncoder => LegacyCrossEncoderBackend.rerank mock settings.mockModel returned pairs
  | .alibabaGte => AlibabaGteBackend.rerank mock settings.mockModel returned pairs
  | .jinaListwise => JinaListwiseBackend.rerank mock settings returned pairs

end RerankerService
