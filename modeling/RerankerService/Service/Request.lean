import Mathlib.Data.List.Sort
import RerankerService.Runtime.State

/-!
# Requests and responses

The data of `schemas.py` and the parts of `RerankService` that await nothing: the checks of a
request, the places of the missing scores, and the ranking. Latencies and metrics are left out.
-/

namespace RerankerService

/-- A document that the schema accepts; `metadata` is its JSON. -/
structure Document where
  id : Text
  text : Text
  metadata : Text := []
  text_ne : text ≠ [] := by decide

structure RerankRequest where
  requestId : Nat
  query : Text
  documents : List Document
  topN : Option Nat := none
  returnDocuments : Bool := true
  truncate : Bool := true
  query_ne : query ≠ [] := by decide
  documents_ne : documents ≠ [] := by decide
  topN_pos : ∀ n, topN = some n → 1 ≤ n := by simp

inductive RerankMode where
  | pairwise
  | listwise
  deriving DecidableEq

/-- `backend.capabilities().rerank_mode`. -/
def Settings.rerankMode (settings : Settings) : RerankMode :=
  match settings.backend with
  | .jinaListwise => .listwise
  | _ => .pairwise

/-- `backend.capabilities().max_documents`. -/
def Settings.backendMaxDocuments (settings : Settings) : Nat :=
  match settings.backend with
  | .jinaListwise => min settings.maxDocuments 64
  | _ => settings.maxDocuments

/-- A normalized score, by the formula that it is computed with. -/
inductive Normalized where
  | sigmoid (rawScore : Value)
  | linear (rawScore : Value)
  deriving DecidableEq

/-- `backend.normalized_score(active_model, raw_score)`. -/
def Settings.normalized (settings : Settings) (model : Option Source) (rawScore : Value) :
    Option Normalized :=
  match settings.backend with
  | .legacyCrossEncoder | .alibabaGte => some (.sigmoid rawScore)
  | .onnxPairwise => if model.any Source.sigmoid then some (.sigmoid rawScore) else none
  | .jinaListwise =>
      match rawScore with
      | .finite value => if -1 ≤ value ∧ value ≤ 1 then some (.linear rawScore) else none
      | _ => none

/-- `0 <= normalized_score <= 1`. Both formulas map a NaN to a NaN, which no bound admits; the
sigmoid maps an infinity to a bound and every other float between the bounds. -/
def Normalized.inRange : Normalized → Bool
  | .sigmoid rawScore => rawScore ≠ .nan
  | .linear (.finite value) => -1 ≤ value ∧ value ≤ 1
  | .linear _ => false

/-- `normalizedBy` is the model that `backend.normalized_score(active_model, score)` is called
with. -/
structure Result where
  id : Text
  score : Score
  normalizedScore : Option Normalized
  normalizedBy : Option Source
  rank : Nat
  text : Option Text
  metadata : Text
  tokenCount : Nat
  truncated : Bool
  cacheHit : Bool

/-- The bounds of the schema. A rank is a position counted from one. -/
def Result.valid (result : Result) : Bool :=
  result.normalizedScore.all Normalized.inRange

structure Usage where
  documentsReceived : Nat
  documentsScored : Nat
  cacheHits : Nat

structure RerankResponse where
  requestId : Nat
  model : Text
  modelRevision : Text
  device : Text
  requestedRevision : Text
  resolvedRevision : Text
  backend : Text
  rerankMode : RerankMode
  activeProvider : Text
  results : List Result
  usage : Usage

def RerankResponse.valid (response : RerankResponse) : Bool :=
  response.results.all Result.valid

structure PreparedDocument where
  document : Document
  text : Text
  truncated : Bool

namespace RerankService

/-! ### Validation -/

def requestTooLarge (message : String) : Error :=
  .service 413 "request_too_large" message

def prepareDocument (settings : Settings) (truncate : Bool) (document : Document) :
    Except Error PreparedDocument :=
  if document.text.length ≤ settings.maxDocumentCharacters then
    .ok { document, text := document.text, truncated := false }
  else if truncate then
    .ok { document, text := document.text.take settings.maxDocumentCharacters, truncated := true }
  else .error (requestTooLarge "document exceeds character limit")

/-- The loop of `_validate` over the documents, with its running total. -/
def prepare (settings : Settings) (truncate : Bool) :
    (total : Nat) → List Document → Except Error (List PreparedDocument × Nat)
  | total, [] => .ok ([], total)
  | total, document :: rest => do
      let prepared ← prepareDocument settings truncate document
      let (others, total) ← prepare settings truncate (total + prepared.text.length) rest
      return (prepared :: others, total)

def prepareQuery (settings : Settings) (request : RerankRequest) : Except Error Text :=
  if request.query.length ≤ settings.maxQueryCharacters then .ok request.query
  else if request.truncate then .ok (request.query.take settings.maxQueryCharacters)
  else .error (requestTooLarge "query exceeds character limit")

def validate (settings : Settings) (request : RerankRequest) :
    Except Error (Text × List PreparedDocument) := do
  if settings.maxDocuments < request.documents.length then
    throw (requestTooLarge "too many documents")
  let query ← prepareQuery settings request
  let (prepared, total) ← prepare settings request.truncate query.length request.documents
  if settings.maxTotalCharacters < total then
    throw (requestTooLarge "total character limit exceeded")
  return (query, prepared)

/-! ### Missing scores -/

variable {σ : Type}

/-- `[i for i, score in enumerate(scores) if score is None]`. -/
def missing (scores : List (Option σ)) : List Nat :=
  (List.range scores.length).filter fun i => (scores[i]?.join).isNone

/-- `for index, score in zip(misses, inferred): scores[index] = score`. -/
def scatter (scores : List (Option σ)) (misses : List Nat) (inferred : List σ) :
    List (Option σ) :=
  (misses.zip inferred).foldl (fun scores entry => scores.set entry.1 (some entry.2)) scores

/-! ### Ranking -/

/-- A missing score counts as `0.0`. -/
def scoreAt (scores : List (Option Score)) (i : Nat) : Score :=
  (scores[i]?.join).getD { value := .finite 0, source := none, pair := none }

/-- The stable sort of `(index, score, document)` by `-score`. -/
def ranked (scores : List (Option Score)) (prepared : List PreparedDocument) :
    List (Nat × Score × PreparedDocument) :=
  (prepared.mapIdx fun i document => (i, scoreAt scores i, document)).insertionSort
    fun a b => Value.lt a.2.1.value b.2.1.value = false

/-- `min(request.top_n or default_top_n, n)`; a `top_n` of the request is not zero. -/
def topN (settings : Settings) (request : RerankRequest) (n : Nat) : Nat :=
  min (request.topN.getD settings.defaultTopN) n

def rankedResults (settings : Settings) (request : RerankRequest)
    (prepared : List PreparedDocument) (normalizedBy : Option Source) (misses : List Nat)
    (scores : List (Option Score)) : List Result :=
  ((ranked scores prepared).take (topN settings request prepared.length)).mapIdx
    fun position entry =>
      { id := entry.2.2.document.id
        score := entry.2.1
        normalizedScore := settings.normalized normalizedBy entry.2.1.value
        normalizedBy
        rank := position + 1
        text := if request.returnDocuments then some entry.2.2.document.text else none
        metadata := entry.2.2.document.metadata
        tokenCount := (splitWords entry.2.2.text).length
        truncated := entry.2.2.truncated
        cacheHit := entry.1 ∉ misses }

end RerankService

end RerankerService
