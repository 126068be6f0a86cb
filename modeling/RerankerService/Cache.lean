import RerankerService.Settings

/-!
# The score cache

`cache.py`. The standard library's NFKC normalisation and SHA-256 are parameters. Redis keeps what it
is given, so its values are scores here; `get_many` turns every failure into misses, and `set_many`
swallows every failure.
-/

namespace RerankerService

/-- What the cache takes from the standard library: `unicodedata.normalize("NFKC", ·)` and
`hashlib.sha256(·.encode()).hexdigest()`. -/
structure Primitives where
  nfkc : Text → Text
  sha256 : Text → Text

def normalizeText (prims : Primitives) (value : Text) : Text :=
  Words.collapse isSpace ' ' (prims.nfkc value)

namespace ScoreCache

/-- The text that is hashed: seven fields joined by NUL. -/
def payload (prims : Primitives) (settings : Settings) (query document : Text) : Text :=
  [nul].intercalate [settings.model, settings.modelRevision, settings.backend.text,
    settings.precision.text, normalizeText prims query, normalizeText prims document,
    decimal settings.maxLength]

def key (prims : Primitives) (settings : Settings) (query document : Text) : Text :=
  "reranker:score:".toList ++ prims.sha256 (payload prims settings query document)

/-- The keys of one `mget`. -/
def keys (prims : Primitives) (settings : Settings) (query : Text) (documents : List Text) :
    List Text :=
  documents.map (key prims settings query)

/-- `get_many` on the answer of Redis, `none` when the call raised. -/
def getMany {σ : Type} (settings : Settings) (documents : List Text)
    (answer : Option (List (Option σ))) : List (Option σ) :=
  if settings.cacheEnabled then
    match answer with
    | some values => values
    | none => List.replicate documents.length none
  else List.replicate documents.length none

/-- One `pipe.set`: the key, with the settings and texts it was computed from, and the value. -/
structure Write (σ : Type) where
  key : Text
  settings : Settings
  query : Text
  document : Text
  score : σ

/-- What `set_many` hands to Redis. A length mismatch raises inside the `try`, before anything is
executed. -/
def setMany {σ : Type} (prims : Primitives) (settings : Settings) (query : Text)
    (documents : List Text) (scores : List σ) : List (Write σ) :=
  if settings.cacheEnabled ∧ documents ≠ [] ∧ documents.length = scores.length then
    List.zipWith (fun document score =>
      { key := key prims settings query document, settings, query, document, score })
      documents scores
  else []

end ScoreCache

end RerankerService
