import Mathlib.Data.List.Basic
import RerankerService.Foundation.Words

/-!
# Texts and settings

A Python `str` accepted by the request schemas is a sequence of Unicode scalar values, so texts are
lists of characters. `Settings` is the one mutable configuration object that the cache, the batcher,
the runtime and the service share; its defaults are those of `config.py`.
-/

namespace RerankerService

abbrev Text := List Char

instance Text.lawfulBEq : LawfulBEq Text := inferInstance

/-- One `(query, document)` pair as the predictors receive it. -/
abbrev Pair := Text × Text

def nul : Char := '\x00'

/-- The characters that `str.split()` and `str.isspace()` treat as whitespace. -/
def isSpace (c : Char) : Bool :=
  (9 ≤ c.toNat && c.toNat ≤ 13) || (28 ≤ c.toNat && c.toNat ≤ 32) || c.toNat == 0x85 ||
  c.toNat == 0xA0 || c.toNat == 0x1680 || (0x2000 ≤ c.toNat && c.toNat ≤ 0x200A) ||
  c.toNat == 0x2028 || c.toNat == 0x2029 || c.toNat == 0x202F || c.toNat == 0x205F ||
  c.toNat == 0x3000

/-- `text.split()`. -/
def splitWords (text : Text) : List Text :=
  Words.words isSpace text

/-- `str(value)` of a non-negative integer. -/
def decimal (value : Nat) : Text :=
  Nat.toDigits 10 value

inductive BackendName where
  | legacyCrossEncoder
  | onnxPairwise
  | jinaListwise
  | alibabaGte
  deriving DecidableEq, Repr

def BackendName.text : BackendName → Text
  | .legacyCrossEncoder => "legacy_cross_encoder".toList
  | .onnxPairwise => "onnx_pairwise".toList
  | .jinaListwise => "jina_listwise".toList
  | .alibabaGte => "alibaba_gte".toList

inductive Precision where
  | fp32
  | fp16
  deriving DecidableEq, Repr

def Precision.text : Precision → Text
  | .fp32 => "fp32".toList
  | .fp16 => "fp16".toList

structure Settings where
  model : Text := "BAAI/bge-reranker-v2-m3".toList
  modelRevision : Text := "953dc6f6f85a1b2dbfca4c34a2796e7dde08d41e".toList
  modelAllowlist : Text := "BAAI/bge-reranker-v2-m3".toList
  backend : BackendName := .onnxPairwise
  precision : Precision := .fp32
  maxLength : Nat := 1024
  maxConcurrency : Nat := 2
  gpuMaxConcurrency : Nat := 1
  cpuMaxConcurrency : Nat := 2
  dynamicBatching : Bool := true
  maxBatchPairs : Nat := 128
  maxBatchTokens : Nat := 16384
  maxQueueSize : Nat := 256
  cacheEnabled : Bool := true
  maxDocuments : Nat := 100
  maxQueryCharacters : Nat := 8000
  maxDocumentCharacters : Nat := 20000
  maxTotalCharacters : Nat := 500000
  maxBatchRequests : Nat := 32
  defaultTopN : Nat := 10
  mockModel : Bool := false

/-- `text.strip()`. -/
def strip (text : Text) : Text :=
  ((text.dropWhile isSpace).reverse.dropWhile isSpace).reverse

def Settings.allowedModels (settings : Settings) : List Text :=
  ((settings.modelAllowlist.splitOn ',').map strip).filter (· ≠ [])

theorem decimal_injective : Function.Injective decimal := by
  intro m n h
  rw [← Nat.ofDigitChars_ten_toDigits (n := m), ← Nat.ofDigitChars_ten_toDigits (n := n)]
  exact congrArg (fun digits => Nat.ofDigitChars 10 digits 0) h

theorem isDigit_of_mem_decimal {c : Char} {value : Nat} (hc : c ∈ decimal value) : c.isDigit :=
  Nat.isDigit_of_mem_toDigits (by decide) (by decide) hc

theorem BackendName.text_injective : Function.Injective BackendName.text := by
  intro a b h
  cases a <;> cases b <;> first | rfl | exact absurd h (by decide)

theorem Precision.text_injective : Function.Injective Precision.text := by
  intro a b h
  cases a <;> cases b <;> first | rfl | exact absurd h (by decide)

end RerankerService
