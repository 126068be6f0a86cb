import RerankerService.Settings

/-!
# Scores and where they come from

The code passes floats around. A `Score` is such a float together with its provenance, which no
modelled function reads: the model that the execution ran with and the pair it was for.
-/

namespace RerankerService

/-- A Python `float`; signed zeros are one value. -/
inductive Value where
  | nan
  | negInf
  | finite (value : Rat)
  | posInf
  deriving DecidableEq, Repr

/-- `math.isfinite`. -/
def Value.isFinite : Value → Bool
  | .finite _ => true
  | _ => false

/-- `a < b` on floats. -/
def Value.lt : Value → Value → Bool
  | .finite a, .finite b => a < b
  | .negInf, .finite _ | .negInf, .posInf | .finite _, .posInf => true
  | _, _ => false

abbrev ModelId := Nat

/-- What a loaded model is: `name` and `revision` are the arguments of the `backend.load` call that
returned it, `maxLength` is its truncation length and `cap` the largest one that its backend accepts
(the manifest's `max_length`). `sigmoid` says that the manifest of an ONNX artifact has this
`score_transform`. -/
structure Source where
  name : Text
  revision : Text
  resolvedRevision : Text
  cap : Nat
  maxLength : Nat
  sigmoid : Bool := false
  deriving DecidableEq

structure Score where
  value : Value
  source : Option Source
  pair : Option Pair
  deriving DecidableEq

end RerankerService
