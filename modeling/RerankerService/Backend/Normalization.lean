import RerankerService.Arithmetic
import RerankerService.Backend.Onnx

/-!
# Normalized scores

`normalized_score` of the four backends on finite raw scores, over the numbers of an ordered field.
-/

namespace RerankerService

variable {K : Type} [Field K] [LinearOrder K]

/-- What the code takes from `math`: `exp` raises when its result is too large for a float. -/
structure MathModule (K : Type) where
  isfinite : K → Bool
  exp : K → Except Error K

/-- The sigmoid as three of the backends write it. -/
def branchSigmoid (math : MathModule K) (value : K) : Except Error K :=
  if 0 ≤ value then do
    let exponent ← math.exp (-value)
    floatDivide 1 (1 + exponent)
  else do
    let exponent ← math.exp value
    floatDivide exponent (1 + exponent)

/-- `_sigmoid`. -/
def OnnxPairwiseBackend.sigmoid (math : MathModule K) (value : K) : Except Error K :=
  branchSigmoid math value

/-- `none` is a model that is no `OnnxLoadedModel`. -/
def OnnxPairwiseBackend.normalizedScore (math : MathModule K) (model : Option OnnxLoadedModel)
    (rawScore : K) : Except Error (Option K) :=
  match model with
  | none => .ok none
  | some model =>
      if model.artifact.manifest.scoreTransform ≠ .sigmoid then .ok none
      else (OnnxPairwiseBackend.sigmoid math rawScore).map some

def LegacyCrossEncoderBackend.normalizedScore (math : MathModule K) (rawScore : K) :
    Except Error (Option K) :=
  (branchSigmoid math rawScore).map some

def AlibabaGteBackend.normalizedScore (math : MathModule K) (rawScore : K) :
    Except Error (Option K) :=
  (branchSigmoid math rawScore).map some

def JinaListwiseBackend.normalizedScore (math : MathModule K) (rawScore : K) :
    Except Error (Option K) :=
  if math.isfinite rawScore = false ∨ ¬(-1 ≤ rawScore ∧ rawScore ≤ 1) then .ok none
  else (floatDivide (rawScore + 1) 2).map some

/-- `backend.normalized_score(model, raw_score)` of the configured backend. -/
def Settings.normalizedScore (settings : Settings) (math : MathModule K)
    (model : Option OnnxLoadedModel) (rawScore : K) : Except Error (Option K) :=
  match settings.backend with
  | .onnxPairwise => OnnxPairwiseBackend.normalizedScore math model rawScore
  | .legacyCrossEncoder => LegacyCrossEncoderBackend.normalizedScore math rawScore
  | .alibabaGte => AlibabaGteBackend.normalizedScore math rawScore
  | .jinaListwise => JinaListwiseBackend.normalizedScore math rawScore

/-- The backend maps scores by a sigmoid: an ONNX model only if its manifest says so. -/
def Settings.usesSigmoid (settings : Settings) (model : Option OnnxLoadedModel) : Bool :=
  match settings.backend with
  | .onnxPairwise => model.any fun model => model.artifact.manifest.scoreTransform = .sigmoid
  | .legacyCrossEncoder | .alibabaGte => true
  | .jinaListwise => false

end RerankerService
