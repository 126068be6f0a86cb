import Mathlib.Analysis.SpecialFunctions.Sigmoid
import RerankerService.Backend.Normalization

/-!
# Normalized scores keep the order

The two branches of the sigmoid are one strictly increasing function into `(0, 1)`, and each applies
`math.exp` to a number that is not positive: a `math.exp` that is the exponential there is enough.
-/

namespace RerankerService

variable {math : MathModule ℝ} {settings : Settings} {model : Option OnnxLoadedModel}
  {x low high : ℝ}

/-- `math.exp` over exact numbers, as far as it is used. -/
def MathModule.Exponential (math : MathModule ℝ) : Prop :=
  ∀ x ≤ 0, math.exp x = .ok (Real.exp x)

theorem one_add_exp_pos (x : ℝ) : 0 < 1 + Real.exp x :=
  add_pos one_pos (Real.exp_pos x)

/-- The branch for negative scores is the same function. -/
theorem exp_div_eq_sigmoid (x : ℝ) : Real.exp x / (1 + Real.exp x) = Real.sigmoid x := by
  have hinv : Real.exp x * Real.exp (-x) = 1 := by
    rw [← Real.exp_add, add_neg_cancel, Real.exp_zero]
  have hsum : 1 + Real.exp x = Real.exp x * (1 + Real.exp (-x)) := by
    rw [mul_add, mul_one, hinv, add_comm]
  calc Real.exp x / (1 + Real.exp x)
      = Real.exp x / (Real.exp x * (1 + Real.exp (-x))) := by rw [hsum]
    _ = (1 + Real.exp (-x))⁻¹ := by
        rw [div_mul_cancel_left₀ (Real.exp_pos x).ne']
    _ = Real.sigmoid x := rfl

theorem branchSigmoid_eq (hexp : math.Exponential) (x : ℝ) :
    branchSigmoid math x = .ok (Real.sigmoid x) := by
  unfold branchSigmoid
  by_cases hx : 0 ≤ x
  · rw [if_pos hx, hexp (-x) (neg_nonpos.mpr hx)]
    change floatDivide 1 (1 + Real.exp (-x)) = _
    rw [floatDivide_eq (one_add_exp_pos _), one_div]
    rfl
  · rw [if_neg hx, hexp x (not_le.mp hx).le]
    change floatDivide (Real.exp x) (1 + Real.exp x) = _
    rw [floatDivide_eq (one_add_exp_pos _), exp_div_eq_sigmoid]

/-- What each backend returns: a sigmoid, Jina's linear map, or nothing. -/
inductive Normalizes (settings : Settings) (model : Option OnnxLoadedModel) (x : ℝ) :
    Option ℝ → Prop where
  | sigmoid (huses : settings.usesSigmoid model = true) :
      Normalizes settings model x (some (Real.sigmoid x))
  | linear (huses : settings.usesSigmoid model = false) (hrange : -1 ≤ x ∧ x ≤ 1) :
      Normalizes settings model x (some ((x + 1) / 2))
  | nothing (huses : settings.usesSigmoid model = false) : Normalizes settings model x none

theorem onnx_normalizes (hexp : math.Exponential) (hbackend : settings.backend = .onnxPairwise)
    (model : Option OnnxLoadedModel) (x : ℝ) :
    ∃ score, OnnxPairwiseBackend.normalizedScore math model x = .ok score ∧
      Normalizes settings model x score := by
  cases model with
  | none =>
      refine ⟨none, rfl, .nothing ?_⟩
      simp [Settings.usesSigmoid, hbackend]
  | some model =>
      by_cases hsigmoid : model.artifact.manifest.scoreTransform = .sigmoid
      · refine ⟨some (Real.sigmoid x), ?_, .sigmoid ?_⟩
        · unfold OnnxPairwiseBackend.normalizedScore OnnxPairwiseBackend.sigmoid
          dsimp only
          rw [if_neg (not_not.mpr hsigmoid), branchSigmoid_eq hexp]
          rfl
        · simp [Settings.usesSigmoid, hbackend, hsigmoid]
      · refine ⟨none, if_pos hsigmoid, .nothing ?_⟩
        simp [Settings.usesSigmoid, hbackend, hsigmoid]

theorem jina_normalizes (hfinite : ∀ x, math.isfinite x = true)
    (hbackend : settings.backend = .jinaListwise) (model : Option OnnxLoadedModel) (x : ℝ) :
    ∃ score, JinaListwiseBackend.normalizedScore math x = .ok score ∧
      Normalizes settings model x score := by
  have huses : settings.usesSigmoid model = false := by simp [Settings.usesSigmoid, hbackend]
  unfold JinaListwiseBackend.normalizedScore
  by_cases hrange : -1 ≤ x ∧ x ≤ 1
  · refine ⟨some ((x + 1) / 2), ?_, .linear huses hrange⟩
    rw [if_neg (by simp [hfinite, hrange]), floatDivide_eq two_pos]
    rfl
  · exact ⟨none, if_pos (.inr hrange), .nothing huses⟩

theorem normalizedScore_normalizes (hfinite : ∀ x, math.isfinite x = true)
    (hexp : math.Exponential) (settings : Settings) (model : Option OnnxLoadedModel) (x : ℝ) :
    ∃ score, settings.normalizedScore math model x = .ok score ∧
      Normalizes settings model x score := by
  have hsigmoid : (branchSigmoid math x).map some = .ok (some (Real.sigmoid x)) := by
    rw [branchSigmoid_eq hexp]
    rfl
  unfold Settings.normalizedScore
  cases hbackend : settings.backend with
  | onnxPairwise => exact onnx_normalizes hexp hbackend model x
  | jinaListwise => exact jina_normalizes hfinite hbackend model x
  | legacyCrossEncoder =>
      exact ⟨_, hsigmoid, .sigmoid (by simp [Settings.usesSigmoid, hbackend])⟩
  | alibabaGte => exact ⟨_, hsigmoid, .sigmoid (by simp [Settings.usesSigmoid, hbackend])⟩

theorem Normalizes.range {score : ℝ} (h : Normalizes settings model x (some score)) :
    0 ≤ score ∧ score ≤ 1 := by
  cases h with
  | sigmoid huses => exact ⟨Real.sigmoid_nonneg x, Real.sigmoid_le_one x⟩
  | linear huses hrange =>
      constructor
      · linarith [hrange.1]
      · linarith [hrange.2]

theorem Normalizes.strictMono {a b : ℝ} (hlow : Normalizes settings model low (some a))
    (hhigh : Normalizes settings model high (some b)) (hlt : low < high) : a < b := by
  cases hlow with
  | sigmoid huses =>
      cases hhigh with
      | sigmoid _ => exact Real.sigmoid_strictMono hlt
      | linear hnot _ => exact absurd huses (by simp [hnot])
  | linear hnot _ =>
      cases hhigh with
      | sigmoid huses => exact absurd huses (by simp [hnot])
      | linear _ _ => linarith

/-- **Normalized scores are safe and keep the order.** -/
theorem normalizedScore_safe (math : MathModule ℝ) (hfinite : ∀ x, math.isfinite x = true)
    (hexp : math.Exponential) (settings : Settings) (model : Option OnnxLoadedModel)
    (low high : ℝ) :
    ∃ scoreLow scoreHigh, settings.normalizedScore math model low = .ok scoreLow ∧
      settings.normalizedScore math model high = .ok scoreHigh ∧
      (∀ a, scoreLow = some a → 0 ≤ a ∧ a ≤ 1) ∧
      (∀ a b, scoreLow = some a → scoreHigh = some b → low < high → a < b) ∧
      (settings.usesSigmoid model = true → scoreLow = some (1 / (1 + Real.exp (-low)))) := by
  obtain ⟨scoreLow, hlow, hnormalized⟩ := normalizedScore_normalizes hfinite hexp settings model low
  obtain ⟨scoreHigh, hhigh, hnormalized'⟩ :=
    normalizedScore_normalizes hfinite hexp settings model high
  refine ⟨scoreLow, scoreHigh, hlow, hhigh, ?_, ?_, ?_⟩
  · rintro a rfl
    exact hnormalized.range
  · rintro a b rfl rfl hlt
    exact hnormalized.strictMono hnormalized' hlt
  · intro huses
    cases hnormalized with
    | sigmoid _ => rw [one_div, Real.sigmoid_def]
    | linear hnot _ => exact absurd huses (by simp [hnot])
    | nothing hnot => exact absurd huses (by simp [hnot])

/-- An exponential that is too large for a float from 710 on. -/
noncomputable def MathModule.bounded : MathModule ℝ where
  isfinite _ := true
  exp x :=
    if x < 710 then .ok (Real.exp x)
    else .error (.exception "OverflowError" "math range error")

/-- Two scores of different signs. -/
theorem normalizedScore_safe_signs :
    ∃ scoreLow scoreHigh,
      ({ backend := .legacyCrossEncoder } : Settings).normalizedScore .bounded none (-800) =
        .ok scoreLow ∧
      ({ backend := .legacyCrossEncoder } : Settings).normalizedScore .bounded none 800 =
        .ok scoreHigh ∧
      (∀ a, scoreLow = some a → 0 ≤ a ∧ a ≤ 1) ∧
      (∀ a b, scoreLow = some a → scoreHigh = some b → (-800 : ℝ) < 800 → a < b) ∧
      (({ backend := .legacyCrossEncoder } : Settings).usesSigmoid none = true →
        scoreLow = some (1 / (1 + Real.exp (-(-800))))) := by
  refine normalizedScore_safe .bounded (fun _ => rfl) (fun x hx => ?_) _ none (-800) 800
  exact if_pos (by linarith)

end RerankerService
