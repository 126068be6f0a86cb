import Mathlib.Algebra.BigOperators.Intervals
import Mathlib.Algebra.BigOperators.Ring.Finset
import Mathlib.Algebra.Order.BigOperators.Group.Finset
import Mathlib.Data.Finset.Prod
import Mathlib.Tactic.FieldSimp
import Mathlib.Tactic.Linarith
import Mathlib.Tactic.Ring

/-!
# Rank correlation

Two rankings of the same items are compared through a disagreement: the sum of squared displacements,
or the number of pairs that they order differently. Reversing one ranking turns disagreement into
agreement, and the two add up to a constant. Every coefficient here is the difference of agreement
and disagreement over their sum, so its range, extremes and signs are those of that quotient.
-/

namespace RerankerService.RankCorrelation

variable {α : Type*} {items : Finset α} {r s : α → ℕ} {x : α}

/-- `rank` numbers the items from zero on. -/
structure IsRanking (items : Finset α) (rank : α → ℕ) : Prop where
  injOn : Set.InjOn rank items
  lt : ∀ x ∈ items, rank x < items.card

def reverse (items : Finset α) (rank : α → ℕ) (x : α) : ℕ :=
  items.card - 1 - rank x

namespace IsRanking

theorem reverse (h : IsRanking items r) : IsRanking items (reverse items r) where
  injOn x hx y hy heq := by
    have hxlt := h.lt x hx
    have hylt := h.lt y hy
    apply h.injOn hx hy
    unfold RankCorrelation.reverse at heq
    omega
  lt x hx := by
    have hxlt := h.lt x hx
    unfold RankCorrelation.reverse
    omega

theorem reverse_reverse (h : IsRanking items r) (hx : x ∈ items) :
    RankCorrelation.reverse items (RankCorrelation.reverse items r) x = r x := by
  have hlt := h.lt x hx
  unfold RankCorrelation.reverse
  omega

theorem image_eq [DecidableEq α] (h : IsRanking items r) :
    items.image r = Finset.range items.card := by
  apply Finset.eq_of_subset_of_card_le
  · intro i hi
    obtain ⟨x, hx, rfl⟩ := Finset.mem_image.mp hi
    exact Finset.mem_range.mpr (h.lt x hx)
  · rw [Finset.card_range, Finset.card_image_of_injOn h.injOn]

/-- The rank of an item is the number of items before it. -/
theorem card_before [DecidableEq α] (h : IsRanking items r) (hx : x ∈ items) :
    (items.filter fun y => r y < r x).card = r x := by
  have himage : (items.filter fun y => r y < r x).image r = Finset.range (r x) := by
    ext i
    rw [Finset.mem_image, Finset.mem_range]
    constructor
    · rintro ⟨y, hy, rfl⟩
      exact (Finset.mem_filter.mp hy).2
    · intro hi
      have hmem : i ∈ items.image r := by
        rw [h.image_eq, Finset.mem_range]
        exact hi.trans (h.lt x hx)
      obtain ⟨y, hy, rfl⟩ := Finset.mem_image.mp hmem
      exact ⟨y, Finset.mem_filter.mpr ⟨hy, hi⟩, rfl⟩
  rw [← Finset.card_image_of_injOn (h.injOn.mono (Finset.coe_subset.mpr (Finset.filter_subset _ _))),
    himage, Finset.card_range]

theorem sum_comp [DecidableEq α] (h : IsRanking items r) (f : ℕ → ℤ) :
    ∑ x ∈ items, f (r x) = ∑ i ∈ Finset.range items.card, f i := by
  rw [← h.image_eq, Finset.sum_image h.injOn]

end IsRanking

/-! ### Squared displacements -/

def squaredDifference (items : Finset α) (r s : α → ℕ) : ℤ :=
  ∑ x ∈ items, ((r x : ℤ) - s x) ^ 2

theorem squaredDifference_nonneg (items : Finset α) (r s : α → ℕ) :
    0 ≤ squaredDifference items r s :=
  Finset.sum_nonneg fun _ _ => sq_nonneg _

theorem squaredDifference_comm (items : Finset α) (r s : α → ℕ) :
    squaredDifference items r s = squaredDifference items s r :=
  Finset.sum_congr rfl fun _ _ => by ring

theorem squaredDifference_congr (r : α → ℕ) {s' : α → ℕ} (h : ∀ x ∈ items, s x = s' x) :
    squaredDifference items r s = squaredDifference items r s' :=
  Finset.sum_congr rfl fun x hx => by rw [h x hx]

theorem squaredDifference_eq_zero :
    squaredDifference items r s = 0 ↔ ∀ x ∈ items, r x = s x := by
  rw [squaredDifference, Finset.sum_eq_zero_iff_of_nonneg fun _ _ => sq_nonneg _]
  refine forall₂_congr fun x _ => ?_
  rw [sq_eq_zero_iff, sub_eq_zero, Nat.cast_inj]

theorem two_mul_sum_range (n : ℕ) : 2 * ∑ i ∈ Finset.range n, (i : ℤ) = n * (n - 1) := by
  induction n with
  | zero => simp
  | succ n ih =>
      rw [Finset.sum_range_succ, mul_add, ih]
      push_cast
      ring

theorem six_mul_sum_range_sq (n : ℕ) :
    6 * ∑ i ∈ Finset.range n, (i : ℤ) ^ 2 = n * (n - 1) * (2 * n - 1) := by
  induction n with
  | zero => simp
  | succ n ih =>
      rw [Finset.sum_range_succ, mul_add, ih]
      push_cast
      ring

theorem natCast_reverse (hr : IsRanking items r) (hx : x ∈ items) :
    ((reverse items r x : ℕ) : ℤ) = items.card - 1 - r x := by
  have hlt := hr.lt x hx
  unfold reverse
  omega

/-- **Displacements from a ranking and from its reverse add up to a constant.** -/
theorem squaredDifference_add_reverse [DecidableEq α] (hr : IsRanking items r)
    (hs : IsRanking items s) :
    3 * (squaredDifference items r s + squaredDifference items r (reverse items s)) =
      items.card * ((items.card : ℤ) ^ 2 - 1) := by
  set n : ℤ := (items.card : ℤ) with hn
  have hpoint : ∀ x ∈ items, ((r x : ℤ) - s x) ^ 2 + ((r x : ℤ) - (reverse items s x : ℕ)) ^ 2 =
      2 * (r x : ℤ) ^ 2 + 2 * (s x : ℤ) ^ 2 + (n - 1) ^ 2 - 2 * (n - 1) * (r x : ℤ) -
        2 * (n - 1) * (s x : ℤ) := by
    intro x hx
    rw [natCast_reverse hs hx, ← hn]
    ring
  have hsum : squaredDifference items r s + squaredDifference items r (reverse items s) =
      4 * ∑ i ∈ Finset.range items.card, (i : ℤ) ^ 2 + n * (n - 1) ^ 2 -
        4 * (n - 1) * ∑ i ∈ Finset.range items.card, (i : ℤ) := by
    rw [squaredDifference, squaredDifference, ← Finset.sum_add_distrib,
      Finset.sum_congr rfl hpoint, Finset.sum_sub_distrib, Finset.sum_sub_distrib,
      Finset.sum_add_distrib, Finset.sum_add_distrib, ← Finset.mul_sum, ← Finset.mul_sum,
      ← Finset.mul_sum, ← Finset.mul_sum, hr.sum_comp fun i => (i : ℤ) ^ 2,
      hs.sum_comp fun i => (i : ℤ) ^ 2, hr.sum_comp fun i => (i : ℤ),
      hs.sum_comp fun i => (i : ℤ), Finset.sum_const, nsmul_eq_mul]
    ring
  have hlinear := two_mul_sum_range items.card
  have hsquares := six_mul_sum_range_sq items.card
  rw [← hn] at hlinear hsquares
  calc 3 * (squaredDifference items r s + squaredDifference items r (reverse items s))
      = 2 * (6 * ∑ i ∈ Finset.range items.card, (i : ℤ) ^ 2) + 3 * n * (n - 1) ^ 2 -
          6 * (n - 1) * (2 * ∑ i ∈ Finset.range items.card, (i : ℤ)) := by rw [hsum]; ring
    _ = 2 * (n * (n - 1) * (2 * n - 1)) + 3 * n * (n - 1) ^ 2 - 6 * (n - 1) * (n * (n - 1)) := by
        rw [hlinear, hsquares]
    _ = n * (n ^ 2 - 1) := by ring

/-! ### Pairs in the same and in the opposite order -/

def pairs (items : Finset α) (p : α → α → Prop) [DecidableRel p] : Finset (α × α) :=
  (items ×ˢ items).filter fun pair => p pair.1 pair.2

theorem mem_pairs {p : α → α → Prop} [DecidableRel p] {x y : α} :
    (x, y) ∈ pairs items p ↔ (x ∈ items ∧ y ∈ items) ∧ p x y := by
  rw [pairs, Finset.mem_filter, Finset.mem_product]

theorem pairs_congr {p q : α → α → Prop} [DecidableRel p] [DecidableRel q]
    (h : ∀ x ∈ items, ∀ y ∈ items, p x y ↔ q x y) : pairs items p = pairs items q := by
  ext ⟨x, y⟩
  rw [mem_pairs, mem_pairs]
  exact and_congr_right fun hmem => h x hmem.1 y hmem.2

def concordant (items : Finset α) (r s : α → ℕ) : ℕ :=
  (pairs items fun x y => r x < r y ∧ s x < s y).card

def discordant (items : Finset α) (r s : α → ℕ) : ℕ :=
  (pairs items fun x y => r x < r y ∧ s y < s x).card

theorem concordant_comm (items : Finset α) (r s : α → ℕ) :
    concordant items r s = concordant items s r := by
  simp only [concordant, and_comm]

theorem concordant_congr (r : α → ℕ) {s' : α → ℕ} (h : ∀ x ∈ items, s x = s' x) :
    concordant items r s = concordant items r s' :=
  congrArg Finset.card (pairs_congr fun x hx y hy => by rw [h x hx, h y hy])

theorem discordant_congr (r : α → ℕ) {s' : α → ℕ} (h : ∀ x ∈ items, s x = s' x) :
    discordant items r s = discordant items r s' :=
  congrArg Finset.card (pairs_congr fun x hx y hy => by rw [h x hx, h y hy])

/-- A discordant pair read the other way round. -/
theorem discordant_comm (items : Finset α) (r s : α → ℕ) :
    discordant items r s = discordant items s r := by
  apply Finset.card_bij fun pair _ => pair.swap
  · rintro ⟨x, y⟩ h
    obtain ⟨⟨hx, hy⟩, hr, hs⟩ := mem_pairs.mp h
    exact mem_pairs.mpr ⟨⟨hy, hx⟩, hs, hr⟩
  · intro pair _ pair' _ heq
    exact Prod.swap_injective heq
  · rintro ⟨x, y⟩ h
    obtain ⟨⟨hx, hy⟩, hs, hr⟩ := mem_pairs.mp h
    exact ⟨(y, x), mem_pairs.mpr ⟨⟨hy, hx⟩, hr, hs⟩, rfl⟩

theorem reverse_lt_reverse (hs : IsRanking items s) {y : α} (hx : x ∈ items) (hy : y ∈ items) :
    reverse items s x < reverse items s y ↔ s y < s x := by
  have hxlt := hs.lt x hx
  have hylt := hs.lt y hy
  unfold reverse
  omega

theorem concordant_reverse (r : α → ℕ) (hs : IsRanking items s) :
    concordant items r (reverse items s) = discordant items r s :=
  congrArg Finset.card (pairs_congr fun _ hx _ hy =>
    and_congr_right fun _ => reverse_lt_reverse hs hx hy)

theorem discordant_reverse (r : α → ℕ) (hs : IsRanking items s) :
    discordant items r (reverse items s) = concordant items r s :=
  congrArg Finset.card (pairs_congr fun _ hx _ hy =>
    and_congr_right fun _ => reverse_lt_reverse hs hy hx)

/-- Every pair of two items is in one of the two orders. -/
theorem concordant_add_discordant [DecidableEq α] (hr : IsRanking items r) (hs : IsRanking items s) :
    concordant items r s + discordant items r s = ∑ i ∈ Finset.range items.card, i := by
  have hdisjoint : Disjoint (pairs items fun x y => r x < r y ∧ s x < s y)
      (pairs items fun x y => r x < r y ∧ s y < s x) := by
    rw [Finset.disjoint_left]
    rintro ⟨x, y⟩ h h'
    exact lt_asymm (mem_pairs.mp h).2.2 (mem_pairs.mp h').2.2
  have hunion : (pairs items fun x y => r x < r y ∧ s x < s y) ∪
      (pairs items fun x y => r x < r y ∧ s y < s x) = pairs items fun x y => r x < r y := by
    ext ⟨x, y⟩
    rw [Finset.mem_union, mem_pairs, mem_pairs, mem_pairs]
    constructor
    · rintro (⟨hmem, hlt, -⟩ | ⟨hmem, hlt, -⟩)
      · exact ⟨hmem, hlt⟩
      · exact ⟨hmem, hlt⟩
    · rintro ⟨hmem, hlt⟩
      have hne : s x ≠ s y := fun heq => hlt.ne (congrArg r (hs.injOn hmem.1 hmem.2 heq))
      rcases lt_or_gt_of_ne hne with hsame | hopposite
      · exact .inl ⟨hmem, hlt, hsame⟩
      · exact .inr ⟨hmem, hlt, hopposite⟩
  have hfiber : (pairs items fun x y => r x < r y).card = ∑ y ∈ items, r y := by
    rw [Finset.card_eq_sum_card_fiberwise (f := Prod.snd) (t := items)
      fun pair hpair => (mem_pairs.mp hpair).1.2]
    refine Finset.sum_congr rfl fun y hy => ?_
    rw [← hr.card_before hy]
    apply Finset.card_bij fun pair _ => pair.1
    · rintro ⟨x, z⟩ h
      obtain ⟨hpair, rfl⟩ := Finset.mem_filter.mp h
      obtain ⟨hmem, hlt⟩ := mem_pairs.mp hpair
      exact Finset.mem_filter.mpr ⟨hmem.1, hlt⟩
    · rintro ⟨x, z⟩ h ⟨x', z'⟩ h' heq
      obtain ⟨-, rfl⟩ := Finset.mem_filter.mp h
      obtain ⟨-, rfl⟩ := Finset.mem_filter.mp h'
      exact Prod.ext heq rfl
    · intro x hx
      obtain ⟨hmem, hlt⟩ := Finset.mem_filter.mp hx
      exact ⟨(x, y), Finset.mem_filter.mpr ⟨mem_pairs.mpr ⟨⟨hmem, hy⟩, hlt⟩, rfl⟩, rfl⟩
  rw [concordant, discordant, ← Finset.card_union_of_disjoint hdisjoint, hunion, hfiber,
    ← hr.image_eq, Finset.sum_image hr.injOn]

/-- No pair is ordered differently exactly when the rankings agree. -/
theorem discordant_eq_zero [DecidableEq α] (hr : IsRanking items r) (hs : IsRanking items s) :
    discordant items r s = 0 ↔ ∀ x ∈ items, r x = s x := by
  rw [discordant, Finset.card_eq_zero, Finset.eq_empty_iff_forall_notMem]
  constructor
  · intro hnone x hx
    rw [← hr.card_before hx, ← hs.card_before hx]
    congr 1
    apply Finset.filter_congr
    intro y hy
    constructor
    · intro hlt
      by_contra hge
      have hne : s x ≠ s y := fun heq => hlt.ne (congrArg r (hs.injOn hx hy heq).symm)
      exact hnone (y, x) (mem_pairs.mpr ⟨⟨hy, hx⟩, hlt, lt_of_le_of_ne (Nat.le_of_not_lt hge) hne⟩)
    · intro hlt
      by_contra hge
      have hne : r x ≠ r y := fun heq => hlt.ne (congrArg s (hr.injOn hx hy heq).symm)
      exact hnone (x, y) (mem_pairs.mpr ⟨⟨hx, hy⟩, lt_of_le_of_ne (Nat.le_of_not_lt hge) hne, hlt⟩)
  · rintro hsame ⟨x, y⟩ h
    obtain ⟨⟨hx, hy⟩, hlt, hgt⟩ := mem_pairs.mp h
    rw [← hsame x hx, ← hsame y hy] at hgt
    exact lt_asymm hlt hgt

/-! ### The coefficient -/

/-- The difference of agreement and disagreement over their sum. -/
def coefficient (agreement disagreement : ℚ) : ℚ :=
  (agreement - disagreement) / (agreement + disagreement)

section Coefficient

variable {agreement disagreement : ℚ}

theorem coefficient_swap (agreement disagreement : ℚ) :
    coefficient disagreement agreement = -coefficient agreement disagreement := by
  rw [coefficient, coefficient, add_comm disagreement, ← neg_sub, neg_div]

theorem coefficient_le_one (ha : 0 ≤ agreement) (hd : 0 ≤ disagreement) :
    coefficient agreement disagreement ≤ 1 := by
  rw [coefficient]
  exact div_le_one_of_le₀ (by linarith) (by linarith)

theorem coefficient_eq_one (hsum : agreement + disagreement ≠ 0) :
    coefficient agreement disagreement = 1 ↔ disagreement = 0 := by
  rw [coefficient, div_eq_one_iff_eq hsum]
  constructor
  · intro h
    linarith
  · intro h
    rw [h]
    ring

theorem neg_one_le_coefficient (ha : 0 ≤ agreement) (hd : 0 ≤ disagreement) :
    -1 ≤ coefficient agreement disagreement := by
  have hle := coefficient_le_one hd ha
  rw [coefficient_swap] at hle
  linarith

theorem coefficient_eq_neg_one (hsum : agreement + disagreement ≠ 0) :
    coefficient agreement disagreement = -1 ↔ agreement = 0 := by
  have hswap : coefficient disagreement agreement = 1 ↔ agreement = 0 :=
    coefficient_eq_one (by rwa [add_comm])
  rw [← hswap, coefficient_swap agreement, neg_eq_iff_eq_neg]

end Coefficient

end RerankerService.RankCorrelation
