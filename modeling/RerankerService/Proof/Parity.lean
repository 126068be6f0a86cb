import Mathlib.Algebra.BigOperators.Group.Finset.Basic
import Mathlib.Data.List.Nodup
import RerankerService.Foundation.Outcome
import RerankerService.Foundation.RankCorrelation
import RerankerService.Parity

/-!
# Rank parity is a rank correlation

The loops of `ranking_parity` run over lists; the lists that it accepts are two rankings of one set
of ids, and its counts and sums are those of the rank correlation of these rankings.
-/

namespace RerankerService.Parity

open RankCorrelation (IsRanking coefficient)

variable {α : Type} [DecidableEq α] {baseline candidate ranking : List α} {id : α}

/-- Two orderings of the same ids without duplicates. -/
structure SameIds (baseline candidate : List α) : Prop where
  baseline_nodup : baseline.Nodup
  candidate_nodup : candidate.Nodup
  same : ∀ id, id ∈ baseline ↔ id ∈ candidate

theorem nodup_of_card (h : ranking.toFinset.card = ranking.length) : ranking.Nodup :=
  Multiset.toFinset_card_eq_card_iff_nodup.mp h

namespace SameIds

theorem toFinset_eq (h : SameIds baseline candidate) : baseline.toFinset = candidate.toFinset := by
  ext id
  rw [List.mem_toFinset, List.mem_toFinset, h.same]

theorem length_eq (h : SameIds baseline candidate) : baseline.length = candidate.length := by
  rw [← List.toFinset_card_of_nodup h.baseline_nodup, h.toFinset_eq,
    List.toFinset_card_of_nodup h.candidate_nodup]

omit [DecidableEq α] in
theorem symm (h : SameIds baseline candidate) : SameIds candidate baseline where
  baseline_nodup := h.candidate_nodup
  candidate_nodup := h.baseline_nodup
  same id := (h.same id).symm

omit [DecidableEq α] in
theorem reverse (h : SameIds baseline candidate) : SameIds baseline candidate.reverse where
  baseline_nodup := h.baseline_nodup
  candidate_nodup := List.nodup_reverse.mpr h.candidate_nodup
  same id := by rw [List.mem_reverse, h.same]

end SameIds

/-- **The two checks accept exactly the orderings of the same ids.** -/
theorem sameIds_iff : SameIds baseline candidate ↔
    ¬(baseline.length ≠ candidate.length ∨ baseline.toFinset ≠ candidate.toFinset) ∧
      ¬baseline.toFinset.card ≠ baseline.length := by
  rw [not_or, not_not, not_not, not_not]
  constructor
  · intro h
    exact ⟨⟨h.length_eq, h.toFinset_eq⟩, List.toFinset_card_of_nodup h.baseline_nodup⟩
  · rintro ⟨⟨hlength, hids⟩, hcard⟩
    refine ⟨nodup_of_card hcard, nodup_of_card ?_, fun id => ?_⟩
    · rw [← hids, hcard, hlength]
    · rw [← List.mem_toFinset, hids, List.mem_toFinset]

/-! ### Ranks -/

theorem getElem?_rank (hid : id ∈ ranking) : ranking[rank ranking id]? = some id := by
  have hlt : ranking.reverse.idxOf id < ranking.reverse.length :=
    List.idxOf_lt_length_of_mem (List.mem_reverse.mpr hid)
  have hget : ranking.reverse[ranking.reverse.idxOf id]? = some id := by
    rw [List.getElem?_eq_getElem hlt, List.getElem_idxOf]
  rw [List.length_reverse] at hlt
  rwa [List.getElem?_reverse hlt] at hget

theorem rank_lt (hid : id ∈ ranking) : rank ranking id < ranking.length :=
  (List.getElem?_eq_some_iff.mp (getElem?_rank hid)).1

/-- In a ranking without duplicates an id has one place. -/
theorem rank_eq {i : Nat} (hnodup : ranking.Nodup) (hi : ranking[i]? = some id) :
    rank ranking id = i := by
  obtain ⟨hlt, hget⟩ := List.getElem?_eq_some_iff.mp hi
  have hrank := getElem?_rank (List.mem_of_getElem? hi)
  obtain ⟨hrlt, hrget⟩ := List.getElem?_eq_some_iff.mp hrank
  exact (hnodup.getElem_inj_iff).mp (hrget.trans hget.symm)

theorem isRanking (hnodup : ranking.Nodup) : IsRanking ranking.toFinset (rank ranking) where
  injOn id hid id' hid' heq := by
    have hrank := getElem?_rank (List.mem_toFinset.mp hid)
    have hrank' := getElem?_rank (List.mem_toFinset.mp hid')
    rw [heq, hrank'] at hrank
    exact (Option.some.inj hrank).symm
  lt id hid := by
    rw [List.toFinset_card_of_nodup hnodup]
    exact rank_lt (List.mem_toFinset.mp hid)

/-- The reversed list ranks from the end. -/
theorem rank_reverse (hnodup : ranking.Nodup) (hid : id ∈ ranking) :
    rank ranking.reverse id = RankCorrelation.reverse ranking.toFinset (rank ranking) id := by
  have hlt := rank_lt hid
  have hcard := List.toFinset_card_of_nodup hnodup
  apply rank_eq (List.nodup_reverse.mpr hnodup)
  rw [RankCorrelation.reverse, hcard, List.getElem?_reverse (by omega)]
  have hplace : ranking.length - 1 - (ranking.length - 1 - rank ranking id) = rank ranking id := by
    omega
  rw [hplace]
  exact getElem?_rank hid

/-- Rankings of the same ids are equal when all ranks are. -/
theorem eq_iff_rank (h : SameIds baseline candidate) :
    candidate = baseline ↔ ∀ id ∈ baseline.toFinset, rank baseline id = rank candidate id := by
  constructor
  · rintro rfl id _
    rfl
  · intro hranks
    apply List.ext_getElem?
    intro i
    by_cases hi : i < baseline.length
    · have hget := List.getElem?_eq_getElem hi
      have hmem : baseline[i] ∈ baseline := List.getElem_mem hi
      have hrank := hranks baseline[i] (List.mem_toFinset.mpr hmem)
      rw [rank_eq h.baseline_nodup hget] at hrank
      have hcandidate := getElem?_rank ((h.same _).mp hmem)
      rw [← hrank] at hcandidate
      exact hcandidate.trans hget.symm
    · have hbaseline := Nat.le_of_not_lt hi
      have hcandidate := hbaseline
      rw [h.length_eq] at hcandidate
      rw [List.getElem?_eq_none hbaseline, List.getElem?_eq_none hcandidate]

/-! ### The loops -/

theorem squaredDifference_eq (h : baseline.Nodup) :
    squaredDifference baseline candidate =
      RankCorrelation.squaredDifference baseline.toFinset (rank baseline) (rank candidate) :=
  (List.sum_toFinset _ h).symm

omit [DecidableEq α] in
theorem mem_orderedPairs {other : α} : (id, other) ∈ orderedPairs ranking ↔
    ∃ i j : Nat, i < j ∧ ranking[i]? = some id ∧ ranking[j]? = some other := by
  induction ranking with
  | nil => simp [orderedPairs]
  | cons first rest ih =>
      rw [orderedPairs, List.mem_append, ih, List.mem_map]
      constructor
      · rintro (⟨later, hlater, heq⟩ | ⟨i, j, hij, hi, hj⟩)
        · obtain ⟨rfl, rfl⟩ := Prod.mk.inj heq
          obtain ⟨j, hj⟩ := List.mem_iff_getElem?.mp hlater
          exact ⟨0, j + 1, Nat.succ_pos j, rfl, hj⟩
        · exact ⟨i + 1, j + 1, Nat.succ_lt_succ hij, hi, hj⟩
      · rintro ⟨i, j, hij, hi, hj⟩
        cases j with
        | zero => exact absurd hij (Nat.not_lt_zero i)
        | succ j =>
            cases i with
            | zero =>
                obtain rfl := Option.some.inj hi
                exact .inl ⟨other, List.mem_of_getElem? hj, rfl⟩
            | succ i => exact .inr ⟨i, j, Nat.lt_of_succ_lt_succ hij, hi, hj⟩

omit [DecidableEq α] in
theorem nodup_orderedPairs (h : ranking.Nodup) : (orderedPairs ranking).Nodup := by
  induction ranking with
  | nil => exact List.nodup_nil
  | cons first rest ih =>
      obtain ⟨hfirst, hrest⟩ := List.nodup_cons.mp h
      rw [orderedPairs, List.nodup_append]
      refine ⟨hrest.map (Prod.mk_right_injective first), ih hrest, ?_⟩
      rintro _ hhead ⟨id, other⟩ htail rfl
      obtain ⟨later, -, heq⟩ := List.mem_map.mp hhead
      obtain ⟨i, j, -, hi, -⟩ := mem_orderedPairs.mp htail
      obtain ⟨rfl, -⟩ := Prod.mk.inj heq
      exact hfirst (List.mem_of_getElem? hi)

/-- The two loops visit the pairs that the baseline orders. -/
theorem mem_orderedPairs_iff_rank (h : ranking.Nodup) {other : α} :
    (id, other) ∈ orderedPairs ranking ↔
      (id ∈ ranking.toFinset ∧ other ∈ ranking.toFinset) ∧ rank ranking id < rank ranking other := by
  rw [mem_orderedPairs, List.mem_toFinset, List.mem_toFinset]
  constructor
  · rintro ⟨i, j, hij, hi, hj⟩
    refine ⟨⟨List.mem_of_getElem? hi, List.mem_of_getElem? hj⟩, ?_⟩
    rwa [rank_eq h hi, rank_eq h hj]
  · rintro ⟨⟨hid, hother⟩, hlt⟩
    exact ⟨_, _, hlt, getElem?_rank hid, getElem?_rank hother⟩

theorem concordant_eq (h : SameIds baseline candidate) :
    concordant baseline candidate =
      RankCorrelation.concordant baseline.toFinset (rank baseline) (rank candidate) := by
  rw [concordant, ← (nodup_orderedPairs h.baseline_nodup).card_eq_countP,
    RankCorrelation.concordant]
  congr 1
  ext ⟨id, other⟩
  rw [Finset.mem_filter, List.mem_toFinset, mem_orderedPairs_iff_rank h.baseline_nodup,
    RankCorrelation.mem_pairs, and_assoc]

theorem discordant_eq (h : SameIds baseline candidate) :
    discordant baseline candidate =
      RankCorrelation.discordant baseline.toFinset (rank baseline) (rank candidate) := by
  rw [discordant, ← (nodup_orderedPairs h.baseline_nodup).card_eq_countP,
    RankCorrelation.discordant]
  congr 1
  ext ⟨id, other⟩
  rw [Finset.mem_filter, List.mem_toFinset, mem_orderedPairs_iff_rank h.baseline_nodup,
    RankCorrelation.mem_pairs, and_assoc]
  refine and_congr_right fun hmem => and_congr_right fun hlt => ?_
  have hinjective := (isRanking h.candidate_nodup).injOn
  rw [← h.toFinset_eq] at hinjective
  have hne : rank candidate id ≠ rank candidate other := fun heq =>
    hlt.ne (congrArg (rank baseline) (hinjective hmem.1 hmem.2 heq))
  rw [not_lt]
  exact ⟨fun hle => lt_of_le_of_ne hle hne.symm, le_of_lt⟩

/-! ### The coefficients -/

theorem eq_reverse_iff_rank (h : SameIds baseline candidate) :
    candidate = baseline.reverse ↔ ∀ id ∈ baseline.toFinset,
      rank baseline id = RankCorrelation.reverse baseline.toFinset (rank candidate) id := by
  rw [← List.reverse_eq_iff, eq_iff_rank h.reverse]
  refine forall₂_congr fun id hid => ?_
  rw [h.toFinset_eq, rank_reverse h.candidate_nodup]
  rwa [← List.mem_toFinset, ← h.toFinset_eq]

theorem isRanking_candidate (h : SameIds baseline candidate) :
    IsRanking baseline.toFinset (rank candidate) := by
  rw [h.toFinset_eq]
  exact isRanking h.candidate_nodup

/-- The squared displacements from the reversed candidate: how much the rankings agree. -/
def squaredAgreement (baseline candidate : List α) : Int :=
  RankCorrelation.squaredDifference baseline.toFinset (rank baseline)
    (RankCorrelation.reverse baseline.toFinset (rank candidate))

theorem squaredAgreement_add (h : SameIds baseline candidate) :
    3 * (squaredAgreement baseline candidate + squaredDifference baseline candidate) =
      baseline.length * ((baseline.length : Int) ^ 2 - 1) := by
  have hsum := RankCorrelation.squaredDifference_add_reverse (isRanking h.baseline_nodup)
    (isRanking_candidate h)
  rw [List.toFinset_card_of_nodup h.baseline_nodup, ← squaredDifference_eq h.baseline_nodup] at hsum
  rw [squaredAgreement, add_comm]
  exact hsum

theorem squaredAgreement_pos (h : SameIds baseline candidate) (htwo : 2 ≤ baseline.length) :
    (0 : Rat) < squaredAgreement baseline candidate + squaredDifference baseline candidate := by
  have hsum := squaredAgreement_add h
  have hcount : (2 : Int) ≤ baseline.length := by exact_mod_cast htwo
  have hpos : 0 < squaredAgreement baseline candidate + squaredDifference baseline candidate := by
    nlinarith
  exact_mod_cast hpos

theorem spearman_eq (h : SameIds baseline candidate) (htwo : 2 ≤ baseline.length) :
    spearman baseline candidate = .ok (coefficient (squaredAgreement baseline candidate)
      (squaredDifference baseline candidate)) := by
  have hpos := squaredAgreement_pos h htwo
  have hsum : 3 * ((squaredAgreement baseline candidate : Rat) +
      squaredDifference baseline candidate) = baseline.length * ((baseline.length : Rat) ^ 2 - 1) := by
    exact_mod_cast squaredAgreement_add h
  have hcount : ¬baseline.length < 2 := Nat.not_lt.mpr htwo
  have hne : (baseline.length : Rat) * ((baseline.length : Rat) ^ 2 - 1) ≠ 0 := by
    rw [← hsum]
    positivity
  simp only [spearman, if_neg hcount, divide, if_neg hne, Except.map]
  congr 1
  rw [← hsum, coefficient]
  field_simp
  ring

theorem kendall_pos (h : SameIds baseline candidate) (htwo : 2 ≤ baseline.length) :
    (0 : Rat) < concordant baseline candidate + discordant baseline candidate := by
  have hsum := RankCorrelation.concordant_add_discordant (isRanking h.baseline_nodup)
    (isRanking_candidate h)
  rw [← concordant_eq h, ← discordant_eq h, List.toFinset_card_of_nodup h.baseline_nodup] at hsum
  have hone : 1 ≤ ∑ i ∈ Finset.range baseline.length, i :=
    Finset.single_le_sum (f := fun i => i) (fun _ _ => Nat.zero_le _) (Finset.mem_range.mpr htwo)
  rw [← hsum] at hone
  exact_mod_cast hone

theorem kendall_eq (h : SameIds baseline candidate) (htwo : 2 ≤ baseline.length) :
    kendall baseline candidate = .ok (coefficient (concordant baseline candidate)
      (discordant baseline candidate)) := by
  rw [kendall, if_neg (Nat.not_lt.mpr htwo), divide, if_neg (kendall_pos h htwo).ne']
  rfl

/-- A correlation of two rankings: its range and its extremes. -/
structure IsCorrelation (baseline candidate : List α) (value : Rat) : Prop where
  lower : -1 ≤ value
  upper : value ≤ 1
  eq_one : value = 1 ↔ candidate = baseline
  eq_neg_one : value = -1 ↔ candidate = baseline.reverse

omit [DecidableEq α] in
theorem isCorrelation_coefficient {agreement disagreement : Rat} (ha : 0 ≤ agreement)
    (hd : 0 ≤ disagreement) (hsum : 0 < agreement + disagreement)
    (hsame : disagreement = 0 ↔ candidate = baseline)
    (hreverse : agreement = 0 ↔ candidate = baseline.reverse) :
    IsCorrelation baseline candidate (coefficient agreement disagreement) where
  lower := RankCorrelation.neg_one_le_coefficient ha hd
  upper := RankCorrelation.coefficient_le_one ha hd
  eq_one := (RankCorrelation.coefficient_eq_one hsum.ne').trans hsame
  eq_neg_one := (RankCorrelation.coefficient_eq_neg_one hsum.ne').trans hreverse

theorem isCorrelation_spearman (h : SameIds baseline candidate) (htwo : 2 ≤ baseline.length) :
    IsCorrelation baseline candidate (coefficient (squaredAgreement baseline candidate)
      (squaredDifference baseline candidate)) := by
  apply isCorrelation_coefficient
  · exact_mod_cast RankCorrelation.squaredDifference_nonneg _ _ _
  · rw [squaredDifference_eq h.baseline_nodup]
    exact_mod_cast RankCorrelation.squaredDifference_nonneg _ _ _
  · exact squaredAgreement_pos h htwo
  · rw [eq_iff_rank h, ← RankCorrelation.squaredDifference_eq_zero,
      ← squaredDifference_eq h.baseline_nodup, Int.cast_eq_zero]
  · rw [eq_reverse_iff_rank h, ← RankCorrelation.squaredDifference_eq_zero, Int.cast_eq_zero]
    rfl

theorem isCorrelation_kendall (h : SameIds baseline candidate) (htwo : 2 ≤ baseline.length) :
    IsCorrelation baseline candidate (coefficient (concordant baseline candidate)
      (discordant baseline candidate)) := by
  have hbaseline := isRanking h.baseline_nodup
  have hcandidate := isRanking_candidate h
  apply isCorrelation_coefficient
  · exact Nat.cast_nonneg _
  · exact Nat.cast_nonneg _
  · exact kendall_pos h htwo
  · rw [eq_iff_rank h, ← RankCorrelation.discordant_eq_zero hbaseline hcandidate,
      ← discordant_eq h, Nat.cast_eq_zero]
  · rw [eq_reverse_iff_rank h, ← RankCorrelation.discordant_eq_zero hbaseline hcandidate.reverse,
      RankCorrelation.discordant_reverse _ hcandidate, ← concordant_eq h, Nat.cast_eq_zero]

/-! ### Overlaps of the leading ids -/

omit [DecidableEq α] in
theorem length_leading {top : Int} (hnonneg : 0 ≤ top) (hle : top ≤ ranking.length) :
    ((leading ranking top).length : Int) = top := by
  rw [leading, if_pos hnonneg, List.length_take]
  omega

theorem overlap_mem_unit (baseline candidate : List α) {k : Int} (hk : 0 ≤ k) :
    0 ≤ overlap baseline candidate k ∧ overlap baseline candidate k ≤ 1 := by
  set top := min k (baseline.length : Int) with htop
  by_cases hzero : top = 0
  · rw [overlap, if_pos hzero]
    exact ⟨zero_le_one, le_rfl⟩
  · have hnonneg : 0 ≤ top := le_min hk (Int.natCast_nonneg _)
    have hlength := length_leading hnonneg (min_le_right k (baseline.length : Int))
    have hinter : ((leading baseline top).toFinset ∩ (leading candidate top).toFinset).card
        ≤ (leading baseline top).length :=
      (Finset.card_le_card Finset.inter_subset_left).trans (List.toFinset_card_le _)
    have hcard : (((leading baseline top).toFinset ∩ (leading candidate top).toFinset).card : Int)
        ≤ top := by omega
    have hpos : (0 : Rat) < top := by exact_mod_cast lt_of_le_of_ne hnonneg (Ne.symm hzero)
    rw [overlap, if_neg hzero]
    refine ⟨div_nonneg (Nat.cast_nonneg _) hpos.le, div_le_one_of_le₀ ?_ hpos.le⟩
    exact_mod_cast hcard

theorem overlap_eq_one (h : SameIds baseline candidate) {k : Int}
    (hk : (baseline.length : Int) ≤ k) : overlap baseline candidate k = 1 := by
  have htop : min k (baseline.length : Int) = baseline.length := min_eq_right hk
  by_cases hzero : (baseline.length : Int) = 0
  · rw [overlap, htop, if_pos hzero]
  · have hbaseline : leading baseline baseline.length = baseline := by
      rw [leading, if_pos (Int.natCast_nonneg _), Int.toNat_natCast, List.take_length]
    have hcandidate : leading candidate baseline.length = candidate := by
      rw [leading, if_pos (Int.natCast_nonneg _), Int.toNat_natCast, h.length_eq, List.take_length]
    rw [overlap, htop, if_neg hzero, hbaseline, hcandidate, ← h.toFinset_eq, Finset.inter_self,
      List.toFinset_card_of_nodup h.baseline_nodup]
    exact div_self (by exact_mod_cast hzero)

/-! ### The function -/

variable {topValues : List Int} {parity : RankingParity}

theorem rankingParity_eq_ok : rankingParity baseline candidate topValues = .ok parity ↔
    SameIds baseline candidate ∧ spearman baseline candidate = .ok parity.spearman ∧
      kendall baseline candidate = .ok parity.kendallTau ∧
      parity.topOneAgreement = topOneAgreement baseline candidate ∧
      parity.overlaps = topValues.map fun top => (top, overlap baseline candidate top) := by
  rw [sameIds_iff]
  unfold rankingParity
  split
  · rename_i hdiffer
    constructor
    · intro h
      cases h
    · rintro ⟨⟨hsame, -⟩, -⟩
      exact absurd hdiffer hsame
  split
  · rename_i hrepeated
    constructor
    · intro h
      cases h
    · rintro ⟨⟨-, hdistinct⟩, -⟩
      exact absurd hrepeated hdistinct
  · rename_i hsame hdistinct
    constructor
    · intro h
      obtain ⟨rho, hrho, h⟩ := Outcome.bind_eq_ok.mp h
      obtain ⟨tau, htau, h⟩ := Outcome.bind_eq_ok.mp h
      obtain rfl := Except.ok.inj h
      exact ⟨⟨hsame, hdistinct⟩, hrho, htau, rfl, rfl⟩
    · rintro ⟨-, hrho, htau, htop, hoverlaps⟩
      refine Outcome.bind_eq_ok.mpr ⟨_, hrho, Outcome.bind_eq_ok.mpr ⟨_, htau, ?_⟩⟩
      rw [← htop, ← hoverlaps]
      rfl

theorem exists_spearman (h : SameIds baseline candidate) :
    ∃ value, spearman baseline candidate = .ok value ∧
      (2 ≤ baseline.length → IsCorrelation baseline candidate value) := by
  by_cases htwo : 2 ≤ baseline.length
  · exact ⟨_, spearman_eq h htwo, fun _ => isCorrelation_spearman h htwo⟩
  · exact ⟨1, if_pos (Nat.lt_of_not_le htwo), fun hcount => absurd hcount htwo⟩

theorem exists_kendall (h : SameIds baseline candidate) :
    ∃ value, kendall baseline candidate = .ok value ∧
      (2 ≤ baseline.length → IsCorrelation baseline candidate value) := by
  by_cases htwo : 2 ≤ baseline.length
  · exact ⟨_, kendall_eq h htwo, fun _ => isCorrelation_kendall h htwo⟩
  · exact ⟨1, if_pos (Nat.lt_of_not_le htwo), fun hcount => absurd hcount htwo⟩

theorem exists_rankingParity (h : SameIds baseline candidate) (topValues : List Int) :
    ∃ parity, rankingParity baseline candidate topValues = .ok parity := by
  obtain ⟨rho, hrho, -⟩ := exists_spearman h
  obtain ⟨tau, htau, -⟩ := exists_kendall h
  exact ⟨⟨rho, tau, _, _⟩, rankingParity_eq_ok.mpr ⟨h, hrho, htau, rfl, rfl⟩⟩

/-- **Rank parity has the right range and extremes.** -/
theorem rankingParity_range (baseline candidate : List α) (topValues : List Int) :
    ((∃ parity, rankingParity baseline candidate topValues = .ok parity) ↔
      SameIds baseline candidate) ∧
    ∀ parity, rankingParity baseline candidate topValues = .ok parity →
      (2 ≤ baseline.length → IsCorrelation baseline candidate parity.spearman ∧
        IsCorrelation baseline candidate parity.kendallTau) ∧
      parity.overlaps.map Prod.fst = topValues ∧
      ∀ k value, (k, value) ∈ parity.overlaps → 0 ≤ k →
        0 ≤ value ∧ value ≤ 1 ∧ ((baseline.length : Int) ≤ k → value = 1) := by
  refine ⟨⟨?_, fun h => exists_rankingParity h topValues⟩, ?_⟩
  · rintro ⟨parity, h⟩
    exact (rankingParity_eq_ok.mp h).1
  · intro parity hparity
    obtain ⟨h, hspearman, hkendall, -, hoverlaps⟩ := rankingParity_eq_ok.mp hparity
    obtain ⟨rho, hrho, hrange⟩ := exists_spearman h
    obtain ⟨tau, htau, hrange'⟩ := exists_kendall h
    obtain rfl := Except.ok.inj (hrho.symm.trans hspearman)
    obtain rfl := Except.ok.inj (htau.symm.trans hkendall)
    refine ⟨fun htwo => ⟨hrange htwo, hrange' htwo⟩, ?_, fun k value hmem hk => ?_⟩
    · rw [hoverlaps, List.map_map]
      exact List.map_id _
    · rw [hoverlaps] at hmem
      obtain ⟨top, -, heq⟩ := List.mem_map.mp hmem
      obtain ⟨rfl, rfl⟩ := Prod.mk.inj heq
      obtain ⟨hlower, hupper⟩ := overlap_mem_unit baseline candidate hk
      exact ⟨hlower, hupper, overlap_eq_one h⟩

theorem rankingParity_range_reversed :
    ∃ parity, rankingParity [0, 1, 2] [2, 1, 0] [2, 5] = .ok parity ∧
      parity.spearman = -1 ∧ parity.kendallTau = -1 ∧ parity.overlaps.map Prod.fst = [2, 5] := by
  obtain ⟨haccepted, hrange⟩ := rankingParity_range [0, 1, 2] [2, 1, 0] [2, 5]
  obtain ⟨parity, hparity⟩ := haccepted.mpr ⟨by decide, by decide, fun id => by
    simp only [List.mem_cons, List.not_mem_nil]
    tauto⟩
  obtain ⟨hcorrelations, hoverlaps, -⟩ := hrange parity hparity
  obtain ⟨hspearman, hkendall⟩ := hcorrelations (by decide)
  exact ⟨parity, hparity, hspearman.eq_neg_one.mpr rfl, hkendall.eq_neg_one.mpr rfl, hoverlaps⟩

/-! ### Swapping, renaming and reversing -/

theorem squaredDifference_comm (h : SameIds baseline candidate) :
    squaredDifference candidate baseline = squaredDifference baseline candidate := by
  rw [squaredDifference_eq h.candidate_nodup, squaredDifference_eq h.baseline_nodup,
    ← h.toFinset_eq, RankCorrelation.squaredDifference_comm]

theorem spearman_comm (h : SameIds baseline candidate) :
    spearman candidate baseline = spearman baseline candidate := by
  rw [spearman, spearman, squaredDifference_comm h, h.length_eq]

theorem kendall_comm (h : SameIds baseline candidate) :
    kendall candidate baseline = kendall baseline candidate := by
  have hconcordant : concordant candidate baseline = concordant baseline candidate := by
    rw [concordant_eq h.symm, concordant_eq h, ← h.toFinset_eq, RankCorrelation.concordant_comm]
  have hdiscordant : discordant candidate baseline = discordant baseline candidate := by
    rw [discordant_eq h.symm, discordant_eq h, ← h.toFinset_eq, RankCorrelation.discordant_comm]
  rw [kendall, kendall, hconcordant, hdiscordant, h.length_eq]

theorem topOneAgreement_comm (h : SameIds baseline candidate) :
    topOneAgreement candidate baseline = topOneAgreement baseline candidate := by
  have hempty : candidate ≠ [] ↔ baseline ≠ [] := by
    rw [← List.length_pos_iff, ← List.length_pos_iff, h.length_eq]
  unfold topOneAgreement
  simp only [hempty, eq_comm]

theorem overlap_comm (h : SameIds baseline candidate) (top : Int) :
    overlap candidate baseline top = overlap baseline candidate top := by
  rw [overlap, overlap, h.length_eq, Finset.inter_comm]

section Renaming

variable {β : Type} {rename : α → β}

omit [DecidableEq α] in
theorem SameIds.map (hrename : Function.Injective rename) (h : SameIds baseline candidate) :
    SameIds (baseline.map rename) (candidate.map rename) where
  baseline_nodup := h.baseline_nodup.map hrename
  candidate_nodup := h.candidate_nodup.map hrename
  same id := by
    rw [List.mem_map, List.mem_map]
    exact exists_congr fun original => and_congr_left fun _ => h.same original

omit [DecidableEq α] in
theorem orderedPairs_map (rename : α → β) (ranking : List α) :
    orderedPairs (ranking.map rename) = (orderedPairs ranking).map (Prod.map rename rename) := by
  induction ranking with
  | nil => rfl
  | cons id rest ih =>
      rw [List.map_cons, orderedPairs, orderedPairs, ih, List.map_append, List.map_map,
        List.map_map]
      rfl

omit [DecidableEq α] in
theorem leading_map (rename : α → β) (ranking : List α) (top : Int) :
    leading (ranking.map rename) top = (leading ranking top).map rename := by
  rw [leading, leading, List.length_map, ← List.map_take, ← List.map_take]
  split <;> rfl

variable [DecidableEq β]

theorem rank_map (hrename : Function.Injective rename) (ranking : List α) (id : α) :
    rank (ranking.map rename) (rename id) = rank ranking id := by
  have hindex : (ranking.reverse.map rename).idxOf (rename id) = ranking.reverse.idxOf id := by
    rw [List.idxOf, List.findIdx_map, List.idxOf]
    congr 1
    funext other
    exact beq_eq_beq.mpr hrename.eq_iff
  rw [rank, rank, List.length_map, ← List.map_reverse, hindex]

theorem squaredDifference_map (hrename : Function.Injective rename) (baseline candidate : List α) :
    squaredDifference (baseline.map rename) (candidate.map rename) =
      squaredDifference baseline candidate := by
  rw [squaredDifference, squaredDifference, List.map_map]
  congr 1
  apply List.map_congr_left
  intro id _
  rw [Function.comp_apply, rank_map hrename, rank_map hrename]

theorem spearman_map (hrename : Function.Injective rename) (baseline candidate : List α) :
    spearman (baseline.map rename) (candidate.map rename) = spearman baseline candidate := by
  rw [spearman, spearman, squaredDifference_map hrename, List.length_map]

theorem kendall_map (hrename : Function.Injective rename) (baseline candidate : List α) :
    kendall (baseline.map rename) (candidate.map rename) = kendall baseline candidate := by
  have hconcordant : concordant (baseline.map rename) (candidate.map rename) =
      concordant baseline candidate := by
    rw [concordant, orderedPairs_map, List.countP_map, concordant]
    apply List.countP_congr
    intro ordered _
    simp only [Function.comp_apply, Prod.map_fst, Prod.map_snd, rank_map hrename]
  have hdiscordant : discordant (baseline.map rename) (candidate.map rename) =
      discordant baseline candidate := by
    rw [discordant, orderedPairs_map, List.countP_map, discordant]
    apply List.countP_congr
    intro ordered _
    simp only [Function.comp_apply, Prod.map_fst, Prod.map_snd, rank_map hrename]
  rw [kendall, kendall, hconcordant, hdiscordant, List.length_map]

theorem topOneAgreement_map (hrename : Function.Injective rename) (baseline candidate : List α) :
    topOneAgreement (baseline.map rename) (candidate.map rename) =
      topOneAgreement baseline candidate := by
  have hhead : (baseline.map rename).head? = (candidate.map rename).head? ↔
      baseline.head? = candidate.head? := by
    rw [List.head?_map, List.head?_map]
    exact (Option.map_injective hrename).eq_iff
  unfold topOneAgreement
  simp only [hhead, ne_eq, List.map_eq_nil_iff]

theorem overlap_map (hrename : Function.Injective rename) (baseline candidate : List α)
    (top : Int) :
    overlap (baseline.map rename) (candidate.map rename) top = overlap baseline candidate top := by
  have himage : ∀ ranking : List α, (ranking.map rename).toFinset = ranking.toFinset.image rename := by
    intro ranking
    ext id
    simp
  rw [overlap, overlap, List.length_map, leading_map, leading_map, himage, himage,
    ← Finset.image_inter _ _ hrename, Finset.card_image_of_injective _ hrename]

end Renaming

theorem rank_candidate_reverse (h : SameIds baseline candidate) : ∀ id ∈ baseline.toFinset,
    rank candidate.reverse id =
      RankCorrelation.reverse baseline.toFinset (rank candidate) id := by
  intro id hid
  rw [h.toFinset_eq] at hid ⊢
  exact rank_reverse h.candidate_nodup (List.mem_toFinset.mp hid)

theorem spearman_reverse (h : SameIds baseline candidate) (htwo : 2 ≤ baseline.length) {value : Rat}
    (hvalue : spearman baseline candidate = .ok value) :
    spearman baseline candidate.reverse = .ok (-value) := by
  have hranks := rank_candidate_reverse h
  have hdifference : squaredDifference baseline candidate.reverse =
      squaredAgreement baseline candidate := by
    rw [squaredDifference_eq h.baseline_nodup, squaredAgreement]
    exact RankCorrelation.squaredDifference_congr _ hranks
  have hagreement : squaredAgreement baseline candidate.reverse =
      squaredDifference baseline candidate := by
    rw [squaredDifference_eq h.baseline_nodup, squaredAgreement]
    apply RankCorrelation.squaredDifference_congr
    intro id hid
    rw [← (isRanking_candidate h).reverse_reverse hid, RankCorrelation.reverse, hranks id hid]
    rfl
  rw [spearman_eq h htwo] at hvalue
  rw [spearman_eq h.reverse htwo, hdifference, hagreement, RankCorrelation.coefficient_swap,
    Except.ok.inj hvalue]

theorem kendall_reverse (h : SameIds baseline candidate) (htwo : 2 ≤ baseline.length) {value : Rat}
    (hvalue : kendall baseline candidate = .ok value) :
    kendall baseline candidate.reverse = .ok (-value) := by
  have hranks := rank_candidate_reverse h
  have hcandidate := isRanking_candidate h
  have hconcordant : concordant baseline candidate.reverse = discordant baseline candidate := by
    rw [concordant_eq h.reverse, discordant_eq h, ← RankCorrelation.concordant_reverse _ hcandidate]
    exact RankCorrelation.concordant_congr _ hranks
  have hdiscordant : discordant baseline candidate.reverse = concordant baseline candidate := by
    rw [discordant_eq h.reverse, concordant_eq h, ← RankCorrelation.discordant_reverse _ hcandidate]
    exact RankCorrelation.discordant_congr _ hranks
  rw [kendall_eq h htwo] at hvalue
  rw [kendall_eq h.reverse htwo, hconcordant, hdiscordant, RankCorrelation.coefficient_swap,
    Except.ok.inj hvalue]

/-- **Rank parity is symmetric and label-free, and reversal changes the signs.** -/
theorem rankingParity_symmetric {topValues : List Int} {parity : RankingParity}
    (h : rankingParity baseline candidate topValues = .ok parity) :
    rankingParity candidate baseline topValues = .ok parity ∧
    (∀ {β : Type} [DecidableEq β] (rename : α → β), Function.Injective rename →
      rankingParity (baseline.map rename) (candidate.map rename) topValues = .ok parity) ∧
    (2 ≤ baseline.length → ∃ reversed,
      rankingParity baseline candidate.reverse topValues = .ok reversed ∧
      reversed.spearman = -parity.spearman ∧ reversed.kendallTau = -parity.kendallTau) := by
  obtain ⟨hids, hspearman, hkendall, htop, hoverlaps⟩ := rankingParity_eq_ok.mp h
  refine ⟨?_, ?_, ?_⟩
  · refine rankingParity_eq_ok.mpr ⟨hids.symm, ?_, ?_, ?_, ?_⟩
    · rw [spearman_comm hids, hspearman]
    · rw [kendall_comm hids, hkendall]
    · rw [topOneAgreement_comm hids, htop]
    · rw [hoverlaps]
      apply List.map_congr_left
      intro top _
      rw [overlap_comm hids]
  · intro β _ rename hrename
    refine rankingParity_eq_ok.mpr ⟨hids.map hrename, ?_, ?_, ?_, ?_⟩
    · rw [spearman_map hrename, hspearman]
    · rw [kendall_map hrename, hkendall]
    · rw [topOneAgreement_map hrename, htop]
    · rw [hoverlaps]
      apply List.map_congr_left
      intro top _
      rw [overlap_map hrename]
  · intro htwo
    exact ⟨⟨-parity.spearman, -parity.kendallTau, _, _⟩,
      rankingParity_eq_ok.mpr ⟨hids.reverse, spearman_reverse hids htwo hspearman,
        kendall_reverse hids htwo hkendall, rfl, rfl⟩, rfl, rfl⟩

theorem rankingParity_symmetric_swapped :
    ∃ parity, rankingParity [0, 2, 1] [0, 1, 2] = .ok parity ∧
      rankingParity [0, 1, 2] [0, 2, 1] = .ok parity ∧
      rankingParity [5, 7, 6] [5, 6, 7] = .ok parity ∧
      ∃ reversed, rankingParity [0, 2, 1] [2, 1, 0] = .ok reversed ∧
        reversed.spearman = -parity.spearman := by
  have hids : SameIds [0, 2, 1] [0, 1, 2] := ⟨by decide, by decide, fun id => by
    simp only [List.mem_cons, List.not_mem_nil]
    tauto⟩
  obtain ⟨parity, hparity⟩ := exists_rankingParity hids [1, 3, 10]
  obtain ⟨hswapped, hrenamed, hreversed⟩ := rankingParity_symmetric hparity
  obtain ⟨reversed, hresult, hspearman, -⟩ := hreversed (by decide)
  exact ⟨parity, hparity, hswapped, hrenamed (· + 5) (add_left_injective 5), reversed, hresult,
    hspearman⟩

end RerankerService.Parity
