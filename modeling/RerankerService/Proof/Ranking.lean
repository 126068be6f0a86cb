import Mathlib.Algebra.Order.Ring.Unbundled.Rat
import Mathlib.Order.WithBot
import RerankerService.Foundation.StableSort
import RerankerService.Proof.Answering
import RerankerService.Service.Course

/-!
# The ranking is a stable top-k

Each document keeps its own score through the four renumberings of the code: the places of the
misses, the positions in the predictor's answer, the sorted positions and the truncated list.
-/

namespace RerankerService

open List (Forall₂)

/-- The order of the floats that are not NaN. -/
def Value.extended : Value → WithBot (WithTop Rat)
  | .finite value => ((value : WithTop Rat) : WithBot (WithTop Rat))
  | .posInf => ⊤
  | .negInf | .nan => ⊥

theorem Value.finite_lt_top (value : Rat) :
    ((value : WithTop Rat) : WithBot (WithTop Rat)) < ⊤ :=
  WithBot.coe_lt_coe.mpr (WithTop.coe_lt_top value)

theorem Value.lt_iff {a b : Value} (ha : a ≠ .nan) (hb : b ≠ .nan) :
    Value.lt a b = true ↔ a.extended < b.extended := by
  cases a <;> cases b <;>
    simp [Value.lt, Value.extended, finite_lt_top] at *

theorem Value.eq_of_extended_eq {a b : Value} (ha : a ≠ .nan) (hb : b ≠ .nan)
    (h : a.extended = b.extended) : a = b := by
  cases a <;> cases b <;>
    simp [Value.extended, (finite_lt_top _).ne, (finite_lt_top _).ne', bot_ne_top, top_ne_bot] at *
  exact h

namespace RerankService

variable {scores cached : List (Option Score)} {inferred : List Score}
  {prepared : List PreparedDocument}

/-! ### Places of the missing scores -/

theorem length_filter_range {p : Nat → Bool} {n k i : Nat}
    (h : ((List.range n).filter p)[k]? = some i) : ((List.range i).filter p).length = k := by
  induction n with
  | zero => simp at h
  | succ n ih =>
      rw [List.range_succ, List.filter_append] at h
      by_cases hk : k < ((List.range n).filter p).length
      · rw [List.getElem?_append_left hk] at h
        exact ih h
      · rw [List.getElem?_append_right (not_lt.mp hk)] at h
        by_cases hn : p n = true
        · rw [List.filter_singleton, hn, cond_true] at h
          obtain ⟨hlt, rfl⟩ := List.getElem?_eq_some_iff.mp h
          rw [List.length_singleton] at hlt
          rw [List.getElem_singleton]
          omega
        · simp [hn] at h

theorem countP_take {i : Nat} (hi : i ≤ cached.length) :
    (cached.take i).countP Option.isNone =
      ((List.range i).filter fun j => (cached[j]?.join).isNone).length := by
  induction i with
  | zero => simp
  | succ i ih =>
      have hlt : i < cached.length := hi
      rw [List.take_succ_eq_append_getElem hlt, List.countP_append, ih hlt.le, List.range_succ,
        List.filter_append, List.length_append]
      cases hscore : cached[i] <;> simp [hscore, List.getElem?_eq_getElem hlt]

theorem forall₂_ownScore (hlength : inferred.length = (missing cached).length) :
    Forall₂ (fun i score => ownScore cached inferred i = some score) (missing cached) inferred := by
  refine List.forall₂_iff_get.mpr ⟨hlength.symm, fun k hk hk' => ?_⟩
  have hmissing : cached[(missing cached)[k]]? = some none :=
    mem_missing.mp (List.getElem_mem hk)
  have hlt := (List.getElem?_eq_some_iff.mp hmissing).1
  have hplace : (cached.take (missing cached)[k]).countP Option.isNone = k := by
    rw [countP_take hlt.le]
    exact length_filter_range (List.getElem?_eq_getElem hk)
  simp only [List.get_eq_getElem, ownScore, hmissing, Option.join_some, hplace]
  exact List.getElem?_eq_getElem hk'

/-- The placeholder is not used: after the merge every document has its own score. -/
theorem ownScore_eq (hlength : inferred.length = (missing cached).length) {i : Nat}
    (hi : i < cached.length) :
    ownScore cached inferred i = some (scoreAt (scatter cached (missing cached) inferred) i) := by
  have hlt : ∀ j ∈ missing cached, j < cached.length := fun j hj =>
    (List.getElem?_eq_some_iff.mp (mem_missing.mp hj)).1
  rcases getElem?_scatter (forall₂_ownScore hlength) hlt i with ⟨hnot, hkept⟩ | ⟨score, hscore, hown⟩
  · rw [List.getElem?_eq_getElem hi] at hkept
    cases hcached : cached[i] with
    | none => exact absurd (mem_missing.mpr (hcached ▸ List.getElem?_eq_getElem hi)) hnot
    | some score =>
        rw [hcached] at hkept
        simp [ownScore, scoreAt, hkept, List.getElem?_eq_getElem hi, hcached]
  · rw [hown]
    simp [scoreAt, hscore]

theorem mem_of_ownScore {i : Nat} {score : Score} (h : ownScore cached inferred i = some score) :
    some score ∈ cached ∨ score ∈ inferred := by
  unfold ownScore at h
  split at h
  · rename_i known hknown
    obtain rfl := Option.some.inj h
    exact .inl (List.mem_of_getElem? (Option.join_eq_some_iff.mp hknown))
  · exact .inr (List.mem_of_getElem? h)

theorem missingPairs_eq {call : RerankCall} (hlength : cached.length = call.prepared.length) :
    call.missingPairs (missing cached) = unscoredPairs call.query call.prepared cached := by
  have hprefix : ∀ n ≤ cached.length,
      (((List.range n).filter fun i => (cached[i]?.join).isNone).map fun i =>
        (call.query, call.textAt i)) =
      unscoredPairs call.query (call.prepared.take n) (cached.take n) := by
    intro n hn
    induction n with
    | zero => simp [unscoredPairs]
    | succ n ih =>
        have hcached : n < cached.length := hn
        have hprepared : n < call.prepared.length := hlength ▸ hcached
        have htext : call.textAt n = call.prepared[n].text := by
          simp [RerankCall.textAt, RerankCall.texts, hprepared]
        have hzip : (call.prepared.take (n + 1)).zip (cached.take (n + 1)) =
            (call.prepared.take n).zip (cached.take n) ++ [(call.prepared[n], cached[n])] := by
          rw [List.take_succ_eq_append_getElem hprepared, List.take_succ_eq_append_getElem hcached]
          exact List.zip_append (by simp [hprepared.le, hcached.le])
        rw [List.range_succ, List.filter_append, List.map_append, ih hcached.le]
        simp only [unscoredPairs, hzip, List.filterMap_append]
        cases hscore : cached[n] <;>
          simp [hscore, htext, List.getElem?_eq_getElem hcached]
  have hall := hprefix cached.length le_rfl
  rwa [List.take_length, hlength, List.take_length, ← hlength] at hall

/-! ### The sorted documents -/

theorem getElem_entries {i : Nat} (hlt : i < prepared.length)
    (hi : i < (prepared.mapIdx fun i document => (i, scoreAt scores i, document)).length) :
    (prepared.mapIdx fun i document => (i, scoreAt scores i, document))[i] =
      (i, scoreAt scores i, prepared[i]) :=
  List.getElem_mapIdx

theorem mem_ranked {entry : Nat × Score × PreparedDocument} (h : entry ∈ ranked scores prepared) :
    entry.2.1 = scoreAt scores entry.1 ∧ prepared[entry.1]? = some entry.2.2 := by
  obtain ⟨i, hi, heq⟩ := List.getElem_of_mem ((List.mem_insertionSort _).mp h)
  have hlt : i < prepared.length := by rwa [List.length_mapIdx] at hi
  rw [getElem_entries hlt] at heq
  rw [← heq]
  exact ⟨rfl, List.getElem?_eq_getElem hlt⟩

theorem map_fst_ranked_perm (scores : List (Option Score)) (prepared : List PreparedDocument) :
    ((ranked scores prepared).map Prod.fst).Perm (List.range prepared.length) := by
  have hfst : (prepared.mapIdx fun i document => (i, scoreAt scores i, document)).map Prod.fst =
      List.range prepared.length := by
    apply List.ext_getElem
    · simp
    · intro i hi hi'
      simp
  rw [← hfst]
  exact (List.perm_insertionSort _ _).map Prod.fst

theorem ranked_pairwise (hfree : ∀ i < prepared.length, (scoreAt scores i).value ≠ .nan) :
    (ranked scores prepared).Pairwise (StableSort.Descending
      (fun entry => entry.2.1.value.extended) fun a b => a.1 < b.1) := by
  have hfree' : ∀ entry ∈ prepared.mapIdx fun i document => (i, scoreAt scores i, document),
      entry.2.1.value ≠ .nan := by
    intro entry hentry
    obtain ⟨i, hi, rfl⟩ := List.getElem_of_mem hentry
    have hlt : i < prepared.length := by rwa [List.length_mapIdx] at hi
    rw [getElem_entries hlt]
    exact hfree i hlt
  apply StableSort.pairwise_insertionSort
  · intro a ha b hb
    rw [← not_lt, ← Value.lt_iff (hfree' a ha) (hfree' b hb), Bool.not_eq_true]
  · apply List.pairwise_iff_getElem.mpr
    intro i j hi hj hlt
    rw [List.length_mapIdx] at hi hj
    rw [getElem_entries hi, getElem_entries hj]
    exact hlt

theorem rankedResults_topRanked (settings : Settings) (normalizedBy : Option Source)
    {request : RerankRequest}
    (hprepared : prepared.map PreparedDocument.document = request.documents)
    (hcached : cached.length = prepared.length)
    (hinferred : inferred.length = (missing cached).length)
    (hfree : ∀ i score, ownScore cached inferred i = some score → score.value ≠ .nan) :
    TopRanked request cached inferred
      (min (request.topN.getD settings.defaultTopN) request.documents.length)
      (rankedResults settings request prepared normalizedBy (missing cached)
        (scatter cached (missing cached) inferred))
      ((ranked (scatter cached (missing cached) inferred) prepared).map Prod.fst) := by
  have hn : prepared.length = request.documents.length := by
    rw [← hprepared, List.length_map]
  have hown : ∀ i < prepared.length, ownScore cached inferred i =
      some (scoreAt (scatter cached (missing cached) inferred) i) := fun i hi =>
    ownScore_eq hinferred (hcached ▸ hi)
  have hmem : ∀ entry ∈ ranked (scatter cached (missing cached) inferred) prepared,
      ownScore cached inferred entry.1 = some entry.2.1 := by
    intro entry hentry
    obtain ⟨hscore, hdocument⟩ := mem_ranked hentry
    rw [hscore]
    exact hown entry.1 (List.getElem?_eq_some_iff.mp hdocument).1
  refine ⟨?_, ?_, ?_, fun position result hresult => ?_⟩
  · rw [← hn]
    exact map_fst_ranked_perm _ prepared
  · apply List.pairwise_map.mpr
    apply (ranked_pairwise fun i hi => hfree i _ (hown i hi)).imp_of_mem
    intro a b ha hb hab
    refine ⟨a.2.1, b.2.1, hmem a ha, hmem b hb, ?_⟩
    have hfreea := hfree a.1 a.2.1 (hmem a ha)
    have hfreeb := hfree b.1 b.2.1 (hmem b hb)
    rcases hab with hlt | ⟨heq, hlt⟩
    · exact .inl ((Value.lt_iff hfreeb hfreea).mpr hlt)
    · exact .inr ⟨Value.eq_of_extended_eq hfreea hfreeb heq, hlt⟩
  · have hlength := (map_fst_ranked_perm (scatter cached (missing cached) inferred) prepared).length_eq
    rw [List.length_map, List.length_range] at hlength
    rw [rankedResults, List.length_mapIdx, List.length_take, hlength, topN, hn]
    omega
  · rw [rankedResults, List.getElem?_mapIdx, Option.map_eq_some_iff] at hresult
    obtain ⟨entry, hentry, rfl⟩ := hresult
    rw [List.getElem?_take] at hentry
    split at hentry
    case isFalse => cases hentry
    have hranked := List.mem_of_getElem? hentry
    obtain ⟨-, hdocument⟩ := mem_ranked hranked
    refine ⟨entry.1, entry.2.2.document, ?_, ?_, hmem entry hranked, rfl, rfl, rfl, ?_⟩
    · rw [List.getElem?_map, hentry, Option.map_some]
    · rw [← hprepared, List.getElem?_map, hdocument, Option.map_some]
    · have hi : entry.1 < cached.length := hcached ▸ (List.getElem?_eq_some_iff.mp hdocument).1
      rw [Bool.eq_iff_iff, decide_eq_true_iff, mem_missing, List.getElem?_eq_getElem hi]
      cases cached[entry.1] <;> simp

end RerankService

end RerankerService
