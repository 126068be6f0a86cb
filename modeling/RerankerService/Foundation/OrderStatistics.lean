import Mathlib.Data.List.Sort

/-!
# Order statistics

The element at an index of a sorted list, by what lies below it. The facts are about the list before
it was sorted as well, as they only count.
-/

namespace RerankerService.OrderStatistics

variable {α : Type*} [LinearOrder α]

/-- The value has rank `index` among `l`: at most `index` of them are smaller, and more than `index`
are not larger. -/
structure Ranked (l : List α) (index : Nat) (value : α) : Prop where
  mem : value ∈ l
  below : (l.countP fun x => x < value) ≤ index
  upto : index < l.countP fun x => x ≤ value

theorem Ranked.perm {l l' : List α} {index : Nat} {value : α} (h : Ranked l index value)
    (hperm : l.Perm l') : Ranked l' index value where
  mem := hperm.mem_iff.mp h.mem
  below := hperm.countP_eq _ ▸ h.below
  upto := hperm.countP_eq _ ▸ h.upto

/-- A larger rank has no smaller value. -/
theorem Ranked.le {l : List α} {index index' : Nat} {value value' : α} (h : Ranked l index value)
    (h' : Ranked l index' value') (hle : index ≤ index') : value ≤ value' := by
  by_contra hlt
  have hsub : (l.countP fun x => x ≤ value') ≤ l.countP fun x => x < value :=
    List.countP_mono_left fun x _ hx => by
      simp only [decide_eq_true_eq] at hx ⊢
      exact lt_of_le_of_lt hx (not_le.mp hlt)
  have hbelow := h.below
  have hupto := h'.upto
  omega

theorem ranked_getElem {l : List α} (hsorted : l.Pairwise (· ≤ ·)) {index : Nat}
    (hindex : index < l.length) : Ranked l index l[index] := by
  have hle : ∀ i j (hi : i < l.length) (hj : j < l.length), i ≤ j → l[i] ≤ l[j] := by
    intro i j hi hj hij
    rcases Nat.lt_or_eq_of_le hij with hlt | rfl
    · exact List.pairwise_iff_getElem.mp hsorted i j hi hj hlt
    · exact le_rfl
  refine ⟨List.getElem_mem hindex, ?_, ?_⟩
  · -- nothing from `index` on is smaller
    have hnone : ((l.drop index).countP fun x => x < l[index]) = 0 := by
      refine List.countP_eq_zero.mpr fun x hx => ?_
      obtain ⟨i, hi, rfl⟩ := List.mem_iff_getElem.mp hx
      rw [List.length_drop] at hi
      rw [List.getElem_drop, decide_eq_true_eq, not_lt]
      exact hle index (index + i) hindex (by omega) (by omega)
    calc (l.countP fun x => x < l[index])
        = ((l.take index).countP fun x => x < l[index]) +
            (l.drop index).countP fun x => x < l[index] := by
          rw [← List.countP_append, List.take_append_drop]
      _ ≤ (l.take index).length + 0 := Nat.add_le_add List.countP_le_length hnone.le
      _ ≤ index := by simp
  · -- all of the first `index + 1` are not larger
    have hall : ((l.take (index + 1)).countP fun x => x ≤ l[index]) = index + 1 := by
      rw [List.countP_eq_length.mpr fun x hx => ?_, List.length_take, min_eq_left hindex]
      obtain ⟨i, hi, rfl⟩ := List.mem_iff_getElem.mp hx
      rw [List.length_take] at hi
      rw [List.getElem_take, decide_eq_true_eq]
      exact hle i index (by omega) hindex (by omega)
    have hmore := (List.take_sublist (index + 1) l).countP_le (p := fun x => x ≤ l[index])
    omega

theorem ranked_insertionSort (l : List α) {index : Nat}
    (hindex : index < (l.insertionSort (· ≤ ·)).length) :
    Ranked l index (l.insertionSort (· ≤ ·))[index] :=
  (ranked_getElem (List.pairwise_insertionSort (· ≤ ·) l) hindex).perm (List.perm_insertionSort _ l)

end RerankerService.OrderStatistics
