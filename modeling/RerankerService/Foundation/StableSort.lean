import Mathlib.Data.List.Sort
import Mathlib.Order.Basic

/-!
# Stability of insertion sort

Sorting by descending keys keeps the order `before` of the input among equal keys. The comparison
has to agree with the keys only on the elements that are sorted.
-/

namespace RerankerService.StableSort

variable {α κ : Type*} [LinearOrder κ] {key : α → κ} {before : α → α → Prop}
  {r : α → α → Prop} [DecidableRel r] {a : α} {l : List α}

/-- `a` comes first: its key is larger, or the keys are equal and it did in the input. -/
def Descending (key : α → κ) (before : α → α → Prop) (a b : α) : Prop :=
  key b < key a ∨ key a = key b ∧ before a b

theorem Descending.key_le {b : α} (h : Descending key before a b) : key b ≤ key a := by
  rcases h with hlt | ⟨heq, -⟩
  · exact hlt.le
  · exact heq.ge

theorem Descending.of_key_le {b : α} (hle : key b ≤ key a) (hbefore : before a b) :
    Descending key before a b := by
  rcases hle.lt_or_eq with hlt | heq
  · exact .inl hlt
  · exact .inr ⟨heq.symm, hbefore⟩

/-- An element that came before all others is inserted in front of those with an equal key. -/
theorem pairwise_orderedInsert (hr : ∀ b ∈ l, r a b ↔ key b ≤ key a)
    (hbefore : ∀ b ∈ l, before a b) (h : l.Pairwise (Descending key before)) :
    (l.orderedInsert r a).Pairwise (Descending key before) := by
  induction l with
  | nil => simp
  | cons b rest ih =>
      obtain ⟨hfirst, hrest⟩ := List.pairwise_cons.mp h
      by_cases hab : r a b
      · rw [List.orderedInsert_cons_of_le r rest hab]
        apply List.pairwise_cons.mpr ⟨fun c hc => ?_, h⟩
        have hba : key b ≤ key a := (hr b List.mem_cons_self).mp hab
        apply Descending.of_key_le _ (hbefore c hc)
        rcases List.mem_cons.mp hc with rfl | hmem
        · exact hba
        · calc key c ≤ key b := (hfirst c hmem).key_le
            _ ≤ key a := hba
      · have hab' : key a < key b := not_le.mp fun hle => hab ((hr b List.mem_cons_self).mpr hle)
        rw [List.orderedInsert_of_not_le r rest hab]
        refine List.pairwise_cons.mpr ⟨fun c hc => ?_, ?_⟩
        · rcases (List.mem_orderedInsert r).mp hc with rfl | hmem
          · exact .inl hab'
          · exact hfirst c hmem
        · exact ih (fun c hc => hr c (List.mem_cons_of_mem b hc))
            (fun c hc => hbefore c (List.mem_cons_of_mem b hc)) hrest

theorem pairwise_insertionSort (hr : ∀ a ∈ l, ∀ b ∈ l, r a b ↔ key b ≤ key a)
    (hbefore : l.Pairwise before) : (l.insertionSort r).Pairwise (Descending key before) := by
  induction l with
  | nil => simp
  | cons a rest ih =>
      obtain ⟨hfirst, hrest⟩ := List.pairwise_cons.mp hbefore
      have hsorted := ih (fun b hb c hc =>
        hr b (List.mem_cons_of_mem a hb) c (List.mem_cons_of_mem a hc)) hrest
      have hmem : ∀ b ∈ rest.insertionSort r, b ∈ rest := fun b hb =>
        (List.mem_insertionSort r).mp hb
      rw [List.insertionSort_cons]
      apply pairwise_orderedInsert _ (fun b hb => hfirst b (hmem b hb)) hsorted
      intro b hb
      exact hr a List.mem_cons_self b (List.mem_cons_of_mem a (hmem b hb))

end RerankerService.StableSort
