import Mathlib.Data.List.Basic
import Mathlib.Logic.Function.Basic

/-!
# Tables of rows by number

A table is a function from numbers to rows, of which finitely many were ever used: `used` lists
them. What is counted are the rows that are there.
-/

namespace RerankerService.Table

variable {ι ν : Type*} [DecidableEq ι]

/-- The number of rows that are there. -/
def live (used : List ι) (rows : ι → Option ν) : Nat :=
  used.countP fun i => (rows i).isSome

variable {used : List ι} {rows : ι → Option ν} {i : ι}

theorem live_update_of_not_mem (hi : i ∉ used) (row : Option ν) :
    live used (Function.update rows i row) = live used rows := by
  refine List.countP_congr fun j hj => ?_
  have hne : j ≠ i := fun heq => hi (heq ▸ hj)
  rw [Function.update_of_ne hne]

/-- A new row. -/
theorem live_concat (rows : ι → Option ν) (hi : i ∉ used) (row : ν) :
    live (used ++ [i]) (Function.update rows i (some row)) = live used rows + 1 := by
  have hold : live used (Function.update rows i (some row)) = live used rows :=
    live_update_of_not_mem hi _
  rw [live, List.countP_append, ← live, hold]
  simp

omit [DecidableEq ι] in
/-- A number whose row is not there. -/
theorem live_concat_none (used : List ι) (hi : rows i = none) :
    live (used ++ [i]) rows = live used rows := by
  rw [live, List.countP_append, ← live]
  simp [hi]

theorem live_update_some {row row' : ν} (hrow : rows i = some row) :
    live used (Function.update rows i (some row')) = live used rows := by
  refine List.countP_congr fun j _ => ?_
  by_cases heq : j = i
  · subst heq
    simp [hrow]
  · rw [Function.update_of_ne heq]

/-- A row goes. -/
theorem live_update_none (hnodup : used.Nodup) (hi : i ∈ used) {row : ν} (hrow : rows i = some row) :
    live used (Function.update rows i none) + 1 = live used rows := by
  obtain ⟨before, after, rfl⟩ := List.append_of_mem hi
  have hbefore : i ∉ before := fun h =>
    (List.nodup_append.mp hnodup).2.2 i h i List.mem_cons_self rfl
  have hafter : i ∉ after := (List.nodup_cons.mp (List.nodup_append.mp hnodup).2.1).1
  have hfront : live before (Function.update rows i none) = live before rows :=
    live_update_of_not_mem hbefore _
  have hback : live after (Function.update rows i none) = live after rows :=
    live_update_of_not_mem hafter _
  rw [live, live, List.countP_append, List.countP_append, List.countP_cons, List.countP_cons]
  rw [live, live] at hfront hback
  rw [hfront, hback, Function.update_self, hrow]
  simp only [Option.isSome_none, Option.isSome_some, Bool.false_eq_true, if_false, if_true]
  omega

end RerankerService.Table
