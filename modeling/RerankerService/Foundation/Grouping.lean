import Mathlib.Algebra.BigOperators.Group.List.Basic
import Mathlib.Data.List.Induction
import Mathlib.Data.List.Nodup

/-!
# Grouping by a key

Elements are put into groups one after the other; a group is opened when its key comes up for the
first time.
-/

namespace RerankerService.Grouping

variable {α κ M : Type*} [DecidableEq κ] {key : α → κ} {l : List α} {groups : List (κ × List α)}
  {k : κ} {a : α}

/-- Append to the group of the key, or open one at the end. -/
def add (k : κ) (a : α) : List (κ × List α) → List (κ × List α)
  | [] => [(k, [a])]
  | (other, members) :: rest =>
      if other = k then (other, members ++ [a]) :: rest else (other, members) :: add k a rest

def group (key : α → κ) (l : List α) : List (κ × List α) :=
  l.foldl (fun groups a => add (key a) a groups) []

/-- Every key that occurs has one group, and that has the elements with this key in their order. -/
structure Groups (key : α → κ) (l : List α) (groups : List (κ × List α)) : Prop where
  nodup : (groups.map Prod.fst).Nodup
  mem_keys : ∀ k, k ∈ groups.map Prod.fst ↔ ∃ a ∈ l, key a = k
  members : ∀ k members, (k, members) ∈ groups → members = l.filter fun a => key a = k

theorem map_fst_add (k : κ) (a : α) (groups : List (κ × List α)) :
    (add k a groups).map Prod.fst =
      if k ∈ groups.map Prod.fst then groups.map Prod.fst else groups.map Prod.fst ++ [k] := by
  induction groups with
  | nil => simp [add]
  | cons g rest ih =>
      unfold add
      by_cases hk : g.1 = k
      · simp [hk]
      · rw [if_neg hk, List.map_cons, ih, List.map_cons]
        by_cases hmem : k ∈ rest.map Prod.fst
        · rw [if_pos hmem, if_pos (List.mem_cons_of_mem _ hmem)]
        · rw [if_neg hmem, if_neg (by simpa [Ne.symm hk] using hmem), List.cons_append]

/-- The groups of other keys stay, that of the key grows by the element. -/
theorem mem_of_mem_add {k' : κ} {members : List α} (hnodup : (groups.map Prod.fst).Nodup)
    (hmem : (k', members) ∈ add k a groups) :
    k' ≠ k ∧ (k', members) ∈ groups ∨
      k' = k ∧ ∃ before, members = before ++ [a] ∧
        ((k, before) ∈ groups ∨ k ∉ groups.map Prod.fst ∧ before = []) := by
  induction groups with
  | nil =>
      obtain ⟨rfl, rfl⟩ := Prod.mk.inj (List.mem_singleton.mp hmem)
      exact .inr ⟨rfl, [], rfl, .inr ⟨by simp, rfl⟩⟩
  | cons g rest ih =>
      obtain ⟨hg, hrest⟩ := List.nodup_cons.mp hnodup
      unfold add at hmem
      by_cases hk : g.1 = k
      · rw [if_pos hk] at hmem
        rcases List.mem_cons.mp hmem with heq | htail
        · obtain ⟨rfl, rfl⟩ := Prod.mk.inj heq
          exact .inr ⟨hk, g.2, rfl, .inl (hk ▸ List.mem_cons_self)⟩
        · refine .inl ⟨fun heq => hg ?_, List.mem_cons_of_mem g htail⟩
          exact List.mem_map.mpr ⟨_, htail, heq.trans hk.symm⟩
      · rw [if_neg hk] at hmem
        rcases List.mem_cons.mp hmem with heq | htail
        · obtain rfl : (k', members) = g := heq
          exact .inl ⟨hk, List.mem_cons_self⟩
        · rcases ih hrest htail with ⟨hne, hold⟩ | ⟨heq, before, hmembers, hbefore⟩
          · exact .inl ⟨hne, List.mem_cons_of_mem g hold⟩
          · refine .inr ⟨heq, before, hmembers, ?_⟩
            rcases hbefore with hold | ⟨hnew, hnil⟩
            · exact .inl (List.mem_cons_of_mem g hold)
            · exact .inr ⟨by simpa [Ne.symm hk] using hnew, hnil⟩

theorem Groups.nil : Groups key ([] : List α) [] where
  nodup := List.nodup_nil
  mem_keys := by simp
  members := by simp

/-- One element more. -/
theorem Groups.add (h : Groups key l groups) (a : α) :
    Groups key (l ++ [a]) (add (key a) a groups) where
  nodup := by
    rw [map_fst_add]
    split
    · exact h.nodup
    · rename_i hnew
      exact List.nodup_append.mpr ⟨h.nodup, List.nodup_singleton _, by grind⟩
  mem_keys k := by
    rw [map_fst_add]
    have hk := h.mem_keys k
    have ha := h.mem_keys (key a)
    grind
  members k members hmem := by
    rw [List.filter_append]
    rcases mem_of_mem_add h.nodup hmem with ⟨hne, hold⟩ | ⟨rfl, before, rfl, hbefore⟩
    · rw [← h.members k members hold, List.filter_singleton, decide_eq_false (Ne.symm hne)]
      simp
    · have hold : before = l.filter fun b => key b = key a := by
        rcases hbefore with hold | ⟨hnew, rfl⟩
        · exact h.members _ _ hold
        · refine (List.filter_eq_nil_iff.mpr fun b hb hkey => hnew ?_).symm
          exact (h.mem_keys _).mpr ⟨b, hb, of_decide_eq_true hkey⟩
      rw [← hold, List.filter_singleton, decide_eq_true rfl]
      rfl

theorem group_append_singleton (key : α → κ) (l : List α) (a : α) :
    group key (l ++ [a]) = add (key a) a (group key l) := by
  simp [group]

theorem groups_group (key : α → κ) (l : List α) : Groups key l (group key l) := by
  induction l using List.reverseRecOn with
  | nil => exact .nil
  | append_singleton l a ih =>
      rw [group_append_singleton]
      exact ih.add a

theorem Groups.perm {groups' : List (κ × List α)} (h : Groups key l groups)
    (hperm : groups'.Perm groups) : Groups key l groups' where
  nodup := (hperm.map Prod.fst).nodup_iff.mpr h.nodup
  mem_keys k := ((hperm.map Prod.fst).mem_iff).trans (h.mem_keys k)
  members k members hmem := h.members k members (hperm.mem_iff.mp hmem)

theorem Groups.members_ne_nil {members : List α} (h : Groups key l groups)
    (hmem : (k, members) ∈ groups) : members ≠ [] := by
  obtain ⟨a, ha, hkey⟩ := (h.mem_keys k).mp (List.mem_map.mpr ⟨_, hmem, rfl⟩)
  rw [h.members k members hmem]
  exact List.ne_nil_of_mem (List.mem_filter.mpr ⟨ha, decide_eq_true hkey⟩)

/-! ### Totals -/

section Totals

variable [AddCommMonoid M]

/-- The sum of a quantity over all groups. -/
def total (f : α → M) (groups : List (κ × List α)) : M :=
  (groups.map fun g => (g.2.map f).sum).sum

theorem total_add (f : α → M) (k : κ) (a : α) (groups : List (κ × List α)) :
    total f (add k a groups) = total f groups + f a := by
  induction groups with
  | nil => simp [total, add]
  | cons g rest ih =>
      simp only [total, List.map_cons, List.sum_cons] at ih ⊢
      unfold add
      split
      · simp only [List.map_cons, List.sum_cons, List.map_append, List.sum_append, List.map_nil,
          List.sum_nil, add_zero]
        rw [add_right_comm]
      · rw [List.map_cons, List.sum_cons, ih, add_assoc]

theorem total_group (f : α → M) (key : α → κ) (l : List α) :
    total f (group key l) = (l.map f).sum := by
  induction l using List.reverseRecOn with
  | nil => rfl
  | append_singleton l a ih =>
      rw [group_append_singleton, total_add, ih, List.map_append, List.sum_append,
        List.map_singleton, List.sum_singleton]

omit [DecidableEq κ] in
theorem total_perm {groups' : List (κ × List α)} (f : α → M) (hperm : groups'.Perm groups) :
    total f groups' = total f groups :=
  (hperm.map _).sum_eq

end Totals

end RerankerService.Grouping
