import Mathlib.Data.Finset.Card

/-!
# Bookkeeping of counting semaphores

A book records the free permits of every semaphore and, for every member, the semaphore of which it
holds a permit. Acquiring and releasing keep `free permits + holders` constant, so any set of members
that all hold permits of one semaphore is no larger than that semaphore.
-/

namespace RerankerService.Permits

variable {ι κ : Type*} [DecidableEq ι] [DecidableEq κ]

@[ext]
structure Book (ι κ : Type*) where
  members : Finset ι
  free : κ → Nat
  holds : ι → Option κ

variable {b : Book ι κ} {L : Nat} {K : κ → Prop} {i : ι} {k : κ}

def Book.holders (b : Book ι κ) (k : κ) : Finset ι :=
  b.members.filter fun i => b.holds i = some k

/-- Every semaphore in `K` has `L` permits, free or held. -/
def Book.Balanced (b : Book ι κ) (K : κ → Prop) (L : Nat) : Prop :=
  ∀ k, K k → b.free k + (b.holders k).card = L

def Book.acquire (b : Book ι κ) (i : ι) (k : κ) : Book ι κ :=
  { b with
    free := Function.update b.free k (b.free k - 1)
    holds := Function.update b.holds i (some k) }

def Book.release (b : Book ι κ) (i : ι) (k : κ) : Book ι κ :=
  { b with
    free := Function.update b.free k (b.free k + 1)
    holds := Function.update b.holds i none }

def Book.join (b : Book ι κ) (i : ι) : Book ι κ :=
  { b with
    members := insert i b.members
    holds := Function.update b.holds i none }

def Book.issue (b : Book ι κ) (k : κ) (permits : Nat) : Book ι κ :=
  { b with free := Function.update b.free k permits }

omit [DecidableEq ι] in
theorem Book.mem_holders : i ∈ b.holders k ↔ i ∈ b.members ∧ b.holds i = some k :=
  Finset.mem_filter

theorem Book.holders_acquire (hi : i ∈ b.members) :
    (b.acquire i k).holders k = insert i (b.holders k) := by
  ext j
  by_cases hj : j = i
  · subst hj
    simp [mem_holders, acquire, hi]
  · simp [mem_holders, acquire, hj]

theorem Book.holders_acquire_of_ne (hi : b.holds i = none) {k' : κ} (hk : k' ≠ k) :
    (b.acquire i k).holders k' = b.holders k' := by
  ext j
  by_cases hj : j = i
  · subst hj
    simp [mem_holders, acquire, hi, hk.symm]
  · simp [mem_holders, acquire, hj]

theorem Book.holders_release (k' : κ) :
    (b.release i k).holders k' = (b.holders k').erase i := by
  ext j
  by_cases hj : j = i
  · subst hj
    simp [mem_holders, release]
  · simp [mem_holders, release, hj]

theorem Book.Balanced.acquire (h : b.Balanced K L) (hi : i ∈ b.members) (hfree : b.holds i = none)
    (hpermit : 0 < b.free k) : (b.acquire i k).Balanced K L := by
  intro k' hk'
  have hbalance := h k' hk'
  by_cases heq : k' = k
  · subst heq
    have hnot : i ∉ b.holders k' := by simp [mem_holders, hfree]
    rw [holders_acquire hi, Finset.card_insert_of_notMem hnot]
    simp only [Book.acquire, Function.update_self]
    omega
  · rw [holders_acquire_of_ne hfree heq]
    simpa only [Book.acquire, Function.update_of_ne heq] using hbalance

theorem Book.Balanced.release (h : b.Balanced K L) (hi : i ∈ b.members)
    (hholds : b.holds i = some k) : (b.release i k).Balanced K L := by
  intro k' hk'
  have hbalance := h k' hk'
  rw [holders_release]
  by_cases heq : k' = k
  · subst heq
    have hmem : i ∈ b.holders k' := mem_holders.mpr ⟨hi, hholds⟩
    have hpos := Finset.card_pos.mpr ⟨i, hmem⟩
    rw [Finset.card_erase_of_mem hmem]
    simp only [Book.release, Function.update_self]
    omega
  · have hnot : i ∉ b.holders k' := by simp [mem_holders, hholds, Ne.symm heq]
    rw [Finset.erase_eq_of_notMem hnot]
    simpa only [Book.release, Function.update_of_ne heq] using hbalance

theorem Book.Balanced.join (h : b.Balanced K L) (hi : i ∉ b.members) :
    (b.join i).Balanced K L := by
  intro k hk
  have hholders : (b.join i).holders k = b.holders k := by
    ext j
    by_cases hj : j = i
    · subst hj
      simp [mem_holders, Book.join, hi]
    · simp [mem_holders, Book.join, hj]
  rw [hholders]
  exact h k hk

omit [DecidableEq ι] in
/-- A new semaphore of `L` permits, of which nobody holds one yet. -/
theorem Book.Balanced.issue (h : b.Balanced K L) (hnew : ∀ j ∈ b.members, b.holds j ≠ some k)
    {K' : κ → Prop} (hK : ∀ k', K' k' → K k' ∨ k' = k) : (b.issue k L).Balanced K' L := by
  intro k' hk'
  have hholders : (b.issue k L).holders k' = b.holders k' := rfl
  rw [hholders]
  by_cases heq : k' = k
  · subst heq
    have hempty : b.holders k' = ∅ :=
      Finset.filter_eq_empty_iff.mpr fun j hj => hnew j hj
    simp [Book.issue, hempty]
  · simpa only [Book.issue, Function.update_of_ne heq] using
      h k' ((hK k' hk').resolve_right heq)

omit [DecidableEq ι] in
/-- **Permits bound their holders.** -/
theorem Book.Balanced.card_le (h : b.Balanced K L) (hk : K k) {A : Finset ι}
    (hA : ∀ j ∈ A, j ∈ b.members ∧ b.holds j = some k) : A.card ≤ L := by
  have hsubset : A ⊆ b.holders k := fun j hj => mem_holders.mpr (hA j hj)
  calc A.card ≤ (b.holders k).card := Finset.card_le_card hsubset
    _ ≤ b.free k + (b.holders k).card := Nat.le_add_left _ _
    _ = L := h k hk

end RerankerService.Permits
