import Mathlib.Algebra.BigOperators.Group.Finset.Piecewise
import Mathlib.Algebra.GroupWithZero.Nat
import Mathlib.Data.List.Nodup
import Mathlib.Order.Monotone.Basic

/-!
# Pages of a list that grows at the front

A reader asks for one page after the other, numbered from 0, while elements are put in front of the
list. `shift p` is the number of elements in front at the request for page `p`; the element that was
at place `i` at first is then at `shift p + i`.
-/

namespace RerankerService.Pagination

variable {α : Type*} {size pages n i j : ℕ} {shift : ℕ → ℕ} {l : List α}

/-- Page `p` of a list. -/
def page (size p : ℕ) (l : List α) : List α :=
  (l.drop (p * size)).take size

/-- The element that was at place `i` is on page `p`. -/
def OnPage (size : ℕ) (shift : ℕ → ℕ) (i p : ℕ) : Prop :=
  (shift p + i) / size = p

instance (size : ℕ) (shift : ℕ → ℕ) (i : ℕ) : DecidablePred (OnPage size shift i) :=
  fun _ => inferInstanceAs (Decidable (_ = _))

/-- The element is on exactly one of the pages that are asked for. -/
def Once (size pages : ℕ) (shift : ℕ → ℕ) (i : ℕ) : Prop :=
  ∃! p, p < pages ∧ OnPage size shift i p

theorem onPage_iff (hsize : 0 < size) {p : ℕ} :
    OnPage size shift i p ↔ p * size ≤ shift p + i ∧ shift p + i < (p + 1) * size := by
  unfold OnPage
  rw [Nat.div_eq_iff hsize, Nat.succ_mul]
  omega

/-- Without insertions every element is on its page only. -/
theorem once_of_still (hsize : 0 < size) (hn : n ≤ pages * size) (hi : i < n)
    (hstill : ∀ p < pages, shift p = 0) : Once size pages shift i := by
  have hlt : i / size < pages := (Nat.div_lt_iff_lt_mul hsize).mpr (hi.trans_le hn)
  refine ⟨i / size, ⟨hlt, ?_⟩, ?_⟩
  · unfold OnPage
    rw [hstill _ hlt, zero_add]
  · rintro p ⟨hp, hon⟩
    unfold OnPage at hon
    rw [hstill p hp, zero_add] at hon
    exact hon.symm

/-- An element in front of the page border comes again with the first page after an insertion, if
that page reaches the old elements. -/
theorem repeated_of_moved (hsize : 0 < size) {p : ℕ} (hp : 0 < p) (hstill : ∀ q < p, shift q = 0)
    (hmoved : 0 < shift p) (hreaches : shift p < (p + 1) * size) :
    ∃ i q, i < p * size ∧ q < p ∧ OnPage size shift i q ∧ OnPage size shift i p := by
  have hborder : 0 < p * size := Nat.mul_pos hp hsize
  refine ⟨p * size - shift p, (p * size - shift p) / size, by omega, ?_, ?_, ?_⟩
  · exact (Nat.div_lt_iff_lt_mul hsize).mpr (by omega)
  · unfold OnPage
    rw [hstill _ ((Nat.div_lt_iff_lt_mul hsize).mpr (by omega)), zero_add]
  · rw [onPage_iff hsize, Nat.succ_mul]
    rw [Nat.succ_mul] at hreaches
    omega

/-- Once a page is out of reach, the first page that reaches an old element again has the very first
one. -/
theorem first_of_reached (hsize : 0 < size) (hmono : Monotone shift) {p q : ℕ} (hpq : p ≤ q)
    (hout : (p + 1) * size ≤ shift p) (hreaches : shift q < (q + 1) * size) :
    ∃ r, p < r ∧ r ≤ q ∧ OnPage size shift 0 r := by
  induction q, hpq using Nat.le_induction with
  | base => omega
  | succ q hpq ih =>
      by_cases hearlier : shift q < (q + 1) * size
      · obtain ⟨r, hpr, hrq, hon⟩ := ih hearlier
        exact ⟨r, hpr, hrq.trans (Nat.le_succ q), hon⟩
      · refine ⟨q + 1, Nat.lt_succ_of_le hpq, le_rfl, (onPage_iff hsize).mpr ?_⟩
        have hle : shift q ≤ shift (q + 1) := hmono (Nat.le_succ q)
        omega

/-- **Offset paging of a growing list**: every old element is on exactly one page if and only if
nothing has been put in front by the last request. -/
theorem once_iff_still (hsize : 0 < size) (hmono : Monotone shift) (hstart : shift 0 = 0)
    (hn : n ≤ pages * size) (hpages : pages * size < n + size) :
    (∀ i < n, Once size pages shift i) ↔ ∀ p < pages, shift p = 0 := by
  refine ⟨fun honce => ?_, fun hstill i hi => once_of_still hsize hn hi hstill⟩
  intro p hp
  induction p using Nat.strong_induction_on with
  | _ p ih =>
      have hstill : ∀ q < p, shift q = 0 := fun q hq => ih q hq (hq.trans hp)
      by_contra hne
      have hmoved : 0 < shift p := Nat.pos_of_ne_zero hne
      have hpos : 0 < p := Nat.pos_of_ne_zero fun hzero => hne (hzero ▸ hstart)
      -- the element at the border of page `p` is an old one
      have hborder : p * size < n := by
        have hle : (p + 1) * size ≤ pages * size := Nat.mul_le_mul_right size hp
        rw [Nat.succ_mul] at hle
        omega
      by_cases hreaches : shift p < (p + 1) * size
      · obtain ⟨i, q, hi, hq, hon, hon'⟩ :=
          repeated_of_moved hsize hpos hstill hmoved hreaches
        have heq := (honce i (hi.trans hborder)).unique ⟨hq.trans hp, hon⟩ ⟨hp, hon'⟩
        omega
      · obtain ⟨q, ⟨hq, hon⟩, -⟩ := honce (p * size) hborder
        have hrange := (onPage_iff hsize).mp hon
        have hpq : p ≤ q := by
          by_contra hlt
          have hbelow := hstill q (not_le.mp hlt)
          have hle : (q + 1) * size ≤ p * size := Nat.mul_le_mul_right size (not_le.mp hlt)
          omega
        obtain ⟨r, hpr, hrq, hon'⟩ :=
          first_of_reached hsize hmono hpq (not_lt.mp hreaches) (by omega)
        have hfirst : OnPage size shift 0 0 := by simp [OnPage, hstart]
        have heq := (honce 0 (by omega)).unique ⟨by omega, hfirst⟩ ⟨by omega, hon'⟩
        omega

/-! ### What is on the pages -/

theorem getElem_mem_window (hnodup : l.Nodup) (hj : j < l.length) (a n : ℕ) :
    l[j] ∈ (l.drop a).take n ↔ a ≤ j ∧ j < a + n := by
  rw [List.mem_iff_getElem]
  constructor
  · rintro ⟨k, hk, hget⟩
    rw [List.getElem_take, List.getElem_drop] at hget
    have heq := hnodup.getElem_inj_iff.mp hget
    rw [List.length_take] at hk
    omega
  · rintro ⟨hlow, hhigh⟩
    refine ⟨j - a, ?_, ?_⟩
    · rw [List.length_take, List.length_drop]
      omega
    · rw [List.getElem_take, List.getElem_drop]
      congr 1
      omega

variable [DecidableEq α]

theorem count_page (hnodup : l.Nodup) (hsize : 0 < size) (hj : j < l.length) (p : ℕ) :
    (page size p l).count l[j] = if j / size = p then 1 else 0 := by
  have hpage : (page size p l).Nodup :=
    hnodup.sublist ((List.take_sublist _ _).trans (List.drop_sublist _ _))
  have hmem : l[j] ∈ page size p l ↔ j / size = p := by
    unfold page
    rw [Nat.div_eq_iff hsize, List.mem_iff_getElem]
    constructor
    · rintro ⟨k, hk, hget⟩
      rw [List.getElem_take, List.getElem_drop] at hget
      have heq := (hnodup.getElem_inj_iff).mp hget
      rw [List.length_take, List.length_drop] at hk
      omega
    · rintro ⟨hlow, hhigh⟩
      refine ⟨j - p * size, ?_, ?_⟩
      · rw [List.length_take, List.length_drop]
        omega
      · rw [List.getElem_take, List.getElem_drop]
        congr 1
        omega
  split
  · exact List.count_eq_one_of_mem hpage (hmem.mpr ‹_›)
  · exact List.count_eq_zero_of_not_mem fun h => ‹¬_› (hmem.mp h)

/-- The number of pages that an element is on. -/
theorem sum_pages_eq_one_iff (P : ℕ → Prop) [DecidablePred P] :
    ((List.range pages).map fun p => if P p then 1 else 0).sum = 1 ↔ ∃! p, p < pages ∧ P p := by
  have hcard : ((List.range pages).map fun p => if P p then 1 else 0).sum =
      ((Finset.range pages).filter P).card := by
    rw [Finset.card_filter]
    rfl
  rw [hcard, Finset.card_eq_one]
  constructor
  · rintro ⟨p, hp⟩
    have hmem : ∀ q, q < pages ∧ P q ↔ q = p := fun q => by
      rw [← Finset.mem_range, ← Finset.mem_filter, hp, Finset.mem_singleton]
    exact ⟨p, (hmem p).mpr rfl, fun q hq => (hmem q).mp hq⟩
  · rintro ⟨p, hp, hunique⟩
    refine ⟨p, Finset.ext fun q => ?_⟩
    rw [Finset.mem_filter, Finset.mem_range, Finset.mem_singleton]
    exact ⟨fun hq => hunique q hq, fun hq => hq ▸ hp⟩

end RerankerService.Pagination
