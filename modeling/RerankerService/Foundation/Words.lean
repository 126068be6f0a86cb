import Mathlib.Data.List.Chain
import RerankerService.Foundation.Fields

/-!
# Words and collapsed lists

Splitting a list into its maximal runs of non-separators and joining them with one canonical
separator. The lists that this leaves unchanged are the collapsed ones, described locally: every
separator in them is the canonical one, none stands at either end and no two are adjacent.
-/

namespace RerankerService.Words

variable {α : Type*}

/-- The maximal runs of elements that are not separators. -/
def words (p : α → Bool) (t : List α) : List (List α) :=
  (t.splitOnP p).filter fun w => !w.isEmpty

/-- The words joined by single copies of `sp`. -/
def collapse (p : α → Bool) (sp : α) (t : List α) : List α :=
  [sp].intercalate (words p t)

structure Collapsed (p : α → Bool) (sp : α) (t : List α) : Prop where
  canonical : ∀ c ∈ t, p c = true → c = sp
  head_ne : t.head? ≠ some sp
  last_ne : t.getLast? ≠ some sp
  chain : t.IsChain fun a b => ¬(a = sp ∧ b = sp)

variable {p : α → Bool} {sp : α} {t u v : List α} {c : α}

theorem Collapsed.nil : Collapsed p sp ([] : List α) :=
  ⟨by simp, by simp, by simp, List.isChain_nil⟩

theorem Collapsed.of_forall_not (hsp : p sp = true) (ht : ∀ c ∈ t, p c = false) :
    Collapsed p sp t := by
  have hne : ∀ c ∈ t, c ≠ sp := by
    rintro c hc rfl
    exact absurd (ht c hc) (by simp [hsp])
  refine ⟨fun c hc hp => absurd (ht c hc) (by simp [hp]), ?_, ?_, ?_⟩
  · exact fun h => hne _ (List.mem_of_mem_head? h) rfl
  · exact fun h => hne _ (List.mem_of_mem_getLast? h) rfl
  · refine List.Pairwise.isChain (List.pairwise_of_forall_mem_list ?_)
    exact fun a ha b _ h => hne a ha h.1

theorem Collapsed.append_cons (hsp : p sp = true) (hc : p c = false)
    (hu : Collapsed p sp u) (hv : Collapsed p sp v) : Collapsed p sp (u ++ c :: v) := by
  have hcne : c ≠ sp := by
    rintro rfl
    simp [hsp] at hc
  refine ⟨?_, ?_, ?_, ?_⟩
  · intro d hd hp
    rcases List.mem_append.mp hd with hd | hd
    · exact hu.canonical d hd hp
    · rcases List.mem_cons.mp hd with rfl | hd
      · simp [hc] at hp
      · exact hv.canonical d hd hp
  · cases u with
    | nil => simpa using hcne
    | cons a u => simpa using hu.head_ne
  · rw [List.getLast?_append, List.getLast?_cons]
    cases hlast : v.getLast? with
    | none => simpa using hcne
    | some d => simpa [hlast] using hv.last_ne
  · rw [List.isChain_append]
    refine ⟨hu.chain, ?_, ?_⟩
    · rw [List.isChain_cons]
      exact ⟨fun d _ h => hcne h.1, hv.chain⟩
    · intro a _ b hb h
      simp only [List.head?_cons, Option.mem_def, Option.some.injEq] at hb
      exact hcne (hb.trans h.2)

theorem Collapsed.of_append_cons (h : Collapsed p sp (u ++ c :: v))
    (hu : u.getLast? ≠ some sp) (hv : v.head? ≠ some sp) :
    Collapsed p sp u ∧ Collapsed p sp v := by
  obtain ⟨hcanonical, hhead, hlast, hchain⟩ := h
  rw [List.isChain_append, List.isChain_cons] at hchain
  refine ⟨⟨fun d hd => hcanonical d (by simp [hd]), ?_, hu, hchain.1⟩,
    ⟨fun d hd => hcanonical d (by simp [hd]), hv, ?_, hchain.2.1.2⟩⟩
  · cases u with
    | nil => simp
    | cons a u => simpa using hhead
  · cases v with
    | nil => simp
    | cons a v =>
        rw [List.getLast?_append, List.getLast?_cons_cons] at hlast
        intro h
        simp [h] at hlast

theorem Collapsed.append_sep (hu : Collapsed p sp u) (hv : Collapsed p sp v) (hu0 : u ≠ [])
    (hv0 : v ≠ []) : Collapsed p sp (u ++ sp :: v) := by
  refine ⟨?_, ?_, ?_, ?_⟩
  · intro d hd hp
    rcases List.mem_append.mp hd with hd | hd
    · exact hu.canonical d hd hp
    · rcases List.mem_cons.mp hd with rfl | hd
      · rfl
      · exact hv.canonical d hd hp
  · obtain ⟨a, u, rfl⟩ := List.exists_cons_of_ne_nil hu0
    simpa using hu.head_ne
  · obtain ⟨a, v, rfl⟩ := List.exists_cons_of_ne_nil hv0
    rw [List.getLast?_append, List.getLast?_cons_cons]
    have hlast := hv.last_ne
    cases hcase : (a :: v).getLast? with
    | none => simp at hcase
    | some d => simpa [hcase] using hlast
  · rw [List.isChain_append, List.isChain_cons]
    refine ⟨hu.chain, ⟨fun d hd h => hv.head_ne (by rw [← h.2]; exact hd), hv.chain⟩, ?_⟩
    intro a ha b _ h
    exact hu.last_ne (by rw [← h.1]; exact ha)

theorem ne_nil_and_not_of_mem_words {w : List α} (hw : w ∈ words p t) :
    w ≠ [] ∧ ∀ c ∈ w, p c = false := by
  obtain ⟨hmem, hne⟩ := List.mem_filter.mp hw
  exact ⟨by simpa using hne, Fields.not_of_mem_splitOnP hmem⟩

theorem collapsed_intercalate (hsp : p sp = true) {ws : List (List α)}
    (hws : ∀ w ∈ ws, w ≠ [] ∧ ∀ c ∈ w, p c = false) :
    Collapsed p sp ([sp].intercalate ws) ∧ (ws ≠ [] → [sp].intercalate ws ≠ []) := by
  induction ws with
  | nil => exact ⟨Collapsed.nil, by simp⟩
  | cons w ws ih =>
      obtain ⟨hw0, hw⟩ := hws w (by simp)
      have hrest := ih fun _ hw => hws _ (by simp [hw])
      have hword : Collapsed p sp w := .of_forall_not hsp hw
      cases ws with
      | nil => exact ⟨by simpa using hword, by simpa using hw0⟩
      | cons w' ws =>
          rw [List.intercalate_cons_cons, List.append_assoc]
          refine ⟨?_, by simp [hw0]⟩
          simpa using hword.append_sep hrest.1 hw0 (hrest.2 (by simp))

theorem collapsed_collapse (hsp : p sp = true) (t : List α) : Collapsed p sp (collapse p sp t) :=
  (collapsed_intercalate hsp fun _ hw => ne_nil_and_not_of_mem_words hw).1

/-- In a list whose separators are isolated and not at its end, only the first piece can be
empty. -/
theorem nil_notMem_tail_splitOnP (hcanonical : ∀ c ∈ t, p c = true → c = sp) (hsp : p sp = true)
    (hlast : t.getLast? ≠ some sp) (hchain : t.IsChain fun a b => ¬(a = sp ∧ b = sp)) :
    [] ∉ (t.splitOnP p).tail ∧ ([] ∈ t.splitOnP p → t = [] ∨ t.head? = some sp) := by
  induction t with
  | nil => simp
  | cons a t ih =>
      rw [List.isChain_cons] at hchain
      by_cases ha : p a = true
      · obtain rfl : a = sp := hcanonical a (by simp) ha
        have ht0 : t ≠ [] := by
          rintro rfl
          simp at hlast
        have hrest := ih (fun c hc => hcanonical c (by simp [hc]))
          (by obtain ⟨b, t, rfl⟩ := List.exists_cons_of_ne_nil ht0; simpa using hlast) hchain.2
        rw [List.splitOnP_cons_eq_if_modifyHead, if_pos ha]
        refine ⟨fun hmem => ?_, fun _ => .inr rfl⟩
        rcases hrest.2 hmem with h | h
        · exact ht0 h
        · exact hchain.1 a h ⟨rfl, rfl⟩
      · have hrest := ih (fun c hc => hcanonical c (by simp [hc]))
          (by
            cases t with
            | nil => simp
            | cons b t => simpa using hlast) hchain.2
        obtain ⟨b, rest, hsplit⟩ := List.exists_cons_of_ne_nil (List.splitOnP_ne_nil p t)
        rw [List.splitOnP_cons_eq_if_modifyHead, if_neg ha, hsplit, List.modifyHead_cons]
        rw [hsplit] at hrest
        refine ⟨hrest.1, fun hmem => ?_⟩
        simp only [List.mem_cons, List.nil_eq, reduceCtorEq, false_or] at hmem
        exact absurd hmem hrest.1

theorem splitOnP_eq_splitOn [DecidableEq α] (hcanonical : ∀ c ∈ t, p c = true → c = sp)
    (hsp : p sp = true) : t.splitOnP p = t.splitOn sp := by
  induction t with
  | nil => simp
  | cons a t ih =>
      have ha : (a == sp) = p a := by
        by_cases h : p a = true
        · simp [hcanonical a (by simp) h, hsp]
        · have : a ≠ sp := by
            rintro rfl
            exact h hsp
          rw [Bool.not_eq_true] at h
          simp [this, h]
      rw [List.splitOnP_cons_eq_if_modifyHead, List.splitOn_cons_eq_if_modifyHead, ha,
        ih fun c hc => hcanonical c (by simp [hc])]

theorem Collapsed.collapse_eq [DecidableEq α] (hsp : p sp = true) (h : Collapsed p sp t) :
    collapse p sp t = t := by
  by_cases ht : t = []
  · subst ht
    simp [collapse, words]
  · have hnil : [] ∉ t.splitOnP p := by
      intro hmem
      rcases (nil_notMem_tail_splitOnP h.canonical hsp h.last_ne h.chain).2 hmem with h0 | h0
      · exact ht h0
      · exact h.head_ne h0
    have hwords : words p t = t.splitOn sp := by
      rw [words, List.filter_eq_self.mpr, splitOnP_eq_splitOn h.canonical hsp]
      intro w hw
      cases w with
      | nil => exact absurd hw hnil
      | cons a w => rfl
    rw [collapse, hwords, List.intercalate_splitOn]

end RerankerService.Words
