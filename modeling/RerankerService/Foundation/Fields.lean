import Mathlib.Data.List.Chain

/-!
# Records written as separated fields

Fields are joined with a separator that the fields themselves may contain. The pieces between the
separators then determine the record only up to where the fields are cut. What makes a cut
recognisable is a relation between the two pieces at it: inner cuts of a field are loose, the cuts
between fields are tight. `cut_unique` says when that is enough.
-/

namespace RerankerService.Fields

variable {α : Type*}

/-- The pieces of a joined record are the pieces of its fields, in order. -/
theorem splitOn_intercalate_eq_flatMap [DecidableEq α] (x : α) {fields : List (List α)}
    (hne : fields ≠ []) :
    ([x].intercalate fields).splitOn x = fields.flatMap fun f => f.splitOn x := by
  induction fields with
  | nil => exact absurd rfl hne
  | cons f rest ih =>
      cases rest with
      | nil => simp
      | cons g rest =>
          rw [List.intercalate_cons_cons, List.append_assoc, List.singleton_append,
            List.splitOn_append_cons_self, ih (by simp)]
          simp

theorem splitOn_injective [DecidableEq α] (x : α) : Function.Injective (List.splitOn x) := by
  intro s t h
  calc
    s = [x].intercalate (s.splitOn x) := (List.intercalate_splitOn x).symm
    _ = [x].intercalate (t.splitOn x) := by rw [h]
    _ = t := List.intercalate_splitOn x

/-- A map that keeps the separator keeps the pieces. -/
theorem splitOn_map {β : Type*} [DecidableEq α] [DecidableEq β] {f : α → β} {x : α}
    (hx : ∀ a, f a = f x → a = x) (t : List α) :
    (t.map f).splitOn (f x) = (t.splitOn x).map (List.map f) := by
  induction t with
  | nil => rfl
  | cons a rest ih =>
      rw [List.map_cons, List.splitOn_cons_eq_if_modifyHead, List.splitOn_cons_eq_if_modifyHead, ih]
      obtain ⟨piece, pieces, hpieces⟩ := List.exists_cons_of_ne_nil (List.splitOn_ne_nil x rest)
      by_cases ha : a = x
      · subst ha
        simp
      · have hfa : f a ≠ f x := fun h => ha (hx a h)
        simp [ha, hfa, hpieces]

theorem eq_of_splitOn_eq_singleton [DecidableEq α] {x : α} {t u : List α}
    (h : t.splitOn x = [u]) : t = u := by
  calc
    t = [x].intercalate (t.splitOn x) := (List.intercalate_splitOn x).symm
    _ = u := by simp [h]

theorem length_splitOn_pos [DecidableEq α] (x : α) (t : List α) : 0 < (t.splitOn x).length :=
  List.length_pos_iff.mpr (List.splitOn_ne_nil x t)

theorem intercalate_append (x : α) {l r : List (List α)} (hl : l ≠ []) (hr : r ≠ []) :
    [x].intercalate (l ++ r) = [x].intercalate l ++ x :: [x].intercalate r := by
  induction l with
  | nil => exact absurd rfl hl
  | cons f l ih =>
      cases l with
      | nil =>
          obtain ⟨g, r, rfl⟩ := List.exists_cons_of_ne_nil hr
          simp [List.intercalate_cons_cons]
      | cons g l =>
          rw [List.cons_append, List.cons_append, List.intercalate_cons_cons, ← List.cons_append,
            ih (by simp), List.intercalate_cons_cons]
          simp

/-- The first piece starts as the list does, unless the list starts with a separator. -/
theorem head?_head_splitOn_iff [DecidableEq α] {x y : α} (hxy : y ≠ x) {t p : List α}
    (hp : (t.splitOn x).head? = some p) : p.head? = some y ↔ t.head? = some y := by
  cases t with
  | nil =>
      obtain rfl : [] = p := by simpa using hp
      simp
  | cons a t =>
      rw [List.splitOn_cons_eq_if_modifyHead] at hp
      split at hp
      · rename_i hax
        obtain rfl : [] = p := by simpa using hp
        have ha : a ≠ y := fun h => hxy (h ▸ (beq_iff_eq.mp hax))
        simp [ha]
      · obtain ⟨b, rest, hsplit⟩ := List.exists_cons_of_ne_nil (List.splitOn_ne_nil x t)
        rw [hsplit] at hp
        obtain rfl : a :: b = p := by simpa using hp
        simp

/-- The last piece ends as the list does, unless the list ends with a separator. -/
theorem getLast?_getLast_splitOn_iff [DecidableEq α] {x y : α} (hxy : y ≠ x) {t p : List α}
    (hp : (t.splitOn x).getLast? = some p) : p.getLast? = some y ↔ t.getLast? = some y := by
  obtain ⟨pieces, hpieces⟩ := List.getLast?_eq_some_iff.mp hp
  have ht : t = [x].intercalate (pieces ++ [p]) := by
    rw [← hpieces, List.intercalate_splitOn]
  cases pieces with
  | nil => simp [ht]
  | cons q pieces =>
      rw [intercalate_append x (by simp) (by simp)] at ht
      rw [ht, List.intercalate_singleton, List.getLast?_append, List.getLast?_cons]
      cases p.getLast? with
      | none => simpa using hxy.symm
      | some z => simp

theorem append_cons_inj_of_count [DecidableEq α] {x : α} {u u' v v' : List α}
    (hcount : u'.count x = u.count x) (h : u' ++ x :: v' = u ++ x :: v) : u' = u ∧ v' = v := by
  rcases List.append_eq_append_iff.mp h with ⟨w, rfl, hw⟩ | ⟨w, rfl, hw⟩
  · cases w with
    | nil => simpa using hw
    | cons y w =>
        obtain ⟨rfl, -⟩ : x = y ∧ _ := by simpa using hw
        simp at hcount
  · cases w with
    | nil => simpa using hw.symm
    | cons y w =>
        obtain ⟨rfl, -⟩ : x = y ∧ _ := by simpa using hw
        simp at hcount

theorem not_of_mem_splitOnP {p : α → Bool} {t w : List α} (hw : w ∈ t.splitOnP p) :
    ∀ c ∈ w, p c = false := by
  induction t generalizing w with
  | nil =>
      obtain rfl : w = [] := by simpa using hw
      simp
  | cons a t ih =>
      rw [List.splitOnP_cons_eq_if_modifyHead] at hw
      split at hw
      · rcases List.mem_cons.mp hw with rfl | hw
        · simp
        · exact ih hw
      · rename_i ha
        obtain ⟨b, rest, hsplit⟩ := List.exists_cons_of_ne_nil (List.splitOnP_ne_nil p t)
        rw [hsplit, List.modifyHead_cons] at hw
        rcases List.mem_cons.mp hw with rfl | hw
        · intro c hc
          rcases List.mem_cons.mp hc with rfl | hc
          · simpa using ha
          · exact ih (by rw [hsplit]; simp) c hc
        · exact ih (by rw [hsplit]; simp [hw])

theorem notMem_of_mem_splitOn [DecidableEq α] {x : α} {t w : List α} (hw : w ∈ t.splitOn x) :
    x ∉ w := by
  intro hx
  simpa using not_of_mem_splitOnP (p := (· == x)) hw x hx

theorem mem_of_mem_splitOn [DecidableEq α] {x c : α} {t w : List α} (hw : w ∈ t.splitOn x)
    (hc : c ∈ w) : c ∈ t := by
  have hmem : ∀ pieces : List (List α), w ∈ pieces → c ∈ [x].intercalate pieces := by
    intro pieces hpieces
    induction pieces with
    | nil => cases hpieces
    | cons piece rest ih =>
        rcases List.mem_cons.mp hpieces with rfl | hrest
        · cases rest with
          | nil => simpa using hc
          | cons => simp [List.intercalate_cons_cons, hc]
        · obtain ⟨first, others, rfl⟩ := List.exists_cons_of_ne_nil (List.ne_nil_of_mem hrest)
          rw [List.intercalate_cons_cons]
          exact List.mem_append_right _ (ih hrest)
  have hjoined := hmem _ hw
  rwa [List.intercalate_splitOn] at hjoined

theorem splitOn_intercalate_of_subset [DecidableEq α] {x : α} {t : List α} {pieces : List (List α)}
    (hsub : ∀ w ∈ pieces, w ∈ t.splitOn x) (hne : pieces ≠ []) :
    ([x].intercalate pieces).splitOn x = pieces :=
  List.splitOn_intercalate x (fun w hw => notMem_of_mem_splitOn (hsub w hw)) hne

/-- Two adjacent pieces are what stands on the two sides of one separator. -/
theorem exists_of_adjacent_pieces [DecidableEq α] {x : α} {t a b : List α} {i : Nat}
    (ha : (t.splitOn x)[i]? = some a) (hb : (t.splitOn x)[i + 1]? = some b) :
    ∃ u v, t = u ++ x :: v ∧ (u.splitOn x).getLast? = some a ∧ (v.splitOn x).head? = some b := by
  set pieces := t.splitOn x with hpieces
  have hlen : i + 1 < pieces.length := (List.getElem?_eq_some_iff.mp hb).1
  have hl : pieces.take (i + 1) ≠ [] := by
    rw [Ne, List.take_eq_nil_iff]
    rintro (h | h)
    · omega
    · simp [h] at hlen
  have hr : pieces.drop (i + 1) ≠ [] := by
    simpa using hlen
  refine ⟨[x].intercalate (pieces.take (i + 1)), [x].intercalate (pieces.drop (i + 1)), ?_, ?_, ?_⟩
  · rw [← intercalate_append x hl hr, List.take_append_drop, hpieces, List.intercalate_splitOn]
  · rw [splitOn_intercalate_of_subset (t := t) (fun w hw => List.mem_of_mem_take hw) hl,
      List.getLast?_take, if_neg (by omega), Nat.add_sub_cancel, ha]
    rfl
  · rw [splitOn_intercalate_of_subset (t := t) (fun w hw => List.mem_of_mem_drop hw) hr,
      List.head?_drop, hb]

/-! ### Where the fields are cut

A record is read as a header, two fields and a last piece. Both readings below are of one list of
pieces; the second one's header may be longer. -/

section Cut

variable {β : Type*} {T : β → β → Prop}

theorem getElem?_field {header field rest : List β} {i : Nat} (hi : i < field.length) :
    (header ++ field ++ rest)[header.length + i]? = field[i]? := by
  rw [List.append_assoc, List.getElem?_append_right (by omega), Nat.add_sub_cancel_left,
    List.getElem?_append_left hi]

theorem getElem?_before_field {header field rest : List β} (hheader : header ≠ []) :
    (header ++ field ++ rest)[header.length - 1]? = header.getLast? := by
  have hpos := List.length_pos_iff.mpr hheader
  rw [List.append_assoc, List.getElem?_append_left (by omega), List.getLast?_eq_getElem?]

theorem getElem?_start_field {header field rest : List β} (hfield : field ≠ []) :
    (header ++ field ++ rest)[header.length]? = field.head? := by
  calc
    (header ++ field ++ rest)[header.length]? = (header ++ field ++ rest)[header.length + 0]? := rfl
    _ = field[0]? := getElem?_field (List.length_pos_iff.mpr hfield)
    _ = field.head? := List.head?_eq_getElem?.symm

/-- A cut inside a field whose inner cuts are loose is loose. -/
theorem loose_of_field {header field rest : List β}
    (hloose : ∀ i a b, field[i]? = some a → field[i + 1]? = some b → ¬T a b) {i : Nat} {a b : β}
    (hi : header.length ≤ i) (hi' : i + 1 < header.length + field.length)
    (ha : (header ++ field ++ rest)[i]? = some a)
    (hb : (header ++ field ++ rest)[i + 1]? = some b) : ¬T a b := by
  obtain ⟨j, rfl⟩ := Nat.exists_eq_add_of_le hi
  rw [getElem?_field (by omega)] at ha
  rw [Nat.add_assoc, getElem?_field (by omega)] at hb
  exact hloose j a b ha hb

/-- There is a tight cut right before a field that is tight against what it follows. -/
theorem exists_tight_before {header field : List β} (rest : List β) (hheader : header ≠ [])
    (hfield : field ≠ [])
    (htight : ∀ a b, header.getLast? = some a → field.head? = some b → T a b) :
    ∃ i a b, i + 1 = header.length ∧ (header ++ field ++ rest)[i]? = some a ∧
      (header ++ field ++ rest)[i + 1]? = some b ∧ T a b := by
  have hsucc : header.length - 1 + 1 = header.length :=
    Nat.sub_add_cancel (List.length_pos_iff.mpr hheader)
  have ha : header.getLast? = some (header.getLast hheader) := List.getLast?_eq_some_getLast hheader
  have hb : field.head? = some (field.head hfield) := List.head?_eq_some_head hfield
  refine ⟨header.length - 1, _, _, hsucc, ?_, ?_, htight _ _ ha hb⟩
  · rw [getElem?_before_field hheader, ha]
  · rw [hsucc, getElem?_start_field hfield, hb]

/-- Reading `header ++ left ++ right ++ [last]` again with a header at least as long: if the inner
cuts of `left` and `right` are all loose and the cuts around the second reading's first field are
tight, both readings cut at the same places. -/
theorem cut_unique {header left right header' left' right' : List β} {last last' : β}
    (hpieces : header ++ left ++ right ++ [last] = header' ++ left' ++ right' ++ [last'])
    (hheader : header.length ≤ header'.length)
    (hleft : ∀ i a b, left[i]? = some a → left[i + 1]? = some b → ¬T a b)
    (hright : ∀ i a b, right[i]? = some a → right[i + 1]? = some b → ¬T a b)
    (hheader0 : header' ≠ []) (hleft0 : left' ≠ []) (hright0 : right' ≠ [])
    (hfirst : ∀ a b, header'.getLast? = some a → left'.head? = some b → T a b)
    (hsecond : ∀ a b, left'.getLast? = some a → right'.head? = some b → T a b) :
    header = header' ∧ left = left' ∧ right = right' ∧ last = last' := by
  have hlen := congrArg List.length hpieces
  simp only [List.length_append, List.length_singleton] at hlen
  have hk := List.length_pos_iff.mpr hleft0
  have hr := List.length_pos_iff.mpr hright0
  have hbehind : header' ++ left' ≠ [] := by simp [hheader0]
  -- The cut between the two fields falls on the first reading's cut between its fields.
  have hmiddle : header'.length + left'.length = header.length + left.length := by
    obtain ⟨i, a, b, hi, ha, hb, htight⟩ :=
      exists_tight_before [last'] hbehind hright0 fun a b hlast => by
        rw [List.getLast?_append_of_ne_nil _ hleft0] at hlast
        exact hsecond a b hlast
    rw [List.length_append] at hi
    rw [← hpieces] at ha hb
    by_contra hne
    by_cases hlt : header'.length + left'.length < header.length + left.length
    · rw [List.append_assoc] at ha hb
      exact loose_of_field hleft (by omega) (by omega) ha hb htight
    · refine loose_of_field hright ?_ ?_ ha hb htight
      · rw [List.length_append]
        omega
      · rw [List.length_append]
        omega
  have hstart : header'.length = header.length := by
    obtain ⟨i, a, b, hi, ha, hb, htight⟩ :=
      exists_tight_before (right' ++ [last']) hheader0 hleft0 hfirst
    rw [← List.append_assoc, ← hpieces, List.append_assoc] at ha hb
    by_contra hne
    exact loose_of_field hleft (by omega) (by omega) ha hb htight
  have hcut := List.append_inj hpieces (by simp only [List.length_append]; omega)
  obtain ⟨houter, hright'⟩ := List.append_inj hcut.1 (by simp only [List.length_append]; omega)
  obtain ⟨hheader', hleft'⟩ := List.append_inj houter hstart.symm
  exact ⟨hheader', hleft', hright', by simpa using hcut.2⟩

end Cut

end RerankerService.Fields
