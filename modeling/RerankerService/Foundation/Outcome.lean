import Mathlib.Data.List.Forall2

/-!
# Computations that return or raise

What is known when a computation in `Except` has returned.
-/

namespace RerankerService.Outcome

open List (Forall₂)

variable {ε ε' α β σ : Type}

theorem bind_eq_ok {x : Except ε α} {f : α → Except ε β} {b : β} :
    x >>= f = .ok b ↔ ∃ a, x = .ok a ∧ f a = .ok b := by
  cases x with
  | error error =>
      constructor
      · intro h
        cases h
      · rintro ⟨a, h, -⟩
        cases h
  | ok a =>
      constructor
      · intro h
        exact ⟨a, rfl, h⟩
      · rintro ⟨a', h, hf⟩
        cases h
        exact hf

theorem mapError_eq_ok {x : Except ε α} {f : ε → ε'} {a : α} :
    x.mapError f = .ok a ↔ x = .ok a := by
  cases x with
  | error error => simp [Except.mapError]
  | ok a' => simp [Except.mapError]

theorem toOption_map_eq_some {x : Except ε α} {f : α → β} {b : β} :
    x.toOption.map f = some b ↔ ∃ a, x = .ok a ∧ f a = b := by
  cases x with
  | error error => simp [Except.toOption]
  | ok a => simp [Except.toOption]

theorem mapM_eq_ok {f : α → Except ε β} {l : List α} {bs : List β} :
    l.mapM f = .ok bs ↔ Forall₂ (fun a b => f a = .ok b) l bs := by
  induction l generalizing bs with
  | nil =>
      rw [List.mapM_nil, List.forall₂_nil_left_iff]
      exact ⟨fun h => (Except.ok.inj h).symm, fun h => h ▸ rfl⟩
  | cons a rest ih =>
      rw [List.mapM_cons, bind_eq_ok, List.forall₂_cons_left_iff]
      constructor
      · rintro ⟨b, hb, h⟩
        obtain ⟨others, hothers, h⟩ := bind_eq_ok.mp h
        exact ⟨b, others, hb, ih.mp hothers, (Except.ok.inj h).symm⟩
      · rintro ⟨b, others, hb, hothers, rfl⟩
        exact ⟨b, hb, bind_eq_ok.mpr ⟨others, ih.mpr hothers, rfl⟩⟩

theorem mapM_of_forall {R : α → β → Prop} {f : α → Except ε β} {l : List α}
    (h : ∀ a ∈ l, ∃ b, f a = .ok b ∧ R a b) : ∃ bs, l.mapM f = .ok bs ∧ Forall₂ R l bs := by
  induction l with
  | nil => exact ⟨[], rfl, .nil⟩
  | cons a rest ih =>
      obtain ⟨b, hb, hR⟩ := h a List.mem_cons_self
      obtain ⟨bs, hbs, hrest⟩ := ih fun x hx => h x (List.mem_cons_of_mem a hx)
      refine ⟨b :: bs, ?_, .cons hR hrest⟩
      rw [List.mapM_cons, hb, hbs]
      rfl

theorem forall₂_mem_right {R : α → β → Prop} {l : List α} {bs : List β} (h : Forall₂ R l bs)
    {b : β} (hb : b ∈ bs) : ∃ a ∈ l, R a b := by
  induction h with
  | nil => cases hb
  | cons hR _ ih =>
      rcases List.mem_cons.mp hb with rfl | hmem
      · exact ⟨_, List.mem_cons_self, hR⟩
      · obtain ⟨a, ha, hR'⟩ := ih hmem
        exact ⟨a, List.mem_cons_of_mem _ ha, hR'⟩

theorem forall₂_forall_iff {R : α → β → Prop} {P : α → Prop} {Q : β → Prop} {l : List α}
    {bs : List β} (h : Forall₂ R l bs) (hR : ∀ a b, R a b → (P a ↔ Q b)) :
    (∀ a ∈ l, P a) ↔ ∀ b ∈ bs, Q b := by
  induction h with
  | nil => exact ⟨fun _ => nofun, fun _ => nofun⟩
  | cons hhead _ ih => rw [List.forall_mem_cons, List.forall_mem_cons, hR _ _ hhead, ih]

theorem forall₂_map_eq {R : α → β → Prop} {f : α → σ} {g : β → σ} {l : List α} {bs : List β}
    (h : Forall₂ R l bs) (hR : ∀ a b, R a b → g b = f a) : bs.map g = l.map f := by
  induction h with
  | nil => rfl
  | cons hhead _ ih => rw [List.map_cons, List.map_cons, hR _ _ hhead, ih]

theorem mapM_eq_error {f : α → Except ε β} {l : List α} {error : ε}
    (hraised : ∃ a ∈ l, f a = .error error)
    (hothers : ∀ a ∈ l, ∀ error', f a = .error error' → error' = error) :
    l.mapM f = .error error := by
  induction l with
  | nil =>
      obtain ⟨a, ha, -⟩ := hraised
      cases ha
  | cons a rest ih =>
      rw [List.mapM_cons]
      cases hfirst : f a with
      | error error' =>
          obtain rfl := hothers a List.mem_cons_self error' hfirst
          rfl
      | ok b =>
          obtain ⟨a', ha', herror⟩ := hraised
          rcases List.mem_cons.mp ha' with rfl | hrest
          · rw [hfirst] at herror
            cases herror
          · have htail := ih ⟨a', hrest, herror⟩ fun x hx => hothers x (List.mem_cons_of_mem a hx)
            rw [htail]
            rfl

theorem foldlM_ok {P : σ → Prop} {f : σ → α → Except ε σ}
    (hstep : ∀ s a s', P s → f s a = .ok s' → P s') {l : List α} {s s' : σ} (hs : P s)
    (h : l.foldlM f s = .ok s') : P s' := by
  induction l generalizing s with
  | nil =>
      obtain rfl : s = s' := Except.ok.inj h
      exact hs
  | cons a rest ih =>
      rw [List.foldlM_cons, bind_eq_ok] at h
      obtain ⟨next, hnext, hrest⟩ := h
      exact ih (hstep s a next hs hnext) hrest

theorem foldlM_ok_mono {f g : σ → α → Except ε σ}
    (hstep : ∀ s a s', f s a = .ok s' → g s a = .ok s') {l : List α} {s s' : σ}
    (h : l.foldlM f s = .ok s') : l.foldlM g s = .ok s' := by
  induction l generalizing s with
  | nil => exact h
  | cons a rest ih =>
      rw [List.foldlM_cons, bind_eq_ok] at h ⊢
      obtain ⟨next, hnext, hrest⟩ := h
      exact ⟨next, hstep s a next hnext, ih hrest⟩

end RerankerService.Outcome
