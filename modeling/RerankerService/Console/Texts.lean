import Mathlib.Data.Countable.Defs
import Mathlib.Data.List.Nodup
import Mathlib.Data.Rat.Encodable
import Mathlib.Logic.Equiv.List
import RerankerService.Console.Storage

/-!
# JSON with given texts

The laws of `JsonLibrary` can be met by a library that has the right texts for some values: other
values are written as blanks, as many as there are values before.
-/

namespace RerankerService.Console

noncomputable section

open Classical

instance countableUnit : Countable UInt16 :=
  Function.Injective.countable (f := UInt16.toNat) fun _ _ => UInt16.toNat_inj.mp

def valueCode : Value → Option (Option (Option Rat))
  | .nan => none
  | .negInf => some none
  | .posInf => some (some none)
  | .finite value => some (some (some value))

theorem valueCode_injective : Function.Injective valueCode := by
  intro v w h
  cases v <;> cases w <;> simp_all [valueCode]

instance countableValue : Countable Value :=
  valueCode_injective.countable

def blank : UInt16 := unit ' '

def blankText (v : JsonValue) : JsString :=
  List.replicate ((exists_injective_nat JsonValue).choose v + 1) blank

theorem blankText_inj {v w : JsonValue} (h : blankText v = blankText w) : v = w := by
  have hlength := congrArg List.length h
  rw [blankText, blankText, List.length_replicate, List.length_replicate] at hlength
  exact (exists_injective_nat JsonValue).choose_spec (Nat.succ.inj hlength)

/-- Values with their texts, which are not blank. -/
structure Texts where
  entries : List (JsonValue × JsString)
  distinct : (entries.map Prod.snd).Nodup
  nonblank : ∀ p ∈ entries, ∃ c ∈ p.2.head?, c ≠ blank

namespace Texts

variable (texts : Texts)

def text? (v : JsonValue) : Option JsString :=
  (texts.entries.find? fun p => p.1 = v).map Prod.snd

def text (v : JsonValue) : JsString :=
  (texts.text? v).getD (blankText v)

variable {texts} {v w : JsonValue} {s : JsString}

theorem exists_of_text?_eq_some (h : texts.text? v = some s) : (v, s) ∈ texts.entries := by
  obtain ⟨p, hp, rfl⟩ := Option.map_eq_some_iff.mp h
  have hvalue : p.1 = v := by simpa using List.find?_some hp
  exact hvalue ▸ List.mem_of_find?_eq_some hp

theorem text_ne_nil (v : JsonValue) : texts.text v ≠ [] := by
  unfold text
  cases h : texts.text? v with
  | none => simp [blankText]
  | some s =>
      obtain ⟨c, hc, -⟩ := texts.nonblank _ (exists_of_text?_eq_some h)
      rintro rfl
      cases hc

theorem blankText_ne (h : texts.text? w = some s) (v : JsonValue) : blankText v ≠ s := by
  rintro rfl
  obtain ⟨c, hc, hne⟩ := texts.nonblank _ (exists_of_text?_eq_some h)
  exact hne (Option.some.inj hc).symm

theorem text_inj (h : texts.text v = texts.text w) : v = w := by
  unfold text at h
  cases hv : texts.text? v with
  | none =>
      cases hw : texts.text? w with
      | none =>
          rw [hv, hw] at h
          exact blankText_inj h
      | some t =>
          rw [hv, hw] at h
          exact absurd h (blankText_ne hw v)
  | some s =>
      cases hw : texts.text? w with
      | none =>
          rw [hv, hw] at h
          exact absurd h.symm (blankText_ne hv w)
      | some t =>
          rw [hv, hw] at h
          obtain rfl : s = t := h
          exact congrArg Prod.fst (List.inj_on_of_nodup_map texts.distinct
            (exists_of_text?_eq_some hv) (exists_of_text?_eq_some hw) rfl)

variable (texts)

/-- The library with these texts. -/
def library : JsonLibrary where
  stringify v := texts.text (v.written Value.isFinite)
  parse s :=
    if h : ∃ v : JsonValue, v.WellFormed ∧ texts.text (v.written Value.isFinite) = s then
      some (h.choose.written Value.isFinite)
    else none
  parse_wellFormed := by
    intro s v h
    split at h
    · rename_i hs
      cases h
      exact hs.choose_spec.1.written
    · cases h
  parse_nil := by
    refine dif_neg ?_
    rintro ⟨v, -, h⟩
    exact text_ne_nil _ h
  parse_stringify := by
    intro v hv
    have hs : ∃ w : JsonValue, w.WellFormed ∧
        texts.text (w.written Value.isFinite) = texts.text (v.written Value.isFinite) :=
      ⟨v, hv, rfl⟩
    rw [dif_pos hs, text_inj hs.choose_spec.2]

variable {texts}

theorem library_parse (hv : v.WellFormed) (hplain : v.Plain Value.isFinite)
    (h : texts.text? v = some s) : texts.library.parse s = some v := by
  have hwritten := (Json.written_eq_self_iff v).mpr hplain
  have hs : texts.library.stringify v = s := by
    change texts.text (v.written Value.isFinite) = s
    rw [hwritten, text, h]
    rfl
  rw [← hs, texts.library.parse_stringify hv, hwritten]

end Texts

end

end RerankerService.Console
