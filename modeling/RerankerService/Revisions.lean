import RerankerService.Foundation.Fields
import RerankerService.Settings

/-!
# Revisions

`revisions.py`, without the question to the Hub.
-/

namespace RerankerService

/-- `str.lower()` as far as revisions go, whose letters are ASCII. -/
def lower (text : Text) : Text :=
  text.map Char.toLower

def isRevisionCharacter (c : Char) : Bool :=
  c.isAlphanum || c == '.' || c == '_' || c == '/' || c == '-'

/-- `validate_revision_reference` accepts the revision. -/
def validRevisionReference (revision : Text) : Bool :=
  (revision.head?.any Char.isAlphanum) && revision.length ≤ 200 &&
    revision.all isRevisionCharacter &&
    (revision.splitOn '/').all fun part => part ≠ [] && part ≠ ['.'] && part ≠ ['.', '.']

/-- `FULL_REVISION_PATTERN`. -/
def isFullRevision (revision : Text) : Bool :=
  revision.length == 40 && revision.all fun c => c.isDigit || ('a' ≤ c && c ≤ 'f')

/-! ### Lower case -/

/-- A letter becomes a small letter, and any other character stays. -/
theorem toLower_cases (c : Char) : c.toLower = c ∨ c.toLower.isLower = true := by
  unfold Char.toLower
  split
  · rename_i hupper
    have hlow : 65 ≤ c.val.toNat := UInt32.le_iff_toNat_le.mp hupper.1
    have hhigh : c.val.toNat ≤ 90 := UInt32.le_iff_toNat_le.mp hupper.2
    have hconst : ('a'.val - 'A'.val).toNat = 32 := rfl
    right
    unfold Char.isLower
    simp only [ge_iff_le, Bool.and_eq_true, decide_eq_true_eq, UInt32.le_iff_toNat_le,
      UInt32.toNat_add, hconst]
    constructor
    · change 97 ≤ _
      omega
    · change _ ≤ 122
      omega
  · exact .inl rfl

theorem eq_of_toLower {c x : Char} (h : c.toLower = x) (hx : x.isLower = false) : c = x := by
  rcases toLower_cases c with hsame | hlower
  · exact hsame.symm.trans h
  · rw [h, hx] at hlower
    cases hlower

theorem eq_of_lower {text other : Text} (h : lower text = other)
    (hother : ∀ c ∈ other, c.isLower = false) : text = other := by
  subst h
  induction text with
  | nil => rfl
  | cons c rest ih =>
      obtain ⟨hc, hrest⟩ := List.forall_mem_cons.mp hother
      exact congrArg₂ List.cons (eq_of_toLower rfl hc) (ih hrest)

theorem isAlphanum_of_isLower {c : Char} (h : c.isLower = true) : c.isAlphanum = true := by
  change (c.isUpper || c.isLower || c.isDigit) = true
  rw [h, Bool.or_true, Bool.true_or]

theorem isRevisionCharacter_toLower {c : Char} (h : isRevisionCharacter c = true) :
    isRevisionCharacter c.toLower = true := by
  rcases toLower_cases c with hsame | hlower
  · rwa [hsame]
  · simp [isRevisionCharacter, isAlphanum_of_isLower hlower]

/-- The lower case of a well-formed reference is well formed. -/
theorem validRevisionReference_lower {revision : Text}
    (h : validRevisionReference revision = true) :
    validRevisionReference (lower revision) = true := by
  unfold validRevisionReference at *
  simp only [Bool.and_eq_true, decide_eq_true_eq] at h ⊢
  obtain ⟨⟨⟨hhead, hlength⟩, hall⟩, hparts⟩ := h
  have hsplit : (lower revision).splitOn '/' = (revision.splitOn '/').map lower :=
    Fields.splitOn_map (x := '/') (fun a ha => eq_of_toLower ha rfl) revision
  refine ⟨⟨⟨?_, by rwa [lower, List.length_map]⟩, ?_⟩, ?_⟩
  · cases revision with
    | nil => cases hhead
    | cons c rest =>
        have hletter : c.isAlphanum = true := hhead
        change c.toLower.isAlphanum = true
        rcases toLower_cases c with hsame | hlower
        · rwa [hsame]
        · exact isAlphanum_of_isLower hlower
  · rw [lower, List.all_map]
    exact List.all_eq_true.mpr fun c hc =>
      isRevisionCharacter_toLower (List.all_eq_true.mp hall c hc)
  · rw [hsplit, List.all_map]
    refine List.all_eq_true.mpr fun part hpart => ?_
    have hold := List.all_eq_true.mp hparts part hpart
    simp only [Bool.and_eq_true, decide_eq_true_eq, Function.comp] at hold ⊢
    exact ⟨⟨fun hnil => hold.1.1 (List.map_eq_nil_iff.mp hnil),
      fun hdot => hold.1.2 (eq_of_lower hdot (by simp))⟩,
      fun hdots => hold.2 (eq_of_lower hdots (by simp))⟩

end RerankerService
