import Mathlib.Logic.Function.Basic
import RerankerService.Artifact.Manifest

/-!
# Artifact directories do not collide

Percent-encoding is undone by reading the bytes back, and the bytes of a text determine it. The
encoded name holds unreserved characters and `%` only, so it is one component of a path.
-/

namespace RerankerService

open Files

/-! ### Reading the bytes of a quoted text back -/

/-- The value of an uppercase hexadecimal digit. -/
def hexValue (c : Char) : Nat :=
  if c.isDigit then c.toNat - '0'.toNat else c.toNat - 'A'.toNat + 10

def unquote : Text → List UInt8
  | '%' :: high :: low :: rest => UInt8.ofNat (hexValue high * 16 + hexValue low) :: unquote rest
  | c :: rest => UInt8.ofNat c.toNat :: unquote rest
  | [] => []

theorem hexValue_digit : ∀ n < 16, hexValue (Nat.digitChar n).toUpper = n := by
  decide

theorem unquote_percent (byte : UInt8) (rest : Text) :
    unquote (percent byte ++ rest) = byte :: unquote rest := by
  have hbyte : byte.toNat < 256 := byte.toNat_lt
  have hhigh := hexValue_digit (byte.toNat / 16) (by omega)
  have hlow := hexValue_digit (byte.toNat % 16) (by omega)
  have hvalue : byte.toNat / 16 * 16 + byte.toNat % 16 = byte.toNat := by omega
  rw [percent, List.cons_append, List.cons_append, List.cons_append, List.nil_append, unquote,
    hhigh, hlow, hvalue, UInt8.ofNat_toNat]

theorem unquote_flatMap_percent (bytes : List UInt8) (rest : Text) :
    unquote (bytes.flatMap percent ++ rest) = bytes ++ unquote rest := by
  induction bytes with
  | nil => rfl
  | cons byte bytes ih =>
      rw [List.flatMap_cons, List.append_assoc, unquote_percent, ih, List.cons_append]

theorem unquote_of_ne_percent {c : Char} (hc : c ≠ '%') (rest : Text) :
    unquote (c :: rest) = UInt8.ofNat c.toNat :: unquote rest := by
  rw [unquote]
  rintro high low others rfl
  exact absurd rfl hc

theorem toNat_lt_of_isAlphanum {c : Char} (hc : c.isAlphanum = true) : c.toNat < 128 := by
  rcases Bool.or_eq_true_iff.mp (show (c.isAlpha || c.isDigit) = true from hc) with hletter | hdigit
  · rcases Bool.or_eq_true_iff.mp (show (c.isUpper || c.isLower) = true from hletter) with
      hupper | hlower
    · have hbounds : c.val ≥ 'A'.val ∧ c.val ≤ 'Z'.val := of_decide_eq_true hupper
      exact Nat.lt_of_le_of_lt (UInt32.le_iff_toNat_le.mp hbounds.2) (by decide)
    · have hbounds : (decide (c.val ≥ 'a'.val) && decide (c.val ≤ 'z'.val)) = true := hlower
      rw [Bool.and_eq_true, decide_eq_true_eq, decide_eq_true_eq] at hbounds
      exact Nat.lt_of_le_of_lt (UInt32.le_iff_toNat_le.mp hbounds.2) (by decide)
  · have hbounds : (decide (c.val ≥ '0'.val) && decide (c.val ≤ '9'.val)) = true := hdigit
    rw [Bool.and_eq_true, decide_eq_true_eq, decide_eq_true_eq] at hbounds
    exact Nat.lt_of_le_of_lt (UInt32.le_iff_toNat_le.mp hbounds.2) (by decide)

theorem toNat_lt_of_isUnreserved {c : Char} (hc : isUnreserved c = true) : c.toNat < 128 := by
  simp only [isUnreserved, Bool.or_eq_true, beq_iff_eq] at hc
  rcases hc with (((hc | rfl) | rfl) | rfl) | rfl
  · exact toNat_lt_of_isAlphanum hc
  · decide
  · decide
  · decide
  · decide

theorem utf8EncodeChar_of_isUnreserved {c : Char} (hc : isUnreserved c = true) :
    String.utf8EncodeChar c = [UInt8.ofNat c.toNat] := by
  have hascii := toNat_lt_of_isUnreserved hc
  rw [String.utf8EncodeChar, if_pos (by exact Nat.le_of_lt_succ hascii)]
  rfl

/-- **Quoting loses no byte.** -/
theorem unquote_quote (text : Text) : unquote (quote text) = text.flatMap String.utf8EncodeChar := by
  induction text with
  | nil => rfl
  | cons c rest ih =>
      have hquote : quote (c :: rest) = (if isUnreserved c then [c] else
        (String.utf8EncodeChar c).flatMap percent) ++ quote rest := List.flatMap_cons
      rw [hquote, List.flatMap_cons]
      split
      · rename_i hc
        have hne : c ≠ '%' := by
          rintro rfl
          cases hc
        rw [List.singleton_append, unquote_of_ne_percent hne, ih, utf8EncodeChar_of_isUnreserved hc,
          List.singleton_append]
      · rw [unquote_flatMap_percent, ih]

theorem flatMap_utf8EncodeChar_injective :
    Function.Injective fun text : Text => text.flatMap String.utf8EncodeChar := by
  intro text text' hbytes
  have hencoded : text.utf8Encode = text'.utf8Encode := congrArg List.toByteArray hbytes
  have hdecoded := congrArg ByteArray.utf8Decode? hencoded
  rw [List.utf8Decode?_utf8Encode, List.utf8Decode?_utf8Encode, Option.some.injEq] at hdecoded
  exact congrArg Array.toList hdecoded

theorem quote_injective : Function.Injective quote := by
  intro text text' hquote
  apply flatMap_utf8EncodeChar_injective
  change text.flatMap String.utf8EncodeChar = text'.flatMap String.utf8EncodeChar
  rw [← unquote_quote, ← unquote_quote, hquote]

/-! ### The components of a directory -/

/-- One component of a path, and no way out of its parent. -/
structure IsComponent (text : Text) : Prop where
  ne_nil : text ≠ []
  ne_dot : text ≠ ['.']
  ne_parent : text ≠ ['.', '.']
  no_slash : '/' ∉ text
  no_backslash : '\\' ∉ text

/-- Joined to a directory it is read back as itself. -/
theorem IsComponent.relativePath {text : Text} (h : IsComponent text) :
    relativePath text = [.name text] := by
  have hparts : pathParts text = [text] := by
    rw [pathParts, List.splitOn_eq_singleton h.no_slash]
    simp [h.ne_nil, h.ne_dot]
  rw [RerankerService.relativePath, hparts, List.map_singleton, if_neg h.ne_parent]

theorem isUnreserved_digit : ∀ n < 16, isUnreserved (Nat.digitChar n).toUpper = true := by
  decide

theorem isUnreserved_of_mem_quote {text : Text} {c : Char} (hc : c ∈ quote text) :
    isUnreserved c = true ∨ c = '%' := by
  obtain ⟨d, -, hd⟩ := List.mem_flatMap.mp hc
  split at hd
  · rename_i hunreserved
    rw [List.mem_singleton.mp hd]
    exact .inl hunreserved
  · obtain ⟨byte, -, hbyte⟩ := List.mem_flatMap.mp hd
    have hlt : byte.toNat < 256 := byte.toNat_lt
    simp only [percent, List.mem_cons, List.not_mem_nil, or_false] at hbyte
    rcases hbyte with rfl | rfl | rfl
    · exact .inr rfl
    · exact .inl (isUnreserved_digit _ (by omega))
    · exact .inl (isUnreserved_digit _ (by omega))

theorem isComponent_of_safe {modelId name : Text}
    (h : safeModelDirectoryName modelId = .ok name) : name = quote modelId ∧ IsComponent name := by
  unfold safeModelDirectoryName at h
  split at h
  · cases h
  split at h
  · cases h
  · rename_i hsafe
    obtain rfl := Except.ok.inj h
    rw [not_or, not_or] at hsafe
    refine ⟨rfl, hsafe.1, hsafe.2.1, hsafe.2.2, fun hslash => ?_, fun hbackslash => ?_⟩
    · rcases isUnreserved_of_mem_quote hslash with h | h <;> cases h
    · rcases isUnreserved_of_mem_quote hbackslash with h | h <;> cases h

theorem isComponent_revision {revision : Text} (h : isFullRevision revision = true) :
    IsComponent revision := by
  simp only [isFullRevision, Bool.and_eq_true, beq_iff_eq, List.all_eq_true] at h
  obtain ⟨hlength, hall⟩ := h
  refine ⟨?_, ?_, ?_, fun hslash => ?_, fun hbackslash => ?_⟩
  · rintro rfl
    cases hlength
  · rintro rfl
    cases hlength
  · rintro rfl
    cases hlength
  · cases hall _ hslash
  · cases hall _ hbackslash

theorem isComponent_backend (backend : ArtifactBackend) : IsComponent backend.text := by
  cases backend
  constructor <;> decide

theorem isComponent_precision (precision : Precision) : IsComponent precision.text := by
  cases precision <;> constructor <;> decide

/-- The parts of an artifact directory under its root. -/
theorem artifactDirectory_eq_ok {root target : Path Text} {modelId revision : Text}
    {backend : ArtifactBackend} {precision : Precision}
    (h : artifactDirectory root modelId revision backend precision = .ok target) :
    isFullRevision revision = true ∧ IsComponent (quote modelId) ∧
      target = root ++ [.name (quote modelId), .name revision, .name backend.text,
        .name precision.text] := by
  unfold artifactDirectory at h
  split at h
  · cases h
  · rename_i hrevision
    cases hname : safeModelDirectoryName modelId with
    | error error =>
        rw [hname] at h
        cases h
    | ok name =>
        obtain ⟨rfl, hcomponent⟩ := isComponent_of_safe hname
        rw [hname] at h
        exact ⟨Bool.not_eq_false _ ▸ hrevision, hcomponent, (Except.ok.inj h).symm⟩

/-- **Artifact addressing is injective and confined.** -/
theorem artifactDirectory_injective {root target target' : Path Text}
    {modelId modelId' revision revision' : Text} {backend backend' : ArtifactBackend}
    {precision precision' : Precision}
    (h : artifactDirectory root modelId revision backend precision = .ok target)
    (h' : artifactDirectory root modelId' revision' backend' precision' = .ok target') :
    (∃ components : List Text, components.length = 4 ∧
      target = root ++ components.map Component.name ∧
      ∀ component ∈ components, IsComponent component ∧
        relativePath component = [.name component]) ∧
    (target <+: target' → modelId = modelId' ∧ revision = revision' ∧ backend = backend' ∧
      precision = precision') := by
  obtain ⟨hrevision, hquote, htarget⟩ := artifactDirectory_eq_ok h
  obtain ⟨-, -, htarget'⟩ := artifactDirectory_eq_ok h'
  refine ⟨⟨[quote modelId, revision, backend.text, precision.text], rfl, htarget, ?_⟩, ?_⟩
  · have hcomponents : ∀ component ∈ [quote modelId, revision, backend.text, precision.text],
        IsComponent component := by
      intro component hmem
      simp only [List.mem_cons, List.not_mem_nil, or_false] at hmem
      rcases hmem with rfl | rfl | rfl | rfl
      · exact hquote
      · exact isComponent_revision hrevision
      · exact isComponent_backend backend
      · exact isComponent_precision precision
    exact fun component hmem => ⟨hcomponents component hmem, (hcomponents component hmem).relativePath⟩
  · intro hinside
    have hlength : target.length = target'.length := by
      rw [htarget, htarget', List.length_append, List.length_append]
      rfl
    have heq := hinside.eq_of_length hlength
    rw [htarget, htarget', List.append_cancel_left_eq] at heq
    simp only [List.cons.injEq, Component.name.injEq, and_true] at heq
    obtain ⟨hname, hsame, -, hprecision⟩ := heq
    cases backend
    cases backend'
    exact ⟨quote_injective hname, hsame, rfl, Precision.text_injective hprecision⟩

/-- The directories of one model in both precisions. -/
theorem artifactDirectory_injective_slash :
    let revision := List.replicate 40 'a'
    let directory precision := [Component.name "BAAI%2Fbge".toList, .name revision,
      .name "onnx_pairwise".toList, .name (Precision.text precision)]
    artifactDirectory [] "BAAI/bge".toList revision .onnxPairwise .fp32 = .ok (directory .fp32) ∧
      artifactDirectory [] "BAAI/bge".toList revision .onnxPairwise .fp16 = .ok (directory .fp16) ∧
      ¬directory .fp32 <+: directory .fp16 := by
  intro revision directory
  have hfirst : artifactDirectory [] "BAAI/bge".toList revision .onnxPairwise .fp32 =
      .ok (directory .fp32) := rfl
  have hsecond : artifactDirectory [] "BAAI/bge".toList revision .onnxPairwise .fp16 =
      .ok (directory .fp16) := rfl
  refine ⟨hfirst, hsecond, fun hinside => ?_⟩
  obtain ⟨-, -, -, hprecision⟩ := (artifactDirectory_injective hfirst hsecond).2 hinside
  cases hprecision

end RerankerService
