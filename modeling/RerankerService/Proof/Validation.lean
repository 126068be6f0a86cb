import Mathlib.Data.List.TakeDrop
import RerankerService.Foundation.Outcome
import RerankerService.Proof.Configuration

/-!
# What the validation of a request accepts

Each document is either within its limit, or cut, or rejected on the spot; the running total counts
what is kept. Without truncation an accepted text is its own prefix, so one total covers both modes.
-/

namespace RerankerService.RerankService

variable {settings : Settings} {truncate : Bool} {document : Document} {documents : List Document}
  {request : RerankRequest}

def cutDocument (settings : Settings) (document : Document) : PreparedDocument where
  document
  text := document.text.take settings.maxDocumentCharacters
  truncated := settings.maxDocumentCharacters < document.text.length

/-- The total that the loop computes when nothing is rejected. -/
def keptCharacters (settings : Settings) (documents : List Document) : Nat :=
  (documents.map fun document => min settings.maxDocumentCharacters document.text.length).sum

/-- The request breaks one of the four limits. -/
def TooLarge (settings : Settings) (request : RerankRequest) : Prop :=
  settings.maxDocuments < request.documents.length ∨
    (request.truncate = false ∧ (settings.maxQueryCharacters < request.query.length ∨
      ∃ document ∈ request.documents, settings.maxDocumentCharacters < document.text.length)) ∨
    settings.maxTotalCharacters <
      min settings.maxQueryCharacters request.query.length +
        keptCharacters settings request.documents

/-! ### One text -/

theorem prepareDocument_eq_ok (h : truncate = true ∨
    document.text.length ≤ settings.maxDocumentCharacters) :
    prepareDocument settings truncate document = .ok (cutDocument settings document) := by
  by_cases hwithin : document.text.length ≤ settings.maxDocumentCharacters
  · rw [prepareDocument, if_pos hwithin, cutDocument, List.take_of_length_le hwithin,
      decide_eq_false hwithin.not_gt]
  · rw [prepareDocument, if_neg hwithin, if_pos (h.resolve_right hwithin), cutDocument,
      decide_eq_true (Nat.not_le.mp hwithin)]

theorem prepareDocument_eq_error (htruncate : truncate = false)
    (hover : settings.maxDocumentCharacters < document.text.length) :
    prepareDocument settings truncate document =
      .error (requestTooLarge "document exceeds character limit") := by
  rw [prepareDocument, if_neg hover.not_ge, htruncate]
  rfl

theorem prepareQuery_eq_ok (h : request.truncate = true ∨
    request.query.length ≤ settings.maxQueryCharacters) :
    prepareQuery settings request = .ok (request.query.take settings.maxQueryCharacters) := by
  by_cases hwithin : request.query.length ≤ settings.maxQueryCharacters
  · rw [prepareQuery, if_pos hwithin, List.take_of_length_le hwithin]
  · rw [prepareQuery, if_neg hwithin, if_pos (h.resolve_right hwithin)]

theorem prepareQuery_eq_error (htruncate : request.truncate = false)
    (hover : settings.maxQueryCharacters < request.query.length) :
    prepareQuery settings request = .error (requestTooLarge "query exceeds character limit") := by
  rw [prepareQuery, if_neg hover.not_ge, htruncate]
  rfl

/-! ### The loop over the documents -/

theorem prepare_eq_ok (h : ∀ document ∈ documents, truncate = true ∨
    document.text.length ≤ settings.maxDocumentCharacters) (total : Nat) :
    prepare settings truncate total documents =
      .ok (documents.map (cutDocument settings), total + keptCharacters settings documents) := by
  induction documents generalizing total with
  | nil => rfl
  | cons document rest ih =>
      rw [List.forall_mem_cons] at h
      have hlength : (cutDocument settings document).text.length =
          min settings.maxDocumentCharacters document.text.length := List.length_take
      have htotal : total + keptCharacters settings (document :: rest) =
          total + min settings.maxDocumentCharacters document.text.length +
            keptCharacters settings rest := by
        rw [keptCharacters, List.map_cons, List.sum_cons, keptCharacters]
        omega
      rw [htotal, ← hlength]
      refine Outcome.bind_eq_ok.mpr ⟨_, prepareDocument_eq_ok h.1, ?_⟩
      exact Outcome.bind_eq_ok.mpr ⟨_, ih h.2 _, rfl⟩

theorem prepare_eq_error (htruncate : truncate = false)
    (hover : ∃ document ∈ documents, settings.maxDocumentCharacters < document.text.length)
    (total : Nat) :
    prepare settings truncate total documents =
      .error (requestTooLarge "document exceeds character limit") := by
  induction documents generalizing total with
  | nil =>
      obtain ⟨document, hmem, -⟩ := hover
      cases hmem
  | cons document rest ih =>
      by_cases hfirst : settings.maxDocumentCharacters < document.text.length
      · rw [prepare, prepareDocument_eq_error htruncate hfirst]
        rfl
      · obtain ⟨other, hmem, hlong⟩ := hover
        have hrest : ∃ document ∈ rest, settings.maxDocumentCharacters < document.text.length := by
          rcases List.mem_cons.mp hmem with rfl | hother
          · exact absurd hlong hfirst
          · exact ⟨other, hother, hlong⟩
        rw [prepare, prepareDocument_eq_ok (.inr (Nat.not_lt.mp hfirst))]
        have hraised := ih hrest (total + (cutDocument settings document).text.length)
        change (prepare settings truncate _ rest >>= _) = _
        rw [hraised]
        rfl

/-! ### The whole validation -/

theorem validate_of_fits (hfits : ¬TooLarge settings request) :
    validate settings request = .ok (request.query.take settings.maxQueryCharacters,
      request.documents.map (cutDocument settings)) := by
  rw [TooLarge, not_or, not_or] at hfits
  obtain ⟨hcount, htexts, htotal⟩ := hfits
  have hquery : request.truncate = true ∨ request.query.length ≤ settings.maxQueryCharacters := by
    by_contra! h
    exact htexts ⟨Bool.not_eq_true _ ▸ h.1, .inl h.2⟩
  have hdocuments : ∀ document ∈ request.documents, request.truncate = true ∨
      document.text.length ≤ settings.maxDocumentCharacters := by
    intro document hmem
    by_contra! h
    exact htexts ⟨Bool.not_eq_true _ ▸ h.1, .inr ⟨document, hmem, h.2⟩⟩
  have hlength : (request.query.take settings.maxQueryCharacters).length =
      min settings.maxQueryCharacters request.query.length := List.length_take
  rw [validate, if_neg hcount]
  refine Outcome.bind_eq_ok.mpr ⟨_, prepareQuery_eq_ok hquery, ?_⟩
  refine Outcome.bind_eq_ok.mpr ⟨_, prepare_eq_ok hdocuments _, ?_⟩
  rw [hlength]
  exact if_neg htotal

theorem validate_of_tooLarge (hover : TooLarge settings request) :
    ∃ message, validate settings request = .error (requestTooLarge message) := by
  by_cases hcount : settings.maxDocuments < request.documents.length
  · exact ⟨_, by rw [validate, if_pos hcount]; rfl⟩
  rw [validate, if_neg hcount]
  by_cases hquery : request.truncate = true ∨ request.query.length ≤ settings.maxQueryCharacters
  · rw [prepareQuery_eq_ok hquery]
    by_cases hdocuments : ∀ document ∈ request.documents, request.truncate = true ∨
        document.text.length ≤ settings.maxDocumentCharacters
    · have htotal : settings.maxTotalCharacters <
          min settings.maxQueryCharacters request.query.length +
            keptCharacters settings request.documents := by
        rcases hover with hmany | ⟨htruncate, hlong⟩ | htotal
        · exact absurd hmany hcount
        · rw [htruncate] at hquery hdocuments
          rcases hlong with hlong | ⟨document, hmem, hlong⟩
          · exact absurd hlong ((hquery.resolve_left (by decide)).not_gt)
          · exact absurd hlong (((hdocuments document hmem).resolve_left (by decide)).not_gt)
        · exact htotal
      refine ⟨"total character limit exceeded", ?_⟩
      change (prepare settings request.truncate _ request.documents >>= _) = _
      rw [prepare_eq_ok hdocuments, List.length_take]
      exact if_pos htotal
    · push Not at hdocuments
      obtain ⟨document, hmem, htruncate, hlong⟩ := hdocuments
      refine ⟨"document exceeds character limit", ?_⟩
      change (prepare settings request.truncate _ request.documents >>= _) = _
      rw [prepare_eq_error (Bool.not_eq_true _ ▸ htruncate) ⟨document, hmem, hlong⟩]
      rfl
  · rw [not_or, not_le, Bool.not_eq_true] at hquery
    refine ⟨"query exceeds character limit", ?_⟩
    rw [prepareQuery_eq_error hquery.1 hquery.2]
    rfl

/-- A document that is within its limit is unchanged; a longer one is cut, and flagged. -/
structure Prepared (settings : Settings) (prepared : PreparedDocument) : Prop where
  leading : prepared.text <+: prepared.document.text
  length : prepared.text.length =
    min prepared.document.text.length settings.maxDocumentCharacters
  unchanged : prepared.document.text.length ≤ settings.maxDocumentCharacters →
    prepared.text = prepared.document.text
  flagged : prepared.truncated = true ↔ prepared.text ≠ prepared.document.text

theorem cutDocument_prepared (settings : Settings) (document : Document) :
    Prepared settings (cutDocument settings document) where
  leading := List.take_prefix _ _
  length := by
    rw [cutDocument, List.length_take, Nat.min_comm]
  unchanged := List.take_of_length_le
  flagged := by
    have hcut : (cutDocument settings document).text =
          (cutDocument settings document).document.text ↔
        document.text.length ≤ settings.maxDocumentCharacters :=
      List.take_eq_self_iff document.text
    rw [ne_eq, not_congr hcut, not_le]
    exact decide_eq_true_iff

/-- **Validation enforces all limits and only those.** -/
theorem validate_exact (settings : Settings) (request : RerankRequest) :
    ((∃ message, validate settings request = .error (.service 413 "request_too_large" message)) ↔
      TooLarge settings request) ∧
    (¬TooLarge settings request → ∃ query prepared,
      validate settings request = .ok (query, prepared) ∧
      query <+: request.query ∧
      query.length = min request.query.length settings.maxQueryCharacters ∧
      (request.query.length ≤ settings.maxQueryCharacters → query = request.query) ∧
      prepared.map PreparedDocument.document = request.documents ∧
      (∀ document ∈ prepared, Prepared settings document) ∧
      query.length + (prepared.map fun document => document.text.length).sum ≤
        settings.maxTotalCharacters) := by
  refine ⟨⟨?_, validate_of_tooLarge⟩, fun hfits => ⟨_, _, validate_of_fits hfits, ?_⟩⟩
  · rintro ⟨message, herror⟩
    by_contra hfits
    rw [validate_of_fits hfits] at herror
    cases herror
  · refine ⟨List.take_prefix _ _, ?_, List.take_of_length_le, ?_, ?_, ?_⟩
    · rw [List.length_take, Nat.min_comm]
    · rw [List.map_map]
      exact List.map_id _
    · rw [List.forall_mem_map]
      exact fun document _ => cutDocument_prepared settings document
    · have hkept : ((request.documents.map (cutDocument settings)).map
          fun document => document.text.length) = request.documents.map fun document =>
            min settings.maxDocumentCharacters document.text.length := by
        rw [List.map_map]
        apply List.map_congr_left
        intro document _
        exact List.length_take
      rw [hkept, List.length_take]
      rw [TooLarge, not_or, not_or] at hfits
      exact Nat.not_lt.mp hfits.2.2

/-- A query within its limit and a document over its own. -/
def truncatedRequest : RerankRequest :=
  { Application.oneDocument with
    documents := [{ id := ['1'], text := "123456".toList }]
    documents_ne := List.cons_ne_nil _ _ }

theorem validate_exact_truncated :
    ∃ query prepared, validate { maxQueryCharacters := 1, maxDocumentCharacters := 4 }
        truncatedRequest = .ok (query, prepared) ∧
      query = truncatedRequest.query ∧
      prepared.map PreparedDocument.document = truncatedRequest.documents ∧
      ∀ document ∈ prepared, document.text.length =
        min document.document.text.length 4 := by
  have hfits : ¬TooLarge { maxQueryCharacters := 1, maxDocumentCharacters := 4 }
      truncatedRequest := by
    unfold TooLarge
    decide
  obtain ⟨query, prepared, hvalidate, -, -, hquery, hdocuments, hcut, -⟩ :=
    (validate_exact { maxQueryCharacters := 1, maxDocumentCharacters := 4 }
      truncatedRequest).2 hfits
  exact ⟨query, prepared, hvalidate, hquery (by decide), hdocuments,
    fun document hdocument => (hcut document hdocument).length⟩

end RerankerService.RerankService
