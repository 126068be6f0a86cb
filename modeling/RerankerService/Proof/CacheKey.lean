import RerankerService.Cache

/-!
# What a cache key determines

The payload joins its fields with NUL, and normalisation keeps a NUL that stands in a text. A NUL
inside a query or a document is told apart from a field boundary only by a space next to it: a
normalised text neither starts nor ends with one. `separates_iff` makes that exact.
-/

namespace RerankerService.ScoreCache

open Words Fields

/-- What the argument uses of NFKC and of SHA-256: U+0000 is inert under normalisation, ASCII text
and text whose words are joined by single spaces stay as they are, and digests do not collide. -/
structure Primitives.Lawful (prims : Primitives) : Prop where
  sha256_injective : Function.Injective prims.sha256
  nfkc_append_nul : ∀ u v, prims.nfkc (u ++ nul :: v) = prims.nfkc u ++ nul :: prims.nfkc v
  count_nul_nfkc : ∀ u, (prims.nfkc u).count nul = u.count nul
  nfkc_ascii : ∀ u : Text, (∀ c ∈ u, c.toNat < 128) → prims.nfkc u = u
  nfkc_normalizeText : ∀ u, prims.nfkc (normalizeText prims u) = normalizeText prims u

structure SameConfiguration (settings settings' : Settings) : Prop where
  model : settings.model = settings'.model
  modelRevision : settings.modelRevision = settings'.modelRevision
  backend : settings.backend = settings'.backend
  precision : settings.precision = settings'.precision
  maxLength : settings.maxLength = settings'.maxLength

/-- The key of these inputs is the key of no others: whatever accepted inputs have it agree in
configuration and normalised texts. -/
def Separates (prims : Primitives) (settings : Settings) (query document : Text) : Prop :=
  ∀ (settings' : Settings) (query' document' : Text), query' ≠ [] → document' ≠ [] →
    key prims settings' query' document' = key prims settings query document →
      SameConfiguration settings' settings ∧
      normalizeText prims query' = normalizeText prims query ∧
      normalizeText prims document' = normalizeText prims document

def Distinct (prims : Primitives) (settings : Settings) (pair : Pair) : Prop :=
  ∀ (settings' : Settings) (query' document' : Text),
    key prims settings' query' document' = key prims settings pair.1 pair.2 →
      SameConfiguration settings' settings ∧
      normalizeText prims query' = normalizeText prims pair.1 ∧
      normalizeText prims document' = normalizeText prims pair.2

/-- Every NUL of the text has a space directly before or after it. -/
def Delimited (t : Text) : Prop :=
  ∀ u v, t = u ++ nul :: v → u.getLast? = some ' ' ∨ v.head? = some ' '

/-- A cut between two pieces with no space next to it. -/
def Tight (a b : Text) : Prop := a.getLast? ≠ some ' ' ∧ b.head? ≠ some ' '

variable {prims : Primitives} {settings settings' : Settings} {query document : Text}

theorem isSpace_space : isSpace ' ' = true := by decide

theorem isSpace_nul : isSpace nul = false := by decide

theorem collapsed_normalizeText (prims : Primitives) (value : Text) :
    Collapsed isSpace ' ' (normalizeText prims value) :=
  collapsed_collapse isSpace_space _

theorem notMem_nul_decimal (value : Nat) : nul ∉ decimal value := by
  intro h
  exact absurd (isDigit_of_mem_decimal h) (by decide)

theorem notMem_nul_backend (backend : BackendName) : nul ∉ backend.text := by
  cases backend <;> decide

theorem notMem_nul_precision (precision : Precision) : nul ∉ precision.text := by
  cases precision <;> decide

theorem getLast?_precision (precision : Precision) : precision.text.getLast? ≠ some ' ' := by
  cases precision <;> decide

theorem splitOn_payload (prims : Primitives) (settings : Settings) (query document : Text) :
    (payload prims settings query document).splitOn nul =
      (settings.model.splitOn nul ++ settings.modelRevision.splitOn nul ++
          [settings.backend.text, settings.precision.text]) ++
        (normalizeText prims query).splitOn nul ++ (normalizeText prims document).splitOn nul ++
        [decimal settings.maxLength] := by
  rw [payload, splitOn_intercalate_eq_flatMap nul (by simp)]
  simp only [List.flatMap_cons, List.flatMap_nil, List.append_nil,
    List.splitOn_eq_singleton (notMem_nul_backend _),
    List.splitOn_eq_singleton (notMem_nul_precision _),
    List.splitOn_eq_singleton (notMem_nul_decimal _), List.append_assoc, List.cons_append,
    List.nil_append]

theorem Delimited.not_tight {t : Text} (ht : Delimited t) (i : Nat) (a b : Text)
    (ha : (t.splitOn nul)[i]? = some a) (hb : (t.splitOn nul)[i + 1]? = some b) : ¬Tight a b := by
  obtain ⟨u, v, rfl, hu, hv⟩ := exists_of_adjacent_pieces ha hb
  rintro ⟨hlast, hhead⟩
  rcases ht u v rfl with h | h
  · exact hlast ((getLast?_getLast_splitOn_iff (by decide) hu).mpr h)
  · exact hhead ((head?_head_splitOn_iff (by decide) hv).mpr h)

theorem head?_piece_normalizeText {value p : Text}
    (hp : ((normalizeText prims value).splitOn nul).head? = some p) : p.head? ≠ some ' ' := by
  rw [Ne, head?_head_splitOn_iff (by decide) hp]
  exact (collapsed_normalizeText prims value).head_ne

theorem getLast?_piece_normalizeText {value p : Text}
    (hp : ((normalizeText prims value).splitOn nul).getLast? = some p) :
    p.getLast? ≠ some ' ' := by
  rw [Ne, getLast?_getLast_splitOn_iff (by decide) hp]
  exact (collapsed_normalizeText prims value).last_ne

theorem payload_eq_of_key_eq (hprims : Primitives.Lawful prims) {query' document' : Text}
    (hkey : key prims settings' query' document' = key prims settings query document) :
    payload prims settings' query' document' = payload prims settings query document :=
  hprims.sha256_injective (List.append_cancel_left hkey)

theorem distinct_of_delimited (hprims : Primitives.Lawful prims)
    (hmodel : nul ∉ settings.model) (hrevision : nul ∉ settings.modelRevision)
    (hquery : Delimited (normalizeText prims query))
    (hdocument : Delimited (normalizeText prims document)) :
    Distinct prims settings (query, document) := by
  intro settings' query' document' hkey
  have hpieces := congrArg (List.splitOn nul) (payload_eq_of_key_eq hprims hkey)
  rw [splitOn_payload, splitOn_payload, List.splitOn_eq_singleton hmodel,
    List.splitOn_eq_singleton hrevision] at hpieces
  have hm := length_splitOn_pos nul settings'.model
  have hr := length_splitOn_pos nul settings'.modelRevision
  have hcut := cut_unique hpieces.symm
    (by simp only [List.length_append, List.length_cons, List.length_nil]; omega)
    hquery.not_tight hdocument.not_tight (by simp) (List.splitOn_ne_nil _ _)
    (List.splitOn_ne_nil _ _)
    (by
      intro a b ha hb
      rw [List.getLast?_append] at ha
      obtain rfl : settings'.precision.text = a := by simpa using ha
      exact ⟨getLast?_precision _, head?_piece_normalizeText hb⟩)
    (fun a b ha hb => ⟨getLast?_piece_normalizeText ha, head?_piece_normalizeText hb⟩)
  obtain ⟨hheader, hq, hd, hlength⟩ := hcut
  have hlen := congrArg List.length hheader
  simp only [List.length_append, List.length_cons, List.length_nil] at hlen
  obtain ⟨m, hm'⟩ := List.length_eq_one_iff.mp (show (settings'.model.splitOn nul).length = 1 by omega)
  obtain ⟨r, hr'⟩ :=
    List.length_eq_one_iff.mp (show (settings'.modelRevision.splitOn nul).length = 1 by omega)
  rw [hm', hr'] at hheader
  simp only [List.cons_append, List.nil_append, List.cons.injEq, and_true] at hheader
  obtain ⟨rfl, rfl, hbackend, hprecision⟩ := hheader
  exact ⟨⟨eq_of_splitOn_eq_singleton hm', eq_of_splitOn_eq_singleton hr',
      (BackendName.text_injective hbackend).symm, (Precision.text_injective hprecision).symm,
      (decimal_injective hlength).symm⟩,
    (splitOn_injective nul hq).symm, (splitOn_injective nul hd).symm⟩

theorem payload_eq (prims : Primitives) (settings : Settings) (query document : Text) :
    payload prims settings query document =
      settings.model ++ nul :: (settings.modelRevision ++ nul :: (settings.backend.text ++
        nul :: (settings.precision.text ++ nul :: (normalizeText prims query ++
          nul :: (normalizeText prims document ++ nul :: decimal settings.maxLength))))) := by
  simp only [payload, List.intercalate_cons_cons, List.intercalate_singleton, List.append_assoc,
    List.singleton_append]

theorem key_eq_of_payload_eq {query' document' : Text}
    (hpayload : payload prims settings' query' document' =
      payload prims settings query document) :
    key prims settings' query' document' = key prims settings query document := by
  unfold key
  exact congrArg (fun text => "reranker:score:".toList ++ prims.sha256 text) hpayload

/-! ### Collisions

An undelimited NUL can be moved across the boundary between two fields. -/

theorem normalizeText_eq_self (hnfkc : prims.nfkc query = query)
    (hcollapsed : Collapsed isSpace ' ' query) : normalizeText prims query = query := by
  rw [normalizeText, hnfkc, hcollapsed.collapse_eq isSpace_space]

theorem normalized_sides (hprims : Primitives.Lawful prims) {value u v : Text}
    (hvalue : normalizeText prims value = u ++ nul :: v) (hu : u.getLast? ≠ some ' ')
    (hv : v.head? ≠ some ' ') :
    (prims.nfkc u = u ∧ Collapsed isSpace ' ' u) ∧ prims.nfkc v = v ∧ Collapsed isSpace ' ' v := by
  have hfixed := hprims.nfkc_normalizeText value
  have hcollapsed := collapsed_normalizeText prims value
  rw [hvalue] at hfixed hcollapsed
  rw [hprims.nfkc_append_nul] at hfixed
  obtain ⟨hfixedU, hfixedV⟩ := append_cons_inj_of_count (hprims.count_nul_nfkc u) hfixed
  obtain ⟨hcollapsedU, hcollapsedV⟩ := hcollapsed.of_append_cons hu hv
  exact ⟨⟨hfixedU, hcollapsedU⟩, hfixedV, hcollapsedV⟩

/-- Every normalised text is the normal form of an accepted one: the empty text of a single space,
any other of itself. -/
theorem exists_accepted (hprims : Primitives.Lawful prims) {t : Text} (hnfkc : prims.nfkc t = t)
    (hcollapsed : Collapsed isSpace ' ' t) :
    ∃ value, value ≠ [] ∧ normalizeText prims value = t := by
  by_cases ht : t = []
  · refine ⟨[' '], by simp, ?_⟩
    have hspace : prims.nfkc [' '] = [' '] := by
      apply hprims.nfkc_ascii
      intro c hc
      obtain rfl := List.mem_singleton.mp hc
      decide
    rw [normalizeText, hspace, ht]
    decide
  · exact ⟨t, ht, normalizeText_eq_self hnfkc hcollapsed⟩

/-- An undelimited NUL of the query starts a longer document instead. -/
theorem not_separates_of_query (hprims : Primitives.Lawful prims)
    (hquery : ¬Delimited (normalizeText prims query)) :
    ¬Separates prims settings query document := by
  intro hseparates
  simp only [Delimited, not_forall, not_or] at hquery
  obtain ⟨u, v, hsplit, hu, hv⟩ := hquery
  obtain ⟨⟨hfixedU, hcollapsedU⟩, hfixedV, hcollapsedV⟩ := normalized_sides hprims hsplit hu hv
  have hdocument := collapsed_normalizeText prims document
  obtain ⟨query', hquery0, hquery'⟩ := exists_accepted hprims hfixedU hcollapsedU
  obtain ⟨document', hdocument0, hdocument'⟩ := exists_accepted hprims
    (t := v ++ nul :: normalizeText prims document)
    (by rw [hprims.nfkc_append_nul, hfixedV, hprims.nfkc_normalizeText])
    (hcollapsedV.append_cons isSpace_space isSpace_nul hdocument)
  have hkey : key prims settings query' document' = key prims settings query document := by
    apply key_eq_of_payload_eq
    simp only [payload_eq, hquery', hdocument', hsplit, List.append_assoc, List.cons_append]
  have hsame := (hseparates settings query' document' hquery0 hdocument0 hkey).2.1
  rw [hquery', hsplit] at hsame
  simpa using congrArg List.length hsame

/-- An undelimited NUL of the document ends a longer query instead. -/
theorem not_separates_of_document (hprims : Primitives.Lawful prims)
    (hdocument : ¬Delimited (normalizeText prims document)) :
    ¬Separates prims settings query document := by
  intro hseparates
  simp only [Delimited, not_forall, not_or] at hdocument
  obtain ⟨u, v, hsplit, hu, hv⟩ := hdocument
  obtain ⟨⟨hfixedU, hcollapsedU⟩, hfixedV, hcollapsedV⟩ := normalized_sides hprims hsplit hu hv
  have hquery := collapsed_normalizeText prims query
  obtain ⟨query', hquery0, hquery'⟩ := exists_accepted hprims
    (t := normalizeText prims query ++ nul :: u)
    (by rw [hprims.nfkc_append_nul, hfixedU, hprims.nfkc_normalizeText])
    (hquery.append_cons isSpace_space isSpace_nul hcollapsedU)
  obtain ⟨document', hdocument0, hdocument'⟩ := exists_accepted hprims hfixedV hcollapsedV
  have hkey : key prims settings query' document' = key prims settings query document := by
    apply key_eq_of_payload_eq
    simp only [payload_eq, hquery', hdocument', hsplit, List.append_assoc, List.cons_append]
  have hsame := (hseparates settings query' document' hquery0 hdocument0 hkey).2.2
  rw [hdocument', hsplit] at hsame
  have hlength := congrArg List.length hsame
  simp only [List.length_append, List.length_cons] at hlength
  omega

theorem not_separates_of_model (hquery : query ≠ []) (hdocument : document ≠ [])
    (hmodel : nul ∈ settings.model) : ¬Separates prims settings query document := by
  intro hseparates
  obtain ⟨u, v, hsplit⟩ := List.append_of_mem hmodel
  have hsame := (hseparates
    { settings with model := u, modelRevision := v ++ nul :: settings.modelRevision }
    query document hquery hdocument
    (key_eq_of_payload_eq
      (by simp only [payload_eq, hsplit, List.append_assoc, List.cons_append]))).1
  have hlength := congrArg List.length hsame.model
  rw [hsplit] at hlength
  simp at hlength

theorem not_separates_of_modelRevision (hquery : query ≠ []) (hdocument : document ≠ [])
    (hrevision : nul ∈ settings.modelRevision) : ¬Separates prims settings query document := by
  intro hseparates
  obtain ⟨u, v, hsplit⟩ := List.append_of_mem hrevision
  have hsame := (hseparates
    { settings with model := settings.model ++ nul :: u, modelRevision := v }
    query document hquery hdocument
    (key_eq_of_payload_eq
      (by simp only [payload_eq, hsplit, List.append_assoc, List.cons_append]))).1
  have hlength := congrArg List.length hsame.model
  simp at hlength

/-- **What a key separates.** The key of accepted inputs belongs to no other inputs exactly when
neither the model nor the revision contains a NUL and every NUL of the two normalised texts has a
space next to it. -/
theorem separates_iff (hprims : Primitives.Lawful prims) (hquery : query ≠ [])
    (hdocument : document ≠ []) :
    Separates prims settings query document ↔
      nul ∉ settings.model ∧ nul ∉ settings.modelRevision ∧
        Delimited (normalizeText prims query) ∧ Delimited (normalizeText prims document) := by
  constructor
  · intro hseparates
    refine ⟨?_, ?_, ?_, ?_⟩
    · exact fun h => not_separates_of_model hquery hdocument h hseparates
    · exact fun h => not_separates_of_modelRevision hquery hdocument h hseparates
    · by_contra h
      exact not_separates_of_query hprims h hseparates
    · by_contra h
      exact not_separates_of_document hprims h hseparates
  · rintro ⟨hmodel, hrevision, hqueryDelimited, hdocumentDelimited⟩
    intro settings' query' document' _ _ hkey
    exact distinct_of_delimited hprims hmodel hrevision hqueryDelimited hdocumentDelimited
      settings' query' document' hkey

/-- NFKC as it acts on ASCII texts, and a digest that keeps the whole text. -/
def asciiPrimitives : Primitives where
  nfkc := id
  sha256 := id

theorem lawful_asciiPrimitives : Primitives.Lawful asciiPrimitives where
  sha256_injective := Function.injective_id
  nfkc_append_nul _ _ := rfl
  count_nul_nfkc _ := rfl
  nfkc_ascii _ _ := rfl
  nfkc_normalizeText _ := rfl

theorem separates_plain_texts : Separates asciiPrimitives {} "query".toList "document".toList := by
  refine (separates_iff lawful_asciiPrimitives (by decide) (by decide)).mpr
    ⟨by decide, by decide, ?_, ?_⟩
  · intro u v h
    exact absurd (h ▸ (by simp : nul ∈ u ++ nul :: v)) (by decide)
  · intro u v h
    exact absurd (h ▸ (by simp : nul ∈ u ++ nul :: v)) (by decide)

/-- Under one configuration, the query `a NUL b` with the document `c` has the key of the query `a`
with the document `b NUL c`. -/
theorem key_collision :
    key asciiPrimitives {} ['a', nul, 'b'] ['c'] = key asciiPrimitives {} ['a'] ['b', nul, 'c'] ∧
      normalizeText asciiPrimitives ['a', nul, 'b'] ≠ normalizeText asciiPrimitives ['a'] := by
  decide

end RerankerService.ScoreCache
