import Mathlib.Algebra.Order.Ring.Rat
import Mathlib.Data.Nat.Cast.Order.Ring
import RerankerService.Console.Import
import RerankerService.Console.Texts
import RerankerService.Foundation.Outcome

/-!
# What of the saved inputs is restored

The loader accepts a document only if its metadata is an object; the importer takes over other
metadata, too. What is written for a state and read back is the state with its metadata as it was
written, and all of it is dropped if one document's metadata is not an object.
-/

namespace RerankerService.Console

open List (Forall₂)

/-! ### Reading back what was written -/

theorem readDocument_persisted (document : PlaygroundDocument) :
    readDocument document.persisted =
      if document.metadata.isRecord then some document else none := rfl

theorem mapM_readDocument_persisted (documents : List PlaygroundDocument) :
    (documents.map PlaygroundDocument.persisted).mapM readDocument =
      if documents.all fun document => document.metadata.isRecord then some documents
      else none := by
  induction documents with
  | nil => rfl
  | cons document rest ih =>
      rw [List.map_cons, List.mapM_cons, readDocument_persisted, ih, List.all_cons]
      cases document.metadata.isRecord with
      | false => rfl
      | true =>
          cases rest.all fun document => document.metadata.isRecord with
          | false => rfl
          | true => rfl

theorem readPlaygroundState_persisted {state : PlaygroundState} (htop : validTopN state.topN = true)
    (hlength : state.documents.length ≤ 100) :
    readPlaygroundState state.persisted =
      if state.documents.all fun document => document.metadata.isRecord then some state
      else none := by
  have hread : readPlaygroundState state.persisted =
      if playgroundStorageVersion = playgroundStorageVersion ∧ validTopN state.topN then
        (((state.documents.map PlaygroundDocument.persisted).mapM readDocument).filter
          fun documents => documents.length ≤ 100).map
            fun documents => ⟨state.query, documents, state.topN⟩
      else none := rfl
  rw [hread, if_pos ⟨rfl, htop⟩, mapM_readDocument_persisted]
  split
  · rw [Option.filter_some, if_pos (decide_eq_true hlength)]
    rfl
  · rfl

/-- The document as `JSON.stringify` writes it. -/
def PlaygroundDocument.written (document : PlaygroundDocument) : PlaygroundDocument :=
  { document with metadata := document.metadata.written Value.isFinite }

def PlaygroundState.written (state : PlaygroundState) : PlaygroundState :=
  { state with documents := state.documents.map PlaygroundDocument.written }

theorem PlaygroundDocument.written_persisted (document : PlaygroundDocument) :
    document.persisted.written Value.isFinite = document.written.persisted := rfl

theorem PlaygroundState.written_persisted {state : PlaygroundState}
    (htop : state.topN.isFinite = true) :
    state.persisted.written Value.isFinite = state.written.persisted := by
  have hdocuments : (Json.array (state.documents.map PlaygroundDocument.persisted)).written
      Value.isFinite = .array (state.written.documents.map PlaygroundDocument.persisted) := by
    rw [Json.written_array, written, List.map_map, List.map_map]
    rfl
  have hnumber : (Json.number state.topN : JsonValue).written Value.isFinite =
      .number state.topN := by
    rw [Json.written, if_pos htop]
  rw [persisted, Json.written_object]
  simp only [List.map_cons, List.map_nil, hdocuments, hnumber]
  rfl

/-- What the loader rejects it rejects also as it is written. -/
theorem PlaygroundState.all_isRecord_written (state : PlaygroundState) :
    (state.written.documents.all fun document => document.metadata.isRecord) =
      state.documents.all fun document => document.metadata.isRecord := by
  rw [written, List.all_map]
  congr 1
  funext document
  exact Json.isRecord_written document.metadata

theorem PlaygroundState.persisted_wellFormed {state : PlaygroundState}
    (h : ∀ document ∈ state.documents, document.metadata.WellFormed) :
    state.persisted.WellFormed := by
  have hdocument : ∀ document ∈ state.documents, document.persisted.WellFormed := by
    intro document hmem
    refine .object (show [js "id", js "metadata", js "text"].Pairwise (· < ·) by decide) ?_
    simp only [List.forall_mem_cons]
    exact ⟨.string _, h document hmem, .string _, nofun⟩
  have hnames : [js "documents", js "query", js "top_n", js "version"].Pairwise (· < ·) := by
    decide
  refine .object hnames ?_
  simp only [List.forall_mem_cons]
  exact ⟨.array (List.forall_mem_map.mpr hdocument), .string _, .number _, .number _, nofun⟩

theorem validTopN_natCast {topN : ℕ} (h : 1 ≤ topN ∧ topN ≤ 100) :
    validTopN (.finite topN) = true := by
  have hone : (1 : ℚ) ≤ topN := by exact_mod_cast h.1
  have hhundred : (topN : ℚ) ≤ 100 := by exact_mod_cast h.2
  simp [validTopN, isInteger, Value.lt, not_lt.mpr hone, not_lt.mpr hhundred]

section Library

variable {json : JsonLibrary} {toLowerCase : JsString → JsString} {storage : LocalStorage}
  {state : PlaygroundState} {filename content : JsString}

theorem JsonLibrary.stringify_ne_nil {v : JsonValue} (h : v.WellFormed) :
    json.stringify v ≠ [] := by
  intro hnil
  have hparse := json.parse_stringify h
  rw [hnil, json.parse_nil] at hparse
  cases hparse

/-- Either the state as written comes back or all of it is dropped. -/
theorem load_save (hflag : storage.getItem playgroundRememberKey ≠ some (js "false"))
    (hnonempty : state.documents ≠ []) (hlength : state.documents.length ≤ 100)
    {topN : ℕ} (htop : 1 ≤ topN ∧ topN ≤ 100) (hstate : state.topN = .finite topN)
    (hwf : ∀ document ∈ state.documents, document.metadata.WellFormed) :
    (loadPlaygroundState json (savePlaygroundState json storage state)).1 =
      if state.documents.all fun document => document.metadata.isRecord then state.written
      else defaultPlaygroundState := by
  have hpersisted := PlaygroundState.persisted_wellFormed hwf
  have hsaved : savePlaygroundState json storage state =
      storage.setItem playgroundStorageKey (json.stringify state.persisted) :=
    if_neg fun h => hnonempty (List.length_eq_zero_iff.mp h.2.1)
  have hremember : (savePlaygroundState json storage state).getItem playgroundRememberKey ≠
      some (js "false") := by
    rwa [hsaved, LocalStorage.getItem_setItem_of_ne (by decide)]
  have hraw : ((savePlaygroundState json storage state).getItem playgroundStorageKey).filter
      (· ≠ []) = some (json.stringify state.persisted) := by
    rw [hsaved, LocalStorage.getItem_setItem, Option.filter_some,
      if_pos (decide_eq_true (JsonLibrary.stringify_ne_nil hpersisted))]
  have hfinite : state.topN.isFinite = true := by rw [hstate]; rfl
  have hvalid : validTopN state.written.topN = true := by
    rw [PlaygroundState.written, hstate]
    exact validTopN_natCast htop
  have hwritten : state.written.documents.length ≤ 100 := by
    rwa [PlaygroundState.written, List.length_map]
  have hread : ((some (json.stringify state.persisted)).bind json.parse).bind readPlaygroundState =
      if state.documents.all fun document => document.metadata.isRecord then some state.written
      else none := by
    rw [Option.bind_some, json.parse_stringify hpersisted,
      PlaygroundState.written_persisted hfinite, Option.bind_some,
      readPlaygroundState_persisted hvalid hwritten, state.all_isRecord_written]
  rw [loadPlaygroundState, if_neg hremember]
  simp only [hraw, hread]
  split <;> rfl

theorem PlaygroundState.written_eq_self_iff :
    state.written = state ↔
      ∀ document ∈ state.documents, document.metadata.Plain Value.isFinite := by
  have hdocuments : state.written = state ↔
      state.documents.map PlaygroundDocument.written = state.documents :=
    ⟨fun h => congrArg PlaygroundState.documents h, fun h => by rw [written, h]⟩
  rw [hdocuments, Json.map_eq_self_iff]
  refine forall₂_congr fun document _ => ?_
  rw [← Json.written_eq_self_iff]
  exact ⟨fun h => congrArg PlaygroundDocument.metadata h,
    fun h => by rw [PlaygroundDocument.written, h]⟩

theorem load_save_eq_self_iff (hflag : storage.getItem playgroundRememberKey ≠ some (js "false"))
    (hnonempty : state.documents ≠ []) (hlength : state.documents.length ≤ 100)
    {topN : ℕ} (htop : 1 ≤ topN ∧ topN ≤ 100) (hstate : state.topN = .finite topN)
    (hwf : ∀ document ∈ state.documents, document.metadata.WellFormed) :
    (loadPlaygroundState json (savePlaygroundState json storage state)).1 = state ↔
      ∀ document ∈ state.documents,
        document.metadata.isRecord = true ∧ document.metadata.Plain Value.isFinite := by
  rw [load_save hflag hnonempty hlength htop hstate hwf]
  by_cases hall : (state.documents.all fun document => document.metadata.isRecord) = true
  · rw [if_pos hall, PlaygroundState.written_eq_self_iff]
    exact forall₂_congr fun document hmem =>
      (and_iff_right (List.all_eq_true.mp hall document hmem)).symm
  · rw [if_neg hall]
    constructor
    · -- the inputs a new user finds have objects for metadata
      intro hdefault
      rw [← hdefault] at hall
      exact absurd rfl hall
    · intro h
      exact absurd (List.all_eq_true.mpr fun document hmem => (h document hmem).1) hall

end Library

/-! ### The metadata in a file -/

/-- The metadata that a JSON file gives for a document with text. -/
def valueMetadata (value : JsonValue) : Option JsonValue :=
  match value.get? (js "text") with
  | some (.string text) =>
      if text = [] then none else (value.get? (js "metadata")).filter isObject
  | _ => none

section Import

variable (json : JsonLibrary) (toLowerCase : JsString → JsString)

/-- The metadata that a row of a CSV file gives for a document with text. -/
def rowMetadata (columns : Columns) (row : List JsString) : Option JsonValue :=
  if cell row (some columns.textIndex) = [] ∨ cell row columns.metadataIndex = [] then none
  else json.parse (cell row columns.metadataIndex)

/-- The metadata that a file gives for the documents with text. -/
def fileMetadata (filename content : JsString) : List JsonValue :=
  let extension := afterLastDot (toLowerCase filename)
  if extension = js "json" then
    match (json.parse content).map jsonValues with
    | some (.ok values) => values.filterMap valueMetadata
    | _ => []
  else if extension = js "csv" then
    match csvColumns toLowerCase content with
    | .ok columns => columns.rows.filterMap (rowMetadata json columns)
    | .error _ => []
  else []

variable {json toLowerCase} {filename content : JsString} {P : JsonValue → Prop}

theorem jsonDocument_metadata (hempty : P emptyObject) {value : JsonValue} {index : Nat}
    {document : PlaygroundDocument} (h : jsonDocument value index = .ok document) :
    (document.text ≠ [] → P document.metadata) ↔
      ∀ metadata, valueMetadata value = some metadata → P metadata := by
  unfold jsonDocument at h
  split at h
  · cases h
    exact ⟨fun _ => nofun, fun _ _ => hempty⟩
  · split at h
    · rename_i text htext
      cases h
      rw [valueMetadata, htext]
      by_cases hnil : text = []
      · simp [hnil]
      · simp only [jsonMetadata, ne_eq, hnil, if_false, not_false_eq_true, true_implies]
        cases (value.get? (js "metadata")).filter isObject with
        | none => exact ⟨fun _ => nofun, fun _ => hempty⟩
        | some metadata =>
            exact ⟨fun h _ hmetadata => Option.some.inj hmetadata ▸ h, fun h => h metadata rfl⟩
    · cases h

theorem csvDocument_metadata (hempty : P emptyObject)
    (himported : ∀ text, P (.object [(js "imported_metadata", .string text)])) (columns : Columns)
    (row : List JsString) (index : Nat) :
    ((csvDocument json columns row index).text ≠ [] →
        P (csvDocument json columns row index).metadata) ↔
      ∀ metadata, rowMetadata json columns row = some metadata → P metadata := by
  simp only [csvDocument, rowMetadata, csvMetadata]
  by_cases htext : cell row (some columns.textIndex) = []
  · simp [htext]
  by_cases hcell : cell row columns.metadataIndex = []
  · simp [hcell, hempty]
  simp only [htext, hcell, or_self, if_false, ne_eq, not_false_eq_true, true_implies]
  cases json.parse (cell row columns.metadataIndex) with
  | none => exact ⟨fun _ => nofun, fun _ => himported _⟩
  | some metadata =>
      exact ⟨fun h _ hmetadata => Option.some.inj hmetadata ▸ h, fun h => h metadata rfl⟩

theorem forall_mem_mapIdx_iff {α β : Type} {f : ℕ → α → β} {P : β → Prop} {Q : α → Prop}
    (h : ∀ index a, P (f index a) ↔ Q a) (l : List α) :
    (∀ b ∈ l.mapIdx f, P b) ↔ ∀ a ∈ l, Q a := by
  simp only [List.mem_mapIdx, List.forall_mem_iff_forall_getElem]
  constructor
  · intro hP i hi
    exact (h i _).mp (hP _ ⟨i, hi, rfl⟩)
  · rintro hQ _ ⟨i, hi, rfl⟩
    exact (h i _).mpr (hQ i hi)

theorem fileDocuments_metadata (hempty : P emptyObject)
    (himported : ∀ text, P (.object [(js "imported_metadata", .string text)]))
    {documents : List PlaygroundDocument}
    (h : fileDocuments json toLowerCase filename content = .ok documents) :
    (∀ document ∈ documents, document.text ≠ [] → P document.metadata) ↔
      ∀ metadata ∈ fileMetadata json toLowerCase filename content, P metadata := by
  simp only [fileDocuments] at h
  simp only [fileMetadata]
  split at h
  · rw [if_pos ‹_›]
    cases hparse : json.parse content with
    | none =>
        rw [hparse] at h
        cases h
    | some parsed =>
        rw [hparse] at h
        obtain ⟨values, hvalues, h⟩ := Outcome.bind_eq_ok.mp h
        have hdocuments := Outcome.forall₂_forall_iff
          (P := fun p => ∀ metadata, valueMetadata p.1 = some metadata → P metadata)
          (Outcome.mapM_eq_ok.mp h)
          fun _ _ hdocument => (jsonDocument_metadata hempty hdocument).symm
        have hvalues' := List.forall_mem_map (f := Prod.fst) (l := values.zipIdx)
          (P := fun value => ∀ metadata, valueMetadata value = some metadata → P metadata)
        rw [List.zipIdx_map_fst] at hvalues'
        rw [← hdocuments, Option.map_some, hvalues, List.forall_mem_filterMap, hvalues']
  · rw [if_neg ‹_›]
    split at h
    · rw [if_pos ‹_›]
      obtain ⟨columns, hcolumns, h⟩ := Outcome.bind_eq_ok.mp h
      cases h
      rw [hcolumns, List.forall_mem_filterMap]
      exact forall_mem_mapIdx_iff
        (fun index row => csvDocument_metadata hempty himported columns row index) columns.rows
    · rw [if_neg ‹_›]
      cases h
      have htext := forall_mem_mapIdx_iff (f := fun index text => textDocument text index)
        (P := fun document => document.text ≠ [] → P document.metadata) (Q := fun _ => True)
        (fun _ _ => iff_of_true (fun _ => hempty) trivial) ((splitLines content).filter (· ≠ []))
      exact iff_of_true (htext.mpr fun _ _ => trivial) nofun

theorem parseDocuments_eq_ok {documents : List PlaygroundDocument}
    (h : parseDocuments json toLowerCase filename content = .ok documents) :
    ∃ all, fileDocuments json toLowerCase filename content = .ok all ∧
      documents = all.filter (fun document => 0 < document.text.length) ∧
      documents ≠ [] ∧ documents.length ≤ 100 := by
  obtain ⟨all, hall, h⟩ := Outcome.bind_eq_ok.mp h
  dsimp only at h
  split at h
  · cases h
  · rename_i hnonempty
    split at h
    · cases h
    · rename_i hlength
      cases h
      exact ⟨all, hall, rfl, fun hnil => hnonempty (congrArg List.length hnil), not_lt.mp hlength⟩

/-- What the documents of a file have for metadata, apart from what the importer itself makes. -/
theorem parseDocuments_metadata (hempty : P emptyObject)
    (himported : ∀ text, P (.object [(js "imported_metadata", .string text)]))
    {documents : List PlaygroundDocument}
    (h : parseDocuments json toLowerCase filename content = .ok documents) :
    (∀ document ∈ documents, P document.metadata) ↔
      ∀ metadata ∈ fileMetadata json toLowerCase filename content, P metadata := by
  obtain ⟨all, hall, rfl, -, -⟩ := parseDocuments_eq_ok h
  rw [← fileDocuments_metadata hempty himported hall, List.forall_mem_filter]
  simp only [decide_eq_true_eq, List.length_pos_iff]

theorem jsonValues_wellFormed {parsed : JsonValue} (hparsed : parsed.WellFormed)
    {values : List JsonValue} (h : jsonValues parsed = .ok values) :
    ∀ value ∈ values, value.WellFormed := by
  unfold jsonValues at h
  split at h
  · cases h
    exact hparsed.items
  · cases h
  · split at h
    · rename_i hdocuments
      cases h
      exact (hparsed.get? hdocuments).items
    · cases h

theorem valueMetadata_wellFormed {value metadata : JsonValue} (hvalue : value.WellFormed)
    (h : valueMetadata value = some metadata) : metadata.WellFormed := by
  unfold valueMetadata at h
  split at h
  · split at h
    · cases h
    · exact hvalue.get? (Option.filter_eq_some_iff.mp h).1
  · cases h

theorem rowMetadata_wellFormed {columns : Columns} {row : List JsString} {metadata : JsonValue}
    (h : rowMetadata json columns row = some metadata) : metadata.WellFormed := by
  unfold rowMetadata at h
  split at h
  · cases h
  · exact json.parse_wellFormed h

theorem fileMetadata_wellFormed {metadata : JsonValue}
    (h : metadata ∈ fileMetadata json toLowerCase filename content) : metadata.WellFormed := by
  simp only [fileMetadata] at h
  split at h
  · cases hparse : json.parse content with
    | none =>
        rw [hparse] at h
        cases h
    | some parsed =>
        rw [hparse, Option.map_some] at h
        cases hvalues : jsonValues parsed with
        | error error =>
            rw [hvalues] at h
            cases h
        | ok values =>
            rw [hvalues] at h
            obtain ⟨value, hvalue, hmetadata⟩ := List.mem_filterMap.mp h
            have hwf := jsonValues_wellFormed (json.parse_wellFormed hparse) hvalues value hvalue
            exact valueMetadata_wellFormed hwf hmetadata
  · split at h
    · split at h
      · obtain ⟨row, -, hmetadata⟩ := List.mem_filterMap.mp h
        exact rowMetadata_wellFormed hmetadata
      · cases h
    · cases h

end Import

/-! ### Restoring what was imported -/

theorem restored_iff (json : JsonLibrary) (toLowerCase : JsString → JsString)
    (storage : LocalStorage) (filename content query : JsString) {topN : ℕ}
    {documents : List PlaygroundDocument}
    (hflag : storage.getItem playgroundRememberKey ≠ some (js "false"))
    (htop : 1 ≤ topN ∧ topN ≤ 100)
    (hdocuments : parseDocuments json toLowerCase filename content = .ok documents) :
    (loadPlaygroundState json
        (savePlaygroundState json storage ⟨query, documents, .finite topN⟩)).1 =
        ⟨query, documents, .finite topN⟩ ↔
      ∀ metadata ∈ fileMetadata json toLowerCase filename content,
        metadata.isRecord = true ∧ metadata.Plain Value.isFinite := by
  obtain ⟨-, -, -, hnonempty, hlength⟩ := parseDocuments_eq_ok hdocuments
  have hwf : ∀ document ∈ documents, document.metadata.WellFormed := by
    refine (parseDocuments_metadata (.object .nil nofun) (fun text => ?_) hdocuments).mpr
      fun _ => fileMetadata_wellFormed
    exact .object (List.pairwise_singleton ..) (List.forall_mem_singleton.mpr (.string text))
  rw [load_save_eq_self_iff hflag hnonempty hlength htop rfl hwf]
  refine parseDocuments_metadata
    (P := fun metadata => metadata.isRecord = true ∧ metadata.Plain Value.isFinite)
    ⟨rfl, .object nofun⟩ (fun text => ⟨rfl, ?_⟩) hdocuments
  exact .object (List.forall_mem_singleton.mpr (.string text))

def asciiLower (s : JsString) : JsString :=
  s.map fun c => if unit 'A' ≤ c ∧ c ≤ unit 'Z' then c + 32 else c

/-- A JSON file with two documents, the first with metadata. -/
def noteFile : JsonValue :=
  .array [.object [(js "metadata", .object [(js "page", .number (.finite 1))]),
    (js "text", .string (js "a"))], .string (js "b")]

def noteContent : JsString :=
  js "[\x7b\"text\":\"a\",\"metadata\":\x7b\"page\":1\x7d\x7d,\"b\"]"

/-- The inputs after this file was imported. -/
def noteState : PlaygroundState where
  query := js "q"
  documents := [⟨js "doc-1", js "a", .object [(js "page", .number (.finite 1))]⟩,
    ⟨js "doc-2", js "b", emptyObject⟩]
  topN := .finite (10 : ℕ)

/-- The inputs after a CSV file with `5` for metadata was imported. -/
def cellState : PlaygroundState where
  query := js "q"
  documents := [⟨js "doc-1", js "a", .number (.finite 5)⟩]
  topN := .finite (10 : ℕ)

def noteTexts : Texts where
  entries := [(noteState.persisted, js ("\x7b\"version\":1,\"query\":\"q\",\"documents\":[\x7b" ++
    "\"id\":\"doc-1\",\"text\":\"a\",\"metadata\":\x7b\"page\":1\x7d\x7d,\x7b" ++
    "\"id\":\"doc-2\",\"text\":\"b\",\"metadata\":\x7b\x7d\x7d],\"top_n\":10\x7d")),
    (noteFile, noteContent)]
  distinct := by decide +kernel
  nonblank := by decide +kernel

def cellTexts : Texts where
  entries := [(cellState.persisted, js ("\x7b\"version\":1,\"query\":\"q\",\"documents\":[\x7b" ++
    "\"id\":\"doc-1\",\"text\":\"a\",\"metadata\":5\x7d],\"top_n\":10\x7d")),
    (.number (.finite 5), js "5")]
  distinct := by decide
  nonblank := by decide

theorem noteTexts_parse : noteTexts.library.parse noteContent = some noteFile := by
  have hpage : Json.WellFormed (.object [(js "page", .number (.finite 1))] : JsonValue) :=
    .object (List.pairwise_singleton ..) (List.forall_mem_singleton.mpr (.number _))
  have hplain : Json.Plain Value.isFinite (.object [(js "page", .number (.finite 1))] : JsonValue) :=
    .object (List.forall_mem_singleton.mpr (.number rfl))
  refine Texts.library_parse ?_ ?_ ?_
  · refine .array (List.forall_mem_cons.mpr ⟨.object (by decide) ?_, ?_⟩)
    · exact List.forall_mem_cons.mpr ⟨hpage, List.forall_mem_singleton.mpr (.string _)⟩
    · exact List.forall_mem_singleton.mpr (.string _)
  · refine .array (List.forall_mem_cons.mpr ⟨.object ?_, ?_⟩)
    · exact List.forall_mem_cons.mpr ⟨hplain, List.forall_mem_singleton.mpr (.string _)⟩
    · exact List.forall_mem_singleton.mpr (.string _)
  · simp [Texts.text?, noteTexts, noteFile, PlaygroundState.persisted]

theorem restored_iff_notes :
    parseDocuments noteTexts.library asciiLower (js "Notes.JSON") noteContent =
        .ok noteState.documents ∧
      (loadPlaygroundState noteTexts.library
        (savePlaygroundState noteTexts.library (fun _ => none) noteState)).1 = noteState := by
  have hdocuments : parseDocuments noteTexts.library asciiLower (js "Notes.JSON") noteContent =
      .ok noteState.documents := by
    have hall : fileDocuments noteTexts.library asciiLower (js "Notes.JSON") noteContent =
        .ok noteState.documents := by
      rw [fileDocuments, noteTexts_parse]
      rfl
    rw [parseDocuments, hall]
    rfl
  refine ⟨hdocuments, (restored_iff noteTexts.library asciiLower (fun _ => none) (js "Notes.JSON")
    noteContent (js "q") (by decide) (by decide) hdocuments).mpr ?_⟩
  have hmetadata : fileMetadata noteTexts.library asciiLower (js "Notes.JSON") noteContent =
      [.object [(js "page", .number (.finite 1))]] := by
    rw [fileMetadata, noteTexts_parse]
    rfl
  rw [hmetadata]
  exact List.forall_mem_singleton.mpr
    ⟨rfl, .object (List.forall_mem_singleton.mpr (.number rfl))⟩

theorem not_restored_cell :
    parseDocuments cellTexts.library asciiLower (js "f.csv") (js "text,metadata\na,5") =
        .ok cellState.documents ∧
      (loadPlaygroundState cellTexts.library
        (savePlaygroundState cellTexts.library (fun _ => none) cellState)).1 ≠ cellState := by
  have hfive : cellTexts.library.parse (js "5") = some (.number (.finite 5)) := by
    refine Texts.library_parse (.number _) (.number rfl) ?_
    simp [Texts.text?, cellTexts, PlaygroundState.persisted]
  constructor
  · have hmetadata : csvMetadata cellTexts.library (js "5") = .number (.finite 5) := by
      rw [csvMetadata, if_neg (by decide), hfive]
      rfl
    have hdocument : csvDocument cellTexts.library ⟨0, none, some 1, [[js "a", js "5"]]⟩
        [js "a", js "5"] 0 = ⟨js "doc-1", js "a", .number (.finite 5)⟩ := by
      rw [← hmetadata]
      rfl
    have hall : fileDocuments cellTexts.library asciiLower (js "f.csv")
        (js "text,metadata\na,5") = .ok [csvDocument cellTexts.library
          ⟨0, none, some 1, [[js "a", js "5"]]⟩ [js "a", js "5"] 0] := rfl
    rw [parseDocuments, hall, hdocument]
    rfl
  · intro h
    have hwf : ∀ document ∈ cellState.documents, document.metadata.WellFormed :=
      List.forall_mem_singleton.mpr (.number _)
    have hall := (load_save_eq_self_iff (by decide) (List.cons_ne_nil _ _) (by decide)
      (by decide) rfl hwf).mp h
    cases (hall _ List.mem_cons_self).1

end RerankerService.Console
