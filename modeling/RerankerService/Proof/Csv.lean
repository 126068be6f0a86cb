import RerankerService.Console.Csv

/-!
# The CSV reader inverts the quoting

What the reader makes of one field, of one row and of one row end, and from this, by induction on
the lines, of a table. A row end `\r` may swallow the `\n` of an empty row after it; such a row is
dropped anyway.
-/

namespace RerankerService.Console

open CsvState

variable {s : CsvState} {c : UInt16} {value rest : JsString} {row : CsvRow}

theorem readAll_nil (s : CsvState) : s.readAll [] = s := rfl

theorem readAll_cons (hskip : s.skip = false) (c : UInt16) (rest : JsString) :
    s.readAll (c :: rest) = (s.read c rest.head?).readAll rest := by
  rw [readAll, hskip]
  rfl

theorem readAll_skipped (s : CsvState) (c : UInt16) (rest : JsString) :
    { s with skip := true }.readAll (c :: rest) = { s with skip := false }.readAll rest := rfl

/-! ### Fields -/

/-- The state after more units of the current field. -/
def CsvState.append (s : CsvState) (units : JsString) : CsvState :=
  { s with field := s.field ++ units }

theorem append_append (s : CsvState) (units units' : JsString) :
    (s.append units).append units' = s.append (units ++ units') := by
  unfold append
  rw [List.append_assoc]

theorem read_opening (hquoted : s.quoted = false) (next : Option UInt16) :
    s.read doubleQuote next = { s with quoted := true } := by
  unfold CsvState.read
  rw [if_neg (by simp [hquoted]), if_pos rfl, hquoted]
  rfl

theorem read_closing (hquoted : s.quoted = true) {next : Option UInt16}
    (hnext : next ≠ some doubleQuote) : s.read doubleQuote next = { s with quoted := false } := by
  unfold CsvState.read
  rw [if_neg (fun h => hnext h.2.2), if_pos rfl, hquoted]
  rfl

theorem read_doubled (hquoted : s.quoted = true) :
    s.read doubleQuote (some doubleQuote) = { s.append [doubleQuote] with skip := true } :=
  if_pos ⟨rfl, hquoted, rfl⟩

/-- Anything else is taken over inside quotes; outside, what has no meaning of its own. -/
theorem read_plain (hc : c ≠ doubleQuote)
    (hplain : s.quoted = true ∨ c ≠ comma ∧ c ≠ carriageReturn ∧ c ≠ lineFeed)
    (next : Option UInt16) : s.read c next = s.append [c] := by
  unfold CsvState.read
  rw [if_neg (fun h => hc h.1), if_neg hc]
  rcases hplain with hquoted | ⟨hcomma, hreturn, hfeed⟩
  · rw [if_neg (by simp [hquoted]), if_neg (by simp [hquoted])]
    rfl
  · rw [if_neg (fun h => hcomma h.1), if_neg (by simp [hreturn, hfeed])]
    rfl

/-- The inside of a quoted field, up to the closing quote. -/
theorem readAll_doubleQuotes (hskip : s.skip = false) (hquoted : s.quoted = true)
    (hrest : rest.head? ≠ some doubleQuote) (value : JsString) :
    s.readAll (doubleQuotes value ++ doubleQuote :: rest) =
      { s.append value with quoted := false }.readAll rest := by
  induction value generalizing s with
  | nil =>
      rw [doubleQuotes, List.flatMap_nil, List.nil_append, readAll_cons hskip,
        read_closing hquoted hrest]
      simp [append]
  | cons c value ih =>
      have hrec : (s.append [c]).readAll (doubleQuotes value ++ doubleQuote :: rest) =
          { s.append (c :: value) with quoted := false }.readAll rest := by
        rw [ih (s := s.append [c]) hskip hquoted, append_append]
        rfl
      rw [doubleQuotes, List.flatMap_cons, ← doubleQuotes]
      by_cases hc : c = doubleQuote
      · subst hc
        rw [if_pos rfl]
        change s.readAll (doubleQuote :: doubleQuote :: (doubleQuotes value ++ doubleQuote :: rest))
          = _
        rw [readAll_cons hskip, List.head?_cons, read_doubled hquoted, readAll_skipped, ← hrec,
          ← hskip]
        rfl
      · rw [if_neg hc]
        change s.readAll (c :: (doubleQuotes value ++ doubleQuote :: rest)) = _
        rw [readAll_cons hskip, read_plain hc (.inl hquoted), hrec]

theorem readAll_bare (hskip : s.skip = false)
    (hbare : ∀ c ∈ value, c ≠ comma ∧ c ≠ doubleQuote ∧ c ≠ carriageReturn ∧ c ≠ lineFeed) :
    s.readAll (value ++ rest) = (s.append value).readAll rest := by
  induction value generalizing s with
  | nil => simp [append]
  | cons c value ih =>
      obtain ⟨hcomma, hquote, hends⟩ := hbare c List.mem_cons_self
      rw [List.cons_append, readAll_cons hskip, read_plain hquote (.inr ⟨hcomma, hends⟩),
        ih (s := s.append [c]) hskip fun c hc => hbare c (List.mem_cons_of_mem _ hc), append_append]
      rfl

/-- A field is read as its value, whatever follows it but a quote. -/
theorem readAll_field (hskip : s.skip = false) (hquoted : s.quoted = false)
    (hrest : rest.head? ≠ some doubleQuote) (field : CsvField) :
    s.readAll (field.text ++ rest) = (s.append field.value).readAll rest := by
  unfold CsvField.text
  split
  · change s.readAll (doubleQuote :: (doubleQuotes field.value ++ [doubleQuote] ++ rest)) = _
    rw [readAll_cons hskip, read_opening hquoted, List.append_assoc]
    change _ = CsvState.readAll { s.append field.value with quoted := s.quoted } rest
    rw [hquoted]
    exact readAll_doubleQuotes (s := { s with quoted := true }) hskip rfl hrest field.value
  · rename_i hbare
    exact readAll_bare hskip (field.bare (Bool.eq_false_iff.mpr hbare))

/-! ### Rows -/

/-- Between two rows. -/
def fresh (rows : List (List JsString)) : CsvState :=
  { rows }

def keep (rows : List (List JsString)) (row : List JsString) : List (List JsString) :=
  if row.any (· ≠ []) then rows ++ [row] else rows

theorem endRow_eq (hskip : s.skip = false) (hquoted : s.quoted = false) :
    s.endRow = fresh (keep s.rows (s.row ++ [s.field])) := by
  unfold endRow fresh keep
  rw [hskip, hquoted]

theorem CsvRow.text_cons_cons (field next : CsvField) (row : CsvRow) :
    CsvRow.text (field :: next :: row) = field.text ++ comma :: CsvRow.text (next :: row) := by
  simp [CsvRow.text, List.intercalate_cons_cons]

theorem CsvRow.text_singleton (field : CsvField) : CsvRow.text [field] = field.text := by
  simp [CsvRow.text]

/-- At the end of a row its values are there, the last one as the current field. -/
theorem readAll_fields (hskip : s.skip = false) (hquoted : s.quoted = false) (hfield : s.field = [])
    (hrest : rest.head? ≠ some doubleQuote) (field : CsvField) (row : CsvRow) :
    ∃ t : CsvState, s.readAll (CsvRow.text (field :: row) ++ rest) = t.readAll rest ∧
      t.skip = false ∧ t.quoted = false ∧ t.rows = s.rows ∧
      t.row ++ [t.field] = s.row ++ CsvRow.values (field :: row) := by
  induction row generalizing s field with
  | nil =>
      refine ⟨s.append field.value, ?_, hskip, hquoted, rfl, ?_⟩
      · rw [CsvRow.text_singleton]
        exact readAll_field hskip hquoted hrest field
      · simp [append, hfield, CsvRow.values]
  | cons next row ih =>
      have hread : ∀ following, (s.append field.value).read comma following =
          { s with row := s.row ++ [field.value], field := [] } := fun following => by
        unfold CsvState.read
        rw [if_neg (fun h => absurd h.1 (by decide)), if_neg (by decide),
          if_pos ⟨rfl, hquoted⟩]
        simp [append, hfield]
      obtain ⟨t, ht, hskip', hquoted', hrows, hrow⟩ :=
        ih (s := { s with row := s.row ++ [field.value], field := [] }) hskip hquoted rfl next
      refine ⟨t, ?_, hskip', hquoted', hrows, ?_⟩
      · have hcomma : (comma :: (CsvRow.text (next :: row) ++ rest)).head? ≠ some doubleQuote := by
          rw [List.head?_cons]
          decide
        rw [CsvRow.text_cons_cons, List.append_assoc, List.cons_append,
          readAll_field hskip hquoted hcomma, readAll_cons (s := s.append field.value) hskip, hread,
          ht]
      · rw [hrow]
        simp [CsvRow.values]

theorem readAll_row (rows : List (List JsString)) (hrest : rest.head? ≠ some doubleQuote)
    (row : CsvRow) :
    ∃ t : CsvState, (fresh rows).readAll (row.text ++ rest) = t.readAll rest ∧
      t.skip = false ∧ t.quoted = false ∧ t.endRow = fresh (keep rows row.values) := by
  cases row with
  | nil => exact ⟨fresh rows, rfl, rfl, rfl, rfl⟩
  | cons field row =>
      obtain ⟨t, ht, hskip, hquoted, hrows, hrow⟩ :=
        readAll_fields (s := fresh rows) rfl rfl rfl hrest field row
      refine ⟨t, ht, hskip, hquoted, ?_⟩
      rw [endRow_eq hskip hquoted, hrows, hrow]
      rfl

/-- What is left of the text after a row end: `\r` takes a following `\n` with it. -/
def afterEnd (lineEnd : LineEnd) (rest : JsString) : JsString :=
  match lineEnd with
  | .cr => if rest.head? = some lineFeed then rest.tail else rest
  | _ => rest

theorem readAll_lineEnd (hskip : s.skip = false) (hquoted : s.quoted = false) (lineEnd : LineEnd)
    (rest : JsString) :
    s.readAll (lineEnd.text ++ rest) = s.endRow.readAll (afterEnd lineEnd rest) := by
  have hread : ∀ c next, c = lineFeed ∨ c = carriageReturn → s.read c next =
      { s.endRow with skip := decide (c = carriageReturn ∧ next = some lineFeed) } := by
    intro c next hc
    unfold CsvState.read
    rw [if_neg (fun h => by rcases hc with rfl | rfl <;> exact absurd h.1 (by decide)),
      if_neg (by rcases hc with rfl | rfl <;> decide),
      if_neg (fun h => by rcases hc with rfl | rfl <;> exact absurd h.1 (by decide)),
      if_pos ⟨hc, hquoted⟩]
  have hend : { s.endRow with skip := false } = s.endRow := by
    rw [endRow_eq hskip hquoted]
    rfl
  cases lineEnd with
  | lf =>
      change s.readAll (lineFeed :: rest) = _
      rw [readAll_cons hskip, hread _ _ (.inl rfl), decide_eq_false (fun h => by
        exact absurd h.1 (by decide)), hend]
      rfl
  | crlf =>
      change s.readAll (carriageReturn :: lineFeed :: rest) = _
      rw [readAll_cons hskip, hread _ _ (.inr rfl), List.head?_cons, decide_eq_true ⟨rfl, rfl⟩,
        readAll_skipped, hend]
      rfl
  | cr =>
      change s.readAll (carriageReturn :: rest) = _
      rw [readAll_cons hskip, hread _ _ (.inr rfl)]
      unfold afterEnd
      dsimp only
      by_cases hnext : rest.head? = some lineFeed
      · obtain ⟨tail, rfl⟩ := List.head?_eq_some_iff.mp hnext
        rw [if_pos hnext, decide_eq_true ⟨rfl, hnext⟩, readAll_skipped, hend]
        rfl
      · rw [if_neg hnext, decide_eq_false (fun h => hnext h.2), hend]

/-! ### Tables -/

theorem CsvField.head_ne_lineFeed (field : CsvField) : field.text.head? ≠ some lineFeed := by
  unfold CsvField.text
  split
  · rw [List.head?_cons]
    decide
  · rename_i hbare
    intro hhead
    have hmem := List.mem_of_mem_head? (Option.mem_def.mpr hhead)
    exact (field.bare (Bool.eq_false_iff.mpr hbare) lineFeed hmem).2.2.2 rfl

theorem CsvField.value_eq_nil {field : CsvField} (h : field.text = []) : field.value = [] := by
  unfold CsvField.text at h
  split at h
  · cases h
  · exact h

theorem CsvRow.head_ne_lineFeed (row : CsvRow) : row.text.head? ≠ some lineFeed := by
  match row with
  | [] => exact nofun
  | [field] =>
      rw [CsvRow.text_singleton]
      exact field.head_ne_lineFeed
  | field :: next :: row =>
      rw [CsvRow.text_cons_cons, List.head?_append]
      cases hhead : field.text.head? with
      | none =>
          rw [Option.none_or, List.head?_cons]
          decide
      | some c =>
          intro h
          exact field.head_ne_lineFeed (hhead.trans h)

/-- A row without text has only empty fields. -/
theorem keep_of_text_nil {row : CsvRow} (h : row.text = []) (rows : List (List JsString)) :
    keep rows row.values = rows := by
  match row with
  | [] => rfl
  | [field] =>
      rw [CsvRow.text_singleton] at h
      simp [keep, CsvRow.values, CsvField.value_eq_nil h]
  | field :: next :: row =>
      rw [CsvRow.text_cons_cons] at h
      simp at h

/-- The rows that are not dropped. -/
def CsvTable.kept (table : CsvTable) : List (List JsString) :=
  table.rows.filter fun row => row.any (· ≠ [])

theorem kept_cons (row : CsvRow) (lineEnd : LineEnd) (lines : List (CsvRow × LineEnd))
    (last : Option CsvRow) (rows : List (List JsString)) :
    rows ++ CsvTable.kept ⟨(row, lineEnd) :: lines, last⟩ =
      keep rows row.values ++ CsvTable.kept ⟨lines, last⟩ := by
  unfold CsvTable.kept CsvTable.rows keep
  rw [List.map_cons, List.cons_append, List.map_cons, List.filter_cons]
  split <;> simp

theorem CsvTable.text_cons (row : CsvRow) (lineEnd : LineEnd) (lines : List (CsvRow × LineEnd))
    (last : Option CsvRow) :
    CsvTable.text ⟨(row, lineEnd) :: lines, last⟩ =
      row.text ++ (lineEnd.text ++ CsvTable.text ⟨lines, last⟩) := by
  simp [CsvTable.text]

/-- The rows of a rest of the table are added to those before it, also when an empty first row has
lost its `\n` to the row end before. -/
theorem readAll_lines (lines : List (CsvRow × LineEnd)) (last : Option CsvRow) :
    ∀ rows, ((fresh rows).readAll (CsvTable.text ⟨lines, last⟩)).endRow.rows =
        rows ++ CsvTable.kept ⟨lines, last⟩ ∧
      ((CsvTable.text ⟨lines, last⟩).head? = some lineFeed →
        ((fresh rows).readAll (CsvTable.text ⟨lines, last⟩).tail).endRow.rows =
          rows ++ CsvTable.kept ⟨lines, last⟩) := by
  induction lines with
  | nil =>
      intro rows
      cases last with
      | none => exact ⟨(List.append_nil rows).symm, nofun⟩
      | some row =>
          refine ⟨?_, fun hhead => absurd hhead row.head_ne_lineFeed⟩
          have hquote : ([] : JsString).head? ≠ some doubleQuote := nofun
          obtain ⟨t, ht, -, -, hend⟩ := readAll_row rows hquote row
          have htext : CsvTable.text ⟨[], some row⟩ = row.text ++ [] := by simp [CsvTable.text]
          rw [htext, ht, readAll_nil, hend]
          unfold fresh keep CsvTable.kept CsvTable.rows
          simp only [List.map_nil, List.nil_append, Option.toList_some, List.map_cons,
            List.filter_cons, List.filter_nil]
          split <;> simp
  | cons line lines ih =>
      obtain ⟨row, lineEnd⟩ := line
      intro rows
      have hquote : (lineEnd.text ++ CsvTable.text ⟨lines, last⟩).head? ≠ some doubleQuote := by
        cases lineEnd <;> exact nofun
      refine ⟨?_, fun hhead => ?_⟩
      · obtain ⟨t, ht, hskip, hquoted, hend⟩ := readAll_row rows hquote row
        rw [CsvTable.text_cons, ht, readAll_lineEnd hskip hquoted, hend, kept_cons]
        obtain ⟨hwhole, htail⟩ := ih (keep rows row.values)
        unfold afterEnd
        cases lineEnd with
        | lf => exact hwhole
        | crlf => exact hwhole
        | cr =>
            dsimp only
            split
            · exact htail ‹_›
            · exact hwhole
      · rw [CsvTable.text_cons] at hhead ⊢
        have hempty : row.text = [] := by
          cases htext : row.text with
          | nil => rfl
          | cons c units =>
              rw [htext, List.cons_append, List.head?_cons] at hhead
              exact absurd (htext ▸ hhead) row.head_ne_lineFeed
        rw [hempty, List.nil_append] at hhead ⊢
        rw [kept_cons, keep_of_text_nil hempty]
        cases lineEnd with
        | lf => exact (ih rows).1
        | cr | crlf =>
            have hfeed : carriageReturn = lineFeed := Option.some.inj hhead
            exact absurd hfeed (by decide)

/-- **The CSV reader inverts the quoting**: whatever is in the fields, however they are quoted and
however the rows end, the rows come back, except those without content. -/
theorem csvRows_text (table : CsvTable) :
    csvRows table.text = table.rows.filter fun row => row.any (· ≠ []) :=
  (readAll_lines table.lines table.last []).1

end RerankerService.Console
