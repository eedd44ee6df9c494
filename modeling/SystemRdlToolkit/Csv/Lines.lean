import Mathlib.Data.List.Basic

/-!
# Cutting CSV text into records and cells

Models of three private members of `CSVParser` in the `csv2rdl` converter
(`src/unnamed/part_004`):

* `parse_csv_content` (lines 352–381) cuts the text into logical lines at every `\n` outside
  double quotes, flipping its quote state on every `"`, and drops empty lines;
* `split_csv_line` (lines 105–133) cuts one logical line at every delimiter outside quotes and
  reads `""` inside quotes as one `"`;
* `detect_delimiter` (lines 97–102) picks `;` when a line has more `;` than `,`.

The two loops keep their quote states separately. A `std::string` is the list of its characters.

Results:
* `parseCsvContent_writeCsv`: on the text an RFC 4180 writer produces with delimiter `,` or `;`,
  `parse_csv_content` returns exactly the records;
* `splitCsvLine_text`: `split_csv_line` cuts each record at exactly its cell boundaries and undoes
  the quoting;
* `split_parseCsvContent_writeCsv`: the two together, the table's rows back from its text.
-/

namespace SystemRdlToolkit.Csv

/-! ## Model of the code -/

/-- The loop state of `parse_csv_content`: `lines`, `current_line` and `in_quotes`. -/
structure ContentState where
  lines : List (List Char)
  currentLine : List Char
  inQuotes : Bool

/-- One iteration of the `for` loop of `parse_csv_content` (lines 358–373). -/
def contentStep (st : ContentState) (c : Char) : ContentState :=
  if c = '"' then ⟨st.lines, st.currentLine ++ [c], !st.inQuotes⟩
  else if c = '\n' ∧ st.inQuotes = false then
    if st.currentLine = [] then st else ⟨st.lines ++ [st.currentLine], [], st.inQuotes⟩
  else ⟨st.lines, st.currentLine ++ [c], st.inQuotes⟩

/-- The end of `parse_csv_content` (lines 375–380): the last line is added if it is not
    empty. -/
def ContentState.finish (st : ContentState) : List (List Char) :=
  if st.currentLine = [] then st.lines else st.lines ++ [st.currentLine]

/-- `CSVParser::parse_csv_content` (lines 352–381). -/
def parseCsvContent (content : List Char) : List (List Char) :=
  (content.foldl contentStep ⟨[], [], false⟩).finish

/-- The `for` loop of `split_csv_line` (lines 111–129) on the rest of the line, with `fields`,
    `current_field` and `in_quotes`. The escaped-quote branch consumes both quotes, as the
    code's `i++` does. -/
def splitLoop (delimiter : Char) :
    List Char → List (List Char) → List Char → Bool → List (List Char)
  | [], fields, currentField, _ => fields ++ [currentField]
  | '"' :: '"' :: rest, fields, currentField, true =>
    splitLoop delimiter rest fields (currentField ++ ['"']) true
  | '"' :: rest, fields, currentField, inQuotes =>
    splitLoop delimiter rest fields currentField (!inQuotes)
  | c :: rest, fields, currentField, inQuotes =>
    if c = delimiter ∧ inQuotes = false then
      splitLoop delimiter rest (fields ++ [currentField]) [] inQuotes
    else splitLoop delimiter rest fields (currentField ++ [c]) inQuotes

/-- `CSVParser::split_csv_line` (lines 105–133). -/
def splitCsvLine (line : List Char) (delimiter : Char) : List (List Char) :=
  splitLoop delimiter line [] [] false

/-- `CSVParser::detect_delimiter` (lines 97–102). -/
def detectDelimiter (line : List Char) : Char :=
  if line.count ',' < line.count ';' then ';' else ','

example : splitCsvLine "a,\"b\"\"c\",d".toList ',' = ["a".toList, "b\"c".toList, "d".toList] := by
  decide

/-! ## The RFC 4180 writer -/

namespace Spec

/-- `s` with every `"` doubled. -/
def quoteEscape : List Char → List Char
  | [] => []
  | c :: s => if c = '"' then '"' :: '"' :: quoteEscape s else c :: quoteEscape s

/-- A cell as an RFC 4180 writer with delimiter `d` writes it: quoted, or bare when its content
    holds no `d`, no `"` and no newline. -/
structure Cell (d : Char) where
  content : List Char
  quoted : Bool
  bare_ok : quoted = false → d ∉ content ∧ '"' ∉ content ∧ '\n' ∉ content

/-- The text of a cell. -/
def Cell.text {d : Char} (c : Cell d) : List Char :=
  if c.quoted then '"' :: quoteEscape c.content ++ ['"'] else c.content

/-- A record: at least one cell, and not a single bare empty cell (that would be an empty line). -/
structure Record (d : Char) where
  cells : List (Cell d)
  cells_ne_nil : cells ≠ []
  not_bare_empty : ∀ c, cells = [c] → c.quoted = false → c.content ≠ []

/-- The text of a record: its cells joined by the delimiter. -/
def Record.text {d : Char} (r : Record d) : List Char :=
  List.intercalate [d] (r.cells.map Cell.text)

/-- The cell contents of a record. -/
def Record.contents {d : Char} (r : Record d) : List (List Char) :=
  r.cells.map Cell.content

/-- The text of a table: its records joined by `\n`. -/
def writeCsv {d : Char} (rows : List (Record d)) : List Char :=
  List.intercalate ['\n'] (rows.map Record.text)

end Spec

open Spec

@[simp] theorem intercalate_singleton {α : Type} (sep x : List α) : List.intercalate sep [x] = x := by
  simp [List.intercalate]

theorem intercalate_cons_cons {α : Type} (sep x y : List α) (zs : List (List α)) :
    List.intercalate sep (x :: y :: zs) = x ++ sep ++ List.intercalate sep (y :: zs) := by
  simp [List.intercalate, List.intersperse_cons₂]

/-! ## Quote parity -/

/-- The quote state after `s`, from `q`: `parse_csv_content` flips it on every `"`. -/
def quoteState (q : Bool) (s : List Char) : Bool :=
  s.foldl (fun q c => if c = '"' then !q else q) q

/-- Every `\n` of `s` is read while the quote state is `true`, from `q`. -/
def NewlinesQuoted : Bool → List Char → Prop
  | _, [] => True
  | q, c :: s => (c = '\n' → q = true) ∧ NewlinesQuoted (if c = '"' then !q else q) s

@[simp] theorem quoteState_nil (q : Bool) : quoteState q [] = q := rfl

theorem quoteState_cons (q : Bool) (c : Char) (s : List Char) :
    quoteState q (c :: s) = quoteState (if c = '"' then !q else q) s := rfl

theorem quoteState_append (q : Bool) (s t : List Char) :
    quoteState q (s ++ t) = quoteState (quoteState q s) t :=
  List.foldl_append _ _ _ _

theorem newlinesQuoted_append {s t : List Char} :
    ∀ {q}, NewlinesQuoted q (s ++ t) ↔ NewlinesQuoted q s ∧ NewlinesQuoted (quoteState q s) t := by
  induction s with
  | nil => intro q; simp [NewlinesQuoted]
  | cons c s ih =>
    intro q
    simp only [List.cons_append, NewlinesQuoted, List.append_eq, ih, quoteState_cons, and_assoc]

theorem quoteState_of_not_mem {s : List Char} (h : '"' ∉ s) : ∀ q, quoteState q s = q := by
  induction s with
  | nil => intro q; rfl
  | cons c s ih =>
    intro q
    rw [quoteState_cons, if_neg (fun e : c = '"' => h (e ▸ List.mem_cons_self _ _))]
    exact ih (fun m => h (List.mem_cons_of_mem _ m)) q

theorem newlinesQuoted_of_not_mem {s : List Char} (h : '\n' ∉ s) : ∀ q, NewlinesQuoted q s := by
  induction s with
  | nil => intro q; trivial
  | cons c s ih =>
    intro q
    exact ⟨fun e => absurd (e ▸ List.mem_cons_self _ _) h,
      ih (fun m => h (List.mem_cons_of_mem _ m)) _⟩

theorem quoteState_quoteEscape (s : List Char) : ∀ q, quoteState q (quoteEscape s) = q := by
  induction s with
  | nil => intro q; rfl
  | cons c s ih =>
    intro q
    by_cases hc : c = '"' <;> simp [quoteEscape, hc, quoteState_cons, ih]

theorem newlinesQuoted_quoteEscape (s : List Char) : NewlinesQuoted true (quoteEscape s) := by
  induction s with
  | nil => trivial
  | cons c s ih => by_cases hc : c = '"' <;> simp [quoteEscape, hc, NewlinesQuoted, ih]

theorem Spec.Cell.quoteState_text {d : Char} (c : Cell d) (q : Bool) : quoteState q c.text = q := by
  cases hq : c.quoted
  · simpa [Cell.text, hq] using quoteState_of_not_mem (c.bare_ok hq).2.1 q
  · simp [Cell.text, hq, quoteState_cons, quoteState_append, quoteState_quoteEscape]

theorem Spec.Cell.newlinesQuoted_text {d : Char} (c : Cell d) : NewlinesQuoted false c.text := by
  cases hq : c.quoted
  · simpa [Cell.text, hq] using newlinesQuoted_of_not_mem (c.bare_ok hq).2.2 false
  · simp [Cell.text, hq, NewlinesQuoted, newlinesQuoted_append, newlinesQuoted_quoteEscape,
      quoteState_quoteEscape]

theorem Spec.Record.text_ne_nil {d : Char} (r : Record d) : r.text ≠ [] := by
  obtain ⟨_ | ⟨x, _ | ⟨y, ys⟩⟩, hne, hbare⟩ := r
  · exact absurd rfl hne
  · cases hq : x.quoted
    · simpa [Record.text, Cell.text, hq] using hbare x rfl hq
    · simp [Record.text, Cell.text, hq]
  · simp [Record.text, intercalate_cons_cons]

theorem contentStep_of_quoted {st : ContentState} {c : Char}
    (h : c = '\n' → st.inQuotes = true) :
    contentStep st c =
      ⟨st.lines, st.currentLine ++ [c], if c = '"' then !st.inQuotes else st.inQuotes⟩ := by
  unfold contentStep
  split_ifs <;> simp_all

theorem foldl_contentStep {s : List Char} :
    ∀ (st : ContentState), NewlinesQuoted st.inQuotes s →
      s.foldl contentStep st = ⟨st.lines, st.currentLine ++ s, quoteState st.inQuotes s⟩ := by
  induction s with
  | nil => intro st _; simp
  | cons c s ih =>
    intro st ⟨hc, hs⟩
    rw [List.foldl_cons, contentStep_of_quoted hc, ih _ hs]
    simp [quoteState_cons]

/-- Reading records joined by `\n`, each non-empty and balanced in quotes, from an empty
    current line outside quotes, adds every record but the last as a line and leaves the last
    as the current line. -/
theorem foldl_intercalate (x : List Char) (xs : List (List Char))
    (h : ∀ t ∈ x :: xs, t ≠ [] ∧ NewlinesQuoted false t ∧ quoteState false t = false)
    (ls : List (List Char)) :
    (List.intercalate ['\n'] (x :: xs)).foldl contentStep ⟨ls, [], false⟩ =
      ⟨ls ++ (x :: xs).dropLast, (x :: xs).getLast (List.cons_ne_nil _ _), false⟩ := by
  induction xs generalizing x ls with
  | nil =>
    obtain ⟨-, hn, hq⟩ := h x (List.mem_singleton_self x)
    simp [foldl_contentStep ⟨ls, [], false⟩ hn, hq]
  | cons y ys ih =>
    obtain ⟨hne, hn, hq⟩ := h x (List.mem_cons_self _ _)
    rw [intercalate_cons_cons, List.foldl_append, List.foldl_append,
      foldl_contentStep ⟨ls, [], false⟩ hn]
    simp only [List.nil_append, hq, List.foldl_cons, List.foldl_nil]
    rw [contentStep, if_neg (by decide), if_pos ⟨rfl, rfl⟩, if_neg hne,
      ih y (fun t ht => h t (List.mem_cons_of_mem _ ht))]
    simp [List.dropLast_cons₂, List.getLast_cons]

theorem finish_foldl_intercalate (x : List Char) (xs : List (List Char))
    (h : ∀ t ∈ x :: xs, t ≠ [] ∧ NewlinesQuoted false t ∧ quoteState false t = false) :
    ((List.intercalate ['\n'] (x :: xs)).foldl contentStep ⟨[], [], false⟩).finish = x :: xs ∧
      ((List.intercalate ['\n'] (x :: xs) ++ ['\n']).foldl contentStep ⟨[], [], false⟩).finish =
        x :: xs := by
  have hlast := (h _ (List.getLast_mem (List.cons_ne_nil x xs))).1
  rw [List.foldl_append, foldl_intercalate x xs h []]
  refine ⟨?_, ?_⟩
  · simp only [ContentState.finish, if_neg hlast, List.nil_append]
    exact List.dropLast_append_getLast _
  · simp only [List.foldl_cons, List.foldl_nil, contentStep, if_neg (by decide : ¬ '\n' = '"'),
      if_pos (⟨rfl, rfl⟩ : '\n' = '\n' ∧ false = false), if_neg hlast, ContentState.finish,
      if_pos rfl, List.nil_append]
    exact List.dropLast_append_getLast _

/-! ## `split_csv_line` cuts at the cell boundaries -/

section Split

variable {d : Char} {fields : List (List Char)} {cur : List Char}

theorem splitLoop_quote_quote (rest : List Char) :
    splitLoop d ('"' :: '"' :: rest) fields cur true =
      splitLoop d rest fields (cur ++ ['"']) true := by
  rw [splitLoop]

theorem splitLoop_quote {q : Bool} {rest : List Char} (h : q = true → rest.head? ≠ some '"') :
    splitLoop d ('"' :: rest) fields cur q = splitLoop d rest fields cur (!q) := by
  match q, rest with
  | false, _ => rw [splitLoop]; simp
  | true, [] => rw [splitLoop]; rfl
  | true, c :: rest =>
    have : c ≠ '"' := fun e => h rfl (by simp [e])
    rw [splitLoop]; simp_all

theorem splitLoop_of_ne {c : Char} {q : Bool} (rest : List Char) (hc : c ≠ '"') :
    splitLoop d (c :: rest) fields cur q =
      if c = d ∧ q = false then splitLoop d rest (fields ++ [cur]) [] q
      else splitLoop d rest fields (cur ++ [c]) q := by
  rw [splitLoop] <;> intros <;> simp_all

theorem splitLoop_bare {s : List Char} (hq : '"' ∉ s) (hd : d ∉ s) (rest : List Char) :
    ∀ cur, splitLoop d (s ++ rest) fields cur false = splitLoop d rest fields (cur ++ s) false := by
  induction s with
  | nil => intro cur; simp
  | cons c s ih =>
    intro cur
    rw [List.cons_append, splitLoop_of_ne _ (fun e => hq (e ▸ List.mem_cons_self _ _)),
      if_neg (fun h : c = d ∧ false = false => hd (h.1 ▸ List.mem_cons_self _ _)),
      ih (fun m => hq (List.mem_cons_of_mem _ m)) (fun m => hd (List.mem_cons_of_mem _ m))]
    simp

theorem splitLoop_quoteEscape (s rest : List Char) :
    ∀ cur, splitLoop d (quoteEscape s ++ rest) fields cur true =
      splitLoop d rest fields (cur ++ s) true := by
  induction s with
  | nil => intro cur; simp [quoteEscape]
  | cons c s ih =>
    intro cur
    by_cases hc : c = '"'
    · subst hc
      simp [quoteEscape, splitLoop_quote_quote, ih]
    · simp [quoteEscape, hc, splitLoop_of_ne, ih]

theorem Spec.Cell.splitLoop_text (c : Cell d) (rest : List Char)
    (hr : rest.head? ≠ some '"') (cur : List Char) :
    splitLoop d (c.text ++ rest) fields cur false =
      splitLoop d rest fields (cur ++ c.content) false := by
  cases hq : c.quoted
  · simpa [Cell.text, hq] using splitLoop_bare (c.bare_ok hq).2.1 (c.bare_ok hq).1 rest cur
  · simp only [Cell.text, hq, if_true, List.cons_append, List.append_assoc, List.singleton_append,
      List.nil_append]
    rw [splitLoop_quote (by simp), Bool.not_false, splitLoop_quoteEscape,
      splitLoop_quote (fun _ => hr)]
    rfl

theorem splitLoop_intercalate_cells (hdq : d ≠ '"') (x : Cell d) (xs : List (Cell d)) :
    ∀ fields, splitLoop d (List.intercalate [d] ((x :: xs).map Cell.text)) fields [] false =
      fields ++ (x :: xs).map Cell.content := by
  induction xs generalizing x with
  | nil =>
    intro fields
    simpa [splitLoop] using x.splitLoop_text [] (by simp) []
  | cons y ys ih =>
    intro fields
    simp only [List.map_cons] at ih ⊢
    rw [intercalate_cons_cons, List.append_assoc, List.singleton_append,
      x.splitLoop_text _ (by simpa using hdq), splitLoop_of_ne _ hdq,
      if_pos ⟨rfl, rfl⟩, ih]
    simp

end Split

section Delimiter

variable {d : Char} (hd : d = ',' ∨ d = ';')
include hd

theorem delimiter_ne_quote : d ≠ '"' := by rcases hd with rfl | rfl <;> decide

theorem delimiter_ne_newline : d ≠ '\n' := by rcases hd with rfl | rfl <;> decide

theorem newlinesQuoted_intercalate_cells (x : Cell d) (xs : List (Cell d)) :
    NewlinesQuoted false (List.intercalate [d] ((x :: xs).map Cell.text)) ∧
      quoteState false (List.intercalate [d] ((x :: xs).map Cell.text)) = false := by
  induction xs generalizing x with
  | nil => simpa using ⟨x.newlinesQuoted_text, x.quoteState_text false⟩
  | cons y ys ih =>
    obtain ⟨hn, hq⟩ := ih y
    simp only [List.map_cons] at hn hq ⊢
    rw [intercalate_cons_cons]
    constructor
    · simp [newlinesQuoted_append, x.newlinesQuoted_text, x.quoteState_text, NewlinesQuoted,
        delimiter_ne_quote hd, delimiter_ne_newline hd, hn]
    · simp [quoteState_append, x.quoteState_text, quoteState_cons, delimiter_ne_quote hd, hq]

/-! ## `parse_csv_content` cuts at the record boundaries -/

theorem Spec.Record.text_facts (r : Record d) :
    r.text ≠ [] ∧ NewlinesQuoted false r.text ∧ quoteState false r.text = false := by
  obtain ⟨_ | ⟨x, xs⟩, hne, _⟩ := r
  · exact absurd rfl hne
  · exact ⟨Record.text_ne_nil _, newlinesQuoted_intercalate_cells hd x xs⟩

/-- `parse_csv_content` returns exactly the records of an RFC 4180 text, also when a `\n`
    follows the last one. -/
theorem parseCsvContent_writeCsv (rows : List (Record d)) :
    parseCsvContent (writeCsv rows) = rows.map Record.text ∧
      (rows ≠ [] → parseCsvContent (writeCsv rows ++ ['\n']) = rows.map Record.text) := by
  cases rows with
  | nil => exact ⟨rfl, fun h => absurd rfl h⟩
  | cons r rs =>
    have := finish_foldl_intercalate r.text (rs.map Record.text) (fun t ht => by
      simp only [← List.map_cons, List.mem_map] at ht
      obtain ⟨r', -, rfl⟩ := ht
      exact r'.text_facts hd)
    exact ⟨by simpa [writeCsv, parseCsvContent] using this.1,
      fun _ => by simpa [writeCsv, parseCsvContent] using this.2⟩

/-- `split_csv_line` returns the cells of a record from its text. -/
theorem splitCsvLine_text (r : Record d) : splitCsvLine r.text d = r.contents := by
  obtain ⟨_ | ⟨x, xs⟩, hne, _⟩ := r
  · exact absurd rfl hne
  · simpa using splitLoop_intercalate_cells (delimiter_ne_quote hd) x xs []

/-- **The table's rows back from its text.** For either delimiter and every table written as
    RFC 4180 CSV, `parse_csv_content` cuts the text at exactly the record boundaries, and
    `split_csv_line` with the same delimiter gives back every row. -/
theorem split_parseCsvContent_writeCsv (rows : List (Record d)) :
    parseCsvContent (writeCsv rows) = rows.map Record.text ∧
      (parseCsvContent (writeCsv rows)).map (fun line => splitCsvLine line d) =
        rows.map Record.contents := by
  refine ⟨(parseCsvContent_writeCsv hd rows).1, ?_⟩
  rw [(parseCsvContent_writeCsv hd rows).1, List.map_map]
  exact List.map_congr_left fun r _ => splitCsvLine_text hd r

end Delimiter

/-- A two-cell record with delimiter `,`: a bare cell and a quoted one holding `,`, `"` and a
    newline. -/
def sampleRecord : Record ',' :=
  ⟨[⟨"a".toList, false, fun _ => by decide⟩, ⟨"b,\"\nc".toList, true, fun h => by cases h⟩],
    by simp, fun _ h => by cases h⟩

theorem split_parseCsvContent_writeCsv_comma :
    (',' = ',' ∨ ',' = ';') ∧
      parseCsvContent (writeCsv [sampleRecord, sampleRecord]) =
        [sampleRecord, sampleRecord].map Record.text ∧
      (parseCsvContent (writeCsv [sampleRecord, sampleRecord])).map
          (fun line => splitCsvLine line ',') =
        [sampleRecord, sampleRecord].map Record.contents :=
  ⟨Or.inl rfl, split_parseCsvContent_writeCsv (Or.inl rfl) [sampleRecord, sampleRecord]⟩

end SystemRdlToolkit.Csv
