import SystemRdlToolkit.Csv.Lines
import SystemRdlToolkit.Csv.Levenshtein
import Mathlib.Data.List.DropRight

/-!
# `CSVParser::parse`

Models of the public `CSVParser::parse` of the `csv2rdl` converter (`src/unnamed/part_004`,
lines 36–78) and of the members it calls: the `std::getline` loop that reads the file, the
header mapping (`find_best_match`, `create_column_mapping`) and `parse_row` with its field
processors.

`parse` cuts the text with `parse_csv_content`, then for every non-empty logical line detects
the delimiter of that line and splits it: the first cell list becomes the column mapping, every
later one a `CSVRow`. The delimiter is detected again on every line, from its counts of `,` and
`;`, quoted text included.

Results:
* `parse_eq_tokenize`: `parse` sends the first cell list of `tokenize` to
  `create_column_mapping` and the others to `parse_row`;
* `tokenize_writeCsv_semicolon`: with delimiter `;`, a one-cell table holding `a,b` comes back as
  two cells, since the line has more `,` than `;`;
* `tokenize_readLines_writeCsv`: the rows come back exactly when every record's text is detected
  with the delimiter it was written with.
-/

namespace SystemRdlToolkit.Csv

open Spec

/-! ## Reading the file -/

/-- `while (std::getline(file, temp_line)) content += temp_line + "\n";` (lines 50–52), on the
    rest of the file and the characters of `temp_line` read so far: `getline` drops each `\n`,
    the loop puts one back after every line, and a last line without `\n` is a line too. -/
def readLines : List Char → List Char → List Char
  | [], [] => []
  | [], line => line ++ ['\n']
  | c :: rest, line => if c = '\n' then line ++ ['\n'] ++ readLines rest [] else readLines rest (line ++ [c])

/-! ## Rows and the header mapping -/

/-- `struct CSVRow` (lines 13–27). -/
structure CSVRow where
  addrmapOffset : List Char
  addrmapName : List Char
  regOffset : List Char
  regName : List Char
  regWidth : List Char
  fieldName : List Char
  fieldLsb : List Char
  fieldMsb : List Char
  resetValue : List Char
  swAccess : List Char
  hwAccess : List Char
  description : List Char
  deriving DecidableEq, Repr

/-- A default-constructed `CSVRow`: every member is the empty string. -/
def CSVRow.empty : CSVRow := ⟨[], [], [], [], [], [], [], [], [], [], [], []⟩

/-- The characters `trim` removes: `" \t\r\n"`. -/
def isTrimSpace (c : Char) : Bool := c = ' ' ∨ c = '\t' ∨ c = '\r' ∨ c = '\n'

/-- `CSVParser::trim` (lines 136–143): from the first character not in `" \t\r\n"` to the last
    one, or the empty string when there is none. -/
def trim (s : List Char) : List Char := (s.dropWhile isTrimSpace).rdropWhile isTrimSpace

/-- `CSVParser::remove_all_newlines` (lines 146–152). -/
def removeAllNewlines (s : List Char) : List Char :=
  (s.filter (· ≠ '\n')).filter (· ≠ '\r')

/-- The loop of `process_description` (lines 166–179) on `(result, prev_was_newline)`: a run of
    `\n` and `\r` becomes one `\n`. -/
def collapseNewlines (s : List Char) : List Char :=
  (s.foldl (fun (acc : List Char × Bool) c =>
    if c = '\n' ∨ c = '\r' then (if acc.2 then acc else (acc.1 ++ ['\n'], true))
    else (acc.1 ++ [c], false)) ([], false)).1

/-- `CSVParser::process_description` (lines 155–182). -/
def processDescription (s : List Char) : List Char :=
  if s = [] then s else
    let trimmed := trim s
    if trimmed = [] then trimmed else collapseNewlines trimmed

/-- `CSVParser::process_name_field` (lines 185–191). -/
def processNameField (s : List Char) : List Char :=
  if s = [] then s else removeAllNewlines (trim s)

/-- `CSVParser::process_regular_field` (line 194). -/
def processRegularField (s : List Char) : List Char := trim s

/-- `CSVParser::to_lower` (lines 197–202): `::tolower` in the C locale. -/
def toLower (s : List Char) : List Char := s.map Char.toLower

/-- `standard_columns` (lines 82–94), in mapping-index order. -/
def standardColumns : List (List Char) :=
  ["addrmap_offset", "addrmap_name", "reg_offset", "reg_name", "reg_width", "field_name",
    "field_lsb", "field_msb", "reset_value", "sw_access", "hw_access", "description"].map
    String.toList

/-- `abbrev_map` of `find_best_match` (lines 240–249). -/
def abbrevMap : List (List Char × List Char) :=
  [("sw_acc", "sw_access"), ("hw_acc", "hw_access"), ("access", "sw_access"),
    ("addr_offset", "addrmap_offset"), ("addr_name", "addrmap_name"), ("lsb", "field_lsb"),
    ("msb", "field_msb"), ("desc", "description"), ("width", "reg_width")].map
    fun p => (p.1.toList, p.2.toList)

/-- The fuzzy loop of `find_best_match` (lines 262–271) on `(best_match, min_distance)`: the
    first standard name at the least distance below 4. A `std::string` is the list of its
    bytes, each a `Char` below 256, so a UTF-8 header is its bytes and the distance counts
    byte edits, as the code's does. -/
def fuzzyMatch (lowerHeader : List Char) (standards : List (List Char)) : ℤ :=
  (standards.enum.foldl (fun (acc : ℤ × ℕ) p =>
    let distance := levenshteinDistance lowerHeader p.2
    if distance < acc.2 then ((p.1 : ℤ), distance) else acc) (-1, 4)).1

/-- `CSVParser::find_best_match` (lines 228–274): an exact match of the lower-cased header, else
    its abbreviation, else the fuzzy match; `-1` when none. Strings are the lists of their bytes,
    as for `fuzzyMatch`. -/
def findBestMatch (header : List Char) (standards : List (List Char)) : ℤ :=
  let lowerHeader := toLower header
  match standards.findIdx? (· = lowerHeader) with
  | some i => i
  | none =>
    match (abbrevMap.lookup lowerHeader).bind fun v => standards.findIdx? (· = v) with
    | some i => i
    | none => fuzzyMatch lowerHeader standards

/-- `CSVParser::create_column_mapping` (lines 277–295); the console report is left out. -/
def createColumnMapping (headers : List (List Char)) : List ℤ :=
  headers.map fun h => findBestMatch h standardColumns

/-- The `switch` of `parse_row` (lines 308–345). -/
def CSVRow.setColumn (row : CSVRow) (column : ℤ) (value : List Char) : CSVRow :=
  match column with
  | 0 => { row with addrmapOffset := processRegularField value }
  | 1 => { row with addrmapName := processNameField value }
  | 2 => { row with regOffset := processRegularField value }
  | 3 => { row with regName := processNameField value }
  | 4 => { row with regWidth := processRegularField value }
  | 5 => { row with fieldName := processNameField value }
  | 6 => { row with fieldLsb := processRegularField value }
  | 7 => { row with fieldMsb := processRegularField value }
  | 8 => { row with resetValue := processRegularField value }
  | 9 => { row with swAccess := processRegularField value }
  | 10 => { row with hwAccess := processRegularField value }
  | 11 => { row with description := processDescription value }
  | _ => row

/-- `CSVParser::parse_row` (lines 298–349): cells and mapping entries side by side, up to the
    shorter of the two; negative entries are skipped. -/
def parseRow (fields : List (List Char)) (mapping : List ℤ) : CSVRow :=
  (fields.zip mapping).foldl
    (fun row p => if p.2 < 0 then row else row.setColumn p.2 p.1) CSVRow.empty

/-! ## `parse` -/

/-- The loop state of `parse`: `rows`, `first_line` and `column_mapping`. -/
structure ParseState where
  rows : List CSVRow
  firstLine : Bool
  columnMapping : List ℤ

/-- One iteration of the loop of `parse` (lines 57–75). -/
def parseStep (st : ParseState) (csvLine : List Char) : ParseState :=
  if csvLine = [] then st else
    let delimiter := detectDelimiter csvLine
    let fields := splitCsvLine csvLine delimiter
    if st.firstLine then ⟨st.rows, false, createColumnMapping fields⟩
    else ⟨st.rows ++ [parseRow fields st.columnMapping], st.firstLine, st.columnMapping⟩

/-- `CSVParser::parse` (lines 36–78) on the contents of the file. -/
def parse (text : List Char) : List CSVRow :=
  ((parseCsvContent (readLines text [])).foldl parseStep ⟨[], true, []⟩).rows

/-- The cell lists `parse` tokenizes from the file contents: `split_csv_line(l,
    detect_delimiter(l))` for every non-empty `l` of `parse_csv_content`. -/
def tokenize (content : List Char) : List (List (List Char)) :=
  ((parseCsvContent content).filter (· ≠ [])).map fun l => splitCsvLine l (detectDelimiter l)

theorem foldl_parseStep_rows (lines : List (List Char)) (rows : List CSVRow) (m : List ℤ) :
    lines.foldl parseStep ⟨rows, false, m⟩ =
      ⟨rows ++ ((lines.filter (· ≠ [])).map fun l => parseRow (splitCsvLine l (detectDelimiter l)) m),
        false, m⟩ := by
  induction lines generalizing rows with
  | nil => simp
  | cons l ls ih =>
    by_cases hl : l = [] <;> simp [parseStep, hl, ih]

theorem foldl_parseStep_header (lines : List (List Char)) :
    (lines.foldl parseStep ⟨[], true, []⟩).rows =
      match (lines.filter (· ≠ [])).map fun l => splitCsvLine l (detectDelimiter l) with
      | [] => []
      | h :: t => t.map fun fields => parseRow fields (createColumnMapping h) := by
  induction lines with
  | nil => rfl
  | cons l ls ih =>
    by_cases hl : l = []
    · simpa [parseStep, hl] using ih
    · simp [parseStep, hl, foldl_parseStep_rows]

/-- `parse` sends the first cell list it tokenizes to `create_column_mapping` and every later
    one to `parse_row`. -/
theorem parse_eq_tokenize (text : List Char) :
    parse text =
      match tokenize (readLines text []) with
      | [] => []
      | h :: t => t.map fun fields => parseRow fields (createColumnMapping h) :=
  foldl_parseStep_header _

/-! ## The rows back from the text -/

theorem readLines_snoc {c : Char} (hc : c ≠ '\n') (s : List Char) :
    ∀ line, readLines (s ++ [c]) line = line ++ s ++ [c, '\n'] := by
  induction s with
  | nil => intro line; cases line <;> simp [readLines, hc]
  | cons x s ih =>
    intro line
    by_cases hx : x = '\n' <;> simp [readLines, hx, ih]

theorem readLines_of_getLast? {s : List Char} (hne : s ≠ []) (h : s.getLast? ≠ some '\n') :
    readLines s [] = s ++ ['\n'] := by
  obtain ⟨t, c, rfl⟩ : ∃ t c, s = t ++ [c] := ⟨s.dropLast, s.getLast hne,
    (List.dropLast_append_getLast hne).symm⟩
  rw [readLines_snoc (fun e => h (by simp [e]))]
  simp

/-- A text whose newlines are all quoted and whose quotes are balanced does not end in `\n`. -/
theorem getLast?_ne_newline {s : List Char} (hn : NewlinesQuoted false s)
    (hq : quoteState false s = false) : s.getLast? ≠ some '\n' := by
  intro h
  obtain ⟨t, rfl⟩ := List.getLast?_eq_some_iff.mp h
  rw [newlinesQuoted_append] at hn
  rw [quoteState_append, quoteState_cons, if_neg (by decide), quoteState_nil,
    hn.2.1 rfl] at hq
  exact Bool.noConfusion hq

section Delimiter

variable {d : Char} (hd : d = ',' ∨ d = ';')
include hd

omit hd in
theorem writeCsv_ne_nil (r : Record d) (rs : List (Record d)) : writeCsv (r :: rs) ≠ [] := by
  cases rs <;> simp [writeCsv, intercalate_cons_cons, r.text_ne_nil]

theorem writeCsv_getLast? (r : Record d) (rs : List (Record d)) :
    (writeCsv (r :: rs)).getLast? ≠ some '\n' := by
  induction rs generalizing r with
  | nil =>
    obtain ⟨-, hn, hq⟩ := r.text_facts hd
    simpa [writeCsv] using getLast?_ne_newline hn hq
  | cons r' rs ih =>
    have hne := writeCsv_ne_nil r' rs
    simp only [writeCsv, List.map_cons, intercalate_cons_cons] at ih ⊢
    rw [List.getLast?_append, ← List.map_cons]
    cases h : (List.intercalate ['\n'] ((r' :: rs).map Record.text)).getLast? with
    | none => exact absurd (List.getLast?_eq_none_iff.mp h) (by simpa [writeCsv] using hne)
    | some c =>
      have := ih r'
      rw [← List.map_cons, h] at this
      simpa using this

/-- The cell lists `parse` tokenizes from an RFC 4180 text are the rows, when every record's
    text is detected with the delimiter it was written with. -/
theorem tokenize_readLines_writeCsv_eq {rows : List (Record d)}
    (hdet : ∀ r ∈ rows, detectDelimiter r.text = d) :
    tokenize (readLines (writeCsv rows) []) = rows.map Record.contents := by
  cases rows with
  | nil => rfl
  | cons r rs =>
    rw [tokenize, readLines_of_getLast? (writeCsv_ne_nil r rs) (writeCsv_getLast? hd r rs),
      (parseCsvContent_writeCsv hd _).2 (List.cons_ne_nil _ _),
      List.filter_eq_self.mpr (fun t ht => by
        obtain ⟨r', -, rfl⟩ := List.mem_map.mp ht
        simpa using r'.text_ne_nil), List.map_map]
    exact List.map_congr_left fun r' hr' => by
      simp only [Function.comp_apply, hdet r' hr', splitCsvLine_text hd]

/-- The cell lists `parse` tokenizes from an RFC 4180 text are the rows, and `parse` returns
    `parse_row` of every record after the first under the first's column mapping, when every
    record's text is detected with the delimiter it was written with. -/
theorem tokenize_readLines_writeCsv (rows : List (Record d))
    (hdet : ∀ r ∈ rows, detectDelimiter r.text = d) :
    tokenize (readLines (writeCsv rows) []) = rows.map Record.contents ∧
      parse (writeCsv rows) =
        match rows.map Record.contents with
        | [] => []
        | h :: t => t.map fun fields => parseRow fields (createColumnMapping h) := by
  have htok := tokenize_readLines_writeCsv_eq hd hdet
  exact ⟨htok, by rw [parse_eq_tokenize, htok]⟩

end Delimiter

/-- The header record `reg_name,description`. -/
def sampleHeader : Record ',' :=
  ⟨[⟨"reg_name".toList, false, fun _ => by decide⟩,
      ⟨"description".toList, false, fun _ => by decide⟩],
    by simp, fun _ h => by cases h⟩

theorem tokenize_readLines_writeCsv_sample :
    (',' = ',' ∨ ',' = ';') ∧
      (∀ r ∈ [sampleHeader, sampleRecord], detectDelimiter r.text = ',') ∧
      tokenize (readLines (writeCsv [sampleHeader, sampleRecord]) []) =
        [sampleHeader, sampleRecord].map Record.contents ∧
      parse (writeCsv [sampleHeader, sampleRecord]) =
        [parseRow sampleRecord.contents (createColumnMapping sampleHeader.contents)] :=
  have hdet : ∀ r ∈ [sampleHeader, sampleRecord], detectDelimiter r.text = ',' := by decide
  ⟨Or.inl rfl, hdet, tokenize_readLines_writeCsv (Or.inl rfl) _ hdet⟩

/-- The data record is read under the header: `a` as the register name, and the quoted cell, with
    its `,`, `"` and line break, as the description. -/
example : parse (writeCsv [sampleHeader, sampleRecord]) =
    [{ CSVRow.empty with regName := "a".toList, description := "b,\"\nc".toList }] := by
  decide

/-- A one-cell record with delimiter `;`, its bare cell holding a `,`. -/
def commaCellRecord : Record ';' :=
  ⟨[⟨"a,b".toList, false, fun _ => by decide⟩], by simp,
    fun c h _ => by obtain rfl := List.singleton_inj.mp h; decide⟩

/-- With delimiter `;`, the line `a,b` has more `,` than `;` and is split at its `,`. -/
theorem tokenize_writeCsv_semicolon :
    (';' = ',' ∨ ';' = ';') ∧
      tokenize (readLines (writeCsv [commaCellRecord]) []) = [["a".toList, "b".toList]] ∧
      tokenize (readLines (writeCsv [commaCellRecord]) []) ≠
        [commaCellRecord].map Record.contents := by
  decide

end SystemRdlToolkit.Csv
