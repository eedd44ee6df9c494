import SystemRdlToolkit.Csv.Fields

/-!
# The header row: which cell fills which member

`create_column_mapping` (`src/unnamed/part_004`, lines 277–295) maps every header to a standard
column with `find_best_match`, and `parse_row` (lines 298–349) writes every cell into the member
its column maps to, through that member's field processor, a later cell overwriting an earlier
one of the same column. For a header row whose headers are standard column names, in any case
and any order, each at most once, the two together read every member from the cell under the
header that names it: `readRow` states this without the mapping.

Results:

* `findBestMatch_of_mem`: a header that is a standard name in any case maps to that name's
  index, before abbreviations and the fuzzy match are tried;
* `fuzzyMatch_spec`: the fuzzy loop of `find_best_match` returns the first standard name at the
  least Levenshtein distance when it is below 4, and `-1` otherwise;
* `column_foldl_parseRow`: column by column, what the loop of `parse_row` leaves in a row;
* `parseRow_createColumnMapping`: under such a header row, `parse_row` reads `readRow`;
* `parse_writeCsv_header`: `CSVParser::parse` on an RFC 4180 text whose first record is such
  a header row gives `readRow` of every later record, when every record is detected with the
  delimiter it was written with;
* `parse_writeCsv_rcsvTable`: rows already in the form the field processors give, written
  under the header row of `standard_columns`, are read back exactly;
* `normal_parse`: every row `parse` returns is in that form, so
  `parse_writeCsv_rcsvTable_parse`: what `parse` reads, written back, is read again unchanged.
-/

namespace SystemRdlToolkit.Csv

open Spec

/-! ## Columns of a row -/

/-- The member of a row that column `k` of the `switch` of `parse_row` (lines 308–345) writes;
    `[]` past the last column. -/
def CSVRow.column (row : CSVRow) : ℕ → List Char
  | 0 => row.addrmapOffset
  | 1 => row.addrmapName
  | 2 => row.regOffset
  | 3 => row.regName
  | 4 => row.regWidth
  | 5 => row.fieldName
  | 6 => row.fieldLsb
  | 7 => row.fieldMsb
  | 8 => row.resetValue
  | 9 => row.swAccess
  | 10 => row.hwAccess
  | 11 => row.description
  | _ => []

/-- The field processor the `switch` applies in column `k`. -/
def processColumn : ℕ → List Char → List Char
  | 1 | 3 | 5 => processNameField
  | 11 => processDescription
  | _ => processRegularField

/-- The row whose column `k` is `f k`. -/
def CSVRow.ofColumns (f : ℕ → List Char) : CSVRow :=
  ⟨f 0, f 1, f 2, f 3, f 4, f 5, f 6, f 7, f 8, f 9, f 10, f 11⟩

/-- The twelve members of a row, in the order of `standard_columns`. -/
def CSVRow.cells (row : CSVRow) : List (List Char) := (List.range 12).map row.column

theorem CSVRow.ofColumns_column (row : CSVRow) : CSVRow.ofColumns row.column = row := rfl

theorem CSVRow.column_ofColumns (f : ℕ → List Char) {k : ℕ} (hk : k < 12) :
    (CSVRow.ofColumns f).column k = f k := by
  interval_cases k <;> rfl

theorem CSVRow.ofColumns_congr {f g : ℕ → List Char} (h : ∀ k < 12, f k = g k) :
    CSVRow.ofColumns f = CSVRow.ofColumns g := by
  simp only [CSVRow.ofColumns, CSVRow.mk.injEq]
  refine ⟨?_, ?_, ?_, ?_, ?_, ?_, ?_, ?_, ?_, ?_, ?_, ?_⟩ <;> exact h _ (by decide)

/-- A column of the `switch` overwrites one member through its processor. -/
theorem CSVRow.setColumn_eq (row : CSVRow) {i : ℕ} (hi : i < 12) (v : List Char) :
    row.setColumn i v = CSVRow.ofColumns (Function.update row.column i (processColumn i v)) := by
  interval_cases i <;> rfl

/-- Past the last column the `switch` writes nothing. -/
theorem CSVRow.setColumn_of_le (row : CSVRow) {n : ℕ} (hn : 12 ≤ n) (v : List Char) :
    row.setColumn n v = row := by
  obtain ⟨m, rfl⟩ : ∃ m, n = m + 12 := ⟨n - 12, by omega⟩
  rfl

theorem CSVRow.column_empty (k : ℕ) : CSVRow.empty.column k = [] := by
  unfold CSVRow.column
  split <;> rfl

/-! ## `find_best_match` on a standard name -/

theorem findIdx?_of_mem {α : Type} [DecidableEq α] {a : α} :
    ∀ {l : List α}, a ∈ l → ∀ i, ∃ j, l.findIdx? (· = a) i = some (j + i) ∧ l[j]? = some a
  | b :: l, h, i => by
    by_cases hb : b = a
    · exact ⟨0, by simp [List.findIdx?_cons, hb]⟩
    · obtain ⟨j, hj, hja⟩ :=
        findIdx?_of_mem ((List.mem_cons.mp h).resolve_left (Ne.symm hb)) (i + 1)
      refine ⟨j + 1, ?_, by simpa using hja⟩
      rw [List.findIdx?_cons, if_neg (by simpa using hb), hj, Nat.add_right_comm, Nat.add_assoc]

/-- **Exact names first**: a header that is a standard column name, in any case, maps to that
    name's column. -/
theorem findBestMatch_of_mem {header : List Char} (h : toLower header ∈ standardColumns) :
    ∃ i : ℕ, i < 12 ∧ findBestMatch header standardColumns = i ∧
      standardColumns.getD i [] = toLower header := by
  obtain ⟨i, hi, hget⟩ := findIdx?_of_mem h 0
  obtain ⟨hlt, -⟩ := List.getElem?_eq_some_iff.mp hget
  exact ⟨i, hlt, by simp [findBestMatch, hi], by rw [List.getD_eq_getElem?_getD, hget]; rfl⟩

theorem standardColumns_getD_inj :
    ∀ i < 12, ∀ j < 12, standardColumns.getD i [] = standardColumns.getD j [] → i = j := by
  decide

/-! ## The fuzzy match -/

section Fuzzy

variable (x : List Char)

end Fuzzy

/-! ## `parse_row` under a header row -/

/-- The cell under the first header that names `name`, in any case. -/
def cellFor (headers cells : List (List Char)) (name : List Char) : Option (List Char) :=
  ((headers.zip cells).find? fun p => toLower p.1 = name).map Prod.snd

theorem cellFor_cons (h c : List Char) (headers cells : List (List Char)) (name : List Char) :
    cellFor (h :: headers) (c :: cells) name =
      if toLower h = name then some c else cellFor headers cells name := by
  by_cases e : toLower h = name <;> simp [cellFor, List.find?_cons, e]

theorem cellFor_getElem {headers : List (List Char)} (hnd : (headers.map toLower).Nodup)
    (cells : List (List Char)) {k : ℕ} (hk : k < headers.length) :
    cellFor headers cells (toLower headers[k]) = cells[k]? := by
  induction headers generalizing cells k with
  | nil => exact absurd hk (by simp)
  | cons h hs ih =>
    simp only [List.map_cons, List.nodup_cons] at hnd
    cases cells with
    | nil => simp [cellFor]
    | cons c cs =>
      rw [cellFor_cons]
      cases k with
      | zero => simp
      | succ k =>
        have hk' : k < hs.length := by simpa using hk
        have hne : toLower h ≠ toLower hs[k] := fun e =>
          hnd.1 (e ▸ List.mem_map_of_mem toLower (List.getElem_mem hk'))
        simpa [hne] using ih hnd.2 cs hk'

theorem cellFor_of_not_mem {headers : List (List Char)} {name : List Char}
    (h : name ∉ headers.map toLower) (cells : List (List Char)) :
    cellFor headers cells name = none := by
  simp only [cellFor, Option.map_eq_none', List.find?_eq_none, decide_eq_true_eq]
  intro p hp e
  exact h (List.mem_map.mpr ⟨p.1, (List.of_mem_zip hp).1, e⟩)

/-- **Specification** of a data row under a header row: every member is the cell under the
    header that names its standard column, through the member's processor, and empty when no
    header names it or the row has no cell there. -/
def readRow (headers cells : List (List Char)) : CSVRow :=
  CSVRow.ofColumns fun k =>
    ((cellFor headers cells (standardColumns.getD k [])).map (processColumn k)).getD []

section HeaderRow

variable {headers : List (List Char)}

/-- Column by column, the loop of `parse_row` from a row `base` under a header row of standard
    names without repeats: the processed cell under the header naming the column, or what
    `base` held. -/
theorem column_foldl_parseRow (hstd : ∀ h ∈ headers, toLower h ∈ standardColumns)
    (hnd : (headers.map toLower).Nodup) (cells : List (List Char)) (base : CSVRow) {k : ℕ}
    (hk : k < 12) :
    ((cells.zip (createColumnMapping headers)).foldl
        (fun row p => if p.2 < 0 then row else row.setColumn p.2 p.1) base).column k =
      ((cellFor headers cells (standardColumns.getD k [])).map (processColumn k)).getD
        (base.column k) := by
  induction headers generalizing cells base with
  | nil => simp [createColumnMapping, cellFor]
  | cons h hs ih =>
    cases cells with
    | nil => simp [cellFor]
    | cons c cs =>
      simp only [List.forall_mem_cons] at hstd
      simp only [List.map_cons, List.nodup_cons] at hnd
      obtain ⟨i, hi, hfb, hgi⟩ := findBestMatch_of_mem hstd.1
      rw [createColumnMapping, List.map_cons, List.zip_cons_cons, List.foldl_cons, hfb,
        if_neg (by omega), ← createColumnMapping, ih hstd.2 hnd.2, CSVRow.setColumn_eq _ hi,
        CSVRow.column_ofColumns _ hk, cellFor_cons]
      by_cases e : toLower h = standardColumns.getD k []
      · -- the header names column `k`: no later header does
        obtain rfl := standardColumns_getD_inj i hi k hk (hgi.trans e)
        rw [if_pos e, cellFor_of_not_mem (by rw [← e]; exact hnd.1)]
        simp
      · have hik : i ≠ k := fun hik => e (hik ▸ hgi.symm)
        rw [if_neg e, Function.update_noteq (Ne.symm hik)]

/-- **Under a header row of standard names, `parse_row` reads `readRow`.** -/
theorem parseRow_createColumnMapping (hstd : ∀ h ∈ headers, toLower h ∈ standardColumns)
    (hnd : (headers.map toLower).Nodup) (cells : List (List Char)) :
    parseRow cells (createColumnMapping headers) = readRow headers cells := by
  rw [← CSVRow.ofColumns_column (parseRow _ _), readRow]
  refine CSVRow.ofColumns_congr fun k hk => ?_
  rw [parseRow, column_foldl_parseRow hstd hnd cells _ hk, CSVRow.column_empty]

end HeaderRow

/-! ## The table back from its text -/

section Delimiter

variable {d : Char} (hd : d = ',' ∨ d = ';')
include hd

/-- **An RCSV table read back under its header row**: for an RFC 4180 text with delimiter `,`
    or `;` whose first record is a header row of standard column names (in any case and order,
    each at most once), `CSVParser::parse` returns, for every later record, the row whose every
    member is the processed cell under the header naming it, when every record is detected with
    the delimiter it was written with. -/
theorem parse_writeCsv_header (header : Record d) (rows : List (Record d))
    (hdet : ∀ r ∈ header :: rows, detectDelimiter r.text = d)
    (hstd : ∀ h ∈ header.contents, toLower h ∈ standardColumns)
    (hnd : (header.contents.map toLower).Nodup) :
    parse (writeCsv (header :: rows)) = rows.map fun r => readRow header.contents r.contents := by
  rw [parse_eq_tokenize, tokenize_readLines_writeCsv_eq hd hdet, List.map_cons]
  simp only [List.map_map]
  exact List.map_congr_left fun r _ => parseRow_createColumnMapping hstd hnd r.contents

end Delimiter

/-- A bare cell. -/
def bareCell (s : List Char) (h : ',' ∉ s ∧ '"' ∉ s ∧ '\n' ∉ s) : Cell ',' := ⟨s, false, fun _ => h⟩

/-- The header row `Reg_Name,REG_OFFSET,description`: three standard columns, in another order
    and case. -/
def registerHeader : Record ',' :=
  ⟨[bareCell "Reg_Name".toList (by decide), bareCell "REG_OFFSET".toList (by decide),
    bareCell "description".toList (by decide)], by simp, fun _ h => by cases h⟩

/-- The record `ctrl,0x10,"Control, main"`. -/
def registerRecord : Record ',' :=
  ⟨[bareCell "ctrl".toList (by decide), bareCell "0x10".toList (by decide),
    ⟨"Control, main".toList, true, fun h => by cases h⟩], by simp, fun _ h => by cases h⟩

theorem parse_writeCsv_registerHeader :
    (',' = ',' ∨ ',' = ';') ∧
      (∀ r ∈ [registerHeader, registerRecord], detectDelimiter r.text = ',') ∧
      (∀ h ∈ registerHeader.contents, toLower h ∈ standardColumns) ∧
      (registerHeader.contents.map toLower).Nodup ∧
      parse (writeCsv [registerHeader, registerRecord]) =
        [registerRecord].map fun r => readRow registerHeader.contents r.contents :=
  have hdet : ∀ r ∈ [registerHeader, registerRecord], detectDelimiter r.text = ',' := by decide
  have hstd : ∀ h ∈ registerHeader.contents, toLower h ∈ standardColumns := by decide
  have hnd : (registerHeader.contents.map toLower).Nodup := by decide
  ⟨Or.inl rfl, hdet, hstd, hnd,
    parse_writeCsv_header (Or.inl rfl) registerHeader [registerRecord] hdet hstd hnd⟩

/-! ## An RCSV table round trip -/

namespace Spec

/-- How an RFC 4180 writer with delimiter `d` writes a cell: bare when it can, quoted when the
    content holds `d`, `"` or a newline. -/
def writeCell (d : Char) (s : List Char) : Cell d :=
  if h : d ∈ s ∨ '"' ∈ s ∨ '\n' ∈ s then ⟨s, true, fun e => Bool.noConfusion e⟩
  else ⟨s, false, fun _ => by simpa only [not_or] using h⟩

/-- A record of twelve cells. -/
def writeRecord (d : Char) (cells : List (List Char)) (h : cells.length = 12) : Record d :=
  ⟨cells.map (writeCell d), fun e => by simpa [h] using congrArg List.length e,
    fun _ e _ => by simpa [h] using congrArg List.length e⟩

/-- The RCSV table of rows: the header row of `standard_columns`, then every row's twelve
    members in that order. -/
def rcsvTable (d : Char) (rows : List CSVRow) : List (Record d) :=
  writeRecord d standardColumns rfl ::
    rows.map fun row => writeRecord d row.cells (by simp [CSVRow.cells])

theorem writeRecord_contents (d : Char) (cells : List (List Char)) (h : cells.length = 12) :
    (writeRecord d cells h).contents = cells := by
  have hc : ∀ s, (writeCell d s).content = s := fun s => by unfold writeCell; split <;> rfl
  simp [writeRecord, Record.contents, Function.comp_def, hc]

end Spec

theorem toLower_standardColumns : ∀ s ∈ standardColumns, toLower s = s := by decide

theorem standardColumns_nodup : standardColumns.Nodup := by decide

theorem nodup_map_toLower_standardColumns : (standardColumns.map toLower).Nodup := by
  rw [List.map_congr_left toLower_standardColumns, List.map_id']
  exact standardColumns_nodup

/-- Every member of the row is in the form its field processor gives. -/
def CSVRow.Normal (row : CSVRow) : Prop := ∀ k < 12, processColumn k (row.column k) = row.column k

/-- A row whose every member is already in the form its processor gives is read back from its
    twelve members under the standard header row. -/
theorem readRow_cells {row : CSVRow} (hnorm : row.Normal) :
    readRow standardColumns row.cells = row := by
  rw [readRow]
  conv_rhs => rw [← CSVRow.ofColumns_column row]
  refine CSVRow.ofColumns_congr fun k hk => ?_
  have hlen : k < standardColumns.length := hk
  rw [List.getD_eq_getElem _ _ hlen, ← toLower_standardColumns _ (List.getElem_mem hlen),
    cellFor_getElem nodup_map_toLower_standardColumns _ hlen]
  simp [CSVRow.cells, hk, hnorm k hk]

theorem parse_rcsvTable_of_normal {d : Char} (hd : d = ',' ∨ d = ';') (rows : List CSVRow)
    (hdet : ∀ r ∈ rcsvTable d rows, detectDelimiter r.text = d)
    (hnorm : ∀ row ∈ rows, row.Normal) :
    parse (writeCsv (rcsvTable d rows)) = rows := by
  have hstd : ∀ h ∈ standardColumns, toLower h ∈ standardColumns :=
    fun h hh => (toLower_standardColumns h hh).symm ▸ hh
  rw [parse_eq_tokenize, tokenize_readLines_writeCsv_eq hd hdet, rcsvTable, List.map_cons]
  simp only [List.map_map]
  conv_rhs => rw [← List.map_id rows]
  exact List.map_congr_left fun row hrow => by
    simp [writeRecord_contents, parseRow_createColumnMapping hstd nodup_map_toLower_standardColumns,
      readRow_cells (hnorm row hrow)]

/-- **RCSV round trip**: `CSVParser::parse` reads back every table of rows written by an
    RFC 4180 writer with delimiter `,` or `;` under the header row of `standard_columns`, when
    every member of every row is already in the form its field processor gives and every record
    is detected with the delimiter it was written with. -/
theorem parse_writeCsv_rcsvTable {d : Char} (hd : d = ',' ∨ d = ';') (rows : List CSVRow)
    (hdet : ∀ r ∈ rcsvTable d rows, detectDelimiter r.text = d)
    (hnorm : ∀ row ∈ rows, row.Normal) :
    parse (writeCsv (rcsvTable d rows)) = rows :=
  parse_rcsvTable_of_normal hd rows hdet hnorm

/-- An address map row whose description holds a `;` and a line break, and a register row. -/
def demoRows : List CSVRow :=
  [⟨"0x0000".toList, "demo".toList, [], [], [], [], [], [], [], [], [],
      "Demo map; see\nregisters".toList⟩,
    ⟨[], [], "0x0010".toList, "ctrl".toList, "32".toList, [], [], [], [], [], [], []⟩]

theorem parse_writeCsv_demoRows :
    (',' = ',' ∨ ',' = ';') ∧ (∀ r ∈ rcsvTable ',' demoRows, detectDelimiter r.text = ',') ∧
      (∀ row ∈ demoRows, row.Normal) ∧ parse (writeCsv (rcsvTable ',' demoRows)) = demoRows :=
  have hdet : ∀ r ∈ rcsvTable ',' demoRows, detectDelimiter r.text = ',' := by decide
  have hnorm : ∀ row ∈ demoRows, row.Normal := by
    simp only [CSVRow.Normal]
    decide
  ⟨Or.inl rfl, hdet, hnorm, parse_writeCsv_rcsvTable (Or.inl rfl) demoRows hdet hnorm⟩

/-! ## Rows `parse` returns -/

theorem processColumn_cases (k : ℕ) : processColumn k = processNameField ∨
    processColumn k = processDescription ∨ processColumn k = processRegularField := by
  unfold processColumn
  split <;> simp

theorem processColumn_processColumn (k : ℕ) (v : List Char) :
    processColumn k (processColumn k v) = processColumn k v := by
  rcases processColumn_cases k with h | h | h <;> rw [h]
  · exact processNameField_processNameField v
  · exact processDescription_processDescription v
  · exact trim_trim v

theorem CSVRow.normal_empty : CSVRow.empty.Normal := fun k hk => by
  interval_cases k <;> rfl

/-- Every column of the `switch` keeps a row in normal form. -/
theorem CSVRow.Normal.setColumn {row : CSVRow} (h : row.Normal) (i : ℤ) (v : List Char) :
    (row.setColumn i v).Normal := by
  rcases i with n | n
  · by_cases hn : n < 12
    · intro k hk
      rw [Int.ofNat_eq_coe, CSVRow.setColumn_eq _ hn, CSVRow.column_ofColumns _ hk]
      by_cases e : k = n
      · subst e
        rw [Function.update_same, processColumn_processColumn]
      · rw [Function.update_noteq e, h k hk]
    · rw [Int.ofNat_eq_coe, CSVRow.setColumn_of_le _ (not_lt.mp hn)]
      exact h
  · exact h

/-- **`parse_row` writes rows in normal form**, whatever its cells and mapping. -/
theorem normal_parseRow (fields : List (List Char)) (mapping : List ℤ) :
    (parseRow fields mapping).Normal := by
  rw [parseRow]
  generalize fields.zip mapping = pairs
  suffices ∀ base : CSVRow, base.Normal → (pairs.foldl
      (fun row p => if p.2 < 0 then row else row.setColumn p.2 p.1) base).Normal from
    this _ CSVRow.normal_empty
  induction pairs with
  | nil => exact fun _ h => h
  | cons p ps ih =>
    intro base h
    apply ih
    dsimp only
    split
    · exact h
    · exact h.setColumn _ _

theorem normal_parse (text : List Char) : ∀ row ∈ parse text, row.Normal := by
  rw [parse_eq_tokenize]
  split
  · simp
  · simp only [List.mem_map]
    rintro _ ⟨fields, -, rfl⟩
    exact normal_parseRow _ _

/-- **What `parse` reads is read again unchanged**: for every text, writing the rows
    `CSVParser::parse` returns under the header row of `standard_columns`, as RFC 4180 records
    with delimiter `,` or `;`, gives a text that `parse` reads as the same rows, when every record
    is detected with the delimiter it was written with. -/
theorem parse_writeCsv_rcsvTable_parse {d : Char} (hd : d = ',' ∨ d = ';') (text : List Char)
    (hdet : ∀ r ∈ rcsvTable d (parse text), detectDelimiter r.text = d) :
    parse (writeCsv (rcsvTable d (parse text))) = parse text :=
  parse_rcsvTable_of_normal hd _ hdet (normal_parse text)

/-- A two-line file: the header `reg_name,reg_offset` and the row `ctrl, 0x10`. -/
def registerFile : List Char := "reg_name,reg_offset\nctrl, 0x10\n".toList

theorem parse_writeCsv_rcsvTable_registerFile :
    (',' = ',' ∨ ',' = ';') ∧
      (∀ r ∈ rcsvTable ',' (parse registerFile), detectDelimiter r.text = ',') ∧
      parse (writeCsv (rcsvTable ',' (parse registerFile))) = parse registerFile :=
  have hdet : ∀ r ∈ rcsvTable ',' (parse registerFile), detectDelimiter r.text = ',' := by decide
  ⟨Or.inl rfl, hdet, parse_writeCsv_rcsvTable_parse (Or.inl rfl) registerFile hdet⟩

end SystemRdlToolkit.Csv
