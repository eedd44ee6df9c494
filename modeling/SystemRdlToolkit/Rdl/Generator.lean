import SystemRdlToolkit.Csv.Parser

/-!
# `RDLGenerator::generate`

Model of the SystemRDL writer of the `csv2rdl` converter (`src/unnamed/part_004`,
lines 385–518). `generate` reads the rows in order with the state `current_addrmap`,
`current_reg`, `in_reg` and the members `current_addrmap_offset`, `current_reg_offset`:

* an address-map row (`addrmap_offset` and `addrmap_name` non-empty) closes the open register and
  the open address map, and opens `addrmap <name> {`;
* otherwise a register row (`reg_offset` and `reg_name` non-empty) closes the open register and
  opens `reg {`; its closer `} <reg_name> @ <format_address(reg_offset)>;` is written when the
  next register or address map starts, or at the end;
* otherwise a field row (`field_name` non-empty) writes one `field { ... } <name>...;` block, but
  only while a register is open;
* every other row is ignored.

The output stream is modelled as the list of the code's write groups (`RdlChunk`), each with
the exact text the code writes (`RdlChunk.text`); `generate` is their concatenation.

Results:
* `generateChunks_eq_layoutChunks`: the write groups are exactly those of `Spec.layout rows`:
  the rows cut before every address-map row, each part cut before every register row, every
  register with the field rows of its run;
* `generate_blocks_nested`: the block openers and closers are well nested and all closed, and
  are the pre-order rendering of that layout;
* `RdlChunk.braces_text`, `braces_generate`: every `{` and `}` a write group writes outside its
  cells is one of its openers and closers, so when no cell holds a brace the braces of the text
  `generate` returns are those of the layout, and close in order;
* `generate_addrmapOffset_ignored`: the output does not depend on `addrmap_offset` beyond its
  being empty or not.
-/

namespace SystemRdlToolkit.Rdl

open SystemRdlToolkit.Csv

/-! ## Model of the code -/

/-- `RDLGenerator::format_address` (lines 487–495). -/
def formatAddress (addr : List Char) : List Char :=
  if addr = [] then "0x0000".toList
  else if addr.take 2 = "0x".toList ∨ addr.take 2 = "0X".toList then addr
  else "0x".toList ++ addr

/-- `RDLGenerator::escape_string` (lines 497–510). -/
def escapeString : List Char → List Char
  | [] => []
  | c :: s =>
    (if c = '"' then "\\\"".toList else if c = '\\' then "\\\\".toList else [c]) ++ escapeString s

/-- `    desc = "...";` with the given indentation, when the description is not empty. -/
def descLine (indent desc : List Char) : List Char :=
  if desc = [] then [] else indent ++ "desc = \"".toList ++ escapeString desc ++ "\";\n".toList

/-- The groups of writes of `generate`, each for one branch of the code. -/
inductive RdlChunk
  /-- Lines 411–416. -/
  | addrmapOpen (row : CSVRow)
  /-- Line 405: `};` and a blank line before the next address map. -/
  | addrmapClose
  /-- Line 477: the last `};`. -/
  | addrmapEnd
  /-- Lines 429–437. -/
  | regOpen (row : CSVRow)
  /-- Lines 400–401, 421–422 and 473–474, with `current_reg` and `current_reg_offset`. -/
  | regClose (name offset : List Char)
  /-- Lines 441–467. -/
  | field (row : CSVRow)

/-- The text each group writes. -/
def RdlChunk.text : RdlChunk → List Char
  | .addrmapOpen row =>
    "addrmap ".toList ++ row.addrmapName ++ " \x7b\n".toList ++
      "    name = \"".toList ++ escapeString row.addrmapName ++ "\";\n".toList ++
      descLine "    ".toList row.description ++ "\n".toList
  | .addrmapClose => "\x7d;\n\n".toList
  | .addrmapEnd => "\x7d;\n".toList
  | .regOpen row =>
    "    reg \x7b\n".toList ++
      "        name = \"".toList ++ escapeString row.regName ++ "\";\n".toList ++
      descLine "        ".toList row.description ++
      (if row.regWidth = [] then [] else "        regwidth = ".toList ++ row.regWidth ++ ";\n".toList) ++
      "\n".toList
  | .regClose name offset => "    \x7d ".toList ++ name ++ " @ ".toList ++ formatAddress offset ++ ";\n\n".toList
  | .field row =>
    "        field \x7b\n".toList ++
      "            name = \"".toList ++ escapeString row.fieldName ++ "\";\n".toList ++
      descLine "            ".toList row.description ++
      (if row.swAccess = [] then [] else "            sw = ".toList ++ toLower row.swAccess ++ ";\n".toList) ++
      (if row.hwAccess = [] then [] else "            hw = ".toList ++ toLower row.hwAccess ++ ";\n".toList) ++
      "        \x7d ".toList ++ row.fieldName ++
      (if row.fieldLsb ≠ [] ∧ row.fieldMsb ≠ [] then
        "[".toList ++ row.fieldMsb ++ ":".toList ++ row.fieldLsb ++ "]".toList else []) ++
      (if row.resetValue = [] then [] else " = ".toList ++ row.resetValue) ++
      ";\n\n".toList

/-- The state of `generate`: the groups written so far, the locals `current_addrmap`,
    `current_reg`, `in_reg`, and the members `current_addrmap_offset`, `current_reg_offset`
    (of a fresh `RDLGenerator`, as `main` makes one). -/
structure GeneratorState where
  rdl : List RdlChunk
  currentAddrmap : List Char
  currentReg : List Char
  inReg : Bool
  currentAddrmapOffset : List Char
  currentRegOffset : List Char

/-- The closer of the open register, if any. -/
def GeneratorState.pending (st : GeneratorState) : List RdlChunk :=
  if st.inReg then [.regClose st.currentReg st.currentRegOffset] else []

/-- One iteration of the loop of `generate` (lines 396–469). -/
def generateStep (st : GeneratorState) (row : CSVRow) : GeneratorState :=
  if row.addrmapOffset ≠ [] ∧ row.addrmapName ≠ [] then
    ⟨st.rdl ++ st.pending ++ (if st.currentAddrmap ≠ [] then [.addrmapClose] else []) ++
        [.addrmapOpen row],
      row.addrmapName, st.currentReg, false, row.addrmapOffset, st.currentRegOffset⟩
  else if row.regOffset ≠ [] ∧ row.regName ≠ [] then
    ⟨st.rdl ++ st.pending ++ [.regOpen row], st.currentAddrmap, row.regName, true,
      st.currentAddrmapOffset, row.regOffset⟩
  else if row.fieldName ≠ [] ∧ st.inReg = true then { st with rdl := st.rdl ++ [.field row] }
  else st

/-- The end of `generate` (lines 471–478). -/
def GeneratorState.finish (st : GeneratorState) : List RdlChunk :=
  st.rdl ++ st.pending ++ (if st.currentAddrmap ≠ [] then [.addrmapEnd] else [])

/-- The write groups of `RDLGenerator::generate` (lines 388–481). -/
def generateChunks (rows : List CSVRow) : List RdlChunk :=
  (rows.foldl generateStep ⟨[], [], [], false, [], []⟩).finish

/-- `RDLGenerator::generate` (lines 388–481): the text of `rdl.str()`. -/
def generate (rows : List CSVRow) : List Char :=
  (generateChunks rows).flatMap RdlChunk.text

/-- An RCSV table: an address map at `0x1000`, a register at the decimal offset `16` and a
    read-only field. -/
def rcsvSample : List CSVRow :=
  [{ CSVRow.empty with
      addrmapOffset := "0x1000".toList
      addrmapName := "top".toList },
    { CSVRow.empty with
      regOffset := "16".toList
      regName := "r0".toList
      regWidth := "32".toList },
    { CSVRow.empty with
      fieldName := "f".toList
      fieldLsb := "0".toList
      fieldMsb := "7".toList
      resetValue := "0".toList
      swAccess := "RO".toList
      hwAccess := "RW".toList }]

/-- The output for `rcsvSample`: no base address, the register at `0x16` (22) rather than 16,
    and `sw = ro`, which is not a SystemRDL access value (RCSV maps `RO` to `sw = r`). -/
theorem generate_rcsvSample :
    generate rcsvSample =
      ("addrmap top \x7b\n    name = \"top\";\n\n    reg \x7b\n        name = \"r0\";\n" ++
        "        regwidth = 32;\n\n        field \x7b\n            name = \"f\";\n" ++
        "            sw = ro;\n            hw = rw;\n        \x7d f[7:0] = 0;\n\n" ++
        "    \x7d r0 @ 0x16;\n\n\x7d;\n").toList := by
  rfl

/-! ## Specification: the layout the rows describe -/

namespace Spec

/-- The kinds of rows `generate` tells apart. -/
inductive RowKind
  | addrmap
  | reg
  | field
  | ignored
  deriving DecidableEq

/-- A row's kind, in the order of the tests of `generate` (lines 398, 419, 440): an address-map
    row if `addrmap_offset` and `addrmap_name` are non-empty, else a register row if `reg_offset`
    and `reg_name` are, else a field row if `field_name` is, else ignored. -/
def classify (row : CSVRow) : RowKind :=
  if row.addrmapOffset ≠ [] ∧ row.addrmapName ≠ [] then .addrmap
  else if row.regOffset ≠ [] ∧ row.regName ≠ [] then .reg
  else if row.fieldName ≠ [] then .field
  else .ignored

/-- `l` cut before every element satisfying `p`: the elements before the first such one, and
    each such element with the elements after it up to the next. -/
def splitBefore {α : Type} (p : α → Bool) : List α → List α × List (α × List α)
  | [] => ([], [])
  | x :: xs =>
    if p x then ([], (x, (splitBefore p xs).1) :: (splitBefore p xs).2)
    else (x :: (splitBefore p xs).1, (splitBefore p xs).2)

/-- The cut is a cut: the pieces put together give `l` back, no element of the first piece and
    no element after a group's head satisfies `p`, and every head does. -/
theorem splitBefore_spec {α : Type} (p : α → Bool) (l : List α) :
    l = (splitBefore p l).1 ++ (splitBefore p l).2.flatMap (fun g => g.1 :: g.2) ∧
      (∀ x ∈ (splitBefore p l).1, p x = false) ∧
      ∀ g ∈ (splitBefore p l).2, p g.1 = true ∧ ∀ x ∈ g.2, p x = false := by
  induction l with
  | nil => simp [splitBefore]
  | cons x xs ih =>
    obtain ⟨h1, h2, h3⟩ := ih
    cases hx : p x
    · simp only [splitBefore, hx, Bool.false_eq_true, if_false, List.cons_append, List.mem_cons]
      refine ⟨by rw [← h1], ?_, h3⟩
      intro y hy
      rcases hy with rfl | hy
      · exact hx
      · exact h2 y hy
    · simp only [splitBefore, hx, if_true, List.flatMap_cons, List.nil_append, List.mem_cons]
      refine ⟨by rw [List.cons_append, ← h1], by simp, ?_⟩
      intro g hg
      rcases hg with rfl | hg
      · exact ⟨hx, h2⟩
      · exact h3 g hg

/-- A register block: the register row that opens it and the field rows written inside it. -/
structure RegBlock where
  row : CSVRow
  fields : List CSVRow

/-- An address-map block: the address-map row that opens it and its register blocks. -/
structure AddrmapBlock where
  row : CSVRow
  regs : List RegBlock

/-- The register blocks of rows with no address-map row: cut before every register row; each
    register gets the field rows of its run; field rows before the first register are dropped. -/
def regBlocks (rows : List CSVRow) : List RegBlock :=
  (splitBefore (fun r => classify r = .reg) rows).2.map fun g =>
    ⟨g.1, g.2.filter fun r => classify r = .field⟩

/-- The layout the rows describe: the registers before the first address-map row (at top
    level), and every address map with the registers of the rows up to the next one. -/
def layout (rows : List CSVRow) : List RegBlock × List AddrmapBlock :=
  (regBlocks (splitBefore (fun r => classify r = .addrmap) rows).1,
    (splitBefore (fun r => classify r = .addrmap) rows).2.map fun g => ⟨g.1, regBlocks g.2⟩)

/-- The write groups of a register block. -/
def RegBlock.chunks (b : RegBlock) : List RdlChunk :=
  .regOpen b.row :: b.fields.map .field ++ [.regClose b.row.regName b.row.regOffset]

/-- The write groups of the address maps: every one but the last is closed by `};` and a blank
    line, the last by `};`. -/
def mapsChunks : List AddrmapBlock → List RdlChunk
  | [] => []
  | m :: ms =>
    .addrmapOpen m.row :: m.regs.flatMap RegBlock.chunks ++
      [if ms.isEmpty then .addrmapEnd else .addrmapClose] ++ mapsChunks ms

/-- The write groups of a layout. -/
def layoutChunks (l : List RegBlock × List AddrmapBlock) : List RdlChunk :=
  l.1.flatMap RegBlock.chunks ++ mapsChunks l.2

/-- The field groups of the rows before the first register row: written only when a
    register is already open as they come. -/
def orphanChunks (rows : List CSVRow) : List RdlChunk :=
  (((splitBefore (fun r => classify r = .reg) rows).1).filter fun r => classify r = .field).map
    .field

end Spec

open Spec

/-! ## `generate` writes the layout -/

/-- What one row does to the state, by its kind. -/
theorem generateStep_eq (st : GeneratorState) (row : CSVRow) :
    generateStep st row =
      match classify row with
      | .addrmap =>
        ⟨st.rdl ++ st.pending ++ (if st.currentAddrmap ≠ [] then [.addrmapClose] else []) ++
            [.addrmapOpen row],
          row.addrmapName, st.currentReg, false, row.addrmapOffset, st.currentRegOffset⟩
      | .reg =>
        ⟨st.rdl ++ st.pending ++ [.regOpen row], st.currentAddrmap, row.regName, true,
          st.currentAddrmapOffset, row.regOffset⟩
      | .field => if st.inReg then { st with rdl := st.rdl ++ [.field row] } else st
      | .ignored => st := by
  unfold generateStep classify
  split_ifs <;> simp_all

theorem addrmapName_ne_nil {row : CSVRow} (h : classify row = .addrmap) : row.addrmapName ≠ [] := by
  unfold classify at h
  split_ifs at h with h1
  exact h1.2

theorem splitBefore_cons {α : Type} (p : α → Bool) (x : α) (xs : List α) :
    splitBefore p (x :: xs) =
      if p x then ([], (x, (splitBefore p xs).1) :: (splitBefore p xs).2)
      else (x :: (splitBefore p xs).1, (splitBefore p xs).2) := rfl

/-- Reading rows from any state writes: the fields before the first register (if a register is
    open), the open register's closer, the top-level register blocks, the closer of the open
    address map, and the address-map blocks. -/
theorem finish_foldl_generateStep (rows : List CSVRow) (st : GeneratorState) :
    (rows.foldl generateStep st).finish =
      st.rdl ++
        (if st.inReg then orphanChunks (splitBefore (fun r => classify r = .addrmap) rows).1
          else []) ++
        st.pending ++ (layout rows).1.flatMap RegBlock.chunks ++
        (if st.currentAddrmap ≠ [] then
          [if (layout rows).2.isEmpty then .addrmapEnd else .addrmapClose] else []) ++
        mapsChunks (layout rows).2 := by
  induction rows generalizing st with
  | nil =>
    simp [GeneratorState.finish, layout, splitBefore, regBlocks, orphanChunks, mapsChunks]
  | cons r rest ih =>
    rw [List.foldl_cons, generateStep_eq, ih]
    cases hk : classify r with
    | addrmap =>
      simp [layout, splitBefore_cons, hk, regBlocks, orphanChunks, mapsChunks, splitBefore,
        addrmapName_ne_nil hk, GeneratorState.pending]
    | reg =>
      simp [layout, splitBefore_cons, hk, regBlocks, orphanChunks, GeneratorState.pending,
        RegBlock.chunks]
    | field =>
      cases hin : st.inReg <;>
        simp [layout, splitBefore_cons, hk, regBlocks, orphanChunks, GeneratorState.pending, hin]
    | ignored =>
      simp [layout, splitBefore_cons, hk, regBlocks, orphanChunks]

/-- From a fresh state, the run writes the layout (cited by the results below). -/
theorem generateChunks_layout (rows : List CSVRow) :
    generateChunks rows = layoutChunks (layout rows) := by
  simpa [GeneratorState.pending, layoutChunks] using
    finish_foldl_generateStep rows ⟨[], [], [], false, [], []⟩

/-- **`generate` writes the layout.** The write groups of `generate` are exactly those of the
    layout the rows describe, so its text is the text of that layout. -/
theorem generateChunks_eq_layoutChunks (rows : List CSVRow) :
    generateChunks rows = layoutChunks (layout rows) :=
  generateChunks_layout rows

/-! ## Blocks -/

/-- The block openers and closers in the text: `addrmap <name> {`, `reg {`, `field {`, and
    `};`, `} <reg> @ <address>;`, `} <field>...;`. -/
inductive Block
  | openAddrmap (name : List Char)
  | closeAddrmap
  | openReg
  | closeReg (name address : List Char)
  | openField
  | closeField (name : List Char)

/-- The openers and closers each write group contains. -/
def RdlChunk.blocks : RdlChunk → List Block
  | .addrmapOpen row => [.openAddrmap row.addrmapName]
  | .addrmapClose => [.closeAddrmap]
  | .addrmapEnd => [.closeAddrmap]
  | .regOpen _ => [.openReg]
  | .regClose name offset => [.closeReg name (formatAddress offset)]
  | .field row => [.openField, .closeField row.fieldName]

/-- The kinds of blocks. -/
inductive BlockKind
  | addrmap
  | reg
  | field
  deriving DecidableEq

/-- Reads openers and closers against the stack of open blocks: every closer must close the
    innermost open block, of its own kind, and nothing may stay open at the end. -/
def nestOk : List BlockKind → List Block → Bool
  | stack, [] => stack.isEmpty
  | stack, .openAddrmap _ :: bs => nestOk (.addrmap :: stack) bs
  | stack, .openReg :: bs => nestOk (.reg :: stack) bs
  | stack, .openField :: bs => nestOk (.field :: stack) bs
  | .addrmap :: stack, .closeAddrmap :: bs => nestOk stack bs
  | .reg :: stack, .closeReg _ _ :: bs => nestOk stack bs
  | .field :: stack, .closeField _ :: bs => nestOk stack bs
  | _, _ => false

/-- The openers and closers are well nested and all closed. -/
def WellNested (bs : List Block) : Prop := nestOk [] bs = true

namespace Spec

/-- The blocks of a field row: `field {` and its closer. -/
def fieldBlocks (f : CSVRow) : List Block := [.openField, .closeField f.fieldName]

/-- A register block: `reg {`, its fields, and the closer with the register row's name and
    address. -/
def RegBlock.blocks (b : RegBlock) : List Block :=
  .openReg :: b.fields.flatMap fieldBlocks ++
    [.closeReg b.row.regName (formatAddress b.row.regOffset)]

/-- An address-map block: `addrmap <name> {`, its registers, `};`. -/
def AddrmapBlock.blocks (m : AddrmapBlock) : List Block :=
  .openAddrmap m.row.addrmapName :: m.regs.flatMap RegBlock.blocks ++ [.closeAddrmap]

/-- The blocks of a layout, in order: the top-level registers, then the address maps. -/
def layoutBlocks (l : List RegBlock × List AddrmapBlock) : List Block :=
  l.1.flatMap RegBlock.blocks ++ l.2.flatMap AddrmapBlock.blocks

theorem regBlock_chunks_blocks (b : RegBlock) :
    b.chunks.flatMap RdlChunk.blocks = b.blocks := by
  simp [RegBlock.chunks, RegBlock.blocks, RdlChunk.blocks, List.flatMap_map]
  rfl

theorem mapsChunks_blocks (ms : List AddrmapBlock) :
    (mapsChunks ms).flatMap RdlChunk.blocks = ms.flatMap AddrmapBlock.blocks := by
  induction ms with
  | nil => rfl
  | cons m ms ih =>
    cases h : ms.isEmpty <;>
      simp [mapsChunks, AddrmapBlock.blocks, List.flatMap_append, ih, h, RdlChunk.blocks,
        List.flatMap_assoc, regBlock_chunks_blocks]

theorem layoutChunks_blocks (l : List RegBlock × List AddrmapBlock) :
    (layoutChunks l).flatMap RdlChunk.blocks = layoutBlocks l := by
  simp [layoutChunks, layoutBlocks, List.flatMap_append, mapsChunks_blocks, List.flatMap_assoc,
    regBlock_chunks_blocks]

theorem nestOk_fieldBlocks (fs : List CSVRow) (stack : List BlockKind) (rest : List Block) :
    nestOk stack (fs.flatMap fieldBlocks ++ rest) = nestOk stack rest := by
  induction fs with
  | nil => rfl
  | cons f fs ih => simp [fieldBlocks, nestOk, ih]

theorem nestOk_regBlocks (bs : List RegBlock) (stack : List BlockKind) (rest : List Block) :
    nestOk stack (bs.flatMap RegBlock.blocks ++ rest) = nestOk stack rest := by
  induction bs with
  | nil => rfl
  | cons b bs ih => simp [RegBlock.blocks, nestOk, nestOk_fieldBlocks, ih]

theorem nestOk_addrmapBlocks (ms : List AddrmapBlock) (stack : List BlockKind)
    (rest : List Block) :
    nestOk stack (ms.flatMap AddrmapBlock.blocks ++ rest) = nestOk stack rest := by
  induction ms with
  | nil => rfl
  | cons m ms ih => simp [AddrmapBlock.blocks, nestOk, nestOk_regBlocks, ih]

theorem layoutBlocks_wellNested (l : List RegBlock × List AddrmapBlock) :
    WellNested (layoutBlocks l) := by
  simpa [WellNested, layoutBlocks, nestOk_regBlocks] using
    nestOk_addrmapBlocks l.2 [] []

end Spec

/-- **Block structure of `generate`.** For every sequence of rows, the openers and closers
    `generate` writes are the pre-order rendering of the layout the rows describe (each register
    block directly inside the address map of the nearest preceding address-map row, or at top
    level; each field row with a register row before it and no address-map row in between
    written once, in order, inside the block of the nearest such register row; each register
    closer with the name and address of the row that opened it), and they are well nested and
    all closed. -/
theorem generate_blocks_nested (rows : List CSVRow) :
    (generateChunks rows).flatMap RdlChunk.blocks = layoutBlocks (layout rows) ∧
      WellNested ((generateChunks rows).flatMap RdlChunk.blocks) := by
  rw [generateChunks_layout, layoutChunks_blocks]
  exact ⟨rfl, layoutBlocks_wellNested _⟩

/-! ## The braces of the text

The openers and closers of `RdlChunk.blocks` are those of the text: every `{` and `}` that
`RdlChunk.text` writes outside cell text is one of them, in order (`RdlChunk.braces_text`). So
when no cell holds a brace, the braces of the text `generate` returns are the block structure of
the layout, and they close in order (`braces_generate`). -/

/-- A brace. -/
def isBrace (c : Char) : Bool := c = '\x7b' ∨ c = '\x7d'

/-- The braces of a text, in order. -/
def braces (s : List Char) : List Char := s.filter isBrace

/-- The brace an opener or closer writes. -/
def Block.brace : Block → Char
  | .openAddrmap _ | .openReg | .openField => '\x7b'
  | .closeAddrmap | .closeReg _ _ | .closeField _ => '\x7d'

/-- Reads braces with the count of open ones: a `}` needs an open `{`, and none may stay open
    at the end. -/
def bracesClose : Nat → List Char → Bool
  | depth, [] => depth = 0
  | depth, c :: s =>
    if c = '\x7b' then bracesClose (depth + 1) s
    else if c = '\x7d' then (match depth with
      | 0 => false
      | d + 1 => bracesClose d s)
    else bracesClose depth s

/-- No member that `generate` writes holds a brace. -/
def RowBraceFree (row : CSVRow) : Prop :=
  ∀ s ∈ [row.addrmapName, row.regOffset, row.regName, row.regWidth, row.fieldName, row.fieldLsb,
    row.fieldMsb, row.resetValue, row.swAccess, row.hwAccess, row.description], braces s = []

instance : DecidablePred RowBraceFree := fun _ =>
  inferInstanceAs (Decidable (∀ s ∈ [_, _, _, _, _, _, _, _, _, _, _], braces s = []))

/-- The cells a write group writes hold no brace. -/
def RdlChunk.BraceFree : RdlChunk → Prop
  | .addrmapOpen row | .regOpen row | .field row => RowBraceFree row
  | .addrmapClose | .addrmapEnd => True
  | .regClose name offset => braces name = [] ∧ braces offset = []

@[simp] theorem braces_nil : braces [] = [] := rfl

@[simp] theorem braces_append (s t : List Char) : braces (s ++ t) = braces s ++ braces t :=
  List.filter_append _ _

theorem braces_cons (c : Char) (s : List Char) :
    braces (c :: s) = if isBrace c then c :: braces s else braces s := by
  by_cases h : isBrace c <;> simp [braces, List.filter_cons, h]

theorem toNat_ofNat_add_32 {n : Nat} (h : n ≤ 90) : (Char.ofNat (n + 32)).toNat = n + 32 := by
  simp [Char.ofNat, Char.ofNatAux, show (n + 32).isValidChar from Or.inl (by omega), Char.toNat,
    UInt32.toNat, BitVec.toNat_ofNatLt]

/-- `::tolower` moves only `A`–`Z`, none of which is a brace, to `a`–`z`, none of which is
    one either. -/
theorem isBrace_toLower (c : Char) : isBrace (Char.toLower c) = isBrace c := by
  have hlt : ∀ d : Char, d.toNat < 123 → isBrace d = false := fun d hd => by
    simp only [isBrace, decide_eq_false_iff_not, not_or]
    constructor <;> rintro rfl <;> exact absurd hd (by decide)
  dsimp only [Char.toLower]
  split_ifs with hu
  · rw [hlt c (by omega), hlt _ (by rw [toNat_ofNat_add_32 hu.2]; omega)]
  · rfl

theorem toLower_of_isBrace {c : Char} (h : isBrace c = true) : Char.toLower c = c := by
  simp only [isBrace, decide_eq_true_eq] at h
  rcases h with rfl | rfl <;> decide

/-- `to_lower` keeps braces as they are. -/
theorem braces_toLower (s : List Char) : braces (toLower s) = braces s := by
  induction s with
  | nil => rfl
  | cons c s ih =>
    rw [toLower, List.map_cons, ← toLower, braces_cons, braces_cons, ih, isBrace_toLower]
    split_ifs with h
    · rw [toLower_of_isBrace h]
    · rfl

/-- `escape_string` escapes quotes and backslashes only, so it keeps braces. -/
theorem braces_escapeString (s : List Char) : braces (escapeString s) = braces s := by
  induction s with
  | nil => rfl
  | cons c s ih =>
    rw [escapeString, braces_append, ih, braces_cons]
    split_ifs <;> simp_all [braces, isBrace]

theorem braces_formatAddress (s : List Char) : braces (formatAddress s) = braces s := by
  unfold formatAddress
  split_ifs with h
  · subst h; rfl
  · rfl
  · simp [braces, isBrace]

theorem braces_ite (p : Prop) [Decidable p] (s t : List Char) :
    braces (if p then s else t) = if p then braces s else braces t :=
  apply_ite _ _ _ _

theorem braces_descLine (indent desc : List Char) :
    braces (descLine indent desc) = if desc = [] then [] else braces indent ++ braces desc := by
  unfold descLine
  split_ifs
  · rfl
  · simp [braces_cons, isBrace, braces_escapeString]

/-- A text with no brace, such as a literal piece of the output. -/
theorem braces_eq_nil {s : List Char} (h : s.all (fun c => !isBrace c) = true) : braces s = [] :=
  List.filter_eq_nil_iff.mpr fun c hc => by simpa using List.all_eq_true.mp h c hc

/-- **Each write group writes exactly its openers and closers**: when its cells hold no brace,
    the braces of its text are those of `RdlChunk.blocks`, in order. -/
theorem RdlChunk.braces_text {c : RdlChunk} (h : c.BraceFree) :
    braces c.text = c.blocks.map Block.brace := by
  cases c with
  | addrmapOpen row | regOpen row | field row =>
    simp only [RdlChunk.BraceFree, RowBraceFree, List.forall_mem_cons,
      List.forall_mem_singleton] at h
    obtain ⟨h1, h2, h3, h4, h5, h6, h7, h8, h9, h10, h11⟩ := h
    simp (disch := decide) only [RdlChunk.text, braces_append, braces_ite, braces_descLine,
      braces_escapeString, braces_toLower, braces_eq_nil, h1, h3, h4, h5, h6, h7, h8, h9, h10, h11,
      List.append_nil, List.nil_append, ite_self]
    rfl
  | addrmapClose | addrmapEnd => rfl
  | regClose name offset =>
    simp (disch := decide) only [RdlChunk.text, braces_append, braces_formatAddress, braces_eq_nil,
      h.1, h.2, List.append_nil, List.nil_append]
    rfl

/-! ### A run keeps brace-free cells -/

/-- The write groups so far and the open register's name and offset hold no brace. -/
def GeneratorState.BraceFree (st : GeneratorState) : Prop :=
  (∀ c ∈ st.rdl, c.BraceFree) ∧ braces st.currentReg = [] ∧ braces st.currentRegOffset = []

theorem GeneratorState.BraceFree.pending {st : GeneratorState} (h : st.BraceFree) :
    ∀ c ∈ st.pending, c.BraceFree := by
  unfold GeneratorState.pending
  split_ifs <;> simp [RdlChunk.BraceFree, h.2.1, h.2.2]

/-- One row keeps the state's cells brace-free. -/
theorem GeneratorState.BraceFree.step {st : GeneratorState} (h : st.BraceFree) {row : CSVRow}
    (hr : RowBraceFree row) : (generateStep st row).BraceFree := by
  have hreg : braces row.regName = [] ∧ braces row.regOffset = [] :=
    ⟨hr _ (by simp), hr _ (by simp)⟩
  have hp := h.pending
  rw [generateStep_eq]
  cases classify row with
  | addrmap =>
    refine ⟨?_, h.2⟩
    simp only [List.forall_mem_append, List.forall_mem_singleton]
    refine ⟨⟨⟨h.1, hp⟩, ?_⟩, hr⟩
    split_ifs <;> simp [RdlChunk.BraceFree]
  | reg =>
    refine ⟨?_, hreg⟩
    simp only [List.forall_mem_append, List.forall_mem_singleton]
    exact ⟨⟨h.1, hp⟩, hr⟩
  | field =>
    dsimp only
    split_ifs
    · refine ⟨?_, h.2⟩
      simp only [List.forall_mem_append, List.forall_mem_singleton]
      exact ⟨h.1, hr⟩
    · exact h
  | ignored => exact h

theorem GeneratorState.BraceFree.foldl {rows : List CSVRow}
    (hr : ∀ row ∈ rows, RowBraceFree row) :
    ∀ {st : GeneratorState}, st.BraceFree → (rows.foldl generateStep st).BraceFree := by
  induction rows with
  | nil => exact fun h => h
  | cons row rows ih =>
    rw [List.forall_mem_cons] at hr
    exact fun h => ih hr.2 (h.step hr.1)

theorem generateChunks_braceFree {rows : List CSVRow} (hr : ∀ row ∈ rows, RowBraceFree row) :
    ∀ c ∈ generateChunks rows, c.BraceFree := by
  have h : (rows.foldl generateStep ⟨[], [], [], false, [], []⟩).BraceFree :=
    GeneratorState.BraceFree.foldl hr ⟨by simp, rfl, rfl⟩
  simp only [generateChunks, GeneratorState.finish, List.forall_mem_append]
  refine ⟨⟨h.1, h.pending⟩, ?_⟩
  split_ifs <;> simp [RdlChunk.BraceFree]

/-! ### The braces of `generate` -/

/-- A well-nested run of openers and closers writes braces that close in order. -/
theorem bracesClose_of_nestOk : ∀ (stack : List BlockKind) (bs : List Block),
    nestOk stack bs = true → bracesClose stack.length (bs.map Block.brace) = true
  | stack, [], h => by
    cases stack with
    | nil => rfl
    | cons => simp [nestOk] at h
  | stack, .openAddrmap _ :: bs, h | stack, .openReg :: bs, h | stack, .openField :: bs, h => by
    rw [nestOk] at h
    simpa [bracesClose, Block.brace] using bracesClose_of_nestOk _ bs h
  | [], .closeAddrmap :: _, h | [], .closeReg .. :: _, h | [], .closeField _ :: _, h => by
    simp [nestOk] at h
  | k :: stack, .closeAddrmap :: bs, h | k :: stack, .closeReg .. :: bs, h
  | k :: stack, .closeField _ :: bs, h => by
    -- only a closer of the innermost block's kind is accepted
    cases k <;> simp [nestOk] at h
    simpa [bracesClose, Block.brace] using bracesClose_of_nestOk stack bs h

/-- **The braces of the text are the block structure.** For every sequence of rows in which no
    member `generate` writes holds a brace, the `{` and `}` of the text `generate` returns are
    the openers and closers of the layout the rows describe, in order, and they close in order:
    no `}` without an open `{`, and none left open at the end. -/
theorem braces_generate (rows : List CSVRow) (h : ∀ row ∈ rows, RowBraceFree row) :
    braces (generate rows) = (layoutBlocks (layout rows)).map Block.brace ∧
      bracesClose 0 (braces (generate rows)) = true := by
  have hb : braces (generate rows) = (layoutBlocks (layout rows)).map Block.brace := by
    rw [generate, braces, List.filter_flatMap, ← layoutChunks_blocks, ← generateChunks_layout,
      List.map_flatMap]
    exact List.flatMap_congr fun c hc => RdlChunk.braces_text (generateChunks_braceFree h c hc)
  exact ⟨hb, hb ▸ bracesClose_of_nestOk [] _ (layoutBlocks_wellNested _)⟩

theorem braces_generate_rcsvSample :
    (∀ row ∈ rcsvSample, RowBraceFree row) ∧
      braces (generate rcsvSample) = (layoutBlocks (layout rcsvSample)).map Block.brace ∧
      bracesClose 0 (braces (generate rcsvSample)) = true :=
  have h : ∀ row ∈ rcsvSample, RowBraceFree row := by decide
  ⟨h, braces_generate rcsvSample h⟩

example : braces (generate rcsvSample) = "\x7b\x7b\x7b\x7d\x7d\x7d".toList := by decide

/-! ## The address map's base -/

/-- The row with its `addrmap_offset` replaced by `o` when it is not empty. -/
def withAddrmapOffset (o : List Char) (row : CSVRow) : CSVRow :=
  { row with addrmapOffset := if row.addrmapOffset = [] then [] else o }

/-- The same write group with its row's `addrmap_offset` replaced. -/
def RdlChunk.withAddrmapOffset (o : List Char) : RdlChunk → RdlChunk
  | .addrmapOpen row => .addrmapOpen (Rdl.withAddrmapOffset o row)
  | .regOpen row => .regOpen (Rdl.withAddrmapOffset o row)
  | .field row => .field (Rdl.withAddrmapOffset o row)
  | c => c

theorem RdlChunk.text_withAddrmapOffset (o : List Char) (c : RdlChunk) :
    (c.withAddrmapOffset o).text = c.text := by
  cases c <;> rfl

theorem classify_withAddrmapOffset {o : List Char} (ho : o ≠ []) (row : CSVRow) :
    classify (withAddrmapOffset o row) = classify row := by
  unfold classify withAddrmapOffset
  split_ifs <;> simp_all

theorem classify_comp_withAddrmapOffset {o : List Char} (ho : o ≠ []) (k : RowKind) :
    (fun r => decide (classify r = k)) ∘ withAddrmapOffset o = fun r => decide (classify r = k) := by
  funext r
  simp [classify_withAddrmapOffset ho]

theorem splitBefore_map {α β : Type} (p : β → Bool) (f : α → β) (l : List α) :
    splitBefore p (l.map f) =
      ((splitBefore (p ∘ f) l).1.map f,
        (splitBefore (p ∘ f) l).2.map fun g => (f g.1, g.2.map f)) := by
  induction l with
  | nil => rfl
  | cons x xs ih =>
    rw [List.map_cons, splitBefore_cons, splitBefore_cons, ih, Function.comp_apply]
    cases p (f x) <;> rfl

/-- A register block with `addrmap_offset` replaced in each of its rows. -/
def Spec.RegBlock.withAddrmapOffset (o : List Char) (b : RegBlock) : RegBlock :=
  ⟨Rdl.withAddrmapOffset o b.row, b.fields.map (Rdl.withAddrmapOffset o)⟩

/-- An address map block with `addrmap_offset` replaced in each of its rows. -/
def Spec.AddrmapBlock.withAddrmapOffset (o : List Char) (m : AddrmapBlock) : AddrmapBlock :=
  ⟨Rdl.withAddrmapOffset o m.row, m.regs.map (RegBlock.withAddrmapOffset o)⟩

theorem Spec.RegBlock.chunks_withAddrmapOffset (o : List Char) (b : RegBlock) :
    (b.withAddrmapOffset o).chunks = b.chunks.map (RdlChunk.withAddrmapOffset o) := by
  simp [RegBlock.chunks, RegBlock.withAddrmapOffset, RdlChunk.withAddrmapOffset,
    Rdl.withAddrmapOffset]

theorem mapsChunks_withAddrmapOffset (o : List Char) (ms : List AddrmapBlock) :
    mapsChunks (ms.map (AddrmapBlock.withAddrmapOffset o)) =
      (mapsChunks ms).map (RdlChunk.withAddrmapOffset o) := by
  induction ms with
  | nil => rfl
  | cons m ms ih =>
    cases ms <;>
      simp_all [mapsChunks, AddrmapBlock.withAddrmapOffset, List.map_flatMap, List.flatMap_map,
        RegBlock.chunks_withAddrmapOffset, RdlChunk.withAddrmapOffset]

theorem layout_withAddrmapOffset {o : List Char} (ho : o ≠ []) (rows : List CSVRow) :
    layout (rows.map (withAddrmapOffset o)) =
      ((layout rows).1.map (RegBlock.withAddrmapOffset o),
        (layout rows).2.map (AddrmapBlock.withAddrmapOffset o)) := by
  have hr : ∀ rs : List CSVRow, regBlocks (rs.map (withAddrmapOffset o)) =
      (regBlocks rs).map (RegBlock.withAddrmapOffset o) := fun rs => by
    simp [regBlocks, splitBefore_map, List.filter_map, classify_comp_withAddrmapOffset ho,
      RegBlock.withAddrmapOffset]
  simp [layout, splitBefore_map, classify_comp_withAddrmapOffset ho, hr,
    AddrmapBlock.withAddrmapOffset]

theorem layoutChunks_withAddrmapOffset {o : List Char} (ho : o ≠ []) (rows : List CSVRow) :
    layoutChunks (layout (rows.map (withAddrmapOffset o))) =
      (layoutChunks (layout rows)).map (RdlChunk.withAddrmapOffset o) := by
  simp only [layoutChunks, layout_withAddrmapOffset ho, mapsChunks_withAddrmapOffset,
    List.flatMap_map, RegBlock.chunks_withAddrmapOffset, List.map_append, List.map_flatMap]

/-- `generate` never writes `addrmap_offset`: for every sequence of rows, replacing every
    non-empty `addrmap_offset` by any other non-empty text leaves the output unchanged. The
    address map is written as `addrmap <name> { ... };`, a definition with no base address. -/
theorem generate_addrmapOffset_ignored (rows : List CSVRow) {o : List Char} (ho : o ≠ []) :
    generate (rows.map (withAddrmapOffset o)) = generate rows := by
  simp only [generate, generateChunks_layout, layoutChunks_withAddrmapOffset ho,
    List.flatMap_map, RdlChunk.text_withAddrmapOffset]

theorem generate_rcsvSample_rebased :
    "0x2000".toList ≠ [] ∧
      generate (rcsvSample.map (withAddrmapOffset "0x2000".toList)) = generate rcsvSample :=
  ⟨by decide, generate_addrmapOffset_ignored rcsvSample (by decide)⟩

end SystemRdlToolkit.Rdl
