import SystemRdlToolkit.Json.Value

/-!
# Reading JSON text

A reader for the JSON text (RFC 8259) the program writes, used to say what a written text
means: `lex` cuts it into tokens, `parseValue` reads the tokens by the JSON grammar, and
`parseJson` is both. A text is well formed when `parseJson` returns a value.

The lexer reads one character at a time (`lexStep`), so that it is structurally recursive and
each piece of written text can be lexed on its own. String tokens keep their escapes; they
are decoded by `decodeString`, which rejects a raw control character (below U+0020), as the
grammar does. Bare words are read as `true`, `false`, `null` or an integer; no text written
by the program holds a fraction, an exponent or a `\u` escape, and the reader does not read
surrogate pairs.

Pieces of written text are lexed on their own: `LexesTo text toks` says that `text` lexes to
`toks` in front of any rest that does not continue a bare word, and `LexesToTop text toks`
that it does so in front of any rest at all (the piece ends between tokens).

Results:

* `LexesTo.append`, `LexesToTop.append_lexesTo`: lexing is compositional over such pieces;
* `lexesToTop_escapeString`: a string written by `JsonBuilder::escape_string` is one string
  token holding `escapeBody`;
* `lexesTo_word`, `lexesToTop_ws`, `lexesToTop_punct`: bare words, whitespace and structural
  characters.
-/

namespace SystemRdlToolkit.Json

/-! ## Tokens -/

/-- JSON whitespace: space, tab, line feed and carriage return. -/
def isWs (c : Char) : Bool := c = ' ' ∨ c = '\t' ∨ c = '\n' ∨ c = '\r'

/-- A character of a bare word: a number, `true`, `false` or `null`. -/
def isWordChar (c : Char) : Bool := c.isAlphanum ∨ c = '-' ∨ c = '+' ∨ c = '.'

inductive Token where
  | lbrace
  | rbrace
  | lbrack
  | rbrack
  | colon
  | comma
  /-- The characters between the quotes, escapes not decoded. -/
  | str (raw : List Char)
  | word (text : List Char)
deriving DecidableEq, Repr

/-- The token a structural character stands for. -/
def punctToken : Char → Option Token
  | '{' => some .lbrace
  | '}' => some .rbrace
  | '[' => some .lbrack
  | ']' => some .rbrack
  | ':' => some .colon
  | ',' => some .comma
  | _ => none

/-- Where the lexer is: between tokens, inside a string (after a backslash or not), or
    inside a bare word. -/
inductive LexState where
  | top
  | str (raw : List Char) (escaped : Bool)
  | word (text : List Char)
deriving DecidableEq, Repr

/-- A character read between tokens. -/
def lexTop (c : Char) : Option (List Token × LexState) :=
  if isWs c then some ([], .top)
  else if c = '"' then some ([], .str [] false)
  else if isWordChar c then some ([], .word [c])
  else (punctToken c).map fun t => ([t], .top)

/-- One character: the tokens it completes and the next state. -/
def lexStep : LexState → Char → Option (List Token × LexState)
  | .top, c => lexTop c
  | .str raw true, c => some ([], .str (raw ++ [c]) false)
  | .str raw false, c =>
    if c = '"' then some ([.str raw], .top) else some ([], .str (raw ++ [c]) (c = '\\'))
  | .word t, c =>
    if isWordChar c then some ([], .word (t ++ [c]))
    else (lexTop c).map fun r => (.word t :: r.1, r.2)

/-- The tokens still open at the end of the text. -/
def LexState.finish : LexState → Option (List Token)
  | .top => some []
  | .str _ _ => none
  | .word t => some [.word t]

/-- Lex the rest of the text from a state. -/
def lexFrom : LexState → List Char → Option (List Token)
  | st, [] => st.finish
  | st, c :: s => (lexStep st c).bind fun r => (lexFrom r.2 s).map (r.1 ++ ·)

/-- Lex a text. -/
def lex (text : List Char) : Option (List Token) := lexFrom .top text

/-! ## Decoding -/

/-- The character a two-character escape `\c` stands for. -/
def simpleEscape : Char → Option Char
  | '"' => some '"'
  | '\\' => some '\\'
  | '/' => some '/'
  | 'b' => some (Char.ofNat 8)
  | 'f' => some (Char.ofNat 12)
  | 'n' => some '\n'
  | 'r' => some '\r'
  | 't' => some '\t'
  | _ => none

/-- The character of a `\uXXXX` escape outside the surrogates. -/
def unicodeEscape (a b c d : Char) : Option Char :=
  (readDigits 16 [a, b, c, d]).bind fun n =>
    if n < 0xD800 ∨ 0xDFFF < n then some (Char.ofNat n) else none

/-- The text a string token stands for. -/
def decodeString : List Char → Option (List Char)
  | [] => some []
  | '\\' :: 'u' :: a :: b :: c :: d :: s =>
    (unicodeEscape a b c d).bind fun x => (decodeString s).map (x :: ·)
  | '\\' :: e :: s => (simpleEscape e).bind fun x => (decodeString s).map (x :: ·)
  | c :: s => if c.toNat < 0x20 then none else (decodeString s).map (c :: ·)

/-- `0`, or decimal digits with no leading zero. -/
def readNat (ds : List Char) : Option Nat :=
  if ds.head? = some '0' ∧ ds.length > 1 then none else readDigits 10 ds

/-- An integer: an optional minus sign, then a natural number. -/
def readInt : List Char → Option Int
  | '-' :: ds => (readNat ds).map fun n : Nat => -(n : Int)
  | ds => (readNat ds).map Int.ofNat

/-- The value of a bare word. -/
def decodeWord (t : List Char) : Option Value :=
  if t = "true".toList then some (.bool true)
  else if t = "false".toList then some (.bool false)
  else if t = "null".toList then some .null
  else (readInt t).map .num

/-! ## Grammar -/

mutual

/-- A value, with the tokens after it. `fuel` bounds the nesting. -/
def parseValue : Nat → List Token → Option (Value × List Token)
  | 0, _ => none
  | _ + 1, .lbrack :: .rbrack :: ts => some (.arr [], ts)
  | n + 1, .lbrack :: ts => parseElems n ts []
  | _ + 1, .lbrace :: .rbrace :: ts => some (.obj [], ts)
  | n + 1, .lbrace :: ts => parseMembers n ts []
  | _ + 1, .str raw :: ts => (decodeString raw).map fun s => (.str s, ts)
  | _ + 1, .word t :: ts => (decodeWord t).map fun v => (v, ts)
  | _ + 1, _ => none

/-- The elements of an array after `[` and the elements `acc` read so far. -/
def parseElems : Nat → List Token → List Value → Option (Value × List Token)
  | 0, _, _ => none
  | n + 1, ts, acc =>
    match parseValue n ts with
    | some (v, .comma :: ts') => parseElems n ts' (acc ++ [v])
    | some (v, .rbrack :: ts') => some (.arr (acc ++ [v]), ts')
    | _ => none

/-- The members of an object after `{` and the members `acc` read so far. -/
def parseMembers : Nat → List Token → List (List Char × Value) → Option (Value × List Token)
  | 0, _, _ => none
  | n + 1, .str raw :: .colon :: ts, acc =>
    match decodeString raw, parseValue n ts with
    | some k, some (v, .comma :: ts') => parseMembers n ts' (acc ++ [(k, v)])
    | some k, some (v, .rbrace :: ts') => some (.obj (acc ++ [(k, v)]), ts')
    | _, _ => none
  | _ + 1, _, _ => none

end

/-- Read a whole text as one JSON value. -/
def parseJson (text : List Char) : Option Value :=
  (lex text).bind fun ts =>
    match parseValue (ts.length + 1) ts with
    | some (v, []) => some v
    | _ => none

/-! ## Lexing pieces of text -/

/-- The text does not continue a bare word. -/
def StartsOutsideWord (s : List Char) : Prop := ∀ c ∈ s.head?, isWordChar c = false

/-- `text` lexes to `toks` in front of any rest that does not continue a bare word. -/
def LexesTo (text : List Char) (toks : List Token) : Prop :=
  ∀ rest, StartsOutsideWord rest → lexFrom .top (text ++ rest) = (lexFrom .top rest).map (toks ++ ·)

/-- `text` lexes to `toks` in front of any rest: it ends between tokens. -/
def LexesToTop (text : List Char) (toks : List Token) : Prop :=
  ∀ rest, lexFrom .top (text ++ rest) = (lexFrom .top rest).map (toks ++ ·)

@[simp] theorem startsOutsideWord_nil : StartsOutsideWord [] := by
  simp [StartsOutsideWord]

@[simp] theorem startsOutsideWord_cons (c : Char) (s : List Char) :
    StartsOutsideWord (c :: s) ↔ isWordChar c = false := by
  simp [StartsOutsideWord]

theorem StartsOutsideWord.append {a b : List Char} (ha : StartsOutsideWord a)
    (hb : StartsOutsideWord b) : StartsOutsideWord (a ++ b) := by
  cases a with
  | nil => exact hb
  | cons c a => simpa using ha

theorem lex_of_lexesTo {text : List Char} {toks : List Token} (h : LexesTo text toks) :
    lex text = some toks := by
  simpa [lex, lexFrom, LexState.finish] using h [] startsOutsideWord_nil

theorem lexesTo_nil : LexesTo [] [] := fun rest _ => by simp

theorem lexesToTop_nil : LexesToTop [] [] := fun rest => by simp

theorem LexesToTop.lexesTo {a : List Char} {ta : List Token} (ha : LexesToTop a ta) :
    LexesTo a ta := fun rest _ => ha rest

theorem LexesTo.append {a b : List Char} {ta tb : List Token} (ha : LexesTo a ta)
    (hb : LexesTo b tb) (hb' : StartsOutsideWord b) : LexesTo (a ++ b) (ta ++ tb) :=
  fun rest hr => by
    rw [List.append_assoc, ha _ (hb'.append hr), hb _ hr, Option.map_map]
    simp [Function.comp_def]

theorem LexesToTop.append_lexesTo {a b : List Char} {ta tb : List Token} (ha : LexesToTop a ta)
    (hb : LexesTo b tb) : LexesTo (a ++ b) (ta ++ tb) :=
  fun rest hr => by
    rw [List.append_assoc, ha, hb _ hr, Option.map_map]
    simp [Function.comp_def]

theorem LexesTo.append_lexesToTop {a b : List Char} {ta tb : List Token} (ha : LexesTo a ta)
    (hb : LexesToTop b tb) (hb' : StartsOutsideWord b) (hne : b ≠ []) :
    LexesToTop (a ++ b) (ta ++ tb) :=
  fun rest => by
    obtain ⟨c, b, rfl⟩ := List.exists_cons_of_ne_nil hne
    have hr : StartsOutsideWord (c :: b ++ rest) := by simpa using hb'
    rw [List.append_assoc, ha _ hr, hb, Option.map_map]
    simp [Function.comp_def]

theorem LexesToTop.append {a b : List Char} {ta tb : List Token} (ha : LexesToTop a ta)
    (hb : LexesToTop b tb) : LexesToTop (a ++ b) (ta ++ tb) :=
  fun rest => by
    rw [List.append_assoc, ha, hb, Option.map_map]
    simp [Function.comp_def]

theorem lexFrom_top_cons (c : Char) (s : List Char) :
    lexFrom .top (c :: s) = (lexTop c).bind fun r => (lexFrom r.2 s).map (r.1 ++ ·) := rfl

theorem isWs_eq_false {c : Char} (h : isWordChar c) : isWs c = false := by
  unfold isWs
  by_contra hc
  simp only [Bool.not_eq_false, decide_eq_true_eq] at hc
  rcases hc with rfl | rfl | rfl | rfl <;> exact absurd h (by decide)

theorem ne_quote_of_isWordChar {c : Char} (h : isWordChar c) : c ≠ '"' := by
  rintro rfl
  exact absurd h (by decide)

theorem lexesToTop_ws {c : Char} (h : isWs c) : LexesToTop [c] [] := fun rest => by
  simp [lexFrom_top_cons, lexTop, h]

theorem lexesToTop_punct {c : Char} {t : Token} (h : punctToken c = some t) :
    LexesToTop [c] [t] := fun rest => by
    have hc : isWs c = false ∧ c ≠ '"' ∧ isWordChar c = false := by
      revert h; unfold punctToken; split <;> intro h <;> simp at h <;> decide
    simp [lexFrom_top_cons, lexTop, hc, h]

theorem lexFrom_word (acc t rest : List Char) (ht : ∀ c ∈ t, isWordChar c) :
    lexFrom (.word acc) (t ++ rest) = lexFrom (.word (acc ++ t)) rest := by
  induction t generalizing acc with
  | nil => simp
  | cons c t ih =>
    simp only [List.mem_cons, forall_eq_or_imp] at ht
    simp [lexFrom, lexStep, ht.1, ih _ ht.2]

theorem lexFrom_word_end (acc rest : List Char) (hr : StartsOutsideWord rest) :
    lexFrom (.word acc) rest = (lexFrom .top rest).map (.word acc :: ·) := by
  cases rest with
  | nil => rfl
  | cons c rest =>
    simp only [startsOutsideWord_cons] at hr
    simp only [lexFrom, lexStep, hr, Bool.false_eq_true, if_false]
    cases lexTop c <;> simp [Function.comp_def]

theorem lexesTo_word {t : List Char} (hne : t ≠ []) (ht : ∀ c ∈ t, isWordChar c) :
    LexesTo t [.word t] := fun rest hr => by
  obtain ⟨c, t, rfl⟩ := List.exists_cons_of_ne_nil hne
  simp only [List.mem_cons, forall_eq_or_imp] at ht
  simp [lexFrom_top_cons, lexTop, isWs_eq_false ht.1, ne_quote_of_isWordChar ht.1, ht.1,
    lexFrom_word _ _ _ ht.2, lexFrom_word_end _ _ hr, Function.comp_def]

theorem lexFrom_escapeChar (raw x : List Char) (c : Char) :
    lexFrom (.str raw false) (escapeChar c ++ x) = lexFrom (.str (raw ++ escapeChar c) false) x := by
  unfold escapeChar
  split_ifs <;> simp_all [lexFrom, lexStep, Function.comp_def]

theorem lexFrom_escapeBody (raw x s : List Char) :
    lexFrom (.str raw false) (escapeBody s ++ x) = lexFrom (.str (raw ++ escapeBody s) false) x := by
  induction s generalizing raw with
  | nil => simp
  | cons c s ih => simp [List.append_assoc, lexFrom_escapeChar, ih]

/-- **A written string is one token.** -/
theorem lexesToTop_escapeString (s : List Char) :
    LexesToTop (escapeString s) [.str (escapeBody s)] := fun rest => by
    simp [escapeString, lexFrom_top_cons, lexTop, isWs, lexFrom_escapeBody, lexFrom, lexStep,
      Function.comp_def]

end SystemRdlToolkit.Json
