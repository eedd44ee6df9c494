import SystemRdlToolkit.Json.Reader

/-!
# `JsonBuilder`

Model of the JSON writer of `json_output.h` (`src/unnamed/part_006`, lines 15–120). The
builder appends to `json_` and keeps `indent_level_` and one flag `first_item_` for all
nesting levels: a `,` is written before an item exactly when `first_item_` is false; opening
a container sets it, every other call clears it. `start_array(key)` writes the key only when
it is not empty, so `start_array("")` is the call for an array element.

The values the builder can write by its canonical calls are `Doc`: an object, whose members
are scalars or arrays (`start_object` takes no key), or an array of objects and arrays.

Results:

* `Doc.emits_calls`: from any state, the calls of a value append a text that lexes to the
  value's tokens, preceded by `,` when `first_item_` was false, and leave `first_item_` false
  and `indent_level_` as it was, when every array member has a non-empty key; so on a fresh
  builder the text lexes to exactly the value's tokens (`lex_toString_calls`);
* `lex_toString_emptyKeyArray`: the member `"": []` loses its key.
-/

namespace SystemRdlToolkit.Json

/-! ## Model of the code -/

/-- The members of `JsonBuilder` its output depends on. -/
structure JsonBuilder where
  json : List Char
  indentLevel : Int
  firstItem : Bool

/-- `JsonBuilder()` (line 45). -/
def JsonBuilder.init : JsonBuilder := ⟨[], 0, true⟩

/-- The text of `write_indent()` (lines 21–26) at a level. -/
def indentText (level : Int) : List Char := (List.replicate level.toNat [' ', ' ']).flatten

/-- `if (!first_item_) json_ << ",\n";` -/
def JsonBuilder.separator (b : JsonBuilder) : List Char := if b.firstItem then [] else [',', '\n']

/-- `start_object()` (lines 47–54). -/
def JsonBuilder.startObject (b : JsonBuilder) : JsonBuilder :=
  ⟨b.json ++ b.separator ++ indentText b.indentLevel ++ ['{', '\n'], b.indentLevel + 1, true⟩

/-- The closer of `end_object()` and `end_array()` (lines 56–63, 82–89). -/
def JsonBuilder.close (closer : Char) (b : JsonBuilder) : JsonBuilder :=
  ⟨b.json ++ ['\n'] ++ indentText (b.indentLevel - 1) ++ [closer], b.indentLevel - 1, false⟩

/-- `end_object()` (lines 56–63). -/
def JsonBuilder.endObject (b : JsonBuilder) : JsonBuilder := b.close '}'

/-- `start_array(key)` (lines 65–80). -/
def JsonBuilder.startArray (key : List Char) (b : JsonBuilder) : JsonBuilder :=
  let pre :=
    if key ≠ [] then b.separator ++ indentText b.indentLevel ++ escapeString key ++ [':', ' ']
    else if !b.firstItem then [',', '\n'] ++ indentText b.indentLevel
    else []
  ⟨b.json ++ pre ++ ['[', '\n'], b.indentLevel + 1, true⟩

/-- `end_array()` (lines 82–89). -/
def JsonBuilder.endArray (b : JsonBuilder) : JsonBuilder := b.close ']'

/-- The body shared by the four `add_*` calls: a keyed member with the value's text. -/
def JsonBuilder.addMember (key value : List Char) (b : JsonBuilder) : JsonBuilder :=
  ⟨b.json ++ b.separator ++ indentText b.indentLevel ++ escapeString key ++ [':', ' '] ++ value,
    b.indentLevel, false⟩

/-- `add_string(key, value)` (lines 91–96). -/
def JsonBuilder.addString (key value : List Char) (b : JsonBuilder) : JsonBuilder :=
  b.addMember key (escapeString value)

/-- `add_number(key, value)` (lines 98–103). -/
def JsonBuilder.addNumber (key : List Char) (value : Int) (b : JsonBuilder) : JsonBuilder :=
  b.addMember key (decimalText value)

/-- `add_bool(key, value)` (lines 105–110). -/
def JsonBuilder.addBool (key : List Char) (value : Bool) (b : JsonBuilder) : JsonBuilder :=
  b.addMember key (if value then "true".toList else "false".toList)

/-- `add_hex(key, value)` (lines 112–117). -/
def JsonBuilder.addHex (key : List Char) (value : UInt64) (b : JsonBuilder) : JsonBuilder :=
  b.addMember key ('"' :: '0' :: 'x' :: hexText value.toNat ++ ['"'])

/-- `to_string()` (lines 119–121). -/
def JsonBuilder.toString (b : JsonBuilder) : List Char := b.json

/-- A call on a `JsonBuilder`. -/
inductive Call where
  | startObject
  | endObject
  | startArray (key : List Char)
  | endArray
  | addString (key value : List Char)
  | addNumber (key : List Char) (value : Int)
  | addBool (key : List Char) (value : Bool)
  | addHex (key : List Char) (value : UInt64)

def JsonBuilder.call (b : JsonBuilder) : Call → JsonBuilder
  | .startObject => b.startObject
  | .endObject => b.endObject
  | .startArray key => b.startArray key
  | .endArray => b.endArray
  | .addString key value => b.addString key value
  | .addNumber key value => b.addNumber key value
  | .addBool key value => b.addBool key value
  | .addHex key value => b.addHex key value

def JsonBuilder.run (b : JsonBuilder) (cs : List Call) : JsonBuilder := cs.foldl JsonBuilder.call b

@[simp] theorem JsonBuilder.run_nil (b : JsonBuilder) : b.run [] = b := rfl

@[simp] theorem JsonBuilder.run_cons (b : JsonBuilder) (c : Call) (cs : List Call) :
    b.run (c :: cs) = (b.call c).run cs := rfl

@[simp] theorem JsonBuilder.run_append (b : JsonBuilder) (cs ds : List Call) :
    b.run (cs ++ ds) = (b.run cs).run ds := List.foldl_append _ _ _ _

/-! ## The values the builder writes -/

mutual

/-- A value written by its own calls: an object, or an array of such values. -/
inductive Doc where
  | obj (members : List Member)
  | arr (elems : List Doc)

/-- A member of an object, written with its key. -/
inductive Member where
  | str (key value : List Char)
  | num (key : List Char) (value : Int)
  | bool (key : List Char) (value : Bool)
  | hex (key : List Char) (value : UInt64)
  | arr (key : List Char) (elems : List Doc)

end

mutual

/-- The canonical calls of a value. -/
def Doc.calls : Doc → List Call
  | .obj ms => .startObject :: membersCalls ms ++ [.endObject]
  | .arr es => .startArray [] :: docsCalls es ++ [.endArray]

def Member.calls : Member → List Call
  | .str k v => [.addString k v]
  | .num k n => [.addNumber k n]
  | .bool k b => [.addBool k b]
  | .hex k h => [.addHex k h]
  | .arr k es => .startArray k :: docsCalls es ++ [.endArray]

def docsCalls : List Doc → List Call
  | [] => []
  | d :: ds => d.calls ++ docsCalls ds

def membersCalls : List Member → List Call
  | [] => []
  | m :: ms => m.calls ++ membersCalls ms

end

/-- A `,` before an item that is not the first. -/
def commaIf (first : Bool) : List Token := if first then [] else [.comma]

mutual

/-- The JSON tokens of a value, strings written by `escape_string` and `add_hex` values as
    `"0x"` and the hexadecimal digits. -/
def Doc.tokens : Doc → List Token
  | .obj ms => .lbrace :: membersTokens true ms ++ [.rbrace]
  | .arr es => .lbrack :: docsTokens true es ++ [.rbrack]

def Member.tokens : Member → List Token
  | .str k v => [.str (escapeBody k), .colon, .str (escapeBody v)]
  | .num k n => [.str (escapeBody k), .colon, .word (decimalText n)]
  | .bool k b => [.str (escapeBody k), .colon, .word (if b then "true".toList else "false".toList)]
  | .hex k h => [.str (escapeBody k), .colon, .str ('0' :: 'x' :: hexText h.toNat)]
  | .arr k es => [.str (escapeBody k), .colon, .lbrack] ++ docsTokens true es ++ [.rbrack]

/-- The tokens of elements separated by `,`; `first` when none came before. -/
def docsTokens : Bool → List Doc → List Token
  | _, [] => []
  | first, d :: ds => commaIf first ++ d.tokens ++ docsTokens false ds

def membersTokens : Bool → List Member → List Token
  | _, [] => []
  | first, m :: ms => commaIf first ++ m.tokens ++ membersTokens false ms

end

mutual

/-- Every array member of the value has a non-empty key. -/
def Doc.arrayKeysNonEmpty : Doc → Bool
  | .obj ms => membersArrayKeysNonEmpty ms
  | .arr es => docsArrayKeysNonEmpty es

def Member.arrayKeysNonEmpty : Member → Bool
  | .arr k es => !k.isEmpty && docsArrayKeysNonEmpty es
  | _ => true

def docsArrayKeysNonEmpty : List Doc → Bool
  | [] => true
  | d :: ds => d.arrayKeysNonEmpty && docsArrayKeysNonEmpty ds

def membersArrayKeysNonEmpty : List Member → Bool
  | [] => true
  | m :: ms => m.arrayKeysNonEmpty && membersArrayKeysNonEmpty ms

end

/-! ## What each call writes -/

@[simp] theorem JsonBuilder.startObject_indentLevel (b : JsonBuilder) :
    b.startObject.indentLevel = b.indentLevel + 1 := rfl

@[simp] theorem JsonBuilder.startObject_firstItem (b : JsonBuilder) :
    b.startObject.firstItem = true := rfl

@[simp] theorem JsonBuilder.startArray_indentLevel (key : List Char) (b : JsonBuilder) :
    (b.startArray key).indentLevel = b.indentLevel + 1 := rfl

@[simp] theorem JsonBuilder.startArray_firstItem (key : List Char) (b : JsonBuilder) :
    (b.startArray key).firstItem = true := rfl

@[simp] theorem JsonBuilder.close_indentLevel (closer : Char) (b : JsonBuilder) :
    (b.close closer).indentLevel = b.indentLevel - 1 := rfl

@[simp] theorem JsonBuilder.close_firstItem (closer : Char) (b : JsonBuilder) :
    (b.close closer).firstItem = false := rfl

@[simp] theorem JsonBuilder.addMember_indentLevel (key value : List Char) (b : JsonBuilder) :
    (b.addMember key value).indentLevel = b.indentLevel := rfl

@[simp] theorem JsonBuilder.addMember_firstItem (key value : List Char) (b : JsonBuilder) :
    (b.addMember key value).firstItem = false := rfl

theorem lexesToTop_of_ws {t : List Char} (h : ∀ c ∈ t, isWs c) : LexesToTop t [] := by
  induction t with
  | nil => exact lexesToTop_nil
  | cons c t ih =>
    simp only [List.mem_cons, forall_eq_or_imp] at h
    exact (lexesToTop_ws h.1).append (ih h.2)

theorem lexesToTop_indentText (level : Int) : LexesToTop (indentText level) [] :=
  lexesToTop_of_ws fun c hc => by
    simp only [indentText, List.mem_flatten, List.mem_replicate] at hc
    obtain ⟨_, ⟨_, rfl⟩, hc⟩ := hc
    simp at hc
    simp [hc, isWs]

theorem startsOutsideWord_indentText (level : Int) : StartsOutsideWord (indentText level) := by
  unfold indentText
  cases level.toNat <;> simp [List.replicate_succ]; decide

theorem lexesToTop_separator (b : JsonBuilder) :
    LexesToTop b.separator (commaIf b.firstItem) := by
  unfold JsonBuilder.separator commaIf
  cases b.firstItem
  · exact (lexesToTop_punct (c := ',') rfl).append (lexesToTop_ws (c := '\n') rfl)
  · exact lexesToTop_nil

theorem startsOutsideWord_separator (b : JsonBuilder) : StartsOutsideWord b.separator := by
  unfold JsonBuilder.separator
  cases b.firstItem <;> simp; decide

theorem startsOutsideWord_escapeString (s t : List Char) :
    StartsOutsideWord (escapeString s ++ t) := by
  simp [escapeString]; decide

/-- The builder went from `b` to `b'` by appending a text that lexes to `toks` and does not
    continue a bare word. -/
def Writes (b b' : JsonBuilder) (toks : List Token) : Prop :=
  ∃ text, b'.json = b.json ++ text ∧ LexesTo text toks ∧ StartsOutsideWord text

theorem Writes.refl (b : JsonBuilder) : Writes b b [] := ⟨[], by simp, lexesTo_nil, by simp⟩

theorem Writes.trans {b₁ b₂ b₃ : JsonBuilder} {t₁ t₂ : List Token} (h₁ : Writes b₁ b₂ t₁)
    (h₂ : Writes b₂ b₃ t₂) : Writes b₁ b₃ (t₁ ++ t₂) := by
  obtain ⟨x, hx, lx, sx⟩ := h₁
  obtain ⟨y, hy, ly, sy⟩ := h₂
  exact ⟨x ++ y, by rw [hy, hx, List.append_assoc], lx.append ly sy, sx.append sy⟩

/-- The text in front of an item: the separator and the indentation. -/
theorem lexesToTop_lead (b : JsonBuilder) :
    LexesToTop (b.separator ++ indentText b.indentLevel) (commaIf b.firstItem) := by
  simpa using (lexesToTop_separator b).append (lexesToTop_indentText b.indentLevel)

theorem startsOutsideWord_lead (b : JsonBuilder) :
    StartsOutsideWord (b.separator ++ indentText b.indentLevel) :=
  (startsOutsideWord_separator b).append (startsOutsideWord_indentText _)

/-- A key and the `": "` after it. -/
theorem lexesToTop_key (key : List Char) :
    LexesToTop (escapeString key ++ [':', ' ']) [.str (escapeBody key), .colon] :=
  (lexesToTop_escapeString key).append ((lexesToTop_punct (c := ':') rfl).append
    (lexesToTop_ws (c := ' ') rfl))

theorem lexesToTop_open {c : Char} {t : Token} (h : punctToken c = some t) :
    LexesToTop [c, '\n'] [t] :=
  (lexesToTop_punct h).append (lexesToTop_ws (c := '\n') rfl)

theorem writes_startObject (b : JsonBuilder) :
    Writes b b.startObject (commaIf b.firstItem ++ [.lbrace]) :=
  ⟨b.separator ++ indentText b.indentLevel ++ ['{', '\n'], by simp [JsonBuilder.startObject],
    ((lexesToTop_lead b).append (lexesToTop_open (c := '{') rfl)).lexesTo,
    (startsOutsideWord_lead b).append ((startsOutsideWord_cons _ _).mpr (by decide))⟩

theorem writes_close {closer : Char} {t : Token} (h : punctToken closer = some t) (b : JsonBuilder) :
    Writes b (b.close closer) [t] :=
  ⟨['\n'] ++ indentText (b.indentLevel - 1) ++ [closer], by simp [JsonBuilder.close],
    ((lexesToTop_ws (c := '\n') rfl).append
      ((lexesToTop_indentText _).append (lexesToTop_punct h))).lexesTo,
    (startsOutsideWord_cons _ _).mpr (by decide)⟩

theorem writes_startArray_of_ne {key : List Char} (hk : key ≠ []) (b : JsonBuilder) :
    Writes b (b.startArray key)
      (commaIf b.firstItem ++ [.str (escapeBody key), .colon, .lbrack]) :=
  ⟨b.separator ++ indentText b.indentLevel ++ (escapeString key ++ [':', ' ']) ++ ['[', '\n'],
    by simp [JsonBuilder.startArray, hk],
    by simpa using ((lexesToTop_lead b).append ((lexesToTop_key key).append
      (lexesToTop_open (c := '[') rfl))).lexesTo,
    by simpa only [List.append_assoc] using
      (startsOutsideWord_lead b).append (startsOutsideWord_escapeString key _)⟩

theorem writes_startArray_nil (b : JsonBuilder) :
    Writes b (b.startArray []) (commaIf b.firstItem ++ [.lbrack]) := by
  cases hb : b.firstItem
  · refine ⟨[',', '\n'] ++ indentText b.indentLevel ++ ['[', '\n'],
      by simp [JsonBuilder.startArray, hb], ?_, (startsOutsideWord_cons _ _).mpr (by decide)⟩
    simpa [commaIf] using ((lexesToTop_open (c := ',') rfl).append
      ((lexesToTop_indentText _).append (lexesToTop_open (c := '[') rfl))).lexesTo
  · exact ⟨['[', '\n'], by simp [JsonBuilder.startArray, hb],
      by simpa [commaIf] using (lexesToTop_open (c := '[') rfl).lexesTo,
      (startsOutsideWord_cons _ _).mpr (by decide)⟩

theorem writes_addMember (key : List Char) {value : List Char} {vt : List Token}
    (hv : LexesTo value vt) (b : JsonBuilder) :
    Writes b (b.addMember key value) (commaIf b.firstItem ++ [.str (escapeBody key), .colon] ++ vt) :=
  ⟨b.separator ++ indentText b.indentLevel ++ (escapeString key ++ [':', ' ']) ++ value,
    by simp [JsonBuilder.addMember],
    (by simpa using ((lexesToTop_lead b).append (lexesToTop_key key)).append_lexesTo hv),
    by simpa only [List.append_assoc] using
      (startsOutsideWord_lead b).append (startsOutsideWord_escapeString key _)⟩

/-! ## The text of scalars -/

theorem mem_toDigitsCore {b : Nat} (hb : 0 < b) (hb16 : b ≤ 16) :
    ∀ (fuel n : Nat) (ds : List Char) (c : Char), c ∈ Nat.toDigitsCore b fuel n ds →
      c ∈ ds ∨ ∃ d < 16, c = Nat.digitChar d
  | 0, _, _, _, h => .inl h
  | fuel + 1, n, ds, c, h => by
    have hd : n % b < 16 := by have := Nat.mod_lt n hb; omega
    simp only [Nat.toDigitsCore] at h
    split at h
    · rcases List.mem_cons.mp h with rfl | h
      · exact .inr ⟨_, hd, rfl⟩
      · exact .inl h
    · rcases mem_toDigitsCore hb hb16 fuel _ _ c h with h | h
      · rcases List.mem_cons.mp h with rfl | h
        · exact .inr ⟨_, hd, rfl⟩
        · exact .inl h
      · exact .inr h

theorem mem_toDigits {b n : Nat} (hb : 0 < b) (hb16 : b ≤ 16) {c : Char}
    (h : c ∈ Nat.toDigits b n) : ∃ d < 16, c = Nat.digitChar d := by
  simpa using mem_toDigitsCore hb hb16 _ n [] c h

theorem isWordChar_digitChar : ∀ d < 16, isWordChar (Nat.digitChar d) := by decide

theorem escapeChar_digitChar : ∀ d < 16, escapeChar (Nat.digitChar d) = [Nat.digitChar d] := by
  decide

theorem escapeBody_of_plain {s : List Char} (h : ∀ c ∈ s, escapeChar c = [c]) :
    escapeBody s = s := by
  induction s with
  | nil => rfl
  | cons c s ih =>
    simp only [List.mem_cons, forall_eq_or_imp] at h
    simp [h.1, ih h.2]

theorem lexesTo_decimalText (n : Int) : LexesTo (decimalText n) [.word (decimalText n)] := by
  have hd : ∀ c ∈ Nat.toDigits 10 n.natAbs, isWordChar c := fun c hc => by
    obtain ⟨d, hd, rfl⟩ := mem_toDigits (by decide) (by decide) hc
    exact isWordChar_digitChar d hd
  have hd' : ∀ c ∈ Nat.toDigits 10 n.toNat, isWordChar c := fun c hc => by
    obtain ⟨d, hd, rfl⟩ := mem_toDigits (by decide) (by decide) hc
    exact isWordChar_digitChar d hd
  unfold decimalText
  split
  · exact lexesTo_word (List.cons_ne_nil _ _) (by simpa [isWordChar] using hd)
  · exact lexesTo_word (toDigits_ne_nil _ _) hd'

theorem escapeBody_hexValue (h : Nat) :
    escapeBody ('0' :: 'x' :: hexText h) = '0' :: 'x' :: hexText h := by
  have hp : ∀ c ∈ hexText h, escapeChar c = [c] := fun c hc => by
    obtain ⟨d, hd, rfl⟩ := mem_toDigits (by decide) le_rfl hc
    exact escapeChar_digitChar d hd
  simp [escapeBody_of_plain hp, escapeChar]

/-- The `add_hex` value is the string `"0x"` and the digits, written as `escape_string`
    would write it. -/
theorem addHex_value (h : Nat) :
    '"' :: '0' :: 'x' :: hexText h ++ ['"'] = escapeString ('0' :: 'x' :: hexText h) := by
  rw [escapeString, escapeBody_hexValue]

/-! ## Whole values -/

/-- The builder went from `b` to `b'` writing `toks`, with `indent_level_` as it was and
    `first_item_` now `first`. -/
def Emits (b b' : JsonBuilder) (toks : List Token) (first : Bool) : Prop :=
  b'.indentLevel = b.indentLevel ∧ b'.firstItem = first ∧ Writes b b' toks

theorem Emits.trans {b₁ b₂ b₃ : JsonBuilder} {t₁ t₂ : List Token} {f₁ f₂ : Bool}
    (h₁ : Emits b₁ b₂ t₁ f₁) (h₂ : Emits b₂ b₃ t₂ f₂) : Emits b₁ b₃ (t₁ ++ t₂) f₂ :=
  ⟨h₂.1.trans h₁.1, h₂.2.1, h₁.2.2.trans h₂.2.2⟩

/-- A container: its opening call, its items one level deeper, and its closer. -/
theorem emits_container {b b₁ b₂ : JsonBuilder} {o inner : List Token} (closer : Char)
    {t : Token} {f : Bool} (hc : punctToken closer = some t) (ho : Writes b b₁ o)
    (h₁ : b₁.indentLevel = b.indentLevel + 1) (hin : Emits b₁ b₂ inner f) :
    Emits b (b₂.close closer) (o ++ inner ++ [t]) false :=
  ⟨by simp [hin.1, h₁], rfl, (ho.trans hin.2.2).trans (writes_close hc b₂)⟩

theorem emits_addMember (key : List Char) {value : List Char} {vt : List Token}
    (hv : LexesTo value vt) (b : JsonBuilder) :
    Emits b (b.addMember key value) (commaIf b.firstItem ++ [.str (escapeBody key), .colon] ++ vt)
      false :=
  ⟨rfl, rfl, writes_addMember key hv b⟩

theorem emits_bool (key : List Char) (v : Bool) (b : JsonBuilder) :
    Emits b (b.addBool key v)
      (commaIf b.firstItem ++ [.str (escapeBody key), .colon,
        .word (if v then "true".toList else "false".toList)]) false := by
  have hv : LexesTo (if v then "true".toList else "false".toList)
      [.word (if v then "true".toList else "false".toList)] := by
    cases v
    · exact lexesTo_word (by decide) (by decide)
    · exact lexesTo_word (by decide) (by decide)
  simpa using emits_addMember key hv b

mutual

/-- **The calls of a value write its tokens.** -/
theorem Doc.emits_calls : ∀ (d : Doc) (b : JsonBuilder), d.arrayKeysNonEmpty = true →
    Emits b (b.run d.calls) (commaIf b.firstItem ++ d.tokens) false
  | .obj ms, b, h => by
    simpa [Doc.calls, Doc.tokens, JsonBuilder.call, JsonBuilder.endObject] using
      emits_container '}' rfl (writes_startObject b) rfl
        (membersEmits_calls ms b.startObject h)
  | .arr es, b, h => by
    simpa [Doc.calls, Doc.tokens, JsonBuilder.call, JsonBuilder.endArray] using
      emits_container ']' rfl (writes_startArray_nil b) rfl
        (docsEmits_calls es (b.startArray []) h)

theorem Member.emits_calls : ∀ (m : Member) (b : JsonBuilder), m.arrayKeysNonEmpty = true →
    Emits b (b.run m.calls) (commaIf b.firstItem ++ m.tokens) false
  | .str k v, b, _ => by
    simpa [Member.calls, Member.tokens, JsonBuilder.call, JsonBuilder.addString] using
      emits_addMember k (lexesToTop_escapeString v).lexesTo b
  | .num k n, b, _ => by
    simpa [Member.calls, Member.tokens, JsonBuilder.call, JsonBuilder.addNumber] using
      emits_addMember k (lexesTo_decimalText n) b
  | .bool k v, b, _ => by
    simpa [Member.calls, Member.tokens, JsonBuilder.call] using emits_bool k v b
  | .hex k v, b, _ => by
    have h := emits_addMember k (lexesToTop_escapeString ('0' :: 'x' :: hexText v.toNat)).lexesTo b
    rw [escapeBody_hexValue, ← addHex_value] at h
    simpa [Member.calls, Member.tokens, JsonBuilder.call, JsonBuilder.addHex] using h
  | .arr k es, b, h => by
    simp only [Member.arrayKeysNonEmpty, Bool.and_eq_true, Bool.not_eq_true',
      List.isEmpty_eq_false] at h
    simpa [Member.calls, Member.tokens, JsonBuilder.call, JsonBuilder.endArray] using
      emits_container ']' rfl (writes_startArray_of_ne h.1 b) rfl
        (docsEmits_calls es (b.startArray k) h.2)

theorem docsEmits_calls : ∀ (ds : List Doc) (b : JsonBuilder), docsArrayKeysNonEmpty ds = true →
    Emits b (b.run (docsCalls ds)) (docsTokens b.firstItem ds) (b.firstItem && ds.isEmpty)
  | [], b, _ => ⟨rfl, by simp [docsCalls], by simpa [docsTokens] using Writes.refl b⟩
  | d :: ds, b, h => by
    simp only [docsArrayKeysNonEmpty, Bool.and_eq_true] at h
    have h₁ := Doc.emits_calls d b h.1
    have h₂ := docsEmits_calls ds (b.run d.calls) h.2
    rw [h₁.2.1] at h₂
    simpa [docsCalls, docsTokens] using h₁.trans h₂

theorem membersEmits_calls : ∀ (ms : List Member) (b : JsonBuilder),
    membersArrayKeysNonEmpty ms = true →
    Emits b (b.run (membersCalls ms)) (membersTokens b.firstItem ms) (b.firstItem && ms.isEmpty)
  | [], b, _ => ⟨rfl, by simp [membersCalls], by simpa [membersTokens] using Writes.refl b⟩
  | m :: ms, b, h => by
    simp only [membersArrayKeysNonEmpty, Bool.and_eq_true] at h
    have h₁ := Member.emits_calls m b h.1
    have h₂ := membersEmits_calls ms (b.run m.calls) h.2
    rw [h₁.2.1] at h₂
    simpa [membersCalls, membersTokens] using h₁.trans h₂

end

/-- **Canonical calls.** On a fresh builder, the calls of a value whose array members all have
    non-empty keys write a text that lexes to exactly the value's tokens. -/
theorem lex_toString_calls (d : Doc) (h : d.arrayKeysNonEmpty = true) :
    lex (JsonBuilder.init.run d.calls).toString = some d.tokens := by
  obtain ⟨-, -, text, htext, hlex, -⟩ := Doc.emits_calls d JsonBuilder.init h
  rw [JsonBuilder.toString, htext]
  simpa [JsonBuilder.init, commaIf] using lex_of_lexesTo hlex

/-- An object with a string, a number, a boolean, an address and an array of an object and an
    empty array. -/
def sampleDoc : Doc :=
  .obj [.str "name".toList "a\"b".toList, .num "size".toList (-4), .bool "ok".toList true,
    .hex "addr".toList 0x1f, .arr "children".toList [.obj [], .arr []]]

theorem lex_toString_calls_sample :
    sampleDoc.arrayKeysNonEmpty = true ∧
      lex (JsonBuilder.init.run sampleDoc.calls).toString = some sampleDoc.tokens :=
  ⟨by decide, lex_toString_calls sampleDoc (by decide)⟩

/-- `start_array("")` is the call for an array element, so the member `"": []` is written
    without its key: `{ [ ] }`. -/
theorem lex_toString_emptyKeyArray :
    lex (JsonBuilder.init.run (Doc.obj [.arr [] []]).calls).toString =
        some [.lbrace, .lbrack, .rbrack, .rbrace] ∧
      lex (JsonBuilder.init.run (Doc.obj [.arr [] []]).calls).toString ≠
        some (Doc.obj [.arr [] []]).tokens := by
  decide

end SystemRdlToolkit.Json
