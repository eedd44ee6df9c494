import SystemRdlToolkit.Json.Builder

/-!
# Reading a written value back

What the text `JsonBuilder` writes for the canonical calls of a `Doc` means: read by
`parseJson`, it is `Doc.value`, the JSON value the calls were made from, with each `add_hex`
value as the string `"0x…"`.

`JsonBuilder::escape_string` writes every character other than `"`, `\`, line feed, carriage
return and tab raw. JSON forbids the other characters below U+0020 raw in a string, so a
string holding one is not written as a string literal (`noRawControl` says a string holds
none). That is the one way a text can fail to read back: every result here is stated for
values whose strings hold no such character, and is false without it.

Results:

* `decodeString_escapeBody`: a string literal written by `escape_string` decodes to the
  string;
* `Doc.parseValue_tokens`: the tokens of a value are read back as the value, with fuel at
  least their number;
* `parseJson_toString_calls`: on a fresh builder, the calls of such a value whose array
  members have non-empty keys write a well-formed JSON text that reads back as the value.
-/

namespace SystemRdlToolkit.Json

/-! ## The value of a `Doc` -/

/-- No character that `escape_string` writes raw and JSON forbids raw in a string: every
    character below U+0020 is a line feed, a carriage return or a tab. -/
def noRawControl (s : List Char) : Bool :=
  s.all fun c => 0x20 ≤ c.toNat || c = '\n' || c = '\r' || c = '\t'

def Member.key : Member → List Char
  | .str k _ | .num k _ | .bool k _ | .hex k _ | .arr k _ => k

mutual

/-- The JSON value a `Doc` stands for. -/
def Doc.value : Doc → Value
  | .obj ms => .obj (membersValue ms)
  | .arr es => .arr (docsValue es)

/-- The value of a member; an `add_hex` value is the string `"0x"` and the digits. -/
def Member.value : Member → Value
  | .str _ v => .str v
  | .num _ n => .num n
  | .bool _ b => .bool b
  | .hex _ h => .str ('0' :: 'x' :: hexText h.toNat)
  | .arr _ es => .arr (docsValue es)

def docsValue : List Doc → List Value
  | [] => []
  | d :: ds => d.value :: docsValue ds

def membersValue : List Member → List (List Char × Value)
  | [] => []
  | m :: ms => (m.key, m.value) :: membersValue ms

end

mutual

/-- Every key and string of the value holds no raw control character, so `escape_string`
    writes each as a JSON string literal. -/
def Doc.escapable : Doc → Bool
  | .obj ms => membersEscapable ms
  | .arr es => docsEscapable es

def Member.escapable : Member → Bool
  | .str k v => noRawControl k && noRawControl v
  | .num k _ | .bool k _ | .hex k _ => noRawControl k
  | .arr k es => noRawControl k && docsEscapable es

def docsEscapable : List Doc → Bool
  | [] => true
  | d :: ds => d.escapable && docsEscapable ds

def membersEscapable : List Member → Bool
  | [] => true
  | m :: ms => m.escapable && membersEscapable ms

end

/-- The tokens of a member's value, after its key and `:`. -/
def Member.valueTokens : Member → List Token
  | .str _ v => [.str (escapeBody v)]
  | .num _ n => [.word (decimalText n)]
  | .bool _ b => [.word (if b then "true".toList else "false".toList)]
  | .hex _ h => [.str ('0' :: 'x' :: hexText h.toNat)]
  | .arr _ es => .lbrack :: docsTokens true es ++ [.rbrack]

theorem Member.tokens_eq (m : Member) :
    m.tokens = .str (escapeBody m.key) :: .colon :: m.valueTokens := by
  cases m <;> simp [Member.tokens, Member.key, Member.valueTokens]

theorem Member.noRawControl_key {m : Member} (h : m.escapable = true) :
    noRawControl m.key = true := by
  cases m <;> simp_all [Member.escapable, Member.key]

theorem docsTokens_true_cons (d : Doc) (ds : List Doc) :
    docsTokens true (d :: ds) = d.tokens ++ docsTokens false ds := by
  simp [docsTokens, commaIf]

theorem docsTokens_false_cons (d : Doc) (ds : List Doc) :
    docsTokens false (d :: ds) = .comma :: docsTokens true (d :: ds) := by
  simp [docsTokens, commaIf]

theorem membersTokens_true_cons (m : Member) (ms : List Member) :
    membersTokens true (m :: ms) = m.tokens ++ membersTokens false ms := by
  simp [membersTokens, commaIf]

theorem membersTokens_false_cons (m : Member) (ms : List Member) :
    membersTokens false (m :: ms) = .comma :: membersTokens true (m :: ms) := by
  simp [membersTokens, commaIf]

theorem membersCalls_append (l₁ l₂ : List Member) :
    membersCalls (l₁ ++ l₂) = membersCalls l₁ ++ membersCalls l₂ := by
  induction l₁ with
  | nil => rfl
  | cons m l₁ ih => simp [membersCalls, ih]

theorem membersArrayKeysNonEmpty_append (l₁ l₂ : List Member) :
    membersArrayKeysNonEmpty (l₁ ++ l₂) =
      (membersArrayKeysNonEmpty l₁ && membersArrayKeysNonEmpty l₂) := by
  induction l₁ with
  | nil => rfl
  | cons m l₁ ih => simp [membersArrayKeysNonEmpty, ih, Bool.and_assoc]

theorem membersEscapable_append (l₁ l₂ : List Member) :
    membersEscapable (l₁ ++ l₂) = (membersEscapable l₁ && membersEscapable l₂) := by
  induction l₁ with
  | nil => rfl
  | cons m l₁ ih => simp [membersEscapable, ih, Bool.and_assoc]

theorem membersValue_append (l₁ l₂ : List Member) :
    membersValue (l₁ ++ l₂) = membersValue l₁ ++ membersValue l₂ := by
  induction l₁ with
  | nil => rfl
  | cons m l₁ ih => simp [membersValue, ih]

theorem Doc.tokens_head (d : Doc) : ∃ t ts, d.tokens = t :: ts ∧ t ≠ .rbrack := by
  cases d <;> exact ⟨_, _, rfl, by decide⟩

/-! ## Strings and words -/

theorem decodeString_cons_of_ne {c : Char} (h : c ≠ '\\') (s : List Char) :
    decodeString (c :: s) = if c.toNat < 0x20 then none else (decodeString s).map (c :: ·) := by
  rw [decodeString.eq_def]
  split <;> simp_all

theorem decodeString_escapeChar_append {c : Char}
    (hc : (0x20 ≤ c.toNat || c = '\n' || c = '\r' || c = '\t') = true) (s : List Char) :
    decodeString (escapeChar c ++ s) = (decodeString s).map (c :: ·) := by
  unfold escapeChar
  split_ifs with h₁ h₂ h₃ h₄ h₅
  · subst h₁; rfl
  · subst h₂; rfl
  · subst h₃; rfl
  · subst h₄; rfl
  · subst h₅; rfl
  · have hlt : ¬ c.toNat < 0x20 := by simp_all
    rw [List.singleton_append, decodeString_cons_of_ne h₂, if_neg hlt]

/-- **Escaped strings decode back.** -/
theorem decodeString_escapeBody {s : List Char} (h : noRawControl s = true) :
    decodeString (escapeBody s) = some s := by
  induction s with
  | nil => rfl
  | cons c s ih =>
    simp only [noRawControl, List.all_cons, Bool.and_eq_true] at h
    rw [escapeBody_cons, decodeString_escapeChar_append h.1, ih h.2]
    rfl

theorem noRawControl_hexValue (h : Nat) : noRawControl ('0' :: 'x' :: hexText h) = true := by
  have hd : ∀ c ∈ hexText h, 0x20 ≤ c.toNat := fun c hc => by
    obtain ⟨d, hd, rfl⟩ := mem_toDigits (by decide) le_rfl hc
    have key : ∀ d < 16, 0x20 ≤ (Nat.digitChar d).toNat := by decide
    exact key d hd
  simpa [noRawControl] using fun c hc => Or.inl (Or.inl (Or.inl (hd c hc)))

theorem head_toDigitsCore_ne_zero {b : Nat} (hb : 1 < b) (hb16 : b ≤ 16) :
    ∀ (fuel n : Nat) (ds : List Char), 0 < n → n < fuel →
      (Nat.toDigitsCore b fuel n ds).head? ≠ some '0'
  | 0, _, _, _, h => absurd h (Nat.not_lt_zero _)
  | fuel + 1, n, ds, hn, h => by
    simp only [Nat.toDigitsCore]
    split
    · rename_i h0
      have hlt : n < b :=
        Nat.lt_of_not_le fun h => absurd h0 (Nat.pos_iff_ne_zero.mp (Nat.div_pos h (by omega)))
      rw [Nat.mod_eq_of_lt hlt, List.head?_cons, Ne, Option.some.injEq]
      have hd : ∀ d < 16, 0 < d → Nat.digitChar d ≠ '0' := by decide
      exact hd n (by omega) hn
    · rename_i h0
      have hlt : n / b < fuel := by
        have := Nat.div_lt_self hn hb
        omega
      exact head_toDigitsCore_ne_zero hb hb16 fuel _ _ (Nat.pos_of_ne_zero h0) hlt

/-- `std::ostream` writes no leading zero. -/
theorem not_leadingZero_toDigits (n : Nat) :
    ¬ ((Nat.toDigits 10 n).head? = some '0' ∧ (Nat.toDigits 10 n).length > 1) := by
  rintro ⟨hh, hl⟩
  rcases Nat.eq_zero_or_pos n with rfl | hn
  · exact absurd hl (by decide)
  · exact head_toDigitsCore_ne_zero (by decide) (by decide) _ n [] hn (Nat.lt_succ_self n) hh

theorem mem_decimalText {n : Int} {c : Char} (h : c ∈ decimalText n) :
    c = '-' ∨ ∃ d < 16, c = Nat.digitChar d := by
  unfold decimalText at h
  split at h
  · rcases List.mem_cons.mp h with h | h
    · exact .inl h
    · exact .inr (mem_toDigits (by decide) (by decide) h)
  · exact .inr (mem_toDigits (by decide) (by decide) h)

theorem readNat_toDigits (n : Nat) : readNat (Nat.toDigits 10 n) = some n := by
  rw [readNat, if_neg (not_leadingZero_toDigits n), readDigits_toDigits (by decide) (by decide)]

theorem readInt_decimalText (n : Int) : readInt (decimalText n) = some n := by
  unfold decimalText
  split
  · rw [readInt, readNat_toDigits]
    simp only [Option.map_some', Option.some.injEq]
    omega
  · have hne : ∀ ds, Nat.toDigits 10 n.toNat = '-' :: ds → False := fun ds h => by
      obtain ⟨d, hd, hdc⟩ := mem_toDigits (by decide) (by decide) (h ▸ List.mem_cons_self '-' ds)
      have key : ∀ d < 16, Nat.digitChar d ≠ '-' := by decide
      exact key d hd hdc.symm
    rw [readInt.eq_2 _ hne, readNat_toDigits]
    simp only [Option.map_some', Option.some.injEq, Int.ofNat_eq_coe]
    omega

theorem decodeWord_decimalText (n : Int) : decodeWord (decimalText n) = some (.num n) := by
  have hnot : ∀ c, c ≠ '-' → (∀ d < 16, Nat.digitChar d ≠ c) → c ∉ decimalText n :=
    fun c h₁ h₂ hc => by
      rcases mem_decimalText hc with h | ⟨d, hd, rfl⟩
      · exact h₁ h
      · exact h₂ d hd rfl
  have hu : 'u' ∉ decimalText n := hnot 'u' (by decide) (by decide)
  have hl : 'l' ∉ decimalText n := hnot 'l' (by decide) (by decide)
  rw [decodeWord, if_neg (fun h => hu (by rw [h]; decide)),
    if_neg (fun h => hl (by rw [h]; decide)), if_neg (fun h => hu (by rw [h]; decide)),
    readInt_decimalText]
  rfl

/-! ## Parsing step by step -/

theorem parseValue_lbrack_of_ne {t : Token} (ht : t ≠ .rbrack) (n : Nat) (ts : List Token) :
    parseValue (n + 1) (.lbrack :: t :: ts) = parseElems n (t :: ts) [] := by
  cases t <;> first | exact absurd rfl ht | rfl

theorem parseElems_close {n : Nat} {ts ts' : List Token} {v : Value}
    (hv : parseValue n ts = some (v, .rbrack :: ts')) (acc : List Value) :
    parseElems (n + 1) ts acc = some (.arr (acc ++ [v]), ts') := by
  simp only [parseElems, hv]

theorem parseElems_comma {n : Nat} {ts ts' : List Token} {v : Value}
    (hv : parseValue n ts = some (v, .comma :: ts')) (acc : List Value) :
    parseElems (n + 1) ts acc = parseElems n ts' (acc ++ [v]) := by
  simp only [parseElems, hv]

theorem parseMembers_close {n : Nat} {raw k : List Char} {ts ts' : List Token} {v : Value}
    (hk : decodeString raw = some k) (hv : parseValue n ts = some (v, .rbrace :: ts'))
    (acc : List (List Char × Value)) :
    parseMembers (n + 1) (.str raw :: .colon :: ts) acc = some (.obj (acc ++ [(k, v)]), ts') := by
  simp only [parseMembers, hk, hv]

theorem parseMembers_comma {n : Nat} {raw k : List Char} {ts ts' : List Token} {v : Value}
    (hk : decodeString raw = some k) (hv : parseValue n ts = some (v, .comma :: ts'))
    (acc : List (List Char × Value)) :
    parseMembers (n + 1) (.str raw :: .colon :: ts) acc = parseMembers n ts' (acc ++ [(k, v)]) := by
  simp only [parseMembers, hk, hv]

theorem parseValue_lbrace_membersTokens {ms : List Member} (hms : ms ≠ []) (n : Nat)
    (ts : List Token) :
    parseValue (n + 1) (.lbrace :: membersTokens true ms ++ ts) =
      parseMembers n (membersTokens true ms ++ ts) [] := by
  obtain ⟨m, ms, rfl⟩ := List.exists_cons_of_ne_nil hms
  rw [membersTokens_true_cons, Member.tokens_eq]
  rfl

theorem parseValue_lbrack_docsTokens {ds : List Doc} (hds : ds ≠ []) (n : Nat) (ts : List Token) :
    parseValue (n + 1) (.lbrack :: docsTokens true ds ++ ts) =
      parseElems n (docsTokens true ds ++ ts) [] := by
  obtain ⟨d, ds, rfl⟩ := List.exists_cons_of_ne_nil hds
  obtain ⟨t, ts', ht, hne⟩ := d.tokens_head
  rw [docsTokens_true_cons, ht, List.cons_append, List.cons_append]
  exact parseValue_lbrack_of_ne hne n _

/-- An object: `{}`, or its members read by `parseMembers`. -/
theorem parseValue_obj {ms : List Member} {n : Nat} (rest : List Token)
    (h : ms ≠ [] → parseMembers n (membersTokens true ms ++ .rbrace :: rest) [] =
      some (.obj (membersValue ms), rest)) :
    parseValue (n + 1) (.lbrace :: membersTokens true ms ++ .rbrace :: rest) =
      some (.obj (membersValue ms), rest) := by
  by_cases hms : ms = []
  · subst hms
    rfl
  · rw [parseValue_lbrace_membersTokens hms, h hms]

/-- An array: `[]`, or its elements read by `parseElems`. -/
theorem parseValue_arr {es : List Doc} {n : Nat} (rest : List Token)
    (h : es ≠ [] → parseElems n (docsTokens true es ++ .rbrack :: rest) [] =
      some (.arr (docsValue es), rest)) :
    parseValue (n + 1) (.lbrack :: docsTokens true es ++ .rbrack :: rest) =
      some (.arr (docsValue es), rest) := by
  by_cases hes : es = []
  · subst hes
    rfl
  · rw [parseValue_lbrack_docsTokens hes, h hes]

theorem decodeString_hexValue (h : Nat) :
    decodeString ('0' :: 'x' :: hexText h) = some ('0' :: 'x' :: hexText h) := by
  conv_lhs => rw [← escapeBody_hexValue]
  exact decodeString_escapeBody (noRawControl_hexValue h)

/-! ## Reading a value's tokens -/

mutual

/-- **The tokens of a value are read back as the value**, with enough fuel. -/
theorem Doc.parseValue_tokens : ∀ d : Doc, d.escapable = true → ∀ (n : Nat) (rest : List Token),
    d.tokens.length ≤ n → parseValue n (d.tokens ++ rest) = some (d.value, rest)
  | .obj _, _, 0, _, hn | .arr _, _, 0, _, hn => by simp [Doc.tokens] at hn
  | .obj ms, h, n + 1, rest, hn => by
    have hlen : (membersTokens true ms).length < n := by
      simp [Doc.tokens] at hn
      omega
    simpa [Doc.tokens, Doc.value] using parseValue_obj rest fun hms => by
      simpa using membersParse ms h hms n rest [] hlen
  | .arr es, h, n + 1, rest, hn => by
    have hlen : (docsTokens true es).length < n := by
      simp [Doc.tokens] at hn
      omega
    simpa [Doc.tokens, Doc.value] using parseValue_arr rest fun hes => by
      simpa using elemsParse es h hes n rest [] hlen

theorem Member.parseValue_valueTokens : ∀ m : Member, m.escapable = true →
    ∀ (n : Nat) (rest : List Token),
    m.valueTokens.length ≤ n → parseValue n (m.valueTokens ++ rest) = some (m.value, rest)
  | .str .., _, 0, _, hn | .num .., _, 0, _, hn | .bool .., _, 0, _, hn | .hex .., _, 0, _, hn
  | .arr .., _, 0, _, hn => by simp [Member.valueTokens] at hn
  | .str _ v, h, n + 1, rest, _ => by
    simp only [Member.escapable, Bool.and_eq_true] at h
    simp [Member.valueTokens, parseValue, decodeString_escapeBody h.2, Member.value]
  | .num _ v, _, n + 1, rest, _ => by
    simp [Member.valueTokens, parseValue, decodeWord_decimalText, Member.value]
  | .bool _ b, _, n + 1, rest, _ => by cases b <;> rfl
  | .hex _ x, _, n + 1, rest, _ => by
    simp [Member.valueTokens, parseValue, decodeString_hexValue, Member.value]
  | .arr _ es, h, n + 1, rest, hn => by
    simp only [Member.escapable, Bool.and_eq_true] at h
    have hlen : (docsTokens true es).length < n := by
      simp [Member.valueTokens] at hn
      omega
    simpa [Member.valueTokens, Member.value] using parseValue_arr rest fun hes => by
      simpa using elemsParse es h.2 hes n rest [] hlen

theorem membersParse : ∀ ms : List Member, membersEscapable ms = true → ms ≠ [] →
    ∀ (n : Nat) (rest : List Token) (acc : List (List Char × Value)),
    (membersTokens true ms).length < n →
    parseMembers n (membersTokens true ms ++ .rbrace :: rest) acc =
      some (.obj (acc ++ membersValue ms), rest)
  | [], _, hne, _, _, _, _ => absurd rfl hne
  | m :: ms, h, _, n, rest, acc, hn => by
    simp only [membersEscapable, Bool.and_eq_true] at h
    have ih := membersParse ms h.2
    obtain ⟨n, rfl⟩ : ∃ k, n = k + 1 := ⟨n - 1, by omega⟩
    have hlen : m.valueTokens.length + (membersTokens false ms).length + 2 < n + 1 := by
      simpa [membersTokens_true_cons, Member.tokens_eq, Nat.add_assoc] using hn
    have hv := Member.parseValue_valueTokens m h.1 n (membersTokens false ms ++ .rbrace :: rest)
      (by omega)
    have hk := decodeString_escapeBody (Member.noRawControl_key h.1)
    simp only [membersTokens_true_cons, Member.tokens_eq, List.cons_append, List.append_assoc]
    cases ms with
    | nil =>
      rw [parseMembers_close hk hv]
      simp [membersValue]
    | cons m' ms' =>
      simp only [membersTokens_false_cons, List.cons_append] at hv hlen ⊢
      rw [parseMembers_comma hk hv,
        ih (List.cons_ne_nil _ _) n rest _ (by simp only [List.length_cons] at hlen; omega)]
      simp [membersValue]

theorem elemsParse : ∀ ds : List Doc, docsEscapable ds = true → ds ≠ [] →
    ∀ (n : Nat) (rest : List Token) (acc : List Value),
    (docsTokens true ds).length < n →
    parseElems n (docsTokens true ds ++ .rbrack :: rest) acc =
      some (.arr (acc ++ docsValue ds), rest)
  | [], _, hne, _, _, _, _ => absurd rfl hne
  | d :: ds, h, _, n, rest, acc, hn => by
    simp only [docsEscapable, Bool.and_eq_true] at h
    have ih := elemsParse ds h.2
    obtain ⟨n, rfl⟩ : ∃ k, n = k + 1 := ⟨n - 1, by omega⟩
    have hlen : d.tokens.length + (docsTokens false ds).length < n + 1 := by
      simpa [docsTokens_true_cons] using hn
    have hv := Doc.parseValue_tokens d h.1 n (docsTokens false ds ++ .rbrack :: rest) (by omega)
    rw [docsTokens_true_cons, List.append_assoc]
    cases ds with
    | nil =>
      rw [parseElems_close hv]
      simp [docsValue]
    | cons d' ds' =>
      simp only [docsTokens_false_cons, List.cons_append] at hv hlen ⊢
      rw [parseElems_comma hv,
        ih (List.cons_ne_nil _ _) n rest _ (by simp only [List.length_cons] at hlen; omega)]
      simp [docsValue]

end

/-- **Written values read back.** On a fresh builder, the calls of a value whose array members
    have non-empty keys and whose strings hold no raw control character write a well-formed
    JSON text, and it reads back as the value. -/
theorem parseJson_toString_calls (d : Doc) (hk : d.arrayKeysNonEmpty = true)
    (hc : d.escapable = true) :
    parseJson (JsonBuilder.init.run d.calls).toString = some d.value := by
  obtain ⟨-, -, text, htext, hlex, -⟩ := Doc.emits_calls d JsonBuilder.init hk
  have hl : lex (JsonBuilder.init.run d.calls).toString = some d.tokens := by
    rw [JsonBuilder.toString, htext]
    simpa [JsonBuilder.init, commaIf] using lex_of_lexesTo hlex
  have hp := Doc.parseValue_tokens d hc (d.tokens.length + 1) [] (Nat.le_succ _)
  rw [List.append_nil] at hp
  simp [parseJson, hl, hp]

end SystemRdlToolkit.Json
