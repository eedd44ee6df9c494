import SystemRdlToolkit.Json.Document

/-!
# Texts the reader rejects

The tokens of a value are read back as exactly that value or not at all
(`Doc.parseValue_tokens_or`): the reader never takes them for another value, whatever follows
them. So after a run of members or elements it is at the next `,` with nothing consumed
beyond it, and tokens that cannot continue an object there make the whole text rejected.

`Fails toks` says that no continuation makes `toks` the start of a value, and
`ElemsFail toks` that no continuation makes them the elements of an array.

Results:

* `Doc.parseValue_tokens_or`: a value's tokens are read as the value or rejected;
* `fails_members_lbrace`: an object whose members are followed by `, {` is rejected;
* `fails_members_array`: an object whose members are followed by an array member whose elements
  are rejected is rejected;
* `elemsFail_doc_comma`: elements that start with a value and continue with rejected ones are
  rejected;
* `Doc.parseValue_tokens_of_raw`, `parseJson_toString_calls_of_raw`: a value with a raw control
  character in a key or a string is rejected, and so is the text its calls write;
* `parseJson_of_fails`: a text whose first piece lexes to rejected tokens is rejected, whatever
  follows it;
* `startsWriting_objectInObject`, `startsWriting_arrayInObject`: calls that leave an object
  open and then write a member without a key, or an array member whose elements are rejected,
  start a rejected text (`StartsWriting`).
-/

namespace SystemRdlToolkit.Json

/-! ## Strings -/

theorem escapeChar_of_control {c : Char} (h : c.toNat < 0x20) (hn : c ≠ '\n') (hr : c ≠ '\r')
    (ht : c ≠ '\t') : escapeChar c = [c] := by
  have hq : c ≠ '"' := by rintro rfl; exact absurd h (by decide)
  have hb : c ≠ '\\' := by rintro rfl; exact absurd h (by decide)
  simp [escapeChar, hq, hb, hn, hr, ht]

/-- A string holding a raw control character is not written as a string literal. -/
theorem decodeString_escapeBody_of_raw {s : List Char} (h : noRawControl s = false) :
    decodeString (escapeBody s) = none := by
  induction s with
  | nil => exact absurd h (by decide)
  | cons c s ih =>
    rw [escapeBody_cons]
    by_cases hc : (0x20 ≤ c.toNat || c = '\n' || c = '\r' || c = '\t') = true
    · simp only [noRawControl, List.all_cons, hc, Bool.true_and] at h
      rw [decodeString_escapeChar_append hc, ih h]
      rfl
    · simp only [Bool.or_eq_true, decide_eq_true_eq, not_or, not_le] at hc
      obtain ⟨⟨⟨hlt, hn⟩, hr⟩, ht⟩ := hc
      have hb : c ≠ '\\' := by rintro rfl; exact absurd hlt (by decide)
      rw [escapeChar_of_control hlt hn hr ht, List.singleton_append, decodeString_cons_of_ne hb,
        if_pos hlt]

/-- A string literal written by `escape_string` decodes to the string or not at all. -/
theorem decodeString_escapeBody_or (s : List Char) :
    decodeString (escapeBody s) = none ∨ decodeString (escapeBody s) = some s := by
  cases h : noRawControl s
  · exact .inl (decodeString_escapeBody_of_raw h)
  · exact .inr (decodeString_escapeBody h)

/-! ## Values are read exactly or not at all -/

mutual

/-- **A value's tokens are read as the value or rejected**, at any fuel. -/
theorem Doc.parseValue_tokens_or : ∀ (d : Doc) (n : Nat) (rest : List Token),
    parseValue n (d.tokens ++ rest) = none ∨ parseValue n (d.tokens ++ rest) = some (d.value, rest)
  | .obj _, 0, _ | .arr _, 0, _ => .inl rfl
  | .obj ms, n + 1, rest => by
    simp only [Doc.tokens, Doc.value, List.cons_append, List.append_assoc, List.singleton_append,
      List.nil_append]
    by_cases hms : ms = []
    · subst hms
      exact .inr rfl
    · rw [← List.cons_append, parseValue_lbrace_membersTokens hms]
      simpa using membersParse_or ms hms n rest []
  | .arr es, n + 1, rest => by
    simp only [Doc.tokens, Doc.value, List.cons_append, List.append_assoc, List.singleton_append,
      List.nil_append]
    by_cases hes : es = []
    · subst hes
      exact .inr rfl
    · rw [← List.cons_append, parseValue_lbrack_docsTokens hes]
      simpa using elemsParse_or es hes n rest []

theorem Member.parseValue_valueTokens_or : ∀ (m : Member) (n : Nat) (rest : List Token),
    parseValue n (m.valueTokens ++ rest) = none ∨
      parseValue n (m.valueTokens ++ rest) = some (m.value, rest)
  | .str .., 0, _ | .num .., 0, _ | .bool .., 0, _ | .hex .., 0, _ | .arr .., 0, _ => .inl rfl
  | .str _ v, n + 1, rest => by
    rcases decodeString_escapeBody_or v with h | h <;>
      simp [Member.valueTokens, parseValue, h, Member.value]
  | .num _ v, n + 1, rest => by
    simp [Member.valueTokens, parseValue, decodeWord_decimalText, Member.value]
  | .bool _ b, n + 1, rest => by cases b <;> exact .inr rfl
  | .hex _ x, n + 1, rest => by
    simp [Member.valueTokens, parseValue, decodeString_hexValue, Member.value]
  | .arr _ es, n + 1, rest => by
    simp only [Member.valueTokens, Member.value, List.cons_append, List.append_assoc,
      List.singleton_append, List.nil_append]
    by_cases hes : es = []
    · subst hes
      exact .inr rfl
    · rw [← List.cons_append, parseValue_lbrack_docsTokens hes]
      simpa using elemsParse_or es hes n rest []

theorem membersParse_or : ∀ ms : List Member, ms ≠ [] →
    ∀ (n : Nat) (rest : List Token) (acc : List (List Char × Value)),
    parseMembers n (membersTokens true ms ++ .rbrace :: rest) acc = none ∨
      parseMembers n (membersTokens true ms ++ .rbrace :: rest) acc =
        some (.obj (acc ++ membersValue ms), rest)
  | [], hne, _, _, _ => absurd rfl hne
  | _ :: _, _, 0, _, _ => .inl rfl
  | m :: ms, _, n + 1, rest, acc => by
    have ih := membersParse_or ms
    simp only [membersTokens_true_cons, Member.tokens_eq, List.cons_append, List.append_assoc]
    rcases decodeString_escapeBody_or m.key with hk | hk
    · exact .inl (by simp only [parseMembers, hk])
    rcases Member.parseValue_valueTokens_or m n (membersTokens false ms ++ .rbrace :: rest)
      with hv | hv
    · exact .inl (by simp only [parseMembers, hk, hv])
    cases ms with
    | nil =>
      rw [parseMembers_close hk hv]
      exact .inr (by simp [membersValue])
    | cons m' ms' =>
      simp only [membersTokens_false_cons, List.cons_append] at hv ⊢
      rw [parseMembers_comma hk hv]
      simpa [membersValue] using ih (List.cons_ne_nil _ _) n rest (acc ++ [(m.key, m.value)])

theorem elemsParse_or : ∀ ds : List Doc, ds ≠ [] →
    ∀ (n : Nat) (rest : List Token) (acc : List Value),
    parseElems n (docsTokens true ds ++ .rbrack :: rest) acc = none ∨
      parseElems n (docsTokens true ds ++ .rbrack :: rest) acc =
        some (.arr (acc ++ docsValue ds), rest)
  | [], hne, _, _, _ => absurd rfl hne
  | _ :: _, _, 0, _, _ => .inl rfl
  | d :: ds, _, n + 1, rest, acc => by
    have ih := elemsParse_or ds
    rw [docsTokens_true_cons, List.append_assoc]
    rcases Doc.parseValue_tokens_or d n (docsTokens false ds ++ .rbrack :: rest) with hv | hv
    · exact .inl (by simp only [parseElems, hv])
    cases ds with
    | nil =>
      rw [parseElems_close hv]
      exact .inr (by simp [docsValue])
    | cons d' ds' =>
      simp only [docsTokens_false_cons, List.cons_append] at hv ⊢
      rw [parseElems_comma hv]
      simpa [docsValue] using ih (List.cons_ne_nil _ _) n rest (acc ++ [d.value])

end

/-! ## Runs of members and elements -/

/-- After a run of members and a `,`, the reader is at what follows, or has rejected the text. -/
theorem membersParse_comma : ∀ ms : List Member, ms ≠ [] →
    ∀ (n : Nat) (R : List Token) (acc : List (List Char × Value)),
    parseMembers n (membersTokens true ms ++ .comma :: R) acc = none ∨
      ∃ n' acc', parseMembers n (membersTokens true ms ++ .comma :: R) acc = parseMembers n' R acc'
  | [], hne, _, _, _ => absurd rfl hne
  | _ :: _, _, 0, _, _ => .inl rfl
  | m :: ms, _, n + 1, R, acc => by
    simp only [membersTokens_true_cons, Member.tokens_eq, List.cons_append, List.append_assoc]
    rcases decodeString_escapeBody_or m.key with hk | hk
    · exact .inl (by simp only [parseMembers, hk])
    rcases Member.parseValue_valueTokens_or m n (membersTokens false ms ++ .comma :: R) with hv | hv
    · exact .inl (by simp only [parseMembers, hk, hv])
    cases ms with
    | nil => exact .inr ⟨n, _, parseMembers_comma hk hv _⟩
    | cons m' ms' =>
      simp only [membersTokens_false_cons, List.cons_append] at hv ⊢
      rw [parseMembers_comma hk hv]
      exact membersParse_comma (m' :: ms') (List.cons_ne_nil _ _) n R _

/-! ## Rejected tokens -/

/-- No continuation makes `toks` the start of a value. -/
def Fails (toks : List Token) : Prop := ∀ n R, parseValue n (toks ++ R) = none

/-- No continuation makes `toks` the elements of an array after its `[`. -/
def ElemsFail (toks : List Token) : Prop :=
  (∃ t ts, toks = t :: ts ∧ t ≠ .rbrack) ∧ ∀ n R acc, parseElems n (toks ++ R) acc = none

theorem parseMembers_lbrace (n : Nat) (R : List Token) (acc : List (List Char × Value)) :
    parseMembers n (.lbrace :: R) acc = none := by
  cases n <;> rfl

theorem parseMembers_of_parseValue_none {n : Nat} {ts : List Token} (h : parseValue n ts = none)
    (raw : List Char) (acc : List (List Char × Value)) :
    parseMembers (n + 1) (.str raw :: .colon :: ts) acc = none := by
  simp only [parseMembers, h]
  cases decodeString raw <;> rfl

theorem parseValue_lbrack_of_elemsFail {toks : List Token} (h : ElemsFail toks) (n : Nat)
    (R : List Token) : parseValue n (.lbrack :: toks ++ R) = none := by
  obtain ⟨⟨t, ts, rfl, ht⟩, hf⟩ := h
  cases n with
  | zero => rfl
  | succ n => rw [List.cons_append, List.cons_append, parseValue_lbrack_of_ne ht, ← List.cons_append, hf]

/-- An object whose members are followed by `, {`: a member without a key. -/
theorem fails_members_lbrace {ms : List Member} (hms : ms ≠ []) :
    Fails (.lbrace :: membersTokens true ms ++ [.comma, .lbrace]) := by
  intro n R
  cases n with
  | zero => rfl
  | succ n =>
    rw [List.append_assoc, parseValue_lbrace_membersTokens hms]
    simp only [List.cons_append, List.nil_append]
    rcases membersParse_comma ms hms n (.lbrace :: R) [] with h | ⟨n', acc', h⟩
    · exact h
    · rw [h, parseMembers_lbrace]

/-- An object whose members are followed by an array member whose elements are rejected. -/
theorem fails_members_array {ms : List Member} (hms : ms ≠ []) (key : List Char)
    {toks : List Token} (he : ElemsFail toks) :
    Fails (.lbrace :: membersTokens true ms ++
      .comma :: .str (escapeBody key) :: .colon :: .lbrack :: toks) := by
  intro n R
  cases n with
  | zero => rfl
  | succ n =>
    rw [List.append_assoc, parseValue_lbrace_membersTokens hms]
    simp only [List.cons_append, List.nil_append]
    rcases membersParse_comma ms hms n _ [] with h | ⟨n', acc', h⟩
    · exact h
    · rw [h]
      cases n' with
      | zero => rfl
      | succ n' =>
        have hv := parseValue_lbrack_of_elemsFail he n' R
        rw [List.cons_append] at hv
        exact parseMembers_of_parseValue_none hv _ _

theorem elemsFail_of_fails {toks : List Token} (h : Fails toks) (hh : ∃ t ts, toks = t :: ts ∧ t ≠ .rbrack) :
    ElemsFail toks := by
  refine ⟨hh, fun n R acc => ?_⟩
  cases n with
  | zero => rfl
  | succ n => simp only [parseElems, h n R]

/-- Elements that start with a value and continue with rejected ones. -/
theorem elemsFail_doc_comma (d : Doc) {toks : List Token} (he : ElemsFail toks) :
    ElemsFail (d.tokens ++ .comma :: toks) := by
  refine ⟨?_, fun n R acc => ?_⟩
  · obtain ⟨t, ts, ht, hne⟩ := d.tokens_head
    exact ⟨t, ts ++ .comma :: toks, by rw [ht, List.cons_append], hne⟩
  cases n with
  | zero => rfl
  | succ n =>
    rw [List.append_assoc, List.cons_append]
    rcases Doc.parseValue_tokens_or d n (.comma :: (toks ++ R)) with hv | hv
    · simp only [parseElems, hv]
    · rw [parseElems_comma hv]
      exact he.2 n R _

/-! ## Raw control characters -/

theorem parseMembers_of_decodeString_none {raw : List Char} (h : decodeString raw = none)
    (n : Nat) (ts : List Token) (acc : List (List Char × Value)) :
    parseMembers (n + 1) (.str raw :: .colon :: ts) acc = none := by
  simp only [parseMembers, h]

mutual

/-- **A raw control character is rejected**: the tokens of a value with one in a key or a
    string are not read as a value, at any fuel and whatever follows them. -/
theorem Doc.parseValue_tokens_of_raw : ∀ d : Doc, d.escapable = false →
    ∀ (n : Nat) (rest : List Token), parseValue n (d.tokens ++ rest) = none
  | .obj _, _, 0, _ | .arr _, _, 0, _ => rfl
  | .obj ms, h, n + 1, rest => by
    have hms : ms ≠ [] := by rintro rfl; exact absurd h (by decide)
    rw [Doc.tokens, List.append_assoc, parseValue_lbrace_membersTokens hms]
    exact membersParse_of_raw ms h n _ []
  | .arr es, h, n + 1, rest => by
    have hes : es ≠ [] := by rintro rfl; exact absurd h (by decide)
    rw [Doc.tokens, List.append_assoc, parseValue_lbrack_docsTokens hes]
    exact elemsParse_of_raw es h n _ []

theorem Member.parseValue_valueTokens_of_raw : ∀ m : Member, m.escapable = false →
    noRawControl m.key = true → ∀ (n : Nat) (rest : List Token),
    parseValue n (m.valueTokens ++ rest) = none
  | .str .., _, _, 0, _ | .arr .., _, _, 0, _ => rfl
  | .num .., h, hk, _, _ | .bool .., h, hk, _, _ | .hex .., h, hk, _, _ => by
    simp_all [Member.escapable, Member.key]
  | .str _ v, h, hk, n + 1, rest => by
    simp only [Member.escapable, Member.key] at h hk
    rw [hk, Bool.true_and] at h
    simp [Member.valueTokens, parseValue, decodeString_escapeBody_of_raw h]
  | .arr _ es, h, hk, n + 1, rest => by
    simp only [Member.escapable, Member.key] at h hk
    rw [hk, Bool.true_and] at h
    have hes : es ≠ [] := by rintro rfl; exact absurd h (by decide)
    rw [Member.valueTokens, List.append_assoc, parseValue_lbrack_docsTokens hes]
    exact elemsParse_of_raw es h n _ []

theorem membersParse_of_raw : ∀ ms : List Member, membersEscapable ms = false →
    ∀ (n : Nat) (rest : List Token) (acc : List (List Char × Value)),
    parseMembers n (membersTokens true ms ++ rest) acc = none
  | [], h, _, _, _ => absurd h (by decide)
  | _ :: _, _, 0, _, _ => rfl
  | m :: ms, h, n + 1, rest, acc => by
    have ih := membersParse_of_raw ms
    simp only [membersTokens_true_cons, Member.tokens_eq, List.cons_append, List.append_assoc]
    by_cases hm : m.escapable = true
    · -- `m` is read whole; the raw character is further on
      simp only [membersEscapable, hm, Bool.true_and] at h
      have hk := decodeString_escapeBody (Member.noRawControl_key hm)
      rcases Member.parseValue_valueTokens_or m n (membersTokens false ms ++ rest) with hv | hv
      · simp only [parseMembers, hk, hv]
      cases ms with
      | nil => exact absurd h (by decide)
      | cons m' ms' =>
        simp only [membersTokens_false_cons, List.cons_append] at hv ⊢
        rw [parseMembers_comma hk hv]
        exact ih h n rest _
    · by_cases hk : noRawControl m.key = true
      · exact parseMembers_of_parseValue_none
          (Member.parseValue_valueTokens_of_raw m (by simpa using hm) hk n _) _ _
      · exact parseMembers_of_decodeString_none
          (decodeString_escapeBody_of_raw (by simpa using hk)) n _ acc

theorem elemsParse_of_raw : ∀ ds : List Doc, docsEscapable ds = false →
    ∀ (n : Nat) (rest : List Token) (acc : List Value),
    parseElems n (docsTokens true ds ++ rest) acc = none
  | [], h, _, _, _ => absurd h (by decide)
  | _ :: _, _, 0, _, _ => rfl
  | d :: ds, h, n + 1, rest, acc => by
    have ih := elemsParse_of_raw ds
    rw [docsTokens_true_cons, List.append_assoc]
    by_cases hd : d.escapable = true
    · simp only [docsEscapable, hd, Bool.true_and] at h
      rcases Doc.parseValue_tokens_or d n (docsTokens false ds ++ rest) with hv | hv
      · simp only [parseElems, hv]
      cases ds with
      | nil => exact absurd h (by decide)
      | cons d' ds' =>
        simp only [docsTokens_false_cons, List.cons_append] at hv ⊢
        rw [parseElems_comma hv]
        exact ih h n rest _
    · simp only [parseElems, Doc.parseValue_tokens_of_raw d (by simpa using hd) n]

end

/-- On a fresh builder, the calls of a value with a raw control character in a key or a string
    write a text that is not well-formed JSON. -/
theorem parseJson_toString_calls_of_raw (d : Doc) (hk : d.arrayKeysNonEmpty = true)
    (hc : d.escapable = false) : parseJson (JsonBuilder.init.run d.calls).toString = none := by
  obtain ⟨-, -, text, htext, hlex, -⟩ := Doc.emits_calls d JsonBuilder.init hk
  have hl : lex (JsonBuilder.init.run d.calls).toString = some d.tokens := by
    rw [JsonBuilder.toString, htext]
    simpa [JsonBuilder.init, commaIf] using lex_of_lexesTo hlex
  have hp := Doc.parseValue_tokens_of_raw d hc (d.tokens.length + 1) []
  rw [List.append_nil] at hp
  simp [parseJson, hl, hp]

/-! ## Texts that start with rejected tokens -/

/-- A text whose first piece lexes to rejected tokens is rejected, whatever follows it. -/
theorem parseJson_of_fails {text : List Char} {toks : List Token} (h : LexesToTop text toks)
    (hf : Fails toks) (rest : List Char) : parseJson (text ++ rest) = none := by
  rw [parseJson, lex, h]
  cases lexFrom .top rest with
  | none => rfl
  | some R =>
    have hR := fun n => hf n R
    simp [hR]

theorem JsonBuilder.call_json (b : JsonBuilder) (c : Call) : ∃ t, (b.call c).json = b.json ++ t := by
  cases c <;> simp [JsonBuilder.call, JsonBuilder.startObject, JsonBuilder.endObject,
    JsonBuilder.close, JsonBuilder.startArray, JsonBuilder.endArray, JsonBuilder.addString,
    JsonBuilder.addNumber, JsonBuilder.addBool, JsonBuilder.addHex, JsonBuilder.addMember]

/-- The builder only ever appends to `json_`. -/
theorem JsonBuilder.run_json (b : JsonBuilder) (cs : List Call) :
    ∃ t, (b.run cs).json = b.json ++ t := by
  induction cs generalizing b with
  | nil => exact ⟨[], by simp⟩
  | cons c cs ih =>
    obtain ⟨t, ht⟩ := b.call_json c
    obtain ⟨u, hu⟩ := ih (b.call c)
    exact ⟨t ++ u, by rw [JsonBuilder.run_cons, hu, ht, List.append_assoc]⟩

/-- Run from `b`, the calls `cs` first write a non-empty text that does not continue a bare
    word and lexes to `toks` in front of anything. -/
def StartsWriting (b : JsonBuilder) (cs : List Call) (toks : List Token) : Prop :=
  ∃ text rest, (b.run cs).json = b.json ++ text ++ rest ∧ LexesToTop text toks ∧
    StartsOutsideWord text ∧ text ≠ []

theorem StartsWriting.append {b : JsonBuilder} {cs : List Call} {toks : List Token}
    (h : StartsWriting b cs toks) (ds : List Call) : StartsWriting b (cs ++ ds) toks := by
  obtain ⟨text, rest, hj, hl, hs, hne⟩ := h
  obtain ⟨t, ht⟩ := (b.run cs).run_json ds
  exact ⟨text, rest ++ t, by rw [JsonBuilder.run_append, ht, hj]; simp, hl, hs, hne⟩

theorem Writes.startsWriting {b : JsonBuilder} {cs ds : List Call} {t u : List Token}
    (hw : Writes b (b.run cs) t) (h : StartsWriting (b.run cs) ds u) :
    StartsWriting b (cs ++ ds) (t ++ u) := by
  obtain ⟨text₁, hj₁, hl₁, hs₁⟩ := hw
  obtain ⟨text₂, rest, hj₂, hl₂, hs₂, hne⟩ := h
  exact ⟨text₁ ++ text₂, rest, by rw [JsonBuilder.run_append, hj₂, hj₁]; simp,
    hl₁.append_lexesToTop hl₂ hs₂ hne, hs₁.append hs₂, by simp [hne]⟩

theorem startsWriting_startObject (b : JsonBuilder) :
    StartsWriting b [.startObject] (commaIf b.firstItem ++ [.lbrace]) :=
  ⟨b.separator ++ indentText b.indentLevel ++ ['{', '\n'], [],
    by simp [JsonBuilder.call, JsonBuilder.startObject],
    (lexesToTop_lead b).append (lexesToTop_open (c := '{') rfl),
    (startsOutsideWord_lead b).append ((startsOutsideWord_cons _ _).mpr (by decide)), by simp⟩

/-! ## Objects the builder leaves open -/

section OpenObject

variable {b : JsonBuilder} {ms : List Member}

/-- `start_object()` and the calls of non-empty members: the object is open after them. -/
theorem writes_openObject (hk : membersArrayKeysNonEmpty ms = true) (hms : ms ≠ []) :
    Writes b (b.run (.startObject :: membersCalls ms))
        (commaIf b.firstItem ++ .lbrace :: membersTokens true ms) ∧
      (b.run (.startObject :: membersCalls ms)).firstItem = false := by
  have h := membersEmits_calls ms b.startObject hk
  simp only [JsonBuilder.startObject_firstItem, Bool.true_and, List.isEmpty_eq_false.mpr hms] at h
  exact ⟨by simpa [JsonBuilder.call] using (writes_startObject b).trans h.2.2, h.2.1⟩

/-- An object whose members are followed by `start_object()`, which writes no key: whatever
    is written next, the text is rejected. -/
theorem startsWriting_objectInObject (hk : membersArrayKeysNonEmpty ms = true) (hms : ms ≠ [])
    (cs : List Call) :
    ∃ ts, Fails (.lbrace :: ts) ∧
      StartsWriting b (.startObject :: membersCalls ms ++ .startObject :: cs)
        (commaIf b.firstItem ++ .lbrace :: ts) := by
  obtain ⟨hw, hf⟩ := writes_openObject (b := b) hk hms
  have hs := (startsWriting_startObject (b.run (.startObject :: membersCalls ms))).append cs
  rw [hf] at hs
  exact ⟨_, fails_members_lbrace hms, by simpa [commaIf] using hw.startsWriting hs⟩

/-- An object whose members are followed by an array member whose elements are rejected. -/
theorem startsWriting_arrayInObject (hk : membersArrayKeysNonEmpty ms = true) (hms : ms ≠ [])
    {key : List Char} (hkey : key ≠ []) {cs : List Call} {toks : List Token}
    (he : ElemsFail toks)
    (h : StartsWriting ((b.run (.startObject :: membersCalls ms)).startArray key) cs toks) :
    ∃ ts, Fails (.lbrace :: ts) ∧
      StartsWriting b (.startObject :: membersCalls ms ++ .startArray key :: cs)
        (commaIf b.firstItem ++ .lbrace :: ts) := by
  obtain ⟨hw, hf⟩ := writes_openObject (b := b) hk hms
  have ha := writes_startArray_of_ne hkey (b.run (.startObject :: membersCalls ms))
  have hb : (b.run (.startObject :: membersCalls ms)).startArray key =
      b.run (.startObject :: membersCalls ms ++ [.startArray key]) := by simp [JsonBuilder.call]
  rw [hf, hb] at ha
  rw [hb] at h
  have hs := (hw.trans ha).startsWriting h
  exact ⟨_, fails_members_array hms key he, by simpa [commaIf] using hs⟩

end OpenObject

end SystemRdlToolkit.Json
