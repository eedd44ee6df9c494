import Mathlib

/-!
# JSON values and the text of scalars

The JSON values both writers of the parser and the elaborator produce, the string escaping of
`JsonBuilder` (`src/unnamed/part_006`, lines 28–42), and the text `std::ostream` writes for
the numbers: decimal for `long long`, lower-case hexadecimal after `std::hex` (both as core's
`Nat.toDigits`). `size_t` and `uint64_t` are `UInt64`, reasoned about through `toNat`.

`nlohmann::json` values are modelled by `Value` with its `operator[]` assignment (`Value.set`)
and `push_back` (`Value.pushBack`). Its objects are `std::map`s, which keep their keys sorted;
they are modelled as lists of members where assigning a present key replaces it and a new key
is added last, so the members stand in insertion order where `nlohmann::json` sorts them, and
a value read from text keeps its members in the text's order. The decoding results read members
by key only. The results that compare whole values (a document read back against the one the
code builds by assignments) compare the two lists of members; `nlohmann::json` holds both sides
as sorted maps, and equal lists sort to equal maps, so each such equality holds of the sorted
values too.

Results:

* `readDigits_toDigits`: reading back the digits `std::ostream` writes gives the number, in
  base 10 and in base 16;
* `lookup_set_self`, `lookup_set_of_ne`: what `operator[]` assignment does to a lookup.
-/

namespace SystemRdlToolkit.Json

/-! ## Values -/

/-- A JSON value. Numbers are integers: no part of the program writes another kind. -/
inductive Value where
  | null
  | bool (b : Bool)
  | num (n : Int)
  | str (s : List Char)
  | arr (elems : List Value)
  | obj (members : List (List Char × Value))
deriving Repr

/-- The member of an object under `key`, if any. -/
def Value.lookup (key : List Char) : Value → Option Value
  | .obj ms => (ms.find? fun m => m.1 = key).map Prod.snd
  | _ => none

/-- Assign `v` to `key` in a member list: replace a present key, else add the member. -/
def setMember (key : List Char) (v : Value) : List (List Char × Value) → List (List Char × Value)
  | [] => [(key, v)]
  | m :: ms => if m.1 = key then (key, v) :: ms else m :: setMember key v ms

/-- `j[key] = v`: a `null` value becomes an object first. -/
def Value.set (j : Value) (key : List Char) (v : Value) : Value :=
  match j with
  | .obj ms => .obj (setMember key v ms)
  | _ => .obj [(key, v)]

/-- `j.push_back(v)`: a `null` value becomes an array first. -/
def Value.pushBack (j : Value) (v : Value) : Value :=
  match j with
  | .arr l => .arr (l ++ [v])
  | _ => .arr [v]

theorem find?_setMember_self (key : List Char) (v : Value) (ms : List (List Char × Value)) :
    (setMember key v ms).find? (fun m => m.1 = key) = some (key, v) := by
  induction ms with
  | nil => simp [setMember]
  | cons m ms ih => by_cases h : m.1 = key <;> simp [setMember, h, ih]

theorem find?_setMember_of_ne {key key' : List Char} (h : key' ≠ key) (v : Value)
    (ms : List (List Char × Value)) :
    (setMember key v ms).find? (fun m => m.1 = key') = ms.find? fun m => m.1 = key' := by
  induction ms with
  | nil => simp [setMember, Ne.symm h]
  | cons m ms ih =>
    by_cases hm : m.1 = key
    · simp [setMember, hm, Ne.symm h]
    · simp [setMember, hm, List.find?_cons, ih]

@[simp] theorem lookup_set_self (j : Value) (key : List Char) (v : Value) :
    (j.set key v).lookup key = some v := by
  cases j <;> simp [Value.set, Value.lookup, find?_setMember_self]

theorem lookup_set_of_ne {key key' : List Char} (h : key' ≠ key) (ms : List (List Char × Value))
    (v : Value) : ((Value.obj ms).set key v).lookup key' = (Value.obj ms).lookup key' := by
  simp [Value.set, Value.lookup, find?_setMember_of_ne h]

theorem setMember_of_not_mem {key : List Char} {ms : List (List Char × Value)}
    (h : key ∉ ms.map Prod.fst) (v : Value) : setMember key v ms = ms ++ [(key, v)] := by
  induction ms with
  | nil => rfl
  | cons m ms ih =>
    simp only [List.map_cons, List.mem_cons, not_or] at h
    simp [setMember, Ne.symm h.1, ih h.2]

theorem Value.set_obj_of_not_mem {key : List Char} {ms : List (List Char × Value)}
    (h : key ∉ ms.map Prod.fst) (v : Value) : (Value.obj ms).set key v = .obj (ms ++ [(key, v)]) := by
  simp [Value.set, setMember_of_not_mem h]

/-! ## Strings -/

/-- One character as `JsonBuilder::escape_string` writes it. -/
def escapeChar (c : Char) : List Char :=
  if c = '"' then ['\\', '"']
  else if c = '\\' then ['\\', '\\']
  else if c = '\n' then ['\\', 'n']
  else if c = '\r' then ['\\', 'r']
  else if c = '\t' then ['\\', 't']
  else [c]

/-- The text between the quotes. -/
def escapeBody (s : List Char) : List Char := s.flatMap escapeChar

/-- `JsonBuilder::escape_string` (lines 28–42). -/
def escapeString (s : List Char) : List Char := '"' :: escapeBody s ++ ['"']

@[simp] theorem escapeBody_nil : escapeBody [] = [] := rfl

@[simp] theorem escapeBody_cons (c : Char) (s : List Char) :
    escapeBody (c :: s) = escapeChar c ++ escapeBody s := rfl

/-! ## `size_t` and `uint64_t` -/

theorem toNat_ofNat_eq (n : Nat) : (UInt64.ofNat n).toNat = n % 2 ^ 64 :=
  BitVec.toNat_ofNat _ _

theorem toNat_add_eq (a b : UInt64) : (a + b).toNat = (a.toNat + b.toNat) % 2 ^ 64 := by
  rw [UInt64.add_def]
  exact BitVec.toNat_add _ _

theorem lt_iff_toNat_lt (a b : UInt64) : a < b ↔ a.toNat < b.toNat := by
  rw [UInt64.lt_def, BitVec.lt_def]
  rfl

theorem le_iff_toNat_le (a b : UInt64) : a ≤ b ↔ a.toNat ≤ b.toNat := by
  rw [UInt64.le_def, BitVec.le_def]
  rfl

theorem eq_iff_toNat_eq (a b : UInt64) : a = b ↔ a.toNat = b.toNat :=
  ⟨fun h => h ▸ rfl, UInt64.toNat.inj⟩

theorem toNat_ofNat_of_lt {n : Nat} (h : n < 2 ^ 64) : (UInt64.ofNat n).toNat = n := by
  rw [toNat_ofNat_eq, Nat.mod_eq_of_lt h]

theorem ofNat_add_one (n : Nat) : UInt64.ofNat n + 1 = UInt64.ofNat (n + 1) := by
  rw [eq_iff_toNat_eq, toNat_add_eq, toNat_ofNat_eq, toNat_ofNat_eq]
  show (n % 2 ^ 64 + 1) % 2 ^ 64 = (n + 1) % 2 ^ 64
  omega

theorem ofNat_lt_ofNat {m n : Nat} (hm : m < 2 ^ 64) (hn : n < 2 ^ 64) :
    UInt64.ofNat m < UInt64.ofNat n ↔ m < n := by
  rw [lt_iff_toNat_lt, toNat_ofNat_of_lt hm, toNat_ofNat_of_lt hn]

theorem toNat_ofNat_sub {m n : Nat} (h : m ≤ n) (hn : n < 2 ^ 64) :
    (UInt64.ofNat n - UInt64.ofNat m).toNat = n - m := by
  have hm : m < 2 ^ 64 := by omega
  rw [UInt64.toNat_sub_of_le _ _ ((le_iff_toNat_le _ _).mpr _), toNat_ofNat_of_lt hm,
    toNat_ofNat_of_lt hn]
  rwa [toNat_ofNat_of_lt hm, toNat_ofNat_of_lt hn]

theorem ofNat_toNat (x : UInt64) : UInt64.ofNat x.toNat = x := by
  rw [eq_iff_toNat_eq, toNat_ofNat_of_lt (UInt64.toNat_lt_size x)]

/-! ## Numbers -/

/-- `os << v` for a `long long`. -/
def decimalText (n : Int) : List Char :=
  if n < 0 then '-' :: Nat.toDigits 10 n.natAbs else Nat.toDigits 10 n.toNat

/-- `os << std::hex << v` for an unsigned value. -/
def hexText (n : Nat) : List Char := Nat.toDigits 16 n

/-- The conversion of a 64-bit unsigned value to `long long`, as in the call
    `add_number(key, v)` with a `size_t` or `uint64_t`. -/
def toLongLong (x : UInt64) : Int :=
  if x.toNat < 2 ^ 63 then x.toNat else (x.toNat : Int) - 2 ^ 64

theorem toLongLong_of_lt {x : UInt64} (h : x.toNat < 2 ^ 63) : toLongLong x = x.toNat := by
  rw [toLongLong, if_pos h]

/-- The value of a decimal or hexadecimal digit, in either case. -/
def hexDigitValue (c : Char) : Option Nat :=
  if '0' ≤ c ∧ c ≤ '9' then some (c.toNat - '0'.toNat)
  else if 'a' ≤ c ∧ c ≤ 'f' then some (c.toNat - 'a'.toNat + 10)
  else if 'A' ≤ c ∧ c ≤ 'F' then some (c.toNat - 'A'.toNat + 10)
  else none

/-- Digits in base `b`, most significant first, after the value `acc` read so far. -/
def readDigitsFrom (b : Nat) : Nat → List Char → Option Nat
  | acc, [] => some acc
  | acc, c :: s =>
    match hexDigitValue c with
    | some d => if d < b then readDigitsFrom b (acc * b + d) s else none
    | none => none

/-- A non-empty run of digits in base `b`. -/
def readDigits (b : Nat) (s : List Char) : Option Nat :=
  if s = [] then none else readDigitsFrom b 0 s

theorem hexDigitValue_digitChar : ∀ d < 16, hexDigitValue (Nat.digitChar d) = some d := by
  decide

theorem readDigitsFrom_digitChar {b : Nat} (hb : b ≤ 16) {d : Nat} (hd : d < b) (acc : Nat)
    (s : List Char) :
    readDigitsFrom b acc (Nat.digitChar d :: s) = readDigitsFrom b (acc * b + d) s := by
  simp [readDigitsFrom, hexDigitValue_digitChar d (by omega), hd]

/-- `Nat.toDigitsCore` with enough fuel writes the digits of `n` in front of `ds`. -/
theorem readDigitsFrom_toDigitsCore {b : Nat} (hb2 : 2 ≤ b) (hb : b ≤ 16) :
    ∀ (fuel n : Nat) (ds : List Char), n < fuel →
      readDigitsFrom b 0 (Nat.toDigitsCore b fuel n ds) = readDigitsFrom b n ds
  | 0, _, _, h => absurd h (Nat.not_lt_zero _)
  | fuel + 1, n, ds, h => by
    have hmod : n % b < b := Nat.mod_lt _ (by omega)
    simp only [Nat.toDigitsCore]
    split
    · rename_i h0
      have hn : n < b :=
        Nat.lt_of_not_le fun h => absurd h0 (Nat.pos_iff_ne_zero.mp (Nat.div_pos h (by omega)))
      rw [readDigitsFrom_digitChar hb hmod, Nat.zero_mul, Nat.zero_add, Nat.mod_eq_of_lt hn]
    · rename_i h0
      have hlt : n / b < fuel := by
        have := Nat.div_lt_self (Nat.pos_of_ne_zero fun hn => h0 (hn ▸ Nat.zero_div b)) (show 1 < b by omega)
        omega
      rw [readDigitsFrom_toDigitsCore hb2 hb fuel (n / b) _ hlt,
        readDigitsFrom_digitChar hb hmod, Nat.div_add_mod']

theorem toDigits_ne_nil (b n : Nat) : Nat.toDigits b n ≠ [] := by
  simp only [Nat.toDigits, Nat.toDigitsCore]
  split
  · simp
  · exact List.ne_nil_of_length_pos (by rw [Nat.toDigitsCore_lens_eq]; omega)

/-- **Digits round trip.** -/
theorem readDigits_toDigits {b : Nat} (hb2 : 2 ≤ b) (hb : b ≤ 16) (n : Nat) :
    readDigits b (Nat.toDigits b n) = some n := by
  rw [readDigits, if_neg (toDigits_ne_nil b n), Nat.toDigits,
    readDigitsFrom_toDigitsCore hb2 hb _ n [] (Nat.lt_succ_self n)]
  rfl

theorem readDigits_hexText (n : Nat) : readDigits 16 (hexText n) = some n :=
  readDigits_toDigits (by decide) le_rfl n

end SystemRdlToolkit.Json
