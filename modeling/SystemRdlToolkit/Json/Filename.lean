import SystemRdlToolkit.Json.Value

/-!
# `get_default_json_filename`

Model of the helper of `json_output.h` (`src/unnamed/part_006`, lines 275–293) that names the
JSON file written for an input file when `--json` is given no name. The README documents the
result as `<input_basename>_ast.json` (`input.rdl` gives `input_ast.json`).

Positions are `size_t`, modelled by `UInt64`; `find_last_of` returns `std::string::npos`, the
largest `size_t`, when no character matches. The code compares the last `'.'` with the last
separator as `size_t`s, so when the path has no separator the comparison is against `npos`.

Results:

* `getDefaultJsonFilename_of_separator`: when the path has a `'/'` or `'\\'`, the name is the
  documented one: the last component with its final extension removed, then the suffix and
  `.json` (`Spec.defaultJsonFilename`);
* `getDefaultJsonFilename_of_no_separator`: when it has neither, `last_dot > last_slash` is
  `last_dot > npos`, which never holds, so the whole path is kept, extension included;
* `getDefaultJsonFilename_input_rdl`: `input.rdl` with `_ast` gives `input.rdl_ast.json`.
-/

namespace SystemRdlToolkit.Json

/-! ## `size_t` and `std::string` -/

/-- `std::string::npos`, the largest `size_t`. -/
def npos : UInt64 := 0xFFFFFFFFFFFFFFFF

/-- The index of the last character of `s` that is in `chars`. -/
def lastIndexIn (chars : List Char) : List Char → Option Nat
  | [] => none
  | c :: s =>
    match lastIndexIn chars s with
    | some i => some (i + 1)
    | none => if c ∈ chars then some 0 else none

/-- `s.find_last_of(chars)`. -/
def findLastOf (s chars : List Char) : UInt64 :=
  match lastIndexIn chars s with
  | some i => UInt64.ofNat i
  | none => npos

/-- `s.substr(pos, count)`, for `pos` at most the length of `s`. -/
def substr (s : List Char) (pos count : UInt64) : List Char :=
  (s.drop pos.toNat).take count.toNat

/-! ## Model of the code -/

/-- `get_default_json_filename` (lines 276–293). -/
def getDefaultJsonFilename (inputFile suffix : List Char) : List Char :=
  let lastSlash := findLastOf inputFile ['/', '\\']
  let lastDot := findLastOf inputFile ['.']
  let basename := if lastSlash ≠ npos then substr inputFile (lastSlash + 1) npos else inputFile
  let basename :=
    if lastDot ≠ npos ∧ lastDot > lastSlash then
      substr basename 0 (lastDot - (if lastSlash ≠ npos then lastSlash + 1 else 0))
    else basename
  basename ++ suffix ++ ".json".toList

/-! ## Specification -/

namespace Spec

/-- A path separator, `'/'` or `'\\'`. -/
def isSeparator (c : Char) : Bool := c = '/' ∨ c = '\\'

/-- The last path component: the text after the last separator, or the whole path. -/
def lastComponent (p : List Char) : List Char :=
  (p.reverse.takeWhile fun c => !isSeparator c).reverse

/-- The last component with its final extension removed, from its last `'.'`, if any. -/
def stem (p : List Char) : List Char :=
  if '.' ∈ lastComponent p then
    (((lastComponent p).reverse.dropWhile fun c => c ≠ '.').drop 1).reverse
  else lastComponent p

/-- The documented name: `<input-stem><suffix>.json`. -/
def defaultJsonFilename (p suffix : List Char) : List Char :=
  stem p ++ suffix ++ ".json".toList

end Spec

open Spec

/-! ## `npos` -/

@[simp] theorem toNat_npos : npos.toNat = 2 ^ 64 - 1 := rfl

theorem ofNat_ne_npos {n : Nat} (h : n < 2 ^ 64 - 1) : UInt64.ofNat n ≠ npos := by
  rw [Ne, eq_iff_toNat_eq, toNat_ofNat_of_lt (by omega), toNat_npos]
  omega

theorem not_npos_lt (a : UInt64) : ¬ npos < a := by
  rw [lt_iff_toNat_lt, toNat_npos]
  have := UInt64.toNat_lt_size a
  simp only [UInt64.size] at this
  omega

/-! ## `find_last_of` -/

theorem lastIndexIn_eq_none {chars s : List Char} (h : ∀ c ∈ s, c ∉ chars) :
    lastIndexIn chars s = none := by
  induction s with
  | nil => rfl
  | cons c s ih =>
    simp only [List.mem_cons, forall_eq_or_imp] at h
    simp [lastIndexIn, ih h.2, h.1]

theorem lastIndexIn_lt {chars : List Char} :
    ∀ {s : List Char} {i : Nat}, lastIndexIn chars s = some i → i < s.length
  | [], _, h => by simp [lastIndexIn] at h
  | c :: s, i, h => by
    unfold lastIndexIn at h
    split at h
    · cases h; simp [lastIndexIn_lt ‹_›]
    · split_ifs at h; cases h; simp

theorem lastIndexIn_append_of_not_mem {chars : List Char} (a b : List Char)
    (hb : ∀ x ∈ b, x ∉ chars) : lastIndexIn chars (a ++ b) = lastIndexIn chars a := by
  induction a with
  | nil => exact lastIndexIn_eq_none hb
  | cons x a ih => simp [lastIndexIn, ih]

theorem lastIndexIn_append_cons {chars : List Char} (a b : List Char) {c : Char}
    (hc : c ∈ chars) (hb : ∀ x ∈ b, x ∉ chars) :
    lastIndexIn chars (a ++ c :: b) = some a.length := by
  induction a with
  | nil => simp [lastIndexIn, lastIndexIn_eq_none hb, hc]
  | cons x a ih => simp [lastIndexIn, ih]

/-- A list with an element of `chars` splits at its last one. -/
theorem exists_last_mem (chars : List Char) {s : List Char} (h : ∃ c ∈ s, c ∈ chars) :
    ∃ a c b, s = a ++ c :: b ∧ c ∈ chars ∧ ∀ x ∈ b, x ∉ chars := by
  induction s using List.reverseRecOn with
  | nil => simp at h
  | append_singleton t x ih =>
    by_cases hx : x ∈ chars
    · exact ⟨t, x, [], rfl, hx, by simp⟩
    · have ht : ∃ c ∈ t, c ∈ chars := by
        obtain ⟨c, hc, hcc⟩ := h
        rcases List.mem_append.mp hc with hc | hc
        · exact ⟨c, hc, hcc⟩
        · exact absurd (List.mem_singleton.mp hc ▸ hcc) hx
      obtain ⟨a, c, b, rfl, hc, hb⟩ := ih ht
      refine ⟨a, c, b ++ [x], by simp, hc, ?_⟩
      simpa [or_imp, forall_and] using ⟨hb, hx⟩

theorem findLastOf_append_cons {chars : List Char} (a b : List Char) {c : Char}
    (hc : c ∈ chars) (hb : ∀ x ∈ b, x ∉ chars) :
    findLastOf (a ++ c :: b) chars = UInt64.ofNat a.length := by
  simp [findLastOf, lastIndexIn_append_cons a b hc hb]

theorem findLastOf_of_not_mem {chars s : List Char} (h : ∀ c ∈ s, c ∉ chars) :
    findLastOf s chars = npos := by
  simp [findLastOf, lastIndexIn_eq_none h]

/-! ## The specification on a split path -/

theorem lastComponent_append_cons (dir comp : List Char) {sep : Char}
    (hsep : isSeparator sep) (hcomp : ∀ x ∈ comp, ¬ isSeparator x) :
    lastComponent (dir ++ sep :: comp) = comp := by
  have hpos : ∀ x ∈ comp.reverse, (!isSeparator x) = true := by simpa using hcomp
  simp [lastComponent, List.takeWhile_append_of_pos hpos, hsep]

theorem stem_of_dot (p base ext : List Char) (hp : lastComponent p = base ++ '.' :: ext)
    (hext : '.' ∉ ext) : stem p = base := by
  have hne : ∀ x ∈ ext, ¬ x = '.' := fun x hx e => hext (e ▸ hx)
  simp +contextual [stem, hp, List.dropWhile_append, hne]

theorem stem_of_no_dot (p : List Char) (hp : '.' ∉ lastComponent p) : stem p = lastComponent p := by
  simp [stem, hp]

/-! ## The name the code computes -/

/-- With the last separator at `d`, the name is the text after it, cut before the last `'.'`
    when that comes after the separator. -/
theorem getDefaultJsonFilename_of_lastIndexIn {p : List Char} (suffix : List Char) {d : Nat}
    (hd : lastIndexIn ['/', '\\'] p = some d) (hlen : p.length < 2 ^ 64) :
    getDefaultJsonFilename p suffix =
      (match lastIndexIn ['.'] p with
        | some i => if d < i then (p.drop (d + 1)).take (i - (d + 1)) else p.drop (d + 1)
        | none => p.drop (d + 1)) ++ suffix ++ ".json".toList := by
  have hdlt := lastIndexIn_lt hd
  have hfind : findLastOf p ['/', '\\'] = UInt64.ofNat d := by rw [findLastOf, hd]
  have hbase : substr p (UInt64.ofNat (d + 1)) npos = p.drop (d + 1) := by
    rw [substr, toNat_ofNat_of_lt (by omega), toNat_npos, List.take_of_length_le]
    simp only [List.length_drop]
    omega
  simp only [getDefaultJsonFilename, hfind, ofNat_add_one, hbase,
    ofNat_ne_npos (show d < 2 ^ 64 - 1 by omega), ne_eq, not_false_eq_true, if_true]
  unfold findLastOf
  cases hi : lastIndexIn ['.'] p with
  | none => simp [not_npos_lt]
  | some i =>
    have hilt := lastIndexIn_lt hi
    simp only [gt_iff_lt, ofNat_lt_ofNat (by omega : d < 2 ^ 64) (by omega : i < 2 ^ 64),
      ofNat_ne_npos (show i < 2 ^ 64 - 1 by omega), ofNat_add_one]
    by_cases hdi : d < i
    · simp [hdi, substr, toNat_ofNat_sub hdi (by omega : i < 2 ^ 64)]
    · simp [hdi]

theorem isSeparator_iff (c : Char) : isSeparator c ↔ c ∈ ['/', '\\'] := by
  simp [isSeparator]

/-- **Without a separator the extension stays.** `last_slash` is `npos`, and no `size_t` is
    greater than `npos`, so `last_dot > last_slash` fails whatever the path. -/
theorem getDefaultJsonFilename_of_no_separator (p suffix : List Char)
    (h : ∀ c ∈ p, ¬ isSeparator c) :
    getDefaultJsonFilename p suffix = p ++ suffix ++ ".json".toList := by
  have hslash : findLastOf p ['/', '\\'] = npos :=
    findLastOf_of_not_mem fun c hc => by simpa [isSeparator_iff] using h c hc
  simp [getDefaultJsonFilename, hslash, not_npos_lt]

theorem getDefaultJsonFilename_of_no_separator_input :
    (∀ c ∈ "input.rdl".toList, ¬ isSeparator c) ∧
      getDefaultJsonFilename "input.rdl".toList "_ast".toList =
        "input.rdl".toList ++ "_ast".toList ++ ".json".toList :=
  ⟨by decide, getDefaultJsonFilename_of_no_separator _ _ (by decide)⟩

/-- The README's example: `input.rdl` is documented to give `input_ast.json`, and the code
    gives `input.rdl_ast.json`. -/
theorem getDefaultJsonFilename_input_rdl :
    getDefaultJsonFilename "input.rdl".toList "_ast".toList = "input.rdl_ast.json".toList ∧
      defaultJsonFilename "input.rdl".toList "_ast".toList = "input_ast.json".toList :=
  ⟨rfl, rfl⟩

/-- **With a separator the name is the documented one**, for every path a `std::string` can
    hold. -/
theorem getDefaultJsonFilename_of_separator (p suffix : List Char)
    (hsep : ∃ c ∈ p, isSeparator c) (hlen : p.length < 2 ^ 64) :
    getDefaultJsonFilename p suffix = defaultJsonFilename p suffix := by
  obtain ⟨dir, sep, comp, rfl, hs, hcomp⟩ :=
    exists_last_mem ['/', '\\'] (by simpa only [isSeparator_iff] using hsep)
  have hlast : lastComponent (dir ++ sep :: comp) = comp :=
    lastComponent_append_cons dir comp ((isSeparator_iff sep).mpr hs)
      fun x hx => by simpa [isSeparator_iff] using hcomp x hx
  have hdrop : (dir ++ sep :: comp).drop (dir.length + 1) = comp := by simp
  rw [getDefaultJsonFilename_of_lastIndexIn suffix (lastIndexIn_append_cons dir comp hs hcomp)
    hlen, defaultJsonFilename, hdrop]
  by_cases hdot : '.' ∈ comp
  · obtain ⟨base, c, ext, rfl, hc, hext⟩ := exists_last_mem ['.'] ⟨'.', hdot, by simp⟩
    rw [List.mem_singleton] at hc
    subst hc
    have hi := lastIndexIn_append_cons (dir ++ sep :: base) ext (List.mem_singleton_self '.') hext
    simp only [List.append_assoc, List.cons_append, List.length_append, List.length_cons] at hi
    rw [hi, stem_of_dot _ base ext hlast fun h => hext '.' h (List.mem_singleton_self _)]
    dsimp only
    rw [if_pos (by omega), show dir.length + (base.length + 1) - (dir.length + 1) = base.length by omega]
    simp
  · have hi : lastIndexIn ['.'] (dir ++ sep :: comp) = lastIndexIn ['.'] dir :=
      lastIndexIn_append_of_not_mem dir (sep :: comp) fun x hx => by
        rcases List.mem_cons.mp hx with rfl | hx
        · simpa using fun e : x = '.' => by simp [e] at hs
        · simpa using fun e : x = '.' => hdot (e ▸ hx)
    rw [hi, stem_of_no_dot _ (by rw [hlast]; exact hdot), hlast]
    cases hd : lastIndexIn ['.'] dir with
    | none => rfl
    | some i => simp [show ¬ dir.length < i by have := lastIndexIn_lt hd; omega]

theorem getDefaultJsonFilename_of_separator_dir :
    (∃ c ∈ "rtl.v2/input.rdl".toList, isSeparator c) ∧ "rtl.v2/input.rdl".toList.length < 2 ^ 64 ∧
      getDefaultJsonFilename "rtl.v2/input.rdl".toList "_ast".toList =
        defaultJsonFilename "rtl.v2/input.rdl".toList "_ast".toList :=
  ⟨by decide, by decide, getDefaultJsonFilename_of_separator _ _ (by decide) (by decide)⟩

example : defaultJsonFilename "rtl.v2/input.rdl".toList "_ast".toList = "input_ast.json".toList := by
  decide

end SystemRdlToolkit.Json
