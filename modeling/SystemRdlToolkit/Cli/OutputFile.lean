import Mathlib.Data.List.Infix
import SystemRdlToolkit.Json.Filename

/-!
# Default output names of the command-line tools

When no `-o` is given, the template renderer (`src/parser_main.cpp`, lines 209–234) and
`systemrdl_csv2rdl` (`src/unnamed/part_004`, lines 545–555) name the output after the input.
Both compute with `size_t` positions, modelled by `UInt64` as in `Json.Filename`.

The renderer keeps the RDL file's name after its last separator, cut before its last `'.'`, and
adds `_` and the text of the template's name between its first `_j2_` and its first `.j2`
(`test_j2_header.h.j2` gives `header.h`), or `_rendered.txt`. `systemrdl_csv2rdl` documents
`<input>.rdl`; it cuts the whole path before its last `'.'` and adds `.rdl`.

Results:

* `rdlBasename_eq_stem`: the renderer's name starts with the documented stem for every path,
  with or without a directory: without a separator `find_last_of` gives `npos`, and `npos + 1`
  wraps to `0`, so the whole path is kept before the extension is cut;
* `renderOutputFile_of_purpose`, `renderOutputFile_of_no_purpose`: the name is
  `<stem>_<purpose>` when the template's name has `_j2_` and then `.j2`, else
  `<stem>_rendered.txt`;
* `renderOutputFile_of_j2_before_marker`: when the first `.j2` comes before the first `_j2_`,
  `end - start` wraps around and the purpose is all the text after `_j2_`;
* `csv2rdlOutputFile_eq_replaceExtension`: `systemrdl_csv2rdl` writes `<input>.rdl` when the
  file's own name has a `'.'` or the path has none;
* `csv2rdlOutputFile_of_dot_in_directory`: when only a directory has a `'.'`, the name is cut
  inside the directory part and the file's own name is lost (`./regs` gives `.rdl`).
-/

namespace SystemRdlToolkit.Cli

open Json Json.Spec

/-! ## `std::string::find` -/

/-- The index of the first occurrence of `pat` in `s`. -/
def firstIndexOf (pat : List Char) : List Char → Option Nat
  | [] => if pat.isPrefixOf [] then some 0 else none
  | c :: s => if pat.isPrefixOf (c :: s) then some 0 else (firstIndexOf pat s).map (· + 1)

/-- `s.find(pat)`. -/
def find (s pat : List Char) : UInt64 :=
  match firstIndexOf pat s with
  | some i => UInt64.ofNat i
  | none => npos

/-- `path.substr(path.find_last_of("/\\") + 1)`: the text after the last separator. -/
def afterLastSeparator (path : List Char) : List Char :=
  substr path (findLastOf path ['/', '\\'] + 1) npos

/-! ## Model of the code -/

/-- `rdl_basename` (lines 211–215): the RDL file's name, resized before its last `'.'`. -/
def rdlBasename (rdlFile : List Char) : List Char :=
  let basename := afterLastSeparator rdlFile
  let dotPos := findLastOf basename ['.']
  if dotPos ≠ npos then basename.take dotPos.toNat else basename

/-- `purpose_and_ext` (lines 217–229): the text of the template's name from after its first
    `_j2_` to its first `.j2`, when it has both. -/
def purposeAndExt (templateFile : List Char) : Option (List Char) :=
  let templateBasename := afterLastSeparator templateFile
  let j2Pos := find templateBasename "_j2_".toList
  if j2Pos ≠ npos then
    let start := j2Pos + 4
    let endPos := find templateBasename ".j2".toList
    if endPos ≠ npos then some (substr templateBasename start (endPos - start)) else none
  else none

/-- The template renderer's output file (lines 209–234): the `-o` value, or a name made from the
    RDL file's and the template's names. -/
def renderOutputFile (rdlFile templateFile output : List Char) : List Char :=
  if output = [] then
    let outputFile :=
      match purposeAndExt templateFile with
      | some purpose => rdlBasename rdlFile ++ "_".toList ++ purpose
      | none => output
    if outputFile = [] then rdlBasename rdlFile ++ "_rendered.txt".toList else outputFile
  else output

/-- `systemrdl_csv2rdl`'s output file (`src/unnamed/part_004`, lines 545–555): the `-o` value,
    or the input cut before its last `'.'`, with `.rdl` added. -/
def csv2rdlOutputFile (inputFile output : List Char) : List Char :=
  if output = [] then
    let dotPos := findLastOf inputFile ['.']
    if dotPos ≠ npos then substr inputFile 0 dotPos ++ ".rdl".toList
    else inputFile ++ ".rdl".toList
  else output

/-! ## Specification -/

namespace Spec

/-- The directory part of a path: the text up to its last separator, that separator included. -/
def directory (p : List Char) : List Char :=
  p.take (p.length - (lastComponent p).length)

/-- The documented name `<input>.rdl`: the path with the extension of its file name replaced by
    `ext`. -/
def replaceExtension (p ext : List Char) : List Char :=
  directory p ++ stem p ++ ext

end Spec

/-! ## `size_t` arithmetic -/

theorem ofNat_add_ofNat (m n : Nat) : UInt64.ofNat m + UInt64.ofNat n = UInt64.ofNat (m + n) := by
  rw [eq_iff_toNat_eq, toNat_add_eq, toNat_ofNat_eq, toNat_ofNat_eq, toNat_ofNat_eq, ← Nat.add_mod]

theorem toNat_sub_eq (a b : UInt64) : (a - b).toNat = (2 ^ 64 - b.toNat + a.toNat) % 2 ^ 64 := by
  rw [UInt64.sub_def]
  exact BitVec.toNat_sub _ _

/-! ## `find` -/

theorem firstIndexOf_of_prefix {pat s : List Char} (h : pat <+: s) : firstIndexOf pat s = some 0 := by
  cases s <;> simp [firstIndexOf, List.isPrefixOf_iff_prefix.mpr h]

theorem firstIndexOf_cons {pat s : List Char} {c : Char} (h : ¬ pat <+: c :: s) :
    firstIndexOf pat (c :: s) = (firstIndexOf pat s).map (· + 1) := by
  rw [firstIndexOf, if_neg (mt List.isPrefixOf_iff_prefix.mp h)]

theorem firstIndexOf_eq_none {pat : List Char} :
    ∀ {s : List Char}, ¬ pat <:+: s → firstIndexOf pat s = none
  | [], h => by rw [firstIndexOf, if_neg fun hp => h (List.isPrefixOf_iff_prefix.mp hp).isInfix]
  | c :: s, h => by
    rw [firstIndexOf_cons fun hp => h hp.isInfix,
      firstIndexOf_eq_none fun hi => h (List.infix_cons hi)]
    rfl

/-- An occurrence of `pat` after `a` is the first one when none starts in `a`. -/
theorem firstIndexOf_append {pat : List Char} (r : List Char) :
    ∀ {a : List Char}, ¬ pat <:+: a ++ pat.dropLast → firstIndexOf pat (a ++ pat ++ r) = some a.length
  | [], _ => firstIndexOf_of_prefix (List.prefix_append _ _)
  | c :: a, h => by
    have hp : ¬ pat <+: c :: (a ++ pat ++ r) := fun hp => by
      have hd : c :: a ++ pat.dropLast <+: c :: (a ++ pat ++ r) := by
        rw [List.append_assoc a, ← List.cons_append]
        exact (List.prefix_append_right_inj _).mpr ((List.dropLast_prefix pat).trans
          (List.prefix_append pat r))
      exact h (List.prefix_of_prefix_length_le hp hd (by simp; omega)).isInfix
    show firstIndexOf pat (c :: (a ++ pat ++ r)) = some (a.length + 1)
    rw [firstIndexOf_cons hp, firstIndexOf_append r fun hi => h (List.infix_cons hi)]
    rfl

/-- The first occurrence comes no later than any occurrence. -/
theorem firstIndexOf_le {pat : List Char} (v : List Char) :
    ∀ u : List Char, ∃ i ≤ u.length, firstIndexOf pat (u ++ pat ++ v) = some i
  | [] => ⟨0, le_rfl, firstIndexOf_of_prefix (List.prefix_append _ _)⟩
  | c :: u => by
    by_cases hp : pat <+: c :: (u ++ pat ++ v)
    · exact ⟨0, Nat.zero_le _, firstIndexOf_of_prefix hp⟩
    · obtain ⟨i, hi, he⟩ := firstIndexOf_le v u
      exact ⟨i + 1, by simp [hi], by
        show firstIndexOf pat (c :: (u ++ pat ++ v)) = _
        rw [firstIndexOf_cons hp, he]
        rfl⟩

theorem find_of_firstIndexOf {s pat : List Char} {i : Nat} (h : firstIndexOf pat s = some i) :
    find s pat = UInt64.ofNat i := by
  rw [find, h]

theorem find_of_not_infix {s pat : List Char} (h : ¬ pat <:+: s) : find s pat = npos := by
  rw [find, firstIndexOf_eq_none h]

/-! ## The last path component -/

theorem lastComponent_suffix (p : List Char) : lastComponent p <:+ p := by
  have h : (p.reverse.takeWhile fun c => !isSeparator c) <+: p.reverse := List.takeWhile_prefix _
  rw [← List.reverse_suffix, List.reverse_reverse] at h
  exact h

theorem lastComponent_of_no_separator {p : List Char} (h : ∀ c ∈ p, ¬ isSeparator c) :
    lastComponent p = p := by
  rw [lastComponent, List.takeWhile_eq_self_iff.mpr (by simpa using h), List.reverse_reverse]

theorem directory_append_lastComponent (p : List Char) :
    Spec.directory p ++ lastComponent p = p :=
  List.suffix_iff_eq_append.mp (lastComponent_suffix p)

/-! ## The last `'.'` -/

/-- A text with a `'.'` splits at its last one. -/
theorem exists_last_dot {s : List Char} (h : '.' ∈ s) : ∃ a b, s = a ++ '.' :: b ∧ '.' ∉ b := by
  obtain ⟨a, c, b, rfl, hc, hb⟩ := exists_last_mem ['.'] ⟨'.', h, List.mem_singleton_self _⟩
  obtain rfl := List.mem_singleton.mp hc
  exact ⟨a, b, rfl, fun h => hb '.' h (List.mem_singleton_self _)⟩

theorem findLastOf_dot (a : List Char) {b : List Char} (hb : '.' ∉ b) :
    findLastOf (a ++ '.' :: b) ['.'] = UInt64.ofNat a.length :=
  findLastOf_append_cons a b (List.mem_singleton_self _)
    fun _ hx e => hb (List.mem_singleton.mp e ▸ hx)

theorem findLastOf_of_no_dot {s : List Char} (h : '.' ∉ s) : findLastOf s ['.'] = npos :=
  findLastOf_of_not_mem fun _ hc e => h (List.mem_singleton.mp e ▸ hc)

/-- The text after the last separator is the last component; without a separator,
    `npos + 1 = 0`. -/
theorem afterLastSeparator_eq (p : List Char) (hlen : p.length < 2 ^ 64) :
    afterLastSeparator p = lastComponent p := by
  by_cases hsep : ∃ c ∈ p, c ∈ ['/', '\\']
  · obtain ⟨dir, sep, comp, rfl, hs, hcomp⟩ := exists_last_mem ['/', '\\'] hsep
    simp only [List.length_append, List.length_cons] at hlen
    rw [lastComponent_append_cons dir comp ((isSeparator_iff sep).mpr hs)
        fun x hx => by simpa [isSeparator_iff] using hcomp x hx,
      afterLastSeparator, findLastOf_append_cons dir comp hs hcomp, ofNat_add_one, substr,
      toNat_ofNat_of_lt (by omega), toNat_npos, List.take_of_length_le (by simp; omega)]
    simp
  · have hnone : ∀ c ∈ p, c ∉ ['/', '\\'] := fun c hc hm => hsep ⟨c, hc, hm⟩
    rw [lastComponent_of_no_separator fun c hc => by simpa [isSeparator_iff] using hnone c hc,
      afterLastSeparator, findLastOf_of_not_mem hnone, show npos + 1 = 0 from rfl, substr,
      List.take_of_length_le (by simp; omega)]
    rfl

/-! ## The template renderer -/

/-- **The renderer's name starts with the documented stem**, for every path a `std::string` can
    hold, with or without a directory. -/
theorem rdlBasename_eq_stem (rdlFile : List Char) (hlen : rdlFile.length < 2 ^ 64) :
    rdlBasename rdlFile = stem rdlFile := by
  have hc := (lastComponent_suffix rdlFile).length_le
  simp only [rdlBasename, afterLastSeparator_eq rdlFile hlen]
  by_cases hdot : '.' ∈ lastComponent rdlFile
  · obtain ⟨base, ext, hsplit, hext⟩ := exists_last_dot hdot
    rw [stem_of_dot rdlFile base ext hsplit hext, hsplit, findLastOf_dot base hext]
    rw [hsplit] at hc
    simp only [List.length_append, List.length_cons] at hc
    rw [if_pos (ofNat_ne_npos (by omega)), toNat_ofNat_of_lt (by omega)]
    simp
  · rw [stem_of_no_dot rdlFile hdot, findLastOf_of_no_dot hdot]
    simp

/-- With `_j2_` first at `j` and `.j2` first at `e`, the purpose is `end - start` characters
    from `start = j + 4`, the difference taken as a `size_t`. -/
theorem purposeAndExt_of_find {templateFile : List Char} {j e : Nat}
    (hlen : templateFile.length < 2 ^ 64) (hj : j + 4 < 2 ^ 64) (he : e < 2 ^ 64 - 1)
    (hfj : find (lastComponent templateFile) "_j2_".toList = UInt64.ofNat j)
    (hfe : find (lastComponent templateFile) ".j2".toList = UInt64.ofNat e) :
    purposeAndExt templateFile = some (((lastComponent templateFile).drop (j + 4)).take
      (UInt64.ofNat e - UInt64.ofNat (j + 4)).toNat) := by
  simp only [purposeAndExt, afterLastSeparator_eq templateFile hlen, hfj, hfe]
  rw [if_pos (ofNat_ne_npos (by omega)), if_pos (ofNat_ne_npos he),
    show (4 : UInt64) = UInt64.ofNat 4 from rfl, ofNat_add_ofNat, substr, toNat_ofNat_of_lt hj]

theorem purposeAndExt_of_marker (templateFile a m r : List Char)
    (hlen : templateFile.length < 2 ^ 64)
    (ht : lastComponent templateFile = a ++ "_j2_".toList ++ m ++ ".j2".toList ++ r)
    (ha : ¬ "_j2_".toList <:+: a ++ "_j2".toList)
    (hm : ¬ ".j2".toList <:+: a ++ "_j2_".toList ++ m ++ ".j".toList) :
    purposeAndExt templateFile = some m := by
  have hc := (lastComponent_suffix templateFile).length_le
  rw [ht] at hc
  simp only [List.length_append, show "_j2_".toList.length = 4 from rfl,
    show ".j2".toList.length = 3 from rfl] at hc
  have h1 : find (lastComponent templateFile) "_j2_".toList = UInt64.ofNat a.length := by
    rw [ht, List.append_assoc, List.append_assoc]
    exact find_of_firstIndexOf (firstIndexOf_append _ ha)
  have h2 : find (lastComponent templateFile) ".j2".toList =
      UInt64.ofNat (a.length + 4 + m.length) := by
    rw [ht]
    exact find_of_firstIndexOf ((firstIndexOf_append r hm).trans (by simp; omega))
  rw [purposeAndExt_of_find hlen (by omega) (by omega) h1 h2,
    toNat_ofNat_sub (by omega) (by omega), ht]
  simp

/-- When the first `.j2` comes before the first `_j2_`, `end - start` wraps around to a count
    larger than what is left, and `substr` takes the whole rest. -/
theorem purposeAndExt_of_j2_before_marker (templateFile a m : List Char)
    (hlen : templateFile.length < 2 ^ 64)
    (ht : lastComponent templateFile = a ++ "_j2_".toList ++ m)
    (ha : ¬ "_j2_".toList <:+: a ++ "_j2".toList) (he : ".j2".toList <:+: a) :
    purposeAndExt templateFile = some m := by
  obtain ⟨u, v, rfl⟩ := he
  have hc := (lastComponent_suffix templateFile).length_le
  rw [ht] at hc
  simp only [List.length_append, show "_j2_".toList.length = 4 from rfl,
    show ".j2".toList.length = 3 from rfl] at hc
  obtain ⟨i, hi, hfirst⟩ : ∃ i ≤ u.length,
      firstIndexOf ".j2".toList (u ++ ".j2".toList ++ (v ++ "_j2_".toList ++ m)) = some i :=
    firstIndexOf_le _ u
  have h1 : find (lastComponent templateFile) "_j2_".toList =
      UInt64.ofNat (u ++ ".j2".toList ++ v).length := by
    rw [ht]
    exact find_of_firstIndexOf (firstIndexOf_append m ha)
  have h2 : find (lastComponent templateFile) ".j2".toList = UInt64.ofNat i := by
    rw [ht]
    exact find_of_firstIndexOf (by simpa only [List.append_assoc] using hfirst)
  have hj : (u ++ ".j2".toList ++ v).length = u.length + 3 + v.length := by simp; omega
  rw [purposeAndExt_of_find hlen (by omega) (by omega) h1 h2, ht,
    List.drop_left' (by rw [List.length_append, hj]; rfl), List.take_of_length_le]
  rw [toNat_sub_eq, toNat_ofNat_of_lt (by omega), toNat_ofNat_of_lt (by omega)]
  omega

theorem purposeAndExt_of_no_marker (templateFile : List Char) (hlen : templateFile.length < 2 ^ 64)
    (h : ¬ "_j2_".toList <:+: lastComponent templateFile ∨
      ¬ ".j2".toList <:+: lastComponent templateFile) :
    purposeAndExt templateFile = none := by
  rcases h with h | h <;> simp only [purposeAndExt, afterLastSeparator_eq templateFile hlen,
    find_of_not_infix h, ne_eq, not_true_eq_false, if_false, ite_self]

theorem renderOutputFile_of_purposeAndExt {rdlFile templateFile purpose : List Char}
    (hlen : rdlFile.length < 2 ^ 64) (h : purposeAndExt templateFile = some purpose) :
    renderOutputFile rdlFile templateFile [] = stem rdlFile ++ "_".toList ++ purpose := by
  simp [renderOutputFile, h, rdlBasename_eq_stem rdlFile hlen]

theorem renderOutputFile_of_purposeAndExt_none {rdlFile templateFile : List Char}
    (hlen : rdlFile.length < 2 ^ 64) (h : purposeAndExt templateFile = none) :
    renderOutputFile rdlFile templateFile [] = stem rdlFile ++ "_rendered.txt".toList := by
  simp [renderOutputFile, h, rdlBasename_eq_stem rdlFile hlen]

/-- **The documented name**: a template named `<a>_j2_<purpose>.j2<r>`, with `_j2_` and `.j2`
    at their first occurrences, gives `<stem>_<purpose>`. -/
theorem renderOutputFile_of_purpose (rdlFile templateFile a m r : List Char)
    (hrdl : rdlFile.length < 2 ^ 64) (htpl : templateFile.length < 2 ^ 64)
    (ht : lastComponent templateFile = a ++ "_j2_".toList ++ m ++ ".j2".toList ++ r)
    (ha : ¬ "_j2_".toList <:+: a ++ "_j2".toList)
    (hm : ¬ ".j2".toList <:+: a ++ "_j2_".toList ++ m ++ ".j".toList) :
    renderOutputFile rdlFile templateFile [] = stem rdlFile ++ "_".toList ++ m :=
  renderOutputFile_of_purposeAndExt hrdl (purposeAndExt_of_marker templateFile a m r htpl ht ha hm)

theorem renderOutputFile_design_header :
    "rtl/design.rdl".toList.length < 2 ^ 64 ∧ "test/test_j2_header.h.j2".toList.length < 2 ^ 64 ∧
      lastComponent "test/test_j2_header.h.j2".toList =
        "test".toList ++ "_j2_".toList ++ "header.h".toList ++ ".j2".toList ++ [] ∧
      ¬ "_j2_".toList <:+: "test".toList ++ "_j2".toList ∧
      ¬ ".j2".toList <:+: "test".toList ++ "_j2_".toList ++ "header.h".toList ++ ".j".toList ∧
      renderOutputFile "rtl/design.rdl".toList "test/test_j2_header.h.j2".toList [] =
        stem "rtl/design.rdl".toList ++ "_".toList ++ "header.h".toList :=
  ⟨by decide, by decide, by decide, by decide, by decide,
    renderOutputFile_of_purpose _ _ "test".toList _ [] (by decide) (by decide) (by decide) (by decide)
      (by decide)⟩

example :
    renderOutputFile "rtl/design.rdl".toList "test/test_j2_header.h.j2".toList [] =
      "design_header.h".toList := by
  decide

/-- A template whose name lacks `_j2_` or `.j2` gives `<stem>_rendered.txt`. -/
theorem renderOutputFile_of_no_purpose (rdlFile templateFile : List Char)
    (hrdl : rdlFile.length < 2 ^ 64) (htpl : templateFile.length < 2 ^ 64)
    (h : ¬ "_j2_".toList <:+: lastComponent templateFile ∨
      ¬ ".j2".toList <:+: lastComponent templateFile) :
    renderOutputFile rdlFile templateFile [] = stem rdlFile ++ "_rendered.txt".toList :=
  renderOutputFile_of_purposeAndExt_none hrdl (purposeAndExt_of_no_marker templateFile htpl h)

theorem renderOutputFile_design_report :
    "design.rdl".toList.length < 2 ^ 64 ∧ "templates/report.j2".toList.length < 2 ^ 64 ∧
      (¬ "_j2_".toList <:+: lastComponent "templates/report.j2".toList ∨
        ¬ ".j2".toList <:+: lastComponent "templates/report.j2".toList) ∧
      renderOutputFile "design.rdl".toList "templates/report.j2".toList [] =
        stem "design.rdl".toList ++ "_rendered.txt".toList :=
  ⟨by decide, by decide, by decide,
    renderOutputFile_of_no_purpose _ _ (by decide) (by decide) (by decide)⟩

/-- **A `.j2` before the marker**: the purpose is then all the text after `_j2_`, a later `.j2`
    included, because `end - start` wraps around. -/
theorem renderOutputFile_of_j2_before_marker (rdlFile templateFile a m : List Char)
    (hrdl : rdlFile.length < 2 ^ 64) (htpl : templateFile.length < 2 ^ 64)
    (ht : lastComponent templateFile = a ++ "_j2_".toList ++ m)
    (ha : ¬ "_j2_".toList <:+: a ++ "_j2".toList) (he : ".j2".toList <:+: a) :
    renderOutputFile rdlFile templateFile [] = stem rdlFile ++ "_".toList ++ m :=
  renderOutputFile_of_purposeAndExt hrdl
    (purposeAndExt_of_j2_before_marker templateFile a m htpl ht ha he)

theorem renderOutputFile_j2_before_marker_header :
    "design.rdl".toList.length < 2 ^ 64 ∧ "x.j2_j2_header.h.j2".toList.length < 2 ^ 64 ∧
      lastComponent "x.j2_j2_header.h.j2".toList =
        "x.j2".toList ++ "_j2_".toList ++ "header.h.j2".toList ∧
      ¬ "_j2_".toList <:+: "x.j2".toList ++ "_j2".toList ∧ ".j2".toList <:+: "x.j2".toList ∧
      renderOutputFile "design.rdl".toList "x.j2_j2_header.h.j2".toList [] =
        stem "design.rdl".toList ++ "_".toList ++ "header.h.j2".toList :=
  ⟨by decide, by decide, by decide, by decide, by decide,
    renderOutputFile_of_j2_before_marker _ _ "x.j2".toList _ (by decide) (by decide) (by decide) (by decide)
      (by decide)⟩

/-! ## `systemrdl_csv2rdl` -/

theorem csv2rdlOutputFile_of_last_dot (a b : List Char) (hb : '.' ∉ b)
    (hlen : (a ++ '.' :: b).length < 2 ^ 64) :
    csv2rdlOutputFile (a ++ '.' :: b) [] = a ++ ".rdl".toList := by
  simp only [List.length_append, List.length_cons] at hlen
  simp only [csv2rdlOutputFile, if_true, findLastOf_dot a hb]
  rw [if_pos (ofNat_ne_npos (by omega)), substr, toNat_ofNat_of_lt (by omega)]
  simp

theorem csv2rdlOutputFile_of_no_dot {p : List Char} (hp : '.' ∉ p) :
    csv2rdlOutputFile p [] = p ++ ".rdl".toList := by
  simp [csv2rdlOutputFile, findLastOf_of_no_dot hp]

/-- **`<input>.rdl`**: when the file's own name has a `'.'`, or the path has none, the name is
    the documented one. -/
theorem csv2rdlOutputFile_eq_replaceExtension (p : List Char)
    (hp : '.' ∈ lastComponent p ∨ '.' ∉ p) (hlen : p.length < 2 ^ 64) :
    csv2rdlOutputFile p [] = Spec.replaceExtension p ".rdl".toList := by
  have hsplit := directory_append_lastComponent p
  rcases hp with hdot | hdot
  · obtain ⟨base, ext, hl, hb⟩ := exists_last_dot hdot
    rw [hl, ← List.append_assoc] at hsplit
    rw [Spec.replaceExtension, stem_of_dot p base ext hl hb]
    conv_lhs => rw [← hsplit]
    exact csv2rdlOutputFile_of_last_dot _ ext hb (by rw [hsplit]; exact hlen)
  · rw [csv2rdlOutputFile_of_no_dot hdot, Spec.replaceExtension,
      stem_of_no_dot p fun h => hdot ((lastComponent_suffix p).subset h), hsplit]

theorem csv2rdlOutputFile_regs_csv :
    ('.' ∈ lastComponent "data/regs.csv".toList ∨ '.' ∉ "data/regs.csv".toList) ∧
      "data/regs.csv".toList.length < 2 ^ 64 ∧
      csv2rdlOutputFile "data/regs.csv".toList [] =
        Spec.replaceExtension "data/regs.csv".toList ".rdl".toList :=
  ⟨by decide, by decide, csv2rdlOutputFile_eq_replaceExtension _ (by decide) (by decide)⟩

/-- **A `'.'` only in a directory**: the name is cut inside the directory part, so the input's
    own file name is lost, where `<input>.rdl` is the whole path and `.rdl`. -/
theorem csv2rdlOutputFile_of_dot_in_directory (p : List Char) (hp : '.' ∈ p)
    (h : '.' ∉ lastComponent p) (hlen : p.length < 2 ^ 64) :
    ∃ a, a <+: Spec.directory p ∧ a.length < (Spec.directory p).length ∧
      csv2rdlOutputFile p [] = a ++ ".rdl".toList := by
  obtain ⟨a, b, rfl, hb⟩ := exists_last_dot hp
  -- the file name lies after the last `'.'`
  have hlast : (lastComponent (a ++ '.' :: b)).length ≤ b.length := by
    by_contra hgt
    exact h ((List.suffix_of_suffix_length_le (List.suffix_append a ('.' :: b))
      (lastComponent_suffix _) (by simp; omega)).subset (List.mem_cons_self _ _))
  have hdir : a.length < (Spec.directory (a ++ '.' :: b)).length := by
    simp only [Spec.directory, List.length_take, List.length_append, List.length_cons]
    omega
  exact ⟨a, List.prefix_of_prefix_length_le (List.prefix_append _ _) (List.take_prefix _ _) hdir.le,
    hdir, csv2rdlOutputFile_of_last_dot a b hb hlen⟩

theorem csv2rdlOutputFile_dot_slash_regs :
    '.' ∈ "./regs".toList ∧ '.' ∉ lastComponent "./regs".toList ∧ "./regs".toList.length < 2 ^ 64 ∧
      ∃ a, a <+: Spec.directory "./regs".toList ∧ a.length < (Spec.directory "./regs".toList).length ∧
        csv2rdlOutputFile "./regs".toList [] = a ++ ".rdl".toList :=
  ⟨by decide, by decide, by decide,
    csv2rdlOutputFile_of_dot_in_directory _ (by decide) (by decide) (by decide)⟩

example : csv2rdlOutputFile "./regs".toList [] = ".rdl".toList ∧
    Spec.replaceExtension "./regs".toList ".rdl".toList = "./regs.rdl".toList := by
  decide

end SystemRdlToolkit.Cli
