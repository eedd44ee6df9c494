import SystemRdlToolkit.Csv.Parser

/-!
# The field processors

`trim`, `remove_all_newlines`, `process_description` and `process_name_field` of `CSVParser`
(`src/unnamed/part_004`, lines 136–194) put every cell `parse_row` reads into a normal form:
nothing of `" \t\r\n"` at either end, a name without line breaks, a description whose every run
of `\n` and `\r` is one `\n`. A value already in that form is kept, so each processor is
idempotent.

Results:

* `collapseNewlines_eq`: the loop of `process_description` is `collapseFrom false`, which
  replaces every run of `\n` and `\r` by one `\n`;
* `trim_trim`, `processNameField_processNameField`, `processDescription_processDescription`: the
  processors are idempotent.
-/

namespace SystemRdlToolkit.Csv

/-! ## The ends of a trimmed text -/

/-- No character of `" \t\r\n"` at either end of `s`. -/
def EndsTrimmed (s : List Char) : Prop :=
  (∀ a ∈ s.head?, isTrimSpace a = false) ∧ ∀ a ∈ s.getLast?, isTrimSpace a = false

theorem trim_of_endsTrimmed {s : List Char} (h : EndsTrimmed s) : trim s = s := by
  have hd : s.dropWhile isTrimSpace = s := by
    cases s with
    | nil => rfl
    | cons a s => simp [List.dropWhile, h.1 a rfl]
  rw [trim, hd, List.rdropWhile_eq_self_iff]
  intro hne
  simp [h.2 (s.getLast hne) (List.getLast?_eq_getLast s hne)]

theorem endsTrimmed_trim (s : List Char) : EndsTrimmed (trim s) := by
  refine ⟨fun a ha => ?_, fun a ha => ?_⟩
  · -- `trim s` is a prefix of `s.dropWhile isTrimSpace`, whose head is kept
    obtain ⟨t, ht⟩ := List.rdropWhile_prefix isTrimSpace (s.dropWhile isTrimSpace)
    have hd := List.head?_dropWhile_not isTrimSpace s
    rw [trim] at ha
    rw [← ht, List.head?_append, ha] at hd
    simpa [Option.or] using hd
  · have hne : trim s ≠ [] := fun e => by simp [e] at ha
    rw [List.getLast?_eq_getLast _ hne, Option.mem_def, Option.some.injEq] at ha
    subst ha
    simpa [trim] using List.rdropWhile_last_not isTrimSpace (s.dropWhile isTrimSpace) hne

theorem trim_trim (s : List Char) : trim (trim s) = trim s :=
  trim_of_endsTrimmed (endsTrimmed_trim s)

theorem isTrimSpace_eq_false {c : Char} (h : isTrimSpace c = false) : c ≠ '\n' ∧ c ≠ '\r' := by
  constructor <;> rintro rfl <;> exact absurd h (by decide)

/-! ## Names -/

@[simp] theorem removeAllNewlines_cons (c : Char) (s : List Char) :
    removeAllNewlines (c :: s) =
      if c = '\n' ∨ c = '\r' then removeAllNewlines s else c :: removeAllNewlines s := by
  by_cases h₁ : c = '\n'
  · simp [removeAllNewlines, h₁]
  · by_cases h₂ : c = '\r' <;> simp [removeAllNewlines, List.filter_cons, h₁, h₂]

theorem removeAllNewlines_append (s t : List Char) :
    removeAllNewlines (s ++ t) = removeAllNewlines s ++ removeAllNewlines t := by
  simp [removeAllNewlines, List.filter_append]

theorem removeAllNewlines_removeAllNewlines (s : List Char) :
    removeAllNewlines (removeAllNewlines s) = removeAllNewlines s := by
  induction s with
  | nil => rfl
  | cons c s ih => by_cases h : c = '\n' ∨ c = '\r' <;> simp [h, ih]

theorem endsTrimmed_removeAllNewlines {s : List Char} (h : EndsTrimmed s) :
    EndsTrimmed (removeAllNewlines s) := by
  refine ⟨fun a ha => ?_, fun a ha => ?_⟩
  · cases s with
    | nil => simp [removeAllNewlines] at ha
    | cons c s =>
      have hc := h.1 c rfl
      have := isTrimSpace_eq_false hc
      simp only [removeAllNewlines_cons, this, or_self, if_false, List.head?_cons,
        Option.mem_def, Option.some.injEq] at ha
      exact ha ▸ hc
  · rcases List.eq_nil_or_concat s with rfl | ⟨t, c, rfl⟩
    · simp [removeAllNewlines] at ha
    · rw [List.concat_eq_append] at h ha
      have hc := h.2 c (by simp)
      have hr : removeAllNewlines (t ++ [c]) = removeAllNewlines t ++ [c] := by
        have hn := isTrimSpace_eq_false hc
        rw [removeAllNewlines_append, removeAllNewlines_cons, if_neg (by simpa using hn)]
        rfl
      rw [hr] at ha
      simp only [List.getLast?_append, List.getLast?_singleton, Option.mem_def] at ha
      simp at ha
      exact ha ▸ hc

theorem processNameField_processNameField (s : List Char) :
    processNameField (processNameField s) = processNameField s := by
  unfold processNameField
  by_cases hs : s = []
  · simp [hs]
  by_cases hr : removeAllNewlines (trim s) = []
  · simp [hs, hr]
  rw [if_neg hs, if_neg hr, trim_of_endsTrimmed (endsTrimmed_removeAllNewlines (endsTrimmed_trim s)),
    removeAllNewlines_removeAllNewlines]

/-! ## Descriptions -/

/-- The loop of `process_description` from `prev_was_newline = prev`: every run of `\n` and `\r`
    becomes one `\n`, a run at the start dropped when `prev`. -/
def collapseFrom : Bool → List Char → List Char
  | _, [] => []
  | prev, c :: s =>
    if c = '\n' ∨ c = '\r' then (if prev then collapseFrom true s else '\n' :: collapseFrom true s)
    else c :: collapseFrom false s

theorem foldl_collapse (s : List Char) :
    ∀ (acc : List Char) (prev : Bool),
      (s.foldl (fun (acc : List Char × Bool) c =>
        if c = '\n' ∨ c = '\r' then (if acc.2 then acc else (acc.1 ++ ['\n'], true))
        else (acc.1 ++ [c], false)) (acc, prev)).1 = acc ++ collapseFrom prev s := by
  induction s with
  | nil => simp [collapseFrom]
  | cons c s ih =>
    intro acc prev
    by_cases hc : c = '\n' ∨ c = '\r'
    · cases prev <;> simp [collapseFrom, hc, ih]
    · simp [collapseFrom, hc, ih]

theorem collapseNewlines_eq (s : List Char) : collapseNewlines s = collapseFrom false s := by
  simpa using foldl_collapse s [] false

/-- What the loop writes: no `\r`, no `\n` after a `\n`, and none first when `prev`. -/
def Collapsed : Bool → List Char → Prop
  | _, [] => True
  | prev, c :: s => c ≠ '\r' ∧ (c = '\n' → prev = false) ∧ Collapsed (c = '\n') s

theorem collapsed_collapseFrom : ∀ (prev : Bool) (s : List Char), Collapsed prev (collapseFrom prev s)
  | _, [] => trivial
  | prev, c :: s => by
    by_cases hc : c = '\n' ∨ c = '\r'
    · cases prev
      · simpa [collapseFrom, hc, Collapsed] using collapsed_collapseFrom true s
      · simpa [collapseFrom, hc] using collapsed_collapseFrom true s
    · have := collapsed_collapseFrom false s
      simp only [not_or] at hc
      simpa [collapseFrom, hc, Collapsed] using this

theorem collapseFrom_of_collapsed : ∀ {prev : Bool} {s : List Char}, Collapsed prev s →
    collapseFrom prev s = s
  | _, [], _ => rfl
  | prev, c :: s, ⟨hr, hn, h⟩ => by
    by_cases hc : c = '\n'
    · subst hc
      simp [collapseFrom, hn rfl, collapseFrom_of_collapsed (by simpa using h)]
    · simp [collapseFrom, hc, hr, collapseFrom_of_collapsed (by simpa [hc] using h)]

theorem collapseFrom_cons_of_not {c : Char} (hc : ¬(c = '\n' ∨ c = '\r')) (prev : Bool)
    (s : List Char) : collapseFrom prev (c :: s) = c :: collapseFrom false s := by
  simp [collapseFrom, hc]

theorem collapseFrom_concat_of_not {c : Char} (hc : ¬(c = '\n' ∨ c = '\r')) :
    ∀ (prev : Bool) (s : List Char), collapseFrom prev (s ++ [c]) = collapseFrom prev s ++ [c]
  | prev, [] => by simp [collapseFrom, hc]
  | prev, d :: s => by
    by_cases hd : d = '\n' ∨ d = '\r'
    · cases prev <;> simp [collapseFrom, hd, collapseFrom_concat_of_not hc true s]
    · simp [collapseFrom, hd, collapseFrom_concat_of_not hc false s]

theorem endsTrimmed_collapseFrom {s : List Char} (h : EndsTrimmed s) :
    EndsTrimmed (collapseFrom false s) := by
  refine ⟨fun a ha => ?_, fun a ha => ?_⟩
  · cases s with
    | nil => simp [collapseFrom] at ha
    | cons c s =>
      have hc := h.1 c rfl
      rw [collapseFrom_cons_of_not (by simpa using isTrimSpace_eq_false hc)] at ha
      simp only [List.head?_cons, Option.mem_def, Option.some.injEq] at ha
      exact ha ▸ hc
  · rcases List.eq_nil_or_concat s with rfl | ⟨t, c, rfl⟩
    · simp [collapseFrom] at ha
    · rw [List.concat_eq_append] at h ha
      have hc := h.2 c (by simp)
      rw [collapseFrom_concat_of_not (by simpa using isTrimSpace_eq_false hc)] at ha
      simp only [List.getLast?_append, List.getLast?_singleton, Option.mem_def] at ha
      simp at ha
      exact ha ▸ hc

theorem collapseFrom_ne_nil {s : List Char} (hs : s ≠ []) (h : EndsTrimmed s) :
    collapseFrom false s ≠ [] := by
  obtain ⟨c, s, rfl⟩ := List.exists_cons_of_ne_nil hs
  rw [collapseFrom_cons_of_not (by simpa using isTrimSpace_eq_false (h.1 c rfl))]
  exact List.cons_ne_nil _ _

theorem processDescription_processDescription (s : List Char) :
    processDescription (processDescription s) = processDescription s := by
  unfold processDescription
  by_cases hs : s = []
  · simp [hs]
  by_cases ht : trim s = []
  · simp [hs, ht]
  have he := endsTrimmed_collapseFrom (endsTrimmed_trim s)
  have hne := collapseFrom_ne_nil ht (endsTrimmed_trim s)
  simp only [if_neg hs, if_neg ht, collapseNewlines_eq, if_neg hne, trim_of_endsTrimmed he]
  exact collapseFrom_of_collapsed (collapsed_collapseFrom false _)

end SystemRdlToolkit.Csv
