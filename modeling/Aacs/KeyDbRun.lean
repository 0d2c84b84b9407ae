import Aacs.KeyDbRows
import Aacs.TextLines

/-!
# What a text says

A run stores the rows of the lines one after the other; a row that cannot be
stored changes nothing. The code's loop does the run of its text and reports the
lines whose row it did not store.
-/

open Text Outcome

namespace KeyDb

/-- The row of a line, if there is one that can be read. -/
def rowOf (raw : List Char) : Option Row :=
  if lineBody raw = [] then none
  else match readRow (lineBody raw) (lineComment raw) with
    | .ok row => some row
    | _ => none

/-- The state behind a line whose row is stored. -/
def storeLine (s : Rows) (raw : List Char) : Option Rows := (rowOf raw).bind (Row.store s)

def runLine (s : Rows) (raw : List Char) : Rows := (storeLine s raw).getD s

def run (raws : List (List Char)) : Rows := raws.foldl runLine {}

@[simp] theorem run_nil : run [] = {} := rfl

@[simp] theorem run_concat (raws : List (List Char)) (raw : List Char) :
    run (raws ++ [raw]) = runLine (run raws) raw := List.foldl_concat ..

/-- The disc id a line changes the scope to. -/
def discidOf (raw : List Char) : Option (Bytes 20) :=
  match rowOf raw with
  | some (.discid id _ _) => some id
  | _ => none

/-- The row of a line can be stored: a value has a disc id somewhere above it. -/
def Accepted (earlier : List (List Char)) (raw : List Char) : Prop :=
  ∃ row, rowOf raw = some row ∧ ((∃ v, row = .value v) → ∃ r ∈ earlier, (discidOf r).isSome)

theorem runLine_currentDiscid (s : Rows) (raw : List Char) :
    (runLine s raw).currentDiscid = (discidOf raw).or s.currentDiscid := by
  rw [runLine, storeLine, discidOf]
  cases rowOf raw with
  | none => rfl
  | some row =>
    cases row with
    | discid id label comment => rfl
    | value v => cases hid : s.currentDiscid <;> simp [Row.store_value, hid]
    | _ => rfl

/-- The disc id in force is the last one above. -/
theorem run_currentDiscid (raws : List (List Char)) :
    (run raws).currentDiscid = (raws.filterMap discidOf).getLast? := by
  induction raws using List.reverseRecOn with
  | nil => rfl
  | append_singleton raws raw ih =>
    rw [run_concat, runLine_currentDiscid, ih, List.filterMap_append, List.getLast?_append]
    cases hid : discidOf raw <;> simp [hid]

theorem isSome_currentDiscid {raws : List (List Char)} :
    (run raws).currentDiscid.isSome ↔ ∃ r ∈ raws, (discidOf r).isSome := by
  rw [run_currentDiscid, List.getLast?_isSome, ne_eq, List.filterMap_eq_nil_iff]
  simp [Option.isSome_iff_ne_none]

theorem isSome_storeLine {earlier : List (List Char)} {raw : List Char} :
    (storeLine (run earlier) raw).isSome ↔ Accepted earlier raw := by
  rw [storeLine, Accepted, ← isSome_currentDiscid]
  cases rowOf raw with
  | none => simp
  | some row => cases row <;> simp [Row.store]

theorem parseRow_cases {raw : List Char} (hrow : lineBody raw ≠ []) (s : Rows) :
    (∃ t, parseRow (lineBody raw) (lineComment raw) s = (.ok (), t) ∧ storeLine s raw = some t) ∨
      (∃ e, parseRow (lineBody raw) (lineComment raw) s = (.err e, s) ∧ storeLine s raw = none) ∨
      parseRow (lineBody raw) (lineComment raw) s = (.panic, s) ∧ storeLine s raw = none := by
  have hdoes := does_parseRow (lineComment raw) (lineBody raw) s
  rw [storeLine, rowOf, if_neg hrow]
  cases hread : readRow (lineBody raw) (lineComment raw) with
  | ok row =>
    rw [hread] at hdoes
    dsimp only at hdoes ⊢
    rw [Option.bind_some]
    cases hstore : row.store s with
    | some t =>
      rw [hstore] at hdoes
      exact .inl ⟨t, hdoes, rfl⟩
    | none =>
      rw [hstore] at hdoes
      obtain ⟨e, he⟩ := hdoes
      exact .inr (.inl ⟨e, he, rfl⟩)
  | err e' =>
    rw [hread] at hdoes
    obtain ⟨e, he⟩ := hdoes
    exact .inr (.inl ⟨e, he, rfl⟩)
  | panic =>
    rw [hread] at hdoes
    exact .inr (.inr ⟨hdoes, rfl⟩)

/-- One turn of the loop: the row is stored, or the line is put into the report. -/
theorem parseLine_runs {s s' : Rows} {report report' : ParseReport} {raw : List Char} {i : Nat}
    (h : parseLine (s, report) (raw, i) = .ok (s', report')) :
    s' = runLine s raw ∧
      report'.skipped.map (·.lineNumber) = report.skipped.map (·.lineNumber) ++
        if lineBody raw ≠ [] ∧ storeLine s raw = none then [i + 1] else [] := by
  obtain ⟨comment, hsplit, hcomment⟩ := splitComment_eq raw
  rw [parseLine, hsplit, bind_ok] at h
  dsimp only at h
  rw [← lineBody, hcomment] at h
  by_cases hnil : lineBody raw = []
  · rw [if_pos hnil] at h
    cases h
    simp [runLine, storeLine, rowOf, hnil]
  · rw [if_neg hnil] at h
    rcases parseRow_cases hnil s with ⟨t, hrow, hstore⟩ | ⟨e, hrow, hstore⟩ | ⟨hrow, -⟩
    · rw [hrow] at h
      cases h
      simp [runLine, hstore]
    · rw [hrow] at h
      obtain ⟨snippet, -, h⟩ := bind_eq_ok.mp h
      cases h
      simp [runLine, hstore, hnil]
    · rw [hrow] at h
      cases h

/-- A line whose row is stored is not reported. -/
theorem parseLine_of_store {s t : Rows} {raw : List Char} (h : storeLine s raw = some t)
    (report : ParseReport) (i : Nat) : parseLine (s, report) (raw, i) = .ok (t, report) := by
  obtain ⟨comment, hsplit, hcomment⟩ := splitComment_eq raw
  have hnil : lineBody raw ≠ [] := fun hnil => by simp [storeLine, rowOf, hnil] at h
  rw [parseLine, hsplit, bind_ok]
  dsimp only
  rw [← lineBody, hcomment, if_neg hnil]
  rcases parseRow_cases hnil s with ⟨t', hrow, hstore⟩ | ⟨e, -, hstore⟩ | ⟨-, hstore⟩
  · rw [h, Option.some.injEq] at hstore
    rw [hrow, hstore]
    rfl
  · rw [h] at hstore
    cases hstore
  · rw [h] at hstore
    cases hstore

/-- A row that is not reported is stored. -/
theorem store_of_parseLine {s t : Rows} {raw : List Char} (hrow : lineBody raw ≠ [])
    {report : ParseReport} {i : Nat}
    (h : parseLine (s, report) (raw, i) = .ok (t, report)) : storeLine s raw = some t := by
  obtain ⟨ht, hnumbers⟩ := parseLine_runs h
  have hstored : ¬(lineBody raw ≠ [] ∧ storeLine s raw = none) := by
    intro hrejected
    rw [if_pos hrejected] at hnumbers
    simp at hnumbers
  obtain ⟨t', ht'⟩ := Option.ne_none_iff_exists'.mp fun hnone => hstored ⟨hrow, hnone⟩
  rw [ht, runLine, ht', Option.getD_some]

/-- A line that holds a row, but none that is stored. -/
def Rejected (earlier : List (List Char)) (raw : List Char) : Prop :=
  lineBody raw ≠ [] ∧ ¬Accepted earlier raw

theorem rejected_iff {earlier : List (List Char)} {raw : List Char} :
    Rejected earlier raw ↔ lineBody raw ≠ [] ∧ storeLine (run earlier) raw = none := by
  rw [Rejected, ← isSome_storeLine, Bool.not_eq_true, Option.isSome_eq_false_iff,
    Option.isNone_iff_eq_none]

/-- The numbers of the rejected lines, each once and in the order of the text. -/
structure Reports (raws : List (List Char)) (numbers : List Nat) : Prop where
  ordered : numbers.Pairwise (· < ·)
  mem_iff : ∀ n, n ∈ numbers ↔ ∃ i raw, n = i + 1 ∧ raws[i]? = some raw ∧ Rejected (raws.take i) raw

theorem Reports.nil : Reports [] [] where
  ordered := .nil
  mem_iff := by simp

theorem Reports.mem_le {raws : List (List Char)} {numbers : List Nat}
    (h : Reports raws numbers) {n : Nat} (hn : n ∈ numbers) : n ≤ raws.length := by
  obtain ⟨i, raw, rfl, hraw, -⟩ := (h.mem_iff n).mp hn
  exact (List.getElem?_eq_some_iff.mp hraw).1

/-- A line of a text is one of the first lines or the last. -/
theorem exists_line_concat {raws : List (List Char)} {raw : List Char}
    {p : Nat → List (List Char) → List Char → Prop} :
    (∃ i r, (raws ++ [raw])[i]? = some r ∧ p i ((raws ++ [raw]).take i) r) ↔
      (∃ i r, raws[i]? = some r ∧ p i (raws.take i) r) ∨ p raws.length raws raw := by
  constructor
  · rintro ⟨i, r, hr, hp⟩
    rcases Nat.lt_or_ge i raws.length with hi | hi
    · rw [List.getElem?_append_left hi] at hr
      rw [List.take_append_of_le_length hi.le] at hp
      exact .inl ⟨i, r, hr, hp⟩
    · have hlt := (List.getElem?_eq_some_iff.mp hr).1
      rw [List.length_append, List.length_singleton] at hlt
      obtain rfl : i = raws.length := by omega
      rw [List.getElem?_concat_length] at hr
      cases hr
      rw [List.take_left] at hp
      exact .inr hp
  · rintro (⟨i, r, hr, hp⟩ | hp)
    · have hi : i < raws.length := (List.getElem?_eq_some_iff.mp hr).1
      refine ⟨i, r, by rw [List.getElem?_append_left hi, hr], ?_⟩
      rw [List.take_append_of_le_length hi.le]
      exact hp
    · exact ⟨raws.length, raw, List.getElem?_concat_length, by rwa [List.take_left]⟩

/-- A line is reported behind those above it. -/
theorem Reports.concat {raws : List (List Char)} {numbers : List Nat} (h : Reports raws numbers)
    (raw : List Char) :
    Reports (raws ++ [raw]) (numbers ++
      if lineBody raw ≠ [] ∧ storeLine (run raws) raw = none then [raws.length + 1] else []) where
  ordered := by
    refine List.pairwise_append.mpr ⟨h.ordered, by split <;> simp, fun n hn m hm => ?_⟩
    have hle := h.mem_le hn
    split at hm
    · rw [List.mem_singleton.mp hm]
      omega
    · cases hm
  mem_iff n := by
    have hlines := @exists_line_concat raws raw fun i earlier r => n = i + 1 ∧ Rejected earlier r
    simp only [and_left_comm] at hlines
    rw [List.mem_append, h.mem_iff, hlines, rejected_iff]
    by_cases hrej : lineBody raw ≠ [] ∧ storeLine (run raws) raw = none
    · rw [if_pos hrej, List.mem_singleton, and_iff_left hrej]
    · rw [if_neg hrej]
      simp [hrej]

/-- The loop over some lines does their run and reports those it rejects. -/
theorem loop_runs {raws : List (List Char)} {s : Rows} {report : ParseReport}
    (h : raws.zipIdx.foldlM parseLine ({}, {}) = .ok (s, report)) :
    s = run raws ∧ Reports raws (report.skipped.map (·.lineNumber)) := by
  induction raws using List.reverseRecOn generalizing s report with
  | nil =>
    cases h
    exact ⟨rfl, .nil⟩
  | append_singleton raws raw ih =>
    rw [List.zipIdx_append, List.foldlM_append] at h
    obtain ⟨⟨t, report'⟩, ht, h⟩ := bind_eq_ok.mp h
    obtain ⟨rfl, hreports⟩ := ih ht
    rw [List.zipIdx_singleton, List.foldlM_cons] at h
    obtain ⟨⟨t', report''⟩, hline, h⟩ := bind_eq_ok.mp h
    cases h
    rw [Nat.zero_add] at hline
    obtain ⟨rfl, hnumbers⟩ := parseLine_runs hline
    rw [run_concat, hnumbers]
    exact ⟨rfl, hreports.concat raw⟩

/-- A text that is read is its run, and its report the lines the run rejects. -/
theorem parseWithReport_runs {text : List Char} {db : KeyDb} {report : ParseReport}
    (h : parseWithReport text = .ok (db, report)) :
    db = (run (lines text)).db ∧ Reports (lines text) (report.skipped.map (·.lineNumber)) := by
  obtain ⟨⟨s, report'⟩, hloop, h⟩ := bind_eq_ok.mp h
  cases h
  obtain ⟨rfl, hreports⟩ := loop_runs hloop
  exact ⟨rfl, hreports⟩

end KeyDb
