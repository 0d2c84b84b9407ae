import Aacs.TextLines

/-!
# Fields between bars

A field is what stands between two separators without the blanks around it. The
blanks around a whole row belong to its outer fields.
-/
namespace Text

/-- Blanks that do not end a line. -/
def Blank (s : List Char) : Prop := ∀ c ∈ s, isWhitespace c = true ∧ c ≠ '\n'

/-- A text that begins and ends with other characters than blanks, if it is not empty. -/
def Trimmed (s : List Char) : Prop :=
  (∀ c, s.head? = some c → isWhitespace c = false) ∧ ∀ c, s.getLast? = some c →
    isWhitespace c = false

theorem trim_cons {c : Char} (hc : isWhitespace c = true) (s : List Char) :
    trim (c :: s) = trim s := by
  rw [trim, List.dropWhile_cons_of_pos hc, ← trim]

theorem trim_concat {c : Char} (hc : isWhitespace c = true) (s : List Char) :
    trim (s ++ [c]) = trim s := by
  rw [trim, trim, List.dropWhile_append]
  split
  · next hs =>
    rw [List.isEmpty_iff.mp hs, List.dropWhile_cons_of_pos hc]
    rfl
  · exact List.rdropWhile_concat_pos _ _ _ hc

theorem trim_append_left {a : List Char} (ha : ∀ c ∈ a, isWhitespace c = true) (s : List Char) :
    trim (a ++ s) = trim s := by
  rw [trim, List.dropWhile_append_of_pos ha, ← trim]

theorem trim_append_right {b : List Char} (hb : ∀ c ∈ b, isWhitespace c = true) (s : List Char) :
    trim (s ++ b) = trim s := by
  induction b using List.reverseRecOn with
  | nil => rw [List.append_nil]
  | append_singleton b c ih =>
    rw [← List.append_assoc, trim_concat (hb c (by simp)), ih fun d hd => hb d (by simp [hd])]

theorem trim_of_trimmed {s : List Char} (hs : Trimmed s) : trim s = s := by
  cases s with
  | nil => rfl
  | cons c s =>
    have hc : isWhitespace c = false := hs.1 c rfl
    rw [trim, List.dropWhile_cons_of_neg (by simp [hc]), List.rdropWhile_eq_self_iff]
    intro hne hlast
    rw [hs.2 _ (List.getLast?_eq_getLast_of_ne_nil hne)] at hlast
    cases hlast

theorem trimmed_of_solid {s : List Char} (hs : ∀ c ∈ s, isWhitespace c = false) : Trimmed s :=
  ⟨fun c hc => hs c (List.mem_of_head? hc), fun c hc => hs c (List.mem_of_getLast? hc)⟩

theorem trim_blank {s : List Char} (hs : ∀ c ∈ s, isWhitespace c = true) : trim s = [] := by
  have h := trim_append_left hs []
  rwa [List.append_nil] at h

/-- A row that begins with a bar does so when its blanks are cut. -/
theorem head?_trim {c : Char} (hc : isWhitespace c = false) {a : List Char}
    (ha : ∀ d ∈ a, isWhitespace d = true)
    (s : List Char) : (trim (a ++ c :: s)).head? = some c := by
  rw [trim_append_left ha, trim, List.dropWhile_cons_of_neg (by simp [hc])]
  have hprefix := List.rdropWhile_prefix isWhitespace (c :: s)
  cases hrest : (c :: s).rdropWhile isWhitespace with
  | nil =>
    rw [List.rdropWhile_eq_nil_iff] at hrest
    rw [hrest c List.mem_cons_self] at hc
    cases hc
  | cons d t =>
    rw [hrest] at hprefix
    rw [List.head?_cons, (List.cons_prefix_cons.mp hprefix).1]

/-- The blanks behind a text stand behind its last separator. -/
theorem rdropWhile_append_cons {x : Char} (hx : isWhitespace x = false) (a b : List Char) :
    (a ++ x :: b).rdropWhile isWhitespace = a ++ x :: b.rdropWhile isWhitespace := by
  induction b using List.reverseRecOn with
  | nil => rw [List.rdropWhile_concat_neg _ _ _ (by simp [hx]), List.rdropWhile_nil]
  | append_singleton b c ih =>
    rw [← List.cons_append, ← List.append_assoc]
    by_cases hc : isWhitespace c = true
    · rw [List.rdropWhile_concat_pos _ _ _ hc, List.rdropWhile_concat_pos _ _ _ hc, ih]
    · rw [List.rdropWhile_concat_neg _ _ _ hc, List.rdropWhile_concat_neg _ _ _ hc,
        List.append_assoc, List.cons_append]

/-- A text is divided at its first separator. -/
theorem splitOnce_append {x : Char} {a : List Char} (ha : x ∉ a) (b : List Char) :
    splitOnce x (a ++ x :: b) = some (a, b) := by
  induction a with
  | nil => rw [List.nil_append, splitOnce, if_pos rfl]
  | cons c a ih =>
    rw [List.mem_cons, not_or] at ha
    rw [List.cons_append, splitOnce, if_neg (Ne.symm ha.1), ih ha.2, Option.map_some]

/-- A character other than the separator at the end of a text is at the end of its last piece. -/
theorem split_concat {x c : Char} (hc : c ≠ x) (s : List Char) : ∃ pieces last,
    split x s = pieces ++ [last] ∧ split x (s ++ [c]) = pieces ++ [last ++ [c]] := by
  induction s with
  | nil => exact ⟨[], [], rfl, List.splitOn_eq_singleton (by simpa using Ne.symm hc)⟩
  | cons d s ih =>
    obtain ⟨pieces, last, hs, hsc⟩ := ih
    rw [split] at hs hsc
    rw [split, split, List.cons_append, List.splitOn_cons_eq_if_modifyHead,
      List.splitOn_cons_eq_if_modifyHead, hs, hsc]
    split
    · exact ⟨[] :: pieces, last, rfl, rfl⟩
    · cases pieces with
      | nil => exact ⟨[], d :: last, rfl, rfl⟩
      | cons piece pieces => exact ⟨(d :: piece) :: pieces, last, rfl, rfl⟩

/-- The fields of a text. -/
def splitTrim (x : Char) (s : List Char) : List (List Char) := (split x s).map trim

variable {x : Char}

theorem splitTrim_cons (hx : isWhitespace x = false) {c : Char} (hc : isWhitespace c = true)
    (s : List Char) :
    splitTrim x (c :: s) = splitTrim x s := by
  have hne : (c == x) = false := by
    rw [beq_eq_false_iff_ne]
    rintro rfl
    rw [hc] at hx
    cases hx
  rw [splitTrim, split, List.splitOn_cons_eq_if_modifyHead, hne, splitTrim, split]
  cases s.splitOn x with
  | nil => rfl
  | cons piece pieces => simp [trim_cons hc]

theorem splitTrim_concat (hx : isWhitespace x = false) {c : Char} (hc : isWhitespace c = true)
    (s : List Char) :
    splitTrim x (s ++ [c]) = splitTrim x s := by
  have hne : c ≠ x := by
    rintro rfl
    rw [hc] at hx
    cases hx
  obtain ⟨pieces, last, hs, hsc⟩ := split_concat hne s
  rw [splitTrim, splitTrim, hs, hsc, List.map_append, List.map_append, List.map_singleton,
    List.map_singleton, trim_concat hc]

theorem splitTrim_dropWhile (hx : isWhitespace x = false) (s : List Char) :
    splitTrim x (s.dropWhile isWhitespace) = splitTrim x s := by
  induction s with
  | nil => rfl
  | cons c s ih =>
    by_cases hc : isWhitespace c = true
    · rw [List.dropWhile_cons_of_pos hc, ih, splitTrim_cons hx hc]
    · rw [List.dropWhile_cons_of_neg hc]

theorem splitTrim_rdropWhile (hx : isWhitespace x = false) (s : List Char) :
    splitTrim x (s.rdropWhile isWhitespace) = splitTrim x s := by
  induction s using List.reverseRecOn with
  | nil => rfl
  | append_singleton s c ih =>
    by_cases hc : isWhitespace c = true
    · rw [List.rdropWhile_concat_pos _ _ _ hc, ih, splitTrim_concat hx hc]
    · rw [List.rdropWhile_concat_neg _ _ _ hc]

/-- The blanks around a text do not change its fields. -/
theorem splitTrim_trim (hx : isWhitespace x = false) (s : List Char) :
    splitTrim x (trim s) = splitTrim x s := by
  rw [trim, splitTrim_rdropWhile hx, splitTrim_dropWhile hx]

/-- The fields of some cells between separators are the cells without their blanks. -/
theorem splitTrim_intercalate {cells : List (List Char)} (hne : cells ≠ [])
    (hcells : ∀ cell ∈ cells, x ∉ cell) :
    splitTrim x ([x].intercalate cells) = cells.map trim := by
  rw [splitTrim, split, List.splitOn_intercalate x hcells hne]

end Text
