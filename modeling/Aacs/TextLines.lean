import Aacs.Text

/-!
# Lines and their terminators

A text is cut behind each newline. The pieces are put together again by joining
them, any of them can be left out, and a line is a piece without its terminator.
-/
namespace Text

/-- `s.split_inclusive('\n')`. -/
def segments : List Char → List (List Char)
  | [] => []
  | c :: s =>
    if c = '\n' then [c] :: segments s
    else match segments s with
      | [] => [[c]]
      | seg :: segs => (c :: seg) :: segs

/-- Pieces that end with their only newline; the last may be without one. -/
inductive Segmented : List (List Char) → Prop where
  | nil : Segmented []
  | last {a : List Char} (hnil : a ≠ []) (ha : '\n' ∉ a) : Segmented [a]
  | cons {a : List Char} {segs : List (List Char)} (ha : '\n' ∉ a) (hsegs : Segmented segs) :
    Segmented ((a ++ ['\n']) :: segs)

/-- A piece without its terminator. -/
def stripLineEnd (seg : List Char) : List Char :=
  if seg.getLast? = some '\n' then stripCarriageReturn seg.dropLast else seg

@[simp] theorem flatten_segments (s : List Char) : (segments s).flatten = s := by
  induction s with
  | nil => rfl
  | cons c s ih =>
    rw [segments]
    split
    · rw [List.flatten_cons, ih, List.singleton_append]
    · cases hs : segments s with
      | nil =>
        rw [hs] at ih
        rw [← ih]
        rfl
      | cons seg segs =>
        rw [hs, List.flatten_cons] at ih
        rw [List.flatten_cons, List.cons_append, ih]

theorem segmented_segments (s : List Char) : Segmented (segments s) := by
  induction s with
  | nil => exact .nil
  | cons c s ih =>
    rw [segments]
    generalize segments s = segs at ih
    by_cases hc : c = '\n'
    · rw [if_pos hc, hc]
      exact @Segmented.cons [] _ List.not_mem_nil ih
    · rw [if_neg hc]
      have hmem : ∀ {a : List Char}, '\n' ∉ a → '\n' ∉ c :: a := fun ha h =>
        (List.mem_cons.mp h).elim (fun h => hc h.symm) ha
      cases ih with
      | nil => exact .last (List.cons_ne_nil c []) (hmem List.not_mem_nil)
      | last hnil ha => exact .last (List.cons_ne_nil c _) (hmem ha)
      | cons ha hsegs => exact .cons (hmem ha) hsegs

/-- Pieces can be left out. -/
theorem Segmented.sublist {segs segs' : List (List Char)} (h : Segmented segs)
    (hsub : List.Sublist segs' segs) :
    Segmented segs' := by
  induction h generalizing segs' with
  | nil =>
    rw [List.sublist_nil.mp hsub]
    exact .nil
  | @last a hnil ha =>
    cases hsub with
    | cons _ hsub =>
      rw [List.sublist_nil.mp hsub]
      exact .nil
    | cons_cons _ hsub =>
      rw [List.sublist_nil.mp hsub]
      exact .last hnil ha
  | cons ha hsegs ih =>
    cases hsub with
    | cons _ hsub => exact ih hsub
    | cons_cons _ hsub => exact .cons ha (ih hsub)

theorem lines_cons {a : List Char} (ha : '\n' ∉ a) (s : List Char) :
    lines (a ++ '\n' :: s) = stripCarriageReturn a :: lines s := by
  have hsplit : split '\n' (a ++ '\n' :: s) = a :: split '\n' s :=
    List.splitOn_append_cons_self_of_not_mem ha s
  have hne : split '\n' s ≠ [] := List.splitOn_ne_nil _ s
  rw [lines, lines, hsplit, List.dropLast_cons_of_ne_nil hne, List.getLast?_cons_of_ne_nil hne]
  rfl

theorem lines_last {a : List Char} (hnil : a ≠ []) (ha : '\n' ∉ a) : lines a = [a] := by
  have hsplit : split '\n' a = [a] := List.splitOn_eq_singleton ha
  rw [lines, hsplit]
  simp [hnil]

theorem stripLineEnd_terminated (a : List Char) :
    stripLineEnd (a ++ ['\n']) = stripCarriageReturn a := by
  simp [stripLineEnd]

theorem stripLineEnd_last {a : List Char} (ha : '\n' ∉ a) : stripLineEnd a = a := by
  refine if_neg fun h => ha ?_
  exact List.mem_of_getLast? h

/-- The lines of some pieces joined are the pieces without their terminators. -/
theorem lines_flatten {segs : List (List Char)} (h : Segmented segs) :
    lines segs.flatten = segs.map stripLineEnd := by
  induction h with
  | nil => rfl
  | last hnil ha => rw [List.flatten_singleton, lines_last hnil ha, List.map_singleton,
    stripLineEnd_last ha]
  | cons ha hsegs ih =>
    rw [List.flatten_cons, List.append_assoc, List.singleton_append, lines_cons ha, ih,
      List.map_cons, stripLineEnd_terminated]

/-- One text behind another: the lines of both, for whatever does not tell a line from the line
without its carriage return, and at most an empty one between. -/
theorem exists_lines_append {α : Type} {f : List Char → α}
    (hf : ∀ a, f (stripCarriageReturn a) = f a)
    (text text' : List Char) : ∃ front, lines (text ++ '\n' :: text') = front ++ lines text' ∧
      (front.map f = (lines text).map f ∨ front.map f = (lines text).map f ++ [f []]) := by
  have hsegs := segmented_segments text
  rw [← flatten_segments text]
  generalize segments text = segs at hsegs
  induction hsegs with
  | nil => exact ⟨[[]], lines_cons List.not_mem_nil text', .inr rfl⟩
  | @last a hnil ha =>
    refine ⟨[stripCarriageReturn a], ?_, .inl ?_⟩
    · rw [List.flatten_singleton, lines_cons ha, List.singleton_append]
    · rw [List.flatten_singleton, lines_last hnil ha, List.map_singleton, List.map_singleton, hf]
  | @cons a segs ha _ ih =>
    obtain ⟨front, hlines, hfront⟩ := ih
    refine ⟨stripCarriageReturn a :: front, ?_, ?_⟩
    · rw [List.flatten_cons, List.append_assoc, List.append_assoc, List.singleton_append,
        lines_cons ha, hlines, List.cons_append]
    · rw [List.flatten_cons, List.append_assoc, List.singleton_append, lines_cons ha, List.map_cons,
        List.map_cons]
      rcases hfront with hfront | hfront
      · exact .inl (congrArg _ hfront)
      · exact .inr (congrArg _ hfront)

theorem lines_eq (s : List Char) : lines s = (segments s).map stripLineEnd := by
  rw [← lines_flatten (segmented_segments s), flatten_segments]

end Text
