import Aacs.KeyDbRoundTrip

/-!
# The label of a disc id row

A field with a blank in it is taken for a name and its value, unless it begins
as a literal does, and only the other fields make up the label. A label is kept
as it was written when every one of its fields is without blanks or begins as a
literal.
-/

open Text Outcome

namespace KeyDb

/-- A field that is read as a value without a name. -/
def Positional (tok : List Char) : Prop :=
  (∀ c ∈ tok, isWhitespace c = false) ∨ (hexBody tok).isSome = true

instance (tok : List Char) : Decidable (Positional tok) := inferInstanceAs (Decidable (_ ∨ _))

theorem stripStart_isSome_takeWhile {t : List Char} (ht : ∀ c ∈ t, isWhitespace c = false)
    (tok : List Char) :
    (stripStart t (tok.takeWhile fun c => !isWhitespace c)).isSome = (stripStart t tok).isSome := by
  have hsome (s : List Char) : (stripStart t s).isSome = t.isPrefixOf s := by
    rw [stripStart]
    cases t.isPrefixOf s <;> rfl
  rw [hsome, hsome]
  clear hsome
  induction t generalizing tok with
  | nil => rfl
  | cons d t ih =>
    obtain ⟨hd, htail⟩ := List.forall_mem_cons.mp ht
    cases tok with
    | nil => rfl
    | cons c tok =>
      by_cases hc : d = c
      · have hsolid : (!isWhitespace c) = true := by rw [← hc, hd, Bool.not_false]
        rw [List.takeWhile_cons, if_pos hsolid, List.isPrefixOf_cons_cons,
          List.isPrefixOf_cons_cons, ih htail]
      · have hne : (d == c) = false := beq_eq_false_iff_ne.mpr hc
        rw [List.takeWhile_cons, List.isPrefixOf_cons_cons, hne, Bool.false_and]
        split
        · rw [List.isPrefixOf_cons_cons, hne, Bool.false_and]
        · rfl

/-- Cutting at the first blank does not change whether a field begins as a literal. -/
theorem hexBody_takeWhile (tok : List Char) :
    (hexBody (tok.takeWhile fun c => !isWhitespace c)).isSome = (hexBody tok).isSome := by
  have hlow : ∀ c ∈ ['0', 'x'], isWhitespace c = false := by simp [isWhitespace]
  have hhigh : ∀ c ∈ ['0', 'X'], isWhitespace c = false := by simp [isWhitespace]
  rw [hexBody, hexBody, Option.isSome_or, Option.isSome_or, stripStart_isSome_takeWhile hlow,
    stripStart_isSome_takeWhile hhigh]

/-- The name and the value of a field. -/
def nameAndValue (tok : List Char) : List Char × List Char :=
  if Positional tok then ([], tok)
  else (tok.takeWhile fun c => !isWhitespace c, trim (tok.dropWhile fun c => !isWhitespace c))

theorem splitNamed_eq {tok : List Char} (h : IsToken tok) :
    splitNamed tok = .ok (nameAndValue tok) := by
  rw [splitNamed, nameAndValue]
  cases hfind : find isWhitespace tok with
  | none =>
    have hpos : Positional tok := .inl (find_eq_none.mp hfind)
    rw [if_pos hpos, trim_of_trimmed h.trimmed]
  | some idx =>
    obtain ⟨hto, hfrom⟩ := cut_of_find (ε := AacsError) hfind
    have hsolid : ∀ c ∈ tok.takeWhile fun c => !isWhitespace c, isWhitespace c = false := by
      intro c hc
      simpa using List.mem_takeWhile_imp hc
    have hblank : ¬∀ c ∈ tok, isWhitespace c = false := by
      rw [← find_eq_none, hfind]
      exact Option.some_ne_none idx
    dsimp only
    rw [hto, bind_ok, hfrom, bind_ok, trim_of_trimmed (trimmed_of_solid hsolid), hexBody_takeWhile,
      trim_of_trimmed h.trimmed]
    by_cases hhex : (hexBody tok).isSome = true
    · rw [if_pos hhex, if_pos (show Positional tok from .inr hhex)]
      rfl
    · rw [if_neg hhex, if_neg (show ¬Positional tok from not_or.mpr ⟨hblank, hhex⟩)]
      rfl

theorem nameAndValue_of_positional {tok : List Char} (h : Positional tok) :
    nameAndValue tok = ([], tok) := by
  rw [nameAndValue, if_pos h]

/-- The other fields have a name. -/
theorem nameAndValue_name {tok : List Char} (htok : IsToken tok) (h : ¬Positional tok) :
    (nameAndValue tok).1 ≠ [] := by
  rw [nameAndValue, if_neg h]
  cases tok with
  | nil => exact absurd rfl htok.nonempty
  | cons c tok =>
    have hc : isWhitespace c = false := htok.trimmed.1 c rfl
    simp [hc]

/-- The values without a name are the positional fields, in their order. -/
theorem positionalValues_eq {toks : List (List Char)} (h : ∀ tok ∈ toks, IsToken tok) :
    positionalValues toks = .ok (toks.filter Positional) := by
  have hsplit : toks.mapM splitNamed = .ok (toks.map nameAndValue) :=
    mapM_eq_ok_map fun tok htok => splitNamed_eq (h tok htok)
  have hkeep : toks.filterMap (fun tok => if Positional tok then some tok else none) =
      toks.filter Positional := by
    rw [← List.filterMap_eq_filter]
    apply List.filterMap_congr
    intro tok _
    by_cases hpos : Positional tok <;> simp [hpos, Option.guard]
  rw [positionalValues, hsplit, bind_ok, List.filterMap_map, pure_eq, ok.injEq, ← hkeep]
  apply List.filterMap_congr
  intro tok htok
  rw [Function.comp_apply]
  by_cases hpos : Positional tok
  · rw [if_pos hpos, nameAndValue_of_positional hpos]
    exact if_pos ⟨rfl, (h tok htok).nonempty⟩
  · rw [if_neg hpos]
    apply if_neg
    rintro ⟨hnil, -⟩
    exact nameAndValue_name (h tok htok) hpos hnil

theorem positional_of_plain {tok : List Char} (h : ∀ c ∈ tok, Plain c) : Positional tok :=
  .inl fun c hc => (h c hc).1

/-- The label of some fields. -/
def labelOf (toks : List (List Char)) : Option (List Char) :=
  if toks = [] then none else some (join " | ".toList toks)

/-- A joined label has one bar less than it has fields. -/
theorem count_join {toks : List (List Char)} (h : ∀ tok ∈ toks, '|' ∉ tok) (hne : toks ≠ []) :
    (join " | ".toList toks).count '|' + 1 = toks.length := by
  induction toks with
  | nil => exact absurd rfl hne
  | cons tok toks ih =>
    obtain ⟨htok, htoks⟩ := List.forall_mem_cons.mp h
    cases toks with
    | nil =>
      rw [join, List.intercalate_singleton, List.count_eq_zero_of_not_mem htok]
      rfl
    | cons next toks =>
      have hnext := ih htoks (List.cons_ne_nil _ _)
      rw [join] at hnext
      rw [join, List.intercalate_cons_cons, List.count_append, List.count_append,
        List.count_eq_zero_of_not_mem htok, List.length_cons, ← hnext]
      have hsep : (" | ".toList).count '|' = 1 := by rfl
      rw [hsep]
      omega

theorem join_filter_ne {toks : List (List Char)} (h : ∀ tok ∈ toks, '|' ∉ tok)
    (hkept : toks.filter Positional ≠ []) (hall : ¬∀ tok ∈ toks, Positional tok) :
    join " | ".toList (toks.filter Positional) ≠ join " | ".toList toks := by
  have hne : toks ≠ [] := by
    rintro rfl
    exact hkept rfl
  have hfewer : (toks.filter Positional).length ≠ toks.length := by
    rw [Ne, List.length_filter_eq_length_iff]
    simpa using hall
  intro heq
  have hcount := count_join (fun tok htok => h tok (List.mem_filter.mp htok).1) hkept
  rw [heq, count_join h hne] at hcount
  exact hfewer hcount.symm

/-- When the positional fields make the label of all fields, or the comment stands in for it. -/
theorem labelOf_filter_iff {toks : List (List Char)} (h : ∀ tok ∈ toks, '|' ∉ tok)
    (comment : Option (List Char)) :
    (labelOf (toks.filter Positional)).or comment = (labelOf toks).or comment ↔
      (∀ tok ∈ toks, Positional tok) ∨
        (∀ tok ∈ toks, ¬Positional tok) ∧ comment = some (join " | ".toList toks) := by
  by_cases hall : ∀ tok ∈ toks, Positional tok
  · have hkeep : toks.filter Positional = toks := List.filter_eq_self.mpr (by simpa using hall)
    rw [hkeep]
    exact iff_of_true rfl (.inl hall)
  · have hne : toks ≠ [] := by
      rintro rfl
      exact hall (by simp)
    rw [or_iff_right hall, labelOf, labelOf, if_neg hne, Option.some_or]
    by_cases hkept : toks.filter Positional = []
    · have hnone : ∀ tok ∈ toks, ¬Positional tok := by simpa using List.filter_eq_nil_iff.mp hkept
      rw [if_pos hkept, Option.none_or, and_iff_right hnone]
    · rw [if_neg hkept, Option.some_or]
      apply iff_of_false
      · intro heq
        exact join_filter_ne h hkept hall (Option.some.inj heq)
      · rintro ⟨hnone, -⟩
        exact hkept (List.filter_eq_nil_iff.mpr (by simpa using hnone))

/-- The lines of a disc id row with these label fields and this comment. -/
def LabelRow (id : Bytes 20) (toks : List (List Char)) (comment : Option (List Char))
    (raw : List Char) : Prop :=
  ∃ word lit body rest, Word "DISCID" word ∧ Literal id.toList lit ∧ (∀ tok ∈ toks, IsToken tok) ∧
    Barred (word :: lit :: toks) body ∧ Commented comment rest ∧ raw = body ++ rest

theorem readDiscid_eq {id : Bytes 20} {lit body : List Char} {toks : List (List Char)}
    (hlit : Literal id.toList lit) (htoks : ∀ tok ∈ toks, IsToken tok) :
    readDiscid (lit :: toks) body = .ok (id, labelOf (toks.filter Positional)) := by
  have hpos := positionalValues_eq (List.forall_mem_cons.mpr ⟨hlit.isToken, htoks⟩)
  rw [List.filter_cons_of_pos (by simpa using positional_of_plain hlit.plain)] at hpos
  rw [readDiscid, hpos, bind_ok, if_neg (List.cons_ne_nil _ _), List.getElem?_cons_zero,
    expect_some, bind_ok, parseHexFixed_of_literal hlit (by simp), mapErr_ok, bind_ok,
    copyFrom_toList, bind_ok]
  cases hkept : toks.filter Positional with
  | nil => rfl
  | cons tok kept => simp [labelOf]

theorem rowOf_labelRow {id : Bytes 20} {toks : List (List Char)} {comment : Option (List Char)}
    {raw : List Char} (h : LabelRow id toks comment raw) :
    rowOf raw = some (.discid id (labelOf (toks.filter Positional)) comment) := by
  obtain ⟨word, lit, body, rest, hword, hlit, htoks, hbarred, hcomment, rfl⟩ := h
  have hname : IsName "DISCID" := @isName_leader (.discid id none none) _ rfl
  apply rowOf_of_barred hname hword (List.forall_mem_cons.mpr ⟨hlit.isToken, htoks⟩)
    hbarred hcomment
  unfold readRecord
  rw [readDiscid_eq hlit htoks]
  rfl

/-- The line is read, and the disc's label is that of all its fields; without a field it is the
comment. -/
def LabelKept (s : Rows) (id : Bytes 20) (toks : List (List Char)) (comment : Option (List Char))
    (raw : List Char) :
    Prop :=
  ∃ t, (∀ report i, parseLine (s, report) (raw, i) = .ok (t, report)) ∧
    (t.db.discRecords.lookup id).bind DiscRecords.label =
      if toks = [] then comment else some (join " | ".toList toks)

theorem label_of_labelRow {s : Rows} {id : Bytes 20} {toks : List (List Char)}
    {comment : Option (List Char)} {raw : List Char} (hrow : LabelRow id toks comment raw)
    (hfirst : s.db.discRecords.lookup id = none) :
    ∃ t, (∀ report i, parseLine (s, report) (raw, i) = .ok (t, report)) ∧
      (t.db.discRecords.lookup id).bind DiscRecords.label =
      (labelOf (toks.filter Positional)).or comment := by
  have hstore : ∃ t, storeLine s raw = some t ∧
      (t.db.discRecords.lookup id).bind DiscRecords.label = (labelOf (toks.filter Positional)).or
        comment := by
    rw [storeLine, rowOf_labelRow hrow, Option.bind_some]
    refine ⟨_, rfl, ?_⟩
    dsimp only
    rw [lookup_updateDisc, if_pos rfl, hfirst, Option.getD_none, Option.bind_some, Option.none_or]
  obtain ⟨t, ht, hlabel⟩ := hstore
  exact ⟨t, parseLine_of_store ht, hlabel⟩

/-- The first row of a disc keeps its label exactly when its fields are all positional, or none is
and the comment spells the label. -/
theorem labelKept_iff {s : Rows} {id : Bytes 20} {toks : List (List Char)}
    {comment : Option (List Char)} {raw : List Char} (hrow : LabelRow id toks comment raw)
    (hfirst : s.db.discRecords.lookup id = none) :
    LabelKept s id toks comment raw ↔ (∀ tok ∈ toks, Positional tok) ∨
      (∀ tok ∈ toks, ¬Positional tok) ∧ comment = some (join " | ".toList toks) := by
  obtain ⟨t, hparse, hlabel⟩ := label_of_labelRow hrow hfirst
  have hbar : ∀ tok ∈ toks, '|' ∉ tok := by
    obtain ⟨_, _, _, _, -, -, htoks, -⟩ := hrow
    intro tok htok
    exact (htoks tok htok).not_mem.1
  have hwant : (if toks = [] then comment else some (join " | ".toList toks)) =
      (labelOf toks).or comment := by
    rw [labelOf]
    split <;> rfl
  rw [← labelOf_filter_iff hbar, ← hlabel, LabelKept, hwant]
  constructor
  · rintro ⟨t', hparse', hkept⟩
    have hsame := (hparse {} 0).symm.trans (hparse' {} 0)
    rw [ok.injEq, Prod.mk.injEq] at hsame
    rw [hsame.1, hkept]
  · intro hkept
    exact ⟨t, hparse, hkept⟩

/-- A row with one label field and no comment. -/
def labelLine (tok : List Char) : List Char :=
  barRow ["DISCID".toList, '0' :: 'x' :: hexText (Bytes.zero 20).toList, tok]

theorem labelRow_labelLine {tok : List Char} (h : IsToken tok) :
    LabelRow (Bytes.zero 20) [tok] none (labelLine tok) :=
  ⟨"DISCID".toList, _, _, [], rfl, literal_hexText (Bytes.zero 20).toList,
    List.forall_mem_singleton.mpr h, barred_barRow _, .inl ⟨rfl, rfl⟩, (List.append_nil _).symm⟩

theorem isToken_movie : IsToken "Movie".toList :=
  isToken_of_plain (by simp) (by simp [Plain, isWhitespace])

theorem labelKept_iff_movie :
    LabelKept {} (Bytes.zero 20) ["Movie".toList] none (labelLine "Movie".toList) ↔
      (∀ tok ∈ ["Movie".toList], Positional tok) ∨
        (∀ tok ∈ ["Movie".toList], ¬Positional tok) ∧ none = some
        (join " | ".toList ["Movie".toList]) :=
  labelKept_iff (labelRow_labelLine isToken_movie) rfl

theorem isToken_twoWords : IsToken "Blade Runner".toList where
  nonempty := by simp
  trimmed := by simp [Trimmed, isWhitespace]
  chars := by simp [Plain, isWhitespace]

/-- A title of two words is taken for a name and its value. -/
theorem twoWords_not_kept : ¬∀ s id toks comment raw, LabelRow id toks comment raw →
    s.db.discRecords.lookup id = none → LabelKept s id toks comment raw := by
  intro hall
  have hkept := hall {} (Bytes.zero 20) [_] none _ (labelRow_labelLine isToken_twoWords) rfl
  rw [labelKept_iff (labelRow_labelLine isToken_twoWords) rfl] at hkept
  have hnamed : ¬Positional "Blade Runner".toList := by
    simp [Positional, isWhitespace, hexBody, stripStart]
  rcases hkept with hpos | ⟨-, hcomment⟩
  · exact hnamed (hpos _ List.mem_cons_self)
  · cases hcomment

end KeyDb
