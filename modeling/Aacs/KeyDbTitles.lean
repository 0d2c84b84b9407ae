import Aacs.KeyDbLabels
import Aacs.KeyDbLegacyHex

/-!
# The title of a row of the first form

Behind the disc id stand a title, the volume key under its flag and the unit keys
under theirs. A title whose first word is a flag is taken for the flag, and what
the row then stores has no label. Any other title is the label of what is stored.
-/

open Text Outcome

namespace KeyDb

/-- The digits of a number. -/
def Decimal (n : UInt16) (text : List Char) : Prop :=
  text ≠ [] ∧ digitsValue 10 65536 text = some n.toNat

/-- As it is usually written. -/
theorem decimal_toDigits (n : UInt16) : Decimal n (Nat.toDigits 10 n.toNat) :=
  ⟨Nat.toDigits_ne_nil, digitsValue_toDigits n.toNat_lt⟩

section Numbers

variable {n : UInt16} {text : List Char}

theorem Decimal.chars (h : Decimal n text) : ∀ c ∈ text, Plain c ∧ c ≠ '-' ∧ c ≠ '+' := by
  have hall : ∀ m < 128, (toDigit 10 (Char.ofNat m)).isSome → Plain (Char.ofNat m) ∧
    Char.ofNat m ≠ '-' ∧
      Char.ofNat m ≠ '+' := by decide +kernel
  intro c hc
  obtain ⟨d, hd⟩ := toDigit_of_digitsValue h.2 c hc
  have hchar := ascii_cases (p := fun c => (toDigit 10 c).isSome → Plain c ∧ c ≠ '-' ∧ c ≠ '+') hall
    (toNat_of_toDigit hd)
  exact hchar (by rw [hd]; rfl)

theorem fromStrRadix_of_decimal (h : Decimal n text) :
    fromStrRadix 10 65536 text = some n.toNat := by
  cases text with
  | nil => exact absurd rfl h.1
  | cons c s =>
    have hc : c ≠ '+' := (h.chars c List.mem_cons_self).2.2
    rw [← h.2]
    simp [fromStrRadix, hc]

end Numbers

section Literals

variable {bs : List UInt8} {tok : List Char}

theorem Literal.stripHexPrefix (h : Literal bs tok) : Spells bs (stripHexPrefix tok) := by
  obtain ⟨x, digits, hx, rfl, hspells⟩ := h
  rcases hx with rfl | rfl <;> simpa [KeyDb.stripHexPrefix, hexBody, stripStart, List.isPrefixOf]
    using hspells

theorem Literal.eq_not_mem (h : Literal bs tok) : '=' ∉ tok := by
  obtain ⟨x, digits, hx, rfl, hspells⟩ := h
  have hdigits : '=' ∉ digits := by
    intro hmem
    obtain ⟨d, hd⟩ := hspells.digits '=' hmem
    cases hd
  rcases hx with rfl | rfl <;> simpa using hdigits

theorem Literal.head? (h : Literal bs tok) : tok.head? = some '0' := by
  obtain ⟨x, digits, -, rfl, -⟩ := h
  rfl

end Literals

/-- The first word is one of the flags. -/
def BeginsWithFlag (tok : List Char) : Prop :=
  ∃ d ∈ flagWords, (tok.takeWhile fun c => !isWhitespace c) = [d]

instance (tok : List Char) : Decidable (BeginsWithFlag tok) :=
  inferInstanceAs (Decidable (∃ d ∈ flagWords, _))

theorem flagSplit_eq (tok : List Char) : flagSplit tok =
    if BeginsWithFlag tok then (tok.takeWhile fun c => !isWhitespace c,
      trim (tok.dropWhile fun c => !isWhitespace c))
    else ([], tok) := by
  have hany : (flagWords.any fun d => (tok.takeWhile fun c => !isWhitespace c) = [d]) = true ↔
      BeginsWithFlag tok := by
    rw [List.any_eq_true, BeginsWithFlag]
    simp
  rw [flagSplit]
  exact if_congr hany rfl rfl

/-- A longer text without blanks does not begin with a flag. -/
theorem not_beginsWithFlag {tok : List Char} (hsolid : ∀ c ∈ tok, isWhitespace c = false)
    (hlen : tok.length ≠ 1) :
    ¬BeginsWithFlag tok := by
  rintro ⟨d, -, hd⟩
  have hall : ∀ c ∈ tok, (!isWhitespace c) = true := by
    intro c hc
    rw [hsolid c hc, Bool.not_false]
  rw [List.takeWhile_eq_self_iff.mpr hall] at hd
  exact hlen (congrArg List.length hd)

/-- A token that does not begin with a flag is a value. -/
theorem legacyToken_of_value {tok : List Char} (h : ¬BeginsWithFlag tok) (hne : tok ≠ [])
    (f : LegacyFields) :
    legacyToken f tok = legacyValue f tok := by
  rw [legacyToken_eq, flagSplit_eq, if_neg h]
  dsimp only
  rw [if_neg hne]
  rfl

/-- A value under a flag does not become a part of the label. -/
theorem labelParts_of_legacyValue {f f' : LegacyFields} {value : List Char}
    (h : legacyValue f value = .ok f')
    (hflag : f.currentFlag ≠ none) : f'.labelParts = f.labelParts := by
  rw [legacyValue] at h
  split at h
  · obtain ⟨vuk, -, h⟩ := bind_eq_ok.mp h
    cases h
    rfl
  · obtain ⟨key, -, h⟩ := bind_eq_ok.mp h
    cases h
    rfl
  · cases h
    rfl
  · next hnone => exact absurd hnone hflag

/-- Nor does a token that begins with a flag. -/
theorem labelParts_of_flag {f f' : LegacyFields} {tok : List Char} (hflag : BeginsWithFlag tok)
    (h : legacyToken f tok = .ok f') : f'.labelParts = f.labelParts := by
  obtain ⟨d, -, hd⟩ := id hflag
  rw [legacyToken_eq, flagSplit_eq, if_pos hflag, hd] at h
  dsimp only at h
  split at h
  · cases h
    rfl
  · have hkeep := labelParts_of_legacyValue h (Option.some_ne_none d.toUpper)
    exact hkeep

/-- A unit key behind its number. -/
def UnitField (p : UInt16 × Bytes 16) (tok : List Char) : Prop :=
  ∃ num lit, Decimal p.1 num ∧ Literal p.2.toList lit ∧ tok = num ++ '-' :: lit

theorem UnitField.plain {p : UInt16 × Bytes 16} {tok : List Char} (h : UnitField p tok) :
    ∀ c ∈ tok, Plain c := by
  obtain ⟨num, lit, hnum, hlit, rfl⟩ := h
  have hdash : Plain '-' := by decide
  rw [List.forall_mem_append, List.forall_mem_cons]
  exact ⟨fun c hc => (hnum.chars c hc).1, hdash, hlit.plain⟩

theorem UnitField.isToken {p : UInt16 × Bytes 16} {tok : List Char} (h : UnitField p tok) :
    IsToken tok := by
  have hne : tok ≠ [] := by
    obtain ⟨num, lit, -, -, rfl⟩ := h
    exact List.append_ne_nil_of_right_ne_nil num (List.cons_ne_nil _ _)
  exact isToken_of_plain hne h.plain

theorem isToken_of_unitFields {units : List (UInt16 × Bytes 16)} {toks : List (List Char)}
    (h : List.Forall₂ UnitField units toks) : ∀ tok ∈ toks, IsToken tok := by
  induction h with
  | nil => simp
  | cons hfield _ ih => exact List.forall_mem_cons.mpr ⟨hfield.isToken, ih⟩

theorem UnitField.unitKey {p : UInt16 × Bytes 16} {tok : List Char} (h : UnitField p tok) :
    unitKey tok = .ok (some p) := by
  obtain ⟨num, lit, hnum, hlit, rfl⟩ := h
  have hdash : '-' ∉ num := fun hmem => (hnum.chars '-' hmem).2.1 rfl
  have htrim : Text.trim num = num := trim_of_plain fun c hc => (hnum.chars c hc).1
  have hkey : parseHexArray16Legacy (stripHexPrefix lit) = .ok p.2 :=
    parseHexArrayLegacy_of_spells hlit.stripHexPrefix
  rw [KeyDb.unitKey, splitOnce_append hdash]
  dsimp only
  rw [htrim, hlit.trim, hkey, fromStrRadix_of_decimal hnum]
  simp

theorem vukValue_of_literal {vuk : Vuk} {lit : List Char} (h : Literal vuk.bytes.toList lit) :
    vukValue lit = .ok (some vuk.bytes) := by
  have hlen : utf8Len (stripHexPrefix lit) = 32 := by
    rw [h.stripHexPrefix.length, Bytes.length_toList]
  have hkey : parseHexArray16Legacy (stripHexPrefix lit) = .ok vuk.bytes :=
    parseHexArrayLegacy_of_spells h.stripHexPrefix
  rw [vukValue, if_pos hlen, hkey]
  rfl

/-- The unit keys of a row, behind their flag. -/
theorem foldlM_unitFields {units : List (UInt16 × Bytes 16)} {toks : List (List Char)}
    (h : List.Forall₂ UnitField units toks) {f : LegacyFields} (hflag : f.currentFlag = some 'U') :
    toks.foldlM legacyToken f = .ok { f with unitKeys := f.unitKeys ++ units } := by
  induction h generalizing f with
  | nil =>
    rw [List.append_nil]
    rfl
  | @cons p tok units toks hfield _ ih =>
    have hno : ¬BeginsWithFlag tok := by
      apply not_beginsWithFlag fun c hc => (hfield.plain c hc).1
      obtain ⟨num, lit, -, hlit, rfl⟩ := hfield
      have hpos := List.length_pos_iff.mpr hlit.ne_nil
      rw [List.length_append, List.length_cons]
      omega
    have hstep : legacyToken f tok = .ok { f with unitKeys := f.unitKeys ++ [p] } := by
      rw [legacyToken_of_value hno hfield.isToken.nonempty, legacyValue, hflag, hfield.unitKey]
      rfl
    rw [List.foldlM_cons, hstep, bind_ok, ih (by exact hflag), List.append_assoc]
    rfl

/-- The fields behind the title. -/
theorem foldlM_keyFields {vuk : Vuk} {lit : List Char} {units : List (UInt16 × Bytes 16)}
    {toks : List (List Char)}
    (hvuk : Literal vuk.bytes.toList lit) (hunits : List.Forall₂ UnitField units toks)
    (f : LegacyFields) :
    (['V'] :: lit :: ['U'] :: toks).foldlM legacyToken f =
      .ok { f with vukBytes := some vuk.bytes, unitKeys :=
  f.unitKeys ++ units, currentFlag := some 'U' } := by
  have hlen : lit.length ≠ 1 := by
    obtain ⟨x, digits, -, rfl, -⟩ := hvuk
    simp
  have hno : ¬BeginsWithFlag lit := not_beginsWithFlag (fun c hc => (hvuk.plain c hc).1) hlen
  have hV : legacyToken f ['V'] = .ok { f with currentFlag := some 'V' } := by rfl
  have hlit : legacyToken { f with currentFlag := some 'V' } lit =
      .ok { f with vukBytes := some vuk.bytes, currentFlag := none } := by
    rw [legacyToken_of_value hno hvuk.ne_nil, legacyValue]
    dsimp only
    rw [vukValue_of_literal hvuk]
    rfl
  have hU : legacyToken { f with vukBytes := some vuk.bytes, currentFlag := none } ['U'] =
      .ok { f with vukBytes := some vuk.bytes, currentFlag := some 'U' } := by rfl
  rw [List.foldlM_cons, hV, bind_ok, List.foldlM_cons, hlit, bind_ok, List.foldlM_cons, hU, bind_ok]
  exact foldlM_unitFields hunits rfl

/-- The lines of a row of the first form with this title and these keys: the disc id, an equals
sign, and the fields between bars. -/
def TitleRow (id : Bytes 20) (title : List Char) (vuk : Vuk) (units : List (UInt16 × Bytes 16))
    (raw : List Char) :
    Prop :=
  ∃ idLit idCell vukLit unitToks cells comment rest,
    IsToken title ∧ Literal id.toList idLit ∧ Padded idLit idCell ∧
      Literal vuk.bytes.toList vukLit ∧
    List.Forall₂ UnitField units unitToks ∧
    List.Forall₂ Padded (title :: ['V'] :: vukLit :: ['U'] :: unitToks) cells ∧
      Commented comment rest ∧
    raw = idCell ++ '=' :: ['|'].intercalate cells ++ rest

/-- What a row stores when its title leaves these fields. -/
def entryOf (id : Bytes 20) (vuk : Vuk) (units : List (UInt16 × Bytes 16)) (f : LegacyFields) :
    KeyDbEntry where
  discId := id
  vuk := vuk
  label := labelOf f.labelParts
  unitKeys := f.unitKeys ++ units

section Rows

variable {id : Bytes 20} {title : List Char} {vuk : Vuk} {units : List (UInt16 × Bytes 16)}

theorem parseLegacyLine_eq {idLit gap vukLit tail : List Char} {unitToks : List (List Char)}
    (hid : Literal id.toList idLit) (hgap : Blank gap) (hvuk : Literal vuk.bytes.toList vukLit)
    (hunits : List.Forall₂ UnitField units unitToks)
    (htail : splitTrim '|' tail = title :: ['V'] :: vukLit :: ['U'] :: unitToks) :
    parseLegacyLine (idLit ++ gap ++ '=' :: tail) = entryOf id vuk units <$> legacyToken
      {} title := by
  have hequals : '=' ∉ idLit ++ gap := by
    rw [List.mem_append, not_or]
    constructor
    · exact hid.eq_not_mem
    · intro hmem
      cases (hgap '=' hmem).1
  have htrim : Text.trim (idLit ++ gap) = idLit := by
    rw [trim_append_right fun c hc => (hgap c hc).1, hid.trim]
  have hdisc : parseHexArray20Legacy (stripHexPrefix idLit) = .ok id :=
    parseHexArrayLegacy_of_spells hid.stripHexPrefix
  rw [parseLegacyLine, splitOnce_append hequals]
  dsimp only
  rw [htrim, hdisc, bind_ok, ← splitTrim, htail, List.foldlM_cons]
  cases legacyToken {} title with
  | ok f =>
    rw [bind_ok, foldlM_keyFields hvuk hunits, bind_ok, okOrElse_some, bind_ok, map_ok]
    rfl
  | err e => rfl
  | panic => rfl

/-- The blanks in front of a row and behind it. -/
theorem trim_row {bs : List UInt8} {lead lit gap : List Char} (hlead : Blank lead)
    (hlit : Literal bs lit) (tail : List Char) :
    Text.trim (lead ++ lit ++ gap ++ '=' :: tail) = lit ++ gap ++ '=' ::
      tail.rdropWhile isWhitespace := by
  obtain ⟨x, digits, -, rfl, -⟩ := hlit
  have hzero : isWhitespace '0' = false := by rfl
  have hequals : isWhitespace '=' = false := by rfl
  rw [List.append_assoc, List.append_assoc, trim_append_left fun c hc => (hlead c hc).1, trim,
    List.cons_append, List.dropWhile_cons_of_neg (by simp [hzero]), ← List.cons_append,
    ← List.append_assoc, rdropWhile_append_cons hequals]

/-- The row of a line is what its title leaves. -/
theorem readRow_titleRow {raw : List Char} (h : TitleRow id title vuk units raw) :
    lineBody raw ≠ [] ∧
    readRow (lineBody raw) (lineComment raw) = (Row.entry ∘ entryOf id vuk units) <$> legacyToken
      {} title := by
  obtain ⟨idLit, idCell, vukLit, unitToks, cells, comment, rest, htitle, hid, hpadded, hvuk, hunits,
    hcells, hcomment, rfl⟩ := h
  have htoks : ∀ tok ∈ title :: ['V'] :: vukLit :: ['U'] :: unitToks, IsToken tok := by
    have hflag : Plain 'V' ∧ Plain 'U' := by decide
    rw [List.forall_mem_cons, List.forall_mem_cons, List.forall_mem_cons, List.forall_mem_cons]
    exact ⟨htitle, isToken_of_plain (by simp) (List.forall_mem_singleton.mpr hflag.1), hvuk.isToken,
      isToken_of_plain (by simp) (List.forall_mem_singleton.mpr hflag.2),
      isToken_of_unitFields hunits⟩
  obtain ⟨hchars, htrims⟩ := cells_of_padded hcells htoks
  have hsemi : ';' ∉ idCell ++ '=' :: ['|'].intercalate cells := by
    have hrow : ';' ∉ ['|'].intercalate cells :=
      not_mem_intercalate (by decide) fun cell hcell => (hchars cell hcell).2.1
    simp [(hpadded.not_mem hid.isToken).2.1, hrow]
  have htail : splitTrim '|' ((['|'].intercalate cells).rdropWhile isWhitespace) =
      title :: ['V'] :: vukLit :: ['U'] :: unitToks := by
    have hne : cells ≠ [] := by
      rintro rfl
      cases hcells
    rw [splitTrim_rdropWhile (by rfl), splitTrim_intercalate hne fun cell hcell =>
      (hchars cell hcell).1, htrims]
  have hline := hcomment.line hsemi
  obtain ⟨lead, gap, hlead, hgap, rfl⟩ := hpadded
  rw [trim_row hlead hid] at hline
  rw [hline.1, hline.2]
  have hhead : (idLit ++ gap ++ '=' :: (['|'].intercalate cells).rdropWhile isWhitespace).head? =
      some '0' := by
    rw [List.append_assoc, List.head?_append_of_ne_nil _ hid.ne_nil, hid.head?]
  constructor
  · simp
  · rw [readRow, hhead, if_neg (by decide), parseLegacyLine_eq hid hgap hvuk hunits htail]
    cases legacyToken {} title <;> rfl

theorem rowOf_titleRow {raw : List Char} (h : TitleRow id title vuk units raw) (row : Row) :
    rowOf raw = some row ↔ ∃ f, legacyToken {} title = .ok f ∧ row = .entry
      (entryOf id vuk units f) := by
  obtain ⟨hne, hread⟩ := readRow_titleRow h
  rw [rowOf, hread, if_neg hne]
  cases legacyToken {} title with
  | ok f => simp [eq_comm]
  | err e => simp
  | panic => simp

/-- The line is read, and what is stored for the disc has this title and these keys. -/
def TitleKept (s : Rows) (id : Bytes 20) (title : List Char) (vuk : Vuk)
    (units : List (UInt16 × Bytes 16)) (raw : List Char) : Prop :=
  ∃ t, (∀ report i, parseLine (s, report) (raw, i) = .ok (t, report)) ∧
    t.db.byDiscId.lookup id =
      some { discId := id, vuk := vuk, label := some title, unitKeys := units }

/-- A title is kept, with its keys, exactly when its first word is not a flag: a flag leaves no part
of the label. -/
theorem titleKept_iff {raw : List Char} (h : TitleRow id title vuk units raw) (s : Rows) :
    TitleKept s id title vuk units raw ↔ ¬BeginsWithFlag title := by
  have htitle : IsToken title := by
    obtain ⟨_, _, _, _, _, _, _, htitle, -⟩ := h
    exact htitle
  constructor
  · rintro ⟨t, hparse, hlookup⟩ hflag
    have hstore := store_of_parseLine (readRow_titleRow h).1 (hparse {} 0)
    obtain ⟨row, hrow, hstore⟩ := Option.bind_eq_some_iff.mp hstore
    obtain ⟨f, hf, rfl⟩ := (rowOf_titleRow h row).mp hrow
    cases hstore
    have hparts : f.labelParts = [] := labelParts_of_flag hflag hf
    dsimp only at hlookup
    rw [entryOf, hparts, Finmap.lookup_insert] at hlookup
    cases hlookup
  · intro hflag
    have hfirst : legacyToken {} title = .ok { labelParts := [title] } := by
      rw [legacyToken_of_value hflag htitle.nonempty]
      rfl
    have hrow := (rowOf_titleRow h _).mpr ⟨_, hfirst, rfl⟩
    have hstore : ∃ t, storeLine s raw = some t ∧ t.db.byDiscId.lookup id =
        some { discId := id, vuk := vuk, label := some title, unitKeys := units } := by
      rw [storeLine, hrow, Option.bind_some]
      refine ⟨_, rfl, ?_⟩
      rw [entryOf, Finmap.lookup_insert]
      simp [labelOf, join]
    obtain ⟨t, ht, hlookup⟩ := hstore
    exact ⟨t, parseLine_of_store ht, hlookup⟩

end Rows

/-- A row with one unit key. -/
def titleLine (title : List Char) : List Char :=
  let zeros := '0' :: 'x' :: hexText (Bytes.zero 16).toList
  '0' :: 'x' :: hexText (Bytes.zero 20).toList ++
    '=' :: ['|'].intercalate [title, ['V'], zeros, ['U'], '1' :: '-' :: zeros]

theorem titleRow_titleLine {title : List Char} (h : IsToken title) :
    TitleRow (Bytes.zero 20) title ⟨Bytes.zero 16⟩ [(1, Bytes.zero 16)] (titleLine title) := by
  have hblank : Blank [] := fun c hc => by cases hc
  have hpad : ∀ tok : List Char, Padded tok tok := fun tok => ⟨[], [], hblank, hblank, by simp⟩
  have hunit : UnitField (1, Bytes.zero 16)
      ('1' :: '-' :: '0' :: 'x' :: hexText (Bytes.zero 16).toList) :=
    ⟨['1'], _, decimal_toDigits 1, literal_hexText _, rfl⟩
  exact ⟨_, _, _, _, _, none, [], h, literal_hexText _, hpad _, literal_hexText _, .cons hunit .nil,
    List.forall₂_same.mpr fun tok _ => hpad tok, .inl ⟨rfl, rfl⟩, (List.append_nil _).symm⟩

theorem titleKept_iff_movie :
    TitleKept {} (Bytes.zero 20) "Movie".toList ⟨Bytes.zero 16⟩ [(1, Bytes.zero 16)]
      (titleLine "Movie".toList) ↔ ¬BeginsWithFlag "Movie".toList :=
  titleKept_iff (titleRow_titleLine isToken_movie) {}

/-- A title whose first word is the flag of the volume key is lost. -/
theorem flagTitle_not_kept : ¬∀ s id title vuk units raw, TitleRow id title vuk units raw →
    '=' ∉ title → TitleKept s id title vuk units raw := by
  intro hall
  have htitle : IsToken "V for Vendetta".toList := {
    nonempty := by simp
    trimmed := by simp [Trimmed, isWhitespace]
    chars := by simp [Plain, isWhitespace] }
  have hrow := titleRow_titleLine htitle
  have hkept := hall {} _ _ _ _ _ hrow (by simp)
  have hflag : BeginsWithFlag "V for Vendetta".toList := ⟨'V', by decide, by simp [isWhitespace]⟩
  exact (titleKept_iff hrow {}).mp hkept hflag

end KeyDb
