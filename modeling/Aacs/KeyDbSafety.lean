import Aacs.KeyDbRecords

/-!
# When a text is read

The hex fields of a row of the first form are measured in bytes and cut two
bytes at a time. A cut inside a character panics, so such a row is read exactly
when the fields it reaches are cut between characters as far as they are decoded.
-/

open Text Outcome

namespace KeyDb

/-- The two-byte groups of a text are whole characters, up to and including the first
that is not a number. -/
def PairsCut : List Char → Bool
  | [] => true
  | [c] => c.utf8Size = 2
  | c :: d :: s =>
    if c.utf8Size = 1 then d.utf8Size = 1 && ((fromStrRadix 16 256 [c, d]).isNone || PairsCut s)
    else c.utf8Size = 2

/-- The bytes a text of digit pairs spells. -/
def hexPairs : List Char → Option (List UInt8)
  | [] => some []
  | [_] => none
  | c :: d :: s => do
    let v ← fromStrRadix 16 256 [c, d]
    let bs ← hexPairs s
    return UInt8.ofNat v :: bs

theorem length_of_hexPairs {s : List Char} {bs : List UInt8} (hcut : PairsCut s = true)
    (h : hexPairs s = some bs) : utf8Len s = 2 * bs.length := by
  induction s using hexPairs.induct generalizing bs with
  | case1 =>
    cases h
    rfl
  | case2 c => cases h
  | case3 c d s ih =>
    obtain ⟨v, hv, h⟩ := Option.bind_eq_some_iff.mp h
    obtain ⟨bs', hbs, h⟩ := Option.bind_eq_some_iff.mp h
    cases h
    have hc : c.utf8Size = 1 := by
      by_contra hc
      rw [fromStrRadix_eq_none hc] at hv
      cases hv
    simp only [PairsCut, hc, if_true, hv, Option.isNone_some, Bool.false_or, Bool.and_eq_true,
      decide_eq_true_eq] at hcut
    rw [utf8Len_cons, utf8Len_cons, hc, hcut.1, ih hcut.2 hbs, List.length_cons]
    omega

/-- The first two bytes of a text, when they are whole characters. -/
theorem sliceTo_two {ε : Type} (c : Char) (s : List Char) :
    (sliceTo (c :: s) 2 : Outcome ε (List Char)) = if c.utf8Size = 1 then
      match s with
      | [] => .panic
      | d :: _ => if d.utf8Size = 1 then .ok [c, d] else .panic
    else if c.utf8Size = 2 then .ok [c] else .panic := by
  have hc := c.utf8Size_pos
  rw [sliceTo, splitAt_cons (by decide)]
  by_cases h1 : c.utf8Size = 1
  · cases s with
    | nil => simp [h1, splitAt]
    | cons d s =>
      have hd := d.utf8Size_pos
      by_cases h2 : d.utf8Size = 1
      · simp [h1, h2, splitAt_cons]
      · have hd' : ¬d.utf8Size ≤ 1 := by omega
        simp [h1, h2, hd', splitAt_cons]
  · by_cases h2 : c.utf8Size = 2
    · simp [h2]
    · have hc' : ¬c.utf8Size ≤ 2 := by omega
      simp [h1, h2, hc']

/-- One turn of the decoder's loop. -/
def legacyPair (text : List Char) (i : Nat) : Result UInt8 := do
  let pair ← slice text (i * 2) (i * 2 + 2)
  okOrElse ((fromStrRadix 16 256 pair).map UInt8.ofNat) (makeLegacyErr text)

theorem slice_pair {ε : Type} {p s : List Char} {i : Nat} (hp : utf8Len p = i * 2) :
    (slice (p ++ s) (i * 2) (i * 2 + 2) : Outcome ε (List Char)) = sliceTo s 2 := by
  rw [Text.slice, ← hp, sliceFrom_append]
  simp

theorem legacyLoop_eq {p s : List Char} {i n : Nat} (hp : utf8Len p = i * 2)
    (hs : utf8Len s = n * 2) :
    (List.range' i n).mapM (legacyPair (p ++ s)) =
      if PairsCut s then okOrElse (hexPairs s) (makeLegacyErr (p ++ s)) else .panic := by
  induction s using hexPairs.induct generalizing p i n with
  | case1 =>
    obtain rfl : n = 0 := by
      rw [utf8Len_nil] at hs
      omega
    rfl
  | case2 c =>
    have hc := c.utf8Size_pos
    rw [utf8Len_cons, utf8Len_nil] at hs
    obtain ⟨n, rfl⟩ : ∃ m, n = m + 1 := ⟨n - 1, by omega⟩
    rw [List.range'_succ, List.mapM_cons, legacyPair, slice_pair hp, sliceTo_two]
    have h1 : c.utf8Size ≠ 1 := by omega
    obtain ⟨e, he⟩ := makeLegacyErr_eq_ok (p ++ [c])
    by_cases h2 : c.utf8Size = 2
    · simp [h2, PairsCut, hexPairs, fromStrRadix_eq_none h1, he]
    · simp [h1, h2, PairsCut]
  | case3 c d s ih =>
    have hc := c.utf8Size_pos
    have hd := d.utf8Size_pos
    rw [utf8Len_cons, utf8Len_cons] at hs
    obtain ⟨n, rfl⟩ : ∃ m, n = m + 1 := ⟨n - 1, by omega⟩
    rw [List.range'_succ, List.mapM_cons, legacyPair, slice_pair hp, sliceTo_two]
    obtain ⟨e, he⟩ := makeLegacyErr_eq_ok (p ++ c :: d :: s)
    by_cases h1 : c.utf8Size = 1
    · by_cases h2 : d.utf8Size = 1
      · cases hv : fromStrRadix 16 256 [c, d] with
        | none => simp [h1, h2, PairsCut, hexPairs, hv, he]
        | some v =>
          have hrest := ih (p := p ++ [c, d]) (i := i + 1) (n := n)
            (by rw [utf8Len_append, hp]; simp [h1, h2]; omega) (by omega)
          rw [List.append_assoc, List.cons_append, List.cons_append, List.nil_append] at hrest
          rw [hrest]
          by_cases hcut : PairsCut s = true
          · cases hs' : hexPairs s <;> simp [h1, h2, PairsCut, hexPairs, hv, hcut, hs', he]
          · simp [h1, h2, PairsCut, hv, hcut]
      · simp [h1, h2, PairsCut]
    · by_cases h2 : c.utf8Size = 2
      · simp [h2, PairsCut, hexPairs, fromStrRadix_eq_none h1, he]
      · simp [h1, h2, PairsCut]

/-- A field of the right length is decoded unless it is cut inside a character. -/
theorem parseHexArrayLegacy_eq {n : Nat} {text : List Char} (hlen : utf8Len text = 2 * n) :
    parseHexArrayLegacy n text = if PairsCut text then do
      let out ← okOrElse (hexPairs text) (makeLegacyErr text)
      copyFrom n out
    else .panic := by
  have hloop := legacyLoop_eq (p := []) (s := text) (i := 0) (n := n) rfl (by omega)
  rw [parseHexArrayLegacy, if_neg (by omega), List.range_eq_range']
  change ((List.range' 0 n).mapM (legacyPair text) >>= copyFrom n) = _
  rw [List.nil_append] at hloop
  rw [hloop]
  split <;> rfl

section Decoded

variable {n : Nat} {text : List Char}

theorem parseHexArrayLegacy_of_not_cut (hlen : utf8Len text = 2 * n)
    (hcut : ¬PairsCut text = true) :
    parseHexArrayLegacy n text = .panic := by
  rw [parseHexArrayLegacy_eq hlen, if_neg hcut]

theorem parseHexArrayLegacy_of_not_hex (hlen : utf8Len text = 2 * n) (hcut : PairsCut text = true)
    (h : hexPairs text = none) : ∃ e, parseHexArrayLegacy n text = .err e := by
  obtain ⟨e, he⟩ := makeLegacyErr_eq_ok text
  exact ⟨e, by rw [parseHexArrayLegacy_eq hlen, if_pos hcut, h, he]; rfl⟩

theorem parseHexArrayLegacy_of_hex {bs : List UInt8} (hlen : utf8Len text = 2 * n)
    (hcut : PairsCut text = true)
    (h : hexPairs text = some bs) : ∃ b, parseHexArrayLegacy n text = .ok b := by
  have hbs := length_of_hexPairs hcut h
  refine ⟨⟨bs, by omega⟩, ?_⟩
  rw [parseHexArrayLegacy_eq hlen, if_pos hcut, h]
  exact copyFrom_of_length (by omega)

/-- A field of any other length is refused before it is cut. -/
theorem parseHexArrayLegacy_of_length (hlen : utf8Len text ≠ 2 * n) :
    ∃ e, parseHexArrayLegacy n text = .err e := by
  obtain ⟨e, he⟩ := makeLegacyErr_eq_ok text
  exact ⟨e, by rw [parseHexArrayLegacy, if_pos hlen, he]; rfl⟩

end Decoded

/-- A flag word and the value behind it, or a value alone. -/
def flagSplit (ptok : List Char) : List Char × List Char :=
  let word := ptok.takeWhile fun c => !isWhitespace c
  if flagWords.any (word = [·]) then (word, trim (ptok.dropWhile fun c => !isWhitespace c))
    else ([], ptok)

theorem utf8Size_flagWord {d : Char} (hd : d ∈ flagWords) : d.utf8Size = 1 := by
  have hall : flagWords.all (fun d => d.utf8Size = 1) = true := by rfl
  exact of_decide_eq_true (List.all_eq_true.mp hall d hd)

theorem isFlagWord_eq (s : List Char) : isFlagWord s = .ok (flagWords.any (s = [·])) := by
  rw [isFlagWord]
  split
  · next h =>
    obtain ⟨c, rfl, hc⟩ := utf8Len_eq_one.mp h
    have hbytes : utf8Bytes [c] = [c.toUInt8] := by
      simp [utf8Bytes, String.utf8EncodeChar_eq_singleton hc]
    have hflag : ∀ d ∈ flagWords, (c.toUInt8 = d.toUInt8 ↔ c = d) := fun d hd =>
      toUInt8_inj hc (utf8Size_flagWord hd)
    rw [hbytes]
    simp only [index, List.getElem?_cons_zero, expect_some, bind_ok, pure_eq, ok.injEq]
    rw [List.contains_eq_any_beq, List.any_map, Bool.eq_iff_iff]
    simp only [List.any_eq_true, Function.comp_apply, beq_iff_eq, decide_eq_true_eq,
      List.cons.injEq, and_true]
    exact exists_congr fun d => and_congr_right (hflag d)
  · next h =>
    have hno : ∀ d ∈ flagWords, s ≠ [d] := by
      rintro d hd rfl
      exact h (utf8Size_flagWord hd)
    rw [ok.injEq, eq_comm, List.any_eq_false]
    simpa using hno

theorem headAndValue_eq (ptok : List Char) : headAndValue ptok = .ok (flagSplit ptok) := by
  rw [headAndValue, flagSplit]
  split
  · next idx h =>
    obtain ⟨hto, hfrom⟩ := cut_of_find h
    rw [hto, bind_ok, isFlagWord_eq, bind_ok, hfrom]
    split <;> rfl
  · next h =>
    obtain ⟨htake, hdrop⟩ := takeWhile_of_find_none h
    rw [isFlagWord_eq, bind_ok, htake, hdrop]
    split <;> rfl

/-- The field of 32 bytes that a value under a flag is decoded from. -/
def keyField (flag : Option Char) (value : List Char) : Option (List Char) :=
  let text := match flag with
    | some 'V' => some (stripHexPrefix value)
    | some 'U' => (splitOnce '-' value).map fun (p : List Char × List Char) =>
      stripHexPrefix (trim p.2)
    | _ => none
  text.filter (utf8Len · = 32)

/-- The flag behind a value. -/
def nextFlag (flag : Option Char) : Option Char := if flag = some 'U' then flag else none

/-- The key fields a row decodes: it ends at a `V` field that is not hexadecimal. -/
def keyFields : Option Char → List (List Char) → List (List Char)
  | _, [] => []
  | flag, ptok :: rest =>
    let (head, value) := flagSplit ptok
    let flag := if head ≠ [] then head.head?.map Char.toUpper else flag
    if value = [] then keyFields flag rest
    else match keyField flag value with
      | none => keyFields (nextFlag flag) rest
      | some key =>
        key :: (if flag = some 'V' ∧ hexPairs key = none then [] else keyFields
          (nextFlag flag) rest)

section Values

variable {f : LegacyFields} {value key : List Char}

theorem keyField_eq_some : keyField f.currentFlag value = some key ↔ utf8Len key = 32 ∧
    (f.currentFlag = some 'V' ∧ key = stripHexPrefix value ∨
      f.currentFlag = some 'U' ∧ ∃ id text, splitOnce '-' value = some (id, text) ∧ key =
        stripHexPrefix (trim text)) := by
  unfold keyField
  rw [Option.filter_eq_some_iff, decide_eq_true_eq, and_comm, and_congr_right_iff]
  intro _
  split
  · next hV => simp [hV, eq_comm]
  · next hU => simp [hU, eq_comm]
  · next hV hU =>
      exact iff_of_false nofun (by rintro (⟨h, -⟩ | ⟨h, -⟩) <;> [exact hV h; exact hU h])

/-- A value without a key field is taken or passed over. -/
theorem legacyValue_of_none (h : keyField f.currentFlag value = none) :
    ∃ f', legacyValue f value = .ok f' ∧ f'.currentFlag = nextFlag f.currentFlag := by
  have hno : ∀ key, keyField f.currentFlag value ≠ some key := by simp [h]
  simp only [ne_eq, keyField_eq_some] at hno
  unfold legacyValue
  split
  · next hV =>
    have hlen : utf8Len (stripHexPrefix value) ≠ 32 := fun hlen => hno _ ⟨hlen, .inl ⟨hV, rfl⟩⟩
    simp [vukValue, hlen, nextFlag, hV]
  · next hU =>
    cases hsplit : splitOnce '-' value with
    | none => simp [unitKey, hsplit, nextFlag, hU]
    | some p =>
      have hlen : utf8Len (stripHexPrefix (trim p.2)) ≠ 2 * 16 := fun hlen =>
        hno _ ⟨hlen, .inr ⟨hU, p.1, p.2, hsplit, rfl⟩⟩
      obtain ⟨e, he⟩ := parseHexArrayLegacy_of_length hlen
      simp [unitKey, hsplit, parseHexArray16Legacy, he, nextFlag, hU]
  · next c hV hU hflag =>
    have hc : c ≠ 'U' := hU
    exact ⟨_, rfl, by simp [nextFlag, hc, hflag]⟩
  · next hflag => exact ⟨_, rfl, by simp [nextFlag, hflag]⟩

theorem legacyValue_of_not_cut (h : keyField f.currentFlag value = some key)
    (hcut : ¬PairsCut key = true) :
    legacyValue f value = .panic := by
  obtain ⟨hlen, ⟨hV, rfl⟩ | ⟨hU, id, text, hsplit, rfl⟩⟩ := keyField_eq_some.mp h
  · have hp := parseHexArrayLegacy_of_not_cut (n := 16) hlen hcut
    simp [legacyValue, hV, vukValue, hlen, parseHexArray16Legacy, hp]
  · have hp := parseHexArrayLegacy_of_not_cut (n := 16) hlen hcut
    simp [legacyValue, hU, unitKey, hsplit, parseHexArray16Legacy, hp]

/-- A volume key that is not hexadecimal ends the row. -/
theorem legacyValue_of_not_hex (h : keyField f.currentFlag value = some key)
    (hcut : PairsCut key = true) (hV : f.currentFlag = some 'V') (hhex : hexPairs key = none) :
    ∃ e, legacyValue f value = .err e := by
  obtain ⟨hlen, ⟨-, rfl⟩ | ⟨hU, -⟩⟩ := keyField_eq_some.mp h
  · obtain ⟨e, he⟩ := parseHexArrayLegacy_of_not_hex (n := 16) hlen hcut hhex
    exact ⟨e, by simp [legacyValue, hV, vukValue, hlen, parseHexArray16Legacy, he]⟩
  · rw [hV] at hU
    cases hU

theorem legacyValue_of_cut (h : keyField f.currentFlag value = some key)
    (hcut : PairsCut key = true) (hgo : ¬(f.currentFlag = some 'V' ∧ hexPairs key = none)) :
    ∃ f', legacyValue f value = .ok f' ∧ f'.currentFlag = nextFlag f.currentFlag := by
  obtain ⟨hlen, ⟨hV, rfl⟩ | ⟨hU, id, text, hsplit, rfl⟩⟩ := keyField_eq_some.mp h
  · obtain ⟨bs, hbs⟩ := Option.ne_none_iff_exists'.mp fun hnone => hgo ⟨hV, hnone⟩
    obtain ⟨b, hb⟩ := parseHexArrayLegacy_of_hex (n := 16) hlen hcut hbs
    simp [legacyValue, hV, vukValue, hlen, parseHexArray16Legacy, hb, nextFlag]
  · cases hbs : hexPairs (stripHexPrefix (trim text)) with
    | none =>
      obtain ⟨e, he⟩ := parseHexArrayLegacy_of_not_hex (n := 16) hlen hcut hbs
      simp [legacyValue, hU, unitKey, hsplit, parseHexArray16Legacy, he, nextFlag]
    | some bs =>
      obtain ⟨b, hb⟩ := parseHexArrayLegacy_of_hex (n := 16) hlen hcut hbs
      simp [legacyValue, hU, unitKey, hsplit, parseHexArray16Legacy, hb, nextFlag]

end Values

/-- The flag in force at a value. -/
def flagAt (flag : Option Char) (head : List Char) : Option Char :=
  if head ≠ [] then head.head?.map Char.toUpper else flag

theorem legacyToken_eq (f : LegacyFields) (ptok : List Char) : legacyToken f ptok =
    let f := { f with currentFlag := flagAt f.currentFlag (flagSplit ptok).1 }
    if (flagSplit ptok).2 = [] then .ok f else legacyValue f (flagSplit ptok).2 := by
  by_cases hnil : ptok = []
  · rw [hnil]
    rfl
  · rw [legacyToken, if_neg hnil, headAndValue_eq, bind_ok]
    by_cases hhead : (flagSplit ptok).1 = [] <;> simp [flagAt, hhead]

/-- The tokens of a row are read exactly when the key fields they reach are cut between
characters. -/
theorem returns_legacyTokens (tokens : List (List Char)) (f : LegacyFields) :
    Returns (tokens.foldlM legacyToken f) ↔ ∀ key ∈ keyFields f.currentFlag tokens,
      PairsCut key = true := by
  induction tokens generalizing f with
  | nil => simp [keyFields]
  | cons ptok rest ih =>
    rw [List.foldlM_cons, legacyToken_eq, keyFields]
    dsimp only
    rw [← flagAt]
    generalize hg : { f with currentFlag := flagAt f.currentFlag (flagSplit ptok).1 } = g
    have hflag : flagAt f.currentFlag (flagSplit ptok).1 = g.currentFlag := by rw [← hg]
    rw [hflag]
    split
    · exact ih g
    · cases hkey : keyField g.currentFlag (flagSplit ptok).2 with
      | none =>
        obtain ⟨f', hf', hnext⟩ := legacyValue_of_none hkey
        rw [hf', bind_ok, ih f', hnext]
      | some key =>
        rw [List.forall_mem_cons]
        by_cases hcut : PairsCut key = true
        · rw [and_iff_right hcut]
          split
          · next hend =>
            obtain ⟨e, he⟩ := legacyValue_of_not_hex hkey hcut hend.1 hend.2
            simp [he]
          · next hgo =>
            obtain ⟨f', hf', hnext⟩ := legacyValue_of_cut hkey hcut hgo
            rw [hf', bind_ok, ih f', hnext]
        · rw [legacyValue_of_not_cut hkey hcut]
          exact iff_of_false (fun h => h rfl) fun h => hcut h.1

/-- The fields of 40 and of 32 bytes that a row of the first form decodes. -/
def rowFields (body : List Char) : List (List Char) :=
  match splitOnce '=' body with
  | none => []
  | some (idText, rhs) =>
    let id := stripHexPrefix (trim idText)
    if utf8Len id = 40 then
      id :: (if hexPairs id = none then [] else keyFields none ((split '|' rhs).map trim))
    else []

theorem returns_parseLegacyLine (body : List Char) :
    Returns (parseLegacyLine body) ↔ ∀ field ∈ rowFields body, PairsCut field = true := by
  unfold parseLegacyLine rowFields
  cases splitOnce '=' body with
  | none => exact iff_of_true (returns_makeLegacyErr body).fail fun _ h => absurd h List.not_mem_nil
  | some p =>
    obtain ⟨idText, rhs⟩ := p
    dsimp only
    rw [parseHexArray20Legacy]
    generalize stripHexPrefix (trim idText) = id
    split
    · next hlen =>
      by_cases hcut : PairsCut id = true
      · rw [List.forall_mem_cons, and_iff_right hcut]
        cases hhex : hexPairs id with
        | none =>
          obtain ⟨e, he⟩ := parseHexArrayLegacy_of_not_hex (n := 20) hlen hcut hhex
          simp [he]
        | some bs =>
          obtain ⟨discId, hid⟩ := parseHexArrayLegacy_of_hex (n := 20) hlen hcut hhex
          rw [hid, bind_ok, if_neg nofun, ← returns_legacyTokens _ {}, returns_bind_iff]
          exact and_iff_left fun f _ => ((returns_makeLegacyErr body).okOrElse _).bind fun _ _ =>
            returns_ok _
      · rw [parseHexArrayLegacy_of_not_cut hlen hcut]
        exact iff_of_false (fun h => h rfl) fun h => hcut (h id List.mem_cons_self)
    · next hlen =>
      obtain ⟨e, he⟩ := parseHexArrayLegacy_of_length (n := 20) hlen
      simp [he]

/-- The row of a line. -/
def lineBody (raw : List Char) : List Char := trim (raw.takeWhile fun c => !decide (c = ';'))

/-- The comment of a line; an empty one is none. -/
def lineComment (raw : List Char) : Option (List Char) :=
  if ';' ∈ raw then (some (trim (raw.dropWhile fun c => !decide (c = ';')).tail)).filter
    (· ≠ []) else none

theorem splitComment_eq (raw : List Char) : ∃ comment,
    splitComment raw = .ok (raw.takeWhile (fun c => !decide (c = ';')), comment) ∧
      comment.filter (· ≠ []) = lineComment raw := by
  rw [splitComment, lineComment]
  split
  · next i h =>
    have hbar : ∀ c : Char, decide (c = ';') = true → c.utf8Size = 1 := by
      intro c hc
      rw [of_decide_eq_true hc]
      rfl
    obtain ⟨a, c, b, rfl, -, hc, -⟩ := find_eq_some h
    obtain rfl := of_decide_eq_true hc
    rw [(cut_of_find h).1, cut_behind_find hbar h,
      if_pos (List.mem_append_right a List.mem_cons_self)]
    exact ⟨_, rfl, rfl⟩
  · next h =>
    have hno : ';' ∉ raw := fun hmem => by simpa using find_eq_none.mp h ';' hmem
    rw [(takeWhile_of_find_none h).1, if_neg hno]
    exact ⟨none, rfl, rfl⟩

/-- The fields a line decodes two bytes at a time: those of a row of the first form. -/
def lineFields (raw : List Char) : List (List Char) :=
  let body := trim (raw.takeWhile fun c => !decide (c = ';'))
  if body = [] ∨ body.head? = some '|' then [] else rowFields body

theorem returns_parseRow (body : List Char) (comment : Option (List Char)) (rows : Rows) :
    (parseRow body comment rows).1.Returns ↔ body.head? = some '|' ∨ Returns
    (parseLegacyLine body) := by
  unfold parseRow
  split
  · next hbar => exact iff_of_true (returns_parsePipeRecord comment body rows) (.inl hbar)
  · next hbar =>
    rw [or_iff_right hbar]
    cases parseLegacyLine body <;> simp [Returns]

/-- Whether a line is read does not depend on what stands before it. -/
theorem parseLine_eq_ok (s : Rows × ParseReport) (line : List Char × Nat) :
    (∃ s', parseLine s line = .ok s') ↔ ∀ field ∈ lineFields line.1, PairsCut field = true := by
  obtain ⟨comment, hsplit, -⟩ := splitComment_eq line.1
  rw [parseLine, hsplit, bind_ok, lineFields]
  dsimp only
  generalize trim (line.1.takeWhile fun c => !decide (c = ';')) = body
  by_cases hnil : body = []
  · simp [hnil]
  · have hrow := returns_parseRow body (comment.filter (· ≠ [])) s.1
    have hfields : (∀ field ∈ if body = [] ∨ body.head? = some '|' then [] else rowFields body,
        PairsCut field = true) ↔ body.head? = some '|' ∨ Returns (parseLegacyLine body) := by
      by_cases hbar : body.head? = some '|' <;> simp [hnil, hbar, returns_parseLegacyLine]
    rw [if_neg hnil, hfields, ← hrow]
    rcases parseRow body (comment.filter (· ≠ [])) s.1 with ⟨_ | e | _, rows⟩
    · simp
    · obtain ⟨t, ht⟩ := truncateExcerpt_eq_ok body 80
      simp [ht]
    · simp [Returns]

/-- Whether lines are read depends on each of them alone. -/
theorem parseLines_eq_ok (raws : List (List Char)) (s : Rows × ParseReport) :
    (∃ s', raws.zipIdx.foldlM parseLine s = .ok s') ↔
      ∀ raw ∈ raws, ∀ field ∈ lineFields raw, PairsCut field = true := by
  rw [foldlM_eq_ok parseLine_eq_ok]
  constructor
  · intro h raw hraw
    obtain ⟨i, hi⟩ := List.mem_iff_getElem?.mp hraw
    exact h (raw, i) (List.mk_mem_zipIdx_iff_getElem?.mpr hi)
  · intro h line hline
    exact h line.1 (List.fst_mem_of_mem_zipIdx hline)

theorem exists_parseWithReport_iff (text : List Char) :
    (∃ out, parseWithReport text = .ok out) ↔
      ∃ s, (lines text).zipIdx.foldlM parseLine ({}, {}) = .ok s := by
  constructor
  · rintro ⟨out, h⟩
    obtain ⟨s, hs, -⟩ := bind_eq_ok.mp h
    exact ⟨s, hs⟩
  · rintro ⟨s, hs⟩
    exact ⟨(s.1.db, s.2), by rw [parseWithReport, hs]; rfl⟩

/-- A text is read exactly when every hex field that its lines decode is cut between
characters. -/
theorem parseWithReport_eq_ok (text : List Char) :
    (∃ out, parseWithReport text = .ok out) ↔
      ∀ raw ∈ lines text, ∀ field ∈ lineFields raw, PairsCut field = true :=
  (exists_parseWithReport_iff text).trans (parseLines_eq_ok (lines text) ({}, {}))

/-- A title of forty bytes before an equals sign; its second character has two bytes. -/
def accentedTitle : List Char := "Fête du cinéma 2012, édition du disqu = x".toList

/-- A text that is not read: a field is measured in bytes and cut inside a character. -/
theorem accentedTitle_not_read : ¬∃ out, parseWithReport accentedTitle = .ok out := by
  have hpanic : parseWithReport accentedTitle = .panic := by rfl
  simp [hpanic]

end KeyDb
