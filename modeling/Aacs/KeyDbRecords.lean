import Aacs.KeyDb

/-!
# Records return

Every record, however malformed, is read or reported: an excerpt is cut behind a
character, a named field at a blank, and the decoders of a record read bytes, not
characters.
-/

open Text Outcome

namespace KeyDb

/-- The characters that fit are the indices of a first part of the snippet. -/
theorem truncateExcerpt_eq_ok (snippet : List Char) (maxBytes : Nat) :
    ∃ t, truncateExcerpt snippet maxBytes = .ok t := by
  rw [truncateExcerpt]
  split
  · exact ⟨snippet, rfl⟩
  · cases hlast : ((charIndices 0 snippet).takeWhile fun p => p.1 + p.2.utf8Size ≤
      maxBytes).getLast? with
    | none =>
      dsimp only
      rw [hlast]
      exact ⟨[], by simp [sliceTo]⟩
    | some p =>
      have hfirst :=
        List.takeWhile_prefix (fun p : Nat × Char => decide (p.1 + p.2.utf8Size ≤ maxBytes))
        (l := charIndices 0 snippet)
      obtain ⟨a, b, rfl, ha⟩ := charIndices_beginning hfirst
      have hcut : p.1 + p.2.utf8Size = utf8Len a := by
        rw [charIndices_last (ha ▸ hlast), Nat.zero_add]
      dsimp only
      rw [hlast]
      exact ⟨a, by simp [hcut]⟩

theorem makeLegacyErr_eq_ok (snippet : List Char) : ∃ e, makeLegacyErr snippet = .ok e := by
  obtain ⟨t, ht⟩ := truncateExcerpt_eq_ok snippet 80
  exact ⟨.keyDbParseError t, by rw [makeLegacyErr, ht]; rfl⟩

theorem returns_makeLegacyErr (snippet : List Char) : Returns (makeLegacyErr snippet) := by
  obtain ⟨e, he⟩ := makeLegacyErr_eq_ok snippet
  exact returns_of_ok he

theorem returns_headerErr (snippet : List Char) (msg : String) :
    Returns (headerErr snippet msg) := by
  obtain ⟨t, ht⟩ := truncateExcerpt_eq_ok snippet 80
  rw [headerErr, ht]
  exact returns_ok _

theorem returns_fail_headerErr {α : Type} (snippet : List Char) (msg : String) :
    Returns (fail (headerErr snippet msg) : Result α) := (returns_headerErr snippet msg).fail

theorem returns_mapErr_headerErr {α : Type} {x : Outcome String α} (hx : Returns x)
    (snippet : List Char) :
    Returns (x.mapErr (headerErr snippet)) := hx.mapErr (returns_headerErr snippet)

/-- No digit's arithmetic leaves the byte. -/
theorem returns_hexDigit (b : UInt8) : Returns (hexDigit b) :=
  byte_cases (p := fun b => hexDigit b ≠ .panic) (by decide +kernel) b

theorem returns_hexPair {b : List UInt8} {i : Nat} (h : i + 1 < b.length) :
    Returns (hexPair b i) := by
  rw [hexPair, index_of_lt (by omega : i < b.length), index_of_lt h]
  exact (returns_hexDigit _).bind fun hi _ => (returns_hexDigit _).bind fun lo _ => returns_ok _

theorem returns_parseHexBytes (hex : List Char) : Returns (parseHexBytes hex) := by
  rw [parseHexBytes]
  split
  · exact returns_err ()
  · next heven =>
    refine Returns.mapM fun k hk => returns_hexPair ?_
    rw [List.mem_range, length_utf8Bytes] at hk
    rw [length_utf8Bytes]
    omega

theorem length_of_parseHexBytes {hex : List Char} {bs : List UInt8}
    (h : parseHexBytes hex = .ok bs) :
    2 * bs.length = utf8Len hex := by
  rw [parseHexBytes] at h
  split at h
  · cases h
  · rw [length_of_mapM_eq_ok h, List.length_range, length_utf8Bytes]
    omega

section Field

variable {value : List Char} {fieldName : String} {bad : Nat → Bool} {lengthMsg : Nat → String}

theorem returns_parseHexField : Returns (parseHexField value fieldName bad lengthMsg) := by
  apply (returns_okOr _ _).bind
  intro stripped _
  apply (returns_refuseIf _ _).bind
  intro _ _
  exact (returns_parseHexBytes stripped).mapErr fun _ => returns_ok _

/-- The test of the length holds for twice the bytes returned. -/
theorem length_of_parseHexField {bs : List UInt8}
    (h : parseHexField value fieldName bad lengthMsg = .ok bs) :
    bad (2 * bs.length) = false := by
  obtain ⟨stripped, -, h⟩ := bind_eq_ok.mp h
  obtain ⟨_, hlen, h⟩ := bind_eq_ok.mp h
  rw [length_of_parseHexBytes (mapErr_eq_ok.mp h)]
  exact Bool.eq_false_iff.mpr (refuseIf_eq_ok.mp hlen)

end Field

theorem returns_parseHexFixed (value : List Char) (n : Nat) (name : String) :
    Returns (parseHexFixed value n name) := returns_parseHexField

theorem returns_parseHexVar (value : List Char) (name : String) :
    Returns (parseHexVar value name) :=
  returns_parseHexField

theorem length_of_parseHexFixed {value : List Char} {n : Nat} {name : String} {bs : List UInt8}
    (h : parseHexFixed value n name = .ok bs) : 2 * bs.length = n := by
  simpa using length_of_parseHexField h

/-- A field that was decoded has the length of its array. -/
theorem returns_copyFrom_field {value body : List Char} {m n : Nat} {name : String}
    {bs : List UInt8}
    (h : (parseHexFixed value m name).mapErr (headerErr body) = .ok bs) (hm : m = 2 * n) :
    Returns (copyFrom n bs : Result (Bytes n)) := by
  have hlen := length_of_parseHexFixed (mapErr_eq_ok.mp h)
  exact returns_of_ok (copyFrom_of_length (by omega))

theorem returns_readKey (name : String) (value : List Char) : Returns (readKey name value) := by
  apply (returns_parseHexFixed _ _ _).bind
  intro bs h
  have hlen := length_of_parseHexFixed h
  exact returns_of_ok (copyFrom_of_length (by omega))

theorem returns_splitNamed (field : List Char) : Returns (splitNamed field) := by
  rw [splitNamed]
  split
  · next idx h =>
    obtain ⟨hto, hfrom⟩ := cut_of_find h
    rw [hto, hfrom]
    exact returns_ok _
  · exact returns_ok _

theorem returns_findNamed (name : String) (tokens : List (List Char)) :
    Returns (findNamed name tokens) := by
  induction tokens with
  | nil => exact returns_ok none
  | cons tok tokens ih =>
    apply (returns_splitNamed tok).bind
    intro p _
    obtain ⟨n, v⟩ := p
    dsimp only
    split
    · exact returns_ok _
    · exact ih

theorem returns_positionalValues (tokens : List (List Char)) : Returns (positionalValues tokens) :=
  (Returns.mapM fun tok _ => returns_splitNamed tok).bind fun _ _ => returns_ok _

theorem returns_requireNamed (leader name : String) (fields : List (List Char)) (body : List Char) :
    Returns (requireNamed leader name fields body) :=
  (returns_findNamed name fields).bind fun o _ => (returns_headerErr body _).okOrElse o

theorem returns_requireDiscid (currentDiscid : Option (Bytes 20)) (leader : String)
    (body : List Char) :
    Returns (requireDiscid currentDiscid leader body) :=
  (returns_headerErr body _).okOrElse currentDiscid

/-- The first of some values. -/
theorem returns_first {values : List (List Char)} (h : 0 < values.length) :
    Returns (expect values[0]? : Result (List Char)) := by
  rw [List.getElem?_eq_getElem h]
  exact returns_ok _

theorem returns_positionalOrNamed (fields : List (List Char)) (name : String) (body : List Char) :
    Returns (positionalOrNamed fields name body) := by
  apply (returns_findNamed name fields).bind
  intro named _
  cases named with
  | some v => exact returns_ok v
  | none =>
    apply (returns_positionalValues fields).bind
    intro positionals _
    split
    · next hone => exact returns_first (by omega)
    · exact returns_fail_headerErr _ _

variable (fields : List (List Char)) (comment : Option (List Char)) (body : List Char)

theorem returns_parseDk : (parseDk fields comment body).Returns := by
  refine .lift_bind ?_ fun _ _ => .modify _
  apply (returns_requireNamed _ _ _ _).bind
  intro dkHex _
  apply (returns_requireNamed _ _ _ _).bind
  intro nodeHex _
  apply (returns_requireNamed _ _ _ _).bind
  intro uvHex _
  apply (returns_requireNamed _ _ _ _).bind
  intro shiftHex _
  apply (returns_mapErr_headerErr (returns_parseHexFixed _ _ _) body).bind
  intro dk hdk
  apply (returns_mapErr_headerErr (returns_parseHexFixed _ _ _) body).bind
  intro node hnode
  apply (returns_mapErr_headerErr (returns_parseHexFixed _ _ _) body).bind
  intro uv huv
  apply (returns_mapErr_headerErr (returns_parseHexFixed _ _ _) body).bind
  intro shift hshift
  apply (returns_copyFrom_field hdk rfl).bind
  intro _ _
  apply (returns_copyFrom_field hnode rfl).bind
  intro _ _
  apply (returns_copyFrom_field huv rfl).bind
  intro _ _
  have hlen := length_of_parseHexFixed (mapErr_eq_ok.mp hshift)
  rw [index_of_lt (by omega : 0 < shift.length)]
  exact returns_ok _

theorem returns_parsePk : (parsePk fields comment body).Returns := by
  refine .lift_bind ?_ fun _ _ => .modify _
  apply (returns_positionalValues fields).bind
  intro positionals _
  split
  · exact returns_fail_headerErr _ _
  · next hone =>
    refine (returns_first (by omega)).bind fun value _ => ?_
    apply (returns_mapErr_headerErr (returns_parseHexFixed _ _ _) body).bind
    intro pk hpk
    exact (returns_copyFrom_field hpk rfl).bind fun _ _ => returns_ok _

theorem returns_checkHostCertLength (certBytes : List UInt8) :
    Returns (checkHostCertLength body certBytes) := by
  rw [checkHostCertLength]
  split
  · next hlen =>
    rw [indexU16, index_of_lt (by omega : 2 < certBytes.length),
      index_of_lt (by omega : 2 + 1 < certBytes.length)]
    simp only [bind_ok, pure_eq]
    split
    · exact returns_fail_headerErr _ _
    · exact returns_ok ()
  · exact returns_ok ()

theorem returns_parseHc : (parseHc fields comment body).Returns := by
  refine .lift_bind ?_ fun _ _ => .modify _
  apply (returns_requireNamed _ _ _ _).bind
  intro privHex _
  apply (returns_requireNamed _ _ _ _).bind
  intro certHex _
  apply (returns_mapErr_headerErr (returns_parseHexFixed _ _ _) body).bind
  intro privBytes hpriv
  apply (returns_mapErr_headerErr (returns_parseHexVar _ _) body).bind
  intro hostCert _
  apply (returns_checkHostCertLength body hostCert).bind
  intro _ _
  exact (returns_copyFrom_field hpriv rfl).bind fun _ _ => returns_ok _

theorem returns_parseDc : (parseDc fields comment body).Returns := by
  refine .lift_bind ?_ fun _ _ => .modify _
  apply (returns_requireNamed _ _ _ _).bind
  intro privHex _
  apply (returns_requireNamed _ _ _ _).bind
  intro certHex _
  apply (returns_mapErr_headerErr (returns_parseHexFixed _ _ _) body).bind
  intro privBytes hpriv
  apply (returns_mapErr_headerErr (returns_parseHexVar _ _) body).bind
  intro driveCert _
  exact (returns_copyFrom_field hpriv rfl).bind fun _ _ => returns_ok _

theorem returns_parseDiscid : (parseDiscid fields comment body).Returns := by
  refine .lift_bind ?_ fun p _ => .modify _
  apply (returns_positionalValues fields).bind
  intro positionals _
  split
  · exact returns_fail_headerErr _ _
  · next hsome =>
    apply (returns_first (List.length_pos_iff.mpr hsome)).bind
    intro value _
    apply (returns_mapErr_headerErr (returns_parseHexFixed _ _ _) body).bind
    intro idBytes hid
    exact (returns_copyFrom_field hid rfl).bind fun _ _ => returns_ok _

theorem returns_readScoped {α : Type} (leader : String) {read : List Char → Outcome String α}
    (hread : ∀ value, Returns (read value)) : Returns (readScoped fields body leader read) :=
  (returns_positionalOrNamed _ _ _).bind fun value _ => returns_mapErr_headerErr (hread value) body

theorem returns_parseScoped {α : Type} (leader : String) {read : List Char → Outcome String α}
    (put : α → DiscRecords → DiscRecords) (hread : ∀ value, Returns (read value)) :
    (parseScoped fields body leader read put).Returns := by
  refine .get_bind fun s => .lift_bind ?_ fun p _ => .modify _
  apply (returns_requireDiscid _ _ _).bind
  intro did _
  exact (returns_readScoped fields body leader hread).bind fun v _ => returns_ok _

theorem returns_dispatch (leader : String) : (dispatch fields comment body leader).Returns := by
  unfold dispatch
  split
  · exact returns_parseDk fields comment body
  · exact returns_parsePk fields comment body
  · exact returns_parseHc fields comment body
  · exact returns_parseDc fields comment body
  · exact returns_parseDiscid fields comment body
  · exact returns_parseScoped fields body "VID" _ (returns_readKey "VID")
  · exact returns_parseScoped fields body "VUK" _ (returns_readKey "VUK")
  · exact returns_parseScoped fields body "MEK" _ (returns_readKey "MEK")
  · exact returns_parseScoped fields body "TK" _ (returns_readKey "TK")
  · exact returns_parseScoped fields body "KCD" _ fun value => returns_parseHexVar value "KCD"
  · exact .lift (returns_fail_headerErr _ _)

/-- No record panics. -/
theorem returns_parsePipeRecord : (parsePipeRecord comment body).Returns := by
  unfold parsePipeRecord
  dsimp only
  split
  · exact .lift (returns_fail_headerErr _ _)
  · split
    · exact .lift (returns_fail_headerErr _ _)
    · exact returns_dispatch _ comment body _

end KeyDb
