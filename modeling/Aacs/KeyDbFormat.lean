import Aacs.KeyDbRun
import Aacs.TextFields

/-!
# The grammar of the records

How a record is written: its leader and its fields between bars, in cells padded
with blanks, with or without a bar behind the last of them, and a comment behind
that. A line so written is read as its record.
-/

open Text Outcome

namespace KeyDb

/-- Two digits of either letter case for each byte. -/
inductive Spells : List UInt8 → List Char → Prop where
  | nil : Spells [] []
  | cons {b : UInt8} {bs : List UInt8} {hi lo : Char} {s : List Char}
    (hhi : toDigit 16 hi = some (b.toNat / 16)) (hlo : toDigit 16 lo = some (b.toNat % 16))
      (hs : Spells bs s) :
    Spells (b :: bs) (hi :: lo :: s)

/-- The bytes behind their `0x`. -/
def Literal (bs : List UInt8) (tok : List Char) : Prop :=
  ∃ x digits, (x = 'x' ∨ x = 'X') ∧ tok = '0' :: x :: digits ∧ Spells bs digits

/-- The decoder of the records reads the byte of a digit. -/
theorem hexDigit_of_toDigit {c : Char} {d : Nat} (h : toDigit 16 c = some d) :
    hexDigit c.toUInt8 = .ok (UInt8.ofNat d) ∧ d < 16 := by
  have hdec : ∀ n < 128, (toDigit 16 (Char.ofNat n)).all (fun d =>
      hexDigit (Char.ofNat n).toUInt8 = .ok (UInt8.ofNat d) ∧ d < 16) = true := by decide +kernel
  have hc := ascii_cases (p := fun c => (toDigit 16 c).all (fun d =>
    hexDigit c.toUInt8 = .ok (UInt8.ofNat d) ∧ d < 16) = true) hdec (toNat_of_toDigit h)
  simpa [h] using hc

theorem join_nibbles (b : UInt8) :
    (UInt8.ofNat (b.toNat / 16) <<< 4) ||| UInt8.ofNat (b.toNat % 16) = b :=
  byte_cases (p := fun b => (UInt8.ofNat (b.toNat / 16) <<< 4) ||| UInt8.ofNat (b.toNat % 16) = b)
    (by decide +kernel) b

section Spelled

variable {bs : List UInt8} {s : List Char}

theorem Spells.length (h : Spells bs s) : utf8Len s = 2 * bs.length := by
  induction h with
  | nil => rfl
  | cons hhi hlo _ ih =>
    rw [utf8Len_cons, utf8Len_cons, utf8Size_of_toDigit hhi, utf8Size_of_toDigit hlo, ih,
      List.length_cons]
    omega

/-- The bytes of a spelled text, two for each byte it spells. -/
theorem Spells.hexPair {i : Nat} {b : UInt8} (h : Spells bs s) (hb : bs[i]? = some b) :
    hexPair (utf8Bytes s) (2 * i) = .ok b := by
  induction h generalizing i with
  | nil => cases hb
  | @cons b' bs hi lo s hhi hlo _ ih =>
    have hbytes : utf8Bytes (hi :: lo :: s) = hi.toUInt8 :: lo.toUInt8 :: utf8Bytes s := by
      rw [utf8Bytes, List.flatMap_cons, List.flatMap_cons,
        String.utf8EncodeChar_eq_singleton (utf8Size_of_toDigit hhi),
        String.utf8EncodeChar_eq_singleton (utf8Size_of_toDigit hlo)]
      rfl
    rw [hbytes]
    cases i with
    | zero =>
      cases hb
      simp [KeyDb.hexPair, index, (hexDigit_of_toDigit hhi).1, (hexDigit_of_toDigit hlo).1,
        join_nibbles]
    | succ i =>
      rw [← ih hb]
      simp [KeyDb.hexPair, index, Nat.mul_add]

/-- The decoder reads what is spelled. -/
theorem parseHexBytes_of_spells (h : Spells bs s) : parseHexBytes s = .ok bs := by
  have hlen := h.length
  have hpairs : (2 * bs.length + 1) / 2 = bs.length := by omega
  rw [parseHexBytes, if_neg (by omega)]
  dsimp only
  rw [length_utf8Bytes, hlen, hpairs]
  exact mapM_range_eq_ok fun i b hb => h.hexPair hb

end Spelled

section Literals

variable {bs : List UInt8} {tok : List Char}

theorem parseHexField_of_literal (h : Literal bs tok) (htrim : trim tok = tok) {name : String}
    {bad : Nat → Bool} {msg : Nat → String} (hbad : bad (2 * bs.length) = false) :
    parseHexField tok name bad msg = .ok bs := by
  obtain ⟨x, digits, hx, rfl, hspells⟩ := h
  have hbody : hexBody ('0' :: x :: digits) = some digits := by
    rcases hx with rfl | rfl <;> simp [hexBody, stripStart, List.isPrefixOf]
  rw [parseHexField, htrim, hbody, okOr_some, bind_ok, hspells.length, hbad,
    refuseIf_neg (by simp), bind_ok, parseHexBytes_of_spells hspells, mapErr_ok]

end Literals

/-- A character that neither separates fields nor ends a row. -/
def Plain (c : Char) : Prop := isWhitespace c = false ∧ c ≠ '|' ∧ c ≠ ';'

instance (c : Char) : Decidable (Plain c) := inferInstanceAs (Decidable (_ ∧ _ ∧ _))

def isNameChar (c : Char) : Bool := (65 ≤ c.toNat && c.toNat ≤ 90) || c.toNat == 95

/-- The names of the records and of their fields are capital letters and underscores. -/
def IsName (name : String) : Prop := name.toList ≠ [] ∧ name.toList.all isNameChar = true

theorem plain_digit {c : Char} {d : Nat} (h : toDigit 16 c = some d) : Plain c := by
  have hall : ∀ n < 128, (toDigit 16 (Char.ofNat n)).isSome → Plain (Char.ofNat n) := by
    decide +kernel
  have hc := ascii_cases (p := fun c => (toDigit 16 c).isSome → Plain c) hall (toNat_of_toDigit h)
  exact hc (by rw [h]; rfl)

/-- So is a letter of a name, in either case, and it is not the zero of a literal. -/
theorem plain_nameChar {c : Char} (h : isNameChar c.toUpper = true) : Plain c ∧ c ≠ '0' := by
  have hsmall : c.toNat < 128 := by
    by_contra hc
    have hup : c.toUpper = c := by
      refine dif_neg fun hz => hc ?_
      have hle : c.toNat ≤ 122 := UInt32.le_iff_toNat_le.mp hz.2
      omega
    rw [hup] at h
    simp only [isNameChar, Bool.or_eq_true, Bool.and_eq_true, decide_eq_true_eq, beq_iff_eq] at h
    omega
  have hall : ∀ n < 128, isNameChar (Char.ofNat n).toUpper = true → Plain (Char.ofNat n) ∧
      Char.ofNat n ≠ '0' := by
    decide +kernel
  exact ascii_cases (p := fun c => isNameChar c.toUpper = true → Plain c ∧ c ≠ '0') hall hsmall h

theorem not_plain_newline : ¬Plain '\n' := by decide

/-- What stands between two bars, without the blanks around it. -/
structure IsToken (tok : List Char) : Prop where
  nonempty : tok ≠ []
  trimmed : Trimmed tok
  chars : ∀ c ∈ tok, Plain c ∨ isWhitespace c = true ∧ c ≠ '\n'

theorem trim_of_plain {tok : List Char} (h : ∀ c ∈ tok, Plain c) : trim tok = tok :=
  trim_of_trimmed (trimmed_of_solid fun c hc => (h c hc).1)

theorem isToken_of_plain {tok : List Char} (hne : tok ≠ []) (h : ∀ c ∈ tok, Plain c) :
    IsToken tok where
  nonempty := hne
  trimmed := trimmed_of_solid fun c hc => (h c hc).1
  chars c hc := .inl (h c hc)

theorem Spells.plain {bs : List UInt8} {s : List Char} (h : Spells bs s) : ∀ c ∈ s, Plain c := by
  induction h with
  | nil => simp
  | cons hhi hlo _ ih => simpa using ⟨plain_digit hhi, plain_digit hlo, ih⟩

theorem Literal.plain {bs : List UInt8} {tok : List Char} (h : Literal bs tok) :
    ∀ c ∈ tok, Plain c := by
  obtain ⟨x, digits, hx, rfl, hspells⟩ := h
  rw [List.forall_mem_cons, List.forall_mem_cons]
  refine ⟨by decide, ?_, hspells.plain⟩
  rcases hx with rfl | rfl <;> decide

theorem Literal.ne_nil {bs : List UInt8} {tok : List Char} (h : Literal bs tok) : tok ≠ [] := by
  obtain ⟨x, digits, -, rfl, -⟩ := h
  exact List.cons_ne_nil _ _

theorem Literal.isToken {bs : List UInt8} {tok : List Char} (h : Literal bs tok) : IsToken tok :=
  isToken_of_plain h.ne_nil h.plain

theorem Literal.trim {bs : List UInt8} {tok : List Char} (h : Literal bs tok) :
    Text.trim tok = tok :=
  trim_of_plain h.plain

/-- A name in letters of either case. -/
def Word (name : String) (tok : List Char) : Prop := toAsciiUppercase tok = name.toList

/-- A name, blanks and a literal. -/
def NamedField (p : String × List UInt8) (tok : List Char) : Prop :=
  ∃ word gap lit, Word p.1 word ∧ gap ≠ [] ∧ Blank gap ∧ Literal p.2 lit ∧ tok = word ++ gap ++ lit

section Words

variable {name : String} {word : List Char}

theorem Word.chars (h : Word name word) (hname : IsName name) : ∀ c ∈ word, Plain c ∧ c ≠ '0' := by
  intro c hc
  have hup : c.toUpper ∈ name.toList := h ▸ List.mem_map_of_mem hc
  exact plain_nameChar (List.all_eq_true.mp hname.2 _ hup)

theorem Word.ne_nil (h : Word name word) (hname : IsName name) : word ≠ [] := by
  rintro rfl
  exact hname.1 h.symm

theorem Word.plain (h : Word name word) (hname : IsName name) : ∀ c ∈ word, Plain c := by
  intro c hc
  exact (h.chars hname c hc).1

theorem Word.isToken (h : Word name word) (hname : IsName name) : IsToken word :=
  isToken_of_plain (h.ne_nil hname) (h.plain hname)

theorem Word.hexBody (h : Word name word) (hname : IsName name) : hexBody word = none := by
  cases hword : word with
  | nil => exact absurd hword (h.ne_nil hname)
  | cons c s =>
    have hc : '0' ≠ c := ((h.chars hname c (by simp [hword])).2).symm
    simp [KeyDb.hexBody, stripStart, List.isPrefixOf, hc]

end Words

section Fields

variable {p : String × List UInt8} {tok : List Char}

theorem NamedField.isToken (h : NamedField p tok) (hname : IsName p.1) : IsToken tok := by
  obtain ⟨word, gap, lit, hword, -, hgap, hlit, rfl⟩ := h
  refine ⟨by simp [hlit.ne_nil], ⟨fun c hc => ?_, fun c hc => ?_⟩, fun c hc => ?_⟩
  · rw [List.append_assoc, List.head?_append_of_ne_nil _ (hword.ne_nil hname)] at hc
    exact (hword.plain hname c (List.mem_of_head? hc)).1
  · rw [List.getLast?_append_of_ne_nil _ hlit.ne_nil] at hc
    exact (hlit.plain c (List.mem_of_getLast? hc)).1
  · rcases List.mem_append.mp hc with hc | hc
    · rcases List.mem_append.mp hc with hc | hc
      · exact .inl (hword.plain hname c hc)
      · exact .inr (hgap c hc)
    · exact .inl (hlit.plain c hc)

/-- A named field is split into its name and its value. -/
theorem NamedField.splitNamed (h : NamedField p tok) (hname : IsName p.1) :
    ∃ word lit, splitNamed tok = .ok (word, lit) ∧ Word p.1 word ∧ Literal p.2 lit := by
  obtain ⟨word, gap, lit, hword, hne, hgap, hlit, rfl⟩ := h
  refine ⟨word, lit, ?_, hword, hlit⟩
  obtain ⟨g, gap, rfl⟩ := List.exists_cons_of_ne_nil hne
  have hg : isWhitespace g = true := (hgap g List.mem_cons_self).1
  have hsolid : ∀ c ∈ word, (!isWhitespace c) = true := fun c hc => by
    rw [(hword.plain hname c hc).1, Bool.not_false]
  have htake : (word ++ g :: gap ++ lit).takeWhile (fun c => !isWhitespace c) = word := by
    rw [List.append_assoc, List.takeWhile_append_of_pos hsolid]
    simp [hg]
  have hdrop : (word ++ g :: gap ++ lit).dropWhile (fun c => !isWhitespace c) =
      g :: gap ++ lit := by
    rw [List.append_assoc, List.dropWhile_append_of_pos hsolid]
    simp [hg]
  cases hfind : find isWhitespace (word ++ g :: gap ++ lit) with
  | none =>
    rw [find_eq_none.mp hfind g (by simp)] at hg
    cases hg
  | some idx =>
    obtain ⟨hto, hfrom⟩ := cut_of_find hfind
    rw [KeyDb.splitNamed, hfind]
    dsimp only
    rw [hto, htake, bind_ok, hfrom, hdrop, bind_ok, trim_of_plain (hword.plain hname),
      trim_append_left fun c hc => (hgap c hc).1, hlit.trim, hword.hexBody hname]
    rfl

/-- A token without blanks is a value. -/
theorem splitNamed_of_plain (h : ∀ c ∈ tok, Plain c) : splitNamed tok = .ok ([], tok) := by
  have hfind : find isWhitespace tok = none := find_eq_none.mpr fun c hc => (h c hc).1
  rw [KeyDb.splitNamed, hfind]
  dsimp only
  rw [trim_of_plain h]

end Fields

theorem toAsciiUppercase_name {name : String} (h : IsName name) :
    toAsciiUppercase name.toList = name.toList := by
  have hup : ∀ c ∈ name.toList, c.toUpper = id c := by
    intro c hc
    have hchar := List.all_eq_true.mp h.2 c hc
    simp only [isNameChar, Bool.or_eq_true, Bool.and_eq_true, decide_eq_true_eq,
      beq_iff_eq] at hchar
    apply dif_neg
    intro hz
    have hle : 97 ≤ c.toNat := UInt32.le_iff_toNat_le.mp hz.1
    omega
  rw [toAsciiUppercase, List.map_congr_left hup, List.map_id]

/-- The names of a record's fields are told apart. -/
def DistinctNames (names : List String) : Prop := (∀ name ∈ names, IsName name) ∧ names.Nodup

/-- Every field of a record is found under its name, wherever it stands. -/
theorem findNamed_of_mem {named : List (String × List UInt8)} {toks : List (List Char)}
    (h : List.Forall₂ NamedField named toks) (hnames : DistinctNames (named.map Prod.fst))
    {name : String} {bs : List UInt8} (hmem : (name, bs) ∈ named) :
    ∃ lit, findNamed name toks = .ok (some lit) ∧ Literal bs lit := by
  induction h with
  | nil => cases hmem
  | @cons p tok named toks hfield _ ih =>
    rw [List.map_cons] at hnames
    obtain ⟨hname, hrest⟩ := List.forall_mem_cons.mp hnames.1
    obtain ⟨hnotin, hnodup⟩ := List.nodup_cons.mp hnames.2
    obtain ⟨word, lit, hsplit, hword, hlit⟩ := hfield.splitNamed hname
    have hne : word ≠ [] := hword.ne_nil hname
    rw [findNamed, hsplit, bind_ok]
    dsimp only
    rcases List.mem_cons.mp hmem with rfl | hmem
    · have heq : eqIgnoreAsciiCase word name.toList = true := by
        rw [eqIgnoreAsciiCase, decide_eq_true_eq, hword, toAsciiUppercase_name hname]
      rw [if_pos ⟨hne, heq⟩]
      exact ⟨lit, rfl, hlit⟩
    · have hother : p.1 ≠ name := fun h => hnotin (h ▸ List.mem_map_of_mem hmem)
      have hneq : eqIgnoreAsciiCase word name.toList = false := by
        rw [eqIgnoreAsciiCase, decide_eq_false_iff_not, hword,
          toAsciiUppercase_name (hrest name (List.mem_map.mpr ⟨(name, bs), hmem, rfl⟩))]
        exact fun h => hother (String.toList_inj.mp h)
      rw [if_neg (by simp [hneq])]
      exact ih ⟨hrest, hnodup⟩ hmem

/-- No value is found under a name. -/
theorem findNamed_of_plain {toks : List (List Char)} (h : ∀ tok ∈ toks, ∀ c ∈ tok, Plain c)
    (name : String) :
    findNamed name toks = .ok none := by
  induction toks with
  | nil => rfl
  | cons tok toks ih =>
    obtain ⟨htok, htoks⟩ := List.forall_mem_cons.mp h
    rw [findNamed, splitNamed_of_plain htok, bind_ok]
    exact ih htoks

theorem positionalValues_of_plain {toks : List (List Char)}
    (h : ∀ tok ∈ toks, tok ≠ [] ∧ ∀ c ∈ tok, Plain c) :
    positionalValues toks = .ok toks := by
  have hsplit : toks.mapM splitNamed = .ok (toks.map fun tok => ([], tok)) :=
    mapM_eq_ok_map fun tok htok => splitNamed_of_plain (h tok htok).2
  rw [positionalValues, hsplit, bind_ok, List.filterMap_map, pure_eq, ok.injEq]
  refine (List.filterMap_congr fun tok htok => ?_).trans (List.filterMap_some)
  simpa using (h tok htok).1

def DiscValue.bytes : DiscValue → List UInt8
  | .vid key => key.toList
  | .vuk key => key.bytes.toList
  | .mek key => key.toList
  | .tk key => key.toList
  | .kcd bytes => bytes

def deviceKeyFields (record : DeviceKeyRecord) : List (String × List UInt8) :=
  [("DEVICE_KEY", record.deviceKey.toList), ("DEVICE_NODE", record.deviceNode.toList),
    ("KEY_UV", record.keyUv.toList), ("KEY_U_MASK_SHIFT", [record.keyUMaskShift])]

def hostCertFields (record : HostCertRecord) : List (String × List UInt8) :=
  [("HOST_PRIV_KEY", record.hostPrivKey.toList), ("HOST_CERT", record.hostCert)]

def driveCertFields (record : DriveCertRecord) : List (String × List UInt8) :=
  [("DRIVE_PRIV_KEY", record.drivePrivKey.toList), ("DRIVE_CERT", record.driveCert)]

/-- Some fields, each with its name, in any order. -/
def NamedFields (named : List (String × List UInt8)) (toks : List (List Char)) : Prop :=
  ∃ order : List (String × List UInt8), order.Perm named ∧ List.Forall₂ NamedField order toks

/-- The fields a record is written with, behind its leader, and the comment of its line.
A value of a disc may be named or not. -/
inductive Fields : Row → Option (List Char) → List (List Char) → Prop where
  | deviceKey {record : DeviceKeyRecord} {toks : List (List Char)}
    (htoks : NamedFields (deviceKeyFields record) toks) : Fields (.deviceKey record)
      record.comment toks
  | processingKey {record : ProcessingKey} {tok : List Char}
    (htok : Literal record.processingKey.toList tok) :
    Fields (.processingKey record) record.comment [tok]
  | hostCert {record : HostCertRecord} {toks : List (List Char)} (hlen : 4 ≤ record.hostCert.length)
    (hdeclared : beNat ((record.hostCert.drop 2).take 2) = record.hostCert.length)
    (htoks : NamedFields (hostCertFields record) toks) : Fields (.hostCert record)
      record.comment toks
  | driveCert {record : DriveCertRecord} {toks : List (List Char)}
    (htoks : NamedFields (driveCertFields record) toks) : Fields (.driveCert record)
      record.comment toks
  | discid {id : Bytes 20} {label comment : Option (List Char)} {tok : List Char}
    (htok : Literal id.toList tok) (hlabel : ∀ l ∈ label, l ≠ [] ∧ ∀ c ∈ l, Plain c) :
    Fields (.discid id label comment) comment (tok :: label.toList)
  | value {v : DiscValue} {comment : Option (List Char)} {tok : List Char}
    (htok : Literal v.bytes tok ∨ NamedField (v.leader, v.bytes) tok) : Fields (.value v)
      comment [tok]

section Reading

variable {body : List Char}

theorem requireNamed_of_mem {named : List (String × List UInt8)} {toks : List (List Char)}
    (h : NamedFields named toks) (hnames : DistinctNames (named.map Prod.fst)) (leader : String)
    {name : String} {bs : List UInt8} (hmem : (name, bs) ∈ named) :
    ∃ lit, requireNamed leader name toks body = .ok lit ∧ Literal bs lit := by
  obtain ⟨order, hperm, htoks⟩ := h
  have horder : DistinctNames (order.map Prod.fst) :=
    ⟨fun n hn => hnames.1 n ((hperm.map Prod.fst).mem_iff.mp hn),
      (hperm.map Prod.fst).nodup_iff.mpr hnames.2⟩
  obtain ⟨lit, hfind, hlit⟩ := findNamed_of_mem htoks horder (hperm.mem_iff.mpr hmem)
  exact ⟨lit, by rw [requireNamed, hfind, bind_ok, okOrElse_some], hlit⟩

theorem parseHexFixed_of_literal {bs : List UInt8} {tok : List Char} (h : Literal bs tok) {n : Nat}
    (hn : 2 * bs.length = n) (name : String) : parseHexFixed tok n name = .ok bs :=
  parseHexField_of_literal h h.trim (by simpa using hn)

theorem parseHexVar_of_literal {bs : List UInt8} {tok : List Char} (h : Literal bs tok)
    (hne : bs ≠ []) (name : String) : parseHexVar tok name = .ok bs := by
  have hlen := List.length_pos_iff.mpr hne
  refine parseHexField_of_literal h h.trim ?_
  simp only [Bool.or_eq_false_iff, decide_eq_false_iff_not]
  omega

theorem copyFrom_toList {n : Nat} (b : Bytes n) :
    (copyFrom n b.toList : Result (Bytes n)) = .ok b :=
  copyFrom_eq_ok.mpr rfl

theorem distinctNames_deviceKey :
    DistinctNames ["DEVICE_KEY", "DEVICE_NODE", "KEY_UV", "KEY_U_MASK_SHIFT"] :=
  ⟨by simp [IsName, isNameChar], by decide⟩

theorem distinctNames_hostCert : DistinctNames ["HOST_PRIV_KEY", "HOST_CERT"] :=
  ⟨by simp [IsName, isNameChar], by decide⟩

theorem distinctNames_driveCert : DistinctNames ["DRIVE_PRIV_KEY", "DRIVE_CERT"] :=
  ⟨by simp [IsName, isNameChar], by decide⟩

theorem readDk_of_fields {record : DeviceKeyRecord} {toks : List (List Char)}
    (h : NamedFields (deviceKeyFields record) toks) :
    readDk toks record.comment body = .ok record := by
  have hfind := fun name bs => @requireNamed_of_mem body _ _ h distinctNames_deviceKey "DK" name bs
  obtain ⟨dk, hdk, hdkLit⟩ := hfind "DEVICE_KEY" record.deviceKey.toList (by simp [deviceKeyFields])
  obtain ⟨node, hnode, hnodeLit⟩ :=
    hfind "DEVICE_NODE" record.deviceNode.toList (by simp [deviceKeyFields])
  obtain ⟨uv, huv, huvLit⟩ := hfind "KEY_UV" record.keyUv.toList (by simp [deviceKeyFields])
  obtain ⟨shift, hshift, hshiftLit⟩ :=
    hfind "KEY_U_MASK_SHIFT" [record.keyUMaskShift] (by simp [deviceKeyFields])
  rw [readDk, hdk, bind_ok, hnode, bind_ok, huv, bind_ok, hshift, bind_ok,
    parseHexFixed_of_literal hdkLit (by simp), mapErr_ok, bind_ok,
    parseHexFixed_of_literal hnodeLit (by simp), mapErr_ok, bind_ok,
    parseHexFixed_of_literal huvLit (by simp), mapErr_ok, bind_ok,
    parseHexFixed_of_literal hshiftLit (by simp), mapErr_ok, bind_ok,
    copyFrom_toList, bind_ok, copyFrom_toList, bind_ok, copyFrom_toList, bind_ok]
  rfl

theorem readPk_of_fields {record : ProcessingKey} {tok : List Char}
    (h : Literal record.processingKey.toList tok) :
    readPk [tok] record.comment body = .ok record := by
  have hpos : positionalValues [tok] = .ok [tok] :=
    positionalValues_of_plain (by simpa using ⟨h.ne_nil, h.plain⟩)
  rw [readPk, hpos, bind_ok, if_neg (by simp), List.getElem?_cons_zero, expect_some, bind_ok,
    parseHexFixed_of_literal h (by simp), mapErr_ok, bind_ok, copyFrom_toList]
  rfl

theorem checkHostCertLength_of_declared {cert : List UInt8} (hlen : 4 ≤ cert.length)
    (hdeclared : beNat ((cert.drop 2).take 2) = cert.length) :
    checkHostCertLength body cert = .ok () := by
  rw [checkHostCertLength, if_pos hlen, indexU16, index_of_lt (by omega : 2 < cert.length),
    index_of_lt (by omega : 2 + 1 < cert.length)]
  have htake : (cert.drop 2).take 2 = [cert.get ⟨2, by omega⟩, cert.get ⟨2 + 1, by omega⟩] := by
    rw [List.drop_eq_getElem_cons (by omega), List.drop_eq_getElem_cons (by omega)]
    rfl
  simp only [bind_ok, pure_eq]
  rw [u16FromBe_toNat, ← htake, hdeclared, if_neg (by simp)]

theorem readHc_of_fields {record : HostCertRecord} {toks : List (List Char)}
    (hlen : 4 ≤ record.hostCert.length)
    (hdeclared : beNat ((record.hostCert.drop 2).take 2) = record.hostCert.length)
    (h : NamedFields (hostCertFields record) toks) :
    readHc toks record.comment body = .ok record := by
  have hfind := fun name bs => @requireNamed_of_mem body _ _ h distinctNames_hostCert "HC" name bs
  obtain ⟨priv, hpriv, hprivLit⟩ :=
    hfind "HOST_PRIV_KEY" record.hostPrivKey.toList (by simp [hostCertFields])
  obtain ⟨cert, hcert, hcertLit⟩ := hfind "HOST_CERT" record.hostCert (by simp [hostCertFields])
  have hne : record.hostCert ≠ [] := List.length_pos_iff.mp (by omega)
  rw [readHc, hpriv, bind_ok, hcert, bind_ok, parseHexFixed_of_literal hprivLit (by simp),
    mapErr_ok, bind_ok, parseHexVar_of_literal hcertLit hne, mapErr_ok, bind_ok,
    checkHostCertLength_of_declared hlen
      hdeclared, bind_ok,
    copyFrom_toList]
  rfl

theorem readDc_of_fields {record : DriveCertRecord} {toks : List (List Char)}
    (hne : record.driveCert ≠ []) (h : NamedFields (driveCertFields record) toks) :
    readDc toks record.comment body = .ok record := by
  have hfind := fun name bs => @requireNamed_of_mem body _ _ h distinctNames_driveCert "DC" name bs
  obtain ⟨priv, hpriv, hprivLit⟩ :=
    hfind "DRIVE_PRIV_KEY" record.drivePrivKey.toList (by simp [driveCertFields])
  obtain ⟨cert, hcert, hcertLit⟩ := hfind "DRIVE_CERT" record.driveCert (by simp [driveCertFields])
  rw [readDc, hpriv, bind_ok, hcert, bind_ok, parseHexFixed_of_literal hprivLit (by simp),
    mapErr_ok, bind_ok, parseHexVar_of_literal hcertLit hne, mapErr_ok, bind_ok, copyFrom_toList]
  rfl

theorem readDiscid_of_fields {id : Bytes 20} {label : Option (List Char)} {tok : List Char}
    (h : Literal id.toList tok) (hlabel : ∀ l ∈ label, l ≠ [] ∧ ∀ c ∈ l, Plain c) :
    readDiscid (tok :: label.toList) body = .ok (id, label) := by
  have hpos : positionalValues (tok :: label.toList) = .ok (tok :: label.toList) := by
    refine positionalValues_of_plain
      (List.forall_mem_cons.mpr ⟨⟨h.ne_nil, h.plain⟩, fun l hl => ?_⟩)
    exact hlabel l (Option.mem_toList.mp hl)
  rw [readDiscid, hpos, bind_ok, if_neg (List.cons_ne_nil _ _), List.getElem?_cons_zero,
    expect_some, bind_ok, parseHexFixed_of_literal h (by simp), mapErr_ok, bind_ok,
    copyFrom_toList, bind_ok]
  cases label with
  | none => rfl
  | some l => simp [join]

/-- The value of a scoped row, named or not. -/
theorem readScoped_of_fields {α : Type} {leader : String} {read : List Char → Outcome String α}
    {bs : List UInt8}
    {a : α} (hname : IsName leader) (hread : ∀ lit, Literal bs lit → read lit = .ok a)
    {tok : List Char} (h : Literal bs tok ∨ NamedField (leader, bs) tok) :
    readScoped [tok] body leader read = .ok a := by
  have hvalue : ∃ lit, positionalOrNamed [tok] leader body = .ok lit ∧ Literal bs lit := by
    rcases h with h | h
    · refine ⟨tok, ?_, h⟩
      have hpos : positionalValues [tok] = .ok [tok] :=
        positionalValues_of_plain (by simpa using ⟨h.ne_nil, h.plain⟩)
      rw [positionalOrNamed, findNamed_of_plain (by simpa using h.plain), bind_ok]
      dsimp only
      rw [hpos, bind_ok]
      rfl
    · obtain ⟨lit, hfind, hlit⟩ := findNamed_of_mem (.cons h .nil)
        ⟨by simpa using hname, List.nodup_singleton leader⟩ List.mem_cons_self
      exact ⟨lit, by rw [positionalOrNamed, hfind]; rfl, hlit⟩
  obtain ⟨lit, hlit, hliteral⟩ := hvalue
  rw [readScoped, hlit, bind_ok, hread lit hliteral, mapErr_ok]

theorem readKey_of_literal (name : String) {key : Bytes 16} {lit : List Char}
    (h : Literal key.toList lit) :
    readKey name lit = .ok key := by
  rw [readKey, parseHexFixed_of_literal h (by simp), bind_ok]
  exact copyFrom_eq_ok.mpr rfl

/-- The data whose decoder refuses an empty literal. -/
def Row.NotEmpty : Row → Prop
  | .driveCert record => record.driveCert ≠ []
  | .value (.kcd bytes) => bytes ≠ []
  | _ => True

/-- A record that is written is read. -/
theorem readRecord_of_fields {row : Row} {comment : Option (List Char)} {toks : List (List Char)}
    (h : Fields row comment toks) (hne : row.NotEmpty) {leader : String}
    (hleader : row.leader = some leader) :
    readRecord toks comment body leader = .ok row := by
  cases h with
  | deviceKey htoks =>
    cases hleader
    unfold readRecord
    rw [readDk_of_fields htoks]
    rfl
  | processingKey htok =>
    cases hleader
    unfold readRecord
    rw [readPk_of_fields htok]
    rfl
  | hostCert hlen hdeclared htoks =>
    cases hleader
    unfold readRecord
    rw [readHc_of_fields hlen hdeclared htoks]
    rfl
  | driveCert htoks =>
    cases hleader
    unfold readRecord
    rw [readDc_of_fields hne htoks]
    rfl
  | discid htok hlabel =>
    cases hleader
    unfold readRecord
    rw [readDiscid_of_fields htok hlabel]
    rfl
  | @value v comment tok htok =>
    cases hleader
    cases v with
    | vid key =>
      have hread := @readScoped_of_fields body _ "VID" (readKey "VID") key.toList key
        (by simp [IsName, isNameChar]) (fun lit => readKey_of_literal "VID") tok htok
      exact congrArg ((Row.value ∘ DiscValue.vid) <$> ·) hread
    | vuk key =>
      have hread := @readScoped_of_fields body _ "VUK" (readKey "VUK") key.bytes.toList key.bytes
        (by simp [IsName, isNameChar]) (fun lit => readKey_of_literal "VUK") tok htok
      exact congrArg ((fun v => Row.value (.vuk ⟨v⟩)) <$> ·) hread
    | mek key =>
      have hread := @readScoped_of_fields body _ "MEK" (readKey "MEK") key.toList key
        (by simp [IsName, isNameChar]) (fun lit => readKey_of_literal "MEK") tok htok
      exact congrArg ((Row.value ∘ DiscValue.mek) <$> ·) hread
    | tk key =>
      have hread := @readScoped_of_fields body _ "TK" (readKey "TK") key.toList key
        (by simp [IsName, isNameChar]) (fun lit => readKey_of_literal "TK") tok htok
      exact congrArg ((Row.value ∘ DiscValue.tk) <$> ·) hread
    | kcd bytes =>
      have hread := @readScoped_of_fields body _ "KCD" (parseHexVar · "KCD") bytes bytes
        (by simp [IsName, isNameChar]) (fun lit h => parseHexVar_of_literal h hne "KCD") tok htok
      exact congrArg ((Row.value ∘ DiscValue.kcd) <$> ·) hread

end Reading

theorem isName_leader {row : Row} {leader : String} (h : row.leader = some leader) :
    IsName leader := by
  cases row with
  | entry e => cases h
  | value v => cases v <;> cases h <;> simp [IsName, isNameChar, DiscValue.leader]
  | _ =>
    cases h
    simp [IsName, isNameChar]

/-- Every field is a token. -/
theorem Fields.isToken {row : Row} {comment : Option (List Char)} {toks : List (List Char)}
    (h : Fields row comment toks) : ∀ tok ∈ toks, IsToken tok := by
  have hnamed : ∀ {named : List (String × List UInt8)} {toks : List (List Char)},
    NamedFields named toks →
      DistinctNames (named.map Prod.fst) → ∀ tok ∈ toks, IsToken tok := by
    rintro named toks ⟨order, hperm, htoks⟩ hnames tok htok
    have horder : ∀ p ∈ order, IsName p.1 := fun p hp =>
      hnames.1 p.1 (List.mem_map_of_mem (hperm.mem_iff.mp hp))
    clear hperm
    induction htoks with
    | nil => cases htok
    | cons hfield _ ih =>
      obtain ⟨hname, hrest⟩ := List.forall_mem_cons.mp horder
      rcases List.mem_cons.mp htok with rfl | htok
      · exact hfield.isToken hname
      · exact ih htok hrest
  cases h with
  | deviceKey htoks => exact hnamed htoks distinctNames_deviceKey
  | processingKey htok => simpa using htok.isToken
  | hostCert _ _ htoks => exact hnamed htoks distinctNames_hostCert
  | driveCert htoks => exact hnamed htoks distinctNames_driveCert
  | discid htok hlabel =>
    refine List.forall_mem_cons.mpr ⟨htok.isToken, fun l hl => ?_⟩
    obtain ⟨hne, hchars⟩ := hlabel l (Option.mem_toList.mp hl)
    exact isToken_of_plain hne hchars
  | @value v comment tok htok =>
    simp only [List.mem_singleton, forall_eq]
    rcases htok with htok | htok
    · exact htok.isToken
    · exact htok.isToken (@isName_leader (.value v) _ rfl)

/-- A token and the blanks around it. -/
def Padded (tok cell : List Char) : Prop := ∃ a b, Blank a ∧ Blank b ∧ cell = a ++ tok ++ b

/-- Cells between bars: the first bar stands behind blanks, and one may stand behind the last cell.
-/
def Barred (toks : List (List Char)) (body : List Char) : Prop :=
  ∃ lead cells closing, Blank lead ∧ List.Forall₂ Padded toks cells ∧
    (closing = [] ∨ ∃ trail, Blank trail ∧ closing = [trail]) ∧
    body = ['|'].intercalate (lead :: (cells ++ closing))

/-- What follows the row of a line: nothing, or a semicolon and a comment. -/
def Commented (comment : Option (List Char)) (rest : List Char) : Prop :=
  rest = [] ∧ comment = none ∨
    ∃ text, '\n' ∉ text ∧ rest = ';' :: text ∧ comment = (some (trim text)).filter (· ≠ [])

/-- The lines that a record can be written as. -/
def Renders (row : Row) (raw : List Char) : Prop :=
  ∃ leader word toks comment body rest, row.leader = some leader ∧ Word leader word ∧
    Fields row comment toks ∧
    Barred (word :: toks) body ∧ Commented comment rest ∧ raw = body ++ rest

theorem IsToken.not_mem {tok : List Char} (h : IsToken tok) :
    '|' ∉ tok ∧ ';' ∉ tok ∧ '\n' ∉ tok := by
  refine ⟨fun hc => ?_, fun hc => ?_, fun hc => ?_⟩
  · rcases h.chars _ hc with ⟨-, hbar, -⟩ | ⟨hws, -⟩
    · exact hbar rfl
    · cases hws
  · rcases h.chars _ hc with ⟨-, -, hsemi⟩ | ⟨hws, -⟩
    · exact hsemi rfl
    · cases hws
  · rcases h.chars _ hc with hplain | ⟨-, hne⟩
    · exact not_plain_newline hplain
    · exact hne rfl

theorem blank_not_mem {s : List Char} (h : Blank s) : '|' ∉ s ∧ ';' ∉ s ∧ '\n' ∉ s :=
  ⟨fun hc => by simpa [isWhitespace] using (h _ hc).1,
    fun hc => by simpa [isWhitespace] using (h _ hc).1, fun hc => (h _ hc).2 rfl⟩

theorem Padded.not_mem {tok cell : List Char} (h : Padded tok cell) (htok : IsToken tok) :
    '|' ∉ cell ∧ ';' ∉ cell ∧ '\n' ∉ cell := by
  obtain ⟨a, b, ha, hb, rfl⟩ := h
  have ha := blank_not_mem ha
  have hb := blank_not_mem hb
  have htok := htok.not_mem
  simp_all

theorem Padded.trim {tok cell : List Char} (h : Padded tok cell) (htok : IsToken tok) :
    Text.trim cell = tok := by
  obtain ⟨a, b, ha, hb, rfl⟩ := h
  rw [trim_append_right fun c hc => (hb c hc).1, trim_append_left fun c hc => (ha c hc).1,
    trim_of_trimmed htok.trimmed]

theorem mem_intercalate {x c : Char} {cells : List (List Char)} (h : c ∈ [x].intercalate cells) :
    c = x ∨ ∃ cell ∈ cells, c ∈ cell := by
  induction cells with
  | nil => cases h
  | cons cell cells ih =>
    cases cells with
    | nil =>
      rw [List.intercalate_singleton] at h
      exact .inr ⟨cell, List.mem_cons_self, h⟩
    | cons next cells =>
      rw [List.intercalate_cons_cons, List.mem_append, List.mem_append, List.mem_singleton] at h
      rcases h with (h | h) | h
      · exact .inr ⟨cell, List.mem_cons_self, h⟩
      · exact .inl h
      · exact (ih h).imp_right fun ⟨cell', hmem, hc⟩ => ⟨cell', List.mem_cons_of_mem cell hmem, hc⟩

theorem not_mem_intercalate {x c : Char} {cells : List (List Char)} (hc : c ≠ x)
    (h : ∀ cell ∈ cells, c ∉ cell) :
    c ∉ [x].intercalate cells := by
  intro hmem
  rcases mem_intercalate hmem with rfl | ⟨cell, hcell, hmem⟩
  · exact hc rfl
  · exact h cell hcell hmem

theorem cells_of_padded {toks cells : List (List Char)} (h : List.Forall₂ Padded toks cells)
    (htoks : ∀ tok ∈ toks, IsToken tok) :
    (∀ cell ∈ cells, '|' ∉ cell ∧ ';' ∉ cell ∧ '\n' ∉ cell) ∧ cells.map Text.trim = toks := by
  induction h with
  | nil => simp
  | cons hcell _ ih =>
    obtain ⟨htok, htoks⟩ := List.forall_mem_cons.mp htoks
    obtain ⟨hcells, htrim⟩ := ih htoks
    exact ⟨List.forall_mem_cons.mpr ⟨hcell.not_mem htok, hcells⟩,
      by rw [List.map_cons, hcell.trim htok, htrim]⟩

section Rows

variable {toks : List (List Char)} {body : List Char}

/-- The tokens of a row, and neither a comment nor a line end in it. -/
theorem Barred.cells (h : Barred toks body) (htoks : ∀ tok ∈ toks, IsToken tok) (hne : toks ≠ []) :
    ';' ∉ body ∧ '\n' ∉ body ∧ (Text.trim body).head? = some '|' ∧
      ∃ closing : List (List Char), (∀ c ∈ closing, c = []) ∧
        pipeTokenize (Text.trim body) = [] :: (toks ++ closing) := by
  obtain ⟨lead, cells, closing, hlead, hcells, hclosing, rfl⟩ := h
  obtain ⟨hcellChars, hcellTrim⟩ := cells_of_padded hcells htoks
  have hclosingBlank : ∀ c ∈ closing, Blank c := by
    rcases hclosing with rfl | ⟨trail, htrail, rfl⟩
    · simp
    · simpa using htrail
  have hchars : ∀ cell ∈ lead :: (cells ++ closing), '|' ∉ cell ∧ ';' ∉ cell ∧ '\n' ∉ cell := by
    refine List.forall_mem_cons.mpr ⟨blank_not_mem hlead, fun cell hcell => ?_⟩
    exact (List.mem_append.mp hcell).elim (hcellChars cell) fun hc =>
      blank_not_mem (hclosingBlank cell hc)
  have hsemi : ';' ∉ ['|'].intercalate (lead :: (cells ++ closing)) :=
    not_mem_intercalate (by decide) fun cell hcell => (hchars cell hcell).2.1
  have hnewline : '\n' ∉ ['|'].intercalate (lead :: (cells ++ closing)) :=
    not_mem_intercalate (by decide) fun cell hcell => (hchars cell hcell).2.2
  have hpipe : isWhitespace '|' = false := by rfl
  refine ⟨hsemi, hnewline, ?_, closing.map Text.trim, ?_, ?_⟩
  · have hcellsNe : cells ++ closing ≠ [] := by
      intro hnil
      rw [(List.append_eq_nil_iff.mp hnil).1] at hcellTrim
      exact hne hcellTrim.symm
    obtain ⟨next, rest, hnext⟩ := List.exists_cons_of_ne_nil hcellsNe
    rw [hnext, List.intercalate_cons_cons, List.append_assoc]
    exact head?_trim hpipe (fun c hc => (hlead c hc).1) _
  · intro c hc
    obtain ⟨cell, hcell, rfl⟩ := List.mem_map.mp hc
    exact trim_blank fun c hc => (hclosingBlank cell hcell c hc).1
  · have htokens := splitTrim_trim hpipe (['|'].intercalate (lead :: (cells ++ closing)))
    rw [splitTrim_intercalate (List.cons_ne_nil _ _) fun cell hcell => (hchars cell hcell).1,
      List.map_cons, List.map_append, hcellTrim, trim_blank fun c hc => (hlead c hc).1] at htokens
    exact htokens

theorem recordTokens_of_barred {word : List Char} {leader : String} (h : Barred (word :: toks) body)
    (hword : Word leader word) (hwordToken : IsToken word) (htoks : ∀ tok ∈ toks, IsToken tok) :
    recordTokens (Text.trim body) = .ok (leader, toks) := by
  obtain ⟨-, -, -, closing, hclosing, htokens⟩ :=
    h.cells (List.forall_mem_cons.mpr ⟨hwordToken, htoks⟩) nofun
  have hall : ∀ tok ∈ word :: toks, decide (tok ≠ []) = true := fun tok htok =>
    decide_eq_true ((List.forall_mem_cons.mpr ⟨hwordToken, htoks⟩ : ∀ t ∈ word :: toks, IsToken t)
      tok htok).nonempty
  have hnone : ∀ c ∈ closing, ¬decide (c ≠ []) = true := fun c hc => by simp [hclosing c hc]
  have hfilter : ([] :: (word :: toks ++ closing)).filter (· ≠ []) = word :: toks := by
    rw [List.filter_cons_of_neg (by simp), List.filter_append, List.filter_eq_self.mpr hall,
      List.filter_eq_nil_iff.mpr hnone, List.append_nil]
  rw [recordTokens, htokens, if_neg (by simp), hfilter]
  dsimp only
  rw [hword, String.ofList_toList]

end Rows

theorem lineBody_of_not_mem {raw : List Char} (h : ';' ∉ raw) :
    lineBody raw = Text.trim raw ∧ lineComment raw = none := by
  have hall : ∀ c ∈ raw, (!decide (c = ';')) = true := fun c hc => by
    rw [Bool.not_eq_true', decide_eq_false_iff_not]
    exact fun hsemi => h (hsemi ▸ hc)
  rw [lineBody, lineComment, List.takeWhile_eq_self_iff.mpr hall, if_neg h]
  exact ⟨rfl, rfl⟩

/-- A line is divided at its first semicolon. -/
theorem lineBody_append {body : List Char} (h : ';' ∉ body) (text : List Char) :
    lineBody (body ++ ';' :: text) = Text.trim body ∧
      lineComment (body ++ ';' :: text) = (some (Text.trim text)).filter (· ≠ []) := by
  have hall : ∀ c ∈ body, (!decide (c = ';')) = true := fun c hc => by
    rw [Bool.not_eq_true', decide_eq_false_iff_not]
    exact fun hsemi => h (hsemi ▸ hc)
  rw [lineBody, lineComment, List.takeWhile_append_of_pos hall, List.dropWhile_append_of_pos hall,
    if_pos (List.mem_append_right body List.mem_cons_self)]
  simp

/-- A row without a semicolon is told from the comment behind it. -/
theorem Commented.line {body rest : List Char} {comment : Option (List Char)}
    (h : Commented comment rest)
    (hsemi : ';' ∉ body) : lineBody (body ++ rest) = Text.trim body ∧ lineComment (body ++ rest) =
      comment := by
  rcases h with ⟨rfl, rfl⟩ | ⟨text, -, rfl, rfl⟩
  · rw [List.append_nil]
    exact lineBody_of_not_mem hsemi
  · exact lineBody_append hsemi text

/-- A line with the tokens of a record, and a comment or not, is read as the record. -/
theorem rowOf_of_barred {leader : String} {word body rest : List Char} {toks : List (List Char)}
    {comment : Option (List Char)} {row : Row} (hname : IsName leader) (hword : Word leader word)
    (htoks : ∀ tok ∈ toks, IsToken tok) (hbarred : Barred (word :: toks) body)
    (hcomment : Commented comment rest)
    (hread : readRecord toks comment (Text.trim body) leader = .ok row) :
    rowOf (body ++ rest) = some row := by
  have hwordToken := hword.isToken hname
  obtain ⟨hsemi, -, hbar, -⟩ :=
    hbarred.cells (List.forall_mem_cons.mpr ⟨hwordToken, htoks⟩) (List.cons_ne_nil _ _)
  have hline := hcomment.line hsemi
  have hnil : Text.trim body ≠ [] := by
    intro hnil
    rw [hnil] at hbar
    cases hbar
  have hrow : readRow (Text.trim body) comment = .ok row := by
    rw [readRow, if_pos hbar, recordTokens_of_barred hbarred hword hwordToken htoks, bind_ok]
    exact hread
  rw [rowOf, hline.1, if_neg hnil, hline.2, hrow]

/-- A line that renders a record is read as the record. -/
theorem rowOf_of_renders {row : Row} {raw : List Char} (h : Renders row raw) (hne : row.NotEmpty) :
    rowOf raw = some row := by
  obtain ⟨leader, word, toks, comment, body, rest, hleader, hword, hfields, hbarred,
    hcomment, rfl⟩ := h
  exact rowOf_of_barred (isName_leader hleader) hword hfields.isToken hbarred hcomment
    (readRecord_of_fields hfields hne hleader)

/-- A carriage return at the end of a line is one more blank. -/
theorem line_carriageReturn (raw : List Char) :
    lineBody (raw ++ ['\r']) = lineBody raw ∧ lineComment (raw ++ ['\r']) = lineComment raw := by
  have hcr : isWhitespace '\r' = true := by rfl
  by_cases hsemi : ';' ∈ raw
  · obtain ⟨body, text, rfl, hbody⟩ := List.eq_append_cons_of_mem hsemi
    have hline := lineBody_append hbody text
    have hlineCr := lineBody_append hbody (text ++ ['\r'])
    rw [trim_concat hcr] at hlineCr
    rw [List.append_assoc, List.cons_append, hline.1, hline.2, hlineCr.1, hlineCr.2]
    exact ⟨rfl, rfl⟩
  · have hline := lineBody_of_not_mem hsemi
    have hlineCr := @lineBody_of_not_mem (raw ++ ['\r']) (by simpa using hsemi)
    rw [hline.1, hline.2, hlineCr.1, hlineCr.2, trim_concat hcr]
    exact ⟨rfl, rfl⟩

/-- A line and the line without its carriage return are read as one. -/
theorem line_stripCarriageReturn (raw : List Char) :
    lineBody (stripCarriageReturn raw) = lineBody raw ∧
      lineComment (stripCarriageReturn raw) = lineComment raw := by
  rw [stripCarriageReturn]
  split
  · next h =>
    obtain ⟨init, rfl⟩ := List.getLast?_eq_some_iff.mp h
    rw [List.dropLast_concat, (line_carriageReturn init).1, (line_carriageReturn init).2]
    exact ⟨rfl, rfl⟩
  · exact ⟨rfl, rfl⟩

theorem rowOf_stripCarriageReturn (raw : List Char) :
    rowOf (stripCarriageReturn raw) = rowOf raw := by
  rw [rowOf, rowOf, (line_stripCarriageReturn raw).1, (line_stripCarriageReturn raw).2]

theorem lineFields_stripCarriageReturn (raw : List Char) :
    lineFields (stripCarriageReturn raw) = lineFields raw := by
  have hbody := (line_stripCarriageReturn raw).1
  rw [lineBody, lineBody] at hbody
  rw [lineFields, lineFields, hbody]

end KeyDb
