import Aacs.ContentCertificate
import Aacs.ContentHashTable

/-!
# The content a certificate stands for

The certificate holds the digest of a table, the table the hash values of the units of a
layer. Whoever passes both checks holds the content that was certified, or two byte
strings with one hash value.
-/

section Collides

variable {α δ : Type} {h : α → δ}

/-- Two inputs with one hash. -/
def Collides (h : α → δ) (a b : α) : Prop := a ≠ b ∧ h a = h b

theorem eq_or_collides {a b : α} (hab : h a = h b) : a = b ∨ Collides h a b := by
  by_cases heq : a = b
  · exact .inl heq
  · exact .inr ⟨heq, hab⟩

/-- Two lists with the same hashes. -/
theorem map_eq_or_collides {as bs : List α} (hab : as.map h = bs.map h) :
    as = bs ∨ ∃ a ∈ as, ∃ b ∈ bs, Collides h a b := by
  induction as generalizing bs with
  | nil => exact .inl (List.map_eq_nil_iff.mp hab.symm).symm
  | cons a as ih =>
    cases bs with
    | nil => cases hab
    | cons b bs =>
      rw [List.map_cons, List.map_cons, List.cons.injEq] at hab
      rcases eq_or_collides hab.1 with heq | hcollides
      · rcases ih hab.2 with htail | ⟨x, hx, y, hy, hxy⟩
        · exact .inl (by rw [heq, htail])
        · exact .inr ⟨x, List.mem_cons_of_mem _ hx, y, List.mem_cons_of_mem _ hy, hxy⟩
      · exact .inr ⟨a, List.mem_cons_self, b, List.mem_cons_self, hcollides⟩

end Collides

namespace ContentHashTable

def logicalSectorSize : Nat := 2048

def logicalSectorsPerHashUnit : Nat := 96

def hashUnitSize : Nat := logicalSectorsPerHashUnit * logicalSectorSize

/-- `[SHA-1(Hash_Unit)]_lsb_64`. -/
def hashValueOfUnit (hashUnit : List UInt8) : Bytes 8 := (Sha1.sha1 hashUnit).slice 12 8

def len (t : ContentHashTable) : Nat := t.hashValues.length

def isEmpty (t : ContentHashTable) : Bool := t.hashValues.isEmpty

/-- The errors of `verify_hash_unit`, one of which no other function gives. -/
inductive UnitError where
  | invalidValue (what : String) (value : Nat)
  | badHashUnitLength (len : Nat)
  | contentHashMismatch (index : Nat)
  deriving DecidableEq

def verifyHashUnit (t : ContentHashTable) (hashUnitIndex : Nat) (hashUnitBytes : List UInt8) :
    Outcome UnitError Unit := do
  let stored ← Outcome.okOr t.hashValues[hashUnitIndex]?
    (.invalidValue "Content Hash Table hash-unit index" hashUnitIndex)
  Outcome.refuseIf (hashUnitBytes.length ≠ hashUnitSize) (.badHashUnitLength hashUnitBytes.length)
  Outcome.refuseIf (hashValueOfUnit hashUnitBytes ≠ stored) (.contentHashMismatch hashUnitIndex)

/-- A descriptor on disc. -/
def record (d : ClipDescriptor) : List UInt8 :=
  u32ToBe d.startingHuNum ++ u32ToBe d.clipNum ++ u32ToBe d.huOffsetInClip

/-- The table on disc. -/
def layout (t : ContentHashTable) : List UInt8 :=
  t.clips.flatMap record ++ t.hashValues.flatMap Bytes.toList

variable {t : ContentHashTable} {bytes : List UInt8}

@[simp] theorem length_record (d : ClipDescriptor) : (record d).length = 12 := rfl

theorem length_layout (t : ContentHashTable) :
    t.layout.length = t.clips.length * 12 + t.hashValues.length * 8 := by
  rw [layout, List.length_append, length_flatMap_const (fun d _ => length_record d),
    length_flatMap_const (fun v _ => v.length_toList)]

/-- Three words, one behind the other. -/
theorem take_record {d : ClipDescriptor} {l : List UInt8} : l.take 12 = record d ↔
    l.take 4 = u32ToBe d.startingHuNum ∧ (l.drop 4).take 4 = u32ToBe d.clipNum ∧
      (l.drop 8).take 4 = u32ToBe d.huOffsetInClip := by
  have hsplit : l.take 12 = l.take 4 ++ (l.drop 4).take 4 ++ (l.drop 8).take 4 := by
    rw [show 12 = 4 + 4 + 4 by rfl, List.take_add, List.take_add]
  rw [hsplit, record]
  constructor
  · intro h
    have hlen : (l.take 12).length = 12 := by rw [hsplit, h, ← record, length_record]
    rw [List.length_take] at hlen
    obtain ⟨hfirst, hthird⟩ := List.append_inj h (by simp; omega)
    obtain ⟨hfirst, hsecond⟩ := List.append_inj hfirst (by simp; omega)
    exact ⟨hfirst, hsecond, hthird⟩
  · rintro ⟨h₁, h₂, h₃⟩
    rw [h₁, h₂, h₃]

theorem clipLoop_eq_ok {n cursor : Nat} {r : List ClipDescriptor × Nat}
    (hlen : cursor + n * 12 ≤ bytes.length) :
    clipLoop bytes n cursor = .ok r ↔
      r.1.length = n ∧ (bytes.drop cursor).take (n * 12) = r.1.flatMap record ∧ r.2 =
        cursor + n * 12 := by
  induction n generalizing cursor r with
  | zero =>
    rw [clipLoop, Outcome.pure_eq, Outcome.ok.injEq, Prod.ext_iff, Nat.zero_mul, List.take_zero,
      List.length_eq_zero_iff]
    constructor
    · rintro ⟨hnil, hcursor⟩
      rw [← hnil, ← hcursor]
      exact ⟨rfl, rfl, rfl⟩
    · rintro ⟨hnil, -, hcursor⟩
      exact ⟨hnil.symm, hcursor.symm⟩
  | succ n ih =>
    have hn : (n + 1) * 12 = 12 + n * 12 := by ring
    rw [hn] at hlen ⊢
    simp only [clipLoop, Outcome.bind_eq_ok, Outcome.indexU32_eq_ok, Outcome.pure_eq,
      Outcome.ok.injEq]
    constructor
    · rintro ⟨start, hstart, clip, hclip, offset, hoffset, rest, hrest, rfl⟩
      obtain ⟨hcount, hrecords, hcursor⟩ := (ih (by omega)).mp hrest
      have hrecord : (bytes.drop cursor).take 12 = record ⟨start, clip, offset⟩ :=
        take_record.mpr ⟨hstart, by rwa [List.drop_drop], by rwa [List.drop_drop]⟩
      refine ⟨by rw [List.length_cons, hcount], ?_, by rw [hcursor]; omega⟩
      rw [List.take_add, List.drop_drop, hrecord, hrecords, List.flatMap_cons]
    · rintro ⟨hcount, hrecords, hcursor⟩
      rcases r with ⟨ds, c⟩
      cases ds with
      | nil => cases hcount
      | cons d ds =>
        rw [List.take_add, List.drop_drop, List.flatMap_cons] at hrecords
        obtain ⟨hrecord, hrecords⟩ := List.append_inj hrecords (by simp; omega)
        obtain ⟨hstart, hclip, hoffset⟩ := take_record.mp hrecord
        rw [List.drop_drop] at hclip hoffset
        refine ⟨d.startingHuNum, hstart, d.clipNum, hclip, d.huOffsetInClip, hoffset,
          (ds, c), ?_, rfl⟩
        exact (ih (by omega)).mpr ⟨Nat.succ.inj hcount, hrecords, hcursor.trans (by omega)⟩

theorem parse_eq_ok {numberOfDigests numberOfHashUnits : UInt32} :
    parse bytes numberOfDigests numberOfHashUnits = .ok t ↔
      t.clips.length = numberOfDigests.toNat ∧ t.hashValues.length = numberOfHashUnits.toNat ∧
        t.layout <+: bytes := by
  have hleading : t.layout <+: bytes ↔ bytes.take t.layout.length = t.layout :=
    List.prefix_iff_eq_take.trans eq_comm
  rw [hleading, length_layout]
  simp only [parse, Outcome.bind_eq_ok, Outcome.refuseIf_eq_ok, Outcome.pure_eq, Outcome.ok.injEq,
    exists_const, Nat.not_lt]
  constructor
  · rintro ⟨hlen, clips, hclips, values, hvalues, rfl⟩
    obtain ⟨hcount, hrecords, hcursor⟩ := (clipLoop_eq_ok (by omega)).mp hclips
    rw [Nat.zero_add] at hcursor
    rw [hcursor] at hvalues
    obtain ⟨hunits, hbytes⟩ := (Outcome.readArrays_eq_ok (by omega)).mp hvalues
    refine ⟨hcount, hunits, ?_⟩
    dsimp only
    rw [hcount, hunits, List.take_add, hbytes, layout, ← hrecords, List.drop_zero]
  · rintro ⟨hcount, hunits, hlayout⟩
    have hlen : (bytes.take (t.clips.length * 12 + t.hashValues.length * 8)).length =
      t.layout.length := by rw [hlayout]
    rw [List.length_take, length_layout] at hlen
    rw [List.take_add, layout] at hlayout
    obtain ⟨hrecords, hbytes⟩ := List.append_inj hlayout (by
      rw [List.length_take, length_flatMap_const (fun d _ => length_record d)]
      omega)
    rw [← hcount, ← hunits]
    refine ⟨by omega, (t.clips, t.clips.length * 12), ?_, t.hashValues, ?_, rfl⟩
    · exact (clipLoop_eq_ok (by omega)).mpr ⟨rfl, hrecords, (Nat.zero_add _).symm⟩
    · exact (Outcome.readArrays_eq_ok (by dsimp only; omega)).mpr ⟨rfl, hbytes⟩

theorem indexU32_of_le (bytes : List UInt8) (offset : Nat) (h : offset + 4 ≤ bytes.length) :
    ∃ v, (Outcome.indexU32 bytes offset : Result UInt32) = .ok v := by
  rw [Outcome.indexU32, Outcome.index_of_lt (by omega), Outcome.bind_ok,
    Outcome.index_of_lt (by omega), Outcome.bind_ok, Outcome.index_of_lt (by omega),
    Outcome.bind_ok, Outcome.index_of_lt (by omega), Outcome.bind_ok]
  exact ⟨_, rfl⟩

theorem clipLoop_of_le (bytes : List UInt8) (n cursor : Nat) (h : cursor + n * 12 ≤ bytes.length) :
    ∃ r, clipLoop bytes n cursor = .ok r := by
  induction n generalizing cursor with
  | zero => exact ⟨_, rfl⟩
  | succ n ih =>
    obtain ⟨start, hstart⟩ := indexU32_of_le bytes cursor (by omega)
    obtain ⟨clip, hclip⟩ := indexU32_of_le bytes (cursor + 4) (by omega)
    obtain ⟨offset, hoffset⟩ := indexU32_of_le bytes (cursor + 8) (by omega)
    obtain ⟨rest, hrest⟩ := ih (cursor + 12) (by omega)
    rw [clipLoop, hstart, Outcome.bind_ok, hclip, Outcome.bind_ok, hoffset, Outcome.bind_ok, hrest]
    exact ⟨_, rfl⟩

theorem readArrays_of_le (bytes : List UInt8) (n count offset : Nat)
    (h : offset + count * n ≤ bytes.length) :
    ∃ as, (Outcome.readArrays n count bytes offset : Result _) = .ok as := by
  induction count generalizing offset with
  | zero => exact ⟨[], rfl⟩
  | succ count ih =>
    rw [Nat.succ_mul] at h
    obtain ⟨as, has⟩ := ih (offset + n) (by omega)
    rw [Outcome.readArrays, Outcome.readArray_of_le (by omega), Outcome.bind_ok, has]
    exact ⟨_, rfl⟩

theorem parse_of_le {numberOfDigests numberOfHashUnits : UInt32}
    (h : numberOfDigests.toNat * 12 + numberOfHashUnits.toNat * 8 ≤ bytes.length) :
    ∃ t, parse bytes numberOfDigests numberOfHashUnits = .ok t := by
  obtain ⟨clips, hclips⟩ := clipLoop_of_le bytes numberOfDigests.toNat 0 (by omega)
  have hcursor := clipLoop_cursor hclips
  obtain ⟨values, hvalues⟩ := readArrays_of_le bytes 8 numberOfHashUnits.toNat clips.2 (by omega)
  rw [parse, Outcome.refuseIf_neg (Nat.not_lt.mpr h), Outcome.bind_ok, hclips,
    Outcome.bind_ok, hvalues]
  exact ⟨_, rfl⟩

theorem verifyHashUnit_eq_ok {i : Nat} {unit : List UInt8} : t.verifyHashUnit i unit = .ok () ↔
    unit.length = hashUnitSize ∧ t.hashValues[i]? = some (hashValueOfUnit unit) := by
  simp only [verifyHashUnit, Outcome.bind_eq_ok, Outcome.okOr_eq_ok, Outcome.refuseIf_eq_ok,
    not_not, exists_const]
  constructor
  · rintro ⟨stored, hstored, hlen, rfl⟩
    exact ⟨hlen, hstored⟩
  · rintro ⟨hlen, hstored⟩
    exact ⟨_, hstored, hlen, rfl⟩

/-- With any two counts: a byte string is accepted exactly when it starts with a table of so
many descriptors and hash values, which is the table read. -/
theorem parse_exact (bytes : List UInt8) (numberOfDigests numberOfHashUnits : UInt32) :
    (∀ t, parse bytes numberOfDigests numberOfHashUnits = .ok t ↔ t.clips.length =
      numberOfDigests.toNat ∧ t.len = numberOfHashUnits.toNat ∧ ∃ rest, bytes = t.layout ++ rest) ∧
    (∀ e, parse bytes numberOfDigests numberOfHashUnits = .err e ↔
      bytes.length < numberOfDigests.toNat * 12 + numberOfHashUnits.toNat * 8 ∧ e = .oversizedRecord
        "Content Hash Table" (numberOfDigests.toNat * 12 + numberOfHashUnits.toNat * 8)
          bytes.length) := by
  constructor
  · intro t
    rw [parse_eq_ok, len]
    exact and_congr_right fun _ => and_congr_right fun _ => exists_congr fun _ => eq_comm
  · intro e
    by_cases hshort : bytes.length < numberOfDigests.toNat * 12 + numberOfHashUnits.toNat * 8
    · rw [parse, Outcome.refuseIf_pos hshort, Outcome.bind_err, Outcome.err.injEq]
      exact ⟨fun h => ⟨hshort, h.symm⟩, fun h => h.2.symm⟩
    · constructor
      · intro herr
        rw [Nat.not_lt] at hshort
        obtain ⟨r, hr⟩ := parse_of_le hshort
        rw [herr] at hr
        cases hr
      · rintro ⟨h, -⟩
        exact absurd h hshort

/-- The table of a layer: a hash value for every unit. -/
def authored (clips : List ClipDescriptor) (units : List (List UInt8)) : ContentHashTable :=
  ⟨clips, units.map hashValueOfUnit⟩

theorem verifyHashUnit_authored {clips : List ClipDescriptor} {units : List (List UInt8)} {i : Nat}
    {unit : List UInt8} :
    (authored clips units).verifyHashUnit i unit = .ok () ↔ unit.length = hashUnitSize ∧
      ∃ original, units[i]? = some original ∧ hashValueOfUnit original = hashValueOfUnit unit := by
  rw [verifyHashUnit_eq_ok, authored, List.getElem?_map, Option.map_eq_some_iff]

end ContentHashTable

namespace ContentCertificate

open ContentHashTable

/-- A layer on disc: the file of its table, and its units. -/
structure Layer where
  table : List UInt8
  units : List (List UInt8)

/-- The checks a player makes: the digest of the table file, and the hash value of every unit. -/
def Authenticates (c : ContentCertificate) (digestIndex : Nat)
    (numberOfDigests numberOfHashUnits : UInt32) (layer : Layer) : Prop :=
  c.verifyContentHashTableDigest digestIndex layer.table = .ok () ∧
    ∃ t, ContentHashTable.parse layer.table numberOfDigests numberOfHashUnits = .ok t ∧
      layer.units.length = t.len ∧
      ∀ i unit, layer.units[i]? = some unit → t.verifyHashUnit i unit = .ok ()

variable {c : ContentCertificate}

theorem verifyContentHashTableDigest_eq_ok {i : Nat} {table : List UInt8} :
    c.verifyContentHashTableDigest i table = .ok () ↔
      c.contentHashTableDigests[i]? = some (contentHashTableDigest table) := by
  simp only [verifyContentHashTableDigest, Outcome.bind_eq_ok, Outcome.okOr_eq_ok,
    Outcome.refuseIf_eq_ok, not_not]
  constructor
  · rintro ⟨stored, hstored, rfl⟩
    exact hstored
  · intro hstored
    exact ⟨_, hstored, rfl⟩

/-- What passes the checks has the digest and the hash values that were certified. -/
theorem Authenticates.hashes {digestIndex : Nat} {numberOfDigests numberOfHashUnits : UInt32}
    {layer : Layer} (h : c.Authenticates digestIndex numberOfDigests numberOfHashUnits layer) :
    c.contentHashTableDigests[digestIndex]? = some (contentHashTableDigest layer.table) ∧
      (∀ unit ∈ layer.units, unit.length = hashUnitSize) ∧
      ∃ t, ContentHashTable.parse layer.table numberOfDigests numberOfHashUnits = .ok t ∧
        layer.units.map hashValueOfUnit = t.hashValues := by
  obtain ⟨hdigest, t, hparse, hlen, hunits⟩ := h
  refine ⟨verifyContentHashTableDigest_eq_ok.mp hdigest, fun unit hmem => ?_, t, hparse, ?_⟩
  · obtain ⟨i, hi⟩ := List.mem_iff_getElem?.mp hmem
    exact (verifyHashUnit_eq_ok.mp (hunits i unit hi)).1
  · apply List.ext_getElem?
    intro i
    rw [List.getElem?_map]
    cases hi : layer.units[i]? with
    | none =>
      have hle : t.hashValues.length ≤ i := by
        rw [← len, ← hlen]
        exact List.getElem?_eq_none_iff.mp hi
      rw [Option.map_none, List.getElem?_eq_none hle]
    | some unit => rw [Option.map_some, (verifyHashUnit_eq_ok.mp (hunits i unit hi)).2]

/-- Two layers that pass under one certificate and one digest are the same table file and the
same units, or two different files or units of full size have one hash. -/
theorem Authenticates.binds {digestIndex : Nat} {numberOfDigests numberOfHashUnits : UInt32}
    {layer layer' : Layer} (h : c.Authenticates digestIndex numberOfDigests numberOfHashUnits layer)
    (h' : c.Authenticates digestIndex numberOfDigests numberOfHashUnits layer') :
    (layer.table = layer'.table ∧ layer.units = layer'.units) ∨
      Collides contentHashTableDigest layer.table layer'.table ∨
      ∃ unit ∈ layer.units, ∃ unit' ∈ layer'.units, unit.length = 196608 ∧ unit'.length = 196608 ∧
        Collides hashValueOfUnit unit unit' := by
  obtain ⟨hdigest, hsize, t, hparse, hvalues⟩ := h.hashes
  obtain ⟨hdigest', hsize', t', hparse', hvalues'⟩ := h'.hashes
  rw [hdigest, Option.some.injEq] at hdigest'
  rcases eq_or_collides hdigest' with htable | hcollides
  · rw [htable, hparse', Outcome.ok.injEq] at hparse
    rw [← hparse, ← hvalues'] at hvalues
    rcases map_eq_or_collides hvalues with hunits | ⟨unit, hunit, unit', hunit', hcollides⟩
    · exact .inl ⟨htable, hunits⟩
    · exact .inr
        (.inr ⟨unit, hunit, unit', hunit', hsize unit hunit, hsize' unit' hunit', hcollides⟩)
  · exact .inr (.inl hcollides)

/-- The layer that was certified: its table laid out, whatever stands behind it, and its units. -/
def certifiedLayer (clips : List ClipDescriptor) (units : List (List UInt8))
    (padding : List UInt8) : Layer :=
  ⟨(authored clips units).layout ++ padding, units⟩

/-- Under a certificate with the digest of a table file, the layer that the table was made from
passes; any other layer that passes shows two files or two units of full size with one hash. -/
theorem certified_exact (c : ContentCertificate) (digestIndex : Nat)
    (numberOfDigests numberOfHashUnits : UInt32)
    (clips : List ClipDescriptor) (units : List (List UInt8)) (padding : List UInt8)
    (hclips : clips.length = numberOfDigests.toNat)
    (hunits : units.length = numberOfHashUnits.toNat)
    (hsize : ∀ unit ∈ units, unit.length = hashUnitSize)
    (hdigest : c.contentHashTableDigests[digestIndex]? =
      some (contentHashTableDigest (certifiedLayer clips units padding).table)) :
    c.Authenticates digestIndex numberOfDigests numberOfHashUnits
      (certifiedLayer clips units padding) ∧
      ∀ layer, c.Authenticates digestIndex numberOfDigests numberOfHashUnits layer →
        layer ≠ certifiedLayer clips units padding →
        Collides contentHashTableDigest layer.table (certifiedLayer clips units padding).table ∨
          ∃ unit ∈ layer.units, ∃ unit' ∈ units, unit.length = 196608 ∧ unit'.length = 196608 ∧
            Collides hashValueOfUnit unit unit' := by
  have hcertified : c.Authenticates digestIndex numberOfDigests numberOfHashUnits
      (certifiedLayer clips units padding) := by
    refine ⟨verifyContentHashTableDigest_eq_ok.mpr hdigest, authored clips units, ?_, ?_, ?_⟩
    · rw [ContentHashTable.parse_eq_ok]
      exact ⟨hclips, (List.length_map _).trans hunits, List.prefix_append _ _⟩
    · exact (List.length_map _).symm
    · intro i unit hi
      exact verifyHashUnit_authored.mpr ⟨hsize unit (List.mem_of_getElem? hi), unit, hi, rfl⟩
  refine ⟨hcertified, fun layer hlayer hne => ?_⟩
  rcases hlayer.binds hcertified with ⟨htable, hunits⟩ | hcollides
  · cases layer
    cases htable
    cases hunits
    exact absurd rfl hne
  · exact hcollides

/-- A certificate for one unit of zeros. -/
def zeroUnitCertificate : ContentCertificate :=
  { certificateType := 0, bee := false, totalNumberOfHashUnits := 1, totalNumberOfLayers := 1,
    layerNumber := 0, numberOfHashUnits := 1, numberOfDigests := 1, applicantId :=
      Bytes.zero 2, contentSequenceNumber := Bytes.zero 4,
    minimumCrlVersion := 0, formatSpecificSection := [],
    contentHashTableDigests :=
      [contentHashTableDigest (certifiedLayer [⟨0, 1, 0⟩] [List.replicate 196608 0] [0, 0]).table],
    signatureData := Bytes.zero 40 }

theorem certified_exact_zero : zeroUnitCertificate.Authenticates 0 1 1
    (certifiedLayer [⟨0, 1, 0⟩] [List.replicate 196608 0] [0, 0]) := by
  have hsize : ∀ unit ∈ [List.replicate 196608 (0 : UInt8)], unit.length = hashUnitSize := by
    intro unit hunit
    rw [List.mem_singleton.mp hunit, List.length_replicate]
    rfl
  exact (certified_exact zeroUnitCertificate 0 1 1 _ _ _ rfl rfl hsize rfl).1

end ContentCertificate
