import Aacs.UnitKey

/-!
# Where the key block of a unit key file lies

The header is walked by the counts it holds and the key block by a start address
that no check ties to them. The header ends where its counts say; the file's
layout puts the key block behind it, and the parser reads it wherever the
address points.
-/

namespace UnitKeyFile

open Outcome

/-- The bytes of the listings: six for each directory and four for each of its titles. -/
def listingsLength : List BdDirectoryHeader → Nat
  | [] => 0
  | d :: ds => 6 + 4 * d.cpsUnitNumbersForTitles.length + listingsLength ds

/-- The end of a parsed header, which begins at byte 16. -/
def headerEnd (f : UnitKeyFile) : Nat := 16 + 4 + listingsLength f.header.bdDirectories

/-- The place of the encrypted key in slot `i` of the key block. -/
def keyPlace (f : UnitKeyFile) (i : Nat) : Nat :=
  f.unitKeyBlockStartAddress.toNat + 16 + 48 * i + 32

/-- The key block begins behind the header, and each encrypted title key is read from there. -/
structure Separate (bytes : List UInt8) (f : UnitKeyFile) : Prop where
  ordered : f.headerEnd ≤ f.unitKeyBlockStartAddress.toNat
  keys : ∀ i slot, f.cpsUnits[i]? = some slot → f.headerEnd ≤ f.keyPlace i ∧
    slot.encryptedCpsUnitKey.toList = (bytes.drop (f.keyPlace i)).take 16

/-- `Unit_Key_Block_start_address`. -/
def startField (bytes : List UInt8) : Nat := beNat (bytes.take 4)

/-- The end of `n` listings that begin at the cursor, by the title counts in the file. -/
def listingsEnd (bytes : List UInt8) : Nat → Nat → Nat
  | 0, cursor => cursor
  | n + 1, cursor => listingsEnd bytes n (cursor + 6 + 4 * beNat ((bytes.drop (cursor + 4)).take 2))

/-- The end of the header, by the directory count at byte 17 and the title counts behind it. -/
def declaredEnd (bytes : List UInt8) : Nat := listingsEnd bytes (beNat ((bytes.drop 17).take 1)) 20

section
variable {slice : List UInt8} {n cursor : Nat}

theorem titleLoop_end {r : List UInt16 × Nat} (h : titleLoop slice n cursor = .ok r) :
    r.1.length = n ∧ r.2 = cursor + 4 * n := by
  induction n generalizing cursor r with
  | zero =>
    obtain rfl := ok.inj h
    exact ⟨rfl, rfl⟩
  | succ n ih =>
    simp only [titleLoop, bind_eq_ok] at h
    obtain ⟨-, -, -, -, cps, -, rest, hrest, hr⟩ := h
    obtain rfl := ok.inj hr
    obtain ⟨hlen, hend⟩ := ih hrest
    constructor
    · rw [List.length_cons, hlen]
    · rw [hend]
      omega

/-- The header's walk ends where its counts say. -/
theorem directoryLoop_end {bytes : List UInt8} {off : Nat} {ds : List BdDirectoryHeader}
    (h : directoryLoop (bytes.drop off) n cursor = .ok ds) :
    off + cursor + listingsLength ds = listingsEnd bytes n (off + cursor) := by
  induction n generalizing cursor ds with
  | zero =>
    obtain rfl := ok.inj h
    rfl
  | succ n ih =>
    simp only [directoryLoop, bind_eq_ok] at h
    obtain ⟨-, -, cpsFirst, -, cpsTopmenu, -, numTitles, hnum, titles, htitles, rest, hrest, hr⟩ :=
      h
    obtain rfl := ok.inj hr
    obtain ⟨hlen, hend⟩ := titleLoop_end htitles
    have hcount : beNat ((bytes.drop (off + cursor + 4)).take 2) = numTitles.toNat := by
      have hread := indexU16_eq_ok.mp hnum
      rw [List.drop_drop, ← Nat.add_assoc] at hread
      rw [hread, beNat_u16ToBe]
    rw [listingsLength, listingsEnd, hcount, hlen]
    rw [hend] at hrest
    have hnext := ih hrest
    rw [show off + cursor + 6 + 4 * numTitles.toNat = off + (cursor + 6 + 4 * numTitles.toNat) by
      omega, ← hnext]
    omega

theorem unitLoop_key {units : List CpsUnitRecord}
    (h : unitLoop slice n cursor = .ok units) {i : Nat}
    {slot : CpsUnitRecord} (hslot : units[i]? = some slot) :
    slot.encryptedCpsUnitKey.toList = (slice.drop (cursor + 48 * i + 32)).take 16 := by
  induction n generalizing cursor units i with
  | zero =>
    obtain rfl := ok.inj h
    cases hslot
  | succ n ih =>
    simp only [unitLoop, bind_eq_ok] at h
    obtain ⟨macPmsn, -, macDbn, -, encCuk, hkey, rest, hrest, hr⟩ := h
    obtain rfl := ok.inj hr
    cases i with
    | zero =>
      obtain rfl := Option.some.inj hslot
      exact (readArray_eq_ok.mp hkey).2
    | succ i =>
      have hread := ih hrest hslot
      rw [hread, show cursor + 48 + 48 * i + 32 = cursor + 48 * (i + 1) + 32 by omega]

end

/-- What an accepted file says of its regions: the header ends where its counts say, and
the keys are read behind the start address. -/
theorem regions_of_parse {bytes : List UInt8} {f : UnitKeyFile} (h : parse bytes = .ok f) :
    f.unitKeyBlockStartAddress.toNat = startField bytes ∧ f.headerEnd = declaredEnd bytes ∧
      ∀ i slot, f.cpsUnits[i]? = some slot →
        slot.encryptedCpsUnitKey.toList = (bytes.drop (f.keyPlace i)).take 16 := by
  simp only [parse, bind_eq_ok, refuseIf_eq_ok, exists_const] at h
  obtain ⟨hlen, start, hstart, slice, hslice, header, hheader, hkbs, haligned, block, hblock, units,
    hunits, hf⟩ := h
  obtain rfl := ok.inj hf
  rw [sliceFrom_of_le (by omega)] at hslice hblock
  obtain rfl := ok.inj hslice
  obtain rfl := ok.inj hblock
  refine ⟨?_, ?_, ?_⟩
  · have hread := indexU32_eq_ok.mp hstart
    rw [startField, ← beNat_u32ToBe, ← hread, List.drop_zero]
  · simp only [parseHeader, bind_eq_ok, refuseIf_eq_ok, exists_const] at hheader
    obtain ⟨hfour, applicationType, -, num, hnum, flags, -, ds, hds, hh⟩ := hheader
    obtain rfl := ok.inj hh
    have hcount : beNat ((bytes.drop 17).take 1) = num.toNat := by
      rw [index_eq_ok, List.getElem?_drop] at hnum
      rw [drop_take_one hnum, beNat_cons, beNat_nil, List.length_nil, pow_zero, mul_one, add_zero]
    rw [headerEnd, declaredEnd, hcount]
    exact directoryLoop_end hds
  · simp only [parseUnitKeyBlock, bind_eq_ok, refuseIf_eq_ok, exists_const] at hunits
    obtain ⟨hsixteen, num, hnum, hneed, hloop⟩ := hunits
    intro i slot hslot
    have hkey := unitLoop_key hloop hslot
    rw [List.drop_drop] at hkey
    have hplace : start.toNat + (16 + 48 * i + 32) = start.toNat + 16 + 48 * i + 32 := by omega
    rw [hkey, keyPlace, hplace]

/-- The regions of an accepted file are separate exactly where its start address is not inside the
header that its counts declare. -/
theorem separate_iff {bytes : List UInt8} {f : UnitKeyFile} (h : parse bytes = .ok f) :
    Separate bytes f ↔ declaredEnd bytes ≤ startField bytes := by
  obtain ⟨hstart, hend, hkeys⟩ := regions_of_parse h
  rw [← hstart, ← hend]
  constructor
  · exact Separate.ordered
  · intro hordered
    constructor
    · exact hordered
    · intro i slot hslot
      constructor
      · rw [keyPlace]
        omega
      · exact hkeys i slot hslot

/-- A disc whose eighteen titles belong to the first CPS unit, with the given start address. The
header ends at byte 98, and a block of no keys lies at byte 112. -/
def titlesFile (start : UInt8) : List UInt8 :=
  [0, 0, 0, start] ++ List.replicate 12 0 ++ [1, 1, 0, 0, 0, 1, 0, 1, 0, 18] ++
    (List.replicate 18 [0, 0, 0, 1]).flatten ++ List.replicate 30 0

def titlesHeader : UnitKeyFileHeader := ⟨1, 1, false, [⟨1, 1, List.replicate 18 1⟩]⟩

theorem separate_iff_behind : Separate (titlesFile 112) ⟨112, titlesHeader, []⟩ ↔
    declaredEnd (titlesFile 112) ≤ startField (titlesFile 112) :=
  separate_iff (by decide +kernel)

/-- The bytes of four titles, as the parser reads them for a key. -/
def titlesKey : Bytes 16 := ⟨(List.replicate 4 [0, 1, 0, 0]).flatten, rfl⟩

/-- At byte 32 the number of a title's CPS unit is read as the number of keys. -/
theorem parse_titlesFile_inside :
    parse (titlesFile 32) = .ok ⟨32, titlesHeader, [⟨titlesKey, titlesKey, titlesKey⟩]⟩ := by
  decide +kernel

theorem titlesFile_not_separate : ¬∀ bytes f, parse bytes = .ok f → Separate bytes f := by
  intro h
  have hordered := (h _ _ parse_titlesFile_inside).ordered
  revert hordered
  decide

end UnitKeyFile
