import Aacs.Cursor
import Aacs.UnitKey

/-!
# Unit key files as they are laid out

The fields of a file in their order, reserved bits and padding included, and what
the parser reads from them.
-/
namespace UnitKeyLayout

/-- A row of the title loop. -/
structure Title where
  reserved : UInt16
  cpsUnitNumber : UInt16
  deriving DecidableEq

def Title.bytes (t : Title) : List UInt8 := u16ToBe t.reserved ++ u16ToBe t.cpsUnitNumber

def titleBytes (titles : List Title) : List UInt8 := titles.flatMap Title.bytes

/-- The listing of a BD directory. -/
structure Directory where
  firstPlayback : UInt16
  topMenu : UInt16
  titles : List Title
  numOfTitle_lt : titles.length < 2 ^ 16
  deriving DecidableEq

namespace Directory

def bytes (d : Directory) : List UInt8 :=
  u16ToBe d.firstPlayback ++
    (u16ToBe d.topMenu ++ (u16ToBe (UInt16.ofNat d.titles.length) ++ titleBytes d.titles))

/-- What the parser keeps of a listing. -/
def header (d : Directory) : BdDirectoryHeader :=
  ⟨d.firstPlayback, d.topMenu, d.titles.map Title.cpsUnitNumber⟩

end Directory

def slotBytes (r : CpsUnitRecord) : List UInt8 :=
  r.macOfPmsn.toList ++ (r.macOfDeviceBindingNonce.toList ++ r.encryptedCpsUnitKey.toList)

@[simp] theorem length_slotBytes (r : CpsUnitRecord) :
    (slotBytes r).length = 48 := by simp [slotBytes]

/-- The fields of a file: those in front of the header, the header with its flag byte,
padding, the key block and what follows it. -/
structure Fields where
  reserved : Bytes 12
  applicationType : UInt8
  flags : UInt8
  headerReserved : UInt8
  directories : List Directory
  numOfBdDirectory_lt : directories.length < 2 ^ 8
  padding : List UInt8
  blockReserved : Bytes 14
  slots : List CpsUnitRecord
  numOfCpsUnit_lt : slots.length < 2 ^ 16
  trailing : List UInt8

namespace Fields

def headerBytes (f : Fields) : List UInt8 :=
  f.applicationType :: UInt8.ofNat f.directories.length :: f.flags :: f.headerReserved ::
    f.directories.flatMap Directory.bytes

/-- The place of the key block: behind the sixteen bytes of the front, the header and the padding.
-/
def blockStart (f : Fields) : Nat := 16 + f.headerBytes.length + f.padding.length

def blockBytes (f : Fields) : List UInt8 :=
  u16ToBe (UInt16.ofNat f.slots.length) ++ (f.blockReserved.toList ++ f.slots.flatMap slotBytes)

def bytes (f : Fields) : List UInt8 :=
  u32ToBe (UInt32.ofNat f.blockStart) ++
    (f.reserved.toList ++ (f.headerBytes ++ (f.padding ++ (f.blockBytes ++ f.trailing))))

/-- What the parser keeps of a file. -/
def parsed (f : Fields) : UnitKeyFile where
  unitKeyBlockStartAddress := UInt32.ofNat f.blockStart
  header := ⟨f.applicationType, UInt8.ofNat f.directories.length, f.flags &&& 0x80 ≠ 0,
    f.directories.map Directory.header⟩
  cpsUnits := f.slots

end Fields

/-- A file whose key block is aligned, at a place that a 32-bit field can hold. -/
structure File extends Fields where
  blockStart_aligned : toFields.blockStart % 16 = 0
  blockStart_lt : toFields.blockStart < 2 ^ 32

open UnitKeyFile

variable {slice tail : List UInt8} {cursor : Nat}

theorem titleLoop_bytes (titles : List Title) (h : Ahead slice cursor (titleBytes titles ++ tail)) :
    ∃ cursor', titleLoop slice titles.length cursor = .ok
      (titles.map Title.cpsUnitNumber, cursor') ∧ Ahead slice cursor' tail := by
  induction titles generalizing cursor with
  | nil => exact ⟨cursor, rfl, h⟩
  | cons t titles ih =>
    rw [titleBytes, List.flatMap_cons, List.append_assoc] at h
    have hfits : cursor + 4 ≤ slice.length := h.fits rfl (by decide)
    have hrest : Ahead slice (cursor + 4) (titleBytes titles ++ tail) := h.step rfl
    rw [Title.bytes, List.append_assoc] at h
    have hnumber : Ahead slice (cursor + 2)
      (u16ToBe t.cpsUnitNumber ++ (titleBytes titles ++ tail)) := h.step rfl
    obtain ⟨cursor', hloop, htail⟩ := ih hrest
    refine ⟨cursor', ?_, htail⟩
    rw [List.length_cons, titleLoop, Outcome.refuseIf_neg (Nat.not_lt.mpr hfits),
      Outcome.bind_ok, h.indexU16, Outcome.bind_ok, hnumber.indexU16, Outcome.bind_ok, hloop]
    rfl

theorem directoryLoop_bytes (ds : List Directory)
    (h : Ahead slice cursor (ds.flatMap Directory.bytes ++ tail)) :
    directoryLoop slice ds.length cursor = .ok (ds.map Directory.header) := by
  induction ds generalizing cursor with
  | nil => rfl
  | cons d ds ih =>
    rw [List.flatMap_cons, Directory.bytes] at h
    simp only [List.append_assoc] at h
    have hmenu := h.step (length_u16ToBe _)
    have hnum := hmenu.step (length_u16ToBe _)
    have htitles := hnum.step (length_u16ToBe _)
    have hfits : cursor + 6 ≤ slice.length := hnum.fits (length_u16ToBe _) (by decide)
    have hcount : (UInt16.ofNat d.titles.length).toNat = d.titles.length :=
      UInt16.toNat_ofNat_of_lt' d.numOfTitle_lt
    obtain ⟨cursor', hloop, htail⟩ := titleLoop_bytes d.titles htitles
    rw [List.length_cons, directoryLoop, Outcome.refuseIf_neg (Nat.not_lt.mpr hfits),
      Outcome.bind_ok, h.indexU16, Outcome.bind_ok, hmenu.indexU16, Outcome.bind_ok, hnum.indexU16,
      Outcome.bind_ok, hcount, hloop, Outcome.bind_ok, ih htail]
    rfl

theorem parseHeader_bytes (f : Fields) (tail : List UInt8) :
    parseHeader (f.headerBytes ++ tail) = .ok f.parsed.header := by
  have htype := Ahead.start (f.headerBytes ++ tail)
  have hnum : Ahead (f.headerBytes ++ tail) 1 _ := htype.next
  have hflags : Ahead (f.headerBytes ++ tail) 2 _ := hnum.next
  have hdirectories : Ahead (f.headerBytes ++ tail) 4
      (f.directories.flatMap Directory.bytes ++ tail) :=
    hflags.next.next
  have hcount : (UInt8.ofNat f.directories.length).toNat = f.directories.length :=
    UInt8.toNat_ofNat_of_lt' f.numOfBdDirectory_lt
  have hshort : ¬(f.headerBytes ++ tail).length < 4 := by
    rw [Fields.headerBytes]
    simp only [List.cons_append, List.length_cons]
    omega
  rw [parseHeader, Outcome.refuseIf_neg hshort, Outcome.bind_ok, htype.index,
    Outcome.bind_ok, hnum.index, Outcome.bind_ok, hflags.index, Outcome.bind_ok, hcount,
    directoryLoop_bytes f.directories
      hdirectories]
  rfl

theorem unitLoop_bytes (slots : List CpsUnitRecord)
    (h : Ahead slice cursor (slots.flatMap slotBytes ++ tail)) :
    unitLoop slice slots.length cursor = .ok slots := by
  induction slots generalizing cursor with
  | nil => rfl
  | cons r slots ih =>
    rw [List.flatMap_cons, slotBytes] at h
    simp only [List.append_assoc] at h
    have hdbn := h.step r.macOfPmsn.length_toList
    have hkey := hdbn.step r.macOfDeviceBindingNonce.length_toList
    have hrest := hkey.step r.encryptedCpsUnitKey.length_toList
    rw [List.length_cons, unitLoop, h.readArray (by decide), Outcome.bind_ok,
      hdbn.readArray (by decide), Outcome.bind_ok, hkey.readArray (by decide),
      Outcome.bind_ok, ih hrest]
    rfl

theorem length_slots (slots : List CpsUnitRecord) :
    (slots.flatMap slotBytes).length = slots.length * 48 := by
  induction slots with
  | nil => rfl
  | cons r slots ih =>
    rw [List.flatMap_cons, List.length_append, length_slotBytes, ih, List.length_cons]
    omega

theorem length_blockBytes (f : Fields) : f.blockBytes.length = 16 + f.slots.length * 48 := by
  rw [Fields.blockBytes, List.length_append, List.length_append, length_u16ToBe,
    f.blockReserved.length_toList, length_slots]
  omega

theorem parseUnitKeyBlock_bytes (f : Fields) (tail : List UInt8) :
    parseUnitKeyBlock (f.blockBytes ++ tail) = .ok f.slots := by
  have hstart := Ahead.start (f.blockBytes ++ tail)
  have hlen : 16 + f.slots.length * 48 ≤ (f.blockBytes ++ tail).length := by
    rw [List.length_append, length_blockBytes]
    omega
  have hcount : (UInt16.ofNat f.slots.length).toNat = f.slots.length :=
    UInt16.toNat_ofNat_of_lt' f.numOfCpsUnit_lt
  have hnum : Ahead (f.blockBytes ++ tail) 0 (u16ToBe (UInt16.ofNat f.slots.length) ++
      (f.blockReserved.toList ++ (f.slots.flatMap slotBytes ++ tail))) := by
    rw [Ahead, List.drop_zero, Fields.blockBytes, List.append_assoc, List.append_assoc]
  have hslots : Ahead (f.blockBytes ++ tail) 16 (f.slots.flatMap slotBytes ++ tail) :=
    (hnum.step (length_u16ToBe _)).step f.blockReserved.length_toList
  rw [parseUnitKeyBlock, Outcome.refuseIf_neg (by omega), Outcome.bind_ok, hnum.indexU16,
    Outcome.bind_ok, hcount]
  dsimp only
  rw [Outcome.refuseIf_neg (Nat.not_lt.mpr hlen), Outcome.bind_ok, unitLoop_bytes f.slots hslots]

/-- The parser reads every file that is laid out. -/
theorem parse_bytes (f : File) : UnitKeyFile.parse f.bytes = .ok f.parsed := by
  have hstart := Ahead.start f.bytes
  have hheader : Ahead f.bytes 16 _ :=
    (hstart.step (length_u32ToBe _)).step f.reserved.length_toList
  have hblock : Ahead f.bytes f.blockStart (f.blockBytes ++ f.trailing) :=
    (hheader.step rfl).step rfl
  have hkbs : (UInt32.ofNat f.blockStart).toNat = f.blockStart :=
    UInt32.toNat_ofNat_of_lt' f.blockStart_lt
  have hend : f.blockStart + (16 + f.slots.length * 48) ≤ f.bytes.length :=
    hblock.fits (length_blockBytes _) (by omega)
  have hlt : f.blockStart < f.bytes.length := by omega
  have hfront : 16 ≤ f.bytes.length := by
    have hle : 16 ≤ f.blockStart := by
      rw [Fields.blockStart]
      omega
    omega
  rw [UnitKeyFile.parse, Outcome.refuseIf_neg (Nat.not_lt.mpr hfront), Outcome.bind_ok,
    hstart.indexU32, Outcome.bind_ok, Outcome.sliceFrom_of_le hfront, Outcome.bind_ok, hheader,
    parseHeader_bytes, Outcome.bind_ok]
  dsimp only
  rw [hkbs, Outcome.refuseIf_neg (Nat.not_le.mpr hlt), Outcome.bind_ok,
    Outcome.refuseIf_neg (by simp [f.blockStart_aligned]), Outcome.bind_ok,
    Outcome.sliceFrom_of_le hlt.le, Outcome.bind_ok, hblock, parseUnitKeyBlock_bytes]
  rfl

end UnitKeyLayout
