import Aacs.Error

/-!
# Bus-encryption sector extents

The list a drive keeps of its bus-encrypted LBA ranges: the parameter list that
carries it and the rules it must meet.
-/
namespace Mmc

structure BusEncryptionSectorExtent where
  startLba : UInt32
  lbaCount : UInt32
  deriving DecidableEq

def busEncryptionSectorExtentLen : Nat := 16

/-- The 16-byte record of an extent, its first eight bytes reserved. -/
def BusEncryptionSectorExtent.record (extent : BusEncryptionSectorExtent) : List UInt8 :=
  List.replicate 8 0 ++ u32ToBe extent.startLba ++ u32ToBe extent.lbaCount

/-- `[length:u16 = 2 + N*16][reserved:u16]` and `N` records. -/
def buildSendDiscStructureBusEncryptionSectorExtents (extents : List BusEncryptionSectorExtent) :
    List UInt8 :=
  let length := 2 + extents.length * busEncryptionSectorExtentLen
  [UInt8.ofNat (length >>> 8), UInt8.ofNat length, 0, 0] ++
    extents.flatMap BusEncryptionSectorExtent.record

def parseSendDiscStructureBusEncryptionSectorExtents (buf : List UInt8) :
    Result (List BusEncryptionSectorExtent) := do
  let length ← readU16Be buf "SEND_DISC_STRUCTURE Bus-Encryption Sector Extents header"
  let length := length.toNat
  Outcome.refuseIf (length < 2)
    (.invalidValue "SEND_DISC_STRUCTURE Bus-Encryption Sector Extents length" length)
  Outcome.refuseIf (buf.length < 2 + length)
    (.truncated "SEND_DISC_STRUCTURE Bus-Encryption Sector Extents payload")
  let extentSectionLen := length - 2
  Outcome.refuseIf (extentSectionLen % busEncryptionSectorExtentLen ≠ 0)
    (.truncated "SEND_DISC_STRUCTURE Bus-Encryption Sector Extents record stride")
  let extentCount := extentSectionLen / busEncryptionSectorExtentLen
  (List.range extentCount).mapM fun i => do
    let base := 4 + i * busEncryptionSectorExtentLen
    let startLba ← Outcome.indexU32 buf (base + 8)
    let lbaCount ← Outcome.indexU32 buf (base + 12)
    pure { startLba, lbaCount }

/-- The loop of the validation: `prevEnd` and `prevStart` are those of the extent before. -/
def validateLoop (capacity : Nat) : Option Nat → Nat → List BusEncryptionSectorExtent → Result Unit
  | _, _, [] => .ok ()
  | prevEnd, prevStart, extent :: rest => do
    Outcome.refuseIf (extent.lbaCount = 0)
      (.invalidValue "SEND_DISC_STRUCTURE Format 0x85 LBA Count is zero" extent.startLba.toNat)
    let start := extent.startLba.toNat
    let stop := start + extent.lbaCount.toNat
    Outcome.refuseIf (stop > capacity)
      (.invalidValue "SEND_DISC_STRUCTURE Format 0x85 extent beyond media capacity" start)
    match prevEnd with
    | some prevEnd =>
      Outcome.refuseIf (start < prevStart)
        (.invalidValue "SEND_DISC_STRUCTURE Format 0x85 extents not sorted by Start LBA" start)
      Outcome.refuseIf (start < prevEnd)
        (.invalidValue "SEND_DISC_STRUCTURE Format 0x85 extents overlap" start)
    | none => pure ()
    validateLoop capacity (some stop) start rest

def validateBusEncryptionSectorExtents (extents : List BusEncryptionSectorExtent)
    (mediaCapacityLba : UInt32) : Result Unit :=
  validateLoop mediaCapacityLba.toNat none 0 extents

end Mmc
