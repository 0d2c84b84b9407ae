import Aacs.Error

/-!
# The Unit Key File

A start address, a header that assigns CPS units to the titles of each BD
directory, and at the start address the block of encrypted unit keys.
-/

structure BdDirectoryHeader where
  cpsUnitNumberForFirstPlayback : UInt16
  cpsUnitNumberForTopMenu : UInt16
  cpsUnitNumbersForTitles : List UInt16
  deriving DecidableEq

structure UnitKeyFileHeader where
  applicationType : UInt8
  numOfBdDirectory : UInt8
  useSkbUnifiedMkb : Bool
  bdDirectories : List BdDirectoryHeader
  deriving DecidableEq

structure CpsUnitRecord where
  macOfPmsn : Bytes 16
  macOfDeviceBindingNonce : Bytes 16
  encryptedCpsUnitKey : Bytes 16
  deriving DecidableEq

structure UnitKeyFile where
  unitKeyBlockStartAddress : UInt32
  header : UnitKeyFileHeader
  cpsUnits : List CpsUnitRecord
  deriving DecidableEq

namespace UnitKeyFile

/-- The titles of a directory, from the cursor on, and the cursor behind them. -/
def titleLoop (slice : List UInt8) : Nat → Nat → Result (List UInt16 × Nat)
  | 0, cursor => pure ([], cursor)
  | n + 1, cursor => do
    Outcome.refuseIf (cursor + 4 > slice.length) (.truncated "Unit_Key_File_Header (per-Title)")
    let _ ← Outcome.indexU16 slice cursor
    let cps ← Outcome.indexU16 slice (cursor + 2)
    let rest ← titleLoop slice n (cursor + 4)
    pure (cps :: rest.1, rest.2)

def directoryLoop (slice : List UInt8) : Nat → Nat → Result (List BdDirectoryHeader)
  | 0, _ => pure []
  | n + 1, cursor => do
    Outcome.refuseIf (cursor + 6 > slice.length) (.truncated "Unit_Key_File_Header (per-BD)")
    let cpsFirst ← Outcome.indexU16 slice cursor
    let cpsTopmenu ← Outcome.indexU16 slice (cursor + 2)
    let numTitles ← Outcome.indexU16 slice (cursor + 4)
    let titles ← titleLoop slice numTitles.toNat (cursor + 6)
    let rest ← directoryLoop slice n titles.2
    pure (⟨cpsFirst, cpsTopmenu, titles.1⟩ :: rest)

def parseHeader (slice : List UInt8) : Result UnitKeyFileHeader := do
  Outcome.refuseIf (slice.length < 4) (.truncated "Unit_Key_File_Header")
  let applicationType ← Outcome.index slice 0
  let numOfBdDirectory ← Outcome.index slice 1
  let flags ← Outcome.index slice 2
  let bdDirectories ← directoryLoop slice numOfBdDirectory.toNat 4
  pure ⟨applicationType, numOfBdDirectory, flags &&& 0x80 ≠ 0, bdDirectories⟩

/-- The key slots, from the cursor on. -/
def unitLoop (slice : List UInt8) : Nat → Nat → Result (List CpsUnitRecord)
  | 0, _ => pure []
  | n + 1, cursor => do
    let macPmsn ← Outcome.readArray 16 slice cursor
    let macDbn ← Outcome.readArray 16 slice (cursor + 16)
    let encCuk ← Outcome.readArray 16 slice (cursor + 32)
    let rest ← unitLoop slice n (cursor + 48)
    pure (⟨macPmsn, macDbn, encCuk⟩ :: rest)

/-- A `u16` times 48, and 16 more: the checked operations do not fail. -/
def parseUnitKeyBlock (slice : List UInt8) : Result (List CpsUnitRecord) := do
  Outcome.refuseIf (slice.length < 16) (.truncated "Unit_Key_Block header")
  let n ← Outcome.indexU16 slice 0
  let need := 16 + n.toNat * 48
  Outcome.refuseIf (need > slice.length)
    (.oversizedRecord "Unit_Key_Block entries" need slice.length)
  unitLoop slice n.toNat 16

def parse (bytes : List UInt8) : Result UnitKeyFile := do
  Outcome.refuseIf (bytes.length < 16) (.truncated "Unit_Key_RO.inf")
  let unitKeyBlockStartAddress ← Outcome.indexU32 bytes 0
  let slice ← Outcome.sliceFrom bytes 16
  let header ← parseHeader slice
  let kbs := unitKeyBlockStartAddress.toNat
  Outcome.refuseIf (kbs ≥ bytes.length) (.oversizedRecord "Unit_Key_Block" kbs bytes.length)
  Outcome.refuseIf (kbs % 16 ≠ 0)
    (.invalidValue "Unit_Key_Block_start_address (not 16-byte aligned)" kbs)
  let keyBlock ← Outcome.sliceFrom bytes kbs
  let cpsUnits ← parseUnitKeyBlock keyBlock
  pure ⟨unitKeyBlockStartAddress, header, cpsUnits⟩

end UnitKeyFile
