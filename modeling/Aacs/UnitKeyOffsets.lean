import Aacs.UnitKey
import Aacs.Usize

/-!
# The parser of a unit key file returns

Bounds for the loops over directories, titles and key slots, and the same loops
with checked sums, which compute the same.
-/
namespace UnitKeyFile

open Outcome

variable {slice : List UInt8} {cursor n : Nat}

theorem returns_titleLoop (slice : List UInt8) (n cursor : Nat) :
    Returns (titleLoop slice n cursor) := by
  induction n generalizing cursor with
  | zero => exact returns_ok _
  | succ n ih =>
    apply Returns.refuseIf_bind
    intro h
    exact (returns_indexU16 (by omega)).bind fun _ _ =>
      (returns_indexU16 (by omega)).bind fun _ _ =>
      (ih _).bind fun _ _ => returns_ok _

theorem returns_directoryLoop (slice : List UInt8) (n cursor : Nat) :
    Returns (directoryLoop slice n cursor) := by
  induction n generalizing cursor with
  | zero => exact returns_ok _
  | succ n ih =>
    apply Returns.refuseIf_bind
    intro h
    exact (returns_indexU16 (by omega)).bind fun _ _ =>
      (returns_indexU16 (by omega)).bind fun _ _ =>
      (returns_indexU16 (by omega)).bind fun _ _ => (returns_titleLoop _ _ _).bind fun _ _ =>
        (ih _).bind fun _ _ => returns_ok _

theorem returns_parseHeader (slice : List UInt8) : Returns (parseHeader slice) := by
  apply Returns.refuseIf_bind
  intro h
  exact (returns_index (by omega)).bind fun _ _ => (returns_index (by omega)).bind fun _ _ =>
    (returns_index (by omega)).bind fun _ _ => (returns_directoryLoop _ _ _).bind fun _ _ =>
      returns_ok _

theorem returns_unitLoop (h : cursor + n * 48 ≤ slice.length) :
    Returns (unitLoop slice n cursor) := by
  induction n generalizing cursor with
  | zero => exact returns_ok _
  | succ n ih =>
    exact (returns_readArray (by omega)).bind fun _ _ =>
      (returns_readArray (by omega)).bind fun _ _ =>
      (returns_readArray (by omega)).bind fun _ _ => (ih (by omega)).bind fun _ _ => returns_ok _

theorem returns_parseUnitKeyBlock (slice : List UInt8) : Returns (parseUnitKeyBlock slice) := by
  apply Returns.refuseIf_bind
  intro hlen
  refine (returns_indexU16 (by omega)).bind fun count _ => Returns.refuseIf_bind fun hneed => ?_
  exact returns_unitLoop (by omega)

theorem returns_parse (bytes : List UInt8) : Returns (parse bytes) := by
  apply Returns.refuseIf_bind
  intro hlen
  refine (returns_indexU32 (by omega)).bind fun kbs _ =>
    (returns_sliceFrom (by omega)).bind fun _ _ =>
    (returns_parseHeader _).bind fun _ _ => Returns.refuseIf_bind fun hkbs => ?_
  exact Returns.refuseIf_bind fun _ => (returns_sliceFrom (by omega)).bind fun _ _ =>
    (returns_parseUnitKeyBlock _).bind fun _ _ => returns_ok _

/-- The cursor behind the titles is still inside the slice. -/
theorem titleLoop_cursor_le {r : List UInt16 × Nat} (hcursor : cursor ≤ slice.length)
    (h : titleLoop slice n cursor = .ok r) : r.2 ≤ slice.length := by
  induction n generalizing cursor r with
  | zero =>
    obtain rfl := ok.inj h
    exact hcursor
  | succ n ih =>
    simp only [titleLoop, bind_eq_ok, refuseIf_eq_ok, exists_const] at h
    obtain ⟨hfits, -, -, cps, -, rest, hrest, hr⟩ := h
    obtain rfl := ok.inj hr
    have hle : rest.2 ≤ slice.length := ih (by omega) hrest
    exact hle

namespace Checked

def titleLoop (slice : List UInt8) : Nat → Nat → Result (List UInt16 × Nat)
  | 0, cursor => pure ([], cursor)
  | n + 1, cursor => do
    usize (cursor + 4)
    refuseIf (cursor + 4 > slice.length) (.truncated "Unit_Key_File_Header (per-Title)")
    let _ ← indexU16At slice cursor
    let cps ← indexU16At slice (cursor + 2)
    let rest ← titleLoop slice n (cursor + 4)
    pure (cps :: rest.1, rest.2)

def directoryLoop (slice : List UInt8) : Nat → Nat → Result (List BdDirectoryHeader)
  | 0, _ => pure []
  | n + 1, cursor => do
    usize (cursor + 6)
    refuseIf (cursor + 6 > slice.length) (.truncated "Unit_Key_File_Header (per-BD)")
    let cpsFirst ← indexU16At slice cursor
    let cpsTopmenu ← indexU16At slice (cursor + 2)
    let numTitles ← indexU16At slice (cursor + 4)
    let titles ← titleLoop slice numTitles.toNat (cursor + 6)
    let rest ← directoryLoop slice n titles.2
    pure (⟨cpsFirst, cpsTopmenu, titles.1⟩ :: rest)

def parseHeader (slice : List UInt8) : Result UnitKeyFileHeader := do
  refuseIf (slice.length < 4) (.truncated "Unit_Key_File_Header")
  let applicationType ← index slice 0
  let numOfBdDirectory ← index slice 1
  let flags ← index slice 2
  let bdDirectories ← directoryLoop slice numOfBdDirectory.toNat 4
  pure ⟨applicationType, numOfBdDirectory, flags &&& 0x80 ≠ 0, bdDirectories⟩

def unitLoop (slice : List UInt8) : Nat → Nat → Result (List CpsUnitRecord)
  | 0, _ => pure []
  | n + 1, cursor => do
    let macPmsn ← readArrayAt slice cursor 16
    let macDbn ← readArrayAt slice (cursor + 16) 16
    let encCuk ← readArrayAt slice (cursor + 32) 16
    let rest ← unitLoop slice n (cursor + 48)
    pure (⟨macPmsn, macDbn, encCuk⟩ :: rest)

def parseUnitKeyBlock (slice : List UInt8) : Result (List CpsUnitRecord) := do
  refuseIf (slice.length < 16) (.truncated "Unit_Key_Block header")
  let n ← indexU16 slice 0
  let need ← okOr ((checkedUsize (n.toNat * 48)).bind fun n => checkedUsize (16 + n))
    (.invalidValue "Num_of_CPS_Unit (overflow)" n.toNat)
  refuseIf (need > slice.length) (.oversizedRecord "Unit_Key_Block entries" need slice.length)
  unitLoop slice n.toNat 16

def parse (bytes : List UInt8) : Result UnitKeyFile := do
  refuseIf (bytes.length < 16) (.truncated "Unit_Key_RO.inf")
  let unitKeyBlockStartAddress ← indexU32 bytes 0
  let slice ← sliceFrom bytes 16
  let header ← parseHeader slice
  let kbs := unitKeyBlockStartAddress.toNat
  refuseIf (kbs ≥ bytes.length) (.oversizedRecord "Unit_Key_Block" kbs bytes.length)
  refuseIf (kbs % 16 ≠ 0) (.invalidValue "Unit_Key_Block_start_address (not 16-byte aligned)" kbs)
  let keyBlock ← sliceFrom bytes kbs
  let cpsUnits ← parseUnitKeyBlock keyBlock
  pure ⟨unitKeyBlockStartAddress, header, cpsUnits⟩

theorem titleLoop_eq (h : IsSlice slice) (hcursor : cursor ≤ slice.length) :
    titleLoop slice n cursor = UnitKeyFile.titleLoop slice n cursor := by
  have hlen : slice.length < 2 ^ 63 := h
  induction n generalizing cursor with
  | zero => rfl
  | succ n ih =>
    rw [titleLoop, UnitKeyFile.titleLoop, usize_bind (by omega)]
    apply refuseIf_bind_congr
    intro hfits
    rw [indexU16At_eq (by omega), indexU16At_eq (by omega), ih (by omega)]

theorem directoryLoop_eq (h : IsSlice slice) (hcursor : cursor ≤ slice.length) :
    directoryLoop slice n cursor = UnitKeyFile.directoryLoop slice n cursor := by
  have hlen : slice.length < 2 ^ 63 := h
  induction n generalizing cursor with
  | zero => rfl
  | succ n ih =>
    rw [directoryLoop, UnitKeyFile.directoryLoop, usize_bind (by omega)]
    apply refuseIf_bind_congr
    intro hfits
    rw [indexU16At_eq (by omega), indexU16At_eq (by omega), indexU16At_eq (by omega)]
    apply bind_congr_ok
    intro cpsFirst _
    apply bind_congr_ok
    intro cpsTopmenu _
    apply bind_congr_ok
    intro numTitles _
    rw [titleLoop_eq h (by omega)]
    apply bind_congr_ok
    intro titles htitles
    rw [ih (titleLoop_cursor_le (by omega) htitles)]

theorem parseHeader_eq (h : IsSlice slice) : parseHeader slice = UnitKeyFile.parseHeader slice := by
  refine refuseIf_bind_congr fun hlen => bind_congr_ok fun applicationType _ =>
    bind_congr_ok fun num _ =>
    bind_congr_ok fun flags _ => ?_
  rw [directoryLoop_eq h (by omega)]

theorem unitLoop_eq (h : cursor + n * 48 < 2 ^ 64) :
    unitLoop slice n cursor = UnitKeyFile.unitLoop slice n cursor := by
  induction n generalizing cursor with
  | zero => rfl
  | succ n ih =>
    rw [unitLoop, UnitKeyFile.unitLoop, readArrayAt_eq (by omega), readArrayAt_eq (by omega),
      readArrayAt_eq (by omega), ih (by omega)]

theorem parseUnitKeyBlock_eq (slice : List UInt8) :
    parseUnitKeyBlock slice = UnitKeyFile.parseUnitKeyBlock slice := by
  apply refuseIf_bind_congr
  intro _
  apply bind_congr_ok
  intro count _
  have hcount : count.toNat < 2 ^ 16 := count.toNat_lt
  rw [checkedUsize_of_lt (by omega), Option.bind_some, checkedUsize_of_lt (by omega),
    okOr_some, bind_ok, unitLoop_eq (by omega)]

theorem parse_eq {bytes : List UInt8} (h : IsSlice bytes) :
    parse bytes = UnitKeyFile.parse bytes := by
  apply refuseIf_bind_congr
  intro hlen
  apply bind_congr_ok
  intro kbs _
  apply bind_congr_ok
  intro slice hslice
  rw [sliceFrom_of_le (by omega)] at hslice
  obtain rfl := ok.inj hslice
  rw [parseHeader_eq (h.drop 16)]
  apply bind_congr_ok
  intro header _
  apply refuseIf_bind_congr
  intro _
  apply refuseIf_bind_congr
  intro _
  apply bind_congr_ok
  intro keyBlock _
  rw [parseUnitKeyBlock_eq]

end Checked

end UnitKeyFile
