import Aacs.Error
import Aacs.Usize

/-!
# The CPS Unit Usage File

A primary area of fixed length and a secondary area that may be absent, each
with a header that counts its blocks. A block is a type, a version and data
behind their length.
-/

structure CciAndOtherInfo where
  infoType : UInt16
  version : UInt16
  data : List UInt8
  deriving DecidableEq

structure CpsUnitUsageFile where
  primary : List CciAndOtherInfo
  secondary : List CciAndOtherInfo
  hasSecondary : Bool
  deriving DecidableEq

open Outcome

namespace CciAndOtherInfo

/-- The first block, and the number of bytes it takes. -/
def parse (bytes : List UInt8) : Result (CciAndOtherInfo × Nat) := do
  refuseIf (bytes.length < 6) (.truncated "CCI_and_other_info header")
  let infoType ← indexU16 bytes 0
  let version ← indexU16 bytes 2
  let dataLength ← indexU16 bytes 4
  let total := 6 + dataLength.toNat
  refuseIf (bytes.length < total) (.truncated "CCI_and_other_info data")
  let data ← slice bytes 6 total
  pure (⟨infoType, version, data⟩, total)

theorem returns_parse (bytes : List UInt8) : Returns (parse bytes) := by
  apply Returns.refuseIf_bind
  intro hlen
  refine (returns_indexU16 (by omega)).bind fun _ _ => (returns_indexU16 (by omega)).bind fun _ _ =>
    (returns_indexU16 (by omega)).bind fun dataLength _ => Returns.refuseIf_bind fun htotal => ?_
  exact (returns_slice (Nat.le_add_right _ _) (by omega)).bind fun _ _ => returns_ok _

/-- A block read ends inside the bytes. -/
theorem parse_total_le {bytes : List UInt8} {r : CciAndOtherInfo × Nat} (h : parse bytes = .ok r) :
    r.2 ≤ bytes.length := by
  simp only [parse, bind_eq_ok, refuseIf_eq_ok, exists_const] at h
  obtain ⟨-, infoType, -, version, -, dataLength, -, htotal, data, -, hr⟩ := h
  obtain rfl := ok.inj hr
  exact Nat.le_of_not_lt htotal

end CciAndOtherInfo

namespace CpsUnitUsageFile

/-- The blocks of an area, from the cursor on. -/
def areaLoop (area : List UInt8) : Nat → Nat → Result (List CciAndOtherInfo)
  | 0, _ => pure []
  | n + 1, cursor => do
    refuseIf (cursor + 6 > area.length) (.truncated "CPS Unit Usage File CCI loop")
    let tail ← sliceFrom area cursor
    let block ← CciAndOtherInfo.parse tail
    let rest ← areaLoop area n (cursor + block.2)
    pure (block.1 :: rest)

def parseArea (area : List UInt8) (loops : Nat) : Result (List CciAndOtherInfo) :=
  areaLoop area loops 0

/-- The blocks of the secondary area, which is there when anything follows the primary one. -/
def parseSecondary (bytes : List UInt8) : Result (List CciAndOtherInfo × Bool) :=
  if bytes.length > 2048 then do
    refuseIf (bytes.length < 2064) (.truncated "CPS Unit Usage File Secondary Header")
    let secondaryLoops ← indexU16 bytes 2048
    let secondaryArea ← sliceFrom bytes 2064
    let secondary ← parseArea secondaryArea secondaryLoops.toNat
    pure (secondary, true)
  else pure ([], false)

def parse (bytes : List UInt8) : Result CpsUnitUsageFile := do
  refuseIf (bytes.length < 2048) (.truncated "CPS Unit Usage File Primary Area")
  let primaryLoops ← indexU16 bytes 0
  let primaryArea ← slice bytes 16 2048
  let primary ← parseArea primaryArea primaryLoops.toNat
  let secondary ← parseSecondary bytes
  pure ⟨primary, secondary.1, secondary.2⟩

theorem returns_areaLoop (area : List UInt8) (n cursor : Nat) :
    Returns (areaLoop area n cursor) := by
  induction n generalizing cursor with
  | zero => exact returns_ok _
  | succ n ih =>
    apply Returns.refuseIf_bind
    intro h
    exact (returns_sliceFrom (by omega)).bind fun _ _ =>
      (CciAndOtherInfo.returns_parse _).bind fun _ _ =>
      (ih _).bind fun _ _ => returns_ok _

theorem returns_parseSecondary (bytes : List UInt8) : Returns (parseSecondary bytes) := by
  refine Returns.ite (Returns.refuseIf_bind fun h => ?_) (returns_ok _)
  exact (returns_indexU16 (by omega)).bind fun _ _ => (returns_sliceFrom (by omega)).bind fun _ _ =>
    (returns_areaLoop _ _ _).bind fun _ _ => returns_ok _

theorem returns_parse (bytes : List UInt8) : Returns (parse bytes) := by
  apply Returns.refuseIf_bind
  intro h
  exact (returns_indexU16 (by omega)).bind fun _ _ =>
    (returns_slice (by decide) (by omega)).bind fun _ _ =>
    (returns_areaLoop _ _ _).bind fun _ _ => (returns_parseSecondary _).bind fun _ _ => returns_ok _

end CpsUnitUsageFile

namespace CciAndOtherInfo.Checked

def parse (bytes : List UInt8) : Result (CciAndOtherInfo × Nat) := do
  refuseIf (bytes.length < 6) (.truncated "CCI_and_other_info header")
  let infoType ← indexU16 bytes 0
  let version ← indexU16 bytes 2
  let dataLength ← indexU16 bytes 4
  usize (6 + dataLength.toNat)
  let total := 6 + dataLength.toNat
  refuseIf (bytes.length < total) (.truncated "CCI_and_other_info data")
  let data ← slice bytes 6 total
  pure (⟨infoType, version, data⟩, total)

theorem parse_eq (bytes : List UInt8) : parse bytes = CciAndOtherInfo.parse bytes := by
  refine refuseIf_bind_congr fun _ => bind_congr_ok fun infoType _ => bind_congr_ok fun version _ =>
    bind_congr_ok fun dataLength _ => ?_
  have hdata : dataLength.toNat < 2 ^ 16 := dataLength.toNat_lt
  rw [usize_bind (by omega)]

end CciAndOtherInfo.Checked

namespace CpsUnitUsageFile.Checked

def areaLoop (area : List UInt8) : Nat → Nat → Result (List CciAndOtherInfo)
  | 0, _ => pure []
  | n + 1, cursor => do
    usize (cursor + 6)
    refuseIf (cursor + 6 > area.length) (.truncated "CPS Unit Usage File CCI loop")
    let tail ← sliceFrom area cursor
    let block ← CciAndOtherInfo.Checked.parse tail
    usize (cursor + block.2)
    let rest ← areaLoop area n (cursor + block.2)
    pure (block.1 :: rest)

def parseArea (area : List UInt8) (loops : Nat) : Result (List CciAndOtherInfo) :=
  areaLoop area loops 0

def parseSecondary (bytes : List UInt8) : Result (List CciAndOtherInfo × Bool) :=
  if bytes.length > 2048 then do
    refuseIf (bytes.length < 2064) (.truncated "CPS Unit Usage File Secondary Header")
    let secondaryLoops ← indexU16 bytes 2048
    let secondaryArea ← sliceFrom bytes 2064
    let secondary ← parseArea secondaryArea secondaryLoops.toNat
    pure (secondary, true)
  else pure ([], false)

def parse (bytes : List UInt8) : Result CpsUnitUsageFile := do
  refuseIf (bytes.length < 2048) (.truncated "CPS Unit Usage File Primary Area")
  let primaryLoops ← indexU16 bytes 0
  let primaryArea ← slice bytes 16 2048
  let primary ← parseArea primaryArea primaryLoops.toNat
  let secondary ← parseSecondary bytes
  pure ⟨primary, secondary.1, secondary.2⟩

theorem areaLoop_eq {area : List UInt8} {n cursor : Nat} (h : IsSlice area)
    (hcursor : cursor ≤ area.length) :
    areaLoop area n cursor = CpsUnitUsageFile.areaLoop area n cursor := by
  have hlen : area.length < 2 ^ 63 := h
  induction n generalizing cursor with
  | zero => rfl
  | succ n ih =>
    rw [areaLoop, CpsUnitUsageFile.areaLoop, usize_bind (by omega)]
    apply refuseIf_bind_congr
    intro hfits
    rw [sliceFrom_of_le hcursor, bind_ok, bind_ok, CciAndOtherInfo.Checked.parse_eq]
    apply bind_congr_ok
    intro block hblock
    have hend := CciAndOtherInfo.parse_total_le hblock
    rw [List.length_drop] at hend
    rw [usize_bind (by omega), ih (by omega)]

theorem parseSecondary_eq {bytes : List UInt8} (h : IsSlice bytes) :
    parseSecondary bytes = CpsUnitUsageFile.parseSecondary bytes := by
  rw [parseSecondary, CpsUnitUsageFile.parseSecondary]
  by_cases hthere : bytes.length > 2048
  · rw [if_pos hthere, if_pos hthere]
    apply refuseIf_bind_congr
    intro hheader
    apply bind_congr_ok
    intro loops _
    apply bind_congr_ok
    intro area harea
    rw [sliceFrom_of_le (by omega)] at harea
    obtain rfl := ok.inj harea
    rw [parseArea, areaLoop_eq (h.drop 2064) (Nat.zero_le _)]
    rfl
  · rw [if_neg hthere, if_neg hthere]

theorem parse_eq {bytes : List UInt8} (h : IsSlice bytes) :
    parse bytes = CpsUnitUsageFile.parse bytes := by
  apply refuseIf_bind_congr
  intro _
  apply bind_congr_ok
  intro loops _
  apply bind_congr_ok
  intro area harea
  rw [parseArea, areaLoop_eq (h.slice harea) (Nat.zero_le _), parseSecondary_eq h]
  rfl

end CpsUnitUsageFile.Checked
