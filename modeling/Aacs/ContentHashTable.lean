import Aacs.Error
import Aacs.Usize

/-!
# The Content Hash Table

Descriptors of clips and hash values behind them. Their counts are not in the
file: they come from the content certificate, and any two counts are refused
with an error or read in bounds.
-/

structure ClipDescriptor where
  startingHuNum : UInt32
  clipNum : UInt32
  huOffsetInClip : UInt32
  deriving DecidableEq

structure ContentHashTable where
  clips : List ClipDescriptor
  hashValues : List (Bytes 8)
  deriving DecidableEq

namespace ContentHashTable

open Outcome

/-- The descriptors, from the cursor on, and the cursor behind them. -/
def clipLoop (bytes : List UInt8) : Nat → Nat → Result (List ClipDescriptor × Nat)
  | 0, cursor => pure ([], cursor)
  | n + 1, cursor => do
    let startingHuNum ← indexU32 bytes cursor
    let clipNum ← indexU32 bytes (cursor + 4)
    let huOffsetInClip ← indexU32 bytes (cursor + 8)
    let rest ← clipLoop bytes n (cursor + 12)
    pure (⟨startingHuNum, clipNum, huOffsetInClip⟩ :: rest.1, rest.2)

/-- Products of a `u32` with twelve and eight: the checked operations do not fail. -/
def parse (bytes : List UInt8) (numberOfDigests numberOfHashUnits : UInt32) :
    Result ContentHashTable := do
  let total := numberOfDigests.toNat * 12 + numberOfHashUnits.toNat * 8
  refuseIf (bytes.length < total) (.oversizedRecord "Content Hash Table" total bytes.length)
  let clips ← clipLoop bytes numberOfDigests.toNat 0
  let hashValues ← readArrays 8 numberOfHashUnits.toNat bytes clips.2
  pure ⟨clips.1, hashValues⟩

variable {bytes : List UInt8} {n cursor : Nat}

theorem returns_clipLoop (h : cursor + n * 12 ≤ bytes.length) :
    Returns (clipLoop bytes n cursor) := by
  induction n generalizing cursor with
  | zero => exact returns_ok _
  | succ n ih =>
    exact (returns_indexU32 (by omega)).bind fun _ _ =>
      (returns_indexU32 (by omega)).bind fun _ _ =>
      (returns_indexU32 (by omega)).bind fun _ _ => (ih (by omega)).bind fun _ _ => returns_ok _

theorem clipLoop_cursor {r : List ClipDescriptor × Nat} (h : clipLoop bytes n cursor = .ok r) :
    r.2 = cursor + n * 12 := by
  induction n generalizing cursor r with
  | zero =>
    obtain rfl := ok.inj h
    rfl
  | succ n ih =>
    simp only [clipLoop, bind_eq_ok] at h
    obtain ⟨start, -, clip, -, offset, -, rest, hrest, hr⟩ := h
    obtain rfl := ok.inj hr
    have hcursor : rest.2 = cursor + 12 + n * 12 := ih hrest
    dsimp only
    omega

theorem returns_parse (bytes : List UInt8) (numberOfDigests numberOfHashUnits : UInt32) :
    Returns (parse bytes numberOfDigests numberOfHashUnits) := by
  apply Returns.refuseIf_bind
  intro htotal
  refine (returns_clipLoop (by omega)).bind fun clips hclips => ?_
  have hcursor := clipLoop_cursor hclips
  exact (returns_readArrays (by omega)).bind fun _ _ => returns_ok _

namespace Checked

def clipLoop (bytes : List UInt8) : Nat → Nat → Result (List ClipDescriptor × Nat)
  | 0, cursor => pure ([], cursor)
  | n + 1, cursor => do
    let startingHuNum ← indexU32At bytes cursor
    let clipNum ← indexU32At bytes (cursor + 4)
    let huOffsetInClip ← indexU32At bytes (cursor + 8)
    usize (cursor + 12)
    let rest ← clipLoop bytes n (cursor + 12)
    pure (⟨startingHuNum, clipNum, huOffsetInClip⟩ :: rest.1, rest.2)

def parse (bytes : List UInt8) (numberOfDigests numberOfHashUnits : UInt32) :
    Result ContentHashTable := do
  let headerLen ← okOr (checkedUsize (numberOfDigests.toNat * 12))
    (.truncated "Content Hash Table header")
  let bodyLen ← okOr (checkedUsize (numberOfHashUnits.toNat * 8))
    (.truncated "Content Hash Table body")
  let total ← okOr (checkedUsize (headerLen + bodyLen)) (.truncated "Content Hash Table")
  refuseIf (bytes.length < total) (.oversizedRecord "Content Hash Table" total bytes.length)
  let clips ← clipLoop bytes numberOfDigests.toNat 0
  let hashValues ← readArraysAt 8 numberOfHashUnits.toNat bytes clips.2
  pure ⟨clips.1, hashValues⟩

theorem clipLoop_eq (h : cursor + n * 12 < 2 ^ 64) :
    clipLoop bytes n cursor = ContentHashTable.clipLoop bytes n cursor := by
  induction n generalizing cursor with
  | zero => rfl
  | succ n ih =>
    have hnext : (usize (cursor + 12) : Result Unit) = ok () := usize_of_lt (by omega)
    rw [clipLoop, ContentHashTable.clipLoop, indexU32At_eq (by omega), indexU32At_eq (by omega),
      indexU32At_eq (by omega), ih (by omega)]
    simp only [hnext, bind_ok]

theorem parse_eq (bytes : List UInt8) (numberOfDigests numberOfHashUnits : UInt32) :
    parse bytes numberOfDigests numberOfHashUnits = ContentHashTable.parse bytes numberOfDigests
      numberOfHashUnits := by
  have hdigests : numberOfDigests.toNat < 2 ^ 32 := numberOfDigests.toNat_lt
  have hunits : numberOfHashUnits.toNat < 2 ^ 32 := numberOfHashUnits.toNat_lt
  rw [parse, ContentHashTable.parse, checkedUsize_of_lt (by omega), okOr_some, bind_ok,
    checkedUsize_of_lt (by omega), okOr_some, bind_ok, checkedUsize_of_lt (by omega), okOr_some,
    bind_ok, clipLoop_eq (by omega)]
  apply refuseIf_bind_congr
  intro _
  apply bind_congr_ok
  intro clips hclips
  have hcursor := clipLoop_cursor hclips
  rw [readArraysAt_eq (by omega)]

end Checked

end ContentHashTable
