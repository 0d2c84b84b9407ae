import Aacs.ContentCertificate
import Aacs.Usize

/-!
# The parsers of a content certificate return

Bounds for the certificate and its section, and the same parsers with checked
sums, which compute the same.
-/

open Outcome

namespace BdFormatSpecificSection

theorem returns_parse (bytes : List UInt8) : Returns (parse bytes) := by
  apply Returns.refuseIf_bind
  intro hlen
  refine (returns_readArray (by omega)).bind fun mc _ => (returns_readArray (by omega)).bind
    fun bdj _ =>
    (returns_indexU16 (by omega)).bind fun num _ => Returns.refuseIf_bind fun hrequired => ?_
  exact (returns_readArrays (by omega)).bind fun _ _ => returns_ok _

namespace Checked

def parse (bytes : List UInt8) : Result BdFormatSpecificSection := do
  refuseIf (bytes.length < 42) (.truncated "Content Certificate BD Format-Specific Section")
  let mc ← readArray 20 bytes 0
  let bdj ← readArray 20 bytes 20
  let numOfCpsUnit ← indexU16 bytes 40
  let hashes ← okOr (checkedUsize (numOfCpsUnit.toNat * 20))
    (.truncated "Content Certificate CPS Unit Usage hash array")
  let required ← okOr (checkedUsize (42 + hashes))
    (.truncated "Content Certificate BD Format-Specific Section")
  refuseIf (bytes.length < required)
    (.oversizedRecord "Content Certificate BD Format-Specific Section" required bytes.length)
  let usage ← readArraysAt 20 numOfCpsUnit.toNat bytes 42
  pure ⟨mc, bdj, usage⟩

theorem parse_eq (bytes : List UInt8) : parse bytes = BdFormatSpecificSection.parse bytes := by
  apply refuseIf_bind_congr
  intro _
  apply bind_congr_ok
  intro mc _
  apply bind_congr_ok
  intro bdj _
  apply bind_congr_ok
  intro num _
  have hnum : num.toNat < 2 ^ 16 := num.toNat_lt
  rw [checkedUsize_of_lt (by omega), okOr_some, bind_ok, checkedUsize_of_lt (by omega),
    okOr_some, bind_ok, readArraysAt_eq (by omega)]

end Checked

end BdFormatSpecificSection

namespace ContentCertificate

theorem returns_readFormatSpecificSection {bytes : List UInt8} {length : Nat}
    (h : 26 + (if length = 0 then 2 else length) ≤ bytes.length) :
    Returns (readFormatSpecificSection bytes length) := by
  rw [readFormatSpecificSection]
  by_cases hpos : length > 0
  · rw [if_neg (Nat.ne_of_gt hpos)] at h
    rw [if_pos hpos]
    exact returns_slice (Nat.le_add_right _ _) h
  · rw [if_neg hpos]
    exact returns_ok _

theorem returns_parse (bytes : List UInt8) : Returns (parse bytes) := by
  apply Returns.refuseIf_bind
  intro hlen
  refine (returns_index (by omega)).bind fun type _ => Returns.refuseIf_bind fun _ =>
    (returns_index (by omega)).bind fun flags _ => (returns_indexU32 (by omega)).bind fun units _ =>
    (returns_index (by omega)).bind fun layers _ => (returns_index (by omega)).bind fun layer _ =>
    (returns_indexU32 (by omega)).bind fun layerUnits _ => (returns_indexU16 (by omega)).bind
      fun digests _ =>
    (returns_readArray (by omega)).bind fun applicant _ => (returns_readArray (by omega)).bind
      fun sequence _ =>
    (returns_indexU16 (by omega)).bind fun crl _ => (returns_indexU16 (by omega)).bind
      fun length _ =>
    Returns.refuseIf_bind fun _ => Returns.refuseIf_bind fun htotal => ?_
  exact (returns_readFormatSpecificSection (by omega)).bind fun _ _ =>
    (returns_readArrays (by omega)).bind fun _ _ =>
    (returns_readArray (by omega)).bind fun _ _ => returns_ok _

namespace Checked

def readFormatSpecificSection (bytes : List UInt8) (length : Nat) : Result (List UInt8) :=
  if length > 0 then do
    usize (26 + length)
    slice bytes 26 (26 + length)
  else pure []

/-- The digests from `i` on. -/
def digestLoop (bytes : List UInt8) (digestsOffset : Nat) : Nat → Nat → Result (List (Bytes 8))
  | 0, _ => pure []
  | n + 1, i => do
    usize (i * 8)
    usize (digestsOffset + i * 8)
    let d ← readArrayAt bytes (digestsOffset + i * 8) 8
    let rest ← digestLoop bytes digestsOffset n (i + 1)
    pure (d :: rest)

def parse (bytes : List UInt8) : Result ContentCertificate := do
  refuseIf (bytes.length < 26) (.truncated "Content Certificate header")
  let certificateType ← index bytes 0
  refuseIf (certificateType ≠ certificateTypeFirstGen)
    (.invalidValue "Content Certificate Type" certificateType.toNat)
  let flags ← index bytes 1
  let totalNumberOfHashUnits ← indexU32 bytes 2
  let totalNumberOfLayers ← index bytes 6
  let layerNumber ← index bytes 7
  let numberOfHashUnits ← indexU32 bytes 8
  let numberOfDigests ← indexU16 bytes 12
  let applicantId ← readArray 2 bytes 14
  let contentSequenceNumber ← readArray 4 bytes 16
  let minimumCrlVersion ← indexU16 bytes 20
  let lengthFormatSpecificSection ← indexU16 bytes 24
  let lengthFormatSpecificSection := lengthFormatSpecificSection.toNat
  usize (lengthFormatSpecificSection + 2)
  refuseIf (lengthFormatSpecificSection ≠ 0 ∧ (lengthFormatSpecificSection + 2) % 4 ≠ 0)
    (.invalidValue "Content Certificate Length_Format_Specific_Section (must be 0 or ≡ 2 mod 4)"
      lengthFormatSpecificSection)
  let formatSpecificSectionLen :=
  if lengthFormatSpecificSection = 0 then 2 else lengthFormatSpecificSection
  usize (26 + formatSpecificSectionLen)
  let digestsOffset := 26 + formatSpecificSectionLen
  let digestsLen ← okOr (checkedUsize (numberOfDigests.toNat * 8))
    (.truncated "Content Certificate digest-array length")
  let signatureOffset ← okOr (checkedUsize (digestsOffset + digestsLen))
    (.truncated "Content Certificate signature offset")
  let total ← okOr (checkedUsize (signatureOffset + 40))
    (.truncated "Content Certificate total length")
  refuseIf (bytes.length < total) (.oversizedRecord "Content Certificate" total bytes.length)
  let formatSpecificSection ← readFormatSpecificSection bytes lengthFormatSpecificSection
  let contentHashTableDigests ← digestLoop bytes digestsOffset numberOfDigests.toNat 0
  let signatureData ← readArrayAt bytes signatureOffset 40
  pure { certificateType, bee := flags &&& 0x80 ≠ 0, totalNumberOfHashUnits, totalNumberOfLayers,
         layerNumber, numberOfHashUnits, numberOfDigests, applicantId, contentSequenceNumber,
         minimumCrlVersion, formatSpecificSection, contentHashTableDigests, signatureData }

variable {bytes : List UInt8} {n : Nat}

theorem readFormatSpecificSection_eq (h : 26 + n < 2 ^ 64) :
    readFormatSpecificSection bytes n = ContentCertificate.readFormatSpecificSection bytes n := by
  rw [readFormatSpecificSection, ContentCertificate.readFormatSpecificSection, usize_bind h]

theorem digestLoop_eq {digestsOffset i : Nat} (h : digestsOffset + (i + n) * 8 < 2 ^ 64) :
    digestLoop bytes digestsOffset n i = readArrays 8 n bytes (digestsOffset + i * 8) := by
  induction n generalizing i with
  | zero => rfl
  | succ n ih =>
    rw [digestLoop, readArrays, usize_bind (by omega), usize_bind (by omega),
      readArrayAt_eq (by omega), ih (by omega), Nat.succ_mul, Nat.add_assoc]

theorem parse_eq (bytes : List UInt8) : parse bytes = ContentCertificate.parse bytes := by
  refine refuseIf_bind_congr fun _ => bind_congr_ok fun type _ => refuseIf_bind_congr fun _ =>
    bind_congr_ok fun flags _ =>
    bind_congr_ok fun units _ => bind_congr_ok fun layers _ => bind_congr_ok fun layer _ =>
    bind_congr_ok fun layerUnits _ => bind_congr_ok fun digests _ =>
      bind_congr_ok fun applicant _ =>
    bind_congr_ok fun sequence _ => bind_congr_ok fun crl _ => bind_congr_ok fun length _ => ?_
  have hdigests : digests.toNat < 2 ^ 16 := digests.toNat_lt
  have hlength : length.toNat < 2 ^ 16 := length.toNat_lt
  have hsection : (if length.toNat = 0 then 2 else length.toNat) < 2 ^ 17 := by
    split
    · decide
    · omega
  dsimp only
  rw [usize_bind (by omega)]
  apply refuseIf_bind_congr
  intro _
  rw [usize_bind (by omega), checkedUsize_of_lt (by omega), okOr_some, bind_ok,
    checkedUsize_of_lt (by omega), okOr_some, bind_ok, checkedUsize_of_lt (by omega),
    okOr_some, bind_ok, readFormatSpecificSection_eq (by omega),
    digestLoop_eq (by omega), readArrayAt_eq (by omega), Nat.zero_mul]
  rfl

end Checked

end ContentCertificate
