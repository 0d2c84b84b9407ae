import Aacs.Aes
import Aacs.Error
import Aacs.KeyTree

/-!
# The subset-difference tree walk

A device key gives the keys of the nodes below its own through the Triple-AES
Generator. A subset difference applies to a device below its `u` node and not
below its `v` node; the walk leads from a device key down to the `v` node, whose
processing key decrypts the media key.
-/
namespace Subdiff

def aesG3SeedS0 : Bytes 16 :=
  ⟨[0x7B, 0x10, 0x3C, 0x5D, 0xCB, 0x08, 0xC4, 0xE5, 0x1A, 0x27, 0xB0, 0x17, 0x99, 0x05, 0x3B, 0xD9],
    rfl⟩

structure AesG3Output where
  leftChild : Bytes 16
  processingKey : Bytes 16
  rightChild : Bytes 16
  deriving DecidableEq

/-- A 128-bit big-endian addition that wraps. -/
def addBeU128 (buf : Bytes 16) (addend : Nat) : Bytes 16 :=
  Bytes.ofNat 16 ((beNat buf.toList + addend) % 2 ^ 128)

/-- `x.trailing_zeros()`: 32 for zero. -/
def trailingZeros (x : UInt32) : Nat := x.toBitVec.ctz.toNat

/-- One row of the Explicit-Subset-Difference Record. -/
structure SubsetDifference where
  uMaskZeroBits : UInt8
  uv : UInt32
  deriving DecidableEq

namespace SubsetDifference

def uMask (sd : SubsetDifference) : UInt32 :=
  if sd.uMaskZeroBits = 0 then 0xFFFFFFFF
  else if 32 ≤ sd.uMaskZeroBits then 0
  else 0xFFFFFFFF <<< sd.uMaskZeroBits.toUInt32

/-- The zero bits are the lowest set bit of `uv` and all bits below it. -/
def vMask (sd : SubsetDifference) : UInt32 :=
  if sd.uv = 0 then 0
  else
    let zeroBits := trailingZeros sd.uv + 1
    if 32 ≤ zeroBits then 0 else 0xFFFFFFFF <<< UInt32.ofNat zeroBits

end SubsetDifference

def appliesToDevice (sd : SubsetDifference) (dNode : UInt32) : Bool :=
  dNode &&& sd.uMask = sd.uv &&& sd.uMask && dNode &&& sd.vMask ≠ sd.uv &&& sd.vMask

variable (aes : Aes128)

def aesG3Step (key seed : Bytes 16) (i : Nat) : Bytes 16 :=
  let s := addBeU128 seed i
  (aes.decrypt key s).xor s

def aesG3WithSeed (deviceKey seed : Bytes 16) : AesG3Output where
  leftChild := aesG3Step aes deviceKey seed 0
  processingKey := aesG3Step aes deviceKey seed 1
  rightChild := aesG3Step aes deviceKey seed 2

def aesG3 (deviceKey : Bytes 16) : AesG3Output := aesG3WithSeed aes deviceKey aesG3SeedS0

/-- The loop of the walk: `m_zeros` counts down to the target, the bit below it chooses the child.
-/
def walkDown (targetUv : UInt32) (target : Nat) : Nat → Bytes 16 → Result (Bytes 16)
  | 0, dK => pure dK
  | bitPos + 1, dK =>
    if target < bitPos + 1 then do
      let shifted ← Outcome.shrU32 targetUv bitPos
      let triple := aesG3 aes dK
      walkDown targetUv target bitPos
        (if shifted &&& 1 = 0 then triple.leftChild else triple.rightChild)
    else pure dK

/-- `stored_uv` is an argument that the walk does not read. -/
def deriveProcessingKey (storedDeviceKey : Bytes 16) (_storedUv : UInt32)
    (storedVMaskZeroBits : UInt8)
    (targetUv : UInt32) (targetVMaskZeroBits : UInt8) : Result (Option (Bytes 16)) :=
  if storedVMaskZeroBits = targetVMaskZeroBits then
    pure (some (aesG3 aes storedDeviceKey).processingKey)
  else do
    let dK ← walkDown aes targetUv targetVMaskZeroBits.toNat storedVMaskZeroBits.toNat
      storedDeviceKey
    pure (some (aesG3 aes dK).processingKey)

/-- `0^96 || uv`. -/
def uvBlock (uv : UInt32) : Bytes 16 := ⟨List.replicate 12 0 ++ u32ToBe uv, rfl⟩

/-- The last four bytes of the plaintext are xored with `uv`. -/
def mediaKeyFromProcessingKey (processingKey : Bytes 16) (targetUv : UInt32)
    (encryptedMediaKey : Bytes 16) :
    Bytes 16 :=
  let d := aes.decrypt processingKey encryptedMediaKey
  (d.slice 0 12).append ((d.slice 12 4).xor ⟨u32ToBe targetUv, rfl⟩)

def applyKeyConversionData (mediaKeyPrecursor kcd : Bytes 16) : Bytes 16 :=
  Aes.aesG aes mediaKeyPrecursor kcd

end Subdiff
