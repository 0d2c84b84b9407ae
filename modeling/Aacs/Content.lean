import Aacs.Aes
import Aacs.Error

/-!
# Content scrambling

Cipher block chaining, and the Aligned Unit over it: sixteen bytes in the clear,
which give the key of the unit, and 6128 bytes chained under that key.
-/
namespace Aes

/-- The default initialization vector. -/
def iv0 : Bytes 16 :=
  ⟨[0x0B, 0xA0, 0xF8, 0xDD, 0xFE, 0xA6, 0x1F, 0xB3, 0xD8, 0xDF, 0x9F, 0x56, 0x6A, 0x05, 0x0F, 0x78],
    rfl⟩

variable (aes : Aes128)

/-- The chaining of one block after another; `prev` is the last ciphertext block. -/
def cbcEncryptChunks (key : Bytes 16) : Bytes 16 → List (List UInt8) → List UInt8
  | _, [] => []
  | prev, chunk :: chunks =>
    let ct := aes.encrypt key ((block chunk).xor prev)
    ct.toList ++ cbcEncryptChunks key ct chunks

def cbcDecryptChunks (key : Bytes 16) : Bytes 16 → List (List UInt8) → List UInt8
  | _, [] => []
  | prev, chunk :: chunks =>
    let ct := block chunk
    ((aes.decrypt key ct).xor prev).toList ++ cbcDecryptChunks key ct chunks

/-- The length of the data must be a multiple of sixteen: an `assert!`. -/
def cbcEncrypt (key iv : Bytes 16) (data : List UInt8) : Result (List UInt8) :=
  if data.length % 16 = 0 then .ok (cbcEncryptChunks aes key iv (chunksExact 16 data)) else .panic

def cbcDecrypt (key iv : Bytes 16) (data : List UInt8) : Result (List UInt8) :=
  if data.length % 16 = 0 then .ok (cbcDecryptChunks aes key iv (chunksExact 16 data)) else .panic

end Aes

namespace Content

variable (aes : Aes128)

def alignedUnitSize : Nat := 6144

def alignedUnitSeedSize : Nat := 16

/-- `AES-G` with encryption in place of decryption. -/
def deriveBlockKey (cpsUnitKey seed : Bytes 16) : Bytes 16 := (aes.encrypt cpsUnitKey seed).xor seed

/-- The seed passes through, the rest is chained under the block key. -/
def alignedUnit (cbc : Bytes 16 → Bytes 16 → List UInt8 → Result (List UInt8))
    (cpsUnitKey : Bytes 16) (unitBytes : List UInt8) : Result (Bytes alignedUnitSize) := do
  Outcome.refuseIf (unitBytes.length ≠ alignedUnitSize) (.badAlignedUnitLength unitBytes.length)
  let seed ← Outcome.slice unitBytes 0 alignedUnitSeedSize
  let seed ← Outcome.copyFrom 16 seed
  let blockKey := deriveBlockKey aes cpsUnitKey seed
  let rest ← Outcome.sliceFrom unitBytes alignedUnitSeedSize
  let text ← cbc blockKey Aes.iv0 rest
  Outcome.copyFrom alignedUnitSize (seed.toList ++ text)

def decryptAlignedUnit (cpsUnitKey : Bytes 16) (unitBytes : List UInt8) :
    Result (Bytes alignedUnitSize) :=
  alignedUnit aes (Aes.cbcDecrypt aes) cpsUnitKey unitBytes

def encryptAlignedUnit (cpsUnitKey : Bytes 16) (unitBytes : List UInt8) :
    Result (Bytes alignedUnitSize) :=
  alignedUnit aes (Aes.cbcEncrypt aes) cpsUnitKey unitBytes

end Content
