import Aacs.Aes

/-!
# SHA-1

The message digest of the signatures: padding, the message schedule and the
80-round compression of each 64-byte block.
-/
namespace Sha1

/-- The five chaining words. -/
structure State where
  a : UInt32
  b : UInt32
  c : UInt32
  d : UInt32
  e : UInt32

def initial : State := ⟨0x67452301, 0xEFCDAB89, 0x98BADCFE, 0x10325476, 0xC3D2E1F0⟩

def rotateLeft (x n : UInt32) : UInt32 := (x <<< n) ||| (x >>> (32 - n))

def padded (data : List UInt8) : List UInt8 :=
  data ++ [0x80] ++ Aes.zeroPad 64 56 (data.length + 1) ++ Aes.bitLenBytes data

/-- The sixteen big-endian words of a block. -/
def blockWords (block : List UInt8) : List UInt32 :=
  (List.range 16).map fun i =>
    u32FromBe (block.getD (4 * i) 0) (block.getD (4 * i + 1) 0) (block.getD (4 * i + 2) 0)
      (block.getD (4 * i + 3) 0)

/-- `n` more words of the schedule. -/
def extend : Nat → List UInt32 → List UInt32
  | 0, w => w
  | n + 1, w =>
    let i := w.length
    extend n (w ++ [rotateLeft (w.getD (i - 3) 0 ^^^ w.getD (i - 8) 0 ^^^ w.getD (i - 14) 0 ^^^
      w.getD (i - 16) 0) 1])

/-- The round function and constant of round `i`. -/
def roundFunction (i : Nat) (b c d : UInt32) : UInt32 × UInt32 :=
  if i ≤ 19 then ((b &&& c) ||| (~~~b &&& d), 0x5A827999)
  else if i ≤ 39 then (b ^^^ c ^^^ d, 0x6ED9EBA1)
  else if i ≤ 59 then ((b &&& c) ||| (b &&& d) ||| (c &&& d), 0x8F1BBCDC)
  else (b ^^^ c ^^^ d, 0xCA62C1D6)

def round (s : State) (i : Nat) (wi : UInt32) : State :=
  let fk := roundFunction i s.b s.c s.d
  ⟨rotateLeft s.a 5 + fk.1 + s.e + fk.2 + wi, s.a, rotateLeft s.b 30, s.c, s.d⟩

def rounds : Nat → List UInt32 → State → State
  | _, [], s => s
  | i, wi :: ws, s => rounds (i + 1) ws (round s i wi)

def compress (h : State) (block : List UInt8) : State :=
  let s := rounds 0 (extend 64 (blockWords block)) h
  ⟨h.a + s.a, h.b + s.b, h.c + s.c, h.d + s.d, h.e + s.e⟩

def State.toBytes (s : State) : Bytes 20 :=
  ⟨[s.a, s.b, s.c, s.d, s.e].flatMap fun w => beBytes 4 w.toNat, by simp⟩

def sha1 (data : List UInt8) : Bytes 20 :=
  ((Aes.chunksExact 64 (padded data)).foldl compress initial).toBytes

end Sha1
