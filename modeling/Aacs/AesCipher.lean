import Aacs.Aes

/-!
# AES-128

A block cipher for the parameter `Aes128`: the FIPS-197 cipher and its inverse,
in the tables, row shifts and column products of the standard. General results
keep the cipher a parameter; runs on concrete bytes use this one.
-/
namespace Aes128

/-- The S-box, read as a number whose byte `x` is the image of `x`. -/
def sboxTable : Nat :=
  0x16bb54b00f2d99416842e6bf0d89a18cdf2855cee9871e9b948ed9691198f8e1 <<< 1792 |||
    0x9e1dc186b95735610ef6034866b53e708a8bbd4b1f74dde8c6b4a61c2e2578ba <<< 1536 |||
    0x08ae7a65eaf4566ca94ed58d6d37c8e779e4959162acd3c25c2406490a3a32e0 <<< 1280 |||
    0xdb0b5ede14b8ee4688902a22dc4f816073195d643d7ea7c41744975fec130ccd <<< 1024 |||
    0xd2f3ff1021dab6bcf5389d928f40a351a89f3c507f02f94585334d43fbaaefd0 <<< 768 |||
    0xcf584c4a39becb6a5bb1fc20ed00d153842fe329b3d63b52a05a6e1b1a2c8309 <<< 512 |||
    0x75b227ebe28012079a059618c323c7041531d871f1e5a534ccf73f362693fdb7 <<< 256 |||
    0xc072a49cafa2d4adf04759fa7dc982ca76abd7fe2b670130c56f6bf27b777c63

def invSboxTable : Nat :=
  0x7d0c2155631469e126d677ba7e042b17619953833cbbebc8b0f52aae4d3be0a0 <<< 1792 |||
    0xef9cc9939f7ae52d0d4ab519a97f51605fec8027591012b131c7078833a8dd1f <<< 1536 |||
    0xf45acd78fec0db9a2079d2c64b3e56fc1bbe18aa0e62b76f89c5291d711af147 <<< 1280 |||
    0x6edf751ce837f9e28535ade72274ac9673e6b4f0cecff297eadc674f4111913a <<< 1024 |||
    0x6b8a130103bdafc1020f3fca8f1e2cd00645b3b80558e4f70ad3bc8c00abd890 <<< 768 |||
    0x849d8da75746155edab9edfd5048706c92b6655dcc5ca4d41698688664f6f872 <<< 512 |||
    0x25d18b6d49a25b76b224d92866a12e084ec3fa420b954cee3d23c2a632947b54 <<< 256 |||
    0xcbe9dec444438e3487ff2f9b8239e37cfbd7f3819ea340bf38a53630d56a0952

def lookup (table : Nat) (x : UInt8) : UInt8 := UInt8.ofNat (table >>> (8 * x.toNat))

/-- Multiplication by `x` in `GF(2^8)`. -/
def xtime (b : UInt8) : UInt8 := if b &&& 0x80 = 0 then b <<< 1 else (b <<< 1) ^^^ 0x1b

def xorAll (xs ys : List UInt8) : List UInt8 := List.zipWith (· ^^^ ·) xs ys

/-- The next round key: the last word rotated, substituted and folded through the others. -/
def nextRoundKey (key : List UInt8) (rcon : UInt8) : List UInt8 :=
  let w₃ := (key.drop 12).take 4
  let t := ((w₃.drop 1) ++ w₃.take 1).map (lookup sboxTable)
  let n₀ := xorAll (key.take 4) (xorAll t [rcon, 0, 0, 0])
  let n₁ := xorAll ((key.drop 4).take 4) n₀
  let n₂ := xorAll ((key.drop 8).take 4) n₁
  let n₃ := xorAll w₃ n₂
  n₀ ++ n₁ ++ n₂ ++ n₃

def roundKeys : Nat → UInt8 → List UInt8 → List (List UInt8)
  | 0, _, key => [key]
  | n + 1, rcon, key => key :: roundKeys n (xtime rcon) (nextRoundKey key rcon)

/-- Bytes are in column order: `ShiftRows` moves byte `5 * i` to place `i`. -/
def shiftRows (s : List UInt8) : List UInt8 := (List.range 16).map fun i => s.getD (5 * i % 16) 0

def invShiftRows (s : List UInt8) : List UInt8 :=
  (List.range 16).map fun i => s.getD (13 * i % 16) 0

def mixColumn : List UInt8 → List UInt8
  | a :: b :: c :: d :: rest =>
    let t := a ^^^ b ^^^ c ^^^ d
    (a ^^^ t ^^^ xtime (a ^^^ b)) :: (b ^^^ t ^^^ xtime (b ^^^ c)) ::
      (c ^^^ t ^^^ xtime (c ^^^ d)) :: (d ^^^ t ^^^ xtime (d ^^^ a)) :: mixColumn rest
  | rest => rest

/-- The inverse of `mixColumn`: a preparatory multiplication, then `mixColumn`. -/
def invMixPrepare : List UInt8 → List UInt8
  | a :: b :: c :: d :: rest =>
    let u := xtime (xtime (a ^^^ c))
    let v := xtime (xtime (b ^^^ d))
    (a ^^^ u) :: (b ^^^ v) :: (c ^^^ u) :: (d ^^^ v) :: invMixPrepare rest
  | rest => rest

def invMixColumn (s : List UInt8) : List UInt8 := mixColumn (invMixPrepare s)

def encryptRounds : List UInt8 → List (List UInt8) → List UInt8
  | s, [] => s
  | s, [k] => xorAll (shiftRows (s.map (lookup sboxTable))) k
  | s, k :: ks => encryptRounds (xorAll (mixColumn (shiftRows (s.map (lookup sboxTable)))) k) ks

def decryptRounds : List UInt8 → List (List UInt8) → List UInt8
  | s, [] => s
  | s, [k] => xorAll ((invShiftRows s).map (lookup invSboxTable)) k
  | s, k :: ks =>
    decryptRounds (invMixColumn (xorAll ((invShiftRows s).map (lookup invSboxTable)) k)) ks

def encryptBlock (key data : Bytes 16) : Bytes 16 :=
  match roundKeys 10 1 key.toList with
  | [] => data
  | k :: ks => Aes.block (encryptRounds (xorAll data.toList k) ks)

def decryptBlock (key data : Bytes 16) : Bytes 16 :=
  match (roundKeys 10 1 key.toList).reverse with
  | [] => data
  | k :: ks => Aes.block (decryptRounds (xorAll data.toList k) ks)

def fips197 : Aes128 := ⟨encryptBlock, decryptBlock⟩

example : (fips197.encrypt (Bytes.ofNat 16 0x000102030405060708090a0b0c0d0e0f)
    (Bytes.ofNat 16 0x00112233445566778899aabbccddeeff)).toList =
      beBytes 16 0x69c4e0d86a7b0430d8cdb78070b4c55a := by decide +kernel

example : (fips197.decrypt (Bytes.ofNat 16 0x000102030405060708090a0b0c0d0e0f)
    (Bytes.ofNat 16 0x69c4e0d86a7b0430d8cdb78070b4c55a)).toList =
      beBytes 16 0x00112233445566778899aabbccddeeff := by decide +kernel

end Aes128
