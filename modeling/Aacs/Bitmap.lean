import Aacs.Bytes
import Mathlib.Data.Nat.Bitwise

/-!
# Bitmaps

The bits of a byte string from an offset on, the most significant bit of each byte
first. Setting one bit leaves every other one.
-/

/-- The bit that stands at a place of a byte, counted from the most significant one. -/
def byteBit (b : UInt8) (j : Nat) : Bool := b.toNat.testBit (7 - j % 8)

/-- `1 << (7 - j % 8)`. -/
def byteMask (j : Nat) : UInt8 := 1 <<< UInt8.ofNat (7 - j % 8)

@[simp] theorem byteBit_zero (j : Nat) : byteBit 0 j = false := Nat.zero_testBit _

theorem toNat_place (j : Nat) : (UInt8.ofNat (7 - j % 8)).toNat % 8 = 7 - j % 8 := by
  rw [UInt8.toNat_ofNat', Nat.mod_mod_of_dvd _ (by decide)]
  omega

theorem toNat_byteMask (j : Nat) : (byteMask j).toNat = 2 ^ (7 - j % 8) := by
  have hpow : 2 ^ (7 - j % 8) < 2 ^ 8 := Nat.pow_lt_pow_right (by decide) (by omega)
  rw [byteMask, UInt8.toNat_shiftLeft, toNat_place, UInt8.toNat_one, Nat.shiftLeft_eq, Nat.one_mul,
    Nat.mod_eq_of_lt hpow]

theorem byteBit_or_byteMask (b : UInt8) (i j : Nat) :
    byteBit (b ||| byteMask i) j = (byteBit b j || decide (j % 8 = i % 8)) := by
  have hplace : decide (7 - i % 8 = 7 - j % 8) = decide (j % 8 = i % 8) :=
    decide_eq_decide.mpr (by omega)
  rw [byteBit, UInt8.toNat_or, toNat_byteMask, Nat.testBit_or, Nat.testBit_two_pow, hplace, byteBit]

/-- `(b >> (7 - j % 8)) & 1`. -/
theorem shiftRight_and_one (b : UInt8) (j : Nat) :
    b >>> UInt8.ofNat (7 - j % 8) &&& 1 = 1 ↔ byteBit b j = true := by
  rw [← UInt8.toNat_inj, UInt8.toNat_and, UInt8.toNat_shiftRight, toNat_place, UInt8.toNat_one,
    Nat.and_one_is_mod, Nat.shiftRight_eq_div_pow, byteBit, Nat.testBit_eq_decide_div_mod_eq,
    decide_eq_true_iff]

variable (bs : List UInt8) (off i j : Nat)

def bitAt : Bool := byteBit (bs.getD (off + j / 8) 0) j

def setBit : List UInt8 := bs.set (off + i / 8) (bs.getD (off + i / 8) 0 ||| byteMask i)

@[simp] theorem length_setBit : (setBit bs off i).length = bs.length := List.length_set

@[simp] theorem take_setBit : (setBit bs off i).take off = bs.take off :=
  List.take_set_of_le (Nat.le_add_right off (i / 8))

variable {bs off i}

theorem bitAt_setBit (h : off + i / 8 < bs.length) :
    bitAt (setBit bs off i) off j = (bitAt bs off j || decide (j = i)) := by
  by_cases hbyte : i / 8 = j / 8
  · have hplace : decide (j % 8 = i % 8) = decide (j = i) := decide_eq_decide.mpr (by omega)
    have hget : (setBit bs off i).getD (off + j / 8) 0 = bs.getD (off + j / 8) 0 |||
        byteMask i := by
      rw [setBit, ← hbyte]
      simp [h]
    rw [bitAt, hget, byteBit_or_byteMask, hplace, bitAt]
  · have hne : ¬ j = i := by
      rintro rfl
      exact hbyte rfl
    have hget : (setBit bs off i).getD (off + j / 8) 0 = bs.getD (off + j / 8) 0 := by
      rw [setBit]
      simp [List.getD, hbyte]
    rw [bitAt, hget, decide_eq_false hne, Bool.or_false, bitAt]
