import Mathlib.Data.Nat.Bitwise
import Mathlib.Data.Nat.Size
import Mathlib.FieldTheory.Finite.Basic
import Mathlib.Tactic.Ring

/-!
# Loops over the bits of a number, most significant first

Square-and-multiply, double-and-add and bitwise long division are one loop:
`for i in (0..n).rev() { acc = step(acc, bit(i)) }`. Its invariant relates the
accumulator to the prefix of the number read so far, and reading one more bit
takes the prefix `m` to `2 * m + b`.
-/
namespace Ladder

variable {α : Type}

def msbFold (step : α → Bool → α) (bit : Nat → Bool) : Nat → α → α
  | 0, acc => acc
  | n + 1, acc => msbFold step bit n (step acc (bit n))

theorem div_two_pow_bit (v n : Nat) :
    v / 2 ^ n = 2 * (v / 2 ^ (n + 1)) + (v.testBit n).toNat := by
  rw [Nat.toNat_testBit, Nat.pow_succ, ← Nat.div_div_eq_div_mul]
  omega

/-- The invariant rule: `R m acc` says what the accumulator holds once the
prefix `m` has been read. -/
theorem msbFold_spec (R : Nat → α → Prop) (step : α → Bool → α) (v : Nat)
    (hstep : ∀ m acc b, R m acc → R (2 * m + b.toNat) (step acc b)) (n : Nat) (acc : α)
    (h : R (v / 2 ^ n) acc) : R v (msbFold step v.testBit n acc) := by
  induction n generalizing acc with
  | zero => simpa [msbFold] using h
  | succ n ih =>
    apply ih
    rw [div_two_pow_bit]
    exact hstep _ _ _ h

/-- The rule from the top: with every significant bit read, the prefix starts at zero. -/
theorem msbFold_of_size_le (R : Nat → α → Prop) (step : α → Bool → α) (v n : Nat) (acc : α)
    (hstep : ∀ m acc b, R m acc → R (2 * m + b.toNat) (step acc b)) (hn : v.size ≤ n)
    (h : R 0 acc) : R v (msbFold step v.testBit n acc) := by
  apply msbFold_spec R step v hstep
  rwa [Nat.div_eq_of_lt (Nat.size_le.mp hn)]

/-- High zero bits that leave the accumulator as it is can be left out. -/
theorem msbFold_high_zeros (step : α → Bool → α) (bit : Nat → Bool) (n m : Nat) (acc : α)
    (hbit : ∀ i, n ≤ i → bit i = false) (hacc : step acc false = acc) :
    msbFold step bit (n + m) acc = msbFold step bit n acc := by
  induction m with
  | zero => rfl
  | succ m ih => rw [← Nat.add_assoc, msbFold, hbit _ (Nat.le_add_right n m), hacc, ih]

/-- Two loops over the same bits stay related when their steps do. -/
theorem msbFold_rel {β : Type} (R : α → β → Prop) (step : α → Bool → α) (step' : β → Bool → β)
    (bit : Nat → Bool) (hstep : ∀ a b c, R a b → R (step a c) (step' b c)) (n : Nat) (a : α) (b : β)
    (h : R a b) : R (msbFold step bit n a) (msbFold step' bit n b) := by
  induction n generalizing a b with
  | zero => exact h
  | succ n ih => exact ih _ _ (hstep a b _ h)

/-- What every step keeps holds at the end of the loop. -/
theorem msbFold_invariant (I : α → Prop) (step : α → Bool → α) (bit : Nat → Bool)
    (hstep : ∀ acc b, I acc → I (step acc b)) (n : Nat) (acc : α) (h : I acc) :
    I (msbFold step bit n acc) := by
  induction n generalizing acc with
  | zero => exact h
  | succ n ih => exact ih _ (hstep acc _ h)

def powStep (m a r : Nat) (b : Bool) : Nat :=
  bif b then r * r % m * a % m else r * r % m

/-- `a ^ e % m`, for an exponent of at most `bits` bits. -/
def powMod (m bits a e : Nat) : Nat := msbFold (powStep m a) e.testBit bits (1 % m)

theorem powStep_spec (m a e r : Nat) (b : Bool) (h : r = a ^ e % m) :
    powStep m a r b = a ^ (2 * e + b.toNat) % m := by
  subst h
  have hsquare : a ^ e % m * (a ^ e % m) % m = a ^ (2 * e) % m := by
    rw [← Nat.mul_mod, two_mul, pow_add]
  cases b
  · simpa [powStep] using hsquare
  · simp [powStep, hsquare, pow_succ]

theorem powMod_spec (m bits a e : Nat) (he : e < 2 ^ bits) : powMod m bits a e = a ^ e % m := by
  refine msbFold_of_size_le (fun k r => r = a ^ k % m) _ e bits _ ?_ (Nat.size_le.mpr he) (by simp)
  intro k r b h
  exact powStep_spec m a k r b h

theorem pow_eq_one_iff {m : Nat} (hm : 2 ≤ m) (a e : Nat) :
    (a : ZMod m) ^ e = 1 ↔ a ^ e % m = 1 := by
  rw [← Nat.cast_pow, ← Nat.cast_one, ZMod.natCast_eq_natCast_iff',
    Nat.mod_eq_of_lt (a := 1) (by omega)]

/-- Fermat's inverse: the power `q - 2`. -/
theorem zmod_fermat_inv {q : Nat} [Fact q.Prime] {a : ZMod q} (ha : a ≠ 0) : a ^ (q - 2) = a⁻¹ := by
  apply eq_inv_of_mul_eq_one_left
  have htwo := (Fact.out : q.Prime).two_le
  rw [← pow_succ, show q - 2 + 1 = q - 1 from by omega, ZMod.pow_card_sub_one_eq_one ha]

end Ladder
