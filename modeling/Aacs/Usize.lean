import Aacs.Bytes

/-!
# Sizes, offsets and bounds

Reads return when they are in bounds, and a read behind a cursor is a read at the
cursor's offset. Where the width of an offset matters, the sum is checked against
a 64-bit `usize`: it is inside one for all byte strings that a slice can hold.
-/
namespace Outcome

variable {ε : Type} {bs : List UInt8} {off n : Nat}

theorem Returns.ite {α : Type} {c : Prop} [Decidable c] {x y : Outcome ε α} (hx : Returns x)
    (hy : Returns y) :
    Returns (if c then x else y) := by
  by_cases hc : c
  · rwa [if_pos hc]
  · rwa [if_neg hc]

theorem returns_index (h : off < bs.length) : Returns (index bs off : Outcome ε UInt8) := by
  rw [index_of_lt h]
  exact returns_ok _

theorem returns_indexU16 (h : off + 2 ≤ bs.length) : Returns (indexU16 bs off : Outcome ε UInt16) :=
  (returns_index (by omega)).bind fun _ _ => (returns_index (by omega)).bind fun _ _ => returns_ok _

theorem returns_indexU24 (h : off + 3 ≤ bs.length) : Returns (indexU24 bs off : Outcome ε UInt32) :=
  (returns_index (by omega)).bind fun _ _ => (returns_index (by omega)).bind fun _ _ =>
    (returns_index (by omega)).bind fun _ _ => returns_ok _

theorem returns_indexU32 (h : off + 4 ≤ bs.length) : Returns (indexU32 bs off : Outcome ε UInt32) :=
  (returns_index (by omega)).bind fun _ _ => (returns_index (by omega)).bind fun _ _ =>
    (returns_index (by omega)).bind fun _ _ => (returns_index (by omega)).bind fun _ _ =>
      returns_ok _

theorem returns_slice {a b : Nat} (ha : a ≤ b) (hb : b ≤ bs.length) :
    Returns (slice bs a b : Outcome ε (List UInt8)) := by
  rw [slice_of_le ha hb]
  exact returns_ok _

theorem returns_sliceFrom (h : off ≤ bs.length) :
    Returns (sliceFrom bs off : Outcome ε (List UInt8)) :=
  returns_slice h le_rfl

theorem returns_readArray (h : off + n ≤ bs.length) :
    Returns (readArray n bs off : Outcome ε (Bytes n)) := by
  rw [readArray_of_le h]
  exact returns_ok _

theorem returns_readArrays {count : Nat} (h : off + count * n ≤ bs.length) :
    Returns (readArrays n count bs off : Outcome ε (List (Bytes n))) := by
  induction count generalizing off with
  | zero => exact returns_ok _
  | succ count ih =>
    rw [Nat.succ_mul] at h
    exact (returns_readArray (by omega)).bind fun _ _ => (ih (by omega)).bind fun _ _ =>
      returns_ok _

variable (cursor : Nat)

theorem index_drop : (index (bs.drop cursor) off : Outcome ε UInt8) = index bs (cursor + off) := by
  rw [index, index, List.getElem?_drop]

theorem indexU16_drop : (indexU16 (bs.drop cursor) off : Outcome ε UInt16) = indexU16 bs
    (cursor + off) := by
  simp only [indexU16, index_drop, Nat.add_assoc]

theorem indexU24_drop : (indexU24 (bs.drop cursor) off : Outcome ε UInt32) = indexU24 bs
    (cursor + off) := by
  simp only [indexU24, index_drop, Nat.add_assoc]

theorem indexU32_drop : (indexU32 (bs.drop cursor) off : Outcome ε UInt32) = indexU32 bs
    (cursor + off) := by
  simp only [indexU32, index_drop, Nat.add_assoc]

variable {cursor} (hcursor : cursor ≤ bs.length)
include hcursor

theorem slice_drop {a b : Nat} :
    (slice (bs.drop cursor) a b : Outcome ε (List UInt8)) = slice bs (cursor + a) (cursor + b) := by
  have hiff : (a ≤ b ∧ b ≤ (bs.drop cursor).length) ↔
      (cursor + a ≤ cursor + b ∧ cursor + b ≤ bs.length) := by
    rw [List.length_drop]
    omega
  rw [slice, slice, List.drop_drop, Nat.add_sub_add_left, if_congr hiff rfl rfl]

theorem readArray_drop :
    (readArray n (bs.drop cursor) off : Outcome ε (Bytes n)) = readArray n bs (cursor + off) := by
  rw [readArray, readArray, slice_drop hcursor, Nat.add_assoc]

end Outcome

namespace Outcome

variable {ε α β : Type}

/-- A sum or a product of sizes is computed: it must fit a 64-bit `usize`. -/
def usize (n : Nat) : Outcome ε Unit := if n < 2 ^ 64 then ok () else panic

/-- `a - b` is computed. -/
def subUsize (a b : Nat) : Outcome ε Nat := if b ≤ a then ok (a - b) else panic

/-- A sum of two `u32` is computed. -/
def u32 (n : Nat) : Outcome ε Unit := if n < 2 ^ 32 then ok () else panic

/-- `a + b` on `u64`, which panics on overflow. -/
def addU64 (a b : UInt64) : Outcome ε UInt64 :=
  if a.toNat + b.toNat < 2 ^ 64 then ok (a + b) else panic

/-- `a * b` on `u64`, which panics on overflow. -/
def mulU64 (a b : UInt64) : Outcome ε UInt64 :=
  if a.toNat * b.toNat < 2 ^ 64 then ok (a * b) else panic

/-- `a << n`, which panics from 32 on. -/
def shlU32 (a : UInt32) (n : Nat) : Outcome ε UInt32 :=
  if n < 32 then ok (a <<< UInt32.ofNat n) else panic

/-- `xs[i] = v`. -/
def store (xs : List α) (i : Nat) (v : α) : Outcome ε (List α) :=
  if i < xs.length then ok (xs.set i v) else panic

/-- `a.checked_add(b)` and `a.checked_mul(b)`, given the sum or the product. -/
def checkedUsize (n : Nat) : Option Nat := if n < 2 ^ 64 then some n else none

/-- `a.saturating_add(b)`, given the sum. -/
def saturatingUsize (n : Nat) : Nat := min n (2 ^ 64 - 1)

theorem usize_of_lt {n : Nat} (h : n < 2 ^ 64) : (usize n : Outcome ε Unit) = ok () := if_pos h

theorem usize_bind {n : Nat} (h : n < 2 ^ 64) (f : Unit → Outcome ε α) :
    (usize n >>= f) = f () := by
  rw [usize_of_lt h, bind_ok]

theorem subUsize_bind {a b : Nat} (h : b ≤ a) (f : Nat → Outcome ε α) :
    (subUsize a b >>= f) = f (a - b) := by
  rw [subUsize, if_pos h, bind_ok]

theorem store_of_lt {xs : List α} {i : Nat} (h : i < xs.length) (v : α) :
    (store xs i v : Outcome ε (List α)) = ok (xs.set i v) := if_pos h

theorem u32_bind {n : Nat} (h : n < 2 ^ 32) (f : Unit → Outcome ε α) : (u32 n >>= f) = f () := by
  rw [u32, if_pos h, bind_ok]

theorem subU8_bind {a b : UInt8} (h : b ≤ a) (f : UInt8 → Outcome ε α) :
    (subU8 a b >>= f) = f (a - b) := by
  rw [subU8, if_pos h, bind_ok]

theorem addU64_bind {a b : UInt64} (h : a.toNat + b.toNat < 2 ^ 64) (f : UInt64 → Outcome ε α) :
    (addU64 a b >>= f) = f (a + b) := by
  rw [addU64, if_pos h, bind_ok]

theorem mulU64_bind {a b : UInt64} (h : a.toNat * b.toNat < 2 ^ 64) (f : UInt64 → Outcome ε α) :
    (mulU64 a b >>= f) = f (a * b) := by
  rw [mulU64, if_pos h, bind_ok]

theorem shlU32_of_lt (a : UInt32) {n : Nat} (h : n < 32) :
    (shlU32 a n : Outcome ε UInt32) = ok (a <<< UInt32.ofNat n) := if_pos h

theorem checkedUsize_of_lt {n : Nat} (h : n < 2 ^ 64) : checkedUsize n = some n := if_pos h

theorem saturatingUsize_of_lt {n : Nat} (h : n < 2 ^ 64) : saturatingUsize n = n :=
  Nat.min_eq_left (by omega)

/-- Two sequences agree when what follows their common first part does. -/
theorem bind_congr_ok {x : Outcome ε α} {f g : α → Outcome ε β} (h : ∀ a, x = ok a → f a = g a) :
    (x >>= f) = (x >>= g) := by
  cases x with
  | ok a => exact h a rfl
  | err e => rfl
  | panic => rfl

/-- A check that both sequences make, and what passing it says. -/
theorem refuseIf_bind_congr {c : Prop} [Decidable c] {e : ε} {f g : Unit → Outcome ε β}
    (h : ¬c → f () = g ()) :
    (refuseIf c e >>= f) = (refuseIf c e >>= g) :=
  bind_congr_ok fun _ ha => h (refuseIf_eq_ok.mp ha)

theorem refuseIf_congr {c d : Prop} [Decidable c] [Decidable d] {e : ε} (h : c ↔ d) :
    (refuseIf c e : Outcome ε Unit) = refuseIf d e := if_congr h rfl rfl

theorem ite_congr_right {c : Prop} [Decidable c] {x y y' : Outcome ε α} (h : ¬c → y = y') :
    (if c then x else y) = if c then x else y' := by
  by_cases hc : c
  · rw [if_pos hc, if_pos hc]
  · rw [if_neg hc, if_neg hc, h hc]

variable (bs : List UInt8) (off n : Nat)

/-- The largest place of a read is checked; the smaller ones are then in range too. -/
def indexAt : Outcome ε UInt8 := do
  usize off
  index bs off

def indexU16At : Outcome ε UInt16 := do
  usize (off + 1)
  indexU16 bs off

def indexU24At : Outcome ε UInt32 := do
  usize (off + 2)
  indexU24 bs off

def indexU32At : Outcome ε UInt32 := do
  usize (off + 3)
  indexU32 bs off

def readArrayAt : Outcome ε (Bytes n) := do
  usize (off + n)
  readArray n bs off

/-- `count` arrays behind one another. -/
def readArraysAt (n : Nat) : Nat → List UInt8 → Nat → Outcome ε (List (Bytes n))
  | 0, _, _ => pure []
  | count + 1, bs, off => do
    let a ← readArrayAt bs off n
    let rest ← readArraysAt n count bs (off + n)
    pure (a :: rest)

variable {bs off n}

theorem indexAt_eq (h : off < 2 ^ 64) : (indexAt bs off : Outcome ε UInt8) = index bs off :=
  usize_bind h _

theorem indexU16At_eq (h : off + 1 < 2 ^ 64) :
    (indexU16At bs off : Outcome ε UInt16) = indexU16 bs off :=
  usize_bind h _

theorem indexU24At_eq (h : off + 2 < 2 ^ 64) :
    (indexU24At bs off : Outcome ε UInt32) = indexU24 bs off :=
  usize_bind h _

theorem indexU32At_eq (h : off + 3 < 2 ^ 64) :
    (indexU32At bs off : Outcome ε UInt32) = indexU32 bs off :=
  usize_bind h _

theorem readArrayAt_eq (h : off + n < 2 ^ 64) :
    (readArrayAt bs off n : Outcome ε (Bytes n)) = readArray n bs off :=
  usize_bind h _

theorem readArraysAt_eq {count : Nat} (h : off + count * n < 2 ^ 64) :
    (readArraysAt n count bs off : Outcome ε (List (Bytes n))) = readArrays n count bs off := by
  induction count generalizing off with
  | zero => rfl
  | succ count ih =>
    rw [Nat.succ_mul] at h
    rw [readArraysAt, readArrays, readArrayAt_eq (by omega), ih (by omega)]

end Outcome

/-- A byte slice is at most `isize::MAX` bytes long. -/
def IsSlice (bytes : List UInt8) : Prop := bytes.length < 2 ^ 63

theorem IsSlice.of_le {bytes bytes' : List UInt8} (h : IsSlice bytes)
    (hle : bytes'.length ≤ bytes.length) :
    IsSlice bytes' := Nat.lt_of_le_of_lt hle h

theorem IsSlice.drop {bytes : List UInt8} (h : IsSlice bytes) (n : Nat) : IsSlice (bytes.drop n) :=
  h.of_le (by rw [List.length_drop]; exact Nat.sub_le _ _)

theorem IsSlice.take {bytes : List UInt8} (h : IsSlice bytes) (n : Nat) : IsSlice (bytes.take n) :=
  h.of_le (List.length_take_le' n bytes)

theorem IsSlice.slice {ε : Type} {bytes s : List UInt8} {a b : Nat} (h : IsSlice bytes)
    (hs : (Outcome.slice bytes a b : Outcome ε (List UInt8)) = .ok s) : IsSlice s := by
  obtain ⟨-, -, rfl⟩ := Outcome.slice_eq_ok.mp hs
  exact (h.drop a).take _
