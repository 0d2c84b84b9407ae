import Mathlib.Algebra.Order.Ring.Nat
import Mathlib.Tactic.Common

/-!
# A list cut into packs

Packs of a fixed size, the last one filled up. Put together again they are the list
and the filling.
-/
namespace Packs

variable {α : Type} {n : Nat} {pad : α} {l : List α}

/-- How many packs of size `n` a list of the given length takes. -/
def count (n length : Nat) : Nat := (length + (n - 1)) / n

/-- Pack `i`. -/
def pack (n : Nat) (pad : α) (l : List α) (i : Nat) : List α :=
  (l.drop (i * n)).take n ++ List.replicate (n - (l.length - i * n)) pad

theorem length_pack (n : Nat) (pad : α) (l : List α) (i : Nat) : (pack n pad l i).length = n := by
  simp only [pack, List.length_append, List.length_take, List.length_drop, List.length_replicate]
  omega

/-- The packs reach over the end of the list, and each begins before it. -/
theorem lt_count_iff (hn : 0 < n) {length i : Nat} : i < count n length ↔ i * n < length := by
  rw [count, Nat.lt_div_iff_mul_lt hn]
  omega

theorem length_le_count_mul (hn : 0 < n) (length : Nat) : length ≤ count n length * n := by
  by_contra h
  exact lt_irrefl _ ((lt_count_iff hn).mpr (not_le.mp h))

theorem count_le (hn : 0 < n) {length k : Nat} (h : length ≤ k * n) : count n length ≤ k := by
  by_contra hlt
  exact absurd ((lt_count_iff hn).mp (not_le.mp hlt)) (not_lt.mpr h)

theorem flatMap_pack (n : Nat) (pad : α) (l : List α) {k : Nat} (hk : ∀ i < k, i * n ≤ l.length) :
    (List.range k).flatMap (pack n pad l) = l.take (k * n) ++ List.replicate
    (k * n - l.length) pad := by
  induction k with
  | zero => simp
  | succ k ih =>
    have hbegin : k * n ≤ l.length := hk k (Nat.lt_succ_self k)
    have hinit := ih fun i hi => hk i (Nat.lt_succ_of_lt hi)
    have hfull : k * n - l.length = 0 := Nat.sub_eq_zero_of_le hbegin
    have hfill : n - (l.length - k * n) = (k + 1) * n - l.length := by
      rw [Nat.succ_mul]
      omega
    rw [List.range_succ, List.flatMap_append, hinit, hfull, List.replicate_zero, List.append_nil,
      List.flatMap_singleton, pack, ← List.append_assoc, hfill, Nat.succ_mul, List.take_add]

/-- All packs of a list. -/
theorem flatMap_pack_count (hn : 0 < n) (pad : α) (l : List α) :
    (List.range (count n l.length)).flatMap (pack n pad l) =
      l ++ List.replicate (count n l.length * n - l.length) pad := by
  rw [flatMap_pack, List.take_of_length_le (length_le_count_mul hn l.length)]
  intro i hi
  exact ((lt_count_iff hn).mp hi).le

end Packs
