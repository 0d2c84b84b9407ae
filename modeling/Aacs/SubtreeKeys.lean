import Aacs.KeyTree
import Mathlib.Data.Nat.Bitwise

/-!
# Keys next to a path

A leaf of a key tree holds, for each level, the key of the node next to its own path.
From these it reaches every node that it is not below, each from exactly one of them,
and no node that it is below.
-/
namespace KeyTree

/-- Two numbers with the same bits from a place on: the same node at that level. -/
def SameFrom (k a b : Nat) : Prop := ∀ j, k ≤ j → a.testBit j = b.testBit j

namespace SameFrom

variable {k k' a b c : Nat}

theorem symm (h : SameFrom k a b) : SameFrom k b a := fun j hj => (h j hj).symm

theorem mono (h : SameFrom k a b) (hk : k ≤ k') : SameFrom k' a b := fun j hj => h j (hk.trans hj)

end SameFrom

/-- The number of the node next to a path at a level. -/
def beside (d k : Nat) : Nat := d ^^^ 2 ^ k

theorem testBit_beside (d k j : Nat) :
    (beside d k).testBit j = (d.testBit j ^^ decide (k = j)) := by
  rw [beside, Nat.testBit_xor, Nat.testBit_two_pow]

theorem beside_self_ne (d k : Nat) : (beside d k).testBit k ≠ d.testBit k := by
  rw [testBit_beside, decide_eq_true rfl]
  cases d.testBit k <;> decide

theorem beside_of_ne {d k j : Nat} (h : k ≠ j) : (beside d k).testBit j = d.testBit j := by
  rw [testBit_beside, decide_eq_false h, Bool.xor_false]

/-- The highest place where two numbers differ, by induction on a level from which they are the
same. -/
theorem exists_highest_of_not_sameFrom {t d v : Nat} (h : ¬SameFrom t d v) :
    ∃ k, t ≤ k ∧ d.testBit k ≠ v.testBit k ∧ SameFrom (k + 1) d v := by
  obtain ⟨r, hr⟩ : ∃ r, SameFrom r d v := by
    refine ⟨d + v, fun j hj => ?_⟩
    have hlt := Nat.lt_two_pow_self (n := j)
    rw [Nat.testBit_lt_two_pow (by omega), Nat.testBit_lt_two_pow (by omega)]
  induction r with
  | zero => exact absurd (hr.mono (Nat.zero_le t)) h
  | succ r ih =>
    by_cases hbit : d.testBit r = v.testBit r
    · apply ih
      intro j hj
      rcases Nat.eq_or_lt_of_le hj with rfl | hlt
      · exact hbit
      · exact hr j hlt
    · refine ⟨r, Nat.not_lt.mp fun hlt => h (hr.mono hlt), hbit, hr⟩

/-- The node next to a path leads on to another leaf at the place where the two part. -/
theorem beside_sameFrom_iff {d v k : Nat} :
    SameFrom k (beside d k) v ↔ d.testBit k ≠ v.testBit k ∧ SameFrom (k + 1) d v := by
  constructor
  · intro h
    refine ⟨fun hbit => beside_self_ne d k ((h k le_rfl).trans hbit.symm), fun j hj => ?_⟩
    rw [← h j (Nat.le_of_succ_le hj), beside_of_ne (Nat.ne_of_lt hj)]
  · rintro ⟨hbit, hrest⟩ j hj
    rcases Nat.eq_or_lt_of_le hj with rfl | hlt
    · have hflip := beside_self_ne d k
      cases hb : (beside d k).testBit k <;> cases hd : d.testBit k <;>
        cases hv : v.testBit k <;> simp_all
    · rw [beside_of_ne (Nat.ne_of_lt hlt), hrest j hlt]

/-- Of the nodes next to a path exactly one is above a node which the path does not lead to, and
none is above a node which it leads to. -/
theorem existsUnique_beside_iff {d v t : Nat} :
    (∃! k, t ≤ k ∧ SameFrom k (beside d k) v) ↔ ¬SameFrom t d v := by
  constructor
  · rintro ⟨k, ⟨hk, habove⟩, -⟩ hsame
    exact (beside_sameFrom_iff.mp habove).1 (hsame k hk)
  · intro h
    obtain ⟨k, hk, hbit, hrest⟩ := exists_highest_of_not_sameFrom h
    refine ⟨k, ⟨hk, beside_sameFrom_iff.mpr ⟨hbit, hrest⟩⟩, ?_⟩
    rintro k' ⟨-, habove⟩
    obtain ⟨hbit', hrest'⟩ := beside_sameFrom_iff.mp habove
    rcases Nat.lt_trichotomy k' k with hlt | heq | hlt
    · exact absurd (hrest' k hlt) hbit
    · exact heq
    · exact absurd (hrest k' hlt) hbit'

variable {K : Type} (tree : KeyTree K)

/-- A walk sees only the bits between its two levels. -/
theorem walk_congr {n m hi lo : Nat}
    (h : ∀ j, lo ≤ j → j < hi → n.testBit j = m.testBit j) (key : K) :
    tree.walk n hi lo key = tree.walk m hi lo key := by
  induction hi generalizing key with
  | zero => rw [walk_of_le _ _ (Nat.zero_le lo), walk_of_le _ _ (Nat.zero_le lo)]
  | succ hi ih =>
    by_cases hlo : lo ≤ hi
    · rw [walk_succ _ _ hlo, walk_succ _ _ hlo, h hi hlo (Nat.lt_succ_self hi)]
      exact ih (fun j hj hlt => h j hj (Nat.lt_succ_of_lt hlt)) _
    · rw [walk_of_le _ _ (Nat.lt_of_not_le hlo), walk_of_le _ _ (Nat.lt_of_not_le hlo)]

/-- What the leaf `d` holds at level `k`, below a root key at level `r`. -/
def heldKey (root : K) (r d k : Nat) : K := tree.walk (beside d k) r k root

/-- The key held at the place where the path to a node leaves that of the leaf is on the path to
the node. -/
theorem heldKey_eq_walk (root : K) {r d v k : Nat} (h : SameFrom k (beside d k) v) :
    tree.heldKey root r d k = tree.walk v r k root :=
  tree.walk_congr (fun j hj _ => h j hj) root

/-- A leaf below the root and not below a node finds the key of the node from one it holds. -/
theorem exists_heldKey_walk {r d v t : Nat} (hroot : SameFrom r d v) (h : ¬SameFrom t d v) :
    ∃ k, t ≤ k ∧ k < r ∧ SameFrom k (beside d k) v ∧
      ∀ root, tree.walk v k t (tree.heldKey root r d k) = tree.walk v r t root := by
  obtain ⟨k, ⟨hk, habove⟩, -⟩ := existsUnique_beside_iff.mpr h
  have hlt : k < r := Nat.not_le.mp fun hle => (beside_sameFrom_iff.mp habove).1 (hroot k hle)
  refine ⟨k, hk, hlt, habove, fun root => ?_⟩
  rw [tree.heldKey_eq_walk root habove, tree.walk_walk v hk (Nat.le_of_lt hlt)]

end KeyTree
