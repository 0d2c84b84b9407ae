import Mathlib.Data.Nat.Bitwise

/-!
# Key trees

A complete binary tree in which the key of a node gives the keys of its two
children, and so of every node below it. A node is named by the path to it: the
bits of a number, from the highest down to the depth of the node.
-/
structure KeyTree (K : Type) where
  left : K → K
  right : K → K

namespace KeyTree

variable {K : Type} (tree : KeyTree K)

/-- A clear bit leads to the left. -/
def child (key : K) (bit : Bool) : K := if bit then tree.right key else tree.left key

/-- The key at the end of a path. -/
def descend (key : K) (path : List Bool) : K := path.foldl tree.child key

@[simp] theorem descend_nil (key : K) : tree.descend key [] = key := rfl

@[simp] theorem descend_cons (key : K) (bit : Bool) (path : List Bool) :
    tree.descend key (bit :: path) = tree.descend (tree.child key bit) path := rfl

theorem descend_append (key : K) (path path' : List Bool) :
    tree.descend key (path ++ path') = tree.descend (tree.descend key path) path' :=
  List.foldl_append

/-- The bits of `n` below place `hi` and not below place `lo`, the highest first. -/
def bits (n lo : Nat) : Nat → List Bool
  | 0 => []
  | m + 1 => if lo ≤ m then n.testBit m :: bits n lo m else []

theorem bits_of_le (n : Nat) {lo hi : Nat} (h : hi ≤ lo) : bits n lo hi = [] := by
  cases hi with
  | zero => rfl
  | succ m => rw [bits, if_neg (Nat.not_le.mpr h)]

theorem bits_succ (n : Nat) {lo m : Nat} (h : lo ≤ m) :
    bits n lo (m + 1) = n.testBit m :: bits n lo m := by
  rw [bits, if_pos h]

/-- The places are those from the highest down to `lo`. -/
theorem bits_eq_map (n lo hi : Nat) : bits n lo hi = (List.range (hi - lo)).map fun i => n.testBit
    (hi - 1 - i) := by
  induction hi with
  | zero => rw [bits_of_le n (Nat.zero_le lo), Nat.zero_sub lo, List.range_zero, List.map_nil]
  | succ m ih =>
    by_cases hlo : lo ≤ m
    · have hplace : ∀ i, m + 1 - 1 - (i + 1) = m - 1 - i := by omega
      rw [bits_succ n hlo, ih, Nat.succ_sub hlo, List.range_succ_eq_map, List.map_cons,
        List.map_map]
      simp only [Function.comp_def, Nat.succ_eq_add_one, hplace]
      rfl
    · have hle : m + 1 ≤ lo := Nat.lt_of_not_le hlo
      rw [bits_of_le n hle, Nat.sub_eq_zero_of_le hle, List.range_zero, List.map_nil]

/-- A path that stops on the way goes on from there. -/
theorem bits_append (n : Nat) {lo mid hi : Nat} (hlo : lo ≤ mid) (hmid : mid ≤ hi) :
    bits n mid hi ++ bits n lo mid = bits n lo hi := by
  induction hi with
  | zero =>
    obtain rfl := Nat.le_zero.mp hmid
    rfl
  | succ m ih =>
    rcases Nat.lt_or_eq_of_le hmid with hlt | rfl
    · have hm := Nat.lt_succ_iff.mp hlt
      rw [bits_succ n hm, bits_succ n (hlo.trans hm), List.cons_append, ih hm]
    · rw [bits_of_le n le_rfl, List.nil_append]

/-- The key at level `lo` of the path along `n`, from a key at level `hi`. -/
def walk (n hi lo : Nat) (key : K) : K := tree.descend key (bits n lo hi)

@[simp] theorem walk_self (n lo : Nat) (key : K) : tree.walk n lo lo key = key := by
  rw [walk, bits_of_le n le_rfl, descend_nil]

theorem walk_of_le (n : Nat) {hi lo : Nat} (h : hi ≤ lo) (key : K) :
    tree.walk n hi lo key = key := by
  rw [walk, bits_of_le n h, descend_nil]

theorem walk_succ (n : Nat) {lo m : Nat} (h : lo ≤ m) (key : K) :
    tree.walk n (m + 1) lo key = tree.walk n m lo (tree.child key (n.testBit m)) := by
  rw [walk, bits_succ n h, descend_cons, walk]

/-- Two walks along one number compose. -/
theorem walk_walk (n : Nat) {lo mid hi : Nat} (hlo : lo ≤ mid) (hmid : mid ≤ hi) (key : K) :
    tree.walk n mid lo (tree.walk n hi mid key) = tree.walk n hi lo key := by
  rw [walk, walk, walk, ← descend_append, bits_append n hlo hmid]

end KeyTree
