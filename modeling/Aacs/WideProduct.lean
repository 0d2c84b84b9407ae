import Aacs.Ec
import Aacs.Error
import Aacs.Usize

/-!
# The loops of the wide product and its reduction

The product's loops at their indices, with every sum and product of 64-bit words
checked, and the remainder that long division holds after each bit.
-/
namespace Ec

open Outcome Limbs U160

namespace Checked

/-- `out[i + j] + a.limbs[i] as u64 * b.limbs[j] as u64 + carry`, split into a word and the next
carry. -/
def mulStep (as bs : List UInt32) (i : Nat) (s : List UInt64 × UInt64) (j : Nat) :
    Result (List UInt64 × UInt64) := do
  let o ← expect s.1[i + j]?
  let a ← expect as[i]?
  let b ← expect bs[j]?
  let product ← mulU64 a.toUInt64 b.toUInt64
  let sum ← addU64 o product
  let cur ← addU64 sum s.2
  let out ← store s.1 (i + j) (cur &&& 0xFFFFFFFF)
  return (out, cur >>> 32)

def mulRow (as bs : List UInt32) (out : List UInt64) (i : Nat) : Result (List UInt64) := do
  let s ← (List.range 5).foldlM (mulStep as bs i) (out, 0)
  let top ← expect s.1[i + 5]?
  store s.1 (i + 5) (← addU64 top s.2)

def mulWide (a b : U160) : Result (List UInt32) := do
  let out ← (List.range 5).foldlM (mulRow a.limbs b.limbs) (List.replicate 10 0)
  (List.range 10).mapM fun i => do return (← expect out[i]?).toUInt32

theorem getElem?_middle {α : Type} (front : List α) (x : α) (rest : List α) :
    (front ++ x :: rest)[front.length]? = some x := by
  rw [List.getElem?_append_right le_rfl, Nat.sub_self]
  rfl

theorem set_middle {α : Type} (front : List α) (x y : α) (rest : List α) :
    (front ++ x :: rest).set front.length y = front ++ y :: rest := by
  rw [List.set_append_right _ _ le_rfl, Nat.sub_self]
  rfl

theorem store_middle {α : Type} (front : List α) (x y : α) (rest : List α) :
    (store (front ++ x :: rest) front.length y : Result (List α)) = .ok (front ++ y :: rest) := by
  rw [store_of_lt (by simp), set_middle]

theorem toNat_shiftRight_lt (s : UInt64) : (s >>> 32).toNat < 2 ^ 32 := by
  have hs := s.toNat_lt
  have hsplit := mask_word s
  omega

/-- No sum of the inner loop leaves 64 bits, when the words it meets fit 32. -/
theorem mulStep_eq {as bs : List UInt32} {i j : Nat} {a b : UInt32} (ha : as[i]? = some a)
    (hb : bs[j]? = some b)
    {front rest : List UInt64} {o carry : UInt64} (hfront : front.length = i + j)
    (ho : o.toNat < 2 ^ 32) (hcarry : carry.toNat < 2 ^ 32) :
    mulStep as bs i (front ++ o :: rest, carry) j =
      .ok (front ++ ((o + a.toUInt64 * b.toUInt64 + carry) &&& 0xFFFFFFFF) :: rest,
        (o + a.toUInt64 * b.toUInt64 + carry) >>> 32) := by
  have ha' := a.toNat_lt
  have hb' := b.toNat_lt
  have hmul : a.toNat * b.toNat ≤ (2 ^ 32 - 1) * (2 ^ 32 - 1) := by
    apply Nat.mul_le_mul <;> omega
  have hproduct : (a.toUInt64 * b.toUInt64).toNat = a.toNat * b.toNat := by
    simp only [UInt64.toNat_mul, UInt32.toNat_toUInt64]
    omega
  have hsum : (o + a.toUInt64 * b.toUInt64).toNat = o.toNat + a.toNat * b.toNat := by
    rw [UInt64.toNat_add, hproduct]
    omega
  rw [mulStep, ha, hb, ← hfront]
  dsimp only
  rw [getElem?_middle, expect_some, bind_ok, expect_some, bind_ok, expect_some, bind_ok,
    mulU64_bind (by rw [UInt32.toNat_toUInt64, UInt32.toNat_toUInt64]; omega),
    addU64_bind (by rw [hproduct]; omega), addU64_bind (by rw [hsum]; omega), store_middle, bind_ok]
  rfl

/-- The inner loop from place `j` on, and the carry behind it. -/
theorem mulRow_from {as : List UInt32} {i : Nat} {a : UInt32} (ha : as[i]? = some a)
    (done bs : List UInt32)
    (front words rest : List UInt64) (top carry : UInt64) (hfront : front.length = i + done.length)
    (hwords : words.length = bs.length) (hsmall : Small words) (htop : top.toNat < 2 ^ 32)
    (hcarry : carry.toNat < 2 ^ 32) :
    (do
      let s ← (List.range' done.length bs.length).foldlM (mulStep as (done ++ bs) i)
        (front ++ (words ++ top :: rest), carry)
      let last ← expect s.1[i + (done ++ bs).length]?
      store s.1 (i + (done ++ bs).length) (← addU64 last s.2) : Result (List UInt64)) =
      .ok (front ++ Limbs.mulRow a bs (words ++ top :: rest) carry) := by
  induction bs generalizing done front words carry with
  | nil =>
    obtain rfl : words = [] := List.length_eq_zero_iff.mp hwords
    rw [List.append_nil, ← hfront, List.nil_append]
    change (do
      let last ← expect (front ++ top :: rest)[front.length]?
      store (front ++ top :: rest) front.length (← addU64 last carry) : Result (List UInt64)) = _
    rw [getElem?_middle, expect_some, bind_ok, addU64_bind (by omega), store_middle]
    rfl
  | cons b bs ih =>
    cases words with
    | nil => simp at hwords
    | cons o words =>
      have ho := hsmall o (by simp)
      have hb : (done ++ b :: bs)[done.length]? = some b := getElem?_middle done b bs
      have hstep : mulStep as (done ++ b :: bs) i (front ++ o :: (words ++ top :: rest), carry)
          done.length = _ :=
        mulStep_eq ha hb hfront ho hcarry
      have hdone : (done ++ [b]).length = done.length + 1 := by
        rw [List.length_append, List.length_singleton]
      have hnext :=
        ih (done ++ [b]) (front ++ [(o + a.toUInt64 * b.toUInt64 + carry) &&& 0xFFFFFFFF]) words
        ((o + a.toUInt64 * b.toUInt64 + carry) >>> 32) (by simp [hfront]; omega)
          (by simpa using hwords)
        (fun w hw => hsmall w (by simp [hw])) (toNat_shiftRight_lt _)
      simp only [hdone, List.append_assoc, List.singleton_append] at hnext
      rw [List.length_cons, List.range'_succ, List.foldlM_cons, List.cons_append, hstep, bind_ok,
        Limbs.mulRow]
      exact hnext

/-- A row of the checked loop is the row of the model. -/
theorem mulRow_eq {as : List UInt32} (bs : List UInt32) (hbs : bs.length = 5) {a : UInt32}
    {front : List UInt64}
    (ha : as[front.length]? = some a) {words rest : List UInt64} {top : UInt64}
    (hwords : words.length = bs.length) (hsmall : Small words) (htop : top.toNat < 2 ^ 32) :
    mulRow as bs (front ++ (words ++ top :: rest)) front.length =
      .ok (front ++ Limbs.mulRow a bs (words ++ top :: rest) 0) := by
  have h := mulRow_from ha [] bs front words rest top 0 rfl hwords hsmall htop (by decide)
  simp only [List.nil_append, List.length_nil, hbs, ← List.range_eq_range'] at h
  exact h

/-- The outer loop from row `i` on: each row ends in a word that is still zero. -/
theorem mulRows_from (done as bs : List UInt32) (hbs : bs.length = 5) (front words : List UInt64)
    (hfront : front.length = done.length) (hwords : words.length = bs.length)
    (hsmall : Small words) :
    (List.range' done.length as.length).foldlM (mulRow (done ++ as) bs)
        (front ++ (words ++ List.replicate as.length 0)) =
      .ok (front ++ mulRows as bs (words ++ List.replicate as.length 0)) := by
  induction as generalizing done front words with
  | nil => rfl
  | cons a as ih =>
    have ha : (done ++ a :: as)[front.length]? = some a := by rw [hfront, getElem?_middle]
    obtain ⟨low, hrow, hlen, hlow, -⟩ :=
      mulRow_spec a bs words (List.replicate as.length 0) 0 hwords hsmall (by decide)
    cases low with
    | nil => simp at hlen
    | cons o low =>
      have hstep : mulRow (done ++ a :: as) bs (front ++ (words ++ 0 :: List.replicate as.length 0))
        front.length =
          .ok (front ++ Limbs.mulRow a bs (words ++ 0 :: List.replicate as.length 0) 0) :=
        mulRow_eq bs hbs ha hwords hsmall (by decide)
      rw [hrow, hfront] at hstep
      have hnext := ih (done ++ [a]) (front ++ [o]) low (by simp [hfront]) (by simpa using hlen)
        (fun w hw => hlow w (by simp [hw]))
      have hdone : (done ++ [a]).length = done.length + 1 := by
        rw [List.length_append, List.length_singleton]
      simp only [hdone, List.append_assoc, List.singleton_append] at hnext
      rw [List.length_cons, List.replicate_succ, List.range'_succ, List.foldlM_cons, hstep, bind_ok,
        mulRows, hrow]
      exact hnext

/-- No sum or product of the loops leaves 64 bits and no index leaves its array. -/
theorem mulWide_eq (a b : U160) : mulWide a b = .ok (Limbs.mulWide a.limbs b.limbs) := by
  have hrows := mulRows_from [] a.limbs b.limbs b.length_limbs [] (List.replicate b.limbs.length 0)
    rfl (by simp) (small_replicate_zero _)
  simp only [List.nil_append, List.length_nil, a.length_limbs, b.length_limbs,
    ← List.range_eq_range', ← List.replicate_add] at hrows
  have hlen : (mulRows a.limbs b.limbs (List.replicate 10 0)).length = 10 := by
    have h :=
      (mulRows_spec a.limbs b.limbs (List.replicate b.limbs.length 0) (by simp)
        (small_replicate_zero _)).1
    rwa [← List.replicate_add, a.length_limbs, b.length_limbs] at h
  have hnarrow :
    (List.range ((mulRows a.limbs b.limbs (List.replicate 10 0)).map UInt64.toUInt32).length).mapM
      (fun i => do return (← expect (mulRows a.limbs b.limbs (List.replicate 10 0))[i]?).toUInt32) =
        (.ok ((mulRows a.limbs b.limbs (List.replicate 10 0)).map UInt64.toUInt32) : Result
          (List UInt32)) := by
    apply mapM_range_eq_ok
    intro i w hw
    rw [List.getElem?_map, Option.map_eq_some_iff] at hw
    obtain ⟨o, ho, rfl⟩ := hw
    rw [ho, expect_some]
    rfl
  rw [List.length_map, hlen] at hnarrow
  rw [mulWide, hrows, bind_ok, hnarrow, Limbs.mulWide, a.length_limbs, b.length_limbs]

end Checked

/-- The remainder after the first `k` bits, the most significant first. -/
def reduceSteps (wide : List UInt32) (m : U160) : Nat → U160
  | 0 => zero
  | k + 1 => reduceStep m (reduceSteps wide m k) (Limbs.bit wide (319 - k))

theorem reduceSteps_rest (wide : List UInt32) (m : U160) {k : Nat} (hk : k ≤ 320) :
    Ladder.msbFold (reduceStep m) (Limbs.bit wide) (320 - k) (reduceSteps wide m k) =
      reduceWide wide m := by
  induction k with
  | zero => rfl
  | succ k ih =>
    rw [← ih (by omega), show 320 - k = 320 - (k + 1) + 1 by omega, Ladder.msbFold, reduceSteps,
      show 320 - (k + 1) = 319 - k by omega]

/-- The invariant of the long division: the remainder of the bits read so far. -/
theorem reduceSteps_toNat (wide : List UInt32) {m : U160} (hm : 0 < m.toNat)
    (hlen : wide.length = 10) {k : Nat}
    (hk : k ≤ 320) : (reduceSteps wide m k).toNat = Limbs.value wide / 2 ^ (320 - k) % m.toNat := by
  induction k with
  | zero =>
    have hlt := value_lt wide
    rw [hlen] at hlt
    rw [reduceSteps, Nat.div_eq_of_lt hlt, Nat.zero_mod, toNat_zero]
  | succ k ih =>
    have hrem := ih (by omega)
    have hlt : (reduceSteps wide m k).toNat < m.toNat := by
      rw [hrem]
      exact Nat.mod_lt _ hm
    rw [show 320 - k = 320 - (k + 1) + 1 by omega] at hrem
    rw [reduceSteps, reduceStep_toNat m _ _ hlt, hrem,
      Ladder.div_two_pow_bit (Limbs.value wide) (320 - (k + 1)), Limbs.bit_spec, show 319 - k =
        320 - (k + 1) by omega]
    simp [Nat.add_mod, Nat.mul_mod]

/-- The product is exact with no overflow on the way, and the reduction is the remainder after every
bit. -/
theorem wide_exact (a b m : U160) (wide : List UInt32) (hlen : wide.length = 10)
    (hm : 1 ≤ m.toNat) :
    (Checked.mulWide a b = .ok (Limbs.mulWide a.limbs b.limbs) ∧
      Limbs.value (Limbs.mulWide a.limbs b.limbs) = a.toNat * b.toNat) ∧
    (∀ k ≤ 320, (reduceSteps wide m k).toNat < m.toNat ∧
      (reduceSteps wide m k).toNat = Limbs.value wide / 2 ^ (320 - k) % m.toNat) ∧
    reduceSteps wide m 320 = reduceWide wide m ∧ (reduceWide wide m).toNat =
      Limbs.value wide % m.toNat := by
  have hend := reduceSteps_rest wide m (k := 320) le_rfl
  rw [Nat.sub_self, Ladder.msbFold] at hend
  refine ⟨⟨Checked.mulWide_eq a b, (mulWide_spec a.limbs b.limbs).2⟩, ?_, hend,
    reduceWide_toNat wide m hm hlen⟩
  intro k hk
  have hstep := reduceSteps_toNat wide hm hlen hk
  constructor
  · rw [hstep]
    exact Nat.mod_lt _ hm
  · exact hstep

/-- The largest operand: every sum of the loops is as large as it gets. -/
def ones : U160 := ofLimbs 0xFFFFFFFF 0xFFFFFFFF 0xFFFFFFFF 0xFFFFFFFF 0xFFFFFFFF

theorem wide_exact_ones : Limbs.value (Limbs.mulWide ones.limbs ones.limbs) = ones.toNat *
    ones.toNat ∧ (reduceWide (List.replicate 10 0xFFFFFFFF) P).toNat = Limbs.value
    (List.replicate 10 0xFFFFFFFF) % P.toNat := by
  obtain ⟨⟨-, hproduct⟩, -, -, hreduce⟩ :=
    wide_exact ones ones P (List.replicate 10 0xFFFFFFFF) rfl P_pos
  exact ⟨hproduct, hreduce⟩

end Ec
