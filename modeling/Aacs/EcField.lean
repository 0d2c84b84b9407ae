import Aacs.Ec
import Aacs.Pratt

/-!
# Field elements, scalars and their inverses

`Fp` carries the proof that its value is reduced. Both moduli are prime, by
certificate, so that `toZMod` maps `Fp` one to one into the field `ZMod p` and
the scalars into `ZMod n`, and the Fermat powers are inverses there.
-/

open U160 Ec

namespace Ec

def certificate : List Pratt.Entry :=
  [⟨2, 1, []⟩, ⟨3, 2, [2]⟩, ⟨5, 2, [2, 2]⟩, ⟨11, 2, [2, 5]⟩, ⟨397, 5, [2, 2, 3, 3, 11]⟩,
   ⟨7, 3, [2, 3]⟩, ⟨71, 7, [2, 5, 7]⟩, ⟨569, 3, [2, 2, 2, 71]⟩, ⟨223049, 3, [2, 2, 2, 7, 7, 569]⟩,
   ⟨41, 6, [2, 2, 2, 5]⟩, ⟨67, 2, [2, 3, 11]⟩, ⟨991, 6, [2, 3, 3, 5, 11]⟩,
   ⟨54445541, 2, [2, 2, 5, 41, 67, 991]⟩, ⟨4900098691, 10, [2, 3, 3, 5, 54445541]⟩,
   ⟨29400592147, 2, [2, 3, 4900098691]⟩, ⟨1051, 7, [2, 3, 5, 5, 7]⟩,
   ⟨1734151, 3, [2, 3, 5, 5, 11, 1051]⟩, ⟨13, 2, [2, 2, 3]⟩, ⟨53, 2, [2, 2, 13]⟩,
   ⟨1697, 3, [2, 2, 2, 2, 2, 53]⟩, ⟨37, 2, [2, 2, 3, 3]⟩, ⟨109, 6, [2, 2, 3, 3, 3]⟩,
   ⟨48397, 5, [2, 2, 3, 37, 109]⟩, ⟨1161529, 7, [2, 2, 2, 3, 48397]⟩,
   ⟨3942229427, 2, [2, 1697, 1161529]⟩, ⟨19, 2, [2, 3, 3]⟩, ⟨17, 3, [2, 2, 2, 2]⟩,
   ⟨103, 5, [2, 3, 17]⟩, ⟨34256977, 5, [2, 2, 2, 2, 3, 13, 13, 41, 103]⟩,
   ⟨2603530253, 2, [2, 2, 19, 34256977]⟩, ⟨15621181519, 3, [2, 3, 2603530253]⟩,
   ⟨843543802027, 5, [2, 3, 3, 3, 15621181519]⟩,
   ⟨11533641299068191036196427759, 7, [2, 1734151, 3942229427, 843543802027]⟩,
   ⟨900812823637587646514106462588455890498729007071, 3,
     [2, 3, 5, 397, 223049, 29400592147, 11533641299068191036196427759]⟩,
   ⟨62701, 2, [2, 2, 3, 5, 5, 11, 19]⟩, ⟨13781, 7, [2, 2, 5, 13, 53]⟩, ⟨79, 3, [2, 3, 13]⟩,
   ⟨303361, 23, [2, 2, 2, 2, 2, 2, 2, 2, 3, 5, 79]⟩, ⟨97, 5, [2, 2, 2, 2, 2, 3]⟩,
   ⟨4423, 3, [2, 3, 11, 67]⟩, ⟨4290311, 7, [2, 5, 97, 4423]⟩, ⟨601, 7, [2, 2, 2, 3, 5, 5]⟩,
   ⟨29, 2, [2, 2, 7]⟩, ⟨233, 3, [2, 2, 2, 29]⟩, ⟨2797, 2, [2, 2, 3, 233]⟩,
   ⟨816964543, 5, [2, 3, 3, 3, 3, 3, 601, 2797]⟩, ⟨107, 2, [2, 53]⟩, ⟨5779, 2, [2, 3, 3, 3, 107]⟩,
   ⟨924641, 3, [2, 2, 2, 2, 2, 5, 5779]⟩, ⟨5547847, 3, [2, 3, 924641]⟩,
     ⟨33287083, 2, [2, 3, 5547847]⟩,
   ⟨133015183669, 2, [2, 2, 3, 3, 3, 37, 33287083]⟩, ⟨7893847002436539004969745260267801508851, 2,
     [2, 3, 3, 3, 3, 5, 5, 13781, 303361, 4290311, 816964543, 133015183669]⟩,
   ⟨552569290170557730347882168218746105619571, 7,
     [2, 5, 7, 7893847002436539004969745260267801508851]⟩,
   ⟨900812823637587646514106555566573588779770753047, 5,
     [2, 13, 62701, 552569290170557730347882168218746105619571]⟩]

theorem check_certificate : Pratt.check [] certificate = true := by decide +kernel

theorem prime_of_mem {q : Nat} (h : q ∈ certificate.map Pratt.Entry.prime) : q.Prime := by
  obtain ⟨e, he, rfl⟩ := List.mem_map.mp h
  exact Pratt.prime_of_check (by simp) check_certificate e he

theorem fieldPrime_prime : fieldPrime.Prime := prime_of_mem (by decide +kernel)

theorem groupOrder_prime : groupOrder.Prime := prime_of_mem (by decide +kernel)

instance : Fact fieldPrime.Prime := ⟨fieldPrime_prime⟩

instance : Fact groupOrder.Prime := ⟨groupOrder_prime⟩

end Ec

/-- A field element of `GF(p)`, kept reduced. -/
@[ext] structure Fp where
  value : U160
  reduced : value.toNat < P.toNat
  deriving DecidableEq

namespace Fp

def zero : Fp := ⟨U160.zero, P_pos⟩

theorem one_reduced : U160.one.toNat < P.toNat := by
  rw [P_toNat]
  decide +kernel

def one : Fp := ⟨U160.one, one_reduced⟩

def fromU160 (v : U160) : Fp := ⟨reduceLoop P P_pos v, by
  rw [reduceLoop_toNat]
  exact Nat.mod_lt _ P_pos⟩

def fromBeBytes (b : Bytes 20) : Fp := fromU160 (U160.fromBeBytes b)

def toBeBytes (a : Fp) : Bytes 20 := a.value.toBeBytes

def isZero (a : Fp) : Bool := a.value.isZero

theorem fromU160_toNat (v : U160) : (fromU160 v).value.toNat = v.toNat % P.toNat :=
  reduceLoop_toNat P P_pos v

def add (a b : Fp) : Fp :=
  let s := a.value.adc b.value
  if s.2 = 1 then fromU160 (s.1.sbb P).1 else fromU160 s.1

theorem sub_reduced (a b : Fp) :
    let d := a.value.sbb b.value
    (d.2 = 1 → (d.1.adc P).1.toNat < P.toNat) ∧ (d.2 ≠ 1 → d.1.toNat < P.toNat) := by
  obtain ⟨hb, hs⟩ := sbb_spec a.value b.value
  obtain ⟨hc, ha⟩ := adc_spec (a.value.sbb b.value).1 P
  have hdiff := (a.value.sbb b.value).1.toNat_lt
  have hsum := ((a.value.sbb b.value).1.adc P).1.toNat_lt
  have ha' := a.reduced
  have hb' := b.reduced
  constructor
  · intro h
    rw [carry_eq_one] at h
    omega
  · intro h
    rw [Ne, carry_eq_one] at h
    omega

def sub (a b : Fp) : Fp :=
  let d := a.value.sbb b.value
  if h : d.2 = 1 then ⟨(d.1.adc P).1, (sub_reduced a b).1 h⟩ else ⟨d.1, (sub_reduced a b).2 h⟩

def mul (a b : Fp) : Fp := ⟨mulMod P a.value b.value, by
  rw [mulMod_toNat _ _ _ P_pos]
  exact Nat.mod_lt _ P_pos⟩

def square (a : Fp) : Fp := a.mul a

def neg (a : Fp) : Fp :=
  if h : a.isZero then a else ⟨(P.sbb a.value).1, by
    rw [isZero, isZero_iff] at h
    rw [sbb_of_le a.reduced.le]
    have hlt := a.reduced
    omega⟩

/-- `self^exp mod p`, square-and-multiply. -/
def pow (a : Fp) (exp : U160) : Fp :=
  Ladder.msbFold (fun result b => if b then result.square.mul a else result.square) exp.bit
    exp.bitLen one

/-- `a^(p-2)`, and zero for zero. -/
def inv (a : Fp) : Fp :=
  if a.isZero then zero else a.pow (P.sbb (ofLimbs 2 0 0 0 0)).1

theorem add_toNat (a b : Fp) :
    (a.add b).value.toNat = (a.value.toNat + b.value.toNat) % P.toNat := by
  obtain ⟨hc, hs⟩ := adc_spec a.value b.value
  obtain ⟨hb', hs'⟩ := sbb_spec (a.value.adc b.value).1 P
  have ha := a.reduced
  have hb := b.reduced
  have hlt := ((a.value.adc b.value).1.sbb P).1.toNat_lt
  have hP := P.toNat_lt
  unfold add
  simp only
  split
  · next h =>
    rw [carry_eq_one] at h
    rw [fromU160_toNat, Nat.mod_eq_sub_mod (a := _ + _) (by omega)]
    congr 1
    omega
  · next h =>
    rw [carry_eq_one] at h
    rw [fromU160_toNat]
    congr 1
    omega

theorem sub_toNat (a b : Fp) :
    (a.sub b).value.toNat = (a.value.toNat + (P.toNat - b.value.toNat)) % P.toNat := by
  have hlt := (a.sub b).reduced
  obtain ⟨hb', hs⟩ := sbb_spec a.value b.value
  obtain ⟨hc, ha'⟩ := adc_spec (a.value.sbb b.value).1 P
  have hsum := ((a.value.sbb b.value).1.adc P).1.toNat_lt
  have ha := a.reduced
  have hb := b.reduced
  revert hlt
  unfold sub
  simp only
  split
  · next h =>
    rw [carry_eq_one] at h
    intro hlt
    simp only at hlt ⊢
    rw [Nat.mod_eq_of_lt (by omega)]
    omega
  · next h =>
    rw [carry_eq_one] at h
    intro hlt
    simp only at hlt ⊢
    rw [Nat.mod_eq_sub_mod (by omega), Nat.mod_eq_of_lt (by omega)]
    omega

theorem mul_toNat (a b : Fp) : (a.mul b).value.toNat = a.value.toNat * b.value.toNat % P.toNat := by
  rw [mul, mulMod_toNat _ _ _ P_pos]

theorem isZero_eq_true {a : Fp} : a.isZero = true ↔ a = zero := by
  rw [isZero, U160.isZero_iff, Fp.ext_iff, ← toNat_inj]
  rfl

end Fp

theorem sub_two_toNat {m : U160} (h : 2 ≤ m.toNat) :
    (m.sbb (ofLimbs 2 0 0 0 0)).1.toNat = m.toNat - 2 := sbb_of_le h

namespace Fp

def toZMod (a : Fp) : ZMod fieldPrime := (a.value.toNat : ZMod fieldPrime)

theorem toZMod_injective : Function.Injective toZMod := by
  intro a b h
  have hlt : a.value.toNat < fieldPrime ∧ b.value.toNat < fieldPrime := by
    rw [← P_toNat]
    exact ⟨a.reduced, b.reduced⟩
  rw [toZMod, toZMod, ZMod.natCast_eq_natCast_iff', Nat.mod_eq_of_lt hlt.1,
    Nat.mod_eq_of_lt hlt.2] at h
  exact Fp.ext (toNat_inj.mp h)

theorem toZMod_inj {a b : Fp} : a.toZMod = b.toZMod ↔ a = b := toZMod_injective.eq_iff

@[simp] theorem toZMod_zero : zero.toZMod = 0 := by simp [toZMod, zero]

@[simp] theorem toZMod_one : one.toZMod = 1 := by simp [toZMod, one]

@[simp] theorem toZMod_fromU160 (v : U160) : (fromU160 v).toZMod = (v.toNat : ZMod fieldPrime) := by
  rw [toZMod, fromU160_toNat, P_toNat, ZMod.natCast_mod]

@[simp] theorem toZMod_add (a b : Fp) : (a.add b).toZMod = a.toZMod + b.toZMod := by
  rw [toZMod, add_toNat, P_toNat, ZMod.natCast_mod, Nat.cast_add]
  rfl

@[simp] theorem toZMod_sub (a b : Fp) : (a.sub b).toZMod = a.toZMod - b.toZMod := by
  rw [toZMod, sub_toNat, P_toNat, ZMod.natCast_mod, Nat.cast_add, Nat.cast_sub, ZMod.natCast_self,
    zero_sub, ← sub_eq_add_neg]
  · rfl
  · rw [← P_toNat]
    exact b.reduced.le

@[simp] theorem toZMod_mul (a b : Fp) : (a.mul b).toZMod = a.toZMod * b.toZMod := by
  rw [toZMod, mul_toNat, P_toNat, ZMod.natCast_mod, Nat.cast_mul]
  rfl

@[simp] theorem toZMod_square (a : Fp) : a.square.toZMod = a.toZMod ^ 2 := by
  rw [square, toZMod_mul, sq]

@[simp] theorem isZero_iff {a : Fp} : a.isZero = true ↔ a.toZMod = 0 := by
  rw [isZero_eq_true, ← toZMod_zero, toZMod_inj]

@[simp] theorem toZMod_neg (a : Fp) : a.neg.toZMod = -a.toZMod := by
  by_cases h : a.isZero = true
  · rw [neg, dif_pos h, isZero_iff.mp h, neg_zero]
  · rw [neg, dif_neg h, toZMod]
    simp only
    rw [sbb_of_le a.reduced.le, Nat.cast_sub a.reduced.le, P_toNat, ZMod.natCast_self, zero_sub]
    rfl

@[simp] theorem toZMod_pow (a : Fp) (exp : U160) : (a.pow exp).toZMod = a.toZMod ^ exp.toNat := by
  have hbit : exp.bit = exp.toNat.testBit := funext exp.bit_eq
  rw [pow, hbit, bitLen_eq]
  refine Ladder.msbFold_of_size_le (fun k (r : Fp) => r.toZMod = a.toZMod ^ k) _ _ _ _ ?_ le_rfl
    (by simp)
  intro k r b h
  cases b <;> simp [h, pow_succ, pow_mul, mul_comm 2 k]

@[simp] theorem toZMod_inv (a : Fp) : a.inv.toZMod = a.toZMod⁻¹ := by
  by_cases h : a.isZero = true
  · rw [inv, if_pos h, isZero_iff.mp h, toZMod_zero, inv_zero]
  · have htwo : 2 ≤ P.toNat := P_toNat ▸ fieldPrime_prime.two_le
    rw [inv, if_neg h, toZMod_pow, sub_two_toNat htwo, P_toNat, Ladder.zmod_fermat_inv]
    rwa [isZero_iff] at h

@[simp] theorem fromBeBytes_toBeBytes (a : Fp) : fromBeBytes a.toBeBytes = a := by
  rw [Fp.ext_iff, ← toNat_inj, fromBeBytes, toBeBytes, U160.fromBeBytes_toBeBytes, fromU160_toNat,
    Nat.mod_eq_of_lt a.reduced]

end Fp

namespace Ec

def scalarReduce (v : U160) : U160 := reduceLoop N N_pos v

def scalarAdd (a b : U160) : U160 :=
  let s := a.adc b
  if s.2 = 1 then scalarReduce (s.1.sbb N).1 else scalarReduce s.1

def scalarMul (a b : U160) : U160 := mulMod N a b

/-- `base^exp mod n`, square-and-multiply. -/
def scalarPow (base exp : U160) : U160 :=
  Ladder.msbFold (fun result b =>
    let result := scalarMul result result
    if b then scalarMul result base else result) exp.bit exp.bitLen U160.one

/-- `a^(n-2) mod n`, and zero for zero. -/
def scalarInv (a : U160) : U160 :=
  if a.isZero then U160.zero else scalarPow a (N.sbb (ofLimbs 2 0 0 0 0)).1

theorem scalarReduce_toNat (v : U160) : (scalarReduce v).toNat = v.toNat % groupOrder := by
  rw [scalarReduce, reduceLoop_toNat, N_toNat]

theorem scalarMul_toNat (a b : U160) : (scalarMul a b).toNat = a.toNat * b.toNat % groupOrder := by
  rw [scalarMul, mulMod_toNat _ _ _ N_pos, N_toNat]

theorem scalarReduce_lt (v : U160) : (scalarReduce v).toNat < groupOrder := by
  rw [scalarReduce_toNat]
  exact Nat.mod_lt _ groupOrder_prime.pos

theorem scalarMul_lt (a b : U160) : (scalarMul a b).toNat < groupOrder := by
  rw [scalarMul_toNat]
  exact Nat.mod_lt _ groupOrder_prime.pos

def toScalar (v : U160) : ZMod groupOrder := (v.toNat : ZMod groupOrder)

@[simp] theorem toScalar_one : toScalar U160.one = 1 := by simp [toScalar]

@[simp] theorem toScalar_zero : toScalar U160.zero = 0 := by simp [toScalar]

@[simp] theorem toScalar_reduce (v : U160) : toScalar (scalarReduce v) = toScalar v := by
  rw [toScalar, scalarReduce_toNat, ZMod.natCast_mod, toScalar]

theorem toScalar_add {a b : U160} (ha : a.toNat < groupOrder) (hb : b.toNat < groupOrder) :
    toScalar (scalarAdd a b) = toScalar a + toScalar b := by
  obtain ⟨hc, hv⟩ := adc_spec a b
  obtain ⟨hborrow, hs⟩ := sbb_spec (a.adc b).1 N
  have hlt := ((a.adc b).1.sbb N).1.toNat_lt
  have hsum := (a.adc b).1.toNat_lt
  have hN := N.toNat_lt
  rw [← N_toNat] at ha hb
  by_cases h : (a.adc b).2 = 1
  · rw [scalarAdd]
    simp only [h, if_true, toScalar_reduce]
    rw [carry_eq_one] at h
    have hdiff : ((a.adc b).1.sbb N).1.toNat + N.toNat = a.toNat + b.toNat := by omega
    have hcast := congrArg (Nat.cast (R := ZMod groupOrder)) hdiff
    rw [Nat.cast_add, Nat.cast_add, N_toNat, ZMod.natCast_self, add_zero] at hcast
    exact hcast
  · rw [scalarAdd]
    simp only [h, if_false, toScalar_reduce]
    rw [carry_eq_one] at h
    rw [toScalar, toScalar, toScalar, ← Nat.cast_add]
    congr 1
    omega

@[simp] theorem toScalar_mul (a b : U160) : toScalar (scalarMul a b) = toScalar a * toScalar b := by
  rw [toScalar, scalarMul_toNat, ZMod.natCast_mod, Nat.cast_mul]
  rfl

@[simp] theorem toScalar_pow (base exp : U160) :
    toScalar (scalarPow base exp) = toScalar base ^ exp.toNat := by
  have hbit : exp.bit = exp.toNat.testBit := funext exp.bit_eq
  rw [scalarPow, hbit, bitLen_eq]
  refine Ladder.msbFold_of_size_le (fun k r => toScalar r = toScalar base ^ k) _ _ _ _ ?_ le_rfl
    (by simp)
  intro k r b h
  cases b <;> simp [h, pow_succ, pow_mul, mul_comm 2 k]

theorem toScalar_eq_zero {v : U160} (hv : v.toNat < groupOrder) : toScalar v = 0 ↔ v.toNat = 0 := by
  rw [toScalar, ZMod.natCast_eq_zero_iff]
  exact ⟨fun h => Nat.eq_zero_of_dvd_of_lt h hv, fun h => h ▸ dvd_zero _⟩

theorem toScalar_inv (a : U160) (ha : toScalar a ≠ 0) :
    toScalar (scalarInv a) = (toScalar a)⁻¹ := by
  have hzero : a.isZero ≠ true := by
    intro h
    rw [U160.isZero_iff] at h
    exact ha (by simp [toScalar, h])
  have htwo : 2 ≤ N.toNat := N_toNat ▸ groupOrder_prime.two_le
  rw [scalarInv, if_neg hzero, toScalar_pow, sub_two_toNat htwo, N_toNat, Ladder.zmod_fermat_inv ha]

end Ec
