import Aacs.Ladder
import Mathlib.Data.List.Prime
import Mathlib.NumberTheory.LucasPrimality

/-!
# Primality certificates

A certificate lists primes bottom up. Each entry gives a Lucas witness for its
number and the factors of its predecessor, all of them certified further down
the list, so that checking the list is a few modular powers for each entry.
-/
namespace Pratt

open Ladder

structure Entry where
  prime : Nat
  witness : Nat
  /-- The prime factors of `prime - 1`, with repetition. -/
  factors : List Nat

/-- `witness ^ k` modulo the number itself, for `k` below it. -/
def Entry.power (e : Entry) (k : Nat) : Nat := powMod e.prime (e.prime.log2 + 1) e.witness k

/-- Lucas's test, given the numbers already known to be prime. -/
def Entry.check (known : List Nat) (e : Entry) : Bool :=
  2 ≤ e.prime && e.factors.prod == e.prime - 1 && e.power (e.prime - 1) == 1 &&
    e.factors.all fun q => known.contains q && e.power ((e.prime - 1) / q) != 1

def check (known : List Nat) : List Entry → Bool
  | [] => true
  | e :: es => e.check known && check (e.prime :: known) es

theorem Entry.power_eq (e : Entry) {k : Nat} (hk : k ≤ e.prime) :
    e.power k = e.witness ^ k % e.prime :=
  powMod_spec _ _ _ _ (Nat.lt_of_le_of_lt hk Nat.lt_log2_self)

theorem Entry.prime_of_check {known : List Nat} {e : Entry}
    (hknown : ∀ q ∈ known, q.Prime) (h : e.check known = true) : e.prime.Prime := by
  simp only [Entry.check, Bool.and_eq_true, decide_eq_true_eq, beq_iff_eq, bne_iff_ne,
    List.all_eq_true, List.contains_iff_mem] at h
  obtain ⟨⟨⟨htwo, hprod⟩, hone⟩, hfactors⟩ := h
  apply lucas_primality e.prime (e.witness : ZMod e.prime)
  · rw [pow_eq_one_iff htwo, ← e.power_eq (Nat.sub_le _ _), hone]
  · intro q hq hdvd
    rw [← hprod] at hdvd
    obtain ⟨f, hf, hqf⟩ := (Prime.dvd_prod_iff hq.prime).mp hdvd
    obtain ⟨hmem, hne⟩ := hfactors f hf
    obtain rfl : q = f := (Nat.prime_dvd_prime_iff_eq hq (hknown f hmem)).mp hqf
    have hle : (e.prime - 1) / q ≤ e.prime := Nat.le_trans (Nat.div_le_self _ _) (Nat.sub_le _ _)
    rwa [Ne, pow_eq_one_iff htwo, ← e.power_eq hle]

/-- Every number of a certificate that checks is prime. -/
theorem prime_of_check {known : List Nat} {es : List Entry}
    (hknown : ∀ q ∈ known, q.Prime) (h : check known es = true) :
    ∀ e ∈ es, e.prime.Prime := by
  induction es generalizing known with
  | nil => simp
  | cons e es ih =>
    simp only [check, Bool.and_eq_true] at h
    have hprime := Entry.prime_of_check hknown h.1
    intro e' he'
    rcases List.mem_cons.mp he' with rfl | he'
    · exact hprime
    · refine ih ?_ h.2 e' he'
      intro q hq
      rcases List.mem_cons.mp hq with rfl | hq
      · exact hprime
      · exact hknown q hq

end Pratt
