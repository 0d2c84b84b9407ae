import Aacs.Bytes

/-!
# Formats with unused bits

A builder writes the part of a value that a format has room for, and a parser reads the part of a
byte string that the format uses. With the two parts named, `narrow` and `clear`, both directions
follow from four laws.
-/

/-- A builder and a parser of one format. -/
structure Codec (ε α β : Type) where
  build : α → β
  parse : β → Outcome ε α
  narrow : α → α
  clear : β → β
  parse_build : ∀ a, parse (build a) = .ok (narrow a)
  build_of_parse : ∀ b a, parse b = .ok a → build a = clear b
  parse_clear : ∀ b, parse (clear b) = parse b
  clear_build : ∀ a, clear (build a) = build a

namespace Codec

variable {ε α β : Type} (c : Codec ε α β) {a a' : α} {b b' : β}

/-- What is parsed fits. -/
theorem narrow_of_parse (h : c.parse b = .ok a) : c.narrow a = a := by
  have hback := c.parse_build a
  rw [c.build_of_parse b a h, c.parse_clear, h] at hback
  exact (Outcome.ok.inj hback).symm

/-- A string parses to a value exactly when the value fits and is built to what the string uses. -/
theorem parse_eq_ok : c.parse b = .ok a ↔ c.narrow a = a ∧ c.build a = c.clear b := by
  constructor
  · intro h
    exact ⟨c.narrow_of_parse h, c.build_of_parse b a h⟩
  · rintro ⟨hnarrow, hbuild⟩
    rw [← c.parse_clear, ← hbuild, c.parse_build, hnarrow]

theorem build_narrow (a : α) : c.build (c.narrow a) = c.build a := by
  rw [c.build_of_parse _ _ (c.parse_build a), c.clear_build]

/-- What does not fit is not written. -/
theorem build_eq_build_iff : c.build a = c.build a' ↔ c.narrow a = c.narrow a' := by
  constructor
  · intro h
    have hparse := c.parse_build a
    rw [h, c.parse_build] at hparse
    exact (Outcome.ok.inj hparse).symm
  · intro h
    rw [← c.build_narrow a, h, c.build_narrow]

end Codec

namespace Bytes

variable {n : Nat}

theorem length_masked (mask b : Bytes n) :
    (List.zipWith (· &&& ·) b.toList mask.toList).length = n := by simp

/-- The bits of a mask. -/
def masked (mask b : Bytes n) : Bytes n :=
  ⟨List.zipWith (· &&& ·) b.toList mask.toList, length_masked mask b⟩

/-- Two functions of a byte that have the same values. -/
theorem eq_of_all {α : Type} [BEq α] [LawfulBEq α] {f g : UInt8 → α}
    (h : (List.range 256).all (fun v => f (UInt8.ofNat v) == g (UInt8.ofNat v)) = true)
    (x : UInt8) : f x = g x := by
  have hx := List.all_eq_true.mp h x.toNat (List.mem_range.mpr x.toNat_lt)
  rw [UInt8.ofNat_toNat] at hx
  exact eq_of_beq hx

end Bytes
