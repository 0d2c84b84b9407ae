import Mathlib.Data.List.Infix
import Mathlib.Tactic.Common

/-!
# Chains of a compression function

The fold of a compression function over the blocks of a message. Of two block lists, neither of
which ends the other, the folds meet only where the function itself does.
-/
namespace HashChain

variable {σ β : Type} {f : σ → β → σ} {iv : σ} {bs bs' : List β}

/-- Two different inputs of the function with one output, the last in which the chains differ: the
blocks behind them are the same. -/
def Collision (f : σ → β → σ) (iv : σ) (bs bs' : List β) : Prop :=
  ∃ pre b pre' b' rest, bs = pre ++ b :: rest ∧ bs' = pre' ++ b' :: rest ∧
    (pre.foldl f iv, b) ≠ (pre'.foldl f iv, b') ∧ f (pre.foldl f iv) b = f (pre'.foldl f iv) b'

/-- Behind a collision the chains agree. -/
theorem Collision.foldl_eq (h : Collision f iv bs bs') : bs.foldl f iv = bs'.foldl f iv := by
  obtain ⟨pre, b, pre', b', rest, rfl, rfl, -, hmeet⟩ := h
  rw [List.foldl_append, List.foldl_append, List.foldl_cons, List.foldl_cons, hmeet]

theorem Collision.append (h : Collision f iv bs bs') (b : β) :
    Collision f iv (bs ++ [b]) (bs' ++ [b]) := by
  obtain ⟨pre, c, pre', c', rest, rfl, rfl, hne, hmeet⟩ := h
  exact ⟨pre, c, pre', c', rest ++ [b], by simp, by simp, hne, hmeet⟩

/-- Two chains with one end: read from the last block back, one of the messages ends the other, or
there is a first place where the inputs differ. -/
theorem suffix_or_collision (h : bs.foldl f iv = bs'.foldl f iv) :
    bs <:+ bs' ∨ bs' <:+ bs ∨ Collision f iv bs bs' := by
  induction bs using List.reverseRecOn generalizing bs' with
  | nil => exact .inl (List.nil_suffix)
  | append_singleton init b ih =>
    cases bs' using List.reverseRecOn with
    | nil => exact .inr (.inl List.nil_suffix)
    | append_singleton init' b' =>
      rw [List.foldl_append, List.foldl_append, List.foldl_cons, List.foldl_cons, List.foldl_nil,
        List.foldl_nil] at h
      by_cases hinput : (init.foldl f iv, b) = (init'.foldl f iv, b')
      · obtain ⟨hchain, rfl⟩ := Prod.mk.inj hinput
        rcases ih hchain with hsuffix | hsuffix | hcollision
        · exact .inl (List.suffix_append_self_iff.mpr hsuffix)
        · exact .inr (.inl (List.suffix_append_self_iff.mpr hsuffix))
        · exact .inr (.inr (hcollision.append b))
      · exact .inr (.inr ⟨init, b, init', b', [], rfl, rfl, hinput, h⟩)

/-- For messages that do not end each other: the chains have one end exactly when the messages are
the same or the function collides in them. -/
theorem foldl_eq_iff (hsuffix : bs <:+ bs' → bs = bs') (hsuffix' : bs' <:+ bs → bs = bs') :
    bs.foldl f iv = bs'.foldl f iv ↔ bs = bs' ∨ Collision f iv bs bs' := by
  constructor
  · intro h
    rcases suffix_or_collision h with hends | hends | hcollision
    · exact .inl (hsuffix hends)
    · exact .inl (hsuffix' hends)
    · exact .inr hcollision
  · rintro (rfl | hcollision)
    · rfl
    · exact hcollision.foldl_eq

end HashChain
