import Mathlib.Data.List.Induction
import Mathlib.Tactic.Common

/-!
# Fallible computations that may also panic

A Rust function of type `Result<A, E>` has three ends: it returns `Ok`, it
returns `Err`, or it never returns a value, because it panics or loops for
ever. `Outcome` keeps the third end apart, so that "does not panic" is a
statement about a value.
-/
inductive Outcome (ε : Type) (α : Type) where
  | ok : α → Outcome ε α
  | err : ε → Outcome ε α
  | panic : Outcome ε α
  deriving DecidableEq, Repr

namespace Outcome

variable {ε : Type} {α β : Type}

protected def bind (x : Outcome ε α) (f : α → Outcome ε β) : Outcome ε β :=
  match x with
  | ok a => f a
  | err e => err e
  | panic => panic

instance : Monad (Outcome ε) where
  pure := ok
  bind := Outcome.bind

@[simp] theorem pure_eq (a : α) : (pure a : Outcome ε α) = ok a := rfl
@[simp] theorem bind_ok (a : α) (f : α → Outcome ε β) : (ok a >>= f) = f a := rfl
@[simp] theorem bind_err (e : ε) (f : α → Outcome ε β) :
    ((err e : Outcome ε α) >>= f) = err e := rfl
@[simp] theorem bind_panic (f : α → Outcome ε β) : ((panic : Outcome ε α) >>= f) = panic := rfl

@[simp] theorem map_ok (f : α → β) (a : α) : (f <$> (ok a : Outcome ε α)) = ok (f a) := rfl
@[simp] theorem map_err (f : α → β) (e : ε) : (f <$> (err e : Outcome ε α)) = err e := rfl
@[simp] theorem map_panic (f : α → β) : (f <$> (panic : Outcome ε α)) = panic := rfl

instance : LawfulMonad (Outcome ε) := LawfulMonad.mk' _
  (by intro _ x; cases x <;> rfl)
  (by intros; rfl)
  (by intro _ _ _ x _ _; cases x <;> rfl)

/-- A sequence succeeds exactly when both parts do. -/
theorem bind_eq_ok {x : Outcome ε α} {f : α → Outcome ε β} {b : β} :
    (x >>= f) = ok b ↔ ∃ a, x = ok a ∧ f a = ok b := by
  cases x <;> simp

/-- `opt.ok_or(e)`: a missing value is the error `e`. -/
def okOr (o : Option α) (e : ε) : Outcome ε α :=
  match o with
  | some a => ok a
  | none => err e

@[simp] theorem okOr_some (a : α) (e : ε) : okOr (some a) e = ok a := rfl
@[simp] theorem okOr_none (e : ε) : okOr (none : Option α) e = err e := rfl

theorem okOr_eq_ok {o : Option α} {e : ε} {a : α} : okOr o e = ok a ↔ o = some a := by
  cases o <;> simp

/-- `return Err(e)`, where the error is computed first. -/
def fail (e : Outcome ε ε) : Outcome ε α := e >>= err

@[simp] theorem fail_ok (e : ε) : (fail (ok e) : Outcome ε α) = err e := rfl

/-- `opt.ok_or_else(|| e)`. -/
def okOrElse (o : Option α) (e : Outcome ε ε) : Outcome ε α :=
  match o with
  | some a => ok a
  | none => fail e

@[simp] theorem okOrElse_some (a : α) (e : Outcome ε ε) : okOrElse (some a) e = ok a := rfl
@[simp] theorem okOrElse_none (e : Outcome ε ε) : okOrElse (none : Option α) e = fail e := rfl

/-- `x.map_err(f)`. -/
def mapErr {δ : Type} (x : Outcome δ α) (f : δ → Outcome ε ε) : Outcome ε α :=
  match x with
  | ok a => ok a
  | err d => fail (f d)
  | panic => panic

@[simp] theorem mapErr_ok {δ : Type} (a : α) (f : δ → Outcome ε ε) : (ok a).mapErr f = ok a := rfl
@[simp] theorem mapErr_err {δ : Type} (d : δ) (f : δ → Outcome ε ε) :
    (err d : Outcome δ α).mapErr f = fail (f d) := rfl

/-- `x.ok()`. -/
def attempt (x : Outcome ε α) : Outcome ε (Option α) :=
  match x with
  | ok a => ok (some a)
  | err _ => ok none
  | panic => panic

@[simp] theorem attempt_ok (a : α) : (ok a : Outcome ε α).attempt = ok (some a) := rfl
@[simp] theorem attempt_err (e : ε) : (err e : Outcome ε α).attempt = ok none := rfl
@[simp] theorem attempt_panic : (panic : Outcome ε α).attempt = panic := rfl

/-- `opt.expect(..)`: a missing value panics. -/
def expect (o : Option α) : Outcome ε α :=
  match o with
  | some a => ok a
  | none => panic

@[simp] theorem expect_some (a : α) : (expect (some a) : Outcome ε α) = ok a := rfl
@[simp] theorem expect_none : (expect (none : Option α) : Outcome ε α) = panic := rfl

theorem expect_eq_ok {o : Option α} {a : α} : (expect o : Outcome ε α) = ok a ↔ o = some a := by
  cases o <;> simp

/-- `if c { return Err(e) }`. -/
def refuseIf (c : Prop) [Decidable c] (e : ε) : Outcome ε Unit :=
  if c then err e else ok ()

theorem refuseIf_eq_ok {c : Prop} [Decidable c] {e : ε} {u : Unit} :
    refuseIf c e = ok u ↔ ¬c := by
  by_cases hc : c <;> simp [refuseIf, hc]

@[simp] theorem refuseIf_neg {c : Prop} [Decidable c] {e : ε} (hc : ¬c) :
    refuseIf c e = ok () := by
  simp [refuseIf, hc]

@[simp] theorem refuseIf_pos {c : Prop} [Decidable c] {e : ε} (hc : c) :
    refuseIf c e = (err e : Outcome ε Unit) := by
  simp [refuseIf, hc]

/-- The computation ends with `Ok` or `Err`: it does not panic. -/
def Returns (x : Outcome ε α) : Prop := x ≠ panic

@[simp] theorem returns_ok (a : α) : Returns (ok a : Outcome ε α) := fun h => by cases h

@[simp] theorem returns_err (e : ε) : Returns (err e : Outcome ε α) := fun h => by cases h

@[simp] theorem returns_okOr (o : Option α) (e : ε) : Returns (okOr o e) := by
  cases o <;> simp

@[simp] theorem returns_refuseIf (c : Prop) [Decidable c] (e : ε) : Returns (refuseIf c e) := by
  by_cases hc : c <;> simp [hc]

/-- A sequence returns when its parts do; the second may use that the first succeeded. -/
theorem Returns.bind {x : Outcome ε α} {f : α → Outcome ε β} (hx : Returns x)
    (hf : ∀ a, x = ok a → Returns (f a)) : Returns (x >>= f) := by
  cases x with
  | ok a => exact hf a rfl
  | err e => exact returns_err e
  | panic => exact absurd rfl hx

/-- A check returns, and what follows it may use that it passed. -/
theorem Returns.refuseIf_bind {c : Prop} [Decidable c] {e : ε} {f : Unit → Outcome ε β}
    (hf : ¬c → Returns (f ())) :
    Returns (refuseIf c e >>= f) :=
  (returns_refuseIf c e).bind fun _ h => hf (refuseIf_eq_ok.mp h)

theorem returns_bind_iff {x : Outcome ε α} {f : α → Outcome ε β} :
    Returns (x >>= f) ↔ Returns x ∧ ∀ a, x = ok a → Returns (f a) := by
  cases x <;> simp [Returns]

theorem Returns.fail {e : Outcome ε ε} (he : Returns e) : Returns (fail e : Outcome ε α) :=
  he.bind fun d _ => returns_err d

theorem Returns.okOrElse {e : Outcome ε ε} (o : Option α) (he : Returns e) :
    Returns (okOrElse o e) := by
  cases o with
  | none => exact he.fail
  | some a => exact returns_ok a

theorem Returns.mapErr {δ : Type} {x : Outcome δ α} {f : δ → Outcome ε ε} (hx : Returns x)
    (hf : ∀ d, Returns (f d)) : Returns (x.mapErr f) := by
  cases x with
  | ok a => exact returns_ok a
  | err d => exact (hf d).fail
  | panic => exact absurd rfl hx

theorem mapErr_eq_ok {δ : Type} {x : Outcome δ α} {f : δ → Outcome ε ε} {a : α} :
    x.mapErr f = ok a ↔ x = ok a := by
  cases x with
  | ok b => simp
  | err d => cases hd : f d <;> simp [Outcome.fail, hd]
  | panic => simp [Outcome.mapErr]

@[simp] theorem returns_attempt {x : Outcome ε α} : Returns x.attempt ↔ Returns x := by
  cases x <;> simp [Returns]

/-- A loop returns when each of its turns does. -/
theorem Returns.mapM {f : α → Outcome ε β} {l : List α} (hf : ∀ a ∈ l, Returns (f a)) :
    Returns (l.mapM f) := by
  induction l with
  | nil => exact returns_ok []
  | cons a l ih =>
    rw [List.mapM_cons]
    have htail : Returns (l.mapM f) := ih fun b hb => hf b (List.mem_cons_of_mem a hb)
    exact (hf a List.mem_cons_self).bind fun b _ => htail.bind fun bs _ => returns_ok (b :: bs)

theorem length_of_mapM_eq_ok {f : α → Outcome ε β} {l : List α} {bs : List β}
    (h : l.mapM f = ok bs) :
    bs.length = l.length := by
  induction l generalizing bs with
  | nil =>
    cases h
    rfl
  | cons a l ih =>
    rw [List.mapM_cons] at h
    obtain ⟨b, -, h⟩ := bind_eq_ok.mp h
    obtain ⟨bs', hbs, h⟩ := bind_eq_ok.mp h
    cases h
    rw [List.length_cons, List.length_cons, ih hbs]

theorem mapM_eq_ok_map {f : α → Outcome ε β} {g : α → β} {l : List α}
    (h : ∀ a ∈ l, f a = ok (g a)) :
    l.mapM f = ok (l.map g) := by
  induction l with
  | nil => rfl
  | cons a l ih =>
    obtain ⟨ha, hl⟩ := List.forall_mem_cons.mp h
    rw [List.mapM_cons, ha, bind_ok, ih hl]
    rfl

/-- A loop over the places of a list returns the list when each turn returns its element. -/
theorem mapM_range_eq_ok {f : Nat → Outcome ε β} {bs : List β}
    (h : ∀ i b, bs[i]? = some b → f i = ok b) :
    (List.range bs.length).mapM f = ok bs := by
  induction bs using List.reverseRecOn with
  | nil => rfl
  | append_singleton bs b ih =>
    have hinit := ih fun i a ha => h i a (by
      rw [List.getElem?_append_left (List.getElem?_eq_some_iff.mp ha).1, ha])
    rw [List.length_append, List.length_singleton, List.range_succ, List.mapM_append,
      hinit, bind_ok, List.mapM_cons, h bs.length b List.getElem?_concat_length]
    rfl

/-- A loop that can stop ends well exactly when every turn does, if a turn's end does not
depend on the state. -/
theorem foldlM_eq_ok {step : β → α → Outcome ε β} {p : α → Prop}
    (hstep : ∀ s a, (∃ s', step s a = .ok s') ↔ p a) (l : List α) (s : β) :
    (∃ s', l.foldlM step s = .ok s') ↔ ∀ a ∈ l, p a := by
  induction l generalizing s with
  | nil => simp
  | cons a l ih =>
    rw [List.foldlM_cons, List.forall_mem_cons, ← hstep s a]
    constructor
    · rintro ⟨s', h⟩
      obtain ⟨t, ht, h⟩ := bind_eq_ok.mp h
      exact ⟨⟨t, ht⟩, (ih t).mp ⟨s', h⟩⟩
    · rintro ⟨⟨t, ht⟩, hl⟩
      rw [ht, bind_ok]
      exact (ih t).mpr hl

/-- A loop of checks passes exactly when every check does. -/
theorem forM_eq_ok {l : List α} {f : α → Outcome ε Unit} :
    l.forM f = ok () ↔ ∀ a ∈ l, f a = ok () := by
  induction l with
  | nil => exact iff_of_true rfl fun _ h => absurd h List.not_mem_nil
  | cons a l ih =>
    change (f a >>= fun _ => l.forM f) = ok () ↔ _
    rw [bind_eq_ok, List.forall_mem_cons, ← ih]
    constructor
    · rintro ⟨_, ha, hl⟩
      exact ⟨ha, hl⟩
    · rintro ⟨ha, hl⟩
      exact ⟨(), ha, hl⟩

theorem returns_of_ok {x : Outcome ε α} {a : α} (h : x = ok a) : Returns x := h ▸ returns_ok a

/-- A computation that returns, but not `Ok`, returns an error. -/
theorem Returns.exists_err {x : Outcome ε α} (hx : Returns x) (h : ∀ a, x ≠ ok a) :
    ∃ e, x = err e := by
  cases x with
  | ok a => exact absurd rfl (h a)
  | err e => exact ⟨e, rfl⟩
  | panic => exact absurd rfl hx

end Outcome
