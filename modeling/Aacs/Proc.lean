import Aacs.Outcome

/-!
# Methods on a mutable object

A method reads and writes the state of its object and ends with an outcome. What
it wrote before it failed stays written, so that a method that leaves nothing
behind is one for which that is proved.
-/

variable {σ τ ε α β : Type}

/-- `&mut self` and a `Result`: the outcome and the state left behind. -/
def Proc (σ ε α : Type) := σ → Outcome ε α × σ

namespace Proc

protected def bind (p : Proc σ ε α) (f : α → Proc σ ε β) : Proc σ ε β := fun s =>
  match p s with
  | (.ok a, s') => f a s'
  | (.err e, s') => (.err e, s')
  | (.panic, s') => (.panic, s')

instance : Monad (Proc σ ε) where
  pure a := fun s => (.ok a, s)
  bind := Proc.bind

/-- A computation that does not touch the object. -/
def lift (o : Outcome ε α) : Proc σ ε α := fun s => (o, s)

def get : Proc σ ε σ := fun s => (.ok s, s)

def modify (f : σ → σ) : Proc σ ε Unit := fun s => (.ok (), f s)

/-- A method of a field that may be absent: `if let Some(x) = self.field.as_mut() { x.p()?; }`. -/
def onField (field : σ → Option τ) (put : σ → τ → σ) (p : Proc τ ε Unit) : Proc σ ε Unit := fun s =>
  match field s with
  | none => (.ok (), s)
  | some t => ((p t).1, put s (p t).2)

@[simp] theorem pure_apply (a : α) (s : σ) : (pure a : Proc σ ε α) s = (.ok a, s) := rfl
@[simp] theorem lift_apply (o : Outcome ε α) (s : σ) : (lift o : Proc σ ε α) s = (o, s) := rfl
@[simp] theorem lift_ok_bind (a : α) (f : α → Proc σ ε β) (s : σ) :
    (lift (.ok a) >>= f) s = f a s := rfl
@[simp] theorem lift_err_bind (e : ε) (f : α → Proc σ ε β) (s : σ) :
    (lift (.err e) >>= f) s = (.err e, s) := rfl
@[simp] theorem lift_panic_bind (f : α → Proc σ ε β) (s : σ) :
    (lift .panic >>= f) s = (.panic, s) := rfl
@[simp] theorem get_bind (f : σ → Proc σ ε β) (s : σ) : (get >>= f) s = f s s := rfl
@[simp] theorem modify_apply (g : σ → σ) (s : σ) :
    (modify g : Proc σ ε Unit) s = (.ok (), g s) := rfl
@[simp] theorem modify_bind (g : σ → σ) (f : Unit → Proc σ ε β) (s : σ) :
    (modify g >>= f) s = f () (g s) := rfl

theorem bind_apply (p : Proc σ ε α) (f : α → Proc σ ε β) (s : σ) : (p >>= f) s = p.bind f s := rfl

theorem bind_of_ok {p : Proc σ ε α} {f : α → Proc σ ε β} {s s' : σ} {a : α}
    (h : p s = (.ok a, s')) :
    (p >>= f) s = f a s' := by
  rw [bind_apply, Proc.bind, h]

theorem bind_of_err {p : Proc σ ε α} {f : α → Proc σ ε β} {s s' : σ} {e : ε}
    (h : p s = (.err e, s')) :
    (p >>= f) s = (.err e, s') := by
  rw [bind_apply, Proc.bind, h]

theorem bind_of_panic {p : Proc σ ε α} {f : α → Proc σ ε β} {s s' : σ} (h : p s = (.panic, s')) :
    (p >>= f) s = (.panic, s') := by
  rw [bind_apply, Proc.bind, h]

/-- A method that goes on after a computation succeeds when both do. -/
theorem lift_bind_eq_ok {o : Outcome ε α} {f : α → Proc σ ε β} {s s' : σ} {b : β} :
    (lift o >>= f) s = (.ok b, s') ↔ ∃ a, o = .ok a ∧ f a s = (.ok b, s') := by
  cases o <;> simp

/-- The method does not panic, whatever the state. -/
def Returns (p : Proc σ ε α) : Prop := ∀ s, (p s).1.Returns

theorem Returns.lift {o : Outcome ε α} (ho : o.Returns) :
    Returns (lift o : Proc σ ε α) := fun _ => ho

theorem Returns.lift_bind {o : Outcome ε α} {f : α → Proc σ ε β} (ho : o.Returns)
    (hf : ∀ a, o = .ok a → Returns (f a)) : Returns (Proc.lift o >>= f) := by
  intro s
  cases o with
  | ok a => exact hf a rfl s
  | err e => exact Outcome.returns_err e
  | panic => exact absurd rfl ho

theorem Returns.modify (g : σ → σ) : Returns (modify g : Proc σ ε Unit) :=
  fun _ => Outcome.returns_ok ()

theorem Returns.get_bind {f : σ → Proc σ ε β} (hf : ∀ t, Returns (f t)) : Returns (get >>= f) :=
  fun s => hf s s

/-- A method that does not succeed leaves the object as it was. -/
def Atomic (p : Proc σ ε α) : Prop := ∀ s, (∀ a, (p s).1 ≠ .ok a) → (p s).2 = s

/-- A method that always succeeds. -/
def Succeeds (p : Proc σ ε α) : Prop := ∀ s, ∃ a, (p s).1 = .ok a

theorem Succeeds.pure (a : α) : Succeeds (pure a : Proc σ ε α) := fun _ => ⟨a, rfl⟩

theorem Succeeds.modify (g : σ → σ) : Succeeds (modify g : Proc σ ε Unit) := fun _ => ⟨(), rfl⟩

theorem Succeeds.modify_bind {g : σ → σ} {f : Unit → Proc σ ε β} (hf : ∀ u, Succeeds (f u)) :
    Succeeds (Proc.modify g >>= f) :=
  fun s => hf () (g s)

/-- `self.field = v; Ok(a)`. -/
theorem Succeeds.modify_pure (g : σ → σ) (a : α) :
    Succeeds (do Proc.modify g; Pure.pure a : Proc σ ε α) :=
  .modify_bind fun _ => .pure a

theorem Succeeds.atomic {p : Proc σ ε α} (hp : Succeeds p) : Atomic p := by
  intro s hfail
  obtain ⟨a, ha⟩ := hp s
  exact absurd ha (hfail a)

theorem Atomic.lift (o : Outcome ε α) : Atomic (lift o : Proc σ ε α) := fun _ _ => rfl

theorem Atomic.lift_bind {o : Outcome ε α} {f : α → Proc σ ε β} (hf : ∀ a, Atomic (f a)) :
    Atomic (Proc.lift o >>= f) := by
  intro s hfail
  cases o with
  | ok a => exact hf a s hfail
  | err e => rfl
  | panic => rfl

theorem Atomic.get_bind {f : σ → Proc σ ε β} (hf : ∀ t, Atomic (f t)) : Atomic (get >>= f) :=
  fun s => hf s s

theorem Atomic.ite {c : Prop} [Decidable c] {p q : Proc σ ε α} (hp : Atomic p) (hq : Atomic q) :
    Atomic (if c then p else q) := by
  by_cases hc : c
  · rw [if_pos hc]
    exact hp
  · rw [if_neg hc]
    exact hq

/-- After a method that is atomic, one that cannot fail. -/
theorem Atomic.bind {p : Proc σ ε α} {f : α → Proc σ ε β} (hp : Atomic p)
    (hf : ∀ a, Succeeds (f a)) : Atomic (p >>= f) := by
  intro s hfail
  have hstate := hp s
  rcases hps : p s with ⟨o, s'⟩
  rw [hps] at hstate
  cases o with
  | ok a =>
    rw [bind_of_ok hps] at hfail
    obtain ⟨b, hb⟩ := hf a s'
    exact absurd hb (hfail b)
  | err e =>
    rw [bind_of_err hps]
    exact hstate fun _ h => by cases h
  | panic =>
    rw [bind_of_panic hps]
    exact hstate fun _ h => by cases h

theorem Atomic.onField {field : σ → Option τ} {put : σ → τ → σ} {p : Proc τ ε Unit}
    (hput : ∀ s t, field s = some t → put s t = s) (hp : Atomic p) :
    Atomic (onField field put p) := by
  intro s hfail
  rw [Proc.onField] at hfail ⊢
  cases hfield : field s with
  | none => rfl
  | some t =>
    rw [hfield] at hfail
    dsimp only at hfail ⊢
    rw [hp t hfail]
    exact hput s t hfield

/-- What `view` shows of the object is the same before and after, whatever the outcome. -/
def Keeps (view : σ → τ) (p : Proc σ ε α) : Prop := ∀ s, view (p s).2 = view s

section Keeps

variable {view : σ → τ}

theorem Keeps.lift (o : Outcome ε α) : Keeps view (lift o : Proc σ ε α) := fun _ => rfl

theorem Keeps.pure (a : α) : Keeps view (pure a : Proc σ ε α) := fun _ => rfl

theorem Keeps.modify {g : σ → σ} (hg : ∀ s, view (g s) = view s) :
    Keeps view (modify g : Proc σ ε Unit) := hg

theorem Keeps.bind {p : Proc σ ε α} {f : α → Proc σ ε β} (hp : Keeps view p)
    (hf : ∀ a, Keeps view (f a)) : Keeps view (p >>= f) := by
  intro s
  have hstate := hp s
  rcases hps : p s with ⟨o, s'⟩
  rw [hps] at hstate
  cases o with
  | ok a =>
    rw [bind_of_ok hps]
    exact (hf a s').trans hstate
  | err e =>
    rw [bind_of_err hps]
    exact hstate
  | panic =>
    rw [bind_of_panic hps]
    exact hstate

/-- `self.field = v; Ok(a)` on a field that does not show. -/
theorem Keeps.modify_pure {g : σ → σ} {a : α} (hg : ∀ s, view (g s) = view s) :
    Keeps view (do Proc.modify g; Pure.pure a : Proc σ ε α) :=
  .bind (.modify hg) fun _ => .pure a

theorem Keeps.get_bind {f : σ → Proc σ ε β} (hf : ∀ t, Keeps view (f t)) : Keeps view (get >>= f) :=
  fun s => hf s s

theorem Keeps.ite {c : Prop} [Decidable c] {p q : Proc σ ε α} (hp : Keeps view p)
    (hq : Keeps view q) :
    Keeps view (if c then p else q) := by
  by_cases hc : c
  · rw [if_pos hc]
    exact hp
  · rw [if_neg hc]
    exact hq

theorem Keeps.onField {υ : Type} {field : σ → Option υ} {put : σ → υ → σ} {p : Proc υ ε Unit}
    (hput : ∀ s t t', field s = some t → view (put s t') = view s) :
    Keeps view (onField field put p) := by
  intro s
  rw [Proc.onField]
  cases hfield : field s with
  | none => rfl
  | some t => exact hput s t _ hfield

end Keeps

end Proc
