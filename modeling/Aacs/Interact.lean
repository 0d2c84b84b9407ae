import Aacs.Outcome

/-!
# Programs that talk to a device

A program is a tree of commands: it ends with an outcome, or issues a command
and goes on with whatever comes back. `Answers` is its behaviour against any
responses at all, `run` against a given device: every run is a list of answers, so
that what holds of every list of answers holds of every run.
-/

variable {κ ρ ε σ α β : Type}

inductive Prog (κ ρ ε α : Type) where
  | ret : Outcome ε α → Prog κ ρ ε α
  | call : κ → (Outcome ε ρ → Prog κ ρ ε α) → Prog κ ρ ε α

/-- A command with the response it got. -/
structure Exchange (κ ρ ε : Type) where
  command : κ
  response : Outcome ε ρ

/-- Anything that answers commands, with a state of its own. -/
structure Device (κ ρ ε σ : Type) where
  execute : σ → κ → Outcome ε ρ × σ

namespace Prog

protected def bind : Prog κ ρ ε α → (α → Prog κ ρ ε β) → Prog κ ρ ε β
  | ret (.ok a), f => f a
  | ret (.err e), _ => ret (.err e)
  | ret .panic, _ => ret .panic
  | call c k, f => call c fun r => (k r).bind f

instance : Monad (Prog κ ρ ε) where
  pure a := ret (.ok a)
  bind := Prog.bind

/-- A computation without commands. -/
def lift (o : Outcome ε α) : Prog κ ρ ε α := ret o

def execute (c : κ) : Prog κ ρ ε ρ := call c ret

@[simp] theorem bind_ret_ok (a : α) (f : α → Prog κ ρ ε β) : (ret (.ok a) >>= f) = f a := rfl
@[simp] theorem bind_ret_err (e : ε) (f : α → Prog κ ρ ε β) :
    ((ret (.err e) : Prog κ ρ ε α) >>= f) = ret (.err e) := rfl
@[simp] theorem bind_ret_panic (f : α → Prog κ ρ ε β) :
    ((ret .panic : Prog κ ρ ε α) >>= f) = ret .panic := rfl
@[simp] theorem bind_call (c : κ) (k : Outcome ε ρ → Prog κ ρ ε α) (f : α → Prog κ ρ ε β) :
    (call c k >>= f) = call c fun r => k r >>= f := rfl
@[simp] theorem pure_eq (a : α) : (pure a : Prog κ ρ ε α) = ret (.ok a) := rfl

/-- The program ends with `o` after the exchanges of `log`. -/
inductive Answers : Prog κ ρ ε α → List (Exchange κ ρ ε) → Outcome ε α → Prop
  | ret (o : Outcome ε α) : Answers (ret o) [] o
  | call {c : κ} {k : Outcome ε ρ → Prog κ ρ ε α} {r : Outcome ε ρ} {log : List (Exchange κ ρ ε)}
      {o : Outcome ε α} : Answers (k r) log o → Answers (call c k) (⟨c, r⟩ :: log) o

@[simp] theorem answers_ret {o o' : Outcome ε α} {log : List (Exchange κ ρ ε)} :
    Answers (ret o) log o' ↔ log = [] ∧ o' = o := by
  constructor
  · intro h
    cases h
    exact ⟨rfl, rfl⟩
  · rintro ⟨rfl, rfl⟩
    exact .ret _

@[simp] theorem answers_call {c : κ} {k : Outcome ε ρ → Prog κ ρ ε α}
    {log : List (Exchange κ ρ ε)} {o : Outcome ε α} :
    Answers (call c k) log o ↔ ∃ r rest, log = ⟨c, r⟩ :: rest ∧ Answers (k r) rest o := by
  constructor
  · intro h
    cases h with
    | call h => exact ⟨_, _, rfl, h⟩
  · rintro ⟨r, rest, rfl, h⟩
    exact .call h

theorem bind_assoc_prog {γ : Type} (p : Prog κ ρ ε α) (f : α → Prog κ ρ ε β)
    (g : β → Prog κ ρ ε γ) :
    (p >>= f) >>= g = p >>= fun a => f a >>= g := by
  induction p with
  | ret o => cases o <;> rfl
  | call c k ih => exact congrArg (call c) (funext ih)

/-- Every way of answering `p` meets `Q`. A command may get a value, an error or no answer; a pure
step has one of the three ends. -/
def Ensures (p : Prog κ ρ ε α) (Q : List (Exchange κ ρ ε) → Outcome ε α → Prop) : Prop :=
  ∀ log o, Answers p log o → Q log o

section
variable {Q : List (Exchange κ ρ ε) → Outcome ε β → Prop}

theorem Ensures.ret {o : Outcome ε β} (h : Q [] o) : Ensures (ret o) Q := by
  intro log o' ha
  obtain ⟨rfl, rfl⟩ := answers_ret.mp ha
  exact h

theorem Ensures.execute_bind {c : κ} {f : ρ → Prog κ ρ ε β}
    (hok : ∀ x, Ensures (f x) fun log o => Q (⟨c, .ok x⟩ :: log) o)
    (herr : ∀ e, Q [⟨c, .err e⟩] (.err e)) (hpanic : Q [⟨c, .panic⟩] .panic) :
    Ensures (execute c >>= f) Q := by
  intro log o ha
  rw [execute, bind_call, answers_call] at ha
  obtain ⟨r, rest, rfl, hr⟩ := ha
  cases r with
  | ok x => exact hok x rest o hr
  | err e =>
    obtain ⟨rfl, rfl⟩ := answers_ret.mp hr
    exact herr e
  | panic =>
    obtain ⟨rfl, rfl⟩ := answers_ret.mp hr
    exact hpanic

theorem Ensures.lift_bind {x : Outcome ε α} {f : α → Prog κ ρ ε β}
    (hok : ∀ a, x = .ok a → Ensures (f a) Q) (herr : ∀ e, x = .err e → Q [] (.err e))
    (hpanic : x = .panic → Q [] .panic) : Ensures (lift x >>= f) Q := by
  cases x with
  | ok a => exact hok a rfl
  | err e => exact .ret (herr e rfl)
  | panic => exact .ret (hpanic rfl)

/-- In a sequence the second program runs after the exchanges of the first. -/
theorem Ensures.bind {p : Prog κ ρ ε α} {f : α → Prog κ ρ ε β}
    {P : List (Exchange κ ρ ε) → Outcome ε α → Prop} (hp : Ensures p P)
    (hok : ∀ log a, P log (.ok a) → Ensures (f a) fun rest o => Q (log ++ rest) o)
    (herr : ∀ log e, P log (.err e) → Q log (.err e))
    (hpanic : ∀ log, P log .panic → Q log .panic) :
    Ensures (p >>= f) Q := by
  induction p generalizing P Q with
  | ret o =>
    have ho := hp [] o (.ret o)
    cases o with
    | ok a => exact hok [] a ho
    | err e => exact .ret (herr [] e ho)
    | panic => exact .ret (hpanic [] ho)
  | call c k ih =>
    intro log o ha
    rw [bind_call, answers_call] at ha
    obtain ⟨r, rest, rfl, hr⟩ := ha
    refine ih r (fun log o h => hp _ _ (.call h)) (fun log a h => ?_) (fun log e h => herr _ e h)
      (fun log h => hpanic _ h) rest o hr
    exact hok _ a h

theorem Ensures.mono {p : Prog κ ρ ε β} {P : List (Exchange κ ρ ε) → Outcome ε β → Prop}
    (hp : Ensures p P) (h : ∀ log o, P log o → Q log o) : Ensures p Q :=
  fun log o ha => h log o (hp log o ha)

end

section
variable {R : List (Exchange κ ρ ε) → β → Prop}

theorem Ensures.ret_ok {b : β} (h : R [] b) :
    Ensures (Prog.ret (.ok b) : Prog κ ρ ε β) fun log o => ∀ b, o = .ok b → R log b := by
  apply Ensures.ret
  intro b' hb
  obtain rfl := Outcome.ok.inj hb
  exact h

theorem Ensures.execute_bind_ok {c : κ} {f : ρ → Prog κ ρ ε β}
    (hok : ∀ x, Ensures (f x) fun log o => ∀ b, o = .ok b → R (⟨c, .ok x⟩ :: log) b) :
    Ensures (execute c >>= f) fun log o => ∀ b, o = .ok b → R log b :=
  Ensures.execute_bind hok (by simp) (by simp)

theorem Ensures.lift_bind_ok {x : Outcome ε α} {f : α → Prog κ ρ ε β}
    (hok : ∀ a, x = .ok a → Ensures (f a) fun log o => ∀ b, o = .ok b → R log b) :
    Ensures (lift x >>= f) fun log o => ∀ b, o = .ok b → R log b :=
  Ensures.lift_bind hok (by simp) (by simp)

theorem Ensures.bind_ok {p : Prog κ ρ ε α} {f : α → Prog κ ρ ε β}
    {P : List (Exchange κ ρ ε) → α → Prop} (hp : Ensures p fun log o => ∀ a, o = .ok a → P log a)
    (hok : ∀ log a, P log a → Ensures (f a) fun rest o => ∀ b, o = .ok b → R (log ++ rest) b) :
    Ensures (p >>= f) fun log o => ∀ b, o = .ok b → R log b :=
  Ensures.bind hp (fun log a h => hok log a (h a rfl)) (by simp) (by simp)

end

/-- Every command the program may issue has the property. -/
def Issues (P : κ → Prop) (p : Prog κ ρ ε α) : Prop := Ensures p fun log _ => ∀ x ∈ log, P x.command

section
variable {P : κ → Prop}

theorem Issues.ret (o : Outcome ε α) : Issues P (ret o : Prog κ ρ ε α) := Ensures.ret (by simp)

theorem Issues.execute_bind {c : κ} {f : ρ → Prog κ ρ ε β} (hc : P c) (hf : ∀ x, Issues P (f x)) :
    Issues P (execute c >>= f) := by
  have hrest : ∀ x, Ensures (f x) fun log _ => ∀ y ∈ (⟨c, .ok x⟩ :: log : List (Exchange κ ρ ε)),
      P y.command := by
    intro x
    exact (hf x).mono fun log o h => List.forall_mem_cons.mpr ⟨hc, h⟩
  exact Ensures.execute_bind hrest (by simp [hc]) (by simp [hc])

theorem Issues.lift_bind {x : Outcome ε α} {f : α → Prog κ ρ ε β}
    (hf : ∀ a, x = .ok a → Issues P (f a)) :
    Issues P (lift x >>= f) := Ensures.lift_bind hf (by simp) (by simp)

end

/-- What a device makes of a program: the outcome, the state it ends in and the exchanges. -/
def run (d : Device κ ρ ε σ) : Prog κ ρ ε α → σ → (Outcome ε α × σ) × List (Exchange κ ρ ε)
  | ret o, s => ((o, s), [])
  | call c k, s =>
    let r := d.execute s c
    let t := run d (k r.1) r.2
    (t.1, ⟨c, r.1⟩ :: t.2)

@[simp] theorem run_ret (d : Device κ ρ ε σ) (o : Outcome ε α) (s : σ) :
    run d (ret o) s = ((o, s), []) := rfl

@[simp] theorem run_lift_bind (d : Device κ ρ ε σ) (a : α) (f : α → Prog κ ρ ε β) (s : σ) :
    run d (lift (.ok a) >>= f) s = run d (f a) s := rfl

/-- A run succeeds exactly when its first command gets a value and the rest succeeds with it. -/
theorem run_execute_bind_ok_iff {d : Device κ ρ ε σ} {c : κ} {f : ρ → Prog κ ρ ε β} {s : σ} :
    (∃ b, (run d (execute c >>= f) s).1.1 = .ok b) ↔
      ∃ x s', d.execute s c = (.ok x, s') ∧ ∃ b, (run d (f x) s').1.1 = .ok b := by
  simp only [execute, bind_call, run]
  rcases d.execute s c with ⟨r, s'⟩
  cases r with
  | ok x =>
    constructor
    · intro h
      exact ⟨x, s', rfl, h⟩
    · rintro ⟨x', s'', heq, h⟩
      obtain ⟨hx, rfl⟩ := Prod.mk.inj heq
      obtain rfl := Outcome.ok.inj hx
      exact h
  | err e => simp
  | panic => simp

theorem run_lift_bind_ok_iff {d : Device κ ρ ε σ} {o : Outcome ε α} {f : α → Prog κ ρ ε β} {s : σ} :
    (∃ b, (run d (lift o >>= f) s).1.1 = .ok b) ↔
      ∃ a, o = .ok a ∧ ∃ b, (run d (f a) s).1.1 = .ok b := by
  cases o with
  | ok a => simp
  | err e => simp [lift]
  | panic => simp [lift]

/-- A command that gets a value hands it, and the device's next state, to the rest. -/
theorem run_execute_bind {d : Device κ ρ ε σ} {c : κ} {f : ρ → Prog κ ρ ε β} {s s' : σ} {x : ρ}
    (h : d.execute s c = (.ok x, s')) : (run d (execute c >>= f) s).1 = (run d (f x) s').1 := by
  simp only [execute, bind_call, run, h, bind_ret_ok]

theorem run_answers (d : Device κ ρ ε σ) (p : Prog κ ρ ε α) (s : σ) :
    Answers p (run d p s).2 (run d p s).1.1 := by
  induction p generalizing s with
  | ret o => exact .ret o
  | call c k ih => exact .call (ih _ _)

/-- What every way of answering meets, a run on any device meets. -/
theorem Ensures.run {p : Prog κ ρ ε α} {Q : List (Exchange κ ρ ε) → Outcome ε α → Prop}
    (h : Ensures p Q) (d : Device κ ρ ε σ) (s : σ) : Q (run d p s).2 (run d p s).1.1 :=
  h _ _ (run_answers d p s)

end Prog
