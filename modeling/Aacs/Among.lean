import Aacs.Interact

/-!
# Programs on a device that others use

Before each command of a program others may have theirs executed. With the commands of every
gap given, this is a run again, of which what holds of all answers holds too.
-/

variable {κ ρ ε σ α β : Type}

/-- The device after some commands. -/
def Device.after (d : Device κ ρ ε σ) (s : σ) (cs : List κ) : σ :=
  cs.foldl (fun s c => (d.execute s c).2) s

namespace Prog

/-- The run of a program in which the others' commands of each gap come before the next of its own.
-/
def runAmong (d : Device κ ρ ε σ) : Prog κ ρ ε α → List (List κ) → σ → Outcome ε α × σ
  | ret o, _, s => (o, s)
  | call c k, gaps, s =>
    let r := d.execute (d.after s (gaps.headD [])) c
    runAmong d (k r.1) gaps.tail r.2

variable {d : Device κ ρ ε σ} {gaps : List (List κ)} {s s' : σ}

@[simp] theorem runAmong_ret (o : Outcome ε α) : runAmong d (ret o) gaps s = (o, s) := rfl

/-- With nothing in the gaps it is the run of the program alone. -/
theorem runAmong_of_empty (p : Prog κ ρ ε α) (hgaps : ∀ gap ∈ gaps, gap = []) (s : σ) :
    runAmong d p gaps s = (run d p s).1 := by
  induction p generalizing gaps s with
  | ret o => rfl
  | call c k ih =>
    have hhead : gaps.headD [] = [] := by
      cases gaps with
      | nil => rfl
      | cons gap gaps => exact hgaps gap List.mem_cons_self
    rw [runAmong, hhead]
    exact ih _ (fun gap hgap => hgaps gap (List.mem_of_mem_tail hgap)) _

theorem runAmong_execute_bind {c : κ} {f : ρ → Prog κ ρ ε β} {x : ρ}
    (h : d.execute (d.after s (gaps.headD [])) c = (.ok x, s')) :
    runAmong d (execute c >>= f) gaps s = runAmong d (f x) gaps.tail s' := by
  simp only [execute, bind_call, runAmong, h, bind_ret_ok]

theorem runAmong_lift_bind {o : Outcome ε α} {a : α} (f : α → Prog κ ρ ε β) (h : o = .ok a) :
    runAmong d (lift o >>= f) gaps s = runAmong d (f a) gaps s := by
  rw [h]
  rfl

/-- A program that succeeds has had its first command succeed. -/
theorem exists_of_execute_bind {c : κ} {f : ρ → Prog κ ρ ε β} {b : β}
    (h : runAmong d (execute c >>= f) gaps s = (.ok b, s')) :
    ∃ x t, d.execute (d.after s (gaps.headD [])) c = (.ok x, t) ∧ runAmong d (f x) gaps.tail t =
      (.ok b, s') := by
  rcases hexec : d.execute (d.after s (gaps.headD [])) c with ⟨r, t⟩
  cases r with
  | ok x =>
    rw [runAmong_execute_bind hexec] at h
    exact ⟨x, t, rfl, h⟩
  | err e =>
    simp only [execute, bind_call, runAmong, hexec, bind_ret_err] at h
    cases h
  | panic =>
    simp only [execute, bind_call, runAmong, hexec, bind_ret_panic] at h
    cases h

theorem exists_of_lift_bind {o : Outcome ε α} {f : α → Prog κ ρ ε β} {b : β}
    (h : runAmong d (lift o >>= f) gaps s = (.ok b, s')) :
    ∃ a, o = .ok a ∧ runAmong d (f a) gaps s = (.ok b, s') := by
  cases o with
  | ok a => exact ⟨a, rfl, h⟩
  | err e => cases h
  | panic => cases h

theorem after_preserves {I : σ → Prop} (hstep : ∀ s c, I s → I (d.execute s c).2)
    (cs : List κ) (h : I s) :
    I (d.after s cs) := by
  induction cs generalizing s with
  | nil => exact h
  | cons c cs ih => exact ih (hstep s c h)

/-- What every command preserves holds at the end, whatever the others send. -/
theorem runAmong_preserves {I : σ → Prop} (hstep : ∀ s c, I s → I (d.execute s c).2)
    (p : Prog κ ρ ε α) (gaps : List (List κ)) (h : I s) : I (runAmong d p gaps s).2 := by
  induction p generalizing gaps s with
  | ret o => exact h
  | call c k ih => exact ih _ _ (hstep _ _ (after_preserves hstep _ h))

end Prog
