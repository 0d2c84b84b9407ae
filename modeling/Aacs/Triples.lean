import Mathlib.Data.List.Induction
import Mathlib.Tactic.Common

/-!
# A scan that joins three neighbours

A list is read from the front. Three elements that fit together become one item,
any other element is an item by itself. When no element can stand both at the start
and further on in a triple, the items are decided by the places alone: a triple is
found wherever it stands, and nothing else is lost.
-/

/-- Which three elements join, what becomes of them and of a single element, and how many
elements an item takes. -/
structure Triples (α β : Type) where
  join : α → α → α → Option β
  single : α → β
  width : β → Nat
  width_join : ∀ {a b c y}, join a b c = some y → width y = 3
  width_single : ∀ a, width (single a) = 1
  apart : ∀ {a b c y}, join a b c = some y → ∀ d e, join b d e = none ∧ join c d e = none

namespace Triples

variable {α β : Type} (t : Triples α β)

def scan : List α → List β
  | [] => []
  | [a] => [t.single a]
  | [a, b] => [t.single a, t.single b]
  | a :: b :: c :: rest =>
    match t.join a b c with
    | some y => y :: scan rest
    | none => t.single a :: scan (b :: c :: rest)

/-- How many elements the items take. -/
def count : List β → Nat
  | [] => 0
  | y :: ys => t.width y + count ys

/-- The item `y` begins at place `p`: those before it take `p` elements. -/
def At (ys : List β) (p : Nat) (y : β) : Prop :=
  ∃ before after, ys = before ++ y :: after ∧ t.count before = p

/-- Three elements from place `p` on join to `y`. -/
def Joined (l : List α) (p : Nat) (y : β) : Prop :=
  ∃ a b c, l[p]? = some a ∧ l[p + 1]? = some b ∧ l[p + 2]? = some c ∧ t.join a b c = some y

/-- The place is one of a triple's. -/
def Covered (l : List α) (p : Nat) : Prop := ∃ q y, t.Joined l q y ∧ q ≤ p ∧ p < q + 3

/-- What should begin at place `p`, from the list alone. -/
def Item (l : List α) (p : Nat) (y : β) : Prop :=
  t.Joined l p y ∨ ∃ a, l[p]? = some a ∧ ¬t.Covered l p ∧ y = t.single a

variable {t} {l : List α} {a b c : α} {y y' : β} {ys : List β} {p : Nat}

theorem at_nil : ¬t.At [] p y := by
  rintro ⟨before, after, h, -⟩
  exact absurd h.symm (List.append_ne_nil_of_right_ne_nil before (List.cons_ne_nil y after))

/-- The first item begins at the first place, the others behind its elements. -/
theorem at_cons : t.At (y' :: ys) p y ↔ (p = 0 ∧ y = y') ∨ ∃ q, p = t.width y' + q ∧
    t.At ys q y := by
  constructor
  · rintro ⟨before, after, h, rfl⟩
    cases before with
    | nil =>
      obtain ⟨rfl, -⟩ := List.cons.inj h
      exact .inl ⟨rfl, rfl⟩
    | cons x before =>
      obtain ⟨rfl, rfl⟩ := List.cons.inj h
      exact .inr ⟨t.count before, rfl, before, after, rfl, rfl⟩
  · rintro (⟨rfl, rfl⟩ | ⟨q, rfl, before, after, rfl, rfl⟩)
    · exact ⟨[], ys, rfl, rfl⟩
    · exact ⟨y' :: before, after, rfl, rfl⟩

/-- Items are what begins somewhere. -/
theorem mem_iff_at : y ∈ ys ↔ ∃ p, t.At ys p y := by
  constructor
  · intro h
    obtain ⟨before, after, rfl⟩ := List.append_of_mem h
    exact ⟨t.count before, before, after, rfl, rfl⟩
  · rintro ⟨p, before, after, rfl, -⟩
    exact List.mem_append_right _ List.mem_cons_self

/-- No triple at the first place: everything moves by one. -/
theorem joined_succ : t.Joined (a :: l) (p + 1) y ↔ t.Joined l p y := by
  simp only [Joined, List.getElem?_cons_succ, Nat.add_right_comm p 1]

theorem covered_succ (h : ∀ y, ¬t.Joined (a :: l) 0 y) :
    t.Covered (a :: l) (p + 1) ↔ t.Covered l p := by
  constructor
  · rintro ⟨q, y, hq, hle, hlt⟩
    cases q with
    | zero => exact absurd hq (h y)
    | succ q => exact ⟨q, y, joined_succ.mp hq, by omega, by omega⟩
  · rintro ⟨q, y, hq, hle, hlt⟩
    exact ⟨q + 1, y, joined_succ.mpr hq, by omega, by omega⟩

theorem item_succ (h : ∀ y, ¬t.Joined (a :: l) 0 y) : t.Item (a :: l) (p + 1) y ↔ t.Item l p y := by
  simp only [Item, joined_succ, covered_succ h, List.getElem?_cons_succ]

theorem item_zero (h : ∀ y, ¬t.Joined (a :: l) 0 y) : t.Item (a :: l) 0 y ↔ y = t.single a := by
  constructor
  · rintro (hy | ⟨a', ha', -, rfl⟩)
    · exact absurd hy (h y)
    · obtain rfl := Option.some.inj ha'
      rfl
  · rintro rfl
    refine .inr ⟨a, rfl, ?_, rfl⟩
    rintro ⟨q, y, hq, hle, -⟩
    obtain rfl := Nat.le_zero.mp hle
    exact h y hq

/-- A single element in front of a list. -/
theorem item_cons (h : ∀ y, ¬t.Joined (a :: l) 0 y) :
    t.Item (a :: l) p y ↔ (p = 0 ∧ y = t.single a) ∨ ∃ q, p = 1 + q ∧ t.Item l q y := by
  cases p with
  | zero =>
    rw [item_zero h]
    constructor
    · intro hy
      exact .inl ⟨rfl, hy⟩
    · rintro (⟨-, hy⟩ | ⟨q, hq, -⟩)
      · exact hy
      · omega
  | succ p =>
    rw [item_succ h]
    constructor
    · intro hy
      exact .inr ⟨p, Nat.add_comm p 1, hy⟩
    · rintro (⟨hp, -⟩ | ⟨q, hq, hy⟩)
      · cases hp
      · obtain rfl : q = p := by omega
        exact hy

theorem joined_zero : t.Joined (a :: b :: c :: l) 0 y ↔ t.join a b c = some y := by
  constructor
  · rintro ⟨a', b', c', ha, hb, hc, hy⟩
    obtain rfl := Option.some.inj ha
    obtain rfl := Option.some.inj hb
    obtain rfl := Option.some.inj hc
    exact hy
  · intro hy
    exact ⟨a, b, c, rfl, rfl, rfl, hy⟩

/-- A triple in front of a list: its places hold nothing else, and behind it everything moves by
three. -/
theorem item_join (h : t.join a b c = some y') :
    t.Item (a :: b :: c :: l) p y ↔ (p = 0 ∧ y = y') ∨ ∃ q, p = 3 + q ∧ t.Item l q y := by
  have hfirst : t.Joined (a :: b :: c :: l) 0 y' := joined_zero.mpr h
  have hb : ∀ z, ¬t.Joined (b :: c :: l) 0 z := by
    rintro z ⟨b', d, e, hb', -, -, hz⟩
    obtain rfl := Option.some.inj hb'
    rw [(t.apart h d e).1] at hz
    cases hz
  have hc : ∀ z, ¬t.Joined (c :: l) 0 z := by
    rintro z ⟨c', d, e, hc', -, -, hz⟩
    obtain rfl := Option.some.inj hc'
    rw [(t.apart h d e).2] at hz
    cases hz
  have hjoined : ∀ q z, t.Joined (a :: b :: c :: l) (q + 3) z ↔ t.Joined l q z := by
    intro q z
    rw [joined_succ, joined_succ, joined_succ]
  have hinner : ∀ q z, t.Joined (a :: b :: c :: l) q z → (q = 0 ∧ z = y') ∨ ∃ r, q = r + 3 := by
    intro q z hq
    rcases q with _ | _ | _ | q
    · rw [joined_zero, h] at hq
      exact .inl ⟨rfl, (Option.some.inj hq).symm⟩
    · exact absurd (joined_succ.mp hq) (hb z)
    · exact absurd (joined_succ.mp (joined_succ.mp hq)) (hc z)
    · exact .inr ⟨q, rfl⟩
  have hcovered : ∀ q, t.Covered (a :: b :: c :: l) (q + 3) ↔ t.Covered l q := by
    intro q
    constructor
    · rintro ⟨r, z, hr, hle, hlt⟩
      rcases hinner r z hr with ⟨rfl, -⟩ | ⟨r, rfl⟩
      · omega
      · exact ⟨r, z, (hjoined r z).mp hr, by omega, by omega⟩
    · rintro ⟨r, z, hr, hle, hlt⟩
      exact ⟨r + 3, z, (hjoined r z).mpr hr, by omega, by omega⟩
  have hitem : ∀ q, t.Item (a :: b :: c :: l) (q + 3) y ↔ t.Item l q y := by
    intro q
    simp only [Item, hjoined, hcovered, List.getElem?_cons_succ]
  constructor
  · intro hy
    by_cases hp : p < 3
    · rcases hy with hy | ⟨d, -, hno, -⟩
      · rcases hinner p y hy with ⟨rfl, rfl⟩ | ⟨r, rfl⟩
        · exact .inl ⟨rfl, rfl⟩
        · omega
      · exact absurd ⟨0, y', hfirst, Nat.zero_le _, hp⟩ hno
    · obtain ⟨q, rfl⟩ := Nat.exists_eq_add_of_le (Nat.le_of_not_lt hp)
      rw [Nat.add_comm, hitem] at hy
      exact .inr ⟨q, rfl, hy⟩
  · rintro (⟨rfl, rfl⟩ | ⟨q, rfl, hy⟩)
    · exact .inl hfirst
    · rw [Nat.add_comm, hitem]
      exact hy

/-- Fewer than three elements never join. -/
theorem not_joined_of_length (h : l.length < 3) : ¬t.Joined l 0 y := by
  rintro ⟨_, _, c, -, -, hc, -⟩
  have hlt := (List.getElem?_eq_some_iff.mp hc).1
  omega

/-- What the scan finds at a place is what the list has there. -/
theorem at_scan : t.At (t.scan l) p y ↔ t.Item l p y := by
  have hempty : ∀ q z, ¬t.Item [] q z := by
    rintro q z (⟨_, _, _, ha, -⟩ | ⟨_, ha, -⟩)
    · cases ha
    · cases ha
  induction l using scan.induct t generalizing p with
  | case1 => exact iff_of_false at_nil (hempty p y)
  | case2 a =>
    have hno : ∀ z, ¬t.Joined [a] 0 z := fun z => not_joined_of_length (by simp)
    rw [scan, at_cons, item_cons hno, t.width_single]
    simp only [at_nil, hempty]
  | case3 a b =>
    have hno : ∀ z, ¬t.Joined [a, b] 0 z := fun z => not_joined_of_length (by simp)
    have hno' : ∀ z, ¬t.Joined [b] 0 z := fun z => not_joined_of_length (by simp)
    rw [scan, at_cons, item_cons hno, t.width_single]
    simp only [at_cons, item_cons hno', t.width_single, at_nil, hempty]
  | case4 a b c rest y' hjoin ih =>
    rw [scan, hjoin, at_cons, item_join hjoin, t.width_join hjoin]
    simp only [ih]
  | case5 a b c rest hjoin ih =>
    have hno : ∀ z, ¬t.Joined (a :: b :: c :: rest) 0 z := by
      intro z hz
      rw [joined_zero, hjoin] at hz
      cases hz
    rw [scan, hjoin, at_cons, item_cons hno, t.width_single]
    simp only [ih]

/-- The scan takes every element once. -/
theorem count_scan (l : List α) : t.count (t.scan l) = l.length := by
  induction l using scan.induct t with
  | case1 => rfl
  | case2 a => simp [scan, count, t.width_single]
  | case3 a b => simp [scan, count, t.width_single]
  | case4 a b c rest y hjoin ih =>
    rw [scan, hjoin]
    simp only [count, t.width_join hjoin, ih, List.length_cons]
    omega
  | case5 a b c rest hjoin ih =>
    rw [scan, hjoin]
    simp only [count, t.width_single, ih, List.length_cons]
    omega

/-- The elements an item is made of. -/
def Row (t : Triples α β) (y : β) (row : List α) : Prop :=
  (∃ a, row = [a] ∧ t.single a = y) ∨ ∃ a b c, row = [a, b, c] ∧ t.join a b c = some y

/-- No triple runs into the start of another. -/
theorem join_eq_none (h : (∃ d, t.join b c d = some y) ∨ ∃ d e, t.join c d e = some y) :
    t.join a b c = none := by
  rw [Option.eq_none_iff_forall_ne_some]
  intro z hz
  rcases h with ⟨d, h⟩ | ⟨d, e, h⟩
  · have hnone := (t.apart hz c d).1
    rw [h] at hnone
    cases hnone
  · have hnone := (t.apart hz d e).2
    rw [h] at hnone
    cases hnone

theorem scan_single (h : ∀ b c tail, l = b :: c :: tail → t.join a b c = none) :
    t.scan (a :: l) = t.single a :: t.scan l := by
  rcases l with _ | ⟨b, _ | ⟨c, rest⟩⟩
  · rfl
  · rfl
  · rw [scan, h b c rest rfl]

/-- Items written one behind the other are found again, unless three that stand singly
would join. -/
theorem scan_rows {row : β → List α} (hrow : ∀ y ∈ ys, t.Row y (row y))
    (happart : ∀ y₁ y₂ y₃ a b c, [y₁, y₂, y₃] <:+: ys → row y₁ = [a] → row y₂ = [b] → row y₃ = [c] →
      t.join a b c = none) : t.scan (ys.flatMap row) = ys := by
  induction ys with
  | nil => rfl
  | cons y ys ih =>
    obtain ⟨hy, hys⟩ := List.forall_mem_cons.mp hrow
    have hrest : t.scan (ys.flatMap row) = ys :=
      ih hys fun y₁ y₂ y₃ a b c hwithin => happart y₁ y₂ y₃ a b c (List.infix_cons hwithin)
    rw [List.flatMap_cons]
    rcases hy with ⟨a, ha, hsingle⟩ | ⟨a, b, c, habc, hjoin⟩
    · rw [ha, List.singleton_append, scan_single, hrest, hsingle]
      intro b c tail htail
      rcases ys with _ | ⟨y₂, ys⟩
      · cases htail
      obtain ⟨hy₂, hys⟩ := List.forall_mem_cons.mp hys
      rcases hy₂ with ⟨b', hb, -⟩ | ⟨b', c', d, hb, hjoin⟩
      · rcases ys with _ | ⟨y₃, ys⟩
        · simp [hb] at htail
        rcases List.forall_mem_cons.mp hys |>.1 with ⟨c', hc, -⟩ | ⟨c', d, e, hc, hjoin⟩
        · simp only [List.flatMap_cons, hb, hc, List.cons_append, List.nil_append,
            List.cons.injEq] at htail
          obtain ⟨rfl, rfl, -⟩ := htail
          exact happart y y₂ y₃ a b' c' ⟨[], ys, rfl⟩ ha hb hc
        · simp only [List.flatMap_cons, hb, hc, List.cons_append, List.nil_append,
            List.cons.injEq] at htail
          obtain ⟨rfl, rfl, -⟩ := htail
          exact join_eq_none (.inr ⟨d, e, hjoin⟩)
      · simp only [List.flatMap_cons, hb, List.cons_append, List.nil_append,
          List.cons.injEq] at htail
        obtain ⟨rfl, rfl, -⟩ := htail
        exact join_eq_none (.inl ⟨d, hjoin⟩)
    · rw [habc]
      change t.scan (a :: b :: c :: ys.flatMap row) = y :: ys
      rw [scan, hjoin, hrest]

theorem count_append (ys zs : List β) : t.count (ys ++ zs) = t.count ys + t.count zs := by
  induction ys with
  | nil => exact (Nat.zero_add _).symm
  | cons y ys ih => rw [List.cons_append, count, count, ih, Nat.add_assoc]

/-- What a scan gives is what its rows make of themselves. -/
theorem mem_scan (h : y ∈ t.scan l) : (∃ a, y = t.single a) ∨ ∃ a b c, t.join a b c = some y := by
  obtain ⟨p, hp⟩ := mem_iff_at.mp h
  rcases at_scan.mp hp with ⟨a, b, c, -, -, -, hjoin⟩ | ⟨a, -, -, hsingle⟩
  · exact .inr ⟨a, b, c, hjoin⟩
  · exact .inl ⟨a, hsingle⟩

/-- An item one element wide is that element by itself. -/
theorem item_single (h : t.Item l p y) (hwidth : t.width y = 1) :
    ∃ a, l[p]? = some a ∧ ¬t.Covered l p ∧ y = t.single a := by
  rcases h with ⟨a, b, c, -, -, -, hjoin⟩ | hsingle
  · have hthree := t.width_join hjoin
    rw [hwidth] at hthree
    cases hthree
  · exact hsingle

/-- Three neighbours in a scan that are one element wide do not join. -/
theorem scan_apart {y₁ y₂ y₃ : β} (h : [y₁, y₂, y₃] <:+: t.scan l) (h₁ : t.width y₁ = 1)
    (h₂ : t.width y₂ = 1) (h₃ : t.width y₃ = 1) :
    ∃ a b c, y₁ = t.single a ∧ y₂ = t.single b ∧ y₃ = t.single c ∧ t.join a b c = none := by
  obtain ⟨before, after, heq⟩ := h
  have hat₁ : t.At (t.scan l) (t.count before) y₁ :=
    ⟨before, y₂ :: y₃ :: after, by simp [← heq], rfl⟩
  have hat₂ : t.At (t.scan l) (t.count before + 1) y₂ :=
    ⟨before ++ [y₁], y₃ :: after, by simp [← heq], by simp [count_append, count, h₁]⟩
  have hat₃ : t.At (t.scan l) (t.count before + 2) y₃ :=
    ⟨before ++ [y₁, y₂], after, by simp [← heq], by simp [count_append, count, h₁, h₂]⟩
  obtain ⟨a, ha, hfree, hy₁⟩ := item_single (at_scan.mp hat₁) h₁
  obtain ⟨b, hb, -, hy₂⟩ := item_single (at_scan.mp hat₂) h₂
  obtain ⟨c, hc, -, hy₃⟩ := item_single (at_scan.mp hat₃) h₃
  refine ⟨a, b, c, hy₁, hy₂, hy₃, ?_⟩
  rw [Option.eq_none_iff_forall_ne_some]
  intro z hz
  exact hfree ⟨t.count before, z, ⟨a, b, c, ha, hb, hc, hz⟩, Nat.le_refl _, by omega⟩

end Triples
