import Aacs.SectorExtents

/-!
# The rules on sector extents

The validation walks the list once and compares neighbours only. What it decides
is a law of the whole list: every extent on its own, and every pair in order.
-/
namespace Mmc

/-- The first LBA after the extent, in the integers. -/
def BusEncryptionSectorExtent.stop (extent : BusEncryptionSectorExtent) : Nat :=
  extent.startLba.toNat + extent.lbaCount.toNat

/-- No extent is empty, and each ends at or before the start of every later one. -/
structure ExtentsDisjoint (extents : List BusEncryptionSectorExtent) : Prop where
  nonzero : ∀ e ∈ extents, e.lbaCount ≠ 0
  ordered : extents.Pairwise fun a b => a.stop ≤ b.startLba.toNat

/-- Moreover no extent ends after the media. -/
structure ExtentsValid (capacity : Nat) (extents : List BusEncryptionSectorExtent) : Prop
    extends ExtentsDisjoint extents where
  within : ∀ e ∈ extents, e.stop ≤ capacity

theorem extentsValid_iff {capacity : Nat} {extents : List BusEncryptionSectorExtent} :
    ExtentsValid capacity extents ↔ ExtentsDisjoint extents ∧ ∀ e ∈ extents, e.stop ≤ capacity := by
  constructor
  · intro h
    exact ⟨h.toExtentsDisjoint, h.within⟩
  · intro h
    exact ⟨h.1, h.2⟩

theorem extentsValid_nil (capacity : Nat) : ExtentsValid capacity [] where
  nonzero := by simp
  ordered := .nil
  within := by simp

/-- What the loop asks of one extent when the one before it ended at `floor`. -/
def BusEncryptionSectorExtent.Admitted (capacity floor : Nat)
    (extent : BusEncryptionSectorExtent) : Prop :=
  extent.lbaCount ≠ 0 ∧ extent.stop ≤ capacity ∧ floor ≤ extent.startLba.toNat

theorem BusEncryptionSectorExtent.startLba_le_stop (extent : BusEncryptionSectorExtent) :
    extent.startLba.toNat ≤ extent.stop :=
  Nat.le_add_right _ _

/-- A valid list whose extents all start at or after `floor`. -/
def ExtentsFrom (capacity floor : Nat) (extents : List BusEncryptionSectorExtent) : Prop :=
  ExtentsValid capacity extents ∧ ∀ e ∈ extents, floor ≤ e.startLba.toNat

theorem extentsFrom_nil (capacity floor : Nat) : ExtentsFrom capacity floor [] :=
  ⟨extentsValid_nil capacity, by simp⟩

theorem extentsFrom_zero {capacity : Nat} {extents : List BusEncryptionSectorExtent} :
    ExtentsFrom capacity 0 extents ↔ ExtentsValid capacity extents :=
  and_iff_left fun _ _ => Nat.zero_le _

/-- The law of the whole list, one extent at a time: what follows starts where the first ends. -/
theorem extentsFrom_cons {capacity floor : Nat} {e : BusEncryptionSectorExtent}
    {es : List BusEncryptionSectorExtent} :
    ExtentsFrom capacity floor (e :: es) ↔ e.Admitted capacity floor ∧
      ExtentsFrom capacity e.stop es := by
  constructor
  · rintro ⟨⟨⟨hnonzero, hordered⟩, hwithin⟩, hfloor⟩
    rw [List.forall_mem_cons] at hnonzero hwithin hfloor
    rw [List.pairwise_cons] at hordered
    exact ⟨⟨hnonzero.1, hwithin.1, hfloor.1⟩, ⟨⟨hnonzero.2, hordered.2⟩, hwithin.2⟩, hordered.1⟩
  · rintro ⟨⟨hcount, hstop, hstart⟩, ⟨⟨hnonzero, hordered⟩, hwithin⟩, hafter⟩
    have hfloor : ∀ b ∈ es, floor ≤ b.startLba.toNat := by
      intro b hb
      exact hstart.trans (e.startLba_le_stop.trans (hafter b hb))
    refine ⟨⟨⟨?_, ?_⟩, ?_⟩, ?_⟩
    · exact List.forall_mem_cons.mpr ⟨hcount, hnonzero⟩
    · exact List.pairwise_cons.mpr ⟨hafter, hordered⟩
    · exact List.forall_mem_cons.mpr ⟨hstop, hwithin⟩
    · exact List.forall_mem_cons.mpr ⟨hstart, hfloor⟩

section Loop

variable {capacity prevStart : Nat} {prevEnd : Option Nat} {e : BusEncryptionSectorExtent}
  {es : List BusEncryptionSectorExtent}

theorem validateLoop_none_cons : validateLoop capacity none prevStart (e :: es) = (do
    Outcome.refuseIf (e.lbaCount = 0)
      (.invalidValue "SEND_DISC_STRUCTURE Format 0x85 LBA Count is zero" e.startLba.toNat)
    Outcome.refuseIf (e.stop > capacity)
      (.invalidValue "SEND_DISC_STRUCTURE Format 0x85 extent beyond media capacity"
        e.startLba.toNat)
    validateLoop capacity (some e.stop) e.startLba.toNat es) := rfl

theorem validateLoop_some_cons {p : Nat} : validateLoop capacity (some p) prevStart (e :: es) = (do
    Outcome.refuseIf (e.lbaCount = 0)
      (.invalidValue "SEND_DISC_STRUCTURE Format 0x85 LBA Count is zero" e.startLba.toNat)
    Outcome.refuseIf (e.stop > capacity)
      (.invalidValue "SEND_DISC_STRUCTURE Format 0x85 extent beyond media capacity"
        e.startLba.toNat)
    Outcome.refuseIf (e.startLba.toNat < prevStart)
      (.invalidValue "SEND_DISC_STRUCTURE Format 0x85 extents not sorted by Start LBA"
        e.startLba.toNat)
    Outcome.refuseIf (e.startLba.toNat < p)
      (.invalidValue "SEND_DISC_STRUCTURE Format 0x85 extents overlap" e.startLba.toNat)
    validateLoop capacity (some e.stop) e.startLba.toNat es) := rfl

theorem validateLoop_admitted (h : e.Admitted capacity (prevEnd.getD 0))
    (hprev : prevStart ≤ prevEnd.getD 0) :
    validateLoop capacity prevEnd prevStart (e :: es) =
      validateLoop capacity (some e.stop) e.startLba.toNat es := by
  obtain ⟨hcount, hstop, hstart⟩ := h
  cases prevEnd with
  | none =>
    rw [validateLoop_none_cons]
    rw [Outcome.refuseIf_neg hcount, Outcome.bind_ok]
    rw [Outcome.refuseIf_neg (not_lt.mpr hstop), Outcome.bind_ok]
  | some p =>
    rw [Option.getD_some] at hstart hprev
    rw [validateLoop_some_cons]
    rw [Outcome.refuseIf_neg hcount, Outcome.bind_ok]
    rw [Outcome.refuseIf_neg (not_lt.mpr hstop), Outcome.bind_ok]
    rw [Outcome.refuseIf_neg (not_lt.mpr (hprev.trans hstart)), Outcome.bind_ok]
    rw [Outcome.refuseIf_neg (not_lt.mpr hstart), Outcome.bind_ok]

/-- A check that fails, or one after it. -/
theorem invalid_refuseIf {c : Prop} [Decidable c] {s : String} {n : Nat} {x : Result Unit}
    (h : ¬c → ∃ what, x = .err (.invalidValue what n)) :
    ∃ what, (do Outcome.refuseIf c (AacsError.invalidValue s n); x) = .err
      (.invalidValue what n) := by
  by_cases hc : c
  · exact ⟨s, by rw [Outcome.refuseIf_pos hc, Outcome.bind_err]⟩
  · rw [Outcome.refuseIf_neg hc, Outcome.bind_ok]
    exact h hc

theorem validateLoop_refused (h : ¬e.Admitted capacity (prevEnd.getD 0)) :
    ∃ what, validateLoop capacity prevEnd prevStart (e :: es) =
      .err (.invalidValue what e.startLba.toNat) := by
  cases prevEnd with
  | none =>
    rw [validateLoop_none_cons]
    apply invalid_refuseIf
    intro hcount
    apply invalid_refuseIf
    intro hstop
    exact absurd ⟨hcount, not_lt.mp hstop, Nat.zero_le _⟩ h
  | some p =>
    rw [validateLoop_some_cons]
    apply invalid_refuseIf
    intro hcount
    apply invalid_refuseIf
    intro hstop
    apply invalid_refuseIf
    intro _
    apply invalid_refuseIf
    intro hstart
    exact absurd ⟨hcount, not_lt.mp hstop, not_lt.mp hstart⟩ h

theorem validateLoop_of_extentsFrom (hes : ExtentsFrom capacity (prevEnd.getD 0) es)
    (hprev : prevStart ≤ prevEnd.getD 0) : validateLoop capacity prevEnd prevStart es = .ok () := by
  induction es generalizing prevEnd prevStart with
  | nil => rfl
  | cons e es ih =>
    obtain ⟨he, hrest⟩ := extentsFrom_cons.mp hes
    rw [validateLoop_admitted he hprev]
    exact ih hrest e.startLba_le_stop

/-- A list that breaks the law is refused at the extent with which it first does. -/
theorem validateLoop_of_not_extentsFrom (hes : ¬ExtentsFrom capacity (prevEnd.getD 0) es)
    (hprev : prevStart ≤ prevEnd.getD 0) :
    ∃ k e what, es[k]? = some e ∧ ExtentsFrom capacity (prevEnd.getD 0) (es.take k) ∧
      ¬ExtentsFrom capacity (prevEnd.getD 0) (es.take (k + 1)) ∧
      validateLoop capacity prevEnd prevStart es = .err (.invalidValue what e.startLba.toNat) := by
  induction es generalizing prevEnd prevStart with
  | nil => exact absurd (extentsFrom_nil _ _) hes
  | cons e es ih =>
    by_cases he : e.Admitted capacity (prevEnd.getD 0)
    · have hrest : ¬ExtentsFrom capacity e.stop es := by
        intro hrest
        exact hes (extentsFrom_cons.mpr ⟨he, hrest⟩)
      obtain ⟨k, b, what, hb, hgood, hbad, herr⟩ :=
        @ih e.startLba.toNat (some e.stop) hrest e.startLba_le_stop
      refine ⟨k + 1, b, what, hb, ?_, ?_, ?_⟩
      · exact extentsFrom_cons.mpr ⟨he, hgood⟩
      · intro h
        exact hbad (extentsFrom_cons.mp h).2
      · rw [validateLoop_admitted he hprev, herr]
    · have hrefused : ∃ what, validateLoop capacity prevEnd prevStart (e :: es) =
          .err (.invalidValue what e.startLba.toNat) := validateLoop_refused he
      obtain ⟨what, hwhat⟩ := hrefused
      refine ⟨0, e, what, rfl, extentsFrom_nil _ _, ?_, hwhat⟩
      intro h
      exact he (extentsFrom_cons.mp h).1

end Loop

section Validate

variable {extents : List BusEncryptionSectorExtent} {capacity : UInt32}

theorem validate_of_extentsValid (h : ExtentsValid capacity.toNat extents) :
    validateBusEncryptionSectorExtents extents capacity = .ok () := by
  have hfrom : ExtentsFrom capacity.toNat ((none : Option Nat).getD 0) extents :=
    extentsFrom_zero.mpr h
  exact validateLoop_of_extentsFrom hfrom le_rfl

theorem validate_of_not_extentsValid (h : ¬ExtentsValid capacity.toNat extents) :
    ∃ k e what, extents[k]? = some e ∧ ExtentsValid capacity.toNat (extents.take k) ∧
      ¬ExtentsValid capacity.toNat (extents.take (k + 1)) ∧
      validateBusEncryptionSectorExtents extents capacity =
        .err (.invalidValue what e.startLba.toNat) := by
  have hfrom : ¬ExtentsFrom capacity.toNat ((none : Option Nat).getD 0) extents :=
    mt extentsFrom_zero.mp h
  obtain ⟨k, e, what, he, hgood, hbad, herr⟩ := validateLoop_of_not_extentsFrom hfrom le_rfl
  exact ⟨k, e, what, he, extentsFrom_zero.mp hgood, mt extentsFrom_zero.mpr hbad, herr⟩

theorem validate_eq_ok_iff :
    validateBusEncryptionSectorExtents extents capacity = .ok
      () ↔ ExtentsValid capacity.toNat extents := by
  constructor
  · intro hok
    by_contra h
    obtain ⟨k, e, what, -, -, -, herr⟩ := validate_of_not_extentsValid h
    rw [hok] at herr
    cases herr
  · exact validate_of_extentsValid

end Validate

/-- One pass over the neighbours decides the law of the whole list, and a refusal
names the Start LBA of the extent with which a prefix of the list first breaks it. -/
theorem validateBusEncryptionSectorExtents_exact (extents : List BusEncryptionSectorExtent)
    (capacity : UInt32) :
    (validateBusEncryptionSectorExtents extents capacity = .ok () ↔
        ExtentsValid capacity.toNat extents) ∧
      (validateBusEncryptionSectorExtents extents capacity ≠ .ok () →
        ∃ k e what, extents[k]? = some e ∧ ExtentsValid capacity.toNat (extents.take k) ∧
          ¬ExtentsValid capacity.toNat (extents.take (k + 1)) ∧
          validateBusEncryptionSectorExtents extents capacity =
            .err (.invalidValue what e.startLba.toNat)) := by
  constructor
  · exact validate_eq_ok_iff
  · intro hok
    exact validate_of_not_extentsValid (mt validate_eq_ok_iff.mpr hok)

/-- Two sorted extents that share an LBA. -/
def sharedLba : List BusEncryptionSectorExtent := [⟨10, 5⟩, ⟨14, 2⟩]

theorem validateBusEncryptionSectorExtents_exact_sharedLba :
    ∃ k e what, sharedLba[k]? = some e ∧ ExtentsValid (100 : UInt32).toNat (sharedLba.take k) ∧
      ¬ExtentsValid (100 : UInt32).toNat (sharedLba.take (k + 1)) ∧
      validateBusEncryptionSectorExtents sharedLba 100 = .err
        (.invalidValue what e.startLba.toNat) :=
  (validateBusEncryptionSectorExtents_exact sharedLba 100).2 (by decide)

/-- `u32::MAX` is a capacity like any other: it still bounds where an extent may end. -/
theorem validateBusEncryptionSectorExtents_max_iff (extents : List BusEncryptionSectorExtent) :
    (validateBusEncryptionSectorExtents extents 0xFFFFFFFF = .ok () ↔ ExtentsDisjoint extents) ↔
      ¬ExtentsDisjoint extents ∨ ∀ e ∈ extents, e.stop ≤ 0xFFFFFFFF := by
  rw [validate_eq_ok_iff, extentsValid_iff]
  have hmax : (0xFFFFFFFF : UInt32).toNat = 0xFFFFFFFF := rfl
  rw [hmax]
  by_cases h : ExtentsDisjoint extents
  · simp only [h, true_and, iff_true, not_true_eq_false, false_or]
  · simp only [h, false_and, not_false_eq_true, true_or]

/-- The last LBA of the address space on its own is refused under the sentinel. -/
theorem validateBusEncryptionSectorExtents_max_refuses :
    ExtentsDisjoint [⟨0xFFFFFFFF, 1⟩] ∧
      validateBusEncryptionSectorExtents [⟨0xFFFFFFFF, 1⟩] 0xFFFFFFFF =
        .err (.invalidValue "SEND_DISC_STRUCTURE Format 0x85 extent beyond media capacity"
          0xFFFFFFFF) := by
  constructor
  · exact ⟨by decide, List.pairwise_singleton _ _⟩
  · decide

end Mmc
