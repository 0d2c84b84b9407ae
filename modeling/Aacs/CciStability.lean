import Aacs.CciRoundTrip

/-!
# Dates that are not decimal

The decoder of a title date does not test its nibbles, so that two of them may come to
165 and four to 16665. Written again, such a number keeps what two nibbles, or four
decimal digits, can hold of it.
-/

open Outcome

namespace TitleDate

/-- The seven bytes of a date whose year has four digits and whose other numbers stay below
160, where two nibbles end. -/
def Stable : List UInt8 → Prop
  | y₀ :: y₁ :: month :: day :: hour :: minute :: _ =>
    1000 * (y₀.toNat / 16) + 100 * (y₀.toNat % 16) + 10 * (y₁.toNat / 16) + y₁.toNat % 16 ≤ 9999 ∧
      month < 0xFA ∧ day < 0xFA ∧ hour < 0xFA ∧ minute < 0xFA
  | _ => False

/-- Two nibbles below FA are read back from their digits. -/
theorem bcd2_stable (b : UInt8) : bcd2 (toBcd2 (bcd2 b)) = bcd2 b ↔ b < 0xFA :=
  byte_cases (p := fun b => bcd2 (toBcd2 (bcd2 b)) = bcd2 b ↔ b < 0xFA) (by decide +kernel) b

theorem nib_toNat (b : UInt8) :
    (nib b true).toNat = b.toNat / 16 ∧ (nib b false).toNat = b.toNat % 16 :=
  byte_cases (p := fun b => (nib b true).toNat = b.toNat / 16 ∧ (nib b false).toNat = b.toNat % 16)
    (by decide +kernel) b

/-- The year of four nibbles. -/
def yearOf (y₀ y₁ : UInt8) : UInt16 :=
  (nib y₀ true).toUInt16 * 1000 + (nib y₀ false).toUInt16 * 100 + (nib y₁ true).toUInt16 * 10 +
    (nib y₁ false).toUInt16

theorem yearOf_toNat (y₀ y₁ : UInt8) : (yearOf y₀ y₁).toNat =
    1000 * (y₀.toNat / 16) + 100 * (y₀.toNat % 16) + 10 * (y₁.toNat / 16) + y₁.toNat % 16 := by
  have h₀ := y₀.toNat_lt
  have h₁ := y₁.toNat_lt
  obtain ⟨hhi₀, hlo₀⟩ := nib_toNat y₀
  obtain ⟨hhi₁, hlo₁⟩ := nib_toNat y₁
  simp only [yearOf, UInt16.toNat_add, UInt16.toNat_mul, UInt8.toNat_toUInt16, hhi₀,
    hlo₀, hhi₁, hlo₁, UInt16.reduceToNat]
  omega

/-- A date that was read is written as it is exactly when its bytes are stable. -/
theorem written_eq_iff {seven : List UInt8} {d : TitleDate} (h : parse seven = .ok d) :
    d.written = d ↔ Stable seven := by
  rcases seven
    with _ | ⟨y₀, _ | ⟨y₁, _ | ⟨month, _ | ⟨day, _ | ⟨hour, _ | ⟨minute, _ | ⟨zone, rest⟩⟩⟩⟩⟩⟩⟩
  · cases h
  · cases h
  · cases h
  · cases h
  · cases h
  · cases h
  · cases h
  · have hd : d = ⟨yearOf y₀ y₁, bcd2 month, bcd2 day, bcd2 hour, bcd2 minute, zone⟩ :=
      (ok.inj h).symm
    have hyear : yearOf y₀ y₁ % 10000 = yearOf y₀ y₁ ↔ (yearOf y₀ y₁).toNat ≤ 9999 := by
      have hmod : (yearOf y₀ y₁ % 10000).toNat = (yearOf y₀ y₁).toNat % 10000 :=
        UInt16.toNat_mod _ _
      rw [← UInt16.toNat_inj, hmod]
      omega
    subst hd
    simp only [written, TitleDate.mk.injEq, hyear, yearOf_toNat, bcd2_stable, and_true]
    rfl

end TitleDate

namespace EnhancedTitleUsage

/-- No date stands for the undefined one. -/
theorem getD_defined (d : TitleDate) : (defined d).getD TitleDate.default = d := by
  rw [defined]
  by_cases h : d.isUndefined = true
  · rw [if_pos h]
    exact (of_decide_eq_true h).symm
  · rw [if_neg h]
    rfl

theorem defined_inj {d d' : TitleDate} : defined d = defined d' ↔ d = d' := by
  constructor
  · intro h
    rw [← getD_defined d, h, getD_defined]
  · intro h
    rw [h]

/-- A payload is decoded as the value written from it exactly when both of its dates are
stable. -/
theorem parseData_toBlock_iff (data : List UInt8) (e : EnhancedTitleUsage)
    (h : parseData data = .ok e) :
    parseData e.toBlock.data = .ok e ↔
      TitleDate.Stable ((data.drop 5).take 7) ∧ TitleDate.Stable ((data.drop 12).take 7) := by
  obtain ⟨_, -, h⟩ := bind_eq_ok.mp h
  obtain ⟨titleId, -, h⟩ := bind_eq_ok.mp h
  obtain ⟨d₂, -, h⟩ := bind_eq_ok.mp h
  obtain ⟨period, -, h⟩ := bind_eq_ok.mp h
  obtain ⟨afterBytes, hafterBytes, h⟩ := bind_eq_ok.mp h
  obtain ⟨after, hafter, h⟩ := bind_eq_ok.mp h
  obtain ⟨beforeBytes, hbeforeBytes, h⟩ := bind_eq_ok.mp h
  obtain ⟨before, hbefore, h⟩ := bind_eq_ok.mp h
  obtain rfl := ok.inj h
  obtain ⟨-, -, rfl⟩ := slice_eq_ok.mp hafterBytes
  obtain ⟨-, -, rfl⟩ := slice_eq_ok.mp hbeforeBytes
  rw [parseData_toBlock_eq, ok.injEq, EnhancedTitleUsage.mk.injEq, getD_defined, getD_defined,
    defined_inj, defined_inj, TitleDate.written_eq_iff hafter, TitleDate.written_eq_iff hbefore]
  simp only [true_and]

/-- A title with a window of one day. -/
def oneDay : List UInt8 :=
  [0, 1, 0, 0, 24, 0x20, 0x26, 0x01, 0x31, 0x12, 0x00, 0, 0x20, 0x26, 0x02, 0x01, 0x12, 0x00, 0] ++
    List.replicate 13 0

def oneDayUsage : EnhancedTitleUsage :=
  ⟨1, .cacheable, 24, some ⟨2026, 1, 31, 12, 0, 0⟩, some ⟨2026, 2, 1, 12, 0, 0⟩⟩

theorem parseData_toBlock_iff_oneDay : parseData oneDayUsage.toBlock.data = .ok oneDayUsage ↔
    TitleDate.Stable ((oneDay.drop 5).take 7) ∧ TitleDate.Stable ((oneDay.drop 12).take 7) :=
  parseData_toBlock_iff oneDay oneDayUsage rfl

/-- A title whose month is written FA. -/
def month160 : List UInt8 := List.replicate 7 0 ++ [0xFA] ++ List.replicate 24 0

/-- It is read as 160 and written as 0, and with it the date is gone. -/
theorem month160_not_stable :
    ∃ e, parseData month160 = .ok e ∧ parseData e.toBlock.data ≠ .ok e := by
  refine ⟨⟨0, .cacheable, 0, some ⟨0, 160, 0, 0, 0, 0⟩, none⟩, rfl, ?_⟩
  decide

end EnhancedTitleUsage
