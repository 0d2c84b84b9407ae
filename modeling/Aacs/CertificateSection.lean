import Aacs.ContentAuthoring

/-!
# What a certificate section keeps of its bytes

The parser reads the section its count declares and nothing behind it. It accepts
every byte string that is long enough, so that a byte behind the section is
accepted too and is not written back.
-/

open Outcome

namespace BdFormatSpecificSection

/-- `Num_of_CPS_Unit`, the two bytes at offset 40. -/
def declaredUnits (bytes : List UInt8) : Nat := beNat ((bytes.drop 40).take 2)

theorem declaredUnits_of_read {bytes : List UInt8} {num : UInt16}
    (h : (indexU16 bytes 40 : Result UInt16) = .ok num) :
    declaredUnits bytes = num.toNat := by
  rw [declaredUnits, indexU16_eq_ok.mp h, beNat_u16ToBe]

/-- What is read is the declared section, byte for byte. -/
theorem toBytes_of_parse {bytes : List UInt8} {s : BdFormatSpecificSection}
    (h : parse bytes = .ok s) :
    42 + 20 * declaredUnits bytes ≤ bytes.length ∧ s.toBytes = bytes.take
      (42 + 20 * declaredUnits bytes) := by
  simp only [parse, bind_eq_ok, refuseIf_eq_ok, exists_const] at h
  obtain ⟨hlen, mc, hmc, bdj, hbdj, num, hnum, hrequired, usage, husage, hs⟩ := h
  obtain rfl := ok.inj hs
  have hcount := declaredUnits_of_read hnum
  have hfits : 42 + num.toNat * 20 ≤ bytes.length := by omega
  obtain ⟨-, hmc⟩ := readArray_eq_ok.mp hmc
  obtain ⟨-, hbdj⟩ := readArray_eq_ok.mp hbdj
  obtain ⟨hunits, husage⟩ := (readArrays_eq_ok hfits).mp husage
  constructor
  · omega
  · have hword : UInt16.ofNat usage.length = num := by rw [hunits, UInt16.ofNat_toNat]
    rw [toBytes, hmc, hbdj, hword, ← indexU16_eq_ok.mp hnum, ← husage, hcount, List.append_assoc,
      List.append_assoc, Nat.mul_comm 20, show 42 + num.toNat * 20 =
        20 + (20 + (2 + num.toNat * 20)) by omega,
      List.take_add,
      List.take_add (i := 20) (l := bytes.drop 20), List.take_add (i := 2), List.drop_drop,
        List.drop_drop,
      List.drop_zero]

theorem exists_readArrays {n count : Nat} {bytes : List UInt8} {off : Nat}
    (h : off + count * n ≤ bytes.length) :
    ∃ as, (readArrays n count bytes off : Result (List (Bytes n))) = .ok as := by
  induction count generalizing off with
  | zero => exact ⟨[], rfl⟩
  | succ count ih =>
    rw [Nat.succ_mul] at h
    have hrest : off + n + count * n ≤ bytes.length := by omega
    obtain ⟨as, has⟩ := ih hrest
    exact ⟨_, by rw [readArrays, readArray_of_le (by omega), bind_ok, has, bind_ok]; rfl⟩

/-- Nothing but the length decides. -/
theorem exists_parse_iff (bytes : List UInt8) :
    (∃ s, parse bytes = .ok s) ↔ 42 ≤ bytes.length ∧ 42 + 20 * declaredUnits bytes ≤
      bytes.length := by
  constructor
  · rintro ⟨s, h⟩
    have hfits := (toBytes_of_parse h).1
    omega
  · rintro ⟨hlen, hfits⟩
    obtain ⟨num, hnum⟩ : ∃ num, (indexU16 bytes 40 : Result UInt16) = .ok num :=
      ⟨u16FromBe (bytes.get ⟨40, by omega⟩) (bytes.get ⟨41, by omega⟩),
        by rw [indexU16, index_of_lt, bind_ok, index_of_lt, bind_ok, pure_eq]⟩
    rw [declaredUnits_of_read hnum] at hfits
    obtain ⟨usage, husage⟩ := @exists_readArrays 20 num.toNat bytes 42 (by omega)
    rw [parse, refuseIf_neg (by omega), bind_ok, readArray_of_le (by omega), bind_ok,
      readArray_of_le (by omega), bind_ok, hnum, bind_ok]
    dsimp only
    rw [refuseIf_neg (by omega), bind_ok, husage]
    exact ⟨_, rfl⟩

/-- What the parser promises: it accepts the buffers of the declared length, and gives them back. -/
def Exact (bytes : List UInt8) : Prop :=
  ((∃ s, parse bytes = .ok s) ↔ 42 ≤ bytes.length ∧ bytes.length = 42 + 20 * declaredUnits bytes) ∧
    ∀ s, parse bytes = .ok s → s.toBytes = bytes

/-- The promise is kept exactly where no byte follows the declared section. -/
theorem exact_iff (bytes : List UInt8) :
    Exact bytes ↔ bytes.length ≤ 42 + 20 * declaredUnits bytes := by
  rw [Exact, exists_parse_iff]
  constructor
  · rintro ⟨hiff, -⟩
    by_contra hlong
    have hlen := hiff.mp (by omega)
    omega
  · intro hshort
    constructor
    · omega
    · intro s h
      obtain ⟨hfits, hbytes⟩ := toBytes_of_parse h
      rw [hbytes, List.take_of_length_le hshort]

/-- An empty section with one byte behind it. -/
def trailingByte : List UInt8 := List.replicate 43 0

theorem trailingByte_not_exact : ¬Exact trailingByte := by
  have hunits : declaredUnits trailingByte = 0 := rfl
  have hlength : trailingByte.length = 43 := rfl
  rintro ⟨hiff, -⟩
  have hlen := (hiff.mp ((exists_parse_iff trailingByte).mpr (by omega))).2
  omega

end BdFormatSpecificSection
