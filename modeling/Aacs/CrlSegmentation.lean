import Aacs.CrlWire
import Aacs.Triples

/-!
# Which records a revocation list holds

A record set is a row of eight-byte slots, and the parser joins three of them where
they stand together. What it finds at a slot depends on the row alone, so that a
query can be answered from the bytes of the list.
-/
namespace Crl

/-- The eight-byte slots of a record set. -/
def slots : List UInt8 → List (Bytes 8)
  | b₀ :: b₁ :: b₂ :: b₃ :: b₄ :: b₅ :: b₆ :: b₇ :: rest =>
    ⟨[b₀, b₁, b₂, b₃, b₄, b₅, b₆, b₇], rfl⟩ :: slots rest
  | _ => []

theorem slots_append (a : Bytes 8) (rest : List UInt8) :
    slots (a.toList ++ rest) = a :: slots rest := by
  obtain ⟨b₀, b₁, b₂, b₃, b₄, b₅, b₆, b₇, rfl⟩ := exists_eight a
  rfl

/-- A whole number of slots is nothing but its slots. -/
theorem flatMap_slots {bytes : List UInt8} (h : bytes.length % 8 = 0) :
    (slots bytes).flatMap Bytes.toList = bytes := by
  induction hn : bytes.length using Nat.strong_induction_on generalizing bytes with
  | _ n ih =>
    by_cases hnil : bytes = []
    · subst hnil
      rfl
    · have hlen : 8 ≤ bytes.length := by
        have := List.length_pos_iff.mpr hnil
        omega
      let a : Bytes 8 := ⟨bytes.take 8, List.length_take_of_le hlen⟩
      have hsplit : a.toList ++ bytes.drop 8 = bytes := List.take_append_drop 8 bytes
      have hdrop : (bytes.drop 8).length = bytes.length - 8 := List.length_drop
      have hrest := ih (bytes.drop 8).length (by omega) (by omega) rfl
      conv_rhs => rw [← hsplit]
      conv_lhs => rw [← hsplit]
      rw [slots_append, List.flatMap_cons, hrest]

theorem length_slots {bytes : List UInt8} (h : bytes.length % 8 = 0) :
    (slots bytes).length = bytes.length / 8 := by
  have hlength : ∀ as : List (Bytes 8), (as.flatMap Bytes.toList).length = 8 * as.length := by
    intro as
    induction as with
    | nil => rfl
    | cons a as ih =>
      rw [List.flatMap_cons, List.length_append, ih, Bytes.length_toList, List.length_cons]
      omega
  have hbytes := hlength (slots bytes)
  rw [flatMap_slots h] at hbytes
  omega

/-- The four high bits of the first byte. -/
def slotType (slot : Bytes 8) : UInt8 := recordType (slot.toList.headD 0)

theorem slotType_eq (slot : Bytes 8) : slotType slot = recordType (slot.get 0) := by
  obtain ⟨b₀, b₁, b₂, b₃, b₄, b₅, b₆, b₇, rfl⟩ := exists_eight slot
  rfl

/-- What one slot is by itself. -/
def singleRecord (slot : Bytes 8) : RevocationRecord :=
  if slotType slot = recordTypeContentCertificateId then
    .contentCertificateId (decodeRangeAndId slot).1 ⟨(decodeRangeAndId slot).2⟩
  else if slotType slot = recordTypeManagedCopyServerId then
    .managedCopyServerCertificateId (decodeRangeAndId slot).1 ⟨(decodeRangeAndId slot).2⟩
  else .unknown (slotType slot) slot

/-- The three slots are parts 1, 2 and 3 of a media record. -/
def IsRmrr (a b c : Bytes 8) : Prop :=
  slotType a = recordTypeRmrrPart1 ∧ slotType b = recordTypeRmrrPart2 ∧
    slotType c = recordTypeRmrrPart3

instance (a b c : Bytes 8) : Decidable (IsRmrr a b c) := inferInstanceAs (Decidable (_ ∧ _ ∧ _))

/-- How many slots an item is written in. -/
def slotCount : RevocationRecord → Nat
  | .recordableMedia _ => 3
  | _ => 1

/-- A slot by itself is a range of its type, or it is kept as it is. -/
theorem singleRecord_cases (slot : Bytes 8) :
    (slotType slot = recordTypeContentCertificateId ∧
      singleRecord slot = .contentCertificateId (decodeRangeAndId slot).1
        ⟨(decodeRangeAndId slot).2⟩) ∨
    (slotType slot = recordTypeManagedCopyServerId ∧
      singleRecord slot = .managedCopyServerCertificateId
        (decodeRangeAndId slot).1 ⟨(decodeRangeAndId slot).2⟩) ∨
    (slotType slot ≠ recordTypeContentCertificateId ∧
      slotType slot ≠ recordTypeManagedCopyServerId ∧
      singleRecord slot = .unknown (slotType slot) slot) := by
  rw [singleRecord]
  by_cases h₀ : slotType slot = recordTypeContentCertificateId
  · exact .inl ⟨h₀, if_pos h₀⟩
  rw [if_neg h₀]
  by_cases h₁ : slotType slot = recordTypeManagedCopyServerId
  · exact .inr (.inl ⟨h₁, if_pos h₁⟩)
  · exact .inr (.inr ⟨h₀, h₁, if_neg h₁⟩)

theorem slotCount_singleRecord (slot : Bytes 8) : slotCount (singleRecord slot) = 1 := by
  rcases singleRecord_cases slot with ⟨-, h⟩ | ⟨-, h⟩ | ⟨-, -, h⟩
  · rw [h]
    rfl
  · rw [h]
    rfl
  · rw [h]
    rfl

/-- Parts 2 and 3 do not begin a media record. -/
theorem IsRmrr.apart {a b c : Bytes 8} (h : IsRmrr a b c) (d e : Bytes 8) :
    ¬IsRmrr b d e ∧ ¬IsRmrr c d e := by
  constructor
  · intro hb
    exact absurd (h.2.1.symm.trans hb.1) (by decide)
  · intro hc
    exact absurd (h.2.2.symm.trans hc.1) (by decide)

def joinRmrr (a b c : Bytes 8) : Option RevocationRecord :=
  if IsRmrr a b c then some (.recordableMedia (decodeRmrr a b c)) else none

theorem joinRmrr_eq_some {a b c : Bytes 8} {r : RevocationRecord} :
    joinRmrr a b c = some r ↔ IsRmrr a b c ∧ r = .recordableMedia (decodeRmrr a b c) := by
  rw [joinRmrr]
  by_cases h : IsRmrr a b c
  · rw [if_pos h, Option.some.injEq, and_iff_right h, eq_comm]
  · rw [if_neg h]
    exact iff_of_false (fun hr => by cases hr) (fun hr => h hr.1)

theorem slotCount_joinRmrr {a b c : Bytes 8} {r : RevocationRecord} (h : joinRmrr a b c = some r) :
    slotCount r = 3 := by
  rw [(joinRmrr_eq_some.mp h).2, slotCount]

theorem joinRmrr_apart {a b c : Bytes 8} {r : RevocationRecord} (h : joinRmrr a b c = some r)
    (d e : Bytes 8) :
    joinRmrr b d e = none ∧ joinRmrr c d e = none := by
  have hapart := (joinRmrr_eq_some.mp h).1.apart d e
  exact ⟨if_neg hapart.1, if_neg hapart.2⟩

/-- The scan of the record loop. -/
def rmrrTriples : Triples (Bytes 8) RevocationRecord where
  join := joinRmrr
  single := singleRecord
  width := slotCount
  width_join := slotCount_joinRmrr
  width_single := slotCount_singleRecord
  apart := joinRmrr_apart

theorem readArray_slot {bytes tail : List UInt8} {off : Nat} {a : Bytes 8}
    (h : bytes.drop off = a.toList ++ tail) :
    (Outcome.readArray 8 bytes off : Result (Bytes 8)) = .ok a := by
  have hlen := congrArg List.length h
  rw [List.length_drop, List.length_append, a.length_toList] at hlen
  rw [Outcome.readArray_eq_ok, h, List.take_left' a.length_toList]
  exact ⟨by omega, rfl⟩

theorem drop_slot (a : Bytes 8) (tail : List UInt8) (n : Nat) :
    (a.toList ++ tail).drop (8 + n) = tail.drop n := by
  rw [← List.drop_drop, List.drop_left' a.length_toList]

theorem length_slot_ne_zero (a : Bytes 8) (tail : List UInt8) : (a.toList ++ tail).length ≠ 0 := by
  rw [List.length_append, a.length_toList]
  omega

/-- The second and the third slot are where the loop looks for them. -/
theorem partIs_slot (a b c : Bytes 8) (tail : List UInt8) (type : UInt8) :
    partIs true (a.toList ++ (b.toList ++ (c.toList ++ tail))) 8 type = .ok
      (decide (slotType b = type)) ∧
      partIs true (a.toList ++ (b.toList ++ (c.toList ++ tail))) 16 type =
        .ok (decide (slotType c = type)) := by
  obtain ⟨a₀, a₁, a₂, a₃, a₄, a₅, a₆, a₇, rfl⟩ := exists_eight a
  obtain ⟨b₀, b₁, b₂, b₃, b₄, b₅, b₆, b₇, rfl⟩ := exists_eight b
  obtain ⟨c₀, c₁, c₂, c₃, c₄, c₅, c₆, c₇, rfl⟩ := exists_eight c
  exact ⟨rfl, rfl⟩

theorem three_slots (a b c : Bytes 8) (tail : List UInt8) :
    decide (3 * 8 ≤ (a.toList ++ (b.toList ++ (c.toList ++ tail))).length) = true := by
  rw [decide_eq_true_eq, List.length_append, List.length_append, List.length_append,
    a.length_toList, b.length_toList, c.length_toList]
  omega

/-- Three parts in a row are one item. -/
theorem recordLoop_rmrr {a b c : Bytes 8} (h : IsRmrr a b c) (tail : List UInt8) :
    recordLoop (a.toList ++ (b.toList ++ (c.toList ++ tail))) = (do
      let records ← recordLoop tail
      pure (.recordableMedia (decodeRmrr a b c) :: records)) := by
  obtain ⟨ha, hb, hc⟩ := h
  have hcert : recordTypeRmrrPart1 ≠ recordTypeContentCertificateId := by decide
  have hcopy : recordTypeRmrrPart1 ≠ recordTypeManagedCopyServerId := by decide
  obtain ⟨hpart2, -⟩ := partIs_slot a b c tail recordTypeRmrrPart2
  obtain ⟨-, hpart3⟩ := partIs_slot a b c tail recordTypeRmrrPart3
  have hsecond := drop_slot a (b.toList ++ (c.toList ++ tail)) 0
  have hthird : (a.toList ++ (b.toList ++ (c.toList ++ tail))).drop 16 = c.toList ++ tail := by
    rw [drop_slot a _ 8, drop_slot b _ 0, List.drop_zero]
  have hrest : (a.toList ++ (b.toList ++ (c.toList ++ tail))).drop 24 = tail := by
    rw [drop_slot a _ 16, drop_slot b _ 8, drop_slot c _ 0, List.drop_zero]
  rw [recordLoop, dif_neg (length_slot_ne_zero a _), readArray_slot List.drop_zero, Outcome.bind_ok]
  dsimp only
  rw [← slotType_eq, ha, if_neg hcert, if_neg hcopy, if_pos rfl, three_slots, hpart2, hpart3, hb,
    hc, Outcome.bind_ok, Outcome.bind_ok, if_pos (by decide), Outcome.bind_ok,
    readArray_slot hsecond, Outcome.bind_ok, readArray_slot hthird, Outcome.bind_ok, hrest]

/-- Where no media record begins, one of the tests for parts 2 and 3 fails. -/
theorem partIs_of_not_rmrr {a : Bytes 8} {rest : List (Bytes 8)}
    (ha : slotType a = recordTypeRmrrPart1)
    (h : ∀ b c tail, rest = b :: c :: tail → ¬IsRmrr a b c) :
    ∃ part2Ok part3Ok,
      partIs (decide (3 * 8 ≤ (a.toList ++ rest.flatMap Bytes.toList).length))
        (a.toList ++ rest.flatMap Bytes.toList) 8 recordTypeRmrrPart2 = .ok part2Ok ∧
      partIs (decide (3 * 8 ≤ (a.toList ++ rest.flatMap Bytes.toList).length))
        (a.toList ++ rest.flatMap Bytes.toList) 16 recordTypeRmrrPart3 = .ok part3Ok ∧
      (decide (3 * 8 ≤ (a.toList ++ rest.flatMap Bytes.toList).length) && part2Ok && part3Ok) =
        false := by
  rcases rest with _ | ⟨b, _ | ⟨c, rest⟩⟩
  · have hfew : ¬3 * 8 ≤ (a.toList ++ ([] : List (Bytes 8)).flatMap Bytes.toList).length := by simp
    rw [decide_eq_false hfew]
    exact ⟨false, false, rfl, rfl, rfl⟩
  · have hfew : ¬3 * 8 ≤ (a.toList ++ [b].flatMap Bytes.toList).length := by simp
    rw [decide_eq_false hfew]
    exact ⟨false, false, rfl, rfl, rfl⟩
  · obtain ⟨hpart2, -⟩ := partIs_slot a b c (rest.flatMap Bytes.toList) recordTypeRmrrPart2
    obtain ⟨-, hpart3⟩ := partIs_slot a b c (rest.flatMap Bytes.toList) recordTypeRmrrPart3
    rw [List.flatMap_cons, List.flatMap_cons, three_slots]
    refine ⟨_, _, hpart2, hpart3, ?_⟩
    rw [Bool.true_and, ← Bool.decide_and, decide_eq_false_iff_not]
    exact fun hparts => h b c rest rfl ⟨ha, hparts⟩

/-- A slot that begins no media record is an item by itself. -/
theorem recordLoop_single {a : Bytes 8} {rest : List (Bytes 8)}
    (h : ∀ b c tail, rest = b :: c :: tail → ¬IsRmrr a b c) :
    recordLoop (a.toList ++ rest.flatMap Bytes.toList) = (do
      let records ← recordLoop (rest.flatMap Bytes.toList)
      pure (singleRecord a :: records)) := by
  have hdrop : (a.toList ++ rest.flatMap Bytes.toList).drop 8 = rest.flatMap Bytes.toList :=
    drop_slot a _ 0
  rw [recordLoop, dif_neg (length_slot_ne_zero a _), readArray_slot List.drop_zero,
    Outcome.bind_ok, hdrop, singleRecord]
  dsimp only
  rw [← slotType_eq]
  by_cases h₀ : slotType a = recordTypeContentCertificateId
  · rw [if_pos h₀, if_pos h₀]
  rw [if_neg h₀, if_neg h₀]
  by_cases h₁ : slotType a = recordTypeManagedCopyServerId
  · rw [if_pos h₁, if_pos h₁]
  rw [if_neg h₁, if_neg h₁]
  by_cases h₂ : slotType a = recordTypeRmrrPart1
  · obtain ⟨part2Ok, part3Ok, hpart2, hpart3, hnot⟩ := partIs_of_not_rmrr h₂ h
    rw [if_pos h₂, hpart2, Outcome.bind_ok, hpart3, Outcome.bind_ok, hnot,
      if_neg Bool.false_ne_true]
  · rw [if_neg h₂]

/-- The record loop is the scan of the slots. -/
theorem recordLoop_slots (as : List (Bytes 8)) :
    recordLoop (as.flatMap Bytes.toList) = .ok (rmrrTriples.scan as) := by
  have hnil : recordLoop (([] : List (Bytes 8)).flatMap Bytes.toList) = .ok [] := by
    rw [List.flatMap_nil, recordLoop]
    rfl
  induction as using Triples.scan.induct rmrrTriples with
  | case1 => exact hnil
  | case2 a =>
    rw [List.flatMap_cons, recordLoop_single (fun b c tail hrest => by cases hrest), hnil]
    rfl
  | case3 a b =>
    rw [List.flatMap_cons, recordLoop_single (fun b c tail hrest => by cases hrest),
      List.flatMap_cons, recordLoop_single (fun b c tail hrest => by cases hrest), hnil]
    rfl
  | case4 a b c rest r hjoin ih =>
    obtain ⟨hparts, rfl⟩ := joinRmrr_eq_some.mp hjoin
    rw [List.flatMap_cons, List.flatMap_cons, List.flatMap_cons, recordLoop_rmrr hparts, ih,
      Outcome.bind_ok, Triples.scan, hjoin]
    rfl
  | case5 a b c rest hjoin ih =>
    have hsingle : ∀ b' c' tail, b :: c :: rest = b' :: c' :: tail → ¬IsRmrr a b' c' := by
      intro b' c' tail hrest hparts
      obtain ⟨hb, htail⟩ := List.cons.inj hrest
      obtain ⟨hc, -⟩ := List.cons.inj htail
      rw [← hb, ← hc] at hparts
      have hsome : joinRmrr a b c = some _ := joinRmrr_eq_some.mpr ⟨hparts, rfl⟩
      exact absurd (hjoin.symm.trans hsome) (by simp)
    rw [List.flatMap_cons, recordLoop_single hsingle, ih, Outcome.bind_ok, Triples.scan, hjoin]
    rfl

/-- A record set of whole slots is accepted, as the scan of them. -/
theorem parseRevocationRecordSet_slots {bytes : List UInt8} (h : bytes.length % 8 = 0) :
    parseRevocationRecordSet bytes = .ok (rmrrTriples.scan (slots bytes)) := by
  rw [parseRevocationRecordSet, Outcome.refuseIf_neg (not_not_intro h), Outcome.bind_ok]
  conv_lhs => rw [← flatMap_slots h]
  exact recordLoop_slots (slots bytes)

/-- Twelve bits of range and forty-eight of start, both ends belong to it. -/
def RevokesRange (type : UInt8) (slot : Bytes 8) (id : Bytes 6) : Prop :=
  slotType slot = type ∧ beNat (slot.toList.drop 2) ≤ beNat id.toList ∧
    beNat id.toList ≤ beNat (slot.toList.drop 2) + beNat (slot.toList.take 2) % 4096

/-- The flag that bars the id is clear, and the id is the one of the first part. -/
def RevokesMedia (part1 : Bytes 8) (id : Bytes 6) : Prop :=
  part1.toList.headD 0 &&& 0x08 = 0 ∧ (part1.toList.drop 1).take 6 = id.toList

/-- Parts 1, 2 and 3 stand in a row from slot `p` on. -/
def RmrrAt (set : List UInt8) (p : Nat) (a b c : Bytes 8) : Prop :=
  (slots set)[p]? = some a ∧ (slots set)[p + 1]? = some b ∧ (slots set)[p + 2]? = some c ∧
    IsRmrr a b c

theorem decodeRange_toNat (slot : Bytes 8) :
    (decodeRangeAndId slot).1.toNat = beNat (slot.toList.take 2) % 4096 := by
  obtain ⟨b₀, b₁, b₂, b₃, b₄, b₅, b₆, b₇, rfl⟩ := exists_eight slot
  have hnibble : (b₀ &&& 0x0F).toNat = b₀.toNat % 16 := by
    rw [UInt8.toNat_and]
    exact Nat.and_two_pow_sub_one_eq_mod b₀.toNat 4
  have hlow := b₁.toNat_lt
  change (u16FromBe (b₀ &&& 0x0F) b₁).toNat = beNat [b₀, b₁] % 4096
  rw [u16FromBe_toNat]
  simp only [beNat, List.foldl_cons, List.foldl_nil, hnibble]
  omega

theorem decodeId_toList (slot : Bytes 8) :
    (decodeRangeAndId slot).2.toList = slot.toList.drop 2 := by
  obtain ⟨b₀, b₁, b₂, b₃, b₄, b₅, b₆, b₇, rfl⟩ := exists_eight slot
  rfl

theorem idInRange_decode (slot : Bytes 8) (id : Bytes 6) :
    idInRange id (decodeRangeAndId slot).2 (decodeRangeAndId slot).1 = true ↔
      beNat (slot.toList.drop 2) ≤ beNat id.toList ∧
        beNat id.toList ≤ beNat (slot.toList.drop 2) + beNat (slot.toList.take 2) % 4096 := by
  rw [idInRange, decodeRange_toNat, decodeId_toList, Bool.and_eq_true, decide_eq_true_eq,
    decide_eq_true_eq]

theorem ne_managedCopyServerId :
    recordTypeContentCertificateId ≠ recordTypeManagedCopyServerId := by decide

/-- Among single slots only one of type 0 revokes a content certificate. -/
theorem revokesContentCertificateId_single (slot : Bytes 8) (id : ContentCertificateId) :
    (singleRecord slot).revokesContentCertificateId id = true ↔
      RevokesRange recordTypeContentCertificateId slot id.bytes := by
  rcases singleRecord_cases slot with ⟨htype, h⟩ | ⟨htype, h⟩ | ⟨htype, -, h⟩
  · rw [h, RevokesRange, and_iff_right htype]
    exact idInRange_decode slot id.bytes
  · rw [h]
    exact iff_of_false Bool.false_ne_true
      (fun hrange => ne_managedCopyServerId (hrange.1.symm.trans htype))
  · rw [h]
    exact iff_of_false Bool.false_ne_true (fun hrange => htype hrange.1)

/-- Among single slots only one of type 1 revokes a server. -/
theorem revokesManagedCopyServerId_single (slot : Bytes 8) (id : ManagedCopyServerCertificateId) :
    (singleRecord slot).revokesManagedCopyServerId id = true ↔
      RevokesRange recordTypeManagedCopyServerId slot id.bytes := by
  rcases singleRecord_cases slot with ⟨htype, h⟩ | ⟨htype, h⟩ | ⟨-, htype, h⟩
  · rw [h]
    exact iff_of_false Bool.false_ne_true
      (fun hrange => ne_managedCopyServerId (htype.symm.trans hrange.1))
  · rw [h, RevokesRange, and_iff_right htype]
    exact idInRange_decode slot id.bytes
  · rw [h]
    exact iff_of_false Bool.false_ne_true (fun hrange => htype hrange.1)

theorem revokesContentCertificateId_rmrr (a b c : Bytes 8) (id : ContentCertificateId) :
    (RevocationRecord.recordableMedia (decodeRmrr a b c)).revokesContentCertificateId id = true ↔
      RevokesMedia a id.bytes := by
  have hiccid : (decodeRmrr a b c).iccid = decide (a.toList.headD 0 &&& 0x08 ≠ 0) := by
    obtain ⟨b₀, b₁, b₂, b₃, b₄, b₅, b₆, b₇, rfl⟩ := exists_eight a
    rfl
  have hid : (decodeRmrr a b c).contentCertificateId = ⟨a.slice 1 6⟩ := rfl
  rw [RevocationRecord.revokesContentCertificateId, RevokesMedia, hiccid, hid]
  by_cases h : a.toList.headD 0 &&& 0x08 = 0
  · rw [decide_eq_false (not_not_intro h), and_iff_right h, if_pos Bool.not_false,
      decide_eq_true_eq, ContentCertificateId.mk.injEq, Bytes.ext_iff, Bytes.slice_toList]
  · rw [decide_eq_true h, if_neg (by decide)]
    exact iff_of_false Bool.false_ne_true (fun hm => h hm.1)

/-- A slot of another type than the three parts is an item, whatever stands around it. -/
theorem not_covered_of_type {as : List (Bytes 8)} {p : Nat} {slot : Bytes 8}
    (hslot : as[p]? = some slot)
    (h₁ : slotType slot ≠ recordTypeRmrrPart1) (h₂ : slotType slot ≠ recordTypeRmrrPart2)
    (h₃ : slotType slot ≠ recordTypeRmrrPart3) : ¬rmrrTriples.Covered as p := by
  rintro ⟨q, r, ⟨a, b, c, ha, hb, hc, hjoin⟩, hle, hlt⟩
  obtain ⟨⟨hpart1, hpart2, hpart3⟩, -⟩ := joinRmrr_eq_some.mp hjoin
  obtain rfl | rfl | rfl : p = q ∨ p = q + 1 ∨ p = q + 2 := by omega
  · obtain rfl := Option.some.inj (hslot.symm.trans ha)
    exact h₁ hpart1
  · obtain rfl := Option.some.inj (hslot.symm.trans hb)
    exact h₂ hpart2
  · obtain rfl := Option.some.inj (hslot.symm.trans hc)
    exact h₃ hpart3

theorem at_media {set : List UInt8} {p : Nat} {rmrr : RecordableMediaRevocation} :
    rmrrTriples.At (rmrrTriples.scan (slots set)) p (.recordableMedia rmrr) ↔
      ∃ a b c, RmrrAt set p a b c ∧ rmrr = decodeRmrr a b c := by
  rw [Triples.at_scan]
  constructor
  · rintro (⟨a, b, c, ha, hb, hc, hjoin⟩ | ⟨slot, -, -, hsingle⟩)
    · obtain ⟨hparts, hr⟩ := joinRmrr_eq_some.mp hjoin
      exact ⟨a, b, c, ⟨ha, hb, hc, hparts⟩, RevocationRecord.recordableMedia.inj hr⟩
    · have hcount := congrArg slotCount hsingle
      rw [slotCount] at hcount
      exact absurd (hcount.trans (slotCount_singleRecord slot)) (by decide)
  · rintro ⟨a, b, c, ⟨ha, hb, hc, hparts⟩, rfl⟩
    exact .inl ⟨a, b, c, ha, hb, hc, joinRmrr_eq_some.mpr ⟨hparts, rfl⟩⟩

/-- The items of a record set that a query accepts, by the slots they are made of. -/
theorem exists_mem_scan {set : List UInt8} {query : RevocationRecord → Prop}
    (h : ∀ slot, query (singleRecord slot) → slotType slot ≠ recordTypeRmrrPart1 ∧
      slotType slot ≠ recordTypeRmrrPart2 ∧ slotType slot ≠ recordTypeRmrrPart3) :
    (∃ r ∈ rmrrTriples.scan (slots set), query r) ↔
      (∃ slot ∈ slots set, query (singleRecord slot)) ∨
        ∃ p a b c, RmrrAt set p a b c ∧ query (.recordableMedia (decodeRmrr a b c)) := by
  constructor
  · rintro ⟨r, hr, hquery⟩
    obtain ⟨p, hp⟩ := Triples.mem_iff_at.mp hr
    rcases Triples.at_scan.mp hp with ⟨a, b, c, ha, hb, hc, hjoin⟩ | ⟨slot, hslot, -, rfl⟩
    · obtain ⟨hparts, rfl⟩ := joinRmrr_eq_some.mp hjoin
      exact .inr ⟨p, a, b, c, ⟨ha, hb, hc, hparts⟩, hquery⟩
    · exact .inl ⟨slot, List.mem_of_getElem? hslot, hquery⟩
  · rintro (⟨slot, hslot, hquery⟩ | ⟨p, a, b, c, hparts, hquery⟩)
    · obtain ⟨p, hp⟩ := List.mem_iff_getElem?.mp hslot
      obtain ⟨h₁, h₂, h₃⟩ := h slot hquery
      have hitem : rmrrTriples.Item (slots set) p (singleRecord slot) :=
        .inr ⟨slot, hp, not_covered_of_type hp h₁ h₂ h₃, rfl⟩
      exact ⟨singleRecord slot, Triples.mem_iff_at.mpr ⟨p, Triples.at_scan.mpr hitem⟩, hquery⟩
    · exact ⟨_, Triples.mem_iff_at.mpr ⟨p, at_media.mpr ⟨a, b, c, hparts, rfl⟩⟩, hquery⟩

/-- The items of a record set: they are its bytes, they take every slot once, and at each
place begins what the slots there are. -/
structure Segmented (set : List UInt8) (rs : List RevocationRecord) : Prop where
  bytes : rs.flatMap encodeRevocationRecord = set
  once : rmrrTriples.count rs = set.length / 8
  items : ∀ p r, rmrrTriples.At rs p r ↔ rmrrTriples.Item (slots set) p r
  media : ∀ p rmrr, rmrrTriples.At rs p (.recordableMedia rmrr) ↔ ∃ a b c, RmrrAt set p a b c ∧
    rmrr = decodeRmrr a b c

theorem segmented_scan {set : List UInt8} (h : set.length % 8 = 0) :
    Segmented set (rmrrTriples.scan (slots set)) where
  bytes := encode_parseRevocationRecordSet (parseRevocationRecordSet_slots h)
  once := Triples.count_scan (slots set) |>.trans (length_slots h)
  items _ _ := Triples.at_scan
  media _ _ := at_media

end Crl

namespace ContentRevocationList

open Crl

/-- The record sets of `n` segments, found by their size fields. -/
def recordSetsFrom : Nat → List UInt8 → List (List UInt8)
  | 0, _ => []
  | n + 1, rest =>
    (rest.drop 4).take (beNat (rest.take 4) - 44) :: recordSetsFrom n
      (rest.drop (beNat (rest.take 4)))

/-- The record sets of a list, by the number of segments in its header. -/
def recordSets (bytes : List UInt8) : List (List UInt8) :=
  recordSetsFrom (beNat ((bytes.drop 3).take 1)) (bytes.drop 4)

theorem recordSetsFrom_segments {segs : List CrlSegment} (h : ∀ seg ∈ segs, seg.WellFormed)
    (tail : List UInt8) :
    recordSetsFrom segs.length (segs.flatMap CrlSegment.bytes ++ tail) =
      segs.map fun seg => seg.records.flatMap encodeRevocationRecord := by
  induction segs with
  | nil => rfl
  | cons seg segs ih =>
    obtain ⟨⟨hsize, -⟩, hsegs⟩ := List.forall_mem_cons.mp h
    have hlen := seg.length_bytes
    rw [← hsize] at hlen
    rw [List.flatMap_cons, List.append_assoc]
    generalize hrest : segs.flatMap CrlSegment.bytes ++ tail = rest at ih
    have hhead : (seg.bytes ++ rest).take 4 = u32ToBe seg.segmentSize := by
      rw [CrlSegment.bytes, CrlSegment.unsignedBytes, List.append_assoc, List.append_assoc]
      exact List.take_left' (length_u32ToBe _)
    have hset : ((seg.bytes ++ rest).drop 4).take (seg.segmentSize.toNat - 44) =
        seg.records.flatMap encodeRevocationRecord := by
      rw [CrlSegment.bytes, CrlSegment.unsignedBytes, List.append_assoc, List.append_assoc,
        List.drop_left' (length_u32ToBe _)]
      exact List.take_left' (by omega)
    have hdrop : (seg.bytes ++ rest).drop seg.segmentSize.toNat = rest := List.drop_left' hsize.symm
    rw [List.length_cons, recordSetsFrom, hhead, beNat_u32ToBe, hset, hdrop, ih hsegs,
      List.map_cons]

/-- The records of an accepted list are the scans of its record sets. -/
theorem records_eq {bytes : List UInt8} {c : ContentRevocationList} (h : parse bytes = .ok c) :
    c.records = (recordSets bytes).flatMap fun set => rmrrTriples.scan (slots set) := by
  obtain ⟨hwf, zeros, rfl, -⟩ := parse_eq_ok.mp h
  have hcount : beNat (((c.toBytes ++ zeros).drop 3).take 1) = c.segments.length := by
    rw [hwf.count]
    exact Nat.zero_add _
  have hdrop : (c.toBytes ++ zeros).drop 4 = c.segments.flatMap CrlSegment.bytes ++ zeros := rfl
  rw [recordSets, hcount, hdrop, recordSetsFrom_segments hwf.segments, List.flatMap_map, records]
  apply List.flatMap_congr
  intro seg hseg
  have hrecords := (hwf.segments seg hseg).records
  obtain ⟨_, hlen, -⟩ := Outcome.bind_eq_ok.mp hrecords
  rw [Outcome.refuseIf_eq_ok, not_not] at hlen
  rw [parseRevocationRecordSet_slots hlen] at hrecords
  exact (Outcome.ok.inj hrecords).symm

theorem any_records {bytes : List UInt8} {c : ContentRevocationList} (h : parse bytes = .ok c)
    (query : RevocationRecord → Bool) :
    c.records.any query = true ↔
      ∃ set ∈ recordSets bytes, ∃ r ∈ rmrrTriples.scan (slots set), query r = true := by
  simp only [records_eq h, List.any_eq_true, List.mem_flatMap]
  constructor
  · rintro ⟨r, ⟨set, hset, hr⟩, hquery⟩
    exact ⟨set, hset, r, hr, hquery⟩
  · rintro ⟨set, hset, r, hr, hquery⟩
    exact ⟨r, ⟨set, hset, hr⟩, hquery⟩

/-- A content certificate is revoked by the bytes of a list: by a record of type 0 whose
range it is in, or by three parts in a row that hold its id. -/
def CertificateRevoked (bytes : List UInt8) (id : Bytes 6) : Prop :=
  ∃ set ∈ recordSets bytes,
    (∃ slot ∈ slots set, RevokesRange recordTypeContentCertificateId slot id) ∨
    ∃ p a b c, RmrrAt set p a b c ∧ RevokesMedia a id

/-- A managed copy server is revoked by a record of type 1 whose range it is in. -/
def ServerRevoked (bytes : List UInt8) (id : Bytes 6) : Prop :=
  ∃ set ∈ recordSets bytes, ∃ slot ∈ slots set, RevokesRange recordTypeManagedCopyServerId slot id

theorem isContentCertificateIdRevoked_iff {bytes : List UInt8} {c : ContentRevocationList}
    (h : parse bytes = .ok c) (id : ContentCertificateId) :
    c.isContentCertificateIdRevoked id = true ↔ CertificateRevoked bytes id.bytes := by
  rw [isContentCertificateIdRevoked, any_records h, CertificateRevoked]
  apply exists_congr
  intro set
  apply and_congr_right
  intro hset
  rw [exists_mem_scan]
  · simp only [revokesContentCertificateId_single, revokesContentCertificateId_rmrr]
  · intro slot hslot
    rw [((revokesContentCertificateId_single slot id).mp hslot).1]
    decide

theorem isManagedCopyServerIdRevoked_iff {bytes : List UInt8} {c : ContentRevocationList}
    (h : parse bytes = .ok c) (id : ManagedCopyServerCertificateId) :
    c.isManagedCopyServerIdRevoked id = true ↔ ServerRevoked bytes id.bytes := by
  rw [isManagedCopyServerIdRevoked, any_records h, ServerRevoked]
  apply exists_congr
  intro set
  apply and_congr_right
  intro hset
  rw [exists_mem_scan]
  · simp only [revokesManagedCopyServerId_single]
    apply or_iff_left
    rintro ⟨p, a, b, c, -, hquery⟩
    exact Bool.false_ne_true hquery
  · intro slot hslot
    rw [((revokesManagedCopyServerId_single slot id).mp hslot).1]
    decide

/-- Every record set of whole slots is cut into its items, and the queries answer from the
bytes of the list. -/
theorem segmentation_exact (set : List UInt8) (hset : set.length % 8 = 0) (bytes : List UInt8)
    (c : ContentRevocationList) (h : parse bytes = .ok c) :
    (∃ rs, parseRevocationRecordSet set = .ok rs ∧ Segmented set rs) ∧
      (∀ id : ContentCertificateId, c.isContentCertificateIdRevoked id = true ↔
        CertificateRevoked bytes id.bytes) ∧
      ∀ id : ManagedCopyServerCertificateId, c.isManagedCopyServerIdRevoked id = true ↔
        ServerRevoked bytes id.bytes :=
  ⟨⟨_, parseRevocationRecordSet_slots hset, segmented_scan hset⟩,
    isContentCertificateIdRevoked_iff h, isManagedCopyServerIdRevoked_iff h⟩

/-- Part 1 twice, then parts 2 and 3: the first is an orphan. -/
def orphanedSet : List UInt8 :=
  [0x20, 0, 0, 0, 0, 0, 0, 1] ++ [0x20, 0, 0, 0, 0, 0, 9, 2] ++ [0x30, 0, 0, 0, 0, 0, 0, 3] ++
    [0x40, 0, 0, 0, 0, 0, 0, 4]

/-- The list with this one record set. -/
def orphanedList : ContentRevocationList :=
  ⟨0, 0, 1, 1, [⟨76, rmrrTriples.scan (slots orphanedSet), Bytes.zero 40⟩]⟩

theorem parse_orphanedList : parse orphanedList.toBytes = .ok orphanedList := by
  have hset := parseRevocationRecordSet_slots (show orphanedSet.length % 8 = 0 by rfl)
  have hencode := encode_parseRevocationRecordSet hset
  have hseg : ∀ seg ∈ orphanedList.segments, seg.WellFormed := by
    intro seg hseg
    obtain rfl := List.mem_singleton.mp hseg
    constructor
    · rw [CrlSegment.length_bytes, hencode]
      rfl
    · rw [hencode]
      exact hset
  have hfirst : (76 : UInt32).toNat ≤ segment1SizeMax := by decide
  exact parse_eq_ok.mpr ⟨⟨by decide, by decide, by decide, rfl, hfirst, hseg⟩, [],
    (List.append_nil _).symm, by simp⟩

theorem segmentation_exact_orphanedList :
    (∃ rs, parseRevocationRecordSet orphanedSet = .ok rs ∧ Segmented orphanedSet rs) ∧
      (∀ id : ContentCertificateId, orphanedList.isContentCertificateIdRevoked id = true ↔
        CertificateRevoked orphanedList.toBytes id.bytes) ∧
      ∀ id : ManagedCopyServerCertificateId, orphanedList.isManagedCopyServerIdRevoked id = true ↔
        ServerRevoked orphanedList.toBytes id.bytes :=
  segmentation_exact orphanedSet rfl _ _ parse_orphanedList

end ContentRevocationList
