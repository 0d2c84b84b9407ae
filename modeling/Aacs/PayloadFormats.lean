import Aacs.CommandCodecs
import Aacs.CprmPacks
import Aacs.DataKeys
import Aacs.SectorStore

/-!
# The formats of the payloads

Every payload is a frame: a length, two bytes and a body. The parsers accept exactly the frames of
their length, and read the body alone.
-/

section Records

variable {α : Type} {f : α → List UInt8} {k : Nat}

/-- What stands at the place of a record is the record. -/
theorem drop_flatMap_const (hf : ∀ a, (f a).length = k) {as : List α} {i : Nat} {a : α}
    (h : as[i]? = some a) :
    ∃ rest, (as.flatMap f).drop (i * k) = f a ++ rest := by
  induction as generalizing i with
  | nil => cases h
  | cons b as ih =>
    rw [List.flatMap_cons]
    cases i with
    | zero =>
      obtain rfl := Option.some.inj h
      exact ⟨_, by rw [Nat.zero_mul, List.drop_zero]⟩
    | succ i =>
      obtain ⟨rest, hrest⟩ := ih h
      refine ⟨rest, ?_⟩
      have hsucc : (i + 1) * k = (f b).length + i * k := by rw [hf, Nat.succ_mul, Nat.add_comm]
      rw [hsucc, List.drop_length_add_append, hrest]

/-- Bytes that divide into places of records are records. -/
theorem exists_flatMap_const (hf : ∀ c : List UInt8, c.length = k → ∃ a, f a = c) {n : Nat}
    {body : List UInt8}
    (hbody : body.length = n * k) : ∃ as : List α, as.length = n ∧ body = as.flatMap f := by
  induction n generalizing body with
  | zero =>
    rw [Nat.zero_mul, List.length_eq_zero_iff] at hbody
    exact ⟨[], rfl, hbody⟩
  | succ n ih =>
    rw [Nat.succ_mul] at hbody
    have hhead : (body.take k).length = k := List.length_take_of_le (by omega)
    have htail : (body.drop k).length = n * k := by
      rw [List.length_drop]
      omega
    obtain ⟨a, ha⟩ := hf _ hhead
    obtain ⟨as, has, htail⟩ := ih htail
    refine ⟨a :: as, congrArg (· + 1) has, ?_⟩
    rw [List.flatMap_cons, ha, ← htail, List.take_append_drop]

end Records

namespace Mmc

/-- A length, a reserved byte, a byte, and a body; what follows is not looked at. -/
def Frame (length : UInt16) (last : UInt8) (body buf : List UInt8) : Prop :=
  ∃ reserved tail, buf = u16ToBe length ++ [reserved, last] ++ body ++ tail

/-- A frame of which both bytes are reserved. -/
def Framed (length : UInt16) (body buf : List UInt8) : Prop := ∃ last, Frame length last body buf

section Frames

variable {length : UInt16} {last : UInt8} {body buf : List UInt8}

theorem frame_iff : Frame length last body buf ↔ buf.take 2 = u16ToBe length ∧ buf[3]? = some last ∧
    4 + body.length ≤ buf.length ∧ (buf.drop 4).take body.length = body := by
  constructor
  · rintro ⟨reserved, tail, rfl⟩
    refine ⟨rfl, rfl, ?_, ?_⟩
    · simp only [List.length_append, length_u16ToBe, List.length_cons, List.length_nil]
      omega
    · simp [u16ToBe]
  · rintro ⟨hlength, hlast, hsize, hbody⟩
    rcases buf with _ | ⟨b₀, _ | ⟨b₁, _ | ⟨b₂, _ | ⟨b₃, rest⟩⟩⟩⟩
    case cons.cons.cons.cons =>
      obtain rfl := Option.some.inj hlast
      refine ⟨b₂, rest.drop body.length, ?_⟩
      have hrest : rest = body ++ rest.drop body.length := by
        conv_lhs => rw [← List.take_append_drop body.length rest]
        rw [show rest.take body.length = body from hbody]
      rw [← hlength, List.append_assoc, ← hrest]
      rfl
    all_goals
      simp only [List.length_cons, List.length_nil] at hsize
      omega

theorem framed_iff : Framed length body buf ↔ buf.take 2 = u16ToBe length ∧
    4 + body.length ≤ buf.length ∧ (buf.drop 4).take body.length = body := by
  constructor
  · rintro ⟨last, hframe⟩
    obtain ⟨hlength, -, hsize, hbody⟩ := frame_iff.mp hframe
    exact ⟨hlength, hsize, hbody⟩
  · rintro ⟨hlength, hsize, hbody⟩
    have hlast : buf[3]? = some (buf.get ⟨3, by omega⟩) := List.getElem?_eq_getElem (by omega)
    exact ⟨_, frame_iff.mpr ⟨hlength, hlast, hsize, hbody⟩⟩

/-- A payload whose length field counts what follows it. -/
theorem exists_frame {what : String} (hread : readU16Be buf what = .ok length)
    (hmin : 2 ≤ length.toNat)
    (hsize : 2 + length.toNat ≤ buf.length) : ∃ last body, body.length = length.toNat - 2 ∧
      Frame length last body buf := by
  have hbody : ((buf.drop 4).take (length.toNat - 2)).length = length.toNat - 2 := by
    apply List.length_take_of_le
    rw [List.length_drop]
    omega
  have hframed : Framed length ((buf.drop 4).take (length.toNat - 2)) buf := by
    rw [framed_iff, hbody]
    exact ⟨readU16Be_eq_ok.mp hread, by omega, rfl⟩
  obtain ⟨last, hframe⟩ := hframed
  exact ⟨last, _, hbody, hframe⟩

theorem Frame.readU16Be (h : Frame length last body buf) (what : String) :
    readU16Be buf what = .ok length :=
  readU16Be_eq_ok.mpr (frame_iff.mp h).1

theorem Frame.index (h : Frame length last body buf) :
    (Outcome.index buf 3 : Result UInt8) = .ok last :=
  Outcome.index_eq_ok.mpr (frame_iff.mp h).2.1

theorem Frame.size (h : Frame length last body buf) : 4 + body.length ≤ buf.length :=
  (frame_iff.mp h).2.2.1

theorem Frame.slice (h : Frame length last body buf) :
    (Outcome.slice buf 4 (4 + body.length) : Result (List UInt8)) = .ok body := by
  rw [Outcome.slice_of_le (Nat.le_add_right _ _) h.size, Nat.add_sub_cancel_left,
    (frame_iff.mp h).2.2.2]

end Frames

theorem parseFields_iff {name : String} {length : UInt16} {m n : Nat} {buf : List UInt8}
    {x : Bytes m × Bytes n} :
    parseFields name length m n buf = .ok x ↔ Framed length (x.1.toList ++ x.2.toList) buf := by
  obtain ⟨first, second⟩ := x
  have hbody : (first.toList ++ second.toList).length = m + n := by simp
  rw [parseFields_eq_ok, framed_iff, hbody, List.take_add, List.drop_drop]
  constructor
  · rintro ⟨hlength, hsize, hfirst, hsecond⟩
    exact ⟨hlength, by omega, congrArg₂ _ hfirst.symm hsecond.symm⟩
  · rintro ⟨hlength, hsize, hbody⟩
    have hm : ((buf.drop 4).take m).length = first.toList.length := by
      rw [first.length_toList, List.length_take, List.length_drop]
      omega
    obtain ⟨hfirst, hsecond⟩ := List.append_inj hbody hm
    exact ⟨hlength, by omega, hfirst.symm, hsecond.symm⟩

/-- One field of `n` bytes. -/
theorem checkPayload_readArray_iff {name : String} {length : UInt16} {n : Nat} {buf : List UInt8}
    {x : Bytes n} :
    (do checkPayload name length (4 + n) buf; Outcome.readArray n buf 4) = .ok x ↔
      Framed length x.toList buf := by
  simp only [Outcome.bind_eq_ok, checkPayload_eq_ok, Outcome.readArray_eq_ok, framed_iff,
    x.length_toList]
  constructor
  · rintro ⟨_, ⟨hlength, hsize⟩, -, hbody⟩
    exact ⟨hlength, hsize, hbody.symm⟩
  · rintro ⟨hlength, hsize, hbody⟩
    exact ⟨(), ⟨hlength, hsize⟩, hsize, hbody.symm⟩

/-- The record of an extent with its eight reserved bytes. -/
def extentRecord (r : Bytes 8 × BusEncryptionSectorExtent) : List UInt8 :=
  r.1.toList ++ u32ToBe r.2.startLba ++ u32ToBe r.2.lbaCount

theorem length_extentRecord (r : Bytes 8 × BusEncryptionSectorExtent) :
    (extentRecord r).length = 16 := by
  simp [extentRecord]

/-- Sixteen bytes are a record. -/
theorem exists_extentRecord (c : List UInt8) (hc : c.length = 16) : ∃ r, extentRecord r = c := by
  obtain ⟨reserved, fields, rfl, hreserved⟩ : ∃ reserved fields, c = reserved ++ fields ∧
      reserved.length = 8 :=
    ⟨c.take 8, c.drop 8, (List.take_append_drop 8 c).symm, List.length_take_of_le (by omega)⟩
  have hfields : fields.length = 8 := by
    rw [List.length_append] at hc
    omega
  rcases fields
    with _ | ⟨s₀, _ | ⟨s₁, _ | ⟨s₂, _ | ⟨s₃, _ | ⟨c₀, _ | ⟨c₁, _ | ⟨c₂, _ | ⟨c₃, _ | ⟨_, _⟩⟩⟩⟩⟩⟩⟩⟩⟩
  case cons.cons.cons.cons.cons.cons.cons.cons.nil =>
    refine ⟨(⟨reserved, hreserved⟩, ⟨u32FromBe s₀ s₁ s₂ s₃, u32FromBe c₀ c₁ c₂ c₃⟩), ?_⟩
    rw [extentRecord, u32ToBe_fromBe, u32ToBe_fromBe, List.append_assoc]
    rfl
  all_goals
    simp only [List.length_cons, List.length_nil] at hfields
    omega

section Extents

variable {length : UInt16} {last : UInt8} {buf : List UInt8}
  {rs : List (Bytes 8 × BusEncryptionSectorExtent)}

theorem Frame.readExtent (h : Frame length last (rs.flatMap extentRecord) buf) {i : Nat}
    {r : Bytes 8 × BusEncryptionSectorExtent} (hr : rs[i]? = some r) :
    readExtent buf i = .ok r.2 := by
  obtain ⟨reserved, tail, rfl⟩ := h
  obtain ⟨rest, hrest⟩ := drop_flatMap_const length_extentRecord hr
  have hi : i * 16 ≤ (rs.flatMap extentRecord).length := by
    have hlength := length_flatMap_const fun a (_ : a ∈ rs) => length_extentRecord a
    have hlt := (List.getElem?_eq_some_iff.mp hr).1
    omega
  have hdrop : ∀ n, (u16ToBe length ++ [reserved, last] ++ rs.flatMap extentRecord ++ tail).drop
      (4 + i * busEncryptionSectorExtentLen + n) = (extentRecord r ++ (rest ++ tail)).drop n := by
    intro n
    rw [← List.drop_drop, ← List.drop_drop, busEncryptionSectorExtentLen,
      List.append_assoc _ _ tail]
    change (((rs.flatMap extentRecord ++ tail).drop (i * 16)).drop n) = _
    rw [List.drop_append_of_le_length hi, hrest, List.append_assoc]
  have hstart :
    (Outcome.indexU32 (u16ToBe length ++ [reserved, last] ++ rs.flatMap extentRecord ++ tail)
      (4 + i * busEncryptionSectorExtentLen + 8) : Result UInt32) = .ok r.2.startLba := by
    rw [Outcome.indexU32_eq_ok, hdrop, extentRecord, List.append_assoc, List.append_assoc,
      List.drop_left' r.1.length_toList]
    rfl
  have hcount :
    (Outcome.indexU32 (u16ToBe length ++ [reserved, last] ++ rs.flatMap extentRecord ++ tail)
      (4 + i * busEncryptionSectorExtentLen + 12) : Result UInt32) = .ok r.2.lbaCount := by
    have hfields : (r.1.toList ++ u32ToBe r.2.startLba).length = 12 := by simp
    rw [Outcome.indexU32_eq_ok, hdrop, extentRecord, List.append_assoc, List.drop_left' hfields]
    rfl
  rw [Mmc.readExtent, hstart, Outcome.bind_ok, hcount, Outcome.bind_ok, Outcome.pure_eq]

/-- The loop of both parsers. -/
theorem Frame.readExtents (h : Frame length last (rs.flatMap extentRecord) buf) :
    (List.range rs.length).mapM (Mmc.readExtent buf) = .ok (rs.map Prod.snd) := by
  rw [← List.length_map Prod.snd]
  apply Outcome.mapM_range_eq_ok
  intro i e he
  rw [List.getElem?_map, Option.map_eq_some_iff] at he
  obtain ⟨r, hr, rfl⟩ := he
  exact h.readExtent hr

/-- The records of a payload of whole ones. -/
theorem exists_records {what : String} (hread : readU16Be buf what = .ok length)
    (hmin : 2 ≤ length.toNat)
    (hsize : 2 + length.toNat ≤ buf.length) (hstride : (length.toNat - 2) % 16 = 0) :
    ∃ (last : UInt8) (rs : List (Bytes 8 × BusEncryptionSectorExtent)), length.toNat =
      2 + rs.length * 16 ∧ Frame length last (rs.flatMap extentRecord) buf := by
  obtain ⟨last, body, hbody, hframe⟩ := exists_frame hread hmin hsize
  have hplaces : body.length = (length.toNat - 2) / 16 * 16 := by omega
  obtain ⟨rs, hrs, rfl⟩ := exists_flatMap_const exists_extentRecord hplaces
  exact ⟨last, rs, by omega, hframe⟩

theorem Frame.size_records (h : Frame length last (rs.flatMap extentRecord) buf) :
    4 + rs.length * 16 ≤ buf.length := by
  have hsize := h.size
  rwa [length_flatMap_const fun a (_ : a ∈ rs) => length_extentRecord a] at hsize

theorem Frame.parseSendDiscStructure (hlength : length.toNat = 2 + rs.length * 16)
    (h : Frame length last (rs.flatMap extentRecord) buf) :
    parseSendDiscStructureBusEncryptionSectorExtents buf = .ok (rs.map Prod.snd) := by
  have hsize := h.size_records
  have hcount : (2 + rs.length * 16 - 2) / 16 = rs.length := by omega
  rw [parseSendDiscStructureBusEncryptionSectorExtents, h.readU16Be, Outcome.bind_ok]
  simp only [hlength, busEncryptionSectorExtentLen, hcount]
  rw [Outcome.refuseIf_neg (by omega), Outcome.bind_ok, Outcome.refuseIf_neg (by omega),
    Outcome.bind_ok, Outcome.refuseIf_neg (by omega), Outcome.bind_ok]
  exact h.readExtents

theorem Frame.parseResponse (hlength : length.toNat = 2 + rs.length * 16)
    (h : Frame length last (rs.flatMap extentRecord) buf) :
    parseBusEncryptionSectorExtentsResponse buf =
      .ok ⟨if last = 0 then 256 else last.toUInt16, rs.map Prod.snd⟩ := by
  have hsize := h.size_records
  have hcount : (2 + rs.length * 16 - 2) / 16 = rs.length := by omega
  rw [parseBusEncryptionSectorExtentsResponse, h.readU16Be, Outcome.bind_ok]
  simp only [hlength, busEncryptionSectorExtentLen, hcount]
  rw [Outcome.refuseIf_neg (by omega), Outcome.bind_ok, Outcome.refuseIf_neg (by omega),
    Outcome.bind_ok, Outcome.refuseIf_neg (by omega), Outcome.bind_ok, h.index, Outcome.bind_ok]
  exact congrArg (fun es : Result (List BusEncryptionSectorExtent) => es >>= fun extents =>
    pure (BusEncryptionSectorExtentsResponse.mk (if last = 0 then 256 else last.toUInt16)
      extents)) h.readExtents

theorem parseSendDiscStructureBusEncryptionSectorExtents_iff {es : List BusEncryptionSectorExtent} :
    parseSendDiscStructureBusEncryptionSectorExtents buf = .ok es ↔
      ∃ (length : UInt16) (rs : List (Bytes 8 × BusEncryptionSectorExtent)), length.toNat =
        2 + rs.length * 16 ∧
        Framed length (rs.flatMap extentRecord) buf ∧ es = rs.map Prod.snd := by
  constructor
  · intro hparse
    have hsteps := hparse
    simp only [parseSendDiscStructureBusEncryptionSectorExtents, Outcome.bind_eq_ok,
      Outcome.refuseIf_eq_ok, not_lt, ne_eq, not_not] at hsteps
    obtain ⟨length, hread, _, hmin, _, hsize, _, hstride, -⟩ := hsteps
    obtain ⟨last, rs, hlength, hrs⟩ := exists_records hread hmin hsize hstride
    rw [hrs.parseSendDiscStructure hlength] at hparse
    exact ⟨length, rs, hlength, ⟨last, hrs⟩, (Outcome.ok.inj hparse).symm⟩
  · rintro ⟨length, rs, hlength, ⟨last, hrs⟩, rfl⟩
    exact hrs.parseSendDiscStructure hlength

theorem parseBusEncryptionSectorExtentsResponse_iff {r : BusEncryptionSectorExtentsResponse} :
    parseBusEncryptionSectorExtentsResponse buf = .ok r ↔
      ∃ (length : UInt16) (wireMax : UInt8) (rs : List (Bytes 8 × BusEncryptionSectorExtent)),
        length.toNat = 2 + rs.length * 16 ∧ Frame length wireMax (rs.flatMap extentRecord) buf ∧
        r = ⟨if wireMax = 0 then 256 else wireMax.toUInt16, rs.map Prod.snd⟩ := by
  constructor
  · intro hparse
    have hsteps := hparse
    simp only [parseBusEncryptionSectorExtentsResponse, Outcome.bind_eq_ok, Outcome.refuseIf_eq_ok,
      not_lt, ne_eq, not_not] at hsteps
    obtain ⟨length, hread, _, hmin, _, hsize, _, hstride, -⟩ := hsteps
    obtain ⟨wireMax, rs, hlength, hrs⟩ := exists_records hread hmin hsize hstride
    rw [hrs.parseResponse hlength] at hparse
    exact ⟨length, wireMax, rs, hlength, hrs, (Outcome.ok.inj hparse).symm⟩
  · rintro ⟨length, wireMax, rs, hlength, hrs, rfl⟩
    exact hrs.parseResponse hlength

end Extents

structure MkbPackResponse where
  totalPacks : UInt8
  packData : List UInt8
  deriving DecidableEq

def parseMkbPackResponse (buf : List UInt8) : Result MkbPackResponse := do
  let length ← readU16Be buf "MKB pack response header"
  let length := length.toNat
  Outcome.refuseIf (length < 2) (.invalidValue "MKB pack response length" length)
  let bodyLen := length - 2
  Outcome.refuseIf (buf.length < 4 + bodyLen) (.truncated "MKB pack response payload")
  let totalPacks ← Outcome.index buf 3
  let packData ← Outcome.slice buf 4 (4 + bodyLen)
  pure { totalPacks, packData }

section Packs

variable {length : UInt16} {last : UInt8} {body buf : List UInt8}

theorem Frame.parseMkbPack (hlength : length.toNat = 2 + body.length)
    (h : Frame length last body buf) :
    parseMkbPackResponse buf = .ok ⟨last, body⟩ := by
  have hsize := h.size
  have hbody : 2 + body.length - 2 = body.length := by omega
  rw [parseMkbPackResponse, h.readU16Be, Outcome.bind_ok]
  simp only [hlength, hbody]
  rw [Outcome.refuseIf_neg (by omega), Outcome.bind_ok, Outcome.refuseIf_neg (by omega),
    Outcome.bind_ok, h.index, Outcome.bind_ok, h.slice, Outcome.bind_ok, Outcome.pure_eq]

theorem parseMkbPackResponse_iff {r : MkbPackResponse} : parseMkbPackResponse buf = .ok r ↔
    ∃ length : UInt16, length.toNat = 2 + r.packData.length ∧
      Frame length r.totalPacks r.packData buf := by
  constructor
  · intro hparse
    have hsteps := hparse
    simp only [parseMkbPackResponse, Outcome.bind_eq_ok, Outcome.refuseIf_eq_ok, not_lt] at hsteps
    obtain ⟨length, hread, _, hmin, _, hsize, -⟩ := hsteps
    obtain ⟨last, body, hbody, hframe⟩ := exists_frame hread hmin (by omega)
    have hlength : length.toNat = 2 + body.length := by omega
    rw [hframe.parseMkbPack hlength] at hparse
    obtain rfl := Outcome.ok.inj hparse
    exact ⟨length, hlength, hframe⟩
  · rintro ⟨length, hlength, hframe⟩
    exact hframe.parseMkbPack hlength

theorem Frame.parseCprmMkbPack (hlength : length.toNat = 2 + body.length)
    (hkind : body.length = 0 ∨ body.length = Ake.cprmMkbPackLen) (h : Frame length last body buf) :
    Ake.parseCprmMkbPackResponse buf = .ok ⟨last, body⟩ := by
  have hsize := h.size
  have hbody : 2 + body.length - 2 = body.length := by omega
  rw [Ake.parseCprmMkbPackResponse, h.readU16Be, Outcome.bind_ok]
  simp only [hlength, hbody]
  rw [Outcome.refuseIf_neg (by omega), Outcome.bind_ok, Outcome.refuseIf_neg (by omega),
    Outcome.bind_ok, Outcome.refuseIf_neg (by omega), Outcome.bind_ok, h.index,
    Outcome.bind_ok, h.slice, Outcome.bind_ok, Outcome.pure_eq]

theorem parseCprmMkbPackResponse_iff {r : Ake.CprmMkbPackResponse} :
    Ake.parseCprmMkbPackResponse buf = .ok r ↔
    (r.packData.length = 0 ∨ r.packData.length = Ake.cprmMkbPackLen) ∧
    ∃ length : UInt16, length.toNat = 2 + r.packData.length ∧
      Frame length r.totalPacks r.packData buf := by
  constructor
  · intro hparse
    have hsteps := hparse
    simp only [Ake.parseCprmMkbPackResponse, Outcome.bind_eq_ok, Outcome.refuseIf_eq_ok,
      not_lt] at hsteps
    obtain ⟨length, hread, _, hmin, _, hkind, _, hsize, -⟩ := hsteps
    obtain ⟨last, body, hbody, hframe⟩ := exists_frame hread hmin (by omega)
    have hlength : length.toNat = 2 + body.length := by omega
    rw [hframe.parseCprmMkbPack hlength (by omega)] at hparse
    obtain rfl := Outcome.ok.inj hparse
    exact ⟨by dsimp only; omega, length, hlength, hframe⟩
  · rintro ⟨hkind, length, hlength, hframe⟩
    exact hframe.parseCprmMkbPack hlength hkind

end Packs

theorem parseReportKeyAgid_iff {buf : List UInt8} {agid : UInt8} :
    Ake.parseReportKeyAgid buf = .ok agid ↔
    ∃ r₀ r₁ r₂ b, Framed 0x0006 [r₀, r₁, r₂, b] buf ∧ agid = agidOf b := by
  simp only [Ake.parseReportKeyAgid, Outcome.bind_eq_ok, checkPayload_eq_ok, Outcome.index_eq_ok,
    Outcome.pure_eq, Outcome.ok.injEq]
  constructor
  · rintro ⟨_, ⟨hlength, hsize⟩, b, hb, rfl⟩
    have hdrop : ((buf.drop 4).take 4).length = 4 := by
      apply List.length_take_of_le
      rw [List.length_drop]
      omega
    have hlast : ((buf.drop 4).take 4)[3]? = some b := by
      rw [List.getElem?_take_of_lt (by decide), List.getElem?_drop]
      exact hb
    rcases hbody : (buf.drop 4).take 4 with _ | ⟨r₀, _ | ⟨r₁, _ | ⟨r₂, _ | ⟨b₃, _ | ⟨_, _⟩⟩⟩⟩⟩
    case cons.cons.cons.cons.nil =>
      rw [hbody] at hlast
      obtain rfl := Option.some.inj hlast
      exact ⟨r₀, r₁, r₂, b₃, framed_iff.mpr ⟨hlength, hsize, hbody⟩, rfl⟩
    all_goals
      rw [hbody] at hdrop
      simp only [List.length_cons, List.length_nil] at hdrop
      omega
  · rintro ⟨r₀, r₁, r₂, b, ⟨last, reserved, tail, rfl⟩, rfl⟩
    refine ⟨(), ⟨rfl, ?_⟩, b, rfl, rfl⟩
    simp [u16ToBe]

theorem parseDataKeysResponse_iff {buf : List UInt8} {keys : DataKeysResponse} :
    parseDataKeysResponse buf = .ok keys ↔
      Framed 0x0022 (keys.readDataKeyEncrypted.toList ++ keys.writeDataKeyEncrypted.toList) buf :=
  by
  simp only [parseDataKeysResponse, Outcome.bind_eq_ok, parseFields_iff, Outcome.pure_eq,
    Outcome.ok.injEq]
  constructor
  · rintro ⟨fields, hframed, rfl⟩
    exact hframed
  · intro hframed
    exact ⟨(keys.readDataKeyEncrypted, keys.writeDataKeyEncrypted), hframed, rfl⟩

/-- The parsers accept exactly the frames of their length, with any reserved bytes and anything
behind, and return what stands in the body. -/
structure PayloadsExact (buf : List UInt8) : Prop where
  agid : ∀ agid, Ake.parseReportKeyAgid buf = .ok agid ↔
    ∃ r₀ r₁ r₂ b, Framed 0x0006 [r₀, r₁, r₂, b] buf ∧ agid = agidOf b
  driveCertChal : ∀ x, Ake.parseReportKeyDriveCertChal buf = .ok x ↔
    Framed 0x0072 (x.1.toList ++ x.2.toList) buf
  driveKey : ∀ x, Ake.parseReportKeyDriveKey buf = .ok x ↔
    Framed 0x0052 (x.1.toList ++ x.2.toList) buf
  driveCert : ∀ x, Ake.parseReportKeyDriveCert buf = .ok x ↔ Framed 0x005E x.toList buf
  bindingNonce : ∀ x, Ake.parseReportKeyBindingNonce buf = .ok x ↔
    Framed 0x0022 (x.1.toList ++ x.2.toList) buf
  volumeId : ∀ x, Ake.parseVolumeIdResponse buf = .ok x ↔
    Framed 0x0022 (x.1.toList ++ x.2.toList) buf
  mediaSerial : ∀ x, Ake.parseMediaSerialResponse buf = .ok x ↔
    Framed 0x0022 (x.1.toList ++ x.2.toList) buf
  mediaId : ∀ x, Ake.parseMediaIdResponse buf = .ok x ↔ Framed 0x0022 (x.1.toList ++ x.2.toList) buf
  dataKeys : ∀ keys, parseDataKeysResponse buf = .ok keys ↔
    Framed 0x0022 (keys.readDataKeyEncrypted.toList ++ keys.writeDataKeyEncrypted.toList) buf
  hostCertChal : ∀ x, Ake.parseSendKeyHostCertChal buf = .ok x ↔
    Framed 0x0072 (x.1.toList ++ x.2.toList) buf
  hostKey : ∀ x, Ake.parseSendKeyHostKey buf = .ok x ↔ Framed 0x0052 (x.1.toList ++ x.2.toList) buf
  writeDataKey : ∀ x, Ake.MockDrive.parseSendDiscStructureWriteDataKey buf = .ok x ↔
    Framed 0x0012 x.toList buf
  parameterList : ∀ es, parseSendDiscStructureBusEncryptionSectorExtents buf = .ok es ↔
    ∃ (length : UInt16) (rs : List (Bytes 8 × BusEncryptionSectorExtent)), length.toNat =
      2 + rs.length * 16 ∧ Framed length (rs.flatMap extentRecord) buf ∧ es = rs.map Prod.snd
  extents : ∀ r, parseBusEncryptionSectorExtentsResponse buf = .ok r ↔
    ∃ (length : UInt16) (wireMax : UInt8) (rs : List (Bytes 8 × BusEncryptionSectorExtent)),
      length.toNat = 2 + rs.length * 16 ∧ Frame length wireMax (rs.flatMap extentRecord) buf ∧
      r = ⟨if wireMax = 0 then 256 else wireMax.toUInt16, rs.map Prod.snd⟩
  mkbPack : ∀ r, parseMkbPackResponse buf = .ok r ↔
    ∃ length : UInt16, length.toNat = 2 + r.packData.length ∧
      Frame length r.totalPacks r.packData buf
  cprmMkbPack : ∀ r, Ake.parseCprmMkbPackResponse buf = .ok r ↔
    (r.packData.length = 0 ∨ r.packData.length = Ake.cprmMkbPackLen) ∧
    ∃ length : UInt16, length.toNat = 2 + r.packData.length ∧
      Frame length r.totalPacks r.packData buf

theorem payloads_exact (buf : List UInt8) : PayloadsExact buf where
  agid _ := parseReportKeyAgid_iff
  driveCertChal _ := parseFields_iff
  driveKey _ := parseFields_iff
  driveCert _ := checkPayload_readArray_iff
  bindingNonce _ := parseFields_iff
  volumeId _ := parseFields_iff
  mediaSerial _ := parseFields_iff
  mediaId _ := parseFields_iff
  dataKeys _ := parseDataKeysResponse_iff
  hostCertChal _ := parseFields_iff
  hostKey _ := parseFields_iff
  writeDataKey _ := checkPayload_readArray_iff
  parameterList _ := parseSendDiscStructureBusEncryptionSectorExtents_iff
  extents _ := parseBusEncryptionSectorExtentsResponse_iff
  mkbPack _ := parseMkbPackResponse_iff
  cprmMkbPack _ := parseCprmMkbPackResponse_iff

end Mmc
