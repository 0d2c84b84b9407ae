import Aacs.MockDriveRuns
import Aacs.SectorRules

/-!
# The stored sector extents

The list goes in through one codec and comes out through another. Over any run the
stored list obeys the rules it was checked against, and a read gives it back; what
was sent is what is stored when the length of the parameter list fits its two bytes.
-/
namespace Mmc

structure BusEncryptionSectorExtentsResponse where
  maximum : UInt16
  extents : List BusEncryptionSectorExtent
  deriving DecidableEq

def parseBusEncryptionSectorExtentsResponse (buf : List UInt8) :
    Result BusEncryptionSectorExtentsResponse := do
  let length ← readU16Be buf "Bus-Encryption Sector Extents response header"
  let length := length.toNat
  Outcome.refuseIf (length < 2)
    (.invalidValue "Bus-Encryption Sector Extents response length" length)
  Outcome.refuseIf (buf.length < 2 + length)
    (.truncated "Bus-Encryption Sector Extents response payload")
  let extentSectionLen := length - 2
  Outcome.refuseIf (extentSectionLen % busEncryptionSectorExtentLen ≠ 0)
    (.truncated "Bus-Encryption Sector Extents response extent record stride")
  let wireMax ← Outcome.index buf 3
  let maximum := if wireMax = 0 then 256 else wireMax.toUInt16
  let extentCount := extentSectionLen / busEncryptionSectorExtentLen
  let extents ← (List.range extentCount).mapM fun i => do
    let base := 4 + i * busEncryptionSectorExtentLen
    let startLba ← Outcome.indexU32 buf (base + 8)
    let lbaCount ← Outcome.indexU32 buf (base + 12)
    pure { startLba, lbaCount }
  pure { maximum, extents }

/-- Record `i` of a buffer, as both parsers read it. -/
def readExtent (buf : List UInt8) (i : Nat) : Result BusEncryptionSectorExtent := do
  let base := 4 + i * busEncryptionSectorExtentLen
  let startLba ← Outcome.indexU32 buf (base + 8)
  let lbaCount ← Outcome.indexU32 buf (base + 12)
  pure { startLba, lbaCount }

@[simp] theorem BusEncryptionSectorExtent.length_record (e : BusEncryptionSectorExtent) :
    e.record.length = busEncryptionSectorExtentLen := rfl

theorem length_flatMap_record (es : List BusEncryptionSectorExtent) :
    (es.flatMap BusEncryptionSectorExtent.record).length =
      es.length * busEncryptionSectorExtentLen := by
  induction es with
  | nil => rfl
  | cons e es ih =>
    rw [List.flatMap_cons, List.length_append, ih, e.length_record, List.length_cons, Nat.succ_mul,
      Nat.add_comm]

/-- What stands at the place of an extent is its record. -/
theorem drop_flatMap_record {es : List BusEncryptionSectorExtent} {i : Nat}
    {e : BusEncryptionSectorExtent} (h : es[i]? = some e) :
    ∃ rest, (es.flatMap BusEncryptionSectorExtent.record).drop (i * busEncryptionSectorExtentLen) =
      e.record ++ rest := by
  induction es generalizing i with
  | nil => cases h
  | cons d es ih =>
    rw [List.flatMap_cons]
    cases i with
    | zero =>
      obtain rfl := Option.some.inj h
      exact ⟨_, by rw [Nat.zero_mul, List.drop_zero]⟩
    | succ i =>
      obtain ⟨rest, hrest⟩ := ih h
      refine ⟨rest, ?_⟩
      have hsucc : (i + 1) * busEncryptionSectorExtentLen =
          d.record.length + i * busEncryptionSectorExtentLen := by
        rw [d.length_record, Nat.succ_mul, Nat.add_comm]
      rw [hsucc, List.drop_length_add_append, hrest]

theorem readExtent_of_getElem? {header : List UInt8} (hheader : header.length = 4)
    {es : List BusEncryptionSectorExtent} {i : Nat} {e : BusEncryptionSectorExtent}
    (h : es[i]? = some e) :
    readExtent (header ++ es.flatMap BusEncryptionSectorExtent.record) i = .ok e := by
  obtain ⟨rest, hrest⟩ := drop_flatMap_record h
  have hdrop : ∀ n, (header ++ es.flatMap BusEncryptionSectorExtent.record).drop
      (4 + i * busEncryptionSectorExtentLen + n) = (e.record ++ rest).drop n := by
    intro n
    rw [Nat.add_assoc, ← hheader, List.drop_length_add_append, ← List.drop_drop, hrest]
  have hstart : (Outcome.indexU32 (header ++ es.flatMap BusEncryptionSectorExtent.record)
      (4 + i * busEncryptionSectorExtentLen + 8) : Result UInt32) = .ok e.startLba := by
    rw [Outcome.indexU32_eq_ok, hdrop]
    rfl
  have hcount : (Outcome.indexU32 (header ++ es.flatMap BusEncryptionSectorExtent.record)
      (4 + i * busEncryptionSectorExtentLen + 12) : Result UInt32) = .ok e.lbaCount := by
    rw [Outcome.indexU32_eq_ok, hdrop]
    rfl
  rw [readExtent, hstart, Outcome.bind_ok, hcount, Outcome.bind_ok, Outcome.pure_eq]

/-- The first records of a list that is written behind four header bytes. -/
theorem mapM_readExtent (header : List UInt8) (hheader : header.length = 4)
    (es : List BusEncryptionSectorExtent) {n : Nat} (hn : n ≤ es.length) :
    (List.range n).mapM (readExtent (header ++ es.flatMap BusEncryptionSectorExtent.record)) =
      .ok (es.take n) := by
  have hlength : (es.take n).length = n := List.length_take_of_le hn
  conv_lhs => rw [← hlength]
  apply Outcome.mapM_range_eq_ok
  intro i e he
  apply readExtent_of_getElem? hheader
  exact List.getElem?_eq_some_iff.mpr (by
    obtain ⟨hi, hget⟩ := List.getElem?_eq_some_iff.mp he
    rw [List.getElem_take] at hget
    exact ⟨_, hget⟩)

/-- The two bytes of a length keep its sixteen low bits. -/
theorem u16FromBe_length (n : Nat) :
    (u16FromBe (UInt8.ofNat (n >>> 8)) (UInt8.ofNat n)).toNat = n % 65536 := by
  rw [u16FromBe_toNat, Nat.shiftRight_eq_div_pow]
  simp only [beNat, List.foldl_cons, List.foldl_nil, UInt8.toNat_ofNat']
  omega

theorem length_parameterList (es : List BusEncryptionSectorExtent) :
    (buildSendDiscStructureBusEncryptionSectorExtents es).length = 4 + es.length * 16 := by
  have hrecords := length_flatMap_record es
  rw [busEncryptionSectorExtentLen] at hrecords
  rw [buildSendDiscStructureBusEncryptionSectorExtents, List.length_append, hrecords]
  rfl

/-- The length of the parameter list wraps at 4096 records, and the parser reads as many as
it says. -/
theorem parseSendDiscStructureBusEncryptionSectorExtents_build
    (es : List BusEncryptionSectorExtent) :
    parseSendDiscStructureBusEncryptionSectorExtents
      (buildSendDiscStructureBusEncryptionSectorExtents es) = .ok (es.take (es.length % 4096)) := by
  have hsize := length_parameterList es
  have hread : readU16Be (buildSendDiscStructureBusEncryptionSectorExtents es)
      "SEND_DISC_STRUCTURE Bus-Encryption Sector Extents header" =
        .ok (u16FromBe (UInt8.ofNat ((2 + es.length * 16) >>> 8))
          (UInt8.ofNat (2 + es.length * 16))) := rfl
  have hlength : (2 + es.length * 16) % 65536 = 2 + es.length % 4096 * 16 := by omega
  have hmod : es.length % 4096 ≤ es.length := Nat.mod_le _ _
  have hfits : ¬(buildSendDiscStructureBusEncryptionSectorExtents es).length <
      2 + (2 + es.length % 4096 * 16) := by omega
  have hstride : ¬(2 + es.length % 4096 * 16 - 2) % 16 ≠ 0 := by omega
  have hcount : (2 + es.length % 4096 * 16 - 2) / 16 = es.length % 4096 := by omega
  have hmin : ¬2 + es.length % 4096 * 16 < 2 := by omega
  rw [parseSendDiscStructureBusEncryptionSectorExtents, hread, Outcome.bind_ok]
  simp only [u16FromBe_length, hlength, busEncryptionSectorExtentLen, hcount]
  rw [Outcome.refuseIf_neg hmin, Outcome.bind_ok, Outcome.refuseIf_neg hfits, Outcome.bind_ok,
    Outcome.refuseIf_neg hstride, Outcome.bind_ok]
  exact mapM_readExtent [_, _, 0, 0] rfl es hmod

/-- The maximum as one byte, where 256 is written 0. -/
theorem wireMax_decode {maximum : UInt16} (hmin : 1 ≤ maximum) (hmax : maximum ≤ 256) :
    (let wireMax := if maximum = 256 then 0 else maximum.toUInt8
     if wireMax = 0 then 256 else wireMax.toUInt16) = maximum := by
  rw [UInt16.le_iff_toNat_le] at hmin hmax
  by_cases h : maximum = 256
  · subst h
    rfl
  · rw [if_neg h]
    have hlt : maximum.toNat < 256 := by
      have hne : maximum.toNat ≠ 256 := fun heq => h (UInt16.toNat_inj.mp heq)
      exact lt_of_le_of_ne hmax hne
    have hbyte : maximum.toUInt8.toNat = maximum.toNat := by
      rw [UInt16.toNat_toUInt8, Nat.mod_eq_of_lt hlt]
    have hne : maximum.toUInt8 ≠ 0 := by
      intro hzero
      rw [hzero] at hbyte
      exact absurd (hbyte ▸ hmin) (by decide)
    dsimp only
    rw [if_neg hne, ← UInt16.toNat_inj, UInt8.toNat_toUInt16, hbyte]

end Mmc

namespace Ake.MockDrive

open Mmc

variable {aes : Aes128} {s : MockDrive}

/-- What the drive reports reads back as what it stores, below 4096 extents. -/
theorem parse_extentsResponse (hmin : 1 ≤ s.maxBusEncryptionSectorExtents)
    (hmax : s.maxBusEncryptionSectorExtents ≤ 256)
    (hlen : s.busEncryptionSectorExtents.length ≤ 4095) :
    ∃ out, s.extentsResponse = .ok out ∧ parseBusEncryptionSectorExtentsResponse out =
      .ok ⟨s.maxBusEncryptionSectorExtents, s.busEncryptionSectorExtents⟩ := by
  let es := s.busEncryptionSectorExtents
  have hes : es.length ≤ 4095 := hlen
  let wireMax :=
    if s.maxBusEncryptionSectorExtents = 256 then 0 else s.maxBusEncryptionSectorExtents.toUInt8
  let header :=
    [UInt8.ofNat ((es.length * 16 + 2) >>> 8), UInt8.ofNat (es.length * 16 + 2), 0, wireMax]
  refine ⟨header ++ es.flatMap BusEncryptionSectorExtent.record, ?_, ?_⟩
  · rw [extentsResponse, if_pos ⟨hmin, hmax⟩]
    rfl
  · have hread : readU16Be (header ++ es.flatMap BusEncryptionSectorExtent.record)
        "Bus-Encryption Sector Extents response header" =
          .ok (u16FromBe (UInt8.ofNat ((es.length * 16 + 2) >>> 8))
            (UInt8.ofNat (es.length * 16 + 2))) := rfl
    have hbyte : (Outcome.index (header ++ es.flatMap BusEncryptionSectorExtent.record)
      3 : Result UInt8) =
        .ok wireMax := rfl
    have hrecords := length_flatMap_record es
    have hsize : (header ++ es.flatMap BusEncryptionSectorExtent.record).length =
        4 + es.length * 16 := by
      rw [List.length_append, hrecords]
      rfl
    have hlength : (es.length * 16 + 2) % 65536 = es.length * 16 + 2 := Nat.mod_eq_of_lt (by omega)
    have hmin' : ¬es.length * 16 + 2 < 2 := by omega
    have hfits : ¬(header ++ es.flatMap BusEncryptionSectorExtent.record).length <
        2 + (es.length * 16 + 2) := by omega
    have hstride : ¬(es.length * 16 + 2 - 2) % 16 ≠ 0 := by omega
    have hcount : (es.length * 16 + 2 - 2) / 16 = es.length := by omega
    have hextents := mapM_readExtent header rfl es le_rfl
    rw [List.take_length] at hextents
    rw [parseBusEncryptionSectorExtentsResponse, hread, Outcome.bind_ok]
    simp only [u16FromBe_length, hlength, busEncryptionSectorExtentLen, hcount]
    rw [Outcome.refuseIf_neg hmin', Outcome.bind_ok, Outcome.refuseIf_neg hfits, Outcome.bind_ok,
      Outcome.refuseIf_neg hstride, Outcome.bind_ok, hbyte, Outcome.bind_ok]
    apply Outcome.bind_eq_ok.mpr
    refine ⟨es, hextents, ?_⟩
    have hmaximum : (if wireMax = 0 then 256 else wireMax.toUInt16) =
        s.maxBusEncryptionSectorExtents :=
      wireMax_decode hmin hmax
    rw [Outcome.pure_eq, hmaximum]

/-- The stored list fits the drive and obeys the rules it was checked against. -/
structure SectorStore (maxExtents : UInt16) (capacityLba : UInt32) (s : MockDrive) : Prop where
  maximum : s.maxBusEncryptionSectorExtents = maxExtents
  capacity : s.mediaCapacityLba = capacityLba
  count : s.busEncryptionSectorExtents.length ≤ maxExtents.toNat
  valid : ExtentsValid capacityLba.toNat s.busEncryptionSectorExtents

/-- A drive on which no extents are stored yet. -/
theorem sectorStore_of_empty (h : s.busEncryptionSectorExtents = []) :
    SectorStore s.maxBusEncryptionSectorExtents s.mediaCapacityLba s where
  maximum := rfl
  capacity := rfl
  count := by simp [h]
  valid := by
    rw [h]
    exact extentsValid_nil _

/-- What `kept` shows. -/
theorem extents_of_kept {s s' : MockDrive} (h : kept s' = kept s) :
    s'.busEncryptionSectorExtents = s.busEncryptionSectorExtents ∧
      s'.maxBusEncryptionSectorExtents = s.maxBusEncryptionSectorExtents ∧
      s'.mediaCapacityLba = s.mediaCapacityLba := by
  have hextents := congrArg (fun k => k.1.busEncryptionSectorExtents) h
  have hmaximum := congrArg (fun k => k.1.maxBusEncryptionSectorExtents) h
  have hcapacity := congrArg (fun k => k.1.mediaCapacityLba) h
  exact ⟨hextents, hmaximum, hcapacity⟩

/-- One command. -/
theorem SectorStore.execute {maximum : UInt16} {capacity : UInt32}
    (h : SectorStore maximum capacity s)
    (c : Command) : SectorStore maximum capacity (execute aes c s).2 := by
  rcases execute_cases aes c s with ⟨-, -, wireKwd, kwdPlain, -, -, hs⟩ |
    ⟨-, -, extents, -, hcount, hvalid, hs⟩ | ⟨-, hkept⟩
  · rw [hs]
    exact ⟨h.maximum, h.capacity, h.count, h.valid⟩
  · rw [hs]
    rw [h.maximum] at hcount
    rw [h.capacity] at hvalid
    exact ⟨h.maximum, h.capacity, hcount, validate_eq_ok_iff.mp hvalid⟩
  · obtain ⟨hextents, hmaximum, hcapacity⟩ := extents_of_kept hkept
    refine ⟨hmaximum.trans h.maximum, hcapacity.trans h.capacity, ?_, ?_⟩
    · rw [hextents]
      exact h.count
    · rw [hextents]
      exact h.valid

/-- Every command of a run. -/
theorem SectorStore.after {maximum : UInt16} {capacity : UInt32}
    (h : SectorStore maximum capacity s)
    (cs : List Command) : SectorStore maximum capacity (after aes s cs) := by
  induction cs generalizing s with
  | nil => exact h
  | cons c cs ih => exact ih (h.execute c)

/-- Between two accepted lists the stored one stays. -/
theorem extents_after {cs : List Command}
    (h : Untouched aes s formatAacsBusEncryptionSectorExtents cs) :
    (after aes s cs).busEncryptionSectorExtents = s.busEncryptionSectorExtents := by
  induction cs generalizing s with
  | nil => rfl
  | cons c cs ih =>
    rw [after_cons, ih h.tail]
    rcases execute_cases aes c s with ⟨-, -, wireKwd, kwdPlain, -, -, hs⟩ | ⟨hsend, haccept,
      -⟩ | ⟨-, hkept⟩
    · rw [hs]
    · exact absurd haccept (h.head hsend)
    · exact (extents_of_kept hkept).1

theorem execute_readExtents {c : Command} (hread : Reads c formatAacsBusEncryptionSectorExtents)
    {out : List UInt8} (hout : s.extentsResponse = .ok out) :
    execute aes c s = (.ok (.good out), s) := by
  obtain ⟨rds, hparse, hformat, -⟩ := ReadDiscStructure.parseCdb_of_opcode hread.1
  have hvolumeId : formatAacsBusEncryptionSectorExtents ≠ formatAacsVolumeId := by decide
  have hserial : formatAacsBusEncryptionSectorExtents ≠ formatAacsMediaSerial := by decide
  have hmediaId : formatAacsBusEncryptionSectorExtents ≠ formatAacsMediaId := by decide
  have hkeys : formatAacsBusEncryptionSectorExtents ≠ formatAacsDataKeys := by decide
  rw [execute_of_reads hread, executeReadDiscStructure, hparse, Proc.lift_ok_bind, Proc.get_bind,
    hformat, hread.2, if_neg hvolumeId, if_neg hserial, if_neg hmediaId, if_neg hkeys,
    if_pos rfl, hout]
  rfl

/-- Every read before the next accepted list gives the maximum and these extents. -/
def ReadsBack (aes : Aes128) (s : MockDrive) (maximum : UInt16)
    (extents : List BusEncryptionSectorExtent) : Prop :=
  ∀ cs c, Untouched aes s formatAacsBusEncryptionSectorExtents cs →
    Reads c formatAacsBusEncryptionSectorExtents →
    ∃ r, (execute aes c (after aes s cs)).1 = .ok r ∧
      parseBusEncryptionSectorExtentsResponse r.data = .ok ⟨maximum, extents⟩

/-- What is read back is what is stored. -/
theorem readsBack_iff {maximum : UInt16} {capacity : UInt32} (h : SectorStore maximum capacity s)
    (hmin : 1 ≤ maximum) (hmax : maximum ≤ 256) {extents : List BusEncryptionSectorExtent} :
    ReadsBack aes s maximum extents ↔ s.busEncryptionSectorExtents = extents := by
  have hlen : maximum.toNat ≤ 256 := UInt16.le_iff_toNat_le.mp hmax
  have hread : ∀ cs c, Untouched aes s formatAacsBusEncryptionSectorExtents cs →
      Reads c formatAacsBusEncryptionSectorExtents →
      ∃ r, (MockDrive.execute aes c (MockDrive.after aes s cs)).1 = .ok r ∧
        parseBusEncryptionSectorExtentsResponse r.data =
          .ok ⟨maximum, s.busEncryptionSectorExtents⟩ := by
    intro cs c huntouched hreads
    have hstore : SectorStore maximum capacity (MockDrive.after aes s cs) := h.after cs
    have hcount := hstore.count
    rw [← hstore.maximum] at hmin hmax
    obtain ⟨out, hout, hparse⟩ := parse_extentsResponse hmin hmax (by omega)
    rw [extents_after huntouched, hstore.maximum] at hparse
    exact ⟨.good out, congrArg Prod.fst (execute_readExtents hreads hout), hparse⟩
  constructor
  · intro hback
    let c := readDiscStructureCommand .aacsBusEncryptionSectorExtents
    obtain ⟨r, hr, hparse⟩ := hread [] c (untouched_nil _) ⟨rfl, rfl⟩
    obtain ⟨r', hr', hparse'⟩ := hback [] c (untouched_nil _) ⟨rfl, rfl⟩
    obtain rfl := Outcome.ok.inj (hr.symm.trans hr')
    have heq := Outcome.ok.inj (hparse.symm.trans hparse')
    exact congrArg BusEncryptionSectorExtentsResponse.extents heq
  · rintro rfl
    exact hread

/-- A list that passes every check is accepted. -/
theorem accepts_extents {c : Command} {extents : List BusEncryptionSectorExtent}
    (hsend : Sends c formatAacsBusEncryptionSectorExtents) (hdirection : c.direction = .toDevice)
    (hparse : parseSendDiscStructureBusEncryptionSectorExtents c.dataOut = .ok extents)
    (hcount : extents.length ≤ s.maxBusEncryptionSectorExtents.toNat)
    (hvalid : validateBusEncryptionSectorExtents extents s.mediaCapacityLba = .ok ()) :
    Accepts aes s c := by
  obtain ⟨sds, hsds⟩ := SendDiscStructure.parseCdb_of_opcode hsend.1
  have hformat := (SendDiscStructure.parseCdb_format hsds).trans hsend.2
  have hkey : formatAacsBusEncryptionSectorExtents ≠ formatAacsWriteDataKey := by decide
  refine ⟨.good [], ?_⟩
  rw [execute_of_sends hsend, executeSendDiscStructure, hsds, Proc.lift_ok_bind,
    Outcome.refuseIf_neg (not_not_intro hdirection), Proc.lift_ok_bind, Proc.get_bind, hformat,
    if_neg hkey, if_pos rfl, hparse, Proc.lift_ok_bind, Outcome.refuseIf_neg (not_lt.mpr hcount),
    Proc.lift_ok_bind, hvalid]
  rfl

/-- A built list is stored as far as its length can say. -/
theorem extents_of_build {c : Command} {extents : List BusEncryptionSectorExtent}
    (hsend : Sends c formatAacsBusEncryptionSectorExtents) (haccept : Accepts aes s c)
    (hdata : c.dataOut = buildSendDiscStructureBusEncryptionSectorExtents extents) :
    (execute aes c s).2.busEncryptionSectorExtents = extents.take (extents.length % 4096) := by
  rcases execute_cases aes c s with ⟨hkey, -⟩ | ⟨-, -, stored, hparse, -, -, hs⟩ | ⟨hrefused, -⟩
  · exact absurd (hkey.2.symm.trans hsend.2) (by decide)
  · rw [hdata, parseSendDiscStructureBusEncryptionSectorExtents_build] at hparse
    rw [hs]
    exact (Outcome.ok.inj hparse).symm
  · exact absurd haccept (hrefused (.inr hsend))

theorem take_mod_eq_self {α : Type} {n : Nat} (hn : 0 < n) (l : List α) :
    l.take (l.length % n) = l ↔ l.length < n := by
  rw [List.take_eq_self_iff]
  constructor
  · intro hle
    exact hle.trans_lt (Nat.mod_lt _ hn)
  · intro hlt
    rw [Nat.mod_eq_of_lt hlt]

/-- Over every run from a drive without extents the stored list fits the drive and obeys the
rules; and an accepted list is what every read gives back until the next accepted one exactly
when its length fits the two bytes of the parameter list. -/
theorem sectorStore_run (aes : Aes128) (s : MockDrive) (hempty : s.busEncryptionSectorExtents = [])
    (hmin : 1 ≤ s.maxBusEncryptionSectorExtents) (hmax : s.maxBusEncryptionSectorExtents ≤ 256)
    (cs : List Command) :
    SectorStore s.maxBusEncryptionSectorExtents s.mediaCapacityLba (after aes s cs) ∧
      ∀ c extents, Sends c formatAacsBusEncryptionSectorExtents → Accepts aes (after aes s cs) c →
        c.dataOut = buildSendDiscStructureBusEncryptionSectorExtents extents →
        (ReadsBack aes (MockDrive.execute aes c (after aes s cs)).2
          s.maxBusEncryptionSectorExtents extents ↔ extents.length ≤ 4095) := by
  have hstore : SectorStore s.maxBusEncryptionSectorExtents s.mediaCapacityLba (after aes s cs) :=
    (sectorStore_of_empty hempty).after cs
  constructor
  · exact hstore
  · intro c extents hsend haccept hdata
    rw [readsBack_iff (hstore.execute c) hmin hmax, extents_of_build hsend haccept hdata,
      take_mod_eq_self (by decide)]
    exact Nat.lt_succ_iff

/-- The command that sends a list of extents. -/
def sendExtentsCommand (extents : List BusEncryptionSectorExtent) : Command :=
  sendDiscStructureCommand (.aacsBusEncryptionSectorExtents extents.length)
    (buildSendDiscStructureBusEncryptionSectorExtents extents)

/-- A drive that keeps four extents. -/
def fourExtents : MockDrive :=
  { default with maxBusEncryptionSectorExtents := 4, mediaCapacityLba := 1000 }

/-- Three extents in place of the two that were sent before. -/
theorem sectorStore_run_three :
    ReadsBack Aes128.fips197
      (MockDrive.execute Aes128.fips197 (sendExtentsCommand [⟨8, 4⟩, ⟨16, 8⟩, ⟨900, 50⟩])
      (after Aes128.fips197 fourExtents [sendExtentsCommand [⟨0, 2⟩, ⟨5, 1⟩]])).2 4
      [⟨8, 4⟩, ⟨16, 8⟩, ⟨900, 50⟩] :=
  ((sectorStore_run Aes128.fips197 fourExtents rfl (by decide) (by decide)
    [sendExtentsCommand [⟨0, 2⟩, ⟨5, 1⟩]]).2 (sendExtentsCommand [⟨8, 4⟩, ⟨16, 8⟩, ⟨900, 50⟩])
    [⟨8, 4⟩, ⟨16, 8⟩, ⟨900, 50⟩] ⟨rfl, rfl⟩ ⟨_, rfl⟩ rfl).mpr (by decide)

/-- As many extents as make the length of the parameter list wrap. -/
def wrappingExtents : List BusEncryptionSectorExtent := List.replicate 4096 ⟨0, 1⟩

theorem parse_wrappingExtents :
    parseSendDiscStructureBusEncryptionSectorExtents
      (buildSendDiscStructureBusEncryptionSectorExtents wrappingExtents) = .ok [] := by
  rw [parseSendDiscStructureBusEncryptionSectorExtents_build, wrappingExtents,
    List.length_replicate]
  rfl

/-- Overlapping extents, far more than the drive keeps, are accepted as an empty list. -/
theorem wrappingExtents_not_readsBack :
    Sends (sendExtentsCommand wrappingExtents) formatAacsBusEncryptionSectorExtents ∧
      Accepts Aes128.fips197 default (sendExtentsCommand wrappingExtents) ∧
      (sendExtentsCommand wrappingExtents).dataOut =
        buildSendDiscStructureBusEncryptionSectorExtents wrappingExtents ∧
      ¬ReadsBack Aes128.fips197
        (MockDrive.execute Aes128.fips197 (sendExtentsCommand wrappingExtents) default).2 1
          wrappingExtents := by
  have hsend : Sends (sendExtentsCommand wrappingExtents) formatAacsBusEncryptionSectorExtents :=
    ⟨rfl, rfl⟩
  have haccept : Accepts Aes128.fips197 default (sendExtentsCommand wrappingExtents) :=
    accepts_extents hsend rfl parse_wrappingExtents (Nat.zero_le _) rfl
  have hstore : SectorStore 1 0xFFFFFFFF default := sectorStore_of_empty (s := default) rfl
  refine ⟨hsend, haccept, rfl, ?_⟩
  rw [readsBack_iff (hstore.execute (sendExtentsCommand wrappingExtents)) (by decide) (by decide),
    extents_of_build hsend haccept rfl, take_mod_eq_self (by decide), wrappingExtents,
    List.length_replicate]
  exact lt_irrefl _

end Ake.MockDrive
