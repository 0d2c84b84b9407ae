import Aacs.MockDriveRuns
import Aacs.AesInverse
import Aacs.Packs

/-!
# The CPRM media key block in packs

A host asks how many packs there are and reads them one by one. Put together they
are the block and zeros; a drive that authenticates puts a MAC over the first bytes.
-/
namespace Ake

open Mmc

structure CprmMkbPackResponse where
  totalPacks : UInt8
  packData : List UInt8
  deriving DecidableEq

def parseCprmMkbPackResponse (buf : List UInt8) : Result CprmMkbPackResponse := do
  let length ← readU16Be buf "CPRM MKB pack response header"
  let length := length.toNat
  Outcome.refuseIf (length < 2) (.invalidValue "CPRM MKB pack response length" length)
  let bodyLen := length - 2
  Outcome.refuseIf (bodyLen ≠ 0 ∧ bodyLen ≠ cprmMkbPackLen)
    (.invalidValue "CPRM MKB pack response body length" bodyLen)
  Outcome.refuseIf (buf.length < 4 + bodyLen) (.truncated "CPRM MKB pack response payload")
  let totalPacks ← Outcome.index buf 3
  let packData ← Outcome.slice buf 4 (4 + bodyLen)
  pure { totalPacks, packData }

/-- The header alone. -/
theorem parseCprmMkbPackResponse_header (totalPacks : UInt8) :
    parseCprmMkbPackResponse [0x00, 0x02, 0x00, totalPacks] = .ok ⟨totalPacks, []⟩ := rfl

/-- The header and one pack. -/
theorem parseCprmMkbPackResponse_pack (totalPacks : UInt8) {pack : List UInt8}
    (hpack : pack.length = cprmMkbPackLen) :
    parseCprmMkbPackResponse
      ([UInt8.ofNat ((cprmMkbPackLen + 2) >>> 8), UInt8.ofNat (cprmMkbPackLen + 2),
      0x00, totalPacks] ++ pack) = .ok ⟨totalPacks, pack⟩ := by
  let header :=
    [UInt8.ofNat ((cprmMkbPackLen + 2) >>> 8), UInt8.ofNat (cprmMkbPackLen + 2), 0x00, totalPacks]
  have hread : readU16Be (header ++ pack) "CPRM MKB pack response header" = .ok 0x6002 := rfl
  have hbyte : (Outcome.index (header ++ pack) 3 : Result UInt8) = .ok totalPacks := rfl
  have hsize : (header ++ pack).length = 4 + cprmMkbPackLen := by
    rw [List.length_append, hpack]
    rfl
  have hbody : (Outcome.slice (header ++ pack) 4 (4 + cprmMkbPackLen) : Result (List UInt8)) =
      .ok pack := by
    rw [Outcome.slice_of_le (Nat.le_add_right _ _) hsize.ge, Nat.add_sub_cancel_left]
    exact congrArg Outcome.ok (List.take_of_length_le hpack.le)
  have hlength : (0x6002 : UInt16).toNat - 2 = cprmMkbPackLen := rfl
  have hkind : ¬(cprmMkbPackLen ≠ 0 ∧ cprmMkbPackLen ≠ cprmMkbPackLen) := fun h => h.2 rfl
  have hmin : ¬(0x6002 : UInt16).toNat < 2 := by decide
  change parseCprmMkbPackResponse (header ++ pack) = _
  rw [parseCprmMkbPackResponse, hread, Outcome.bind_ok]
  simp only [hlength]
  rw [Outcome.refuseIf_neg hmin, Outcome.bind_ok, Outcome.refuseIf_neg hkind, Outcome.bind_ok,
    Outcome.refuseIf_neg hsize.not_lt, Outcome.bind_ok, hbyte, Outcome.bind_ok, hbody,
    Outcome.bind_ok]
  rfl

namespace MockDrive

variable {aes : Aes128} {s : MockDrive}

/-- How many packs the media key block takes. -/
def cprmPackCount (s : MockDrive) : Nat := Packs.count cprmMkbPackLen s.cprmMediaKeyBlock.length

/-- Pack `i` as it is stored. -/
def cprmPack (s : MockDrive) (i : Nat) : List UInt8 :=
  Packs.pack cprmMkbPackLen 0 s.cprmMediaKeyBlock i

/-- Pack `i` as it is sent: the first one goes under the bus key. -/
def sentCprmPack (aes : Aes128) (s : MockDrive) (i : Nat) : Result (List UInt8) :=
  if i = 0 then
    underBusKey s (fun bk pack => (Aes.cmac aes bk s.cprmMkbHash.toList).toList ++ pack.drop 16)
      "READ_DISC_STRUCTURE Format 0x86 pack 0 without Bus Key" (s.cprmPack i)
  else .ok (s.cprmPack i)

/-- The command reads the CPRM media key block at that address. -/
def ReadsCprm (c : Command) (address : UInt32) : Prop :=
  Reads c formatAacsCprmMediaKeyBlock ∧
    u32FromBe (c.cdb.get 2) (c.cdb.get 3) (c.cdb.get 4) (c.cdb.get 5) = address

theorem readsCprm_command (agid : UInt8) (packNumber : UInt32) :
    ReadsCprm (readDiscStructureCommand (.aacsCprmMediaKeyBlockPack agid packNumber)) packNumber :=
  ⟨⟨rfl, rfl⟩, u32FromBe_toBe packNumber⟩

theorem execute_readsCprm {c : Command} {address : UInt32} (h : ReadsCprm c address) :
    execute aes c s = (do
      let out ← Proc.lift (s.cprmPackResponse aes address)
      pure (.good out) : Proc MockDrive AacsError ScsiResponse) s := by
  obtain ⟨rds, hparse, hformat, haddress⟩ := ReadDiscStructure.parseCdb_of_opcode h.1.1
  have hvolumeId : formatAacsCprmMediaKeyBlock ≠ formatAacsVolumeId := by decide
  have hserial : formatAacsCprmMediaKeyBlock ≠ formatAacsMediaSerial := by decide
  have hmediaId : formatAacsCprmMediaKeyBlock ≠ formatAacsMediaId := by decide
  have hkeys : formatAacsCprmMediaKeyBlock ≠ formatAacsDataKeys := by decide
  have hextents : formatAacsCprmMediaKeyBlock ≠ formatAacsBusEncryptionSectorExtents := by decide
  rw [execute_of_reads h.1, executeReadDiscStructure, hparse, Proc.lift_ok_bind,
    Proc.get_bind, hformat, h.1.2, haddress, h.2, if_neg hvolumeId, if_neg hserial, if_neg hmediaId,
    if_neg hkeys, if_neg hextents, if_pos rfl]

section Response

variable (hcount : s.cprmPackCount ≤ 255)
include hcount

theorem cprmPackResponse_header :
    s.cprmPackResponse aes cprmMkbHeaderOnlyAddress = .ok
      [0x00, 0x02, 0x00, UInt8.ofNat s.cprmPackCount] := by
  have hpacks : ¬(s.cprmMediaKeyBlock.length + (cprmMkbPackLen - 1)) / cprmMkbPackLen > 255 :=
    not_lt.mpr hcount
  rw [cprmPackResponse, Outcome.refuseIf_neg hpacks, Outcome.bind_ok, if_pos rfl]
  rfl

theorem cprmPackResponse_beyond {address : UInt32} (haddress : address ≠ cprmMkbHeaderOnlyAddress)
    (h : s.cprmPackCount ≤ address.toNat) : ∃ e, s.cprmPackResponse aes address = .err e := by
  have hpacks : ¬(s.cprmMediaKeyBlock.length + (cprmMkbPackLen - 1)) / cprmMkbPackLen > 255 :=
    not_lt.mpr hcount
  have hbeyond : address.toNat ≥ (s.cprmMediaKeyBlock.length + (cprmMkbPackLen - 1)) /
    cprmMkbPackLen := h
  rw [cprmPackResponse, Outcome.refuseIf_neg hpacks, Outcome.bind_ok, if_neg haddress]
  dsimp only
  rw [Outcome.refuseIf_pos hbeyond]
  exact ⟨_, rfl⟩

theorem cprmPackResponse_pack {address : UInt32} (h : address.toNat < s.cprmPackCount) :
    s.cprmPackResponse aes address = (do
      let pack ← s.sentCprmPack aes address.toNat
      pure ([UInt8.ofNat ((cprmMkbPackLen + 2) >>> 8), UInt8.ofNat (cprmMkbPackLen + 2), 0x00,
        UInt8.ofNat s.cprmPackCount] ++ pack)) := by
  have haddress : address ≠ cprmMkbHeaderOnlyAddress := by
    rintro rfl
    exact absurd (lt_of_lt_of_le h hcount) (by decide)
  have hpacks : ¬(s.cprmMediaKeyBlock.length + (cprmMkbPackLen - 1)) / cprmMkbPackLen > 255 :=
    not_lt.mpr hcount
  have hindex : ¬address.toNat ≥ (s.cprmMediaKeyBlock.length + (cprmMkbPackLen - 1)) /
      cprmMkbPackLen :=
    not_le.mpr h
  have hbegin : address.toNat * cprmMkbPackLen < s.cprmMediaKeyBlock.length :=
    (Packs.lt_count_iff (by decide)).mp h
  generalize hstart : address.toNat * cprmMkbPackLen = start at hbegin
  have hwidth : min (start + cprmMkbPackLen) s.cprmMediaKeyBlock.length - start =
      min cprmMkbPackLen (s.cprmMediaKeyBlock.length - start) := by omega
  have hbody : (Outcome.slice s.cprmMediaKeyBlock start
      (min (start + cprmMkbPackLen) s.cprmMediaKeyBlock.length) : Result (List UInt8)) =
      .ok ((s.cprmMediaKeyBlock.drop start).take cprmMkbPackLen) := by
    rw [Outcome.slice_of_le (by omega) (Nat.min_le_right _ _), hwidth, ← List.length_drop,
      ← List.take_eq_take_min]
  have hfill : cprmMkbPackLen - (min (start + cprmMkbPackLen) s.cprmMediaKeyBlock.length - start) =
      cprmMkbPackLen - (s.cprmMediaKeyBlock.length - start) := by omega
  have hpack : (s.cprmMediaKeyBlock.drop start).take cprmMkbPackLen ++
      List.replicate (cprmMkbPackLen - (s.cprmMediaKeyBlock.length - start)) 0 =
        s.cprmPack address.toNat := by
    rw [cprmPack, Packs.pack, hstart]
  rw [cprmPackResponse, Outcome.refuseIf_neg hpacks, Outcome.bind_ok, if_neg haddress]
  dsimp only
  rw [Outcome.refuseIf_neg hindex, Outcome.bind_ok, hstart, hbody, Outcome.bind_ok, hfill, hpack,
    sentCprmPack]
  by_cases hfirst : address.toNat = 0
  · rw [if_pos hfirst, if_pos hfirst]
    rfl
  · rw [if_neg hfirst, if_neg hfirst]
    rfl

end Response

theorem length_cprmPack (s : MockDrive) (i : Nat) : (s.cprmPack i).length = cprmMkbPackLen :=
  Packs.length_pack _ _ _ _

theorem execute_header (hcount : s.cprmPackCount ≤ 255) {c : Command}
    (h : ReadsCprm c cprmMkbHeaderOnlyAddress) :
    execute aes c s = (.ok (.good [0x00, 0x02, 0x00, UInt8.ofNat s.cprmPackCount]), s) := by
  rw [execute_readsCprm h, cprmPackResponse_header hcount]
  rfl

theorem execute_beyond (hcount : s.cprmPackCount ≤ 255) {c : Command} {address : UInt32}
    (h : ReadsCprm c address) (haddress : address ≠ cprmMkbHeaderOnlyAddress)
    (hbeyond : s.cprmPackCount ≤ address.toNat) : ∃ e, execute aes c s = (.err e, s) := by
  have hrefused : ∃ e, s.cprmPackResponse aes address = .err e :=
    cprmPackResponse_beyond hcount haddress hbeyond
  obtain ⟨e, he⟩ := hrefused
  refine ⟨e, ?_⟩
  rw [execute_readsCprm h, he]
  rfl

theorem execute_refusedPack (hcount : s.cprmPackCount ≤ 255) {c : Command} {address : UInt32}
    {e : AacsError} (h : ReadsCprm c address) (hlt : address.toNat < s.cprmPackCount)
    (hsent : s.sentCprmPack aes address.toNat = .err e) : execute aes c s = (.err e, s) := by
  rw [execute_readsCprm h, cprmPackResponse_pack hcount hlt, hsent]
  rfl

/-- A pack that is sent is what the response parses to. -/
theorem execute_sentPack (hcount : s.cprmPackCount ≤ 255) {c : Command} {address : UInt32}
    {pack : List UInt8} (h : ReadsCprm c address) (hlt : address.toNat < s.cprmPackCount)
    (hsent : s.sentCprmPack aes address.toNat = .ok pack) (hpack : pack.length = cprmMkbPackLen) :
    ∃ r, execute aes c s = (.ok r, s) ∧
      parseCprmMkbPackResponse r.data = .ok ⟨UInt8.ofNat s.cprmPackCount, pack⟩ := by
  refine ⟨.good _, ?_, parseCprmMkbPackResponse_pack _ hpack⟩
  rw [execute_readsCprm h, cprmPackResponse_pack hcount hlt, hsent]
  rfl

/-- Read one pack. -/
def readCprmPack (aes : Aes128) (c : Command) : Proc MockDrive AacsError (List UInt8) := do
  let r ← execute aes c
  let pack ← Proc.lift (parseCprmMkbPackResponse r.data)
  pure pack.packData

/-- Read one pack after another and put them together. -/
def readCprmPacks (aes : Aes128) : List Command → Proc MockDrive AacsError (List UInt8)
  | [] => pure []
  | c :: cs => do
    let pack ← readCprmPack aes c
    let rest ← readCprmPacks aes cs
    pure (pack ++ rest)

/-- The commands address the packs from `first` on, one after another. -/
def ReadsPacksFrom (first : Nat) (cs : List Command) : Prop :=
  ∀ i c, cs[i]? = some c → ReadsCprm c (UInt32.ofNat (first + i))

theorem ReadsPacksFrom.tail {first : Nat} {c : Command} {cs : List Command}
    (h : ReadsPacksFrom first (c :: cs)) : ReadsPacksFrom (first + 1) cs := by
  intro i d hd
  have hread := h (i + 1) d hd
  rw [Nat.add_assoc, Nat.add_comm 1 i]
  exact hread

/-- The commands that read the first `n` packs. -/
def cprmCommands (agid : UInt8) (n : Nat) : List Command :=
  (List.range n).map fun i => readDiscStructureCommand
    (.aacsCprmMediaKeyBlockPack agid (UInt32.ofNat i))

theorem readsPacks_cprmCommands (agid : UInt8) (n : Nat) :
    ReadsPacksFrom 0 (cprmCommands agid n) := by
  intro i c hc
  rw [cprmCommands, List.getElem?_map, Option.map_eq_some_iff] at hc
  obtain ⟨j, hj, rfl⟩ := hc
  obtain ⟨hi, hget⟩ := List.getElem?_eq_some_iff.mp hj
  rw [List.getElem_range] at hget
  subst hget
  rw [Nat.zero_add]
  exact readsCprm_command agid _

theorem readCprmPacks_from (hcount : s.cprmPackCount ≤ 255) {packs : Nat → List UInt8}
    (hpacks : ∀ i < s.cprmPackCount, s.sentCprmPack aes i = .ok (packs i) ∧ (packs i).length =
      cprmMkbPackLen)
    {cs : List Command} {first : Nat} (hcs : ReadsPacksFrom first cs)
    (hend : first + cs.length ≤ s.cprmPackCount) :
    readCprmPacks aes cs s = (.ok ((List.range' first cs.length).flatMap packs), s) := by
  induction cs generalizing first with
  | nil => rfl
  | cons c cs ih =>
    rw [List.length_cons] at hend
    have hread := hcs 0 c rfl
    have hindex : (UInt32.ofNat (first + 0)).toNat = first := by
      rw [UInt32.toNat_ofNat', Nat.add_zero]
      exact Nat.mod_eq_of_lt (by omega)
    have hlt : (UInt32.ofNat (first + 0)).toNat < s.cprmPackCount := by omega
    obtain ⟨hsent, hpack⟩ := hpacks _ hlt
    obtain ⟨r, hr, hparse⟩ := execute_sentPack hcount hread hlt hsent hpack
    have hone : readCprmPack aes c s = (.ok (packs first), s) := by
      rw [readCprmPack, Proc.bind_of_ok hr, hparse, hindex]
      rfl
    have hrest := ih hcs.tail (by omega)
    rw [readCprmPacks, Proc.bind_of_ok hone, Proc.bind_of_ok hrest, List.length_cons,
      List.range'_succ, List.flatMap_cons]
    rfl

/-- The block and the zeros that fill up its last pack. -/
def paddedCprmMkb (s : MockDrive) : List UInt8 :=
  s.cprmMediaKeyBlock ++ List.replicate
    (s.cprmPackCount * cprmMkbPackLen - s.cprmMediaKeyBlock.length) 0

theorem flatMap_cprmPack (s : MockDrive) :
    (List.range' 0 s.cprmPackCount).flatMap s.cprmPack = s.paddedCprmMkb := by
  rw [← List.range_eq_range']
  exact Packs.flatMap_pack_count (by decide) 0 s.cprmMediaKeyBlock

/-- Replacing the start of the first pack replaces the start of the block. -/
theorem flatMap_replaced {packs : Nat → List UInt8} {start : List UInt8} {k : Nat} (hk : 0 < k)
    (hfirst : packs 0 = start ++ (s.cprmPack 0).drop 16)
    (hother : ∀ i, i ≠ 0 → packs i = s.cprmPack i) :
    (List.range' 0 k).flatMap packs = start ++ ((List.range' 0 k).flatMap s.cprmPack).drop 16 := by
  obtain ⟨k, rfl⟩ := Nat.exists_eq_succ_of_ne_zero hk.ne'
  have hrest : (List.range' 1 k).flatMap packs = (List.range' 1 k).flatMap s.cprmPack := by
    apply List.flatMap_congr
    intro i hi
    apply hother
    have := List.mem_range'_1.mp hi
    omega
  have hlength : 16 ≤ (s.cprmPack 0).length := by
    rw [length_cprmPack]
    decide
  rw [List.range'_succ, List.flatMap_cons, List.flatMap_cons, hrest, hfirst,
    List.drop_append_of_le_length hlength, List.append_assoc]

theorem sentCprmPack_static (hauth : s.auth = none) (i : Nat) :
    s.sentCprmPack aes i = .ok (s.cprmPack i) := by
  rw [sentCprmPack, underBusKey, hauth]
  by_cases hi : i = 0
  · rw [if_pos hi]
  · rw [if_neg hi]

theorem sentCprmPack_other {i : Nat} (hi : i ≠ 0) :
    s.sentCprmPack aes i = .ok (s.cprmPack i) := if_neg hi

theorem sentCprmPack_first {bk : Bytes 16} (hbk : s.busKey = some bk) :
    s.sentCprmPack aes 0 = .ok
      ((Aes.cmac aes bk s.cprmMkbHash.toList).toList ++ (s.cprmPack 0).drop 16) := by
  obtain ⟨a, ha, hkey⟩ := Option.bind_eq_some_iff.mp hbk
  rw [sentCprmPack, if_pos rfl, underBusKey, ha]
  simp only [hkey]

theorem sentCprmPack_refused (hauth : s.auth.isSome = true) (hbk : s.busKey = none) :
    ∃ e, s.sentCprmPack aes 0 = .err e := by
  obtain ⟨a, ha⟩ := Option.isSome_iff_exists.mp hauth
  have hkey : a.busKey = none := (busKey_of_auth ha).symm.trans hbk
  rw [sentCprmPack, if_pos rfl, underBusKey, ha]
  simp only [hkey]
  exact ⟨_, rfl⟩

section Block

variable (hcount : s.cprmPackCount ≤ 255) {cs : List Command} (hcs : ReadsPacksFrom 0 cs)
  (hlength : cs.length = s.cprmPackCount)
include hcount hcs hlength

/-- In static mode the packs are the block and zeros. -/
theorem readCprmPacks_static (hauth : s.auth = none) :
    readCprmPacks aes cs s = (.ok s.paddedCprmMkb, s) := by
  have hpacks : ∀ i < s.cprmPackCount,
      s.sentCprmPack aes i = .ok (s.cprmPack i) ∧ (s.cprmPack i).length = cprmMkbPackLen := by
    intro i _
    exact ⟨sentCprmPack_static hauth i, length_cprmPack s i⟩
  rw [readCprmPacks_from hcount hpacks hcs (by omega), hlength, flatMap_cprmPack]

/-- Under a bus key the first sixteen bytes are the MAC of the block's hash. -/
theorem readCprmPacks_busKey {bk : Bytes 16} (hbk : s.busKey = some bk)
    (hnonempty : s.cprmMediaKeyBlock ≠ []) :
    readCprmPacks aes cs s =
      (.ok ((Aes.cmac aes bk s.cprmMkbHash.toList).toList ++ s.paddedCprmMkb.drop 16), s) := by
  let first := (Aes.cmac aes bk s.cprmMkbHash.toList).toList ++ (s.cprmPack 0).drop 16
  have hfirst : first.length = cprmMkbPackLen := by
    rw [List.length_append, List.length_drop, length_cprmPack, Bytes.length_toList]
    rfl
  have hpacks : ∀ i < s.cprmPackCount,
      s.sentCprmPack aes i = .ok (if i = 0 then first else s.cprmPack i) ∧
        (if i = 0 then first else s.cprmPack i).length = cprmMkbPackLen := by
    intro i _
    by_cases hi : i = 0
    · rw [if_pos hi, hi]
      exact ⟨sentCprmPack_first hbk, hfirst⟩
    · rw [if_neg hi]
      exact ⟨sentCprmPack_other hi, length_cprmPack s i⟩
  have hpos : 0 < s.cprmPackCount := by
    rw [cprmPackCount, Packs.lt_count_iff (by decide), Nat.zero_mul]
    exact List.length_pos_iff.mpr hnonempty
  rw [readCprmPacks_from hcount hpacks hcs (by omega), hlength,
    flatMap_replaced hpos (if_pos rfl) (fun i hi => if_neg hi), flatMap_cprmPack]

end Block

/-- The header-only query gives the number of packs. Reading that many packs gives the block and
zeros in static mode, and under a bus key the same behind the MAC of the hash. A drive that
authenticates and has no bus key refuses the first pack only. Any other address is refused. -/
theorem cprmPacks_reassemble (aes : Aes128) (s : MockDrive)
    (hlen : s.cprmMediaKeyBlock.length ≤ 255 * cprmMkbPackLen) :
    (∀ c, ReadsCprm c cprmMkbHeaderOnlyAddress → ∃ r pack, execute aes c s = (.ok r, s) ∧
      parseCprmMkbPackResponse r.data = .ok pack ∧ pack.totalPacks.toNat = s.cprmPackCount ∧
      pack.packData = []) ∧
    (∀ cs, ReadsPacksFrom 0 cs → cs.length = s.cprmPackCount →
      (s.auth = none → readCprmPacks aes cs s = (.ok s.paddedCprmMkb, s)) ∧
      (∀ bk, s.busKey = some bk → s.cprmMediaKeyBlock ≠ [] → readCprmPacks aes cs s =
        (.ok ((Aes.cmac aes bk s.cprmMkbHash.toList).toList ++ s.paddedCprmMkb.drop 16), s))) ∧
    (s.auth.isSome = true → s.busKey = none → ∀ c address, ReadsCprm c address →
      (address = 0 → ∃ e, execute aes c s = (.err e, s)) ∧
      (address ≠ 0 → address.toNat < s.cprmPackCount → ∃ r, execute aes c s = (.ok r, s) ∧
        parseCprmMkbPackResponse r.data =
          .ok ⟨UInt8.ofNat s.cprmPackCount, s.cprmPack address.toNat⟩)) ∧
    (∀ c address, ReadsCprm c address → address ≠ cprmMkbHeaderOnlyAddress →
      s.cprmPackCount ≤ address.toNat → ∃ e, execute aes c s = (.err e, s)) := by
  have hcount : s.cprmPackCount ≤ 255 := Packs.count_le (by decide) hlen
  refine ⟨?_, ?_, ?_, ?_⟩
  · intro c hread
    refine ⟨_, _, execute_header hcount hread, parseCprmMkbPackResponse_header _, ?_, rfl⟩
    exact UInt8.toNat_ofNat_of_lt' (lt_of_le_of_lt hcount (by decide))
  · intro cs hcs hlength
    constructor
    · exact readCprmPacks_static hcount hcs hlength
    · intro bk hbk hnonempty
      exact readCprmPacks_busKey hcount hcs hlength hbk hnonempty
  · intro hauth hbk c address hread
    constructor
    · rintro rfl
      by_cases hlt : 0 < s.cprmPackCount
      · have hrefused : ∃ e, s.sentCprmPack aes 0 = .err e := sentCprmPack_refused hauth hbk
        obtain ⟨e, he⟩ := hrefused
        exact ⟨e, execute_refusedPack hcount hread hlt he⟩
      · exact execute_beyond hcount hread (by decide) (not_lt.mp hlt)
    · intro haddress hlt
      have hindex : address.toNat ≠ 0 := fun h => haddress (UInt32.toNat_inj.mp h)
      exact execute_sentPack hcount hread hlt (sentCprmPack_other hindex) (length_cprmPack s _)
  · intro c address hread haddress hbeyond
    exact execute_beyond hcount hread haddress hbeyond

/-- Two full packs and one that holds three bytes. -/
def threePacks : MockDrive :=
  { default with cprmMediaKeyBlock := List.replicate (2 * cprmMkbPackLen) 0xA5 ++ [1, 2, 3] }

/-- The drive with a bus key. -/
def threePacksKeyed : MockDrive :=
  { threePacks with
    auth := some
      { DriveAuthState.new (Bytes.zero 92) U160.one U160.one (Bytes.zero 20) Point.generator with
        busKey := some (Bytes.zero 16) } }

theorem length_threePacks : threePacks.cprmMediaKeyBlock.length = 2 * cprmMkbPackLen + 3 := by
  rw [threePacks, List.length_append, List.length_replicate]
  rfl

theorem cprmPackCount_threePacks : threePacks.cprmPackCount = 3 := by
  rw [cprmPackCount, length_threePacks]
  rfl

theorem cprmPacks_reassemble_threePacks :
    readCprmPacks Aes128.fips197 (cprmCommands 0 3) threePacks =
      (.ok threePacks.paddedCprmMkb, threePacks) ∧
    readCprmPacks Aes128.fips197 (cprmCommands 0 3) threePacksKeyed =
      (.ok ((Aes.cmac Aes128.fips197 (Bytes.zero 16) threePacksKeyed.cprmMkbHash.toList).toList ++
        threePacksKeyed.paddedCprmMkb.drop 16), threePacksKeyed) := by
  have hlen : threePacks.cprmMediaKeyBlock.length ≤ 255 * cprmMkbPackLen := by
    rw [length_threePacks]
    decide
  have hnonempty : threePacks.cprmMediaKeyBlock ≠ [] := by
    rw [← List.length_pos_iff, length_threePacks]
    decide
  have hcount : (cprmCommands 0 3).length = threePacks.cprmPackCount := by
    rw [cprmPackCount_threePacks]
    rfl
  constructor
  · exact ((cprmPacks_reassemble Aes128.fips197 threePacks hlen).2.1 _ (readsPacks_cprmCommands 0 3)
      hcount).1 rfl
  · exact ((cprmPacks_reassemble Aes128.fips197 threePacksKeyed hlen).2.1 _
      (readsPacks_cprmCommands 0 3) hcount).2
      _ rfl hnonempty

end MockDrive

end Ake
