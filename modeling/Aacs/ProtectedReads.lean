import Aacs.DriveSession

/-!
# What a bus key protects

The identifiers and nonces that a drive gives out under a MAC, and its data keys. Once host and
drive have a bus key, what the host reads is the drive's, whatever else is sent meanwhile.
-/
namespace Ake

open Mmc Ecdsa Prog

namespace MockDrive

/-- A part of the drive that no command writes. -/
structure Fixed {α : Type} (view : MockDrive → α) : Prop where
  kept : ∀ t : MockDrive, view t.kept.1 = view t
  writeDataKey : ∀ (t : MockDrive) (kwd : Bytes 16) (sent : Option (Bytes 16)),
    view { t with writeDataKey := kwd, lastWriteDataKeySent := sent } = view t
  extents : ∀ (t : MockDrive) (es : List BusEncryptionSectorExtent),
    view { t with busEncryptionSectorExtents := es } = view t

variable {aes : Aes128} {α : Type} {view : MockDrive → α}

theorem Fixed.of_kept (h : Fixed view) {s s' : MockDrive} (hkept : s'.kept = s.kept) :
    view s' = view s := by
  rw [← h.kept s', hkept, h.kept]

theorem Fixed.execute (h : Fixed view) (c : Command) (s : MockDrive) :
    view (execute aes c s).2 = view s := by
  rcases execute_cases aes c s with ⟨-, -, wireKwd, kwdPlain, -, -, hs⟩ | ⟨-, -, extents, -, -, -,
    hs⟩ | ⟨-, hkept⟩
  · rw [hs, h.writeDataKey]
  · rw [hs, h.extents]
  · exact h.of_kept hkept

theorem Fixed.after (h : Fixed view) (s : MockDrive) (cs : List Command) :
    view (after aes s cs) = view s := by
  induction cs generalizing s with
  | nil => rfl
  | cons c cs ih => rw [after_cons, ih, h.execute]

theorem fixed_readDataKey : Fixed MockDrive.readDataKey :=
  ⟨fun _ => rfl, fun _ _ _ => rfl, fun _ _ => rfl⟩

end MockDrive

/-- A read whose answer carries a MAC under the bus key. -/
inductive ProtectedRead where
  | volumeId
  | mediaSerial
  | mediaId
  | bindingNonceGen (startingLba : UInt32) (blockCount : UInt8)
  | bindingNonceRead (startingLba : UInt32) (blockCount : UInt8)

namespace ProtectedRead

open MockDrive

def command (agid : UInt8) : ProtectedRead → Command
  | volumeId => readDiscStructureCommand (.aacsVolumeId agid)
  | mediaSerial => readDiscStructureCommand (.aacsMediaSerial agid)
  | mediaId => readDiscStructureCommand (.aacsMediaId agid)
  | bindingNonceGen lba n => reportKeyCommand (.aacsBindingNonceGen agid lba n)
  | bindingNonceRead lba n => reportKeyCommand (.aacsBindingNonceRead agid lba n)

/-- The host's parser of the answer. -/
def parse : ProtectedRead → List UInt8 → Result (Bytes 16 × Bytes 16)
  | volumeId => parseVolumeIdResponse
  | mediaSerial => parseMediaSerialResponse
  | mediaId => parseMediaIdResponse
  | bindingNonceGen _ _ => parseReportKeyBindingNonce
  | bindingNonceRead _ _ => parseReportKeyBindingNonce

def value : ProtectedRead → MockDrive → Bytes 16
  | volumeId => MockDrive.volumeId
  | mediaSerial => MockDrive.mediaSerialNumber
  | mediaId => MockDrive.mediaIdentifier
  | bindingNonceGen _ _ => MockDrive.bindingNonce
  | bindingNonceRead _ _ => MockDrive.bindingNonce

/-- The MAC that a drive without an authentication state has stored. -/
def storedMac : ProtectedRead → MockDrive → Bytes 16
  | volumeId => MockDrive.volumeIdMac
  | mediaSerial => MockDrive.mediaSerialMac
  | mediaId => MockDrive.mediaIdMac
  | bindingNonceGen _ _ => MockDrive.bindingNonceMac
  | bindingNonceRead _ _ => MockDrive.bindingNonceMac

theorem parse_framed (p : ProtectedRead) (value mac : Bytes 16) :
    p.parse (framed 0x0022 value.toList mac.toList) = .ok (value, mac) := by
  cases p <;> exact parseFields_framed _ _ _ _

variable {aes : Aes128} {s : MockDrive}

theorem executeReportKey_bindingNonce {rk : ReportKey} (hclass : rk.keyClass = keyClassAacs)
    (hformat : rk.keyFormat &&& 0x3F = kfReportAacsBindingNonceGen ∨
      rk.keyFormat &&& 0x3F = kfReportAacsBindingNonceRead) :
    (executeReportKey aes rk.cdb s).1 =
      .ok (.good
        (framed 0x0022 s.bindingNonce.toList
          (s.macOr aes s.bindingNonce s.bindingNonceMac).toList)) := by
  have hother {f : UInt8} (hgen : kfReportAacsBindingNonceGen ≠ f)
    (hread : kfReportAacsBindingNonceRead ≠ f) :
      ¬rk.keyFormat &&& 0x3F = f := by
    rcases hformat with h | h
    · rw [h]
      exact hgen
    · rw [h]
      exact hread
  have hagid : ¬rk.keyFormat &&& 0x3F = kfReportAacsAgid := hother (by decide) (by decide)
  have hchal : ¬rk.keyFormat &&& 0x3F = kfReportAacsDriveCertChal := hother (by decide) (by decide)
  have hkey : ¬rk.keyFormat &&& 0x3F = kfReportAacsDriveKey := hother (by decide) (by decide)
  have hcert : ¬rk.keyFormat &&& 0x3F = kfReportAacsDriveCert := hother (by decide) (by decide)
  rw [executeReportKey, ReportKey.parseCdb_cdb, Proc.lift_ok_bind,
    Outcome.refuseIf_neg (not_not_intro hclass), Proc.lift_ok_bind, Proc.get_bind, if_neg hagid,
    if_neg hchal, if_neg hkey, if_neg hcert, if_pos hformat]
  rfl

/-- Every drive answers such a read, in every state. -/
theorem execute_command (p : ProtectedRead) (agid : UInt8) : (execute aes (p.command agid) s).1 =
    .ok (.good (framed 0x0022 (p.value s).toList (s.macOr aes (p.value s) (p.storedMac s)).toList))
      := by
  have hread (rds : ReadDiscStructure) :
      execute aes (readDiscStructureCommand rds) s = executeReadDiscStructure aes rds.cdb s := rfl
  have hreport (rk : ReportKey) : execute aes (reportKeyCommand rk) s =
    executeReportKey aes rk.cdb s := rfl
  cases p with
  | volumeId =>
    obtain ⟨rds, hparse, hformat, -⟩ := ReadDiscStructure.parseCdb_cdb (.aacsVolumeId agid)
    have hkind : rds.format = formatAacsVolumeId := hformat
    rw [command, hread, executeReadDiscStructure, hparse, Proc.lift_ok_bind, Proc.get_bind,
      hkind, if_pos rfl]
    rfl
  | mediaSerial =>
    obtain ⟨rds, hparse, hformat, -⟩ := ReadDiscStructure.parseCdb_cdb (.aacsMediaSerial agid)
    have hkind : rds.format = formatAacsMediaSerial := hformat
    rw [command, hread, executeReadDiscStructure, hparse, Proc.lift_ok_bind, Proc.get_bind, hkind]
    rfl
  | mediaId =>
    obtain ⟨rds, hparse, hformat, -⟩ := ReadDiscStructure.parseCdb_cdb (.aacsMediaId agid)
    have hkind : rds.format = formatAacsMediaId := hformat
    rw [command, hread, executeReadDiscStructure, hparse, Proc.lift_ok_bind, Proc.get_bind, hkind]
    rfl
  | bindingNonceGen lba n =>
    have hformat : kfReportAacsBindingNonceGen &&& 0x3F = kfReportAacsBindingNonceGen := by decide
    rw [command, hreport]
    exact executeReportKey_bindingNonce rfl (.inl hformat)
  | bindingNonceRead lba n =>
    have hformat : kfReportAacsBindingNonceRead &&& 0x3F = kfReportAacsBindingNonceRead := by decide
    rw [command, hreport]
    exact executeReportKey_bindingNonce rfl (.inr hformat)

theorem fixed_value (p : ProtectedRead) : Fixed p.value := by
  constructor
  · intro t
    cases p <;> rfl
  · intro t k w
    cases p <;> rfl
  · intro t es
    cases p <;> rfl

/-- Under a bus key the answer is the value with its CMAC. -/
theorem execute_of_busKey (p : ProtectedRead) (agid : UInt8) {bk : Bytes 16}
    (hbk : s.busKey = some bk) :
    ∃ r, (execute aes (p.command agid) s).1 = .ok r ∧
      p.parse r.data = .ok (p.value s, Aes.cmac aes bk (p.value s).toList) := by
  refine ⟨_, p.execute_command agid, ?_⟩
  have hmac : s.macOr aes (p.value s) (p.storedMac s) = Aes.cmac aes bk (p.value s).toList := by
    rw [macOr, hbk]
  rw [hmac]
  exact p.parse_framed _ _

end ProtectedRead

namespace MockDrive

variable {aes : Aes128} {s : MockDrive}

/-- A host with any key: its read passes exactly when its CMAC is that of the drive. -/
theorem readVerifiedVolumeId_iff {bk : Bytes 16} (hbk : s.busKey = some bk) (k : Bytes 16)
    (agid : UInt8) (v : Bytes 16) :
    (run (device aes) (readVerifiedVolumeId aes k agid) s).1.1 = .ok v ↔
      v = s.volumeId ∧ Aes.cmac aes k s.volumeId.toList = Aes.cmac aes bk s.volumeId.toList := by
  have hparse : parseVolumeIdResponse (framed 0x0022 s.volumeId.toList
      (Aes.cmac aes bk s.volumeId.toList).toList) = .ok (s.volumeId,
      Aes.cmac aes bk s.volumeId.toList) :=
    parseFields_framed _ _ _ _
  have hread : (run (device aes) (readVerifiedVolumeId aes k agid) s).1 =
      (run (device aes) (lift (Outcome.refuseIf
        (Aes.cmac aes k s.volumeId.toList ≠ Aes.cmac aes bk s.volumeId.toList)
          .volumeIdMacInvalid) >>= fun _ => pure s.volumeId) s).1 := by
    apply (run_drive (execute_volumeId hbk)).trans
    apply (run_check hparse).trans
    rfl
  rw [hread]
  by_cases hmac : Aes.cmac aes k s.volumeId.toList = Aes.cmac aes bk s.volumeId.toList
  · have hdone : (run (device aes) (pure s.volumeId : Host (Bytes 16)) s).1.1 = .ok s.volumeId :=
      rfl
    rw [Outcome.refuseIf_neg (not_not_intro hmac), run_lift_bind, hdone, Outcome.ok.injEq,
      and_iff_left hmac]
    exact eq_comm
  · have hrefused : (run (device aes)
        ((lift (.err .volumeIdMacInvalid) : Host Unit) >>= fun _ => pure s.volumeId) s).1.1 =
          .err .volumeIdMacInvalid := rfl
    rw [Outcome.refuseIf_pos hmac, hrefused]
    apply iff_of_false
    · rintro ⟨⟩
    · exact fun h => hmac h.2

/-- What a host with this bus key gets: every protected read gives it the value that `drive` has,
with a MAC that holds under its key, the data keys open under it (the write data key is the one
sent last), and a key passes for it only by its CMAC. -/
structure Protects (aes : Aes128) (drive : MockDrive) (bk : Bytes 16) (agid : UInt8)
    (s : MockDrive) : Prop where
  reads : ∀ p : ProtectedRead, ∃ r, (execute aes (p.command agid) s).1 = .ok r ∧
    p.parse r.data = .ok (p.value drive, Aes.cmac aes bk (p.value drive).toList)
  dataKeys : ∃ r keys, (execute aes (readDiscStructureCommand (.aacsDataKeys agid)) s).1 = .ok r ∧
    parseDataKeysResponse r.data = .ok keys ∧ keys.decryptReadDataKey aes bk = drive.readDataKey ∧
    keys.decryptWriteDataKey aes bk = s.writeDataKey
  volumeId : ∀ k v, (run (device aes) (readVerifiedVolumeId aes k agid) s).1.1 = .ok v ↔
    v = drive.volumeId ∧ Aes.cmac aes k drive.volumeId.toList =
      Aes.cmac aes bk drive.volumeId.toList

theorem protects_of_busKey (haes : ∀ key data, aes.decrypt key (aes.encrypt key data) = data)
    {bk : Bytes 16} (hbk : s.busKey = some bk) {drive : MockDrive}
    (hdrive : ∀ {α : Type} {view : MockDrive → α}, Fixed view →
      view s = view drive) (agid : UInt8) : Protects aes drive bk agid s := by
  constructor
  · intro p
    rw [← hdrive p.fixed_value]
    exact p.execute_of_busKey agid hbk
  · rw [← hdrive fixed_readDataKey]
    exact execute_dataKeys_of_busKey haes hbk agid
  · intro k v
    have hvolumeId : s.volumeId = drive.volumeId := hdrive ProtectedRead.volumeId.fixed_value
    rw [readVerifiedVolumeId_iff hbk, hvolumeId]

theorem undisturbed_of_not_hostKey {cs : List Command} (h : ∀ c ∈ cs, ¬c.IsHostKey) :
    Undisturbed aes s cs := by
  rintro before c rest rfl hrekeys
  exact h c (List.mem_append_right before List.mem_cons_self) hrekeys.1

end MockDrive

end Ake
