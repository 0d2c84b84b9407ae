import Aacs.AesInverse
import Aacs.DriveAuth
import Aacs.MockDriveRuns

/-!
# Data keys under a changing bus key

The write data key goes in wrapped under one bus key and comes out wrapped under
another, with any number of handshakes between. What a host recovers is decided by
the history of accepted sends alone.
-/
namespace Mmc

structure DataKeysResponse where
  readDataKeyEncrypted : Bytes 16
  writeDataKeyEncrypted : Bytes 16

namespace DataKeysResponse

def decryptReadDataKey (aes : Aes128) (keys : DataKeysResponse) (busKey : Bytes 16) : Bytes 16 :=
  aes.decrypt busKey keys.readDataKeyEncrypted

def decryptWriteDataKey (aes : Aes128) (keys : DataKeysResponse) (busKey : Bytes 16) : Bytes 16 :=
  aes.decrypt busKey keys.writeDataKeyEncrypted

end DataKeysResponse

/-- `[length:u16 = 0x0022][reserved:u16][Krd_enc:16][Kwd_enc:16]`. -/
def parseDataKeysResponse (buf : List UInt8) : Result DataKeysResponse := do
  let fields ← parseFields "Data Keys response" 0x0022 16 16 buf
  pure { readDataKeyEncrypted := fields.1, writeDataKeyEncrypted := fields.2 }

theorem parseDataKeysResponse_framed (krd kwd : Bytes 16) :
    parseDataKeysResponse (framed 0x0022 krd.toList kwd.toList) = .ok ⟨krd, kwd⟩ := by
  rw [parseDataKeysResponse, parseFields_framed]
  rfl

end Mmc

namespace Ake.MockDrive

open Ec Mmc Ecdsa

variable {aes : Aes128} {s : MockDrive}

instance (c : Command) (format : UInt8) : Decidable (Sends c format) :=
  inferInstanceAs (Decidable (_ ∧ _))

/-- The plaintext that an accepted send carries: its wire value under the bus key held then. -/
def sentWriteDataKey (aes : Aes128) (s : MockDrive) (c : Command) : Option (Bytes 16) :=
  if Sends c formatAacsWriteDataKey then
    match (execute aes c s).1, parseSendDiscStructureWriteDataKey c.dataOut, s.busKey with
    | .ok _, .ok wireKwd, some bk => some (aes.decrypt bk wireKwd)
    | _, _, _ => none
  else none

/-- The plaintext of the last accepted send of a run, or `kwd` when there is none. -/
def lastWriteDataKey (aes : Aes128) : MockDrive → Bytes 16 → List Command → Bytes 16
  | _, kwd, [] => kwd
  | s, kwd, c :: cs =>
    lastWriteDataKey aes (execute aes c s).2 ((sentWriteDataKey aes s c).getD kwd) cs

theorem sentWriteDataKey_of_not_sends {c : Command} (h : ¬Sends c formatAacsWriteDataKey) :
    sentWriteDataKey aes s c = none := if_neg h

theorem sentWriteDataKey_of_not_accepts {c : Command} (h : ¬Accepts aes s c) :
    sentWriteDataKey aes s c = none := by
  rw [sentWriteDataKey]
  by_cases hsend : Sends c formatAacsWriteDataKey
  · rw [if_pos hsend]
    cases hr : (execute aes c s).1 with
    | ok r => exact absurd ⟨r, hr⟩ h
    | err e => rfl
    | panic => rfl
  · rw [if_neg hsend]

theorem sentWriteDataKey_of_accepts {c : Command} {wireKwd bk : Bytes 16}
    (hsend : Sends c formatAacsWriteDataKey) (haccept : Accepts aes s c)
    (hwire : parseSendDiscStructureWriteDataKey c.dataOut = .ok wireKwd)
    (hbk : s.busKey = some bk) :
    sentWriteDataKey aes s c = some (aes.decrypt bk wireKwd) := by
  obtain ⟨r, hr⟩ := haccept
  rw [sentWriteDataKey, if_pos hsend, hr, hwire, hbk]

/-- A drive that authenticates passes a value only under a bus key. -/
theorem underBusKey_eq_ok {α : Type} {wrap : Bytes 16 → α → α} {what : String} {value out : α}
    (hauth : s.auth.isSome = true) (h : underBusKey s wrap what value = .ok out) :
    ∃ bk, s.busKey = some bk ∧ out = wrap bk value := by
  obtain ⟨a, ha⟩ := Option.isSome_iff_exists.mp hauth
  rw [underBusKey, ha] at h
  cases hbk : a.busKey with
  | none =>
    simp only [hbk] at h
    cases h
  | some bk =>
    simp only [hbk] at h
    exact ⟨bk, (busKey_of_auth ha).trans hbk, (Outcome.ok.inj h).symm⟩

/-- A drive with a bus key hands out its data keys under it. -/
theorem execute_dataKeys_of_busKey
    (haes : ∀ key data, aes.decrypt key (aes.encrypt key data) = data)
    {bk : Bytes 16} (hbk : s.busKey = some bk) (agid : UInt8) :
    ∃ r keys, (execute aes (readDiscStructureCommand (.aacsDataKeys agid)) s).1 = .ok r ∧
      parseDataKeysResponse r.data = .ok keys ∧ keys.decryptReadDataKey aes bk = s.readDataKey ∧
      keys.decryptWriteDataKey aes bk = s.writeDataKey := by
  have hwrap : underBusKey s (fun bk keys => (aes.encrypt bk keys.1, aes.encrypt bk keys.2))
      "READ_DISC_STRUCTURE Format 0x84 without Bus Key" (s.readDataKey, s.writeDataKey) =
        .ok (aes.encrypt bk s.readDataKey, aes.encrypt bk s.writeDataKey) := by
    obtain ⟨a, ha, hkey⟩ := Option.bind_eq_some_iff.mp hbk
    rw [underBusKey, ha]
    simp only [hkey]
  have hexec : execute aes (readDiscStructureCommand (.aacsDataKeys agid)) s =
      executeReadDiscStructure aes (ReadDiscStructure.aacsDataKeys agid).cdb s := rfl
  obtain ⟨rds, hparse, hformat, -⟩ := ReadDiscStructure.parseCdb_cdb (.aacsDataKeys agid)
  have hkind : rds.format = formatAacsDataKeys := hformat
  have hvolumeId : formatAacsDataKeys ≠ formatAacsVolumeId := by decide
  have hserial : formatAacsDataKeys ≠ formatAacsMediaSerial := by decide
  have hmediaId : formatAacsDataKeys ≠ formatAacsMediaId := by decide
  refine ⟨.good (framed 0x0022 (aes.encrypt bk s.readDataKey).toList
    (aes.encrypt bk s.writeDataKey).toList), _, ?_,
    parseDataKeysResponse_framed _ _, haes _ _, haes _ _⟩
  rw [hexec, executeReadDiscStructure, hparse, Proc.lift_ok_bind, Proc.get_bind, hkind,
    if_neg hvolumeId, if_neg hserial, if_neg hmediaId, if_pos rfl, hwrap]
  rfl

/-- The drive still authenticates, keeps its read data key, and holds this write data key. -/
structure DataKeysAre (krd kwd : Bytes 16) (s : MockDrive) : Prop where
  auth : s.auth.isSome = true
  read : s.readDataKey = krd
  write : s.writeDataKey = kwd

/-- One command: the write data key is that of an accepted send, or the one before. -/
theorem DataKeysAre.execute {krd kwd : Bytes 16} (h : DataKeysAre krd kwd s) (c : Command) :
    DataKeysAre krd ((sentWriteDataKey aes s c).getD kwd) (execute aes c s).2 := by
  rcases execute_cases aes c s with ⟨hsend, haccept, wireKwd, kwdPlain, hwire, hplain, hs⟩ |
    ⟨hsend, -, extents, -, -, -, hs⟩ | ⟨hrefused, hkept⟩
  · obtain ⟨bk, hbk, rfl⟩ := underBusKey_eq_ok h.auth hplain
    rw [hs, sentWriteDataKey_of_accepts hsend haccept hwire hbk]
    exact ⟨h.auth, h.read, rfl⟩
  · have hformat : ¬Sends c formatAacsWriteDataKey := by
      intro hkey
      exact absurd (hkey.2.symm.trans hsend.2) (by decide)
    rw [hs, sentWriteDataKey_of_not_sends hformat]
    exact ⟨h.auth, h.read, h.write⟩
  · have hnone : sentWriteDataKey aes s c = none := by
      by_cases hsend : Sends c formatAacsWriteDataKey
      · exact sentWriteDataKey_of_not_accepts (hrefused (.inl hsend))
      · exact sentWriteDataKey_of_not_sends hsend
    have hauth := congrArg (fun k => k.2) hkept
    have hread := congrArg (fun k => k.1.readDataKey) hkept
    have hwrite := congrArg (fun k => k.1.writeDataKey) hkept
    rw [hnone]
    exact ⟨hauth.trans h.auth, hread.trans h.read, hwrite.trans h.write⟩

/-- Every command of a run. -/
theorem DataKeysAre.after {krd kwd : Bytes 16} (h : DataKeysAre krd kwd s) (cs : List Command) :
    DataKeysAre krd (lastWriteDataKey aes s kwd cs) (after aes s cs) := by
  induction cs generalizing s kwd with
  | nil => exact h
  | cons c cs ih => exact ih (h.execute c)

/-- What an accepted read of the data keys did. -/
theorem execute_readDataKeys {c : Command} {r : ScsiResponse} (hread : Reads c formatAacsDataKeys)
    (h : (execute aes c s).1 = .ok r) : ∃ keys,
      underBusKey s (fun bk keys => (aes.encrypt bk keys.1, aes.encrypt bk keys.2))
        "READ_DISC_STRUCTURE Format 0x84 without Bus Key"
          (s.readDataKey, s.writeDataKey) = .ok keys ∧
      r = .good (framed 0x0022 keys.1.toList keys.2.toList) := by
  obtain ⟨rds, hparse, hformat, -⟩ := ReadDiscStructure.parseCdb_of_opcode hread.1
  have hvolumeId : formatAacsDataKeys ≠ formatAacsVolumeId := by decide
  have hserial : formatAacsDataKeys ≠ formatAacsMediaSerial := by decide
  have hmediaId : formatAacsDataKeys ≠ formatAacsMediaId := by decide
  obtain ⟨r', hr'⟩ := Accepts.exists_state ⟨r, h⟩
  obtain rfl := Outcome.ok.inj (h.symm.trans (congrArg Prod.fst hr'))
  rw [execute_of_reads hread, executeReadDiscStructure, hparse, Proc.lift_ok_bind, Proc.get_bind,
    hformat, hread.2, if_neg hvolumeId, if_neg hserial, if_neg hmediaId, if_pos rfl,
    Proc.lift_bind_eq_ok] at hr'
  obtain ⟨keys, hkeys, hr'⟩ := hr'
  exact ⟨keys, hkeys, (Outcome.ok.inj (congrArg Prod.fst hr')).symm⟩

/-- Over every run of a drive that authenticates, with any handshakes between: a read of the
data keys gives, under the bus key of that moment, the plaintext of the last accepted send and
the read data key the drive started with; and without a bus key the keys are neither read nor
replaced. -/
theorem dataKeys_run (haes : ∀ key data, aes.decrypt key (aes.encrypt key data) = data)
    (s : MockDrive) (hauth : s.auth.isSome = true) (cs : List Command) (c : Command) :
    (∀ r, Reads c formatAacsDataKeys → (execute aes c (after aes s cs)).1 = .ok r →
      ∃ bk keys, (after aes s cs).busKey = some bk ∧ parseDataKeysResponse r.data = .ok keys ∧
        keys.decryptWriteDataKey aes bk = lastWriteDataKey aes s s.writeDataKey cs ∧
        keys.decryptReadDataKey aes bk = s.readDataKey) ∧
      ((after aes s cs).busKey = none → Reads c formatAacsDataKeys ∨
        Sends c formatAacsWriteDataKey → ¬Accepts aes (after aes s cs) c) := by
  have hkeys : DataKeysAre s.readDataKey (lastWriteDataKey aes s s.writeDataKey cs)
      (after aes s cs) :=
    DataKeysAre.after ⟨hauth, rfl, rfl⟩ cs
  constructor
  · intro r hread hr
    obtain ⟨keys, hwrapped, rfl⟩ := execute_readDataKeys hread hr
    obtain ⟨bk, hbk, rfl⟩ := underBusKey_eq_ok hkeys.auth hwrapped
    refine ⟨bk, _, hbk, parseDataKeysResponse_framed _ _, ?_, ?_⟩
    · rw [DataKeysResponse.decryptWriteDataKey, haes, hkeys.write]
    · rw [DataKeysResponse.decryptReadDataKey, haes, hkeys.read]
  · rintro hnone (hread | hsend) ⟨r, hr⟩
    · obtain ⟨keys, hwrapped, -⟩ := execute_readDataKeys hread hr
      obtain ⟨bk, hbk, -⟩ := underBusKey_eq_ok hkeys.auth hwrapped
      rw [hnone] at hbk
      cases hbk
    · rcases execute_cases aes c (after aes s cs) with ⟨-, -, wireKwd, kwdPlain, -, hplain, -⟩ |
        ⟨hextents, -⟩ | ⟨hrefused, -⟩
      · obtain ⟨bk, hbk, -⟩ := underBusKey_eq_ok hkeys.auth hplain
        rw [hnone] at hbk
        cases hbk
      · exact absurd (hextents.2.symm.trans hsend.2) (by decide)
      · exact hrefused (.inl hsend) ⟨r, hr⟩

/-- The challenge of a host and its key. -/
def handshakeCommands (hostCert : Bytes 92) (hv hsig : Bytes 40) : List Command :=
  [hostCertCommand 0 (Bytes.zero 20) hostCert, hostKeyCommand 0 hv hsig]

/-- Both are accepted, and the bus key comes from the second. -/
theorem after_handshakeCommands {a : DriveAuthState} (ha : s.auth = some a) {hostCert : Bytes 92}
    {cert : Certificate} {hv hsig : Bytes 40} {p : Point}
    (hcert : DriveAuthState.Certified a.aacsLaPub hostCert cert)
    (hverify : verify cert.publicKey hsig (a.driveNonce.toList ++ hv.toList) = true)
    (hdecode : Point.decode hv = some p) :
    (after aes s (handshakeCommands hostCert hv hsig)).busKey = some
    (busKeyFromPoint (p.mulScalar a.dk)) := by
  have hchallenge := @execute_hostCert aes s a 0 (Bytes.zero 20) hostCert cert ha hcert.1 hcert.2
  have haccept := DriveAuthState.acceptHostKey_of_verified
    (a := { a with hostNonce := some (Bytes.zero 20), hostCert := some hostCert })
      rfl hcert.1 hverify hdecode
  rw [handshakeCommands, after_cons, hchallenge, after_cons, execute_hostKey rfl haccept]
  rfl

/-- A host certified under the scalar one sets a bus key of every drive with that root. -/
theorem exists_handshake_one {a : DriveAuthState} (ha : s.auth = some a)
    (hroot : a.aacsLaPub = publicKey U160.one) (hnonce : a.driveNonce = Bytes.zero 20) :
    ∃ (hostCert : Bytes 92) (hsig : Signature) (bk : Bytes 16),
      (after aes s (handshakeCommands hostCert (hostPoint U160.one) hsig)).busKey = some bk := by
  have hone := inRange_one
  obtain ⟨-, hostCert, hsig, -, hhostCert, hsign⟩ := signatures_one
  obtain ⟨cert, hparse, -, hkey, hverify⟩ := parse_minted hone hone hhostCert
  have hsigned : verify cert.publicKey hsig
      (a.driveNonce.toList ++ (hostPoint U160.one).toList) = true := by
    rw [hkey, hnonce]
    exact sign_verifies hone hsign
  rw [← hroot] at hverify
  exact ⟨hostCert, hsig, _,
    after_handshakeCommands ha ⟨hparse, hverify⟩ hsigned (decode_publicKey hone)⟩

/-- A drive with a bus key. -/
def keyed : MockDrive :=
  { default with
    auth := some
      { DriveAuthState.new (Bytes.zero 92) U160.one U160.one (Bytes.zero 20)
        (publicKey U160.one) with busKey := some (Bytes.zero 16) } }

/-- The command that sends a wrapped write data key. -/
def sendWriteDataKeyCommand (wireKwd : Bytes 16) : Command :=
  sendDiscStructureCommand (.aacsWriteDataKey 0) ([0x00, 0x12, 0, 0] ++ wireKwd.toList)

/-- Two write data keys, the second of which is kept, and a handshake before the read. -/
theorem dataKeys_run_rekeyed : ∃ (hostCert : Bytes 92) (hsig : Signature) (r : ScsiResponse),
    let cs := sendWriteDataKeyCommand (Bytes.zero 16) ::
      sendWriteDataKeyCommand (Bytes.ofNat 16 1) ::
      handshakeCommands hostCert (hostPoint U160.one) hsig
    (execute Aes128.fips197 (readDiscStructureCommand (.aacsDataKeys 0))
      (after Aes128.fips197 keyed cs)).1 = .ok r ∧
    ∃ bk keys, (after Aes128.fips197 keyed cs).busKey = some bk ∧
      parseDataKeysResponse r.data = .ok keys ∧
      keys.decryptWriteDataKey Aes128.fips197 bk =
        lastWriteDataKey Aes128.fips197 keyed keyed.writeDataKey cs ∧
      keys.decryptReadDataKey Aes128.fips197 bk = keyed.readDataKey := by
  have hsent : (after Aes128.fips197 keyed [sendWriteDataKeyCommand (Bytes.zero 16),
      sendWriteDataKeyCommand (Bytes.ofNat 16 1)]).auth = keyed.auth := rfl
  obtain ⟨hostCert, hsig, bk, hbk⟩ := @exists_handshake_one Aes128.fips197 _ _ hsent rfl rfl
  rw [after_cons, after_cons, after_nil, ← after_cons, ← after_cons] at hbk
  obtain ⟨r, -, hread, -⟩ :=
    @execute_dataKeys_of_busKey Aes128.fips197 _ Aes128.decryptBlock_encryptBlock _ hbk 0
  have hrun := (dataKeys_run Aes128.decryptBlock_encryptBlock keyed rfl
    (sendWriteDataKeyCommand (Bytes.zero 16) :: sendWriteDataKeyCommand (Bytes.ofNat 16 1) ::
      handshakeCommands hostCert (hostPoint U160.one) hsig)
    (readDiscStructureCommand (.aacsDataKeys 0))).1 r ⟨rfl, rfl⟩ hread
  exact ⟨hostCert, hsig, r, hread, hrun⟩

end Ake.MockDrive
