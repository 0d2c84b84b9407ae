import Aacs.Among
import Aacs.PointEncoding
import Aacs.ProtectedReads

/-!
# The handshake on a shared drive

A drive has one authentication state, whatever AGID a command names, so the steps of several
hosts meet in it. A handshake that goes through has nevertheless agreed on its key, and one
goes through as long as no other challenge comes after its own.
-/
namespace Ake

open Mmc Ecdsa Prog

namespace DriveAuthState

variable {aes : Aes128} {a : DriveAuthState}

theorem driveKeyResponse_eq_ok {dv dsig : Bytes 40} (h : a.driveKeyResponse aes = .ok (dv, dsig)) :
    dv = hostPoint a.dk ∧ ∃ hn, a.hostNonce = some hn ∧
      Ecdsa.sign aes a.drivePriv (hn.toList ++ dv.toList) = (.ok dsig : Result Signature) := by
  simp only [driveKeyResponse, Outcome.bind_eq_ok, Outcome.okOr_eq_ok, Outcome.pure_eq,
    Outcome.ok.injEq, Prod.mk.injEq] at h
  obtain ⟨hn, hnonce, sig, hsig, rfl, rfl⟩ := h
  exact ⟨rfl, hn, hnonce, hsig⟩

theorem acceptHostKey_eq_ok {a' : DriveAuthState} {hv hsig : Bytes 40}
    (h : acceptHostKey hv hsig a = (.ok (), a')) :
    ∃ stored cert p, a.hostCert = some stored ∧ Certificate.parse stored certTypeHost = .ok cert ∧
      verify cert.publicKey hsig (a.driveNonce.toList ++ hv.toList) = true ∧
        Point.decode hv = some p ∧
      a' = { a with busKey := some (busKeyFromPoint (p.mulScalar a.dk)) } := by
  cases hstored : a.hostCert with
  | none => simp [acceptHostKey, hstored] at h
  | some stored =>
    cases hparse : Certificate.parse stored certTypeHost with
    | err e => simp [acceptHostKey, hstored, hparse] at h
    | panic => simp [acceptHostKey, hstored, hparse] at h
    | ok cert =>
      by_cases hverify : verify cert.publicKey hsig (a.driveNonce.toList ++ hv.toList) = true
      · cases hdecode : Point.decode hv with
        | none =>
          have hcoords : Point.fromCoords (hv.slice 0 20) (hv.slice 20 20) = none := hdecode
          simp [acceptHostKey, hstored, hparse, hverify, hcoords] at h
        | some p =>
          rw [acceptHostKey_of_verified hstored hparse hverify hdecode, hstored] at h
          exact ⟨stored, cert, p, rfl, hparse, hverify, rfl, (Prod.mk.inj h).2.symm⟩
      · simp [acceptHostKey, hstored, hparse, hverify] at h

end DriveAuthState

namespace MockDrive

variable {aes : Aes128} {s t : MockDrive} {a : DriveAuthState} {agid : UInt8} {r : ScsiResponse}

theorem execute_driveKey_eq (hauth : s.auth = some a) :
    MockDrive.execute aes (driveKeyCommand agid) s =
    ((a.driveKeyResponse aes >>= fun key => pure (.good (framed 0x0052 key.1.toList key.2.toList))),
      s) := by
  have hexec : MockDrive.execute aes (driveKeyCommand agid) s =
      MockDrive.executeReportKey aes (ReportKey.aacsDriveKey agid).cdb s := rfl
  have hformat : (ReportKey.aacsDriveKey agid).keyFormat &&& 0x3F = kfReportAacsDriveKey :=
    (by decide : kfReportAacsDriveKey &&& 0x3F = kfReportAacsDriveKey)
  have hclass : (ReportKey.aacsDriveKey agid).keyClass = keyClassAacs := rfl
  have hne₁ : kfReportAacsDriveKey ≠ kfReportAacsAgid := by decide
  have hne₂ : kfReportAacsDriveKey ≠ kfReportAacsDriveCertChal := by decide
  rw [hexec, MockDrive.executeReportKey, ReportKey.parseCdb_cdb]
  cases hkey : a.driveKeyResponse aes <;> simp [hformat, hclass, hne₁, hne₂, hauth, hkey]

theorem execute_driveKey_ok (hauth : s.auth = some a)
    (h : MockDrive.execute aes (driveKeyCommand agid) s = (.ok r, t)) :
    t = s ∧ ∃ dv dsig, a.driveKeyResponse aes = .ok (dv, dsig) ∧ r.data =
      framed 0x0052 dv.toList dsig.toList := by
  rw [execute_driveKey_eq hauth, Prod.mk.injEq, Outcome.bind_eq_ok] at h
  obtain ⟨⟨key, hkey, hr⟩, hs⟩ := h
  obtain rfl := Outcome.ok.inj hr
  exact ⟨hs.symm, key.1, key.2, hkey, rfl⟩

/-- A method of the state that a command succeeds with has succeeded. -/
theorem onAuth_bind_inv {p : Proc DriveAuthState AacsError Unit}
    {f : Unit → Proc MockDrive AacsError ScsiResponse}
    (hauth : s.auth = some a) (h : (onAuth p >>= f) s = (.ok r, t)) : (p a).1 = .ok () := by
  have hfield : onAuth p s = ((p a).1, { s with auth := some (p a).2 }) := by
    rw [onAuth, Proc.onField, hauth]
  rcases hp : p a with ⟨o, a'⟩
  rw [hp] at hfield
  cases o with
  | ok u => rfl
  | err e =>
    rw [Proc.bind_of_err hfield] at h
    cases h
  | panic =>
    rw [Proc.bind_of_panic hfield] at h
    cases h

theorem execute_hostKey_ok {hv hsig : Bytes 40} (hauth : s.auth = some a)
    (h : MockDrive.execute aes (hostKeyCommand agid hv hsig) s = (.ok r, t)) :
    ∃ a', DriveAuthState.acceptHostKey hv hsig a = (.ok (), a') ∧ t.auth = some a' := by
  have hexec : MockDrive.execute aes (hostKeyCommand agid hv hsig) s =
      MockDrive.executeSendKey (SendKey.aacsHostKey agid).cdb .toDevice
        (buildSendKeyHostKey hv hsig) s := rfl
  have hformat : (SendKey.aacsHostKey agid).keyFormat &&& 0x3F = kfSendAacsHostKey :=
    (by decide : kfSendAacsHostKey &&& 0x3F = kfSendAacsHostKey)
  have hclass : (SendKey.aacsHostKey agid).keyClass = keyClassAacs := rfl
  have hne : kfSendAacsHostKey ≠ kfSendAacsHostCertChal := by decide
  have hpayload : parseSendKeyHostKey (buildSendKeyHostKey hv hsig) = .ok (hv, hsig) :=
    parseFields_framed _ _ _ _
  have haccept : (DriveAuthState.acceptHostKey hv hsig a).1 = .ok () := by
    rw [hexec, MockDrive.executeSendKey, SendKey.parseCdb_cdb] at h
    simp only [hformat, hclass, hne, hpayload, ne_eq, not_true_eq_false, false_and,
      if_false, if_true, Outcome.refuseIf_neg, not_false_eq_true, Proc.lift_ok_bind] at h
    exact onAuth_bind_inv hauth h
  have hrun : DriveAuthState.acceptHostKey hv hsig a =
      (.ok (), (DriveAuthState.acceptHostKey hv hsig a).2) :=
    Prod.ext haccept rfl
  rw [@execute_hostKey aes s a agid hv hsig _ hauth hrun, Prod.mk.injEq] at h
  exact ⟨_, hrun, by rw [← h.2]⟩

/-- A drive with the identity it was given, which stores only certified hosts. -/
def Continues (start : DriveAuthState) (s : MockDrive) : Prop :=
  ∃ a, s.auth = some a ∧ DriveAuthState.identity a = start ∧ a.HostsCertified

theorem Continues.execute {start : DriveAuthState} (h : Continues start s) (c : Command) :
    Continues start ((device aes).execute s c).2 := by
  obtain ⟨a, hauth, hidentity, hcertified⟩ := h
  refine ⟨_, execute_auth hauth c, ?_⟩
  cases authCall c with
  | none => exact ⟨hidentity, hcertified⟩
  | some call => exact ⟨(DriveAuthState.perform_identity call a).trans hidentity,
    hcertified.perform call⟩

theorem Continues.after {start : DriveAuthState} (h : Continues start s) (cs : List Command) :
    Continues start ((device aes).after s cs) := after_preserves (fun _ c hs => hs.execute c) cs h

theorem Continues.step {start : DriveAuthState} (h : Continues start s) {gap : List Command}
    {c : Command} (hexec : (device aes).execute ((device aes).after s gap) c = (.ok r, t)) :
    Continues start ((device aes).after s gap) ∧ Continues start t := by
  have hafter := @Continues.after aes _ start h gap
  have hnext := @Continues.execute aes _ start hafter c
  rw [hexec] at hnext
  exact ⟨hafter, hnext⟩

/-- The encoding of a public key decodes to nothing else. -/
theorem eq_publicKey_of_decode {d : U160} {p : Point} (h : Point.decode (hostPoint d) = some p) :
    p = publicKey d := by
  have hpoint : hostPoint d = (publicKey d).toBytes := rfl
  rw [hpoint] at h
  by_cases hinfinity : publicKey d = .infinity
  · rw [hinfinity, Point.decode_infinity] at h
    cases h
  · rw [Point.decode_toBytes (publicKey_isOnCurve d) hinfinity] at h
    exact (Option.some.inj h).symm

variable {creds : HostCredentials} {hostNonce driveNonce : Bytes 20} {hk drivePriv dk : U160}
  {driveCert : Bytes 92} {laPub : Point} {result : AkeResult}

/-- The certificate and the nonce that the host accepts are those of the drive. -/
theorem Continues.checkDriveCert {dn : Bytes 20 × Certificate}
    (h : Continues (DriveAuthState.new driveCert drivePriv dk driveNonce laPub) s)
    (hexec : (device aes).execute s (driveCertCommand agid) = (.ok r, t))
    (hcheck : Ake.checkDriveCert creds.aacsLaPub r.data = .ok dn) :
    dn.1 = driveNonce ∧ dn.2.raw = driveCert := by
  obtain ⟨a, hauth, hidentity, -⟩ := h
  have hanswer := hexec.symm.trans (execute_driveCert hauth)
  obtain rfl := Outcome.ok.inj (Prod.mk.inj hanswer).1
  obtain ⟨hparse, -, -⟩ := checkDriveCert_eq_ok.mp hcheck
  have hfields := hparse.symm.trans (parseFields_framed _ 0x0072 a.driveNonce a.driveCert)
  obtain ⟨hnonce, hraw⟩ := Prod.mk.inj (Outcome.ok.inj hfields)
  exact ⟨hnonce.trans (congrArg DriveAuthState.driveNonce hidentity),
    hraw.trans (congrArg DriveAuthState.driveCert hidentity)⟩

/-- The point that the host accepts is that of the drive, which had signed it for some host. -/
theorem Continues.checkDriveKey {cert : Certificate} {dv : Point}
    (h : Continues (DriveAuthState.new driveCert drivePriv dk driveNonce laPub) s)
    (hexec : (device aes).execute s (driveKeyCommand agid) = (.ok r, t))
    (hcheck : Ake.checkDriveKey cert hostNonce r.data = .ok dv) : dv = publicKey dk ∧
      ∃ (hn : Bytes 20) (dsig : Signature), Ecdsa.sign aes drivePriv
        (hn.toList ++ (hostPoint dk).toList) = (.ok dsig : Result Signature) ∧
        verify cert.publicKey dsig (hostNonce.toList ++ (hostPoint dk).toList) = true := by
  obtain ⟨a, hauth, hidentity, -⟩ := h
  obtain ⟨-, dvBytes, dsig, hkey, hdata⟩ := execute_driveKey_ok hauth hexec
  obtain ⟨rfl, hn, -, hsign⟩ := DriveAuthState.driveKeyResponse_eq_ok hkey
  have hdk : a.dk = dk := congrArg DriveAuthState.dk hidentity
  have hpriv : a.drivePriv = drivePriv := congrArg DriveAuthState.drivePriv hidentity
  rw [hdk, hpriv] at hsign
  rw [hdata, hdk] at hcheck
  obtain ⟨dvBytes, dsig', hparse, hverify, hdecode⟩ := checkDriveKey_eq_ok.mp hcheck
  have hfields := hparse.symm.trans (parseFields_framed _ 0x0052 (hostPoint dk) dsig)
  obtain ⟨rfl, rfl⟩ := Prod.mk.inj (Outcome.ok.inj hfields)
  exact ⟨eq_publicKey_of_decode hdecode, hn, dsig', hsign, hverify⟩

/-- The drive accepts the host's key under the certificate that is stored, and derives the bus key.
-/
theorem Continues.hostKey {hsig : Bytes 40}
    (h : Continues (DriveAuthState.new driveCert drivePriv dk driveNonce laPub) s)
    (hexec : (device aes).execute s (hostKeyCommand agid (hostPoint hk) hsig) = (.ok r, t)) :
    ∃ a raw cert, t.auth = some a ∧ a.hostCert = some raw ∧
      DriveAuthState.Certified laPub raw cert ∧
      verify cert.publicKey hsig (driveNonce.toList ++ (hostPoint hk).toList) = true ∧
      a.busKey = some (busKeyFromPoint ((publicKey hk).mulScalar dk)) := by
  obtain ⟨a, hauth, hidentity, hcertified⟩ := h
  obtain ⟨a', haccept, hauth'⟩ :=
    @execute_hostKey_ok aes s t a agid r (hostPoint hk) hsig hauth hexec
  obtain ⟨raw, cert, p, hraw, hparse, hverify, hdecode, rfl⟩ :=
    DriveAuthState.acceptHostKey_eq_ok haccept
  obtain rfl := eq_publicKey_of_decode hdecode
  obtain ⟨cert', hcert'⟩ := hcertified raw hraw
  obtain rfl := Outcome.ok.inj (hparse.symm.trans hcert'.1)
  have hnonce : a.driveNonce = driveNonce := congrArg DriveAuthState.driveNonce hidentity
  have hdk : a.dk = dk := congrArg DriveAuthState.dk hidentity
  have hla : a.aacsLaPub = laPub := congrArg DriveAuthState.aacsLaPub hidentity
  rw [hnonce] at hverify
  rw [hla] at hcert'
  rw [hdk] at hauth'
  exact ⟨_, raw, cert, hauth', hraw, hcert', hverify, rfl⟩

theorem eq_of_identity
    (h : DriveAuthState.identity a = DriveAuthState.new driveCert drivePriv dk driveNonce laPub) :
    a = ⟨driveCert, drivePriv, dk, driveNonce, laPub, a.hostNonce, a.hostCert, a.busKey⟩ := by
  cases a
  cases h
  rfl

theorem fixed_agidToReturn : Fixed MockDrive.agidToReturn :=
  ⟨fun _ => rfl, fun _ _ _ => rfl, fun _ _ => rfl⟩

/-- The command brings no challenge. -/
def NoChallenge (c : Command) : Prop := ∀ hn raw, authCall c ≠ some (.hostCertChallenge hn raw)

/-- The challenge of a host is the one that the drive holds, with any bus key. -/
def HoldsChallenge (start : DriveAuthState) (hostNonce : Bytes 20) (hostCert : Bytes 92)
    (s : MockDrive) : Prop :=
  ∃ bk, s.auth =
    some { start with hostNonce := some hostNonce, hostCert := some hostCert, busKey := bk }

theorem HoldsChallenge.execute {start : DriveAuthState} {hostCert : Bytes 92}
    (h : HoldsChallenge start hostNonce hostCert s) {c : Command} (hc : NoChallenge c) :
    HoldsChallenge start hostNonce hostCert (MockDrive.execute aes c s).2 := by
  obtain ⟨bk, hauth⟩ := h
  rw [HoldsChallenge, execute_auth hauth c]
  cases hcall : authCall c with
  | none => exact ⟨bk, rfl⟩
  | some call =>
    rw [DriveAuthState.afterCall_some]
    rcases @DriveAuthState.perform_cases aes call
      { start with hostNonce := some hostNonce, hostCert := some hostCert, busKey := bk } with hs |
      ⟨hn, raw, cert, rfl, -, -⟩ | ⟨_, _, _, _, bk', -, -, -, -, hs⟩
    · rw [hs]
      exact ⟨bk, rfl⟩
    · exact absurd hcall (hc hn raw)
    · rw [hs]
      exact ⟨some bk', rfl⟩

theorem HoldsChallenge.gap {start : DriveAuthState} {hostCert : Bytes 92}
    (h : HoldsChallenge start hostNonce hostCert s) {gaps : List (List Command)}
    (hgaps : ∀ gap ∈ gaps, ∀ c ∈ gap, NoChallenge c) :
    HoldsChallenge start hostNonce hostCert ((device aes).after s (gaps.headD [])) := by
  have hafter (cs : List Command) (hcs : ∀ c ∈ cs, NoChallenge c) :
      HoldsChallenge start hostNonce hostCert ((device aes).after s cs) := by
    induction cs generalizing s with
    | nil => exact h
    | cons c cs ih =>
      obtain ⟨hc, hcs⟩ := List.forall_mem_cons.mp hcs
      exact ih (h.execute hc) hcs
  cases gaps with
  | nil => exact h
  | cons gap gaps => exact hafter gap (hgaps gap List.mem_cons_self)

/-- Whatever others send before the challenge of a host under the drive's root, and whatever but
another challenge they send after it, its handshake ends the same. -/
theorem hostAuthenticate_among {laPriv hostPriv : U160} {driveFlags hostFlags : UInt8}
    {driveId hostId : Bytes 6} {hostCert : Bytes 92} {dsig hsig : Signature}
    (hla : InRange laPriv) (hdrive : InRange drivePriv) (hhost : InRange hostPriv)
    (hhk : InRange hk) (hdk : InRange dk)
    (hdriveCert : buildSignedCertificate aes certTypeDrive driveFlags driveId
      (publicKey drivePriv) laPriv = .ok driveCert)
    (hhostCert : buildSignedCertificate aes certTypeHost hostFlags hostId
      (publicKey hostPriv) laPriv = .ok hostCert)
    (hdsig : Ecdsa.sign aes drivePriv (hostNonce.toList ++ (publicKey dk).toBytes.toList) =
      (.ok dsig : Result Signature))
    (hhsig : Ecdsa.sign aes hostPriv (driveNonce.toList ++ (publicKey hk).toBytes.toList) =
      (.ok hsig : Result Signature))
    (hauth : s.auth =
      some (DriveAuthState.new driveCert drivePriv dk driveNonce (publicKey laPriv))) :
    ∃ result, ∀ (earlier before : List Command) (rest : List (List Command)),
      (∀ gap ∈ rest, ∀ c ∈ gap, NoChallenge c) →
        ∃ t, runAmong (device aes)
          (hostAuthenticate aes ⟨hostCert, hostPriv, publicKey laPriv⟩ hostNonce hk)
          (earlier :: before :: rest) s = (.ok result, t) ∧ t.busKey = some result.busKey := by
  obtain ⟨hcert, hhostParse, -, hhostKey, hhostVerify⟩ := parse_minted hhost hla hhostCert
  obtain ⟨dcert, hdriveCheck, hdriveKey⟩ := checkDriveCert_minted driveNonce hdrive hla hdriveCert
  have hstart : Continues (DriveAuthState.new driveCert drivePriv dk driveNonce (publicKey laPriv))
      s := by
    refine ⟨_, hauth, rfl, ?_⟩
    intro raw hraw
    cases hraw
  refine ⟨akeResult hk hostNonce (s.agidToReturn &&& 0x03) driveNonce dcert (publicKey dk), ?_⟩
  intro earlier before rest hrest
  let u := (device aes).after s earlier
  have hagid : u.agidToReturn = s.agidToReturn := fixed_agidToReturn.after s earlier
  obtain ⟨a, ha, hidentity, -⟩ :=
    @Continues.after aes u _ (@Continues.after aes _ _ hstart earlier) before
  rw [eq_of_identity hidentity] at ha
  obtain ⟨t, hchallenge, hheld⟩ : ∃ t, (device aes).execute ((device aes).after u before)
      (hostCertCommand (u.agidToReturn &&& 0x03) hostNonce hostCert) = (.ok (.good []), t) ∧
      HoldsChallenge (DriveAuthState.new driveCert drivePriv dk driveNonce (publicKey laPriv))
        hostNonce hostCert t :=
    ⟨_, @execute_hostCert aes _ _ _ _ _ _ ha hhostParse hhostVerify, a.busKey, rfl⟩
  have hrest' : ∀ gap ∈ rest.tail, ∀ c ∈ gap, NoChallenge c :=
    fun gap hgap => hrest gap (List.mem_of_mem_tail hgap)
  have hrest'' : ∀ gap ∈ rest.tail.tail, ∀ c ∈ gap, NoChallenge c :=
    fun gap hgap => hrest' gap (List.mem_of_mem_tail hgap)
  obtain ⟨bk₃, hauth₃⟩ := @HoldsChallenge.gap aes _ _ _ _ hheld rest hrest
  obtain ⟨bk₄, hauth₄⟩ := @HoldsChallenge.gap aes _ _ _ _ ⟨bk₃, hauth₃⟩ rest.tail hrest'
  obtain ⟨bk₅, hauth₅⟩ := @HoldsChallenge.gap aes _ _ _ _ ⟨bk₄, hauth₄⟩ rest.tail.tail hrest''
  let a' : Option (Bytes 16) → DriveAuthState := fun bk =>
    ⟨driveCert, drivePriv, dk, driveNonce, publicKey laPriv, some hostNonce, some hostCert, bk⟩
  have hkey : (a' bk₄).driveKeyResponse aes = .ok ((publicKey dk).toBytes, dsig) := by
    rw [publicKey] at hdsig
    simp only [DriveAuthState.driveKeyResponse, a', Outcome.okOr_some, Outcome.bind_ok, hdsig]
    rfl
  have hverify : verify hcert.publicKey hsig
      ((a' bk₅).driveNonce.toList ++ (hostPoint hk).toList) = true := by
    rw [hhostKey]
    exact sign_verifies hhost hhsig
  have haccept :=
    @DriveAuthState.acceptHostKey_of_verified (a' bk₅) _ _ _ _ _ rfl hhostParse hverify
    (decode_publicKey hhk)
  have hdv := checkDriveKey_response hdrive hdk hdriveKey hdsig
  have hshared : busKeyFromPoint ((publicKey hk).mulScalar dk) =
      busKeyFromPoint ((publicKey dk).mulScalar hk) := by
    rw [mulScalar_publicKey_comm]
  obtain ⟨t', hlast, hbk⟩ : ∃ t', (device aes).execute
    ((device aes).after ((device aes).after ((device aes).after t
      (rest.headD [])) (rest.tail.headD [])) (rest.tail.tail.headD []))
        (hostKeyCommand (u.agidToReturn &&& 0x03) (hostPoint hk) hsig) = (.ok (.good []), t') ∧
      t'.busKey = some (busKeyFromPoint ((publicKey dk).mulScalar hk)) :=
    ⟨_, @execute_hostKey aes _ _ _ _ _ _ hauth₅ haccept, congrArg some hshared⟩
  refine ⟨t', ?_, hbk⟩
  rw [← hagid]
  apply (runAmong_execute_bind execute_agid).trans
  apply (runAmong_lift_bind _ (parseReportKeyAgid_response _)).trans
  apply (runAmong_execute_bind hchallenge).trans
  apply (runAmong_execute_bind (execute_driveCert hauth₃)).trans
  apply (runAmong_lift_bind _ hdriveCheck).trans
  apply (runAmong_execute_bind (execute_driveKey hauth₄ hkey)).trans
  apply (runAmong_lift_bind _ hdv).trans
  apply (runAmong_lift_bind _ hhsig).trans
  exact runAmong_execute_bind hlast

theorem noChallenge_reportKey (rk : ReportKey) : NoChallenge (reportKeyCommand rk) := by
  intro hn raw hcall
  have hop : ¬(reportKeyCommand rk).cdb.get 0 = sendKeyOpcode :=
    (by decide : reportKeyOpcode ≠ sendKeyOpcode)
  rw [authCall, if_neg fun h => hop h.1] at hcall
  cases hcall

/-- A part that no command writes is the same after a program among others. -/
theorem Fixed.runAmong {α β : Type} {view : MockDrive → α} (h : Fixed view) (p : Host β)
    (gaps : List (List Command)) :
    view (Prog.runAmong (device aes) p gaps s).2 = view s :=
  runAmong_preserves (fun u c (hu : view u = view s) => (h.execute c u).trans hu) p gaps rfl

/-- The bus key that a program leaves protects the host that has it until another host key is
accepted. -/
theorem protects_after {β : Type} {p : Host β} {o : Result β} {gaps : List (List Command)}
    {bk : Bytes 16} (haes : ∀ key data, aes.decrypt key (aes.encrypt key data) = data)
    (h : runAmong (device aes) p gaps s = (o, t)) (hbk : t.busKey = some bk) {later : List Command}
    (hlater : Undisturbed aes t later) (agid : UInt8) :
    Protects aes s bk agid (after aes t later) := by
  obtain ⟨a, ha, -⟩ := Option.bind_eq_some_iff.mp hbk
  apply protects_of_busKey haes ((hlater.busKey ha).trans hbk)
  intro α view hview
  have hkept := @Fixed.runAmong aes s α β view hview p gaps
  rw [h] at hkept
  exact (hview.after t later).trans hkept

/-- No traffic of others, short of a challenge behind that of the host, changes anything of what the
host gets: the result of its handshake is the one it has alone, and the bus key protects what it
reads until another host key is accepted. -/
theorem handshake_unaffected (haes : ∀ key data, aes.decrypt key (aes.encrypt key data) = data)
    {laPriv hostPriv : U160} {driveFlags hostFlags : UInt8} {driveId hostId : Bytes 6}
    {hostCert : Bytes 92} {dsig hsig : Signature}
    (hla : InRange laPriv) (hdrive : InRange drivePriv) (hhost : InRange hostPriv)
    (hhk : InRange hk) (hdk : InRange dk)
    (hdriveCert : buildSignedCertificate aes certTypeDrive driveFlags driveId
      (publicKey drivePriv) laPriv = .ok driveCert)
    (hhostCert : buildSignedCertificate aes certTypeHost hostFlags hostId
      (publicKey hostPriv) laPriv = .ok hostCert)
    (hdsig : Ecdsa.sign aes drivePriv (hostNonce.toList ++ (publicKey dk).toBytes.toList) =
      (.ok dsig : Result Signature))
    (hhsig : Ecdsa.sign aes hostPriv (driveNonce.toList ++ (publicKey hk).toBytes.toList) =
      (.ok hsig : Result Signature))
    (hauth : s.auth =
      some (DriveAuthState.new driveCert drivePriv dk driveNonce (publicKey laPriv))) :
    ∃ result,
      (run (device aes) (hostAuthenticate aes ⟨hostCert, hostPriv, publicKey laPriv⟩ hostNonce hk)
        s).1.1 = .ok result ∧
      ∀ (earlier before : List Command) (rest : List (List Command)),
        (∀ gap ∈ rest, ∀ c ∈ gap, NoChallenge c) → ∃ t, runAmong (device aes)
          (hostAuthenticate aes ⟨hostCert, hostPriv, publicKey laPriv⟩ hostNonce hk)
            (earlier :: before :: rest) s = (.ok result, t) ∧
          ∀ later, Undisturbed aes t later → ∀ agid, Protects aes s result.busKey agid
            (after aes t later) := by
  obtain ⟨result, hamong⟩ :=
    hostAuthenticate_among hla hdrive hhost hhk hdk hdriveCert hhostCert hdsig hhsig hauth
  refine ⟨result, ?_, ?_⟩
  · obtain ⟨t, hrun, -⟩ := hamong [] [] [] (List.forall_mem_nil _)
    have hgaps : ∀ gap ∈ ([[], []] : List (List Command)), gap = [] := by simp
    rw [runAmong_of_empty _ hgaps] at hrun
    exact congrArg Prod.fst hrun
  · intro earlier before rest hrest
    obtain ⟨t, hrun, hbk⟩ := hamong earlier before rest hrest
    exact ⟨t, hrun, fun later hlater agid => protects_after haes hrun hbk hlater agid⟩

/-- An AGID is asked for before the first command, one is given up before the challenge, and the
drive's key is asked for behind it. -/
theorem handshake_unaffected_ones : ∃ (driveCert hostCert : Bytes 92) (result : AkeResult)
    (t : MockDrive), runAmong (device Aes128.fips197)
      (hostAuthenticate Aes128.fips197 ⟨hostCert, U160.one, publicKey U160.one⟩
        (Bytes.zero 20) U160.one) ([agidCommand] :: [reportKeyCommand (.aacsInvalidateAgid 0)] ::
        [[driveKeyCommand 0]])
      (oneDrive driveCert) = (.ok result, t) ∧
    Protects Aes128.fips197 (oneDrive driveCert) result.busKey 0 t := by
  have hone := inRange_one
  obtain ⟨driveCert, hostCert, sig, hdriveCert, hhostCert, hsig⟩ := signatures_one
  have hauth : (oneDrive driveCert).auth =
      some (DriveAuthState.new driveCert U160.one U160.one (Bytes.zero 20) (publicKey U160.one)) :=
        rfl
  obtain ⟨result, -, hamong⟩ :=
    handshake_unaffected Aes128.decryptBlock_encryptBlock hone hone hone hone hone
    hdriveCert hhostCert hsig hsig hauth
  obtain ⟨t, hrun, hreads⟩ :=
    hamong [agidCommand] [reportKeyCommand (.aacsInvalidateAgid 0)] [[driveKeyCommand 0]]
    (by simp [driveKeyCommand, noChallenge_reportKey])
  exact ⟨driveCert, hostCert, result, t, hrun, hreads [] (undisturbed_of_not_hostKey (by simp)) 0⟩

/-- Whatever others send between its commands, a host whose handshake goes through has agreed with
the drive: the bus key of the drive is its own, the certificate and nonce it was shown are those of
the drive, the drive had signed its point, and the host that the drive has stored is certified, with
a key under which its own signature verifies. The bus key protects what it reads until another host
key is accepted. -/
theorem handshake_among (haes : ∀ key data, aes.decrypt key (aes.encrypt key data) = data)
    (hauth : s.auth = some (DriveAuthState.new driveCert drivePriv dk driveNonce laPub))
    (gaps : List (List Command))
    (h : runAmong (device aes) (hostAuthenticate aes creds hostNonce hk) gaps s = (.ok result, t)) :
    t.busKey = some result.busKey ∧ result.driveCert.raw = driveCert ∧ result.driveNonce =
      driveNonce ∧
    (∃ (hn : Bytes 20) (dsig : Signature), Ecdsa.sign aes drivePriv
      (hn.toList ++ (hostPoint dk).toList) =
        (.ok dsig : Result Signature) ∧
      verify result.driveCert.publicKey dsig (hostNonce.toList ++ (hostPoint dk).toList) = true) ∧
    (∃ a raw cert hsig, t.auth = some a ∧ a.hostCert = some raw ∧
      DriveAuthState.Certified laPub raw cert ∧
      Ecdsa.sign aes creds.hostPriv (driveNonce.toList ++ (hostPoint hk).toList) =
        (.ok hsig : Result Signature) ∧
      verify cert.publicKey hsig (driveNonce.toList ++ (hostPoint hk).toList) = true) ∧
    ∀ later, Undisturbed aes t later → ∀ agid, Protects aes s result.busKey agid
      (after aes t later) := by
  have hstart : Continues (DriveAuthState.new driveCert drivePriv dk driveNonce laPub) s := by
    refine ⟨_, hauth, rfl, ?_⟩
    intro raw hraw
    cases hraw
  have hrun := h
  unfold hostAuthenticate at h
  obtain ⟨r₁, s₁, hexec₁, h⟩ := exists_of_execute_bind h
  obtain ⟨agid, hagid, h⟩ := exists_of_lift_bind h
  obtain ⟨r₂, s₂, hexec₂, h⟩ := exists_of_execute_bind h
  have hstart₂ := (((hstart.step hexec₁).2).step hexec₂).2
  obtain ⟨r₃, s₃, hexec₃, h⟩ := exists_of_execute_bind h
  obtain ⟨dn, hdn, h⟩ := exists_of_lift_bind h
  obtain ⟨r₄, s₄, hexec₄, h⟩ := exists_of_execute_bind h
  obtain ⟨dv, hdv, h⟩ := exists_of_lift_bind h
  obtain ⟨hsig, hsign, h⟩ := exists_of_lift_bind h
  obtain ⟨r₅, s₅, hexec₅, h⟩ := exists_of_execute_bind h
  obtain ⟨hresult, rfl⟩ := Prod.mk.inj h
  obtain rfl := Outcome.ok.inj hresult
  obtain ⟨hgap₃, hstart₃⟩ := hstart₂.step hexec₃
  obtain ⟨hgap₄, hstart₄⟩ := hstart₃.step hexec₄
  obtain ⟨hgap₅, -⟩ := hstart₄.step hexec₅
  obtain ⟨hnonce, hcert⟩ := hgap₃.checkDriveCert hexec₃ hdn
  obtain ⟨hpoint, hdriveSig⟩ := hgap₄.checkDriveKey hexec₄ hdv
  obtain ⟨a', raw, cert, hauth', hraw, hcertified, hverify, hbk⟩ := hgap₅.hostKey hexec₅
  rw [hnonce] at hsign
  have hkey : s₅.busKey = some (busKeyFromPoint (dv.mulScalar hk)) := by
    rw [busKey_of_auth hauth', hbk, hpoint, mulScalar_publicKey_comm]
  refine ⟨hkey, hcert, hnonce, hdriveSig,
    ⟨a', raw, cert, hsig, hauth', hraw, hcertified, hsign, hverify⟩, ?_⟩
  intro later hlater agid'
  exact protects_after haes hrun hkey hlater agid'

/-- The same run, of which the drive's key is that of the host. -/
theorem handshake_among_ones : ∃ (driveCert hostCert : Bytes 92) (result : AkeResult)
    (t : MockDrive), runAmong (device Aes128.fips197)
      (hostAuthenticate Aes128.fips197 ⟨hostCert, U160.one, publicKey U160.one⟩
        (Bytes.zero 20) U160.one) ([agidCommand] :: [reportKeyCommand (.aacsInvalidateAgid 0)] ::
        [[driveKeyCommand 0]])
      (oneDrive driveCert) = (.ok result, t) ∧
    t.busKey = some result.busKey ∧ result.driveCert.raw = driveCert := by
  have hone := inRange_one
  obtain ⟨driveCert, hostCert, sig, hdriveCert, hhostCert, hsig⟩ := signatures_one
  have hauth : (oneDrive driveCert).auth =
      some (DriveAuthState.new driveCert U160.one U160.one (Bytes.zero 20) (publicKey U160.one)) :=
        rfl
  obtain ⟨result, hamong⟩ :=
    hostAuthenticate_among hone hone hone hone hone hdriveCert hhostCert hsig hsig hauth
  obtain ⟨t, hrun, -⟩ :=
    hamong [agidCommand] [reportKeyCommand (.aacsInvalidateAgid 0)] [[driveKeyCommand 0]]
    (by simp [driveKeyCommand, noChallenge_reportKey])
  obtain ⟨hbk, hcert, -⟩ := handshake_among Aes128.decryptBlock_encryptBlock hauth _ hrun
  exact ⟨driveCert, hostCert, result, t, hrun, hbk, hcert⟩

end MockDrive

end Ake
