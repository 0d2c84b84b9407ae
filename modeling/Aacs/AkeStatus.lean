import Aacs.AkeAgreement

/-!
# The status byte

A response carries a SCSI status next to its data, and neither operation of the
host looks at it: what decides is the data alone.
-/
namespace Ake

open Mmc Prog

variable {aes : Aes128} {creds : HostCredentials} {hostNonce : Bytes 20} {hk : U160}

/-- Every response delivered as `Ok` has the status `GOOD`. -/
def AllGood (rs : List (Result ScsiResponse)) : Prop := ∀ r, Outcome.ok r ∈ rs → r.status = 0x00

/-- No step of the program depends on a status byte. -/
def StatusBlind {α : Type} : Host α → Prop
  | .ret _ => True
  | .call _ k => (∀ st st' data, k (.ok ⟨st, data⟩) = k (.ok ⟨st', data⟩)) ∧ ∀ r, StatusBlind (k r)

theorem StatusBlind.execute_bind {α : Type} {c : Command} {f : ScsiResponse → Host α}
    (hf : ∀ st st' data, f ⟨st, data⟩ = f ⟨st', data⟩) (hrest : ∀ r, StatusBlind (f r)) :
    StatusBlind (execute c >>= f) := by
  refine ⟨hf, fun r => ?_⟩
  cases r with
  | ok x => exact hrest x
  | err e => trivial
  | panic => trivial

theorem StatusBlind.lift_bind {α β : Type} {o : Result α} {f : α → Host β}
    (hf : ∀ a, StatusBlind (f a)) : StatusBlind (Prog.lift o >>= f) := by
  cases o with
  | ok a => exact hf a
  | err e => trivial
  | panic => trivial

theorem hostAuthenticate_blind : StatusBlind (hostAuthenticate aes creds hostNonce hk) := by
  apply StatusBlind.execute_bind (fun _ _ _ => rfl)
  intro r₁
  apply StatusBlind.lift_bind
  intro agid
  apply StatusBlind.execute_bind (fun _ _ _ => rfl)
  intro r₂
  apply StatusBlind.execute_bind (fun _ _ _ => rfl)
  intro r₃
  apply StatusBlind.lift_bind
  intro dn
  apply StatusBlind.execute_bind (fun _ _ _ => rfl)
  intro r₄
  apply StatusBlind.lift_bind
  intro dv
  apply StatusBlind.lift_bind
  intro hsig
  apply StatusBlind.execute_bind (fun _ _ _ => rfl)
  intro r₅
  trivial

theorem readVerifiedVolumeId_blind {busKey : Bytes 16} {agid : UInt8} :
    StatusBlind (readVerifiedVolumeId aes busKey agid) :=
  .execute_bind (fun _ _ _ => rfl) fun _ => .lift_bind fun _ => .lift_bind fun _ => trivial

/-- The drive with a status of its own on each of its responses in turn. -/
def restatus {σ : Type} (status : Nat → UInt8) (d : Drive σ) : Drive (σ × Nat) where
  execute s c :=
    match d.execute s.1 c with
    | (.ok r, s') => (.ok { r with status := status s.2 }, s', s.2 + 1)
    | (o, s') => (o, s', s.2 + 1)

/-- Such a program ends the same way whatever the statuses are. -/
theorem StatusBlind.run_restatus {α σ : Type} {p : Host α} (h : StatusBlind p)
    (status : Nat → UInt8) (d : Drive σ) (s : σ) (n : Nat) :
    (run (restatus status d) p (s, n)).1.1 = (run d p s).1.1 ∧
      (run (restatus status d) p (s, n)).1.2.1 = (run d p s).1.2 := by
  induction p generalizing s n with
  | ret o => exact ⟨rfl, rfl⟩
  | call c k ih =>
    obtain ⟨hk, hrest⟩ := h
    simp only [run, restatus]
    rcases d.execute s c with ⟨r, s'⟩
    cases r with
    | ok r =>
      rw [hk (status n) r.status]
      exact ih _ (hrest _) s' (n + 1)
    | err e => exact ih _ (hrest _) s' (n + 1)
    | panic => exact ih _ (hrest _) s' (n + 1)

/-- Every response that comes back from such a drive has one of its statuses. -/
theorem restatus_status {α σ : Type} (p : Host α) (status : Nat → UInt8) (d : Drive σ)
    (s : σ) (n : Nat)
    (r : ScsiResponse) (hr : .ok r ∈ responses (run (restatus status d) p (s, n)).2) :
    ∃ i, r.status = status i := by
  induction p generalizing s n with
  | ret o => simp [run] at hr
  | call c k ih =>
    simp only [run, restatus, responses_cons, List.mem_cons] at hr
    rcases hr with hr | hr
    · rcases hd : d.execute s c with ⟨x, s'⟩
      rw [hd] at hr
      cases x with
      | ok x =>
        rw [Outcome.ok.inj hr]
        exact ⟨n, rfl⟩
      | err e => cases hr
      | panic => cases hr
    · exact ih _ _ _ hr

/-- A success that rests on a command has had a response. -/
theorem exists_response {α σ : Type} {c : Command} {f : ScsiResponse → Host α} {d : Drive σ} {s : σ}
    (h : ∃ a, (run d (Prog.execute c >>= f) s).1.1 = .ok a) :
    ∃ r, .ok r ∈ responses (run d (Prog.execute c >>= f) s).2 := by
  obtain ⟨x, s', hx, -⟩ := run_execute_bind_ok_iff.mp h
  refine ⟨x, ?_⟩
  simp only [Prog.execute, bind_call, run, hx, responses_cons]
  exact List.mem_cons_self

/-- A success on responses that all have a status other than `GOOD`. -/
theorem restatus_not_good {α σ : Type} {c : Command} {f : ScsiResponse → Host α} {status : UInt8}
    {d : Drive σ} {s : σ} {n : Nat} (hstatus : status ≠ 0x00)
    (h : ∃ a, (run (restatus (fun _ => status) d) (Prog.execute c >>= f) (s, n)).1.1 = .ok a) :
    ¬AllGood (responses (run (restatus (fun _ => status) d) (Prog.execute c >>= f) (s, n)).2) := by
  intro hgood
  obtain ⟨r, hr⟩ := exists_response h
  obtain ⟨-, heq⟩ := restatus_status _ _ d s n r hr
  exact hstatus (heq.symm.trans (hgood r hr))

/-- The drive answers the commands one after the other with these data, under whatever status. -/
def Gives {σ : Type} (drive : Drive σ) : σ → List (Command × List UInt8) → Prop
  | _, [] => True
  | s, x :: xs => ∃ status s', drive.execute s x.1 = (.ok ⟨status, x.2⟩, s') ∧ Gives drive s' xs

/-- The drive gives data to the five commands of the handshake that pass every check of the host:
the AGID frame, the drive certificate, `Dsig` and `Dv`; and the host can sign. -/
def HandshakePasses {σ : Type} (aes : Aes128) (creds : HostCredentials) (hostNonce : Bytes 20)
    (hk : U160) (drive : Drive σ) (s : σ) : Prop :=
  ∃ p₁ p₂ p₃ p₄ p₅ agid driveNonce driveCert dv hsig,
    parseReportKeyAgid p₁ = .ok agid ∧
    checkDriveCert creds.aacsLaPub p₃ = .ok (driveNonce, driveCert) ∧
    checkDriveKey driveCert hostNonce p₄ = .ok dv ∧
    Ecdsa.sign aes creds.hostPriv (driveNonce.toList ++ (hostPoint hk).toList) =
      (.ok hsig : Result Ecdsa.Signature) ∧
    Gives drive s [(agidCommand, p₁), (hostCertCommand agid hostNonce creds.hostCert, p₂),
      (driveCertCommand agid, p₃), (driveKeyCommand agid, p₄),
      (hostKeyCommand agid (hostPoint hk) hsig, p₅)]

/-- The drive gives the volume identifier with its CMAC under the bus key. -/
def VolumeIdPasses {σ : Type} (aes : Aes128) (busKey : Bytes 16) (agid : UInt8) (drive : Drive σ)
    (s : σ) : Prop :=
  ∃ p volumeId, parseVolumeIdResponse p = .ok (volumeId, Aes.cmac aes busKey volumeId.toList) ∧
    Gives drive s [(volumeIdCommand agid, p)]

/-- The handshake succeeds exactly on the data that pass. -/
theorem hostAuthenticate_ok_iff {σ : Type} {drive : Drive σ} {s : σ} :
    (∃ result, (run drive (hostAuthenticate aes creds hostNonce hk) s).1.1 = .ok result) ↔
      HandshakePasses aes creds hostNonce hk drive s := by
  unfold hostAuthenticate
  simp only [run_execute_bind_ok_iff, run_lift_bind_ok_iff, Prog.pure_eq, run_ret]
  constructor
  · rintro ⟨r₁, s₁, h₁, agid, hagid, r₂, s₂, h₂, r₃, s₃, h₃, dn, hdn, r₄, s₄, h₄, dv, hdv,
      hsig, hsign, r₅, s₅, h₅, -⟩
    exact ⟨r₁.data, r₂.data, r₃.data, r₄.data, r₅.data, agid, dn.1, dn.2, dv, hsig, hagid,
      hdn, hdv, hsign, r₁.status, s₁, h₁, r₂.status, s₂, h₂, r₃.status, s₃, h₃, r₄.status, s₄, h₄,
      r₅.status, s₅, h₅, trivial⟩
  · rintro ⟨p₁, p₂, p₃, p₄, p₅, agid, dn, cert, dv, hsig, hagid, hdn, hdv, hsign, t₁, s₁,
      h₁, t₂, s₂, h₂, t₃, s₃, h₃, t₄, s₄, h₄, t₅, s₅, h₅, -⟩
    exact ⟨⟨t₁, p₁⟩, s₁, h₁, agid, hagid, ⟨t₂, p₂⟩, s₂, h₂, ⟨t₃, p₃⟩, s₃, h₃, (dn, cert), hdn,
      ⟨t₄, p₄⟩, s₄, h₄, dv, hdv, hsig, hsign, ⟨t₅, p₅⟩, s₅, h₅, _, rfl⟩

theorem readVerifiedVolumeId_ok_iff {busKey : Bytes 16} {agid : UInt8} {σ : Type}
    {drive : Drive σ} {s : σ} :
    (∃ vid, (run drive (readVerifiedVolumeId aes busKey agid) s).1.1 = .ok vid) ↔
      VolumeIdPasses aes busKey agid drive s := by
  unfold readVerifiedVolumeId
  simp only [run_execute_bind_ok_iff, run_lift_bind_ok_iff, Prog.pure_eq, run_ret,
    Outcome.refuseIf_eq_ok, not_not]
  constructor
  · rintro ⟨r, s', h, ⟨vid, mac⟩, hvid, -, hmac, -⟩
    have hmac : Aes.cmac aes busKey vid.toList = mac := hmac
    rw [← hmac] at hvid
    exact ⟨r.data, vid, hvid, r.status, s', h, trivial⟩
  · rintro ⟨p, vid, hvid, status, s', h, -⟩
    exact ⟨⟨status, p⟩, s', h, _, hvid, (), rfl, vid, rfl⟩

/-- For any drive in any state, whatever statuses it puts on its responses: a success of the
handshake means that every response was `GOOD` exactly when the drive's data fail a check of the
host, and the same holds of the volume identifier. -/
theorem success_good_iff (aes : Aes128) (creds : HostCredentials) (hostNonce : Bytes 20) (hk : U160)
    (busKey : Bytes 16) (agid : UInt8) {σ : Type} (drive : Drive σ) (s : σ) :
    ((∀ status : Nat → UInt8,
      let r := run (restatus status drive) (hostAuthenticate aes creds hostNonce hk) (s, 0)
      (∃ result, r.1.1 = .ok result) → AllGood (responses r.2)) ↔
        ¬HandshakePasses aes creds hostNonce hk drive s) ∧
    ((∀ status : Nat → UInt8,
      let v := run (restatus status drive) (readVerifiedVolumeId aes busKey agid) (s, 0)
      (∃ vid, v.1.1 = .ok vid) → AllGood (responses v.2)) ↔
        ¬VolumeIdPasses aes busKey agid drive s) := by
  have hbad : (0x02 : UInt8) ≠ 0x00 := by decide
  rw [← hostAuthenticate_ok_iff, ← readVerifiedVolumeId_ok_iff]
  constructor
  · constructor
    · rintro h ⟨result, hok⟩
      have hrun : ∃ result,
        (run (restatus (fun _ => 0x02) drive) (hostAuthenticate aes creds hostNonce hk)
          (s, 0)).1.1 = .ok result :=
        ⟨result, (hostAuthenticate_blind.run_restatus _ drive s 0).1.trans hok⟩
      exact restatus_not_good hbad hrun (h (fun _ => 0x02) hrun)
    · rintro h status r ⟨result, hok⟩
      exact absurd
        ⟨result, (hostAuthenticate_blind.run_restatus status drive s 0).1.symm.trans hok⟩ h
  · constructor
    · rintro h ⟨vid, hok⟩
      have hrun : ∃ vid,
        (run (restatus (fun _ => 0x02) drive) (readVerifiedVolumeId aes busKey agid)
          (s, 0)).1.1 = .ok vid :=
        ⟨vid, (readVerifiedVolumeId_blind.run_restatus _ drive s 0).1.trans hok⟩
      exact restatus_not_good hbad hrun (h (fun _ => 0x02) hrun)
    · rintro h status v ⟨vid, hok⟩
      exact absurd
        ⟨vid, (readVerifiedVolumeId_blind.run_restatus status drive s 0).1.symm.trans hok⟩ h

/-- A drive that carries out the handshake goes through it, and through the read that follows, with
`CHECK CONDITION` on all that it answers. -/
theorem check_condition_run {s s' : MockDrive} {result : AkeResult}
    (hrun : (run (MockDrive.device aes) (hostAuthenticate aes creds hostNonce hk) s).1 =
      (.ok result, s'))
    (hbk : s'.busKey = some result.busKey) :
    let drive := restatus (fun _ => 0x02) (MockDrive.device aes)
    let r := run drive (hostAuthenticate aes creds hostNonce hk) (s, 0)
    ∃ n, r.1 = (.ok result, s', n) ∧ ¬AllGood (responses r.2) ∧
      let v := run drive (readVerifiedVolumeId aes result.busKey result.agid) (s', n)
      v.1.1 = .ok s'.volumeId ∧ ¬AllGood (responses v.2) := by
  intro drive r
  have hbad : (0x02 : UInt8) ≠ 0x00 := by decide
  have hblind : StatusBlind (hostAuthenticate aes creds hostNonce hk) := hostAuthenticate_blind
  obtain ⟨hout, hstate⟩ := hblind.run_restatus (fun _ => 0x02) (MockDrive.device aes) s 0
  have hok : r.1.1 = .ok result := hout.trans (congrArg Prod.fst hrun)
  have hs' : r.1.2.1 = s' := hstate.trans (congrArg Prod.snd hrun)
  refine ⟨r.1.2.2, Prod.ext hok (Prod.ext hs' rfl), restatus_not_good hbad ⟨_, hok⟩, ?_⟩
  intro v
  have hread : v.1.1 = .ok s'.volumeId :=
    (readVerifiedVolumeId_blind.run_restatus _ _ s' _).1.trans
      (congrArg Prod.fst (readVerifiedVolumeId_run hbk))
  exact ⟨hread, restatus_not_good hbad ⟨_, hread⟩⟩

/-- A drive that answers every command with `CHECK CONDITION` goes through both operations. -/
theorem check_condition_accepted : ∃ (driveCert hostCert : Bytes 92) (result : AkeResult)
    (drive' : MockDrive × Nat),
    let drive := restatus (fun _ => 0x02) (MockDrive.device Aes128.fips197)
    let r := run drive (hostAuthenticate Aes128.fips197
      ⟨hostCert, U160.one, Point.generator.mulScalar U160.one⟩ (Bytes.zero 20) U160.one)
      (oneDrive driveCert, 0)
    let v := run drive (readVerifiedVolumeId Aes128.fips197 result.busKey result.agid) drive'
    r.1 = (.ok result, drive') ∧ ¬AllGood (responses r.2) ∧
      v.1.1 = .ok (Bytes.zero 16) ∧ ¬AllGood (responses v.2) := by
  have hone := Ecdsa.inRange_one
  obtain ⟨driveCert, hostCert, sig, hdriveCert, hhostCert, hsig⟩ := signatures_one
  obtain ⟨cert, hrun⟩ :=
    hostAuthenticate_minted hone hone hone hone hone hdriveCert hhostCert hsig hsig
    (rfl : (oneDrive driveCert).auth = _)
  obtain ⟨n, hr, hbad, hv, hbad'⟩ := check_condition_run hrun rfl
  exact ⟨driveCert, hostCert, _, _, hr, hbad, hv, hbad'⟩

end Ake
