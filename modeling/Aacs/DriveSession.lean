import Aacs.DataKeys
import Aacs.DriveAuth

/-!
# Sessions of the synthetic drive

Of the commands a drive may be sent, few reach its authentication state, and they reach it as
the calls of the handshake do. So a run of the drive carries a run of that state, and the bus
key of a host lasts, whatever is sent, until another host key is accepted.
-/
namespace Ake

open Mmc Ecdsa

/-- The value of a step that succeeds. -/
def valueOf {α : Type} (x : Result α) : Option α :=
  match x with
  | .ok a => some a
  | _ => none

theorem valueOf_eq_some {α : Type} {x : Result α} {a : α} : valueOf x = some a ↔ x = .ok a := by
  cases x <;> simp [valueOf]

/-- The call that a command makes on the authentication state. -/
def authCall (c : Command) : Option Call :=
  if c.cdb.get 0 = sendKeyOpcode ∧ c.cdb.get 7 = keyClassAacs ∧ c.direction = .toDevice then
    if c.cdb.get 10 &&& 0x3F = kfSendAacsHostCertChal then
      (valueOf (parseSendKeyHostCertChal c.dataOut)).map fun chal =>
        .hostCertChallenge chal.1 chal.2
    else if c.cdb.get 10 &&& 0x3F = kfSendAacsHostKey then
      (valueOf (parseSendKeyHostKey c.dataOut)).map fun key => .hostKey key.1 key.2
    else none
  else none

namespace DriveAuthState

variable {aes : Aes128}

/-- The state after the call that a command makes, if any. -/
def afterCall (aes : Aes128) (a : DriveAuthState) (call : Option Call) : DriveAuthState :=
  (call.map fun c => (perform aes c a).2).getD a

@[simp] theorem afterCall_none (a : DriveAuthState) : afterCall aes a none = a := rfl

@[simp] theorem afterCall_some (a : DriveAuthState) (c : Call) :
    afterCall aes a (some c) = (perform aes c a).2 := rfl

theorem after_cons (a : DriveAuthState) (c : Call) (calls : List Call) :
    after aes a (c :: calls) = after aes (perform aes c a).2 calls := rfl

/-- What a drive is given before any host reaches it. -/
def identity (a : DriveAuthState) : DriveAuthState :=
  { a with hostNonce := none, hostCert := none, busKey := none }

theorem perform_identity (c : Call) (a : DriveAuthState) :
    identity (perform aes c a).2 = identity a := by
  rcases @perform_cases aes c a with h | ⟨_, _, _, _, _, h⟩ | ⟨_, _, _, _, _, _, _, _, _, h⟩
  · rw [h]
  · rw [h]
    rfl
  · rw [h]
    rfl

theorem driveNonce_of_identity {a b : DriveAuthState} (h : identity a = identity b) :
    a.driveNonce = b.driveNonce := by
  have hfield := congrArg DriveAuthState.driveNonce h
  exact hfield

theorem aacsLaPub_of_identity {a b : DriveAuthState} (h : identity a = identity b) :
    a.aacsLaPub = b.aacsLaPub := by
  have hfield := congrArg DriveAuthState.aacsLaPub h
  exact hfield

theorem dk_of_identity {a b : DriveAuthState} (h : identity a = identity b) : a.dk = b.dk := by
  have hfield := congrArg DriveAuthState.dk h
  exact hfield

theorem after_identity (a : DriveAuthState) (calls : List Call) :
    identity (after aes a calls) = identity a := by
  induction calls generalizing a with
  | nil => rfl
  | cons c calls ih => rw [after_cons, ih, perform_identity]

end DriveAuthState

namespace MockDrive

variable {aes : Aes128} {s : MockDrive}

theorem executeReportKey_keeps_auth (cdb : Bytes 12) :
    Proc.Keeps MockDrive.auth (executeReportKey aes cdb) := by
  apply Proc.Keeps.bind (.lift _)
  intro rk
  apply Proc.Keeps.bind (.lift _)
  intro _
  apply Proc.Keeps.get_bind
  intro s
  apply Proc.Keeps.ite (.pure _)
  apply Proc.Keeps.ite
  · cases s.auth with
    | none => exact .pure _
    | some a => exact .pure _
  apply Proc.Keeps.ite
  · cases s.auth with
    | none => exact .pure _
    | some a =>
      apply Proc.Keeps.bind (.lift _)
      intro key
      exact .pure _
  apply Proc.Keeps.ite (.pure _)
  apply Proc.Keeps.ite
  · apply Proc.Keeps.modify_pure
    exact fun _ => rfl
  apply Proc.Keeps.ite
  · apply Proc.Keeps.modify_pure
    exact fun _ => rfl
  exact .lift _

theorem executeReadDiscStructure_keeps_auth (cdb : Bytes 12) :
    Proc.Keeps MockDrive.auth (executeReadDiscStructure aes cdb) := by
  apply Proc.Keeps.bind (.lift _)
  intro rds
  apply Proc.Keeps.get_bind
  intro s
  apply Proc.Keeps.ite (.pure _)
  apply Proc.Keeps.ite (.pure _)
  apply Proc.Keeps.ite (.pure _)
  apply Proc.Keeps.ite
  · apply Proc.Keeps.bind (.lift _)
    intro keys
    apply Proc.Keeps.modify_pure
    exact fun _ => rfl
  apply Proc.Keeps.ite
  · apply Proc.Keeps.bind (.lift _)
    intro out
    exact .pure _
  apply Proc.Keeps.ite
  · apply Proc.Keeps.bind (.lift _)
    intro out
    exact .pure _
  exact .lift _

theorem executeSendDiscStructure_keeps_auth (cdb : Bytes 12) (direction : DataDirection)
    (dataOut : List UInt8) :
    Proc.Keeps MockDrive.auth (executeSendDiscStructure aes cdb direction dataOut) := by
  apply Proc.Keeps.bind (.lift _)
  intro sds
  apply Proc.Keeps.bind (.lift _)
  intro _
  apply Proc.Keeps.get_bind
  intro s
  apply Proc.Keeps.ite
  · apply Proc.Keeps.bind (.lift _)
    intro wireKwd
    apply Proc.Keeps.bind (.lift _)
    intro kwdPlain
    apply Proc.Keeps.modify_pure
    exact fun _ => rfl
  apply Proc.Keeps.ite
  · apply Proc.Keeps.bind (.lift _)
    intro newExtents
    apply Proc.Keeps.bind (.lift _)
    intro _
    apply Proc.Keeps.bind (.lift _)
    intro _
    apply Proc.Keeps.modify_pure
    exact fun _ => rfl
  exact .lift _

/-- A method of the state and a capture: what the method leaves is there, accepted or not. -/
theorem onAuth_capture {p : Proc DriveAuthState AacsError Unit} {g : MockDrive → MockDrive}
    {r : ScsiResponse} (hg : ∀ s, (g s).auth = s.auth) {a : DriveAuthState} (ha : s.auth = some a) :
    ((onAuth p >>= fun _ => Proc.modify g >>= fun _ => pure r) s).2.auth = some (p a).2 := by
  have hfield : onAuth p s = ((p a).1, { s with auth := some (p a).2 }) := by
    rw [onAuth, Proc.onField, ha]
  rcases hp : p a with ⟨o, a'⟩
  rw [hp] at hfield
  cases o with
  | ok u =>
    rw [Proc.bind_of_ok hfield, Proc.modify_bind]
    exact hg _
  | err e => rw [Proc.bind_of_err hfield]
  | panic => rw [Proc.bind_of_panic hfield]

theorem parseCdb_sendKey {cdb : Bytes 12} (hop : cdb.get 0 = sendKeyOpcode) :
    ∃ sk, SendKey.parseCdb cdb = .ok sk ∧ sk.keyClass = cdb.get 7 ∧ sk.keyFormat =
      cdb.get 10 &&& 0x3F := by
  rw [SendKey.parseCdb, Outcome.refuseIf_neg (not_not_intro hop), Outcome.bind_ok]
  exact ⟨_, rfl, rfl, rfl⟩

/-- A `SEND KEY` command, whatever becomes of it. -/
theorem executeSendKey_auth {c : Command} {a : DriveAuthState} (hop : c.cdb.get 0 = sendKeyOpcode)
    (ha : s.auth = some a) : (executeSendKey c.cdb c.direction c.dataOut s).2.auth =
      some (DriveAuthState.afterCall aes a (authCall c)) := by
  obtain ⟨sk, hparse, hclass, hformat⟩ := parseCdb_sendKey hop
  rw [executeSendKey, hparse, Proc.lift_ok_bind, hclass, hformat]
  by_cases hkey : c.cdb.get 7 = keyClassAacs
  · rw [Outcome.refuseIf_neg (not_not_intro hkey), Proc.lift_ok_bind]
    by_cases hdir : c.direction = .toDevice
    · have hgo : ¬(c.direction ≠ .toDevice ∧ c.cdb.get 10 &&& 0x3F ≠ kfSendAacsInvalidateAgid) :=
        fun h => h.1 hdir
      have hsends : c.cdb.get 0 = sendKeyOpcode ∧ c.cdb.get 7 = keyClassAacs ∧ c.direction =
          .toDevice :=
        ⟨hop, hkey, hdir⟩
      rw [Outcome.refuseIf_neg hgo, Proc.lift_ok_bind, authCall, if_pos hsends]
      by_cases hchal : c.cdb.get 10 &&& 0x3F = kfSendAacsHostCertChal
      · rw [if_pos hchal, if_pos hchal]
        cases hpayload : parseSendKeyHostCertChal c.dataOut with
        | ok chal =>
          rw [Proc.lift_ok_bind]
          apply (onAuth_capture _ ha).trans rfl
          exact fun _ => rfl
        | err e => exact ha
        | panic => exact ha
      · rw [if_neg hchal, if_neg hchal]
        by_cases hhost : c.cdb.get 10 &&& 0x3F = kfSendAacsHostKey
        · rw [if_pos hhost, if_pos hhost]
          cases hpayload : parseSendKeyHostKey c.dataOut with
          | ok key =>
            rw [Proc.lift_ok_bind]
            apply (onAuth_capture _ ha).trans rfl
            exact fun _ => rfl
          | err e => exact ha
          | panic => exact ha
        · rw [if_neg hhost, if_neg hhost]
          by_cases hinvalidate : c.cdb.get 10 &&& 0x3F = kfSendAacsInvalidateAgid
          · rw [if_pos hinvalidate]
            exact ha
          · rw [if_neg hinvalidate]
            exact ha
    · have hcall : authCall c = none := if_neg fun h => hdir h.2.2
      rw [hcall]
      by_cases hinvalidate : c.cdb.get 10 &&& 0x3F = kfSendAacsInvalidateAgid
      · have hchal : ¬c.cdb.get 10 &&& 0x3F = kfSendAacsHostCertChal := by
          rw [hinvalidate]
          decide
        have hhost : ¬c.cdb.get 10 &&& 0x3F = kfSendAacsHostKey := by
          rw [hinvalidate]
          decide
        rw [Outcome.refuseIf_neg fun h => h.2 hinvalidate, Proc.lift_ok_bind, if_neg hchal,
          if_neg hhost, if_pos hinvalidate]
        exact ha
      · rw [Outcome.refuseIf_pos ⟨hdir, hinvalidate⟩]
        exact ha
  · have hcall : authCall c = none := if_neg fun h => hkey h.2.1
    rw [Outcome.refuseIf_pos hkey, hcall]
    exact ha

/-- One command: the authentication state makes the step of the call it carries. -/
theorem execute_auth {a : DriveAuthState} (ha : s.auth = some a) (c : Command) :
    (execute aes c s).2.auth = some (DriveAuthState.afterCall aes a (authCall c)) := by
  by_cases hop : c.cdb.get 0 = sendKeyOpcode
  · have hreport : sendKeyOpcode ≠ reportKeyOpcode := by decide
    have hexec : execute aes c = executeSendKey c.cdb c.direction c.dataOut := by
      rw [execute, hop, if_neg hreport, if_pos rfl]
    rw [hexec]
    exact executeSendKey_auth hop ha
  · have hcall : authCall c = none := if_neg fun h => hop h.1
    have hkeeps : Proc.Keeps MockDrive.auth (execute aes c) := by
      rw [execute, if_neg hop]
      apply Proc.Keeps.ite (executeReportKey_keeps_auth _)
      apply Proc.Keeps.ite (executeReadDiscStructure_keeps_auth _)
      apply Proc.Keeps.ite (executeSendDiscStructure_keeps_auth _ _ _)
      exact .lift _
    rw [hcall]
    exact (hkeeps s).trans ha

/-- A run of commands is a run of calls on the authentication state. -/
theorem after_auth {a : DriveAuthState} (ha : s.auth = some a) (cs : List Command) :
    (after aes s cs).auth = some (DriveAuthState.after aes a (cs.filterMap authCall)) := by
  induction cs generalizing s a with
  | nil => exact ha
  | cons c cs ih =>
    rw [after_cons, ih (execute_auth ha c)]
    cases hcall : authCall c with
    | none => rw [List.filterMap_cons_none hcall, DriveAuthState.afterCall_none]
    | some call => rw [List.filterMap_cons_some hcall, DriveAuthState.afterCall_some,
      DriveAuthState.after_cons]

/-- A host key that the drive accepts. -/
def Rekeys (aes : Aes128) (s : MockDrive) (c : Command) : Prop := c.IsHostKey ∧ Accepts aes s c

/-- No command of the run is an accepted host key. -/
def Undisturbed (aes : Aes128) (s : MockDrive) (cs : List Command) : Prop :=
  ∀ before c rest, cs = before ++ c :: rest → ¬Rekeys aes (after aes s before) c

theorem Undisturbed.head {c : Command} {cs : List Command} (h : Undisturbed aes s (c :: cs)) :
    ¬Rekeys aes s c :=
  h [] c cs rfl

theorem Undisturbed.tail {c : Command} {cs : List Command} (h : Undisturbed aes s (c :: cs)) :
    Undisturbed aes (execute aes c s).2 cs := by
  intro before d rest hcs
  exact h (c :: before) d rest (congrArg (c :: ·) hcs)

theorem authCall_hostKey {c : Command} {hv hsig : Bytes 40}
    (h : authCall c = some (.hostKey hv hsig)) :
    c.IsHostKey ∧ parseSendKeyHostKey c.dataOut = .ok (hv, hsig) := by
  rw [authCall] at h
  by_cases hsends : c.cdb.get 0 = sendKeyOpcode ∧ c.cdb.get 7 = keyClassAacs ∧
    c.direction = .toDevice
  · rw [if_pos hsends] at h
    by_cases hchal : c.cdb.get 10 &&& 0x3F = kfSendAacsHostCertChal
    · rw [if_pos hchal] at h
      obtain ⟨chal, -, hcall⟩ := Option.map_eq_some_iff.mp h
      cases hcall
    · rw [if_neg hchal] at h
      by_cases hhost : c.cdb.get 10 &&& 0x3F = kfSendAacsHostKey
      · rw [if_pos hhost] at h
        obtain ⟨key, hkey, hcall⟩ := Option.map_eq_some_iff.mp h
        cases hcall
        exact ⟨⟨hsends.1, hhost⟩, valueOf_eq_some.mp hkey⟩
      · rw [if_neg hhost] at h
        cases h
  · rw [if_neg hsends] at h
    cases h

/-- One command: it leaves the bus key, or it is a host key that the stored host signed. -/
theorem execute_busKey {a : DriveAuthState} (ha : s.auth = some a) (c : Command) :
    (execute aes c s).2.busKey = s.busKey ∨
      Rekeys aes s c ∧ ∃ hv hsig stored cert bk, parseSendKeyHostKey c.dataOut = .ok (hv, hsig) ∧
        a.hostCert = some stored ∧ Certificate.parse stored certTypeHost = .ok cert ∧
        DriveAuthState.Authenticates a cert.publicKey hv hsig bk ∧
          (execute aes c s).2.busKey = some bk := by
  by_cases haccept : Accepts aes s c
  · have hauth := @execute_auth aes s a ha c
    rw [busKey_of_auth hauth, busKey_of_auth ha]
    cases hcall : authCall c with
    | none => exact .inl rfl
    | some call =>
      rw [DriveAuthState.afterCall_some]
      rcases @DriveAuthState.perform_cases aes call a with hsame | ⟨_, _, _, _, _, hsame⟩ |
        ⟨hv, hsig, stored, cert, bk, rfl, hstored, hparse, hauthentic, hnew⟩
      · rw [hsame]
        exact .inl rfl
      · rw [hsame]
        exact .inl rfl
      · obtain ⟨hhost, hpayload⟩ := authCall_hostKey hcall
        exact .inr ⟨⟨hhost, haccept⟩, hv, hsig, stored, cert, bk, hpayload, hstored,
          hparse, hauthentic, congrArg DriveAuthState.busKey hnew⟩
  · rw [execute_of_not_accepts haccept]
    exact .inl rfl

theorem Undisturbed.busKey {a : DriveAuthState} (ha : s.auth = some a) {cs : List Command}
    (h : Undisturbed aes s cs) : (after aes s cs).busKey = s.busKey := by
  induction cs generalizing s a with
  | nil => rfl
  | cons c cs ih =>
    rw [after_cons, ih (execute_auth ha c) h.tail]
    rcases @execute_busKey aes s a ha c with hsame | ⟨hrekeys, -⟩
    · exact hsame
    · exact absurd hrekeys h.head

/-- A drive of which a bus key is known never goes back to having none. -/
theorem isSome_busKey_after {a : DriveAuthState} (ha : s.auth = some a)
    (hbk : s.busKey.isSome = true) (cs : List Command) : (after aes s cs).busKey.isSome = true := by
  induction cs generalizing s a with
  | nil => exact hbk
  | cons c cs ih =>
    apply ih (execute_auth ha c)
    rcases @execute_busKey aes s a ha c with hsame | ⟨-, _, _, _, _, bk, -, -, -, -, hnew⟩
    · rw [hsame]
      exact hbk
    · rw [hnew]
      rfl

/-- The last bus key of a run is that of its start, or was set by an accepted host key. -/
theorem exists_rekeys {a : DriveAuthState} (ha : s.auth = some a) {cs : List Command}
    {bk : Bytes 16} (h : (after aes s cs).busKey = some bk) : s.busKey = some bk ∨
      ∃ before c rest, cs = before ++ c :: rest ∧ Rekeys aes (after aes s before) c ∧
        ∃ hv hsig stored cert, parseSendKeyHostKey c.dataOut = .ok (hv, hsig) ∧
          (DriveAuthState.after aes a (before.filterMap authCall)).hostCert = some stored ∧
          Certificate.parse stored certTypeHost = .ok cert ∧
          DriveAuthState.Authenticates a cert.publicKey hv hsig bk ∧
          (a.HostsCertified → DriveAuthState.Certified a.aacsLaPub stored cert) := by
  induction cs using List.reverseRecOn with
  | nil => exact .inl h
  | append_singleton cs c ih =>
    have hstep : after aes s (cs ++ [c]) = (execute aes c (after aes s cs)).2 := by simp [after]
    have hauth := @after_auth aes s a ha cs
    have hsame := @DriveAuthState.after_identity aes a (cs.filterMap authCall)
    rw [hstep] at h
    rcases @execute_busKey aes _ _ hauth c with hkept | ⟨hrekeys, hv, hsig, stored, cert, bk',
      hpayload, hstored, hparse, hauthentic, hnew⟩
    · rw [hkept] at h
      rcases ih h with hstart | ⟨before, d, rest, rfl, hset⟩
      · exact .inl hstart
      · exact .inr ⟨before, d, rest ++ [c], by simp, hset⟩
    · obtain rfl := Option.some.inj (hnew.symm.trans h)
      refine .inr ⟨cs, c, [], rfl, hrekeys, hv, hsig, stored, cert, hpayload, hstored,
        hparse, ?_, ?_⟩
      · rw [DriveAuthState.Authenticates, DriveAuthState.driveNonce_of_identity hsame,
          DriveAuthState.dk_of_identity hsame] at hauthentic
        exact hauthentic
      · intro hcertified
        obtain ⟨cert', hcert'⟩ := hcertified.after (cs.filterMap authCall) stored hstored
        obtain rfl := Outcome.ok.inj (hparse.symm.trans hcert'.1)
        rwa [DriveAuthState.aacsLaPub_of_identity hsame] at hcert'

/-- Over every run the authentication state of the drive runs through the calls that the commands
carry. Once there is a bus key there is always one, and the one there is was there at the start
or was set by an accepted host key, which the host whose certificate was stored had signed; that
certificate is certified when none but certified ones were stored at the start. -/
theorem session_refines {a : DriveAuthState} (ha : s.auth = some a) (cs : List Command) :
    (after aes s cs).auth = some (DriveAuthState.after aes a (cs.filterMap authCall)) ∧
    (s.busKey.isSome = true → (after aes s cs).busKey.isSome = true) ∧
    ∀ bk, (after aes s cs).busKey = some bk → s.busKey = some bk ∨
      ∃ before c rest, cs = before ++ c :: rest ∧ Rekeys aes (after aes s before) c ∧
        ∃ hv hsig stored cert, parseSendKeyHostKey c.dataOut = .ok (hv, hsig) ∧
          (DriveAuthState.after aes a (before.filterMap authCall)).hostCert = some stored ∧
          Certificate.parse stored certTypeHost = .ok cert ∧
          DriveAuthState.Authenticates a cert.publicKey hv hsig bk ∧
          (a.HostsCertified → DriveAuthState.Certified a.aacsLaPub stored cert) :=
  ⟨after_auth ha cs, fun hbk => isSome_busKey_after ha hbk cs, fun _ h => exists_rekeys ha h⟩

/-- A fresh drive takes the key of a host that the authority has certified. -/
theorem session_refines_keyed : ∃ (driveCert hostCert : Bytes 92) (hsig : Signature)
    (bk : Bytes 16),
    let start := DriveAuthState.new driveCert U160.one U160.one (Bytes.zero 20) (publicKey U160.one)
    let cs := handshakeCommands hostCert (hostPoint U160.one) hsig
    (after Aes128.fips197 (oneDrive driveCert) cs).busKey = some bk ∧
      ∃ before c rest, cs = before ++ c :: rest ∧
        Rekeys Aes128.fips197 (after Aes128.fips197 (oneDrive driveCert) before) c ∧
        ∃ hv hsig stored cert, parseSendKeyHostKey c.dataOut = .ok (hv, hsig) ∧
          (DriveAuthState.after Aes128.fips197 start (before.filterMap authCall)).hostCert =
            some stored ∧
          Certificate.parse stored certTypeHost = .ok cert ∧
          DriveAuthState.Authenticates start cert.publicKey hv hsig bk ∧
          DriveAuthState.Certified start.aacsLaPub stored cert := by
  obtain ⟨driveCert, -⟩ := signatures_one
  obtain ⟨hostCert, hsig, bk, hbk⟩ :=
    @exists_handshake_one Aes128.fips197 (oneDrive driveCert) _ rfl rfl rfl
  refine ⟨driveCert, hostCert, hsig, _, hbk, ?_⟩
  rcases (session_refines rfl _).2.2 _ hbk with hstart | ⟨before, c, rest, hcs, hrekeys, hv, hsig',
    stored, cert', hpayload, hstored, hparse', hauthentic, hcertified⟩
  · cases hstart
  · exact ⟨before, c, rest, hcs, hrekeys, hv, hsig', stored, cert', hpayload, hstored,
      hparse', hauthentic, hcertified (DriveAuthState.hostsCertified_new _ _ _ _ _)⟩

end MockDrive

end Ake
