import Aacs.MockDrive

/-!
# Runs of the synthetic drive

A command that the drive refuses leaves no trace, and of those it accepts only two
write anything that a later command reads back as data. Both are said once here;
what holds of whole runs follows from them.
-/
namespace Ake

open Mmc

namespace DriveAuthState

theorem acceptHostCertChallenge_atomic (hostNonce : Bytes 20) (hostCert : Bytes 92) :
    (acceptHostCertChallenge hostNonce hostCert).Atomic := by
  apply Proc.Atomic.lift_bind
  intro cert
  apply Proc.Atomic.get_bind
  intro s
  apply Proc.Atomic.lift_bind
  intro _
  apply Proc.Succeeds.atomic
  apply Proc.Succeeds.modify_bind
  intro _
  exact .modify _

theorem acceptHostKey_atomic (hv hsig : Bytes 40) : (acceptHostKey hv hsig).Atomic := by
  apply Proc.Atomic.get_bind
  intro s
  apply Proc.Atomic.lift_bind
  intro hostCertRaw
  apply Proc.Atomic.lift_bind
  intro hostCert
  apply Proc.Atomic.lift_bind
  intro _
  apply Proc.Atomic.lift_bind
  intro hvPoint
  exact (Proc.Succeeds.modify _).atomic

end DriveAuthState

namespace MockDrive

variable {aes : Aes128} {s : MockDrive}

theorem busKey_of_auth {a : DriveAuthState} (ha : s.auth = some a) : s.busKey = a.busKey := by
  rw [busKey, ha]
  rfl

theorem onAuth_atomic {p : Proc DriveAuthState AacsError Unit} (hp : p.Atomic) :
    (onAuth p).Atomic := by
  apply Proc.Atomic.onField _ hp
  intro s a hauth
  cases s
  exact congrArg _ hauth.symm

theorem executeReportKey_atomic (cdb : Bytes 12) : (executeReportKey aes cdb).Atomic := by
  apply Proc.Atomic.lift_bind
  intro rk
  apply Proc.Atomic.lift_bind
  intro _
  apply Proc.Atomic.get_bind
  intro s
  apply Proc.Atomic.ite (Proc.Succeeds.pure _).atomic
  apply Proc.Atomic.ite
  · cases s.auth with
    | none => exact (Proc.Succeeds.pure _).atomic
    | some a => exact (Proc.Succeeds.pure _).atomic
  apply Proc.Atomic.ite
  · cases s.auth with
    | none => exact (Proc.Succeeds.pure _).atomic
    | some a =>
      apply Proc.Atomic.lift_bind
      intro key
      exact (Proc.Succeeds.pure _).atomic
  apply Proc.Atomic.ite (Proc.Succeeds.pure _).atomic
  apply Proc.Atomic.ite (Proc.Succeeds.modify_pure _ _).atomic
  apply Proc.Atomic.ite (Proc.Succeeds.modify_pure _ _).atomic
  exact .lift _

theorem executeSendKey_atomic (cdb : Bytes 12) (direction : DataDirection) (dataOut : List UInt8) :
    (executeSendKey cdb direction dataOut).Atomic := by
  apply Proc.Atomic.lift_bind
  intro sk
  apply Proc.Atomic.lift_bind
  intro _
  apply Proc.Atomic.lift_bind
  intro _
  apply Proc.Atomic.ite
  · apply Proc.Atomic.lift_bind
    intro chal
    apply (onAuth_atomic (DriveAuthState.acceptHostCertChallenge_atomic _ _)).bind
    intro _
    exact .modify_pure _ _
  apply Proc.Atomic.ite
  · apply Proc.Atomic.lift_bind
    intro key
    apply (onAuth_atomic (DriveAuthState.acceptHostKey_atomic _ _)).bind
    intro _
    exact .modify_pure _ _
  apply Proc.Atomic.ite (Proc.Succeeds.modify_pure _ _).atomic
  exact .lift _

theorem executeReadDiscStructure_atomic (cdb : Bytes 12) :
    (executeReadDiscStructure aes cdb).Atomic := by
  apply Proc.Atomic.lift_bind
  intro rds
  apply Proc.Atomic.get_bind
  intro s
  apply Proc.Atomic.ite (Proc.Succeeds.pure _).atomic
  apply Proc.Atomic.ite (Proc.Succeeds.pure _).atomic
  apply Proc.Atomic.ite (Proc.Succeeds.pure _).atomic
  apply Proc.Atomic.ite
  · apply Proc.Atomic.lift_bind
    intro keys
    exact (Proc.Succeeds.modify_pure _ _).atomic
  apply Proc.Atomic.ite
  · apply Proc.Atomic.lift_bind
    intro out
    exact (Proc.Succeeds.pure _).atomic
  apply Proc.Atomic.ite
  · apply Proc.Atomic.lift_bind
    intro out
    exact (Proc.Succeeds.pure _).atomic
  exact .lift _

theorem executeSendDiscStructure_atomic (cdb : Bytes 12) (direction : DataDirection)
    (dataOut : List UInt8) : (executeSendDiscStructure aes cdb direction dataOut).Atomic := by
  apply Proc.Atomic.lift_bind
  intro sds
  apply Proc.Atomic.lift_bind
  intro _
  apply Proc.Atomic.get_bind
  intro s
  apply Proc.Atomic.ite
  · apply Proc.Atomic.lift_bind
    intro wireKwd
    apply Proc.Atomic.lift_bind
    intro kwdPlain
    exact (Proc.Succeeds.modify_pure _ _).atomic
  apply Proc.Atomic.ite
  · apply Proc.Atomic.lift_bind
    intro newExtents
    apply Proc.Atomic.lift_bind
    intro _
    apply Proc.Atomic.lift_bind
    intro _
    exact (Proc.Succeeds.modify_pure _ _).atomic
  exact .lift _

theorem execute_atomic (c : Command) : (execute aes c).Atomic := by
  apply Proc.Atomic.ite (executeReportKey_atomic _)
  apply Proc.Atomic.ite (executeSendKey_atomic _ _ _)
  apply Proc.Atomic.ite (executeReadDiscStructure_atomic _)
  apply Proc.Atomic.ite (executeSendDiscStructure_atomic _ _ _)
  exact .lift _

/-- A command that ends in an error leaves the whole drive as it was. -/
theorem execute_err (aes : Aes128) (c : Command) (s : MockDrive) (e : AacsError)
    (h : (execute aes c s).1 = .err e) : (execute aes c s).2 = s := by
  apply execute_atomic c s
  intro r hr
  rw [hr] at h
  cases h

/-- A drive in the middle of a handshake. -/
def unauthenticated : MockDrive :=
  { default with auth := some (DriveAuthState.new (Bytes.zero 92) U160.one U160.one (Bytes.zero 20)
    Point.generator) }

def readDiscStructureCommand (rds : ReadDiscStructure) : Command :=
  ⟨rds.cdb, .fromDevice, [], rds.allocationLength⟩

def sendDiscStructureCommand (sds : SendDiscStructure) (dataOut : List UInt8) : Command :=
  ⟨sds.cdb, .toDevice, dataOut, sds.parameterListLength⟩

/-- A write data key that arrives before there is a bus key. -/
theorem execute_err_without_busKey :
    (execute Aes128.fips197
      (sendDiscStructureCommand (.aacsWriteDataKey 0) ([0x00, 0x12, 0, 0] ++ List.replicate 16 0))
      unauthenticated).2 = unauthenticated :=
  execute_err Aes128.fips197 _ unauthenticated
    (.invalidValue "SEND_DISC_STRUCTURE Format 0x84 without Bus Key" 0) rfl

/-- The command is a `READ DISC STRUCTURE` of that format. -/
def Reads (c : Command) (format : UInt8) : Prop :=
  c.cdb.get 0 = readDiscStructureOpcode ∧ c.cdb.get 7 = format

/-- The command is a `SEND DISC STRUCTURE` of that format. -/
def Sends (c : Command) (format : UInt8) : Prop :=
  c.cdb.get 0 = sendDiscStructureOpcode ∧ c.cdb.get 7 = format

/-- The drive carries the command out. -/
def Accepts (aes : Aes128) (s : MockDrive) (c : Command) : Prop := ∃ r, (execute aes c s).1 = .ok r

/-- Everything but the captured requests and the progress of the handshake. -/
def kept (s : MockDrive) : MockDrive × Bool :=
  ({ s with
      lastBindingNonceOp := none
      lastDataKeysRead := false
      lastHostCertChal := none
      lastHostKey := none
      agidInvalidated := false
      auth := none },
    s.auth.isSome)

theorem onAuth_keeps (p : Proc DriveAuthState AacsError Unit) : Proc.Keeps kept (onAuth p) := by
  apply Proc.Keeps.onField
  intro s a a' hauth
  simp only [kept, hauth, Option.isSome_some]

theorem executeReportKey_keeps (cdb : Bytes 12) : Proc.Keeps kept (executeReportKey aes cdb) := by
  apply Proc.Keeps.bind (.lift _)
  intro rk
  apply Proc.Keeps.bind (.lift _)
  intro _
  apply Proc.Keeps.get_bind
  intro s
  apply Proc.Keeps.ite (.pure _)
  apply Proc.Keeps.ite
  · cases s.auth with
    | none => exact .pure _
    | some a => exact .pure _
  apply Proc.Keeps.ite
  · cases s.auth with
    | none => exact .pure _
    | some a =>
      apply Proc.Keeps.bind (.lift _)
      intro key
      exact .pure _
  apply Proc.Keeps.ite (.pure _)
  apply Proc.Keeps.ite
  · apply Proc.Keeps.modify_pure
    exact fun _ => rfl
  apply Proc.Keeps.ite
  · apply Proc.Keeps.modify_pure
    exact fun _ => rfl
  exact .lift _

theorem executeSendKey_keeps (cdb : Bytes 12) (direction : DataDirection) (dataOut : List UInt8) :
    Proc.Keeps kept (executeSendKey cdb direction dataOut) := by
  apply Proc.Keeps.bind (.lift _)
  intro sk
  apply Proc.Keeps.bind (.lift _)
  intro _
  apply Proc.Keeps.bind (.lift _)
  intro _
  apply Proc.Keeps.ite
  · apply Proc.Keeps.bind (.lift _)
    intro chal
    apply Proc.Keeps.bind (onAuth_keeps _)
    intro _
    apply Proc.Keeps.modify_pure
    exact fun _ => rfl
  apply Proc.Keeps.ite
  · apply Proc.Keeps.bind (.lift _)
    intro key
    apply Proc.Keeps.bind (onAuth_keeps _)
    intro _
    apply Proc.Keeps.modify_pure
    exact fun _ => rfl
  apply Proc.Keeps.ite
  · apply Proc.Keeps.modify_pure
    exact fun _ => rfl
  exact .lift _

theorem executeReadDiscStructure_keeps (cdb : Bytes 12) :
    Proc.Keeps kept (executeReadDiscStructure aes cdb) := by
  apply Proc.Keeps.bind (.lift _)
  intro rds
  apply Proc.Keeps.get_bind
  intro s
  apply Proc.Keeps.ite (.pure _)
  apply Proc.Keeps.ite (.pure _)
  apply Proc.Keeps.ite (.pure _)
  apply Proc.Keeps.ite
  · apply Proc.Keeps.bind (.lift _)
    intro keys
    apply Proc.Keeps.modify_pure
    exact fun _ => rfl
  apply Proc.Keeps.ite
  · apply Proc.Keeps.bind (.lift _)
    intro out
    exact .pure _
  apply Proc.Keeps.ite
  · apply Proc.Keeps.bind (.lift _)
    intro out
    exact .pure _
  exact .lift _

/-- What an accepted `SEND DISC STRUCTURE` did. -/
theorem executeSendDiscStructure_eq_ok {cdb : Bytes 12} {direction : DataDirection}
    {dataOut : List UInt8} {r : ScsiResponse} {s' : MockDrive}
    (h : executeSendDiscStructure aes cdb direction dataOut s = (.ok r, s')) :
    (cdb.get 7 = formatAacsWriteDataKey ∧ ∃ wireKwd kwdPlain,
      parseSendDiscStructureWriteDataKey dataOut = .ok wireKwd ∧
      underBusKey s (fun bk kwd => aes.decrypt bk kwd)
        "SEND_DISC_STRUCTURE Format 0x84 without Bus Key" wireKwd = .ok kwdPlain ∧
      s' = { s with writeDataKey := kwdPlain, lastWriteDataKeySent := some wireKwd }) ∨
    (cdb.get 7 = formatAacsBusEncryptionSectorExtents ∧ ∃ extents,
      parseSendDiscStructureBusEncryptionSectorExtents dataOut = .ok extents ∧
      extents.length ≤ s.maxBusEncryptionSectorExtents.toNat ∧
      validateBusEncryptionSectorExtents extents s.mediaCapacityLba = .ok () ∧
      s' = { s with busEncryptionSectorExtents := extents }) := by
  obtain ⟨sds, hsds, h⟩ := Proc.lift_bind_eq_ok.mp h
  obtain ⟨_, -, h⟩ := Proc.lift_bind_eq_ok.mp h
  rw [Proc.get_bind, SendDiscStructure.parseCdb_format hsds] at h
  by_cases hkey : cdb.get 7 = formatAacsWriteDataKey
  · rw [if_pos hkey] at h
    obtain ⟨wireKwd, hwire, h⟩ := Proc.lift_bind_eq_ok.mp h
    obtain ⟨kwdPlain, hplain, h⟩ := Proc.lift_bind_eq_ok.mp h
    exact .inl ⟨hkey, wireKwd, kwdPlain, hwire, hplain, (congrArg Prod.snd h).symm⟩
  rw [if_neg hkey] at h
  by_cases hextents : cdb.get 7 = formatAacsBusEncryptionSectorExtents
  · rw [if_pos hextents] at h
    obtain ⟨extents, hparse, h⟩ := Proc.lift_bind_eq_ok.mp h
    obtain ⟨_, hcount, h⟩ := Proc.lift_bind_eq_ok.mp h
    obtain ⟨_, hvalid, h⟩ := Proc.lift_bind_eq_ok.mp h
    have hle := not_lt.mp (Outcome.refuseIf_eq_ok.mp hcount)
    exact .inr ⟨hextents, extents, hparse, hle, hvalid, (congrArg Prod.snd h).symm⟩
  · rw [if_neg hextents] at h
    cases congrArg Prod.fst h

theorem execute_keeps {c : Command} (hop : c.cdb.get 0 ≠ sendDiscStructureOpcode) :
    Proc.Keeps kept (execute aes c) := by
  rw [execute, if_neg hop]
  apply Proc.Keeps.ite (executeReportKey_keeps _)
  apply Proc.Keeps.ite (executeSendKey_keeps _ _ _)
  apply Proc.Keeps.ite (executeReadDiscStructure_keeps _)
  exact .lift _

theorem execute_of_sends {c : Command} {format : UInt8} (h : Sends c format) :
    execute aes c = executeSendDiscStructure aes c.cdb c.direction c.dataOut := by
  have hreport : sendDiscStructureOpcode ≠ reportKeyOpcode := by decide
  have hsend : sendDiscStructureOpcode ≠ sendKeyOpcode := by decide
  have hread : sendDiscStructureOpcode ≠ readDiscStructureOpcode := by decide
  rw [execute, h.1]
  rw [if_neg hreport, if_neg hsend, if_neg hread, if_pos rfl]

theorem execute_of_reads {c : Command} {format : UInt8} (h : Reads c format) :
    execute aes c = executeReadDiscStructure aes c.cdb := by
  have hreport : readDiscStructureOpcode ≠ reportKeyOpcode := by decide
  have hsend : readDiscStructureOpcode ≠ sendKeyOpcode := by decide
  rw [execute, h.1]
  rw [if_neg hreport, if_neg hsend, if_pos rfl]

theorem Accepts.exists_state {c : Command} (h : Accepts aes s c) :
    ∃ r, execute aes c s = (.ok r, (execute aes c s).2) := by
  obtain ⟨r, hr⟩ := h
  exact ⟨r, Prod.ext hr rfl⟩

theorem execute_of_not_accepts {c : Command} (h : ¬Accepts aes s c) : (execute aes c s).2 = s :=
  execute_atomic c s fun r hr => h ⟨r, hr⟩

/-- A command that is carried out stores a write data key or a list of extents; any other
keeps everything but what it captures. -/
theorem execute_cases (aes : Aes128) (c : Command) (s : MockDrive) :
    (Sends c formatAacsWriteDataKey ∧ Accepts aes s c ∧ ∃ wireKwd kwdPlain,
      parseSendDiscStructureWriteDataKey c.dataOut = .ok wireKwd ∧
      underBusKey s (fun bk kwd => aes.decrypt bk kwd)
        "SEND_DISC_STRUCTURE Format 0x84 without Bus Key" wireKwd = .ok kwdPlain ∧
      (execute aes c s).2 =
      { s with writeDataKey := kwdPlain, lastWriteDataKeySent := some wireKwd }) ∨
    (Sends c formatAacsBusEncryptionSectorExtents ∧ Accepts aes s c ∧ ∃ extents,
      parseSendDiscStructureBusEncryptionSectorExtents c.dataOut = .ok extents ∧
      extents.length ≤ s.maxBusEncryptionSectorExtents.toNat ∧
      validateBusEncryptionSectorExtents extents s.mediaCapacityLba = .ok () ∧
      (execute aes c s).2 = { s with busEncryptionSectorExtents := extents }) ∨
    ((Sends c formatAacsWriteDataKey ∨ Sends c formatAacsBusEncryptionSectorExtents →
      ¬Accepts aes s c) ∧ kept (execute aes c s).2 = kept s) := by
  by_cases haccept : Accepts aes s c
  · by_cases hop : c.cdb.get 0 = sendDiscStructureOpcode
    · obtain ⟨r, hr⟩ := haccept.exists_state
      rw [execute_of_sends ⟨hop, rfl⟩] at hr ⊢
      rcases executeSendDiscStructure_eq_ok hr with ⟨hformat, hkey⟩ | ⟨hformat, hextents⟩
      · exact .inl ⟨⟨hop, hformat⟩, haccept, hkey⟩
      · exact .inr (.inl ⟨⟨hop, hformat⟩, haccept, hextents⟩)
    · right
      right
      constructor
      · rintro (hsend | hsend)
        · exact absurd hsend.1 hop
        · exact absurd hsend.1 hop
      · exact execute_keeps hop s
  · right
    right
    constructor
    · exact fun _ => haccept
    · rw [execute_of_not_accepts haccept]

/-- The drive after a sequence of commands, accepted or refused. -/
def after (aes : Aes128) (s : MockDrive) (cs : List Command) : MockDrive :=
  cs.foldl (fun s c => (execute aes c s).2) s

@[simp] theorem after_nil : after aes s [] = s := rfl

@[simp] theorem after_cons (c : Command) (cs : List Command) :
    after aes s (c :: cs) = after aes (execute aes c s).2 cs := rfl

/-- No command of the run is an accepted `SEND DISC STRUCTURE` of that format. -/
def Untouched (aes : Aes128) (s : MockDrive) (format : UInt8) (cs : List Command) : Prop :=
  ∀ before c rest, cs = before ++ c :: rest → Sends c format → ¬Accepts aes (after aes s before) c

theorem untouched_nil (format : UInt8) : Untouched aes s format [] := by
  intro before c rest hnil
  exact absurd hnil.symm (List.append_ne_nil_of_right_ne_nil before (List.cons_ne_nil c rest))

theorem Untouched.head {format : UInt8} {c : Command} {cs : List Command}
    (h : Untouched aes s format (c :: cs)) : Sends c format → ¬Accepts aes s c :=
  h [] c cs rfl

theorem Untouched.tail {format : UInt8} {c : Command} {cs : List Command}
    (h : Untouched aes s format (c :: cs)) : Untouched aes (execute aes c s).2 format cs := by
  intro before d rest hcs
  exact h (c :: before) d rest (congrArg (c :: ·) hcs)

end MockDrive

end Ake
