import Aacs.Among
import Aacs.CommandCodecs
import Aacs.MockDrive

/-!
# What a drive reads of a command

Of the twelve bytes of a command the drive reads the key class, the key format or
the format, and the addresses, but no AGID, no allocation length and no control
byte. Hosts that differ in these have one session.
-/

section Views

variable {κ ρ ε σ α : Type} {d : Device κ ρ ε σ} {view : κ → κ}

/-- The answers to some commands, and the state behind them. -/
def Device.transcript (d : Device κ ρ ε σ) (s : σ) : List κ → List (Outcome ε ρ) × σ
  | [] => ([], s)
  | c :: cs =>
    let r := d.execute s c
    let rest := transcript d r.2 cs
    (r.1 :: rest.1, rest.2)

theorem Device.transcript_map (h : ∀ s c, d.execute s (view c) = d.execute s c) (s : σ)
    (cs : List κ) :
    d.transcript s (cs.map view) = d.transcript s cs := by
  induction cs generalizing s with
  | nil => rfl
  | cons c cs ih =>
    rw [List.map_cons, transcript, transcript, h, ih]

/-- A program with other commands in the places of its own. -/
def Prog.mapCommands (f : κ → κ) : Prog κ ρ ε α → Prog κ ρ ε α
  | ret o => ret o
  | call c k => call (f c) fun x => mapCommands f (k x)

theorem Prog.run_mapCommands {f : κ → κ} (h : ∀ s c, d.execute s (f c) = d.execute s c)
    (p : Prog κ ρ ε α) (s : σ) : (run d (mapCommands f p) s).1 = (run d p s).1 := by
  induction p generalizing s with
  | ret o => rfl
  | call c k ih =>
    rw [mapCommands, run, run, h]
    exact ih _ _

end Views

theorem Proc.lift_map_bind {σ ε α β γ : Type} (f : α → β) (x : Outcome ε α) (g : β → Proc σ ε γ) :
    (Proc.lift (f <$> x) >>= g) = (Proc.lift x >>= fun a => g (f a)) := by
  cases x <;> rfl

namespace Mmc

theorem map_refuseOpcode {α β : Type} (f : α → β) (what : String) (expected opcode : UInt8)
    (value : α) :
    f <$> refuseOpcode what expected opcode value = refuseOpcode what expected opcode
      (f value) := by
  by_cases hopcode : opcode ≠ expected
  · rw [refuseOpcode, refuseOpcode, Outcome.refuseIf_pos hopcode]
    rfl
  · rw [refuseOpcode, refuseOpcode, Outcome.refuseIf_neg hopcode]
    rfl

namespace ReportKey

/-- The bits of the command that the drive reads. -/
def read : Bytes 12 :=
  ⟨[0xFF, 0x00, 0xFF, 0xFF, 0xFF, 0xFF, 0xFF, 0xFF, 0x00, 0x00, 0x3F, 0x00], rfl⟩

/-- The command without the fields that the drive does not read. -/
def asked (rk : ReportKey) : ReportKey := { rk with agid := 0, allocationLength := 0, control := 0 }

theorem parseCdb_read (b : Bytes 12) : parseCdb (Bytes.masked read b) = asked <$> parseCdb b := by
  obtain ⟨b₀, b₁, b₂, b₃, b₄, b₅, b₆, b₇, b₈, b₉, b₁₀, b₁₁, rfl⟩ := exists_bytes12 b
  have hmasked : Bytes.masked read ⟨[b₀, b₁, b₂, b₃, b₄, b₅, b₆, b₇, b₈, b₉, b₁₀, b₁₁], rfl⟩ =
      ⟨[b₀, 0, b₂, b₃, b₄, b₅, b₆, b₇, 0, 0, b₁₀ &&& 0x3F, 0], rfl⟩ := by
    apply Bytes.ext
    simp [Bytes.masked, read]
  have hvalue : ReportKey.mk b₇ (b₁₀ &&& 0x3F &&& 0x3F) (agidOf (b₁₀ &&& 0x3F))
    (u32FromBe b₂ b₃ b₄ b₅) b₆
      (u16FromBe 0 0) 0 = asked ⟨b₇, b₁₀ &&& 0x3F, agidOf b₁₀, u32FromBe b₂ b₃ b₄ b₅, b₆,
      u16FromBe b₈ b₉, b₁₁⟩ := by
    rw [and_and_self, agidOf_keyFormat]
    rfl
  rw [hmasked]
  exact (congrArg (refuseOpcode "REPORT_KEY opcode" reportKeyOpcode b₀) hvalue).trans
    (map_refuseOpcode asked _ _ _ _).symm

end ReportKey

namespace SendKey

def read : Bytes 12 :=
  ⟨[0xFF, 0x00, 0x00, 0x00, 0x00, 0x00, 0x00, 0xFF, 0x00, 0x00, 0x3F, 0x00], rfl⟩

def asked (sk : SendKey) : SendKey := { sk with agid := 0, parameterListLength := 0, control := 0 }

theorem parseCdb_read (b : Bytes 12) : parseCdb (Bytes.masked read b) = asked <$> parseCdb b := by
  obtain ⟨b₀, b₁, b₂, b₃, b₄, b₅, b₆, b₇, b₈, b₉, b₁₀, b₁₁, rfl⟩ := exists_bytes12 b
  have hmasked : Bytes.masked read ⟨[b₀, b₁, b₂, b₃, b₄, b₅, b₆, b₇, b₈, b₉, b₁₀, b₁₁], rfl⟩ =
      ⟨[b₀, 0, 0, 0, 0, 0, 0, b₇, 0, 0, b₁₀ &&& 0x3F, 0], rfl⟩ := by
    apply Bytes.ext
    simp [Bytes.masked, read]
  have hvalue : SendKey.mk b₇ (b₁₀ &&& 0x3F &&& 0x3F) (agidOf (b₁₀ &&& 0x3F)) (u16FromBe 0 0) 0 =
      asked ⟨b₇, b₁₀ &&& 0x3F, agidOf b₁₀, u16FromBe b₈ b₉, b₁₁⟩ := by
    rw [and_and_self, agidOf_keyFormat]
    rfl
  rw [hmasked]
  exact (congrArg (refuseOpcode "SEND_KEY opcode" sendKeyOpcode b₀) hvalue).trans
    (map_refuseOpcode asked _ _ _ _).symm

end SendKey

namespace ReadDiscStructure

def read : Bytes 12 :=
  ⟨[0xFF, 0x00, 0xFF, 0xFF, 0xFF, 0xFF, 0x00, 0xFF, 0x00, 0x00, 0x00, 0x00], rfl⟩

def asked (rds : ReadDiscStructure) : ReadDiscStructure :=
  { rds with mediaType := 0, layerNumber := 0, allocationLength := 0, agid := 0, control := 0 }

theorem parseCdb_read (b : Bytes 12) : parseCdb (Bytes.masked read b) = asked <$> parseCdb b := by
  obtain ⟨b₀, b₁, b₂, b₃, b₄, b₅, b₆, b₇, b₈, b₉, b₁₀, b₁₁, rfl⟩ := exists_bytes12 b
  have hmasked : Bytes.masked read ⟨[b₀, b₁, b₂, b₃, b₄, b₅, b₆, b₇, b₈, b₉, b₁₀, b₁₁], rfl⟩ =
      ⟨[b₀, 0, b₂, b₃, b₄, b₅, 0, b₇, 0, 0, 0, 0], rfl⟩ := by
    apply Bytes.ext
    simp [Bytes.masked, read]
  have hvalue : ReadDiscStructure.mk (0 &&& 0x0F) (u32FromBe b₂ b₃ b₄ b₅) 0 b₇ (u16FromBe 0 0)
    (agidOf 0) 0 =
      asked ⟨b₁ &&& 0x0F, u32FromBe b₂ b₃ b₄ b₅, b₆, b₇, u16FromBe b₈ b₉, agidOf b₁₀, b₁₁⟩ := by
    have hzero : (0 &&& 0x0F : UInt8) = 0 ∧ u16FromBe 0 0 = 0 ∧ agidOf 0 = 0 := by decide
    rw [hzero.1, hzero.2.1, hzero.2.2]
    rfl
  rw [hmasked]
  exact (congrArg (refuseOpcode "READ_DISC_STRUCTURE opcode" readDiscStructureOpcode b₀)
    hvalue).trans (map_refuseOpcode asked _ _ _ _).symm

end ReadDiscStructure

namespace SendDiscStructure

def read : Bytes 12 :=
  ⟨[0xFF, 0x00, 0x00, 0x00, 0x00, 0x00, 0x00, 0xFF, 0x00, 0x00, 0x00, 0x00], rfl⟩

def asked (sds : SendDiscStructure) : SendDiscStructure :=
  { sds with mediaType := 0, parameterListLength := 0, agid := 0, control := 0 }

theorem parseCdb_read (b : Bytes 12) : parseCdb (Bytes.masked read b) = asked <$> parseCdb b := by
  obtain ⟨b₀, b₁, b₂, b₃, b₄, b₅, b₆, b₇, b₈, b₉, b₁₀, b₁₁, rfl⟩ := exists_bytes12 b
  have hmasked : Bytes.masked read ⟨[b₀, b₁, b₂, b₃, b₄, b₅, b₆, b₇, b₈, b₉, b₁₀, b₁₁], rfl⟩ =
      ⟨[b₀, 0, 0, 0, 0, 0, 0, b₇, 0, 0, 0, 0], rfl⟩ := by
    apply Bytes.ext
    simp [Bytes.masked, read]
  have hvalue : SendDiscStructure.mk (0 &&& 0x0F) b₇ (u16FromBe 0 0) (agidOf 0) 0 =
      asked ⟨b₁ &&& 0x0F, b₇, u16FromBe b₈ b₉, agidOf b₁₀, b₁₁⟩ := by
    have hzero : (0 &&& 0x0F : UInt8) = 0 ∧ u16FromBe 0 0 = 0 ∧ agidOf 0 = 0 := by decide
    rw [hzero.1, hzero.2.1, hzero.2.2]
    rfl
  rw [hmasked]
  exact (congrArg (refuseOpcode "SEND_DISC_STRUCTURE opcode" sendDiscStructureOpcode b₀)
    hvalue).trans (map_refuseOpcode asked _ _ _ _).symm

end SendDiscStructure

end Mmc

namespace Ake

open Mmc

namespace MockDrive

variable (aes : Aes128)

theorem executeReportKey_read (cdb : Bytes 12) :
    executeReportKey aes (Bytes.masked ReportKey.read cdb) = executeReportKey aes cdb := by
  rw [executeReportKey, ReportKey.parseCdb_read, Proc.lift_map_bind]
  rfl

theorem executeSendKey_read (cdb : Bytes 12) (direction : DataDirection) (dataOut : List UInt8) :
    executeSendKey (Bytes.masked SendKey.read cdb) direction dataOut = executeSendKey cdb direction
      dataOut := by
  rw [executeSendKey, SendKey.parseCdb_read, Proc.lift_map_bind]
  rfl

theorem executeReadDiscStructure_read (cdb : Bytes 12) :
    executeReadDiscStructure aes (Bytes.masked ReadDiscStructure.read cdb) =
      executeReadDiscStructure aes cdb := by
  rw [executeReadDiscStructure, ReadDiscStructure.parseCdb_read, Proc.lift_map_bind]
  rfl

theorem executeSendDiscStructure_read (cdb : Bytes 12) (direction : DataDirection)
    (dataOut : List UInt8) :
    executeSendDiscStructure aes (Bytes.masked SendDiscStructure.read cdb) direction dataOut =
      executeSendDiscStructure aes cdb direction dataOut := by
  rw [executeSendDiscStructure, SendDiscStructure.parseCdb_read, Proc.lift_map_bind]
  rfl

/-- The bits of a command with the opcode that the drive reads. -/
def readBits (opcode : UInt8) : Bytes 12 :=
  if opcode = reportKeyOpcode then ReportKey.read
  else if opcode = sendKeyOpcode then SendKey.read
  else if opcode = readDiscStructureOpcode then ReadDiscStructure.read
  else SendDiscStructure.read

/-- The command reduced to what the drive reads of it. -/
def requested (c : Command) : Command where
  cdb := Bytes.masked (readBits (c.cdb.get 0)) c.cdb
  direction :=
    if c.cdb.get 0 = reportKeyOpcode ∨ c.cdb.get 0 = readDiscStructureOpcode then .fromDevice
      else c.direction
  dataOut := if c.cdb.get 0 = reportKeyOpcode ∨ c.cdb.get 0 = readDiscStructureOpcode then []
    else c.dataOut
  allocationLength := 0

theorem readBits_opcode (opcode : UInt8) : (readBits opcode).get 0 = 0xFF := by
  rw [readBits]
  split_ifs <;> rfl

theorem requested_opcode (c : Command) : (requested c).cdb.get 0 = c.cdb.get 0 := by
  have hmask := readBits_opcode (c.cdb.get 0)
  obtain ⟨b₀, b₁, b₂, b₃, b₄, b₅, b₆, b₇, b₈, b₉, b₁₀, b₁₁, hbits⟩ :=
    exists_bytes12 (readBits (c.cdb.get 0))
  obtain ⟨c₀, c₁, c₂, c₃, c₄, c₅, c₆, c₇, c₈, c₉, c₁₀, c₁₁, hcdb⟩ := exists_bytes12 c.cdb
  rw [hbits] at hmask
  rw [requested, hbits, hcdb]
  exact (congrArg (c₀ &&& ·) hmask).trans (and_ff c₀)

/-- The drive executes what it reads. -/
theorem execute_requested (c : Command) : execute aes (requested c) = execute aes c := by
  rw [execute, execute]
  simp only [requested_opcode]
  by_cases hreport : c.cdb.get 0 = reportKeyOpcode
  · rw [if_pos hreport, if_pos hreport, requested, readBits, if_pos hreport, executeReportKey_read]
  rw [if_neg hreport, if_neg hreport]
  by_cases hsend : c.cdb.get 0 = sendKeyOpcode
  · have hread : ¬(c.cdb.get 0 = reportKeyOpcode ∨ c.cdb.get 0 = readDiscStructureOpcode) := by
      rw [hsend]
      decide
    rw [if_pos hsend, if_pos hsend, requested, readBits, if_neg hreport, if_pos hsend]
    simp only [if_neg hread, executeSendKey_read]
  rw [if_neg hsend, if_neg hsend]
  by_cases hread : c.cdb.get 0 = readDiscStructureOpcode
  · rw [if_pos hread, if_pos hread, requested, readBits, if_neg hreport, if_neg hsend, if_pos hread,
      executeReadDiscStructure_read]
  rw [if_neg hread, if_neg hread]
  have hnot : ¬(c.cdb.get 0 = reportKeyOpcode ∨ c.cdb.get 0 = readDiscStructureOpcode) :=
    not_or.mpr ⟨hreport, hread⟩
  rw [requested, readBits, if_neg hreport, if_neg hsend, if_neg hread]
  simp only [if_neg hnot, executeSendDiscStructure_read]

/-- The drive answers two runs of commands alike when what it reads of them is alike: no AGID,
allocation length or control byte tells one session from another; and a host that sends its commands
with other AGIDs ends with the same result, the drive in the same state. -/
theorem requests_only (s : MockDrive) :
    (∀ cs cs' : List Command, cs.map requested = cs'.map requested →
      (device aes).transcript s cs = (device aes).transcript s cs') ∧
    ∀ (α : Type) (p : Prog Command ScsiResponse AacsError α) (f : Command → Command),
      (∀ c, requested (f c) = requested c) →
      ((p.mapCommands f).run (device aes) s).1 = (p.run (device aes) s).1 := by
  have hstep : ∀ s c, (device aes).execute s (requested c) = (device aes).execute s c := by
    intro s c
    exact congrFun (execute_requested aes c) s
  constructor
  · intro cs cs' h
    rw [← Device.transcript_map hstep s cs, h, Device.transcript_map hstep]
  · intro α p f hf
    apply Prog.run_mapCommands
    intro s c
    rw [← hstep, hf, hstep]

/-- The volume id is asked for with two AGIDs, and with an allocation length that differs. -/
theorem requests_only_volumeId :
    (device Aes128.fips197).transcript default
    [⟨(ReadDiscStructure.aacsVolumeId 0).cdb, .fromDevice, [], 36⟩] =
      (device Aes128.fips197).transcript default
      [⟨(ReadDiscStructure.aacsVolumeId 3).cdb, .none, [1], 4⟩] ∧
    ((Prog.mapCommands (fun c => { c with allocationLength := 0 })
      (Prog.execute ⟨(ReadDiscStructure.aacsVolumeId 0).cdb, .fromDevice, [], 36⟩)).run
        (device Aes128.fips197) default).1 =
      ((Prog.execute ⟨(ReadDiscStructure.aacsVolumeId 0).cdb, .fromDevice, [], 36⟩).run
        (device Aes128.fips197) default).1 := by
  obtain ⟨hcommands, hprogram⟩ := requests_only Aes128.fips197 default
  constructor
  · exact hcommands _ _ (by decide +kernel)
  · exact hprogram _ _ _ fun _ => rfl

end MockDrive

end Ake
