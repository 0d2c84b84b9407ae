import Aacs.Codec
import Aacs.GetConfiguration
import Aacs.Mmc

/-!
# The formats of the five commands

Each command has a builder, which keeps the bits a field has, and a parser, which skips the bits
that are reserved. Each pair is a codec, whose laws are those of its bytes.
-/
namespace Mmc

@[simp] theorem and_ff (x : UInt8) : x &&& 0xFF = x := UInt8.and_neg_one

/-- The AGID of a byte. -/
def agidOf (x : UInt8) : UInt8 := (x >>> 6) &&& 0x03

/-- The byte of an AGID with no key format. -/
def agidByte (x : UInt8) : UInt8 := (x &&& 0x03) <<< 6

/-- What is read and written of a byte with an AGID in its two high bits. -/
theorem agid_bits (x : UInt8) :
    (packAgid (agidOf x) (x &&& 0x3F), agidByte (agidOf x), agidOf (agidByte x),
    agidOf (x &&& 0xC0), agidByte x &&& 0xC0, agidOf (x &&& 0x3F)) =
      (x, x &&& 0xC0, x &&& 0x03, agidOf x, agidByte x, 0) :=
  @Bytes.eq_of_all (UInt8 × UInt8 × UInt8 × UInt8 × UInt8 × UInt8) _ _
    (fun x => (packAgid (agidOf x) (x &&& 0x3F), agidByte (agidOf x), agidOf (agidByte x),
      agidOf (x &&& 0xC0), agidByte x &&& 0xC0, agidOf (x &&& 0x3F)))
    (fun x => (x, x &&& 0xC0, x &&& 0x03, agidOf x, agidByte x, 0)) (by decide +kernel) x

/-- An AGID and a key format fill their byte. -/
theorem packAgid_split (x : UInt8) : packAgid (agidOf x) (x &&& 0x3F) = x :=
  congrArg (·.1) (agid_bits x)

theorem agidByte_agidOf (x : UInt8) : agidByte (agidOf x) = x &&& 0xC0 :=
  congrArg (·.2.1) (agid_bits x)

theorem agidOf_agidByte (x : UInt8) : agidOf (agidByte x) = x &&& 0x03 :=
  congrArg (·.2.2.1) (agid_bits x)

theorem agidOf_masked (x : UInt8) : agidOf (x &&& 0xC0) = agidOf x :=
  congrArg (·.2.2.2.1) (agid_bits x)

theorem agidByte_masked (x : UInt8) : agidByte x &&& 0xC0 = agidByte x :=
  congrArg (·.2.2.2.2.1) (agid_bits x)

theorem agidOf_keyFormat (x : UInt8) : agidOf (x &&& 0x3F) = 0 :=
  congrArg (·.2.2.2.2.2) (agid_bits x)

theorem and_and_self (x m : UInt8) : x &&& m &&& m = x &&& m := by
  rw [UInt8.and_assoc, UInt8.and_self]

/-- What every parser of a command makes of the first byte and the value behind it. -/
def refuseOpcode {α : Type} (what : String) (expected opcode : UInt8) (value : α) : Result α := do
  Outcome.refuseIf (opcode ≠ expected) (.invalidValue what opcode.toNat)
  pure value

theorem refuseOpcode_eq_err {α : Type} {what : String} {expected opcode : UInt8} {value : α}
    {e : AacsError} :
    refuseOpcode what expected opcode value = .err e ↔ opcode ≠ expected ∧
      e = .invalidValue what opcode.toNat := by
  by_cases hopcode : opcode ≠ expected
  · rw [refuseOpcode, Outcome.refuseIf_pos hopcode, Outcome.bind_err, Outcome.err.injEq]
    exact ⟨fun h => ⟨hopcode, h.symm⟩, fun h => h.2.symm⟩
  · have hok : refuseOpcode what expected opcode value = .ok value := by
      rw [refuseOpcode, Outcome.refuseIf_neg hopcode, Outcome.bind_ok, Outcome.pure_eq]
    rw [hok]
    constructor
    · intro h
      cases h
    · intro h
      exact absurd h.1 hopcode

/-- A builder and a parser that are exact. A byte string parses to a value exactly when the value
fits and is built to the used bits of the string, only another opcode is refused, and no more than
what fits is written. -/
structure Exact {α : Type} {n : Nat} [NeZero n] (what : String) (opcode : UInt8)
    (build : α → Bytes n)
    (parse : Bytes n → Result α) (narrow : α → α) (used : Bytes n) : Prop where
  accepts : ∀ b a, parse b = .ok a ↔ narrow a = a ∧ build a = Bytes.masked used b
  refuses : ∀ b e, parse b = .err e ↔ b.get 0 ≠ opcode ∧ e = .invalidValue what (b.get 0).toNat
  writes : ∀ a a', build a = build a' ↔ narrow a = narrow a'

/-- A codec whose parser refuses opcodes only is exact. -/
theorem Exact.of_codec {α : Type} {n : Nat} [NeZero n] {what : String} {opcode : UInt8}
    {used : Bytes n} (c : Codec AacsError α (Bytes n)) (hclear : c.clear = Bytes.masked used)
    (hparse : ∀ b, ∃ value, c.parse b = refuseOpcode what opcode (b.get 0) value) :
    Exact what opcode c.build c.parse c.narrow used where
  accepts b a := by
    rw [c.parse_eq_ok, hclear]
  refuses b e := by
    obtain ⟨value, hvalue⟩ := hparse b
    rw [hvalue, refuseOpcode_eq_err]
  writes _ _ := c.build_eq_build_iff

/-- The bytes of a command. -/
theorem exists_bytes12 (b : Bytes 12) : ∃ b₀ b₁ b₂ b₃ b₄ b₅ b₆ b₇ b₈ b₉ b₁₀ b₁₁,
    b = ⟨[b₀, b₁, b₂, b₃, b₄, b₅, b₆, b₇, b₈, b₉, b₁₀, b₁₁], rfl⟩ := by
  obtain ⟨l, hl⟩ := b
  rcases l with _ | ⟨b₀,
    _ | ⟨b₁, _ | ⟨b₂, _ | ⟨b₃, _ | ⟨b₄, _ | ⟨b₅, _ | ⟨b₆, _ | ⟨b₇, _ | ⟨b₈, _ | ⟨b₉, _ |
    ⟨b₁₀, _ | ⟨b₁₁, _ | ⟨b₁₂, l⟩⟩⟩⟩⟩⟩⟩⟩⟩⟩⟩⟩⟩
  case cons.cons.cons.cons.cons.cons.cons.cons.cons.cons.cons.cons.nil =>
    exact ⟨b₀, b₁, b₂, b₃, b₄, b₅, b₆, b₇, b₈, b₉, b₁₀, b₁₁, rfl⟩
  all_goals
    simp only [List.length_cons, List.length_nil] at hl
    omega

theorem exists_bytes10 (b : Bytes 10) : ∃ b₀ b₁ b₂ b₃ b₄ b₅ b₆ b₇ b₈ b₉,
    b = ⟨[b₀, b₁, b₂, b₃, b₄, b₅, b₆, b₇, b₈, b₉], rfl⟩ := by
  obtain ⟨l, hl⟩ := b
  rcases l with _ | ⟨b₀,
    _ | ⟨b₁, _ | ⟨b₂, _ | ⟨b₃, _ | ⟨b₄, _ | ⟨b₅, _ | ⟨b₆, _ | ⟨b₇, _ | ⟨b₈, _ | ⟨b₉, _ |
    ⟨b₁₀, l⟩⟩⟩⟩⟩⟩⟩⟩⟩⟩⟩
  case cons.cons.cons.cons.cons.cons.cons.cons.cons.cons.nil =>
    exact ⟨b₀, b₁, b₂, b₃, b₄, b₅, b₆, b₇, b₈, b₉, rfl⟩
  all_goals
    simp only [List.length_cons, List.length_nil] at hl
    omega

namespace ReportKey

/-- The bits of the command that are not reserved. -/
def used : Bytes 12 :=
  ⟨[0xFF, 0x00, 0xFF, 0xFF, 0xFF, 0xFF, 0xFF, 0xFF, 0xFF, 0xFF, 0xFF, 0xFF], rfl⟩

def narrow (rk : ReportKey) : ReportKey :=
  { rk with keyFormat := rk.keyFormat &&& 0x3F, agid := rk.agid &&& 0x03 }

theorem masked_cdb (rk : ReportKey) : Bytes.masked used rk.cdb = rk.cdb := by
  apply Bytes.ext
  simp [Bytes.masked, used, cdb, u32ToBe, u16ToBe]

theorem parseCdb_masked (b : Bytes 12) : parseCdb (Bytes.masked used b) = parseCdb b := by
  obtain ⟨b₀, b₁, b₂, b₃, b₄, b₅, b₆, b₇, b₈, b₉, b₁₀, b₁₁, rfl⟩ := exists_bytes12 b
  have hmasked : Bytes.masked used ⟨[b₀, b₁, b₂, b₃, b₄, b₅, b₆, b₇, b₈, b₉, b₁₀, b₁₁], rfl⟩ =
      ⟨[b₀, 0, b₂, b₃, b₄, b₅, b₆, b₇, b₈, b₉, b₁₀, b₁₁], rfl⟩ := by
    apply Bytes.ext
    simp [Bytes.masked, used]
  rw [hmasked]
  rfl

theorem cdb_of_parse (b : Bytes 12) (rk : ReportKey) (h : parseCdb b = .ok rk) :
    rk.cdb = Bytes.masked used b := by
  obtain ⟨b₀, b₁, b₂, b₃, b₄, b₅, b₆, b₇, b₈, b₉, b₁₀, b₁₁, rfl⟩ := exists_bytes12 b
  rw [parseCdb, Outcome.bind_eq_ok] at h
  obtain ⟨u, hop, hrk⟩ := h
  have hopcode : b₀ = reportKeyOpcode := not_not.mp (Outcome.refuseIf_eq_ok.mp hop)
  have hagid := packAgid_split b₁₀
  rw [agidOf] at hagid
  obtain rfl := Outcome.ok.inj hrk
  apply Bytes.ext
  simp [Bytes.masked, used, cdb, Bytes.get, hopcode, hagid]

def codec : Codec AacsError ReportKey (Bytes 12) :=
  ⟨cdb, parseCdb, narrow, Bytes.masked used, parseCdb_cdb, cdb_of_parse,
    parseCdb_masked, masked_cdb⟩

end ReportKey

namespace SendKey

def used : Bytes 12 :=
  ⟨[0xFF, 0x00, 0x00, 0x00, 0x00, 0x00, 0x00, 0xFF, 0xFF, 0xFF, 0xFF, 0xFF], rfl⟩

def narrow (sk : SendKey) : SendKey :=
  { sk with keyFormat := sk.keyFormat &&& 0x3F, agid := sk.agid &&& 0x03 }

theorem masked_cdb (sk : SendKey) : Bytes.masked used sk.cdb = sk.cdb := by
  apply Bytes.ext
  simp [Bytes.masked, used, cdb, u16ToBe]

theorem parseCdb_masked (b : Bytes 12) : parseCdb (Bytes.masked used b) = parseCdb b := by
  obtain ⟨b₀, b₁, b₂, b₃, b₄, b₅, b₆, b₇, b₈, b₉, b₁₀, b₁₁, rfl⟩ := exists_bytes12 b
  have hmasked : Bytes.masked used ⟨[b₀, b₁, b₂, b₃, b₄, b₅, b₆, b₇, b₈, b₉, b₁₀, b₁₁], rfl⟩ =
      ⟨[b₀, 0, 0, 0, 0, 0, 0, b₇, b₈, b₉, b₁₀, b₁₁], rfl⟩ := by
    apply Bytes.ext
    simp [Bytes.masked, used]
  rw [hmasked]
  rfl

theorem cdb_of_parse (b : Bytes 12) (sk : SendKey) (h : parseCdb b = .ok sk) :
    sk.cdb = Bytes.masked used b := by
  obtain ⟨b₀, b₁, b₂, b₃, b₄, b₅, b₆, b₇, b₈, b₉, b₁₀, b₁₁, rfl⟩ := exists_bytes12 b
  rw [parseCdb, Outcome.bind_eq_ok] at h
  obtain ⟨u, hop, hsk⟩ := h
  have hopcode : b₀ = sendKeyOpcode := not_not.mp (Outcome.refuseIf_eq_ok.mp hop)
  have hagid := packAgid_split b₁₀
  rw [agidOf] at hagid
  obtain rfl := Outcome.ok.inj hsk
  apply Bytes.ext
  simp [Bytes.masked, used, cdb, Bytes.get, hopcode, hagid]

def codec : Codec AacsError SendKey (Bytes 12) :=
  ⟨cdb, parseCdb, narrow, Bytes.masked used, parseCdb_cdb, cdb_of_parse,
    parseCdb_masked, masked_cdb⟩

end SendKey

namespace ReadDiscStructure

def used : Bytes 12 :=
  ⟨[0xFF, 0x0F, 0xFF, 0xFF, 0xFF, 0xFF, 0xFF, 0xFF, 0xFF, 0xFF, 0xC0, 0xFF], rfl⟩

def narrow (rds : ReadDiscStructure) : ReadDiscStructure :=
  { rds with mediaType := rds.mediaType &&& 0x0F, agid := rds.agid &&& 0x03 }

theorem parseCdb_narrow (rds : ReadDiscStructure) : parseCdb rds.cdb = .ok rds.narrow := by
  have hop : ¬rds.cdb.get 0 ≠ readDiscStructureOpcode := not_not_intro rfl
  rw [parseCdb, Outcome.refuseIf_neg hop, Outcome.bind_ok]
  congr 1
  rw [narrow, mk.injEq]
  exact ⟨and_and_self _ _, u32FromBe_toBe _, rfl, rfl, u16FromBe_toBe _, agidOf_agidByte _, rfl⟩

theorem masked_cdb (rds : ReadDiscStructure) : Bytes.masked used rds.cdb = rds.cdb := by
  have hagid := agidByte_masked rds.agid
  rw [agidByte] at hagid
  apply Bytes.ext
  simp [Bytes.masked, used, cdb, u32ToBe, u16ToBe, and_and_self, hagid]

theorem parseCdb_masked (b : Bytes 12) : parseCdb (Bytes.masked used b) = parseCdb b := by
  obtain ⟨b₀, b₁, b₂, b₃, b₄, b₅, b₆, b₇, b₈, b₉, b₁₀, b₁₁, rfl⟩ := exists_bytes12 b
  have hmasked : Bytes.masked used ⟨[b₀, b₁, b₂, b₃, b₄, b₅, b₆, b₇, b₈, b₉, b₁₀, b₁₁], rfl⟩ =
      ⟨[b₀, b₁ &&& 0x0F, b₂, b₃, b₄, b₅, b₆, b₇, b₈, b₉, b₁₀ &&& 0xC0, b₁₁], rfl⟩ := by
    apply Bytes.ext
    simp [Bytes.masked, used]
  rw [hmasked]
  have hagid := agidOf_masked b₁₀
  rw [agidOf, agidOf] at hagid
  have hvalue : ReadDiscStructure.mk (b₁ &&& 0x0F &&& 0x0F) (u32FromBe b₂ b₃ b₄ b₅) b₆ b₇
    (u16FromBe b₈ b₉)
      (((b₁₀ &&& 0xC0) >>> 6) &&& 0x03) b₁₁ = ⟨b₁ &&& 0x0F, u32FromBe b₂ b₃ b₄ b₅, b₆, b₇,
        u16FromBe b₈ b₉, (b₁₀ >>> 6) &&& 0x03, b₁₁⟩ := by
    rw [and_and_self, hagid]
  exact congrArg (refuseOpcode "READ_DISC_STRUCTURE opcode" readDiscStructureOpcode b₀) hvalue

theorem cdb_of_parse (b : Bytes 12) (rds : ReadDiscStructure) (h : parseCdb b = .ok rds) :
    rds.cdb = Bytes.masked used b := by
  obtain ⟨b₀, b₁, b₂, b₃, b₄, b₅, b₆, b₇, b₈, b₉, b₁₀, b₁₁, rfl⟩ := exists_bytes12 b
  rw [parseCdb, Outcome.bind_eq_ok] at h
  obtain ⟨u, hop, hrds⟩ := h
  have hopcode : b₀ = readDiscStructureOpcode := not_not.mp (Outcome.refuseIf_eq_ok.mp hop)
  have hagid := agidByte_agidOf b₁₀
  rw [agidByte, agidOf, and_and_self] at hagid
  obtain rfl := Outcome.ok.inj hrds
  apply Bytes.ext
  simp [Bytes.masked, used, cdb, Bytes.get, hopcode, hagid, and_and_self]

def codec : Codec AacsError ReadDiscStructure (Bytes 12) :=
  ⟨cdb, parseCdb, narrow, Bytes.masked used, parseCdb_narrow, cdb_of_parse,
    parseCdb_masked, masked_cdb⟩

end ReadDiscStructure

namespace SendDiscStructure

def used : Bytes 12 :=
  ⟨[0xFF, 0x0F, 0x00, 0x00, 0x00, 0x00, 0x00, 0xFF, 0xFF, 0xFF, 0xC0, 0xFF], rfl⟩

def narrow (sds : SendDiscStructure) : SendDiscStructure :=
  { sds with mediaType := sds.mediaType &&& 0x0F, agid := sds.agid &&& 0x03 }

theorem parseCdb_narrow (sds : SendDiscStructure) : parseCdb sds.cdb = .ok sds.narrow := by
  have hop : ¬sds.cdb.get 0 ≠ sendDiscStructureOpcode := not_not_intro rfl
  rw [parseCdb, Outcome.refuseIf_neg hop, Outcome.bind_ok]
  congr 1
  rw [narrow, mk.injEq]
  exact ⟨and_and_self _ _, rfl, u16FromBe_toBe _, agidOf_agidByte _, rfl⟩

theorem masked_cdb (sds : SendDiscStructure) : Bytes.masked used sds.cdb = sds.cdb := by
  have hagid := agidByte_masked sds.agid
  rw [agidByte] at hagid
  apply Bytes.ext
  simp [Bytes.masked, used, cdb, u16ToBe, and_and_self, hagid]

theorem parseCdb_masked (b : Bytes 12) : parseCdb (Bytes.masked used b) = parseCdb b := by
  obtain ⟨b₀, b₁, b₂, b₃, b₄, b₅, b₆, b₇, b₈, b₉, b₁₀, b₁₁, rfl⟩ := exists_bytes12 b
  have hmasked : Bytes.masked used ⟨[b₀, b₁, b₂, b₃, b₄, b₅, b₆, b₇, b₈, b₉, b₁₀, b₁₁], rfl⟩ =
      ⟨[b₀, b₁ &&& 0x0F, 0, 0, 0, 0, 0, b₇, b₈, b₉, b₁₀ &&& 0xC0, b₁₁], rfl⟩ := by
    apply Bytes.ext
    simp [Bytes.masked, used]
  rw [hmasked]
  have hagid := agidOf_masked b₁₀
  rw [agidOf, agidOf] at hagid
  have hvalue : SendDiscStructure.mk (b₁ &&& 0x0F &&& 0x0F) b₇ (u16FromBe b₈ b₉)
    (((b₁₀ &&& 0xC0) >>> 6) &&& 0x03)
      b₁₁ = ⟨b₁ &&& 0x0F, b₇, u16FromBe b₈ b₉, (b₁₀ >>> 6) &&& 0x03, b₁₁⟩ := by
    rw [and_and_self, hagid]
  exact congrArg (refuseOpcode "SEND_DISC_STRUCTURE opcode" sendDiscStructureOpcode b₀) hvalue

theorem cdb_of_parse (b : Bytes 12) (sds : SendDiscStructure) (h : parseCdb b = .ok sds) :
    sds.cdb = Bytes.masked used b := by
  obtain ⟨b₀, b₁, b₂, b₃, b₄, b₅, b₆, b₇, b₈, b₉, b₁₀, b₁₁, rfl⟩ := exists_bytes12 b
  rw [parseCdb, Outcome.bind_eq_ok] at h
  obtain ⟨u, hop, hsds⟩ := h
  have hopcode : b₀ = sendDiscStructureOpcode := not_not.mp (Outcome.refuseIf_eq_ok.mp hop)
  have hagid := agidByte_agidOf b₁₀
  rw [agidByte, agidOf, and_and_self] at hagid
  obtain rfl := Outcome.ok.inj hsds
  apply Bytes.ext
  simp [Bytes.masked, used, cdb, Bytes.get, hopcode, hagid, and_and_self]

def codec : Codec AacsError SendDiscStructure (Bytes 12) :=
  ⟨cdb, parseCdb, narrow, Bytes.masked used, parseCdb_narrow, cdb_of_parse,
    parseCdb_masked, masked_cdb⟩

end SendDiscStructure

namespace GetConfiguration

def used : Bytes 10 := ⟨[0xFF, 0x03, 0xFF, 0xFF, 0x00, 0x00, 0x00, 0xFF, 0xFF, 0xFF], rfl⟩

def narrow (gc : GetConfiguration) : GetConfiguration := { gc with rt := gc.rt &&& 0x03 }

theorem parseCdb_narrow (gc : GetConfiguration) : parseCdb gc.cdb = .ok gc.narrow := by
  have hop : ¬gc.cdb.get 0 ≠ getConfigurationOpcode := not_not_intro rfl
  rw [parseCdb, Outcome.refuseIf_neg hop, Outcome.bind_ok]
  congr 1
  rw [narrow, mk.injEq]
  exact ⟨and_and_self _ _, u16FromBe_toBe _, u16FromBe_toBe _, rfl⟩

theorem masked_cdb (gc : GetConfiguration) : Bytes.masked used gc.cdb = gc.cdb := by
  apply Bytes.ext
  simp [Bytes.masked, used, cdb, u16ToBe, and_and_self]

theorem parseCdb_masked (b : Bytes 10) : parseCdb (Bytes.masked used b) = parseCdb b := by
  obtain ⟨b₀, b₁, b₂, b₃, b₄, b₅, b₆, b₇, b₈, b₉, rfl⟩ := exists_bytes10 b
  have hmasked : Bytes.masked used ⟨[b₀, b₁, b₂, b₃, b₄, b₅, b₆, b₇, b₈, b₉], rfl⟩ =
      ⟨[b₀, b₁ &&& 0x03, b₂, b₃, 0, 0, 0, b₇, b₈, b₉], rfl⟩ := by
    apply Bytes.ext
    simp [Bytes.masked, used]
  rw [hmasked]
  have hvalue : GetConfiguration.mk (b₁ &&& 0x03 &&& 0x03) (u16FromBe b₂ b₃) (u16FromBe b₇ b₈) b₉ =
      ⟨b₁ &&& 0x03, u16FromBe b₂ b₃, u16FromBe b₇ b₈, b₉⟩ := by
    rw [and_and_self]
  exact congrArg (refuseOpcode "GET_CONFIGURATION opcode" getConfigurationOpcode b₀) hvalue

theorem cdb_of_parse (b : Bytes 10) (gc : GetConfiguration) (h : parseCdb b = .ok gc) :
    gc.cdb = Bytes.masked used b := by
  obtain ⟨b₀, b₁, b₂, b₃, b₄, b₅, b₆, b₇, b₈, b₉, rfl⟩ := exists_bytes10 b
  rw [parseCdb, Outcome.bind_eq_ok] at h
  obtain ⟨u, hop, hgc⟩ := h
  have hopcode : b₀ = getConfigurationOpcode := not_not.mp (Outcome.refuseIf_eq_ok.mp hop)
  obtain rfl := Outcome.ok.inj hgc
  apply Bytes.ext
  simp [Bytes.masked, used, cdb, Bytes.get, hopcode, and_and_self]

def codec : Codec AacsError GetConfiguration (Bytes 10) :=
  ⟨cdb, parseCdb, narrow, Bytes.masked used, parseCdb_narrow, cdb_of_parse,
    parseCdb_masked, masked_cdb⟩

end GetConfiguration

/-- The builders and the parsers of the five commands are exact. -/
theorem commands_exact :
    Exact "REPORT_KEY opcode" reportKeyOpcode ReportKey.cdb ReportKey.parseCdb ReportKey.narrow
      ReportKey.used ∧
    Exact "SEND_KEY opcode" sendKeyOpcode SendKey.cdb SendKey.parseCdb SendKey.narrow SendKey.used ∧
    Exact "READ_DISC_STRUCTURE opcode" readDiscStructureOpcode ReadDiscStructure.cdb
      ReadDiscStructure.parseCdb ReadDiscStructure.narrow ReadDiscStructure.used ∧
    Exact "SEND_DISC_STRUCTURE opcode" sendDiscStructureOpcode SendDiscStructure.cdb
      SendDiscStructure.parseCdb SendDiscStructure.narrow SendDiscStructure.used ∧
    Exact "GET_CONFIGURATION opcode" getConfigurationOpcode GetConfiguration.cdb
      GetConfiguration.parseCdb GetConfiguration.narrow GetConfiguration.used := by
  refine ⟨?_, ?_, ?_, ?_, ?_⟩
  · exact Exact.of_codec ReportKey.codec rfl fun b => ⟨_, rfl⟩
  · exact Exact.of_codec SendKey.codec rfl fun b => ⟨_, rfl⟩
  · exact Exact.of_codec ReadDiscStructure.codec rfl fun b => ⟨_, rfl⟩
  · exact Exact.of_codec SendDiscStructure.codec rfl fun b => ⟨_, rfl⟩
  · exact Exact.of_codec GetConfiguration.codec rfl fun b => ⟨_, rfl⟩

end Mmc
