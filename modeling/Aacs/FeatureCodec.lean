import Aacs.CommandCodecs

/-!
# The format of the AACS feature descriptor

The eight bytes of the descriptor are a codec too. The search finds a descriptor
exactly where complete descriptors of other features stand before its bytes.
-/
namespace Mmc

/-- A descriptor that is read from its bytes. -/
def featureOf (b₂ b₄ b₅ b₆ b₇ : UInt8) : AacsFeatureDescriptor where
  current := b₂ &&& 0x01 ≠ 0
  persistent := b₂ &&& 0x02 ≠ 0
  version := (b₂ >>> 2) &&& 0x0F
  readDriveCertificate := b₄ &&& 0x80 ≠ 0
  returnMkbOfCprm := b₄ &&& 0x40 ≠ 0
  writeBusEncryption := b₄ &&& 0x20 ≠ 0
  busEncryptionCapable := b₄ &&& 0x10 ≠ 0
  bindingNonceGeneration := b₄ &&& 0x01 ≠ 0
  blockCountForBindingNonce := b₅
  numberOfAgids := b₆ &&& 0x07
  aacsVersion := b₇

/-- The bytes of a descriptor. -/
theorem exists_bytes8 (b : Bytes 8) :
    ∃ b₀ b₁ b₂ b₃ b₄ b₅ b₆ b₇, b = ⟨[b₀, b₁, b₂, b₃, b₄, b₅, b₆, b₇], rfl⟩ := by
  obtain ⟨l, hl⟩ := b
  rcases l
    with _ | ⟨b₀, _ | ⟨b₁, _ | ⟨b₂, _ | ⟨b₃, _ | ⟨b₄, _ | ⟨b₅, _ | ⟨b₆, _ | ⟨b₇, _ | ⟨b₈, l⟩⟩⟩⟩⟩⟩⟩⟩⟩
  case cons.cons.cons.cons.cons.cons.cons.cons.nil =>
    exact ⟨b₀, b₁, b₂, b₃, b₄, b₅, b₆, b₇, rfl⟩
  all_goals
    simp only [List.length_cons, List.length_nil] at hl
    omega

namespace AacsFeatureDescriptor

/-- The bits of the descriptor that are not reserved. -/
def used : Bytes 8 := ⟨[0xFF, 0xFF, 0x3F, 0xFF, 0xF1, 0xFF, 0x07, 0xFF], rfl⟩

def narrow (d : AacsFeatureDescriptor) : AacsFeatureDescriptor :=
  { d with version := d.version &&& 0x0F, numberOfAgids := d.numberOfAgids &&& 0x07 }

/-- The third byte. -/
def flags (version : UInt8) (persistent current : Bool) : UInt8 :=
  ((version &&& 0x0F) <<< 2) ||| (persistent.toUInt8 <<< 1) ||| current.toUInt8

/-- The fifth byte. -/
def capabilities (cert cprm write capable nonce : Bool) : UInt8 :=
  (cert.toUInt8 <<< 7) ||| (cprm.toUInt8 <<< 6) ||| (write.toUInt8 <<< 5) |||
    (capable.toUInt8 <<< 4) ||| nonce.toUInt8

/-- The third and the fifth byte, read and written, over all their values. -/
theorem feature_bits :
    (List.range 256).all (fun v =>
      let x := UInt8.ofNat v
      (flags ((x >>> 2) &&& 0x0F) (x &&& 0x02 ≠ 0) (x &&& 0x01 ≠ 0),
        capabilities (x &&& 0x80 ≠ 0) (x &&& 0x40 ≠ 0) (x &&& 0x20 ≠ 0) (x &&& 0x10 ≠ 0)
          (x &&& 0x01 ≠ 0)) ==
      (x &&& 0x3F, x &&& 0xF1)) = true ∧
    (∀ p c : Bool, (List.range 256).all (fun v =>
      let x := UInt8.ofNat v
      ((flags x p c >>> 2) &&& 0x0F, decide (flags x p c &&& 0x02 ≠ 0),
        decide (flags x p c &&& 0x01 ≠ 0)) ==
      (x &&& 0x0F, p, c)) = true) ∧
    ∀ cert cprm write capable nonce : Bool,
      decide (capabilities cert cprm write capable nonce &&& 0x80 ≠ 0) = cert ∧
      decide (capabilities cert cprm write capable nonce &&& 0x40 ≠ 0) = cprm ∧
      decide (capabilities cert cprm write capable nonce &&& 0x20 ≠ 0) = write ∧
      decide (capabilities cert cprm write capable nonce &&& 0x10 ≠ 0) = capable ∧
      decide (capabilities cert cprm write capable nonce &&& 0x01 ≠ 0) = nonce ∧
      capabilities cert cprm write capable nonce &&& 0xF1 = capabilities cert cprm write
        capable nonce := by
  decide +kernel

theorem bytes_split (x : UInt8) : (flags ((x >>> 2) &&& 0x0F) (x &&& 0x02 ≠ 0) (x &&& 0x01 ≠ 0),
    capabilities (x &&& 0x80 ≠ 0) (x &&& 0x40 ≠ 0) (x &&& 0x20 ≠ 0) (x &&& 0x10 ≠ 0)
      (x &&& 0x01 ≠ 0)) = (x &&& 0x3F, x &&& 0xF1) :=
  @Bytes.eq_of_all (UInt8 × UInt8) _ _
    (fun x => (flags ((x >>> 2) &&& 0x0F) (x &&& 0x02 ≠ 0) (x &&& 0x01 ≠ 0),
      capabilities (x &&& 0x80 ≠ 0) (x &&& 0x40 ≠ 0) (x &&& 0x20 ≠ 0) (x &&& 0x10 ≠ 0)
        (x &&& 0x01 ≠ 0)))
    (fun x => (x &&& 0x3F, x &&& 0xF1)) feature_bits.1 x

theorem flags_split (x : UInt8) : flags ((x >>> 2) &&& 0x0F) (x &&& 0x02 ≠ 0) (x &&& 0x01 ≠ 0) =
    x &&& 0x3F :=
  congrArg (·.1) (bytes_split x)

theorem capabilities_split (x : UInt8) :
    capabilities (x &&& 0x80 ≠ 0) (x &&& 0x40 ≠ 0) (x &&& 0x20 ≠ 0) (x &&& 0x10 ≠ 0)
      (x &&& 0x01 ≠ 0) = x &&& 0xF1 :=
  congrArg (·.2) (bytes_split x)

/-- The fields of a built third byte. -/
theorem flags_read (version : UInt8) (persistent current : Bool) :
    (flags version persistent current >>> 2) &&& 0x0F = version &&& 0x0F ∧
    (decide (flags version persistent current &&& 0x02 ≠ 0) = persistent ∧
      decide (flags version persistent current &&& 0x01 ≠ 0) = current) := by
  have hpair := @Bytes.eq_of_all (UInt8 × Bool × Bool) _ _
    (fun v => ((flags v persistent current >>> 2) &&& 0x0F,
      decide (flags v persistent current &&& 0x02 ≠ 0),
      decide (flags v persistent current &&& 0x01 ≠ 0)))
    (fun v => (v &&& 0x0F, persistent, current)) (feature_bits.2.1 persistent current) version
  rw [Prod.mk.injEq, Prod.mk.injEq] at hpair
  exact hpair

theorem flags_masked (version : UInt8) (persistent current : Bool) :
    flags version persistent current &&& 0x3F = flags version persistent current := by
  obtain ⟨hversion, hpersistent, hcurrent⟩ := flags_read version persistent current
  rw [← flags_split, hversion]
  simp only [hpersistent, hcurrent]
  rw [flags, flags, and_and_self]

/-- The fields of a built fifth byte. -/
theorem capabilities_read (cert cprm write capable nonce : Bool) :
    decide (capabilities cert cprm write capable nonce &&& 0x80 ≠ 0) = cert ∧
    decide (capabilities cert cprm write capable nonce &&& 0x40 ≠ 0) = cprm ∧
    decide (capabilities cert cprm write capable nonce &&& 0x20 ≠ 0) = write ∧
    decide (capabilities cert cprm write capable nonce &&& 0x10 ≠ 0) = capable ∧
    decide (capabilities cert cprm write capable nonce &&& 0x01 ≠ 0) = nonce ∧
    capabilities cert cprm write capable nonce &&& 0xF1 = capabilities cert cprm write
      capable nonce :=
  feature_bits.2.2 cert cprm write capable nonce

/-- What the parser makes of eight bytes. -/
theorem parse_bytes (b₀ b₁ b₂ b₃ b₄ b₅ b₆ b₇ : UInt8) :
    parseAacsFeatureDescriptor [b₀, b₁, b₂, b₃, b₄, b₅, b₆, b₇] = (do
      Outcome.refuseIf (u16FromBe b₀ b₁ ≠ featureAacs)
        (.invalidValue "AACS Feature Descriptor Feature Code" (u16FromBe b₀ b₁).toNat)
      Outcome.refuseIf (b₃ ≠ aacsFeatureAdditionalLength)
        (.invalidValue "AACS Feature Descriptor Additional Length" b₃.toNat)
      pure (featureOf b₂ b₄ b₅ b₆ b₇)) := rfl

theorem featureOf_masked (b₂ b₄ b₅ b₆ b₇ : UInt8) :
    featureOf (b₂ &&& 0x3F) (b₄ &&& 0xF1) b₅ (b₆ &&& 0x07) b₇ = featureOf b₂ b₄ b₅ b₆ b₇ := by
  have hflags := flags_read ((b₂ >>> 2) &&& 0x0F) (b₂ &&& 0x02 ≠ 0) (b₂ &&& 0x01 ≠ 0)
  rw [flags_split, and_and_self] at hflags
  obtain ⟨hversion, hpersistent, hcurrent⟩ := hflags
  have hcapabilities :=
    capabilities_read (b₄ &&& 0x80 ≠ 0) (b₄ &&& 0x40 ≠ 0) (b₄ &&& 0x20 ≠ 0) (b₄ &&& 0x10 ≠ 0)
    (b₄ &&& 0x01 ≠ 0)
  rw [capabilities_split] at hcapabilities
  obtain ⟨hcert, hcprm, hwrite, hcapable, hnonce, -⟩ := hcapabilities
  simp only [featureOf, hversion, hpersistent, hcurrent, hcert, hcprm, hwrite, hcapable, hnonce,
    and_and_self]

/-- The descriptor of the built bytes. -/
theorem featureOf_built (d : AacsFeatureDescriptor) :
    featureOf (flags d.version d.persistent d.current)
    (capabilities d.readDriveCertificate d.returnMkbOfCprm d.writeBusEncryption
      d.busEncryptionCapable
      d.bindingNonceGeneration) d.blockCountForBindingNonce (d.numberOfAgids &&&
        0x07) d.aacsVersion = d.narrow := by
  obtain ⟨hversion, hpersistent, hcurrent⟩ := flags_read d.version d.persistent d.current
  obtain ⟨hcert, hcprm, hwrite, hcapable, hnonce, -⟩ :=
    capabilities_read d.readDriveCertificate d.returnMkbOfCprm
    d.writeBusEncryption d.busEncryptionCapable d.bindingNonceGeneration
  simp only [featureOf, narrow, hversion, hpersistent, hcurrent, hcert, hcprm, hwrite, hcapable,
    hnonce, and_and_self]

theorem parse_toBytes (d : AacsFeatureDescriptor) :
    parseAacsFeatureDescriptor d.toBytes.toList = .ok d.narrow := by
  have hparse := parse_bytes 0x01 0x0D (flags d.version d.persistent d.current) 0x04
    (capabilities d.readDriveCertificate d.returnMkbOfCprm d.writeBusEncryption
      d.busEncryptionCapable
      d.bindingNonceGeneration) d.blockCountForBindingNonce (d.numberOfAgids &&& 0x07) d.aacsVersion
  have hcode : ¬u16FromBe 0x01 0x0D ≠ featureAacs := not_not_intro (by decide)
  have hlength : ¬(0x04 : UInt8) ≠ aacsFeatureAdditionalLength := not_not_intro rfl
  rw [Outcome.refuseIf_neg hcode, Outcome.bind_ok, Outcome.refuseIf_neg hlength, Outcome.bind_ok,
    featureOf_built] at hparse
  exact hparse

theorem masked_toBytes (d : AacsFeatureDescriptor) : Bytes.masked used d.toBytes = d.toBytes := by
  have hflags := flags_masked d.version d.persistent d.current
  obtain ⟨-, -, -, -, -, hcapabilities⟩ :=
    capabilities_read d.readDriveCertificate d.returnMkbOfCprm
    d.writeBusEncryption d.busEncryptionCapable d.bindingNonceGeneration
  rw [flags] at hflags
  rw [capabilities] at hcapabilities
  apply Bytes.ext
  simp [Bytes.masked, used, toBytes, u16ToBe, hflags, hcapabilities, and_and_self]

theorem parse_masked (b : Bytes 8) :
    parseAacsFeatureDescriptor (Bytes.masked used b).toList =
      parseAacsFeatureDescriptor b.toList := by
  obtain ⟨b₀, b₁, b₂, b₃, b₄, b₅, b₆, b₇, rfl⟩ := exists_bytes8 b
  have hmasked : (Bytes.masked used ⟨[b₀, b₁, b₂, b₃, b₄, b₅, b₆, b₇], rfl⟩).toList =
      [b₀, b₁, b₂ &&& 0x3F, b₃, b₄ &&& 0xF1, b₅, b₆ &&& 0x07, b₇] := by
    simp [Bytes.masked, used]
  rw [hmasked, parse_bytes, parse_bytes, featureOf_masked]

theorem toBytes_of_parse (b : Bytes 8) (d : AacsFeatureDescriptor)
    (h : parseAacsFeatureDescriptor b.toList = .ok d) :
    d.toBytes = Bytes.masked used b := by
  obtain ⟨b₀, b₁, b₂, b₃, b₄, b₅, b₆, b₇, rfl⟩ := exists_bytes8 b
  rw [parse_bytes, Outcome.bind_eq_ok] at h
  obtain ⟨_, hcode, h⟩ := h
  rw [Outcome.bind_eq_ok] at h
  obtain ⟨_, hlength, hd⟩ := h
  rw [Outcome.refuseIf_eq_ok, not_not] at hcode hlength
  obtain rfl := Outcome.ok.inj hd
  have hflags := flags_split b₂
  have hcapabilities := capabilities_split b₄
  rw [flags, and_and_self] at hflags
  rw [capabilities] at hcapabilities
  apply Bytes.ext
  simp only [toBytes, featureOf, hflags, hcapabilities, ← hcode, ← hlength, u16ToBe_fromBe,
    and_and_self]
  simp [Bytes.masked, used]

def codec : Codec AacsError AacsFeatureDescriptor (Bytes 8) :=
  ⟨toBytes, fun b => parseAacsFeatureDescriptor b.toList, narrow, Bytes.masked used, parse_toBytes,
    toBytes_of_parse, parse_masked, masked_toBytes⟩

open FeatureDescriptor

/-- Eight bytes that parse are a complete descriptor. -/
theorem exists_complete {b : Bytes 8} {d : AacsFeatureDescriptor}
    (h : parseAacsFeatureDescriptor b.toList = .ok d) :
    ∃ complete : FeatureDescriptor, complete.featureCode = featureAacs ∧ complete.bytes =
      b.toList := by
  obtain ⟨b₀, b₁, b₂, b₃, b₄, b₅, b₆, b₇, rfl⟩ := exists_bytes8 b
  rw [parse_bytes, Outcome.bind_eq_ok] at h
  obtain ⟨_, hcode, h⟩ := h
  rw [Outcome.bind_eq_ok] at h
  obtain ⟨_, hlength, -⟩ := h
  rw [Outcome.refuseIf_eq_ok, not_not] at hcode hlength
  refine ⟨⟨u16FromBe b₀ b₁, b₂, [b₄, b₅, b₆, b₇], show 4 < 256 by decide⟩, hcode, ?_⟩
  rw [FeatureDescriptor.bytes, u16ToBe_fromBe, hlength]
  rfl

/-- A complete descriptor that parses has eight bytes. -/
theorem exists_eight {complete : FeatureDescriptor} {d : AacsFeatureDescriptor}
    (h : parseAacsFeatureDescriptor complete.bytes = .ok d) :
    ∃ b : Bytes 8, complete.bytes = b.toList := by
  rw [parseAacsFeatureDescriptor, Outcome.bind_eq_ok] at h
  obtain ⟨_, -, h⟩ := h
  rw [Outcome.bind_eq_ok] at h
  obtain ⟨_, -, h⟩ := h
  rw [Outcome.bind_eq_ok] at h
  obtain ⟨_, -, h⟩ := h
  rw [Outcome.bind_eq_ok] at h
  obtain ⟨additionalLength, hindex, h⟩ := h
  rw [Outcome.bind_eq_ok] at h
  obtain ⟨_, hfour, -⟩ := h
  rw [Outcome.refuseIf_eq_ok, not_not] at hfour
  have hbyte : complete.additionalLength = additionalLength :=
    Option.some.inj (Outcome.index_eq_ok.mp hindex)
  have hlength := complete.length_bytes
  rw [hbyte, hfour] at hlength
  exact ⟨⟨complete.bytes, hlength⟩, rfl⟩

/-- The search returns a descriptor behind eight bytes and the complete descriptors of other
features. -/
theorem find_of_parse {response : List UInt8} {ds : List FeatureDescriptor} {b : Bytes 8}
    {rest : List UInt8} {d : AacsFeatureDescriptor} (hlen : featureHeaderLen ≤ response.length)
    (hafter : After response ds (b.toList ++ rest))
    (h : parseAacsFeatureDescriptor b.toList = .ok d) :
    findAacsFeatureDescriptor response = .ok (some d) := by
  obtain ⟨complete, hcode, hbytes⟩ := exists_complete h
  rw [← hbytes] at hafter h
  rw [find_aacs hlen hafter hcode, h]
  rfl

/-- What the search returns stands behind eight bytes and the complete descriptors of other
features. -/
theorem parse_of_find {response : List UInt8} {d : AacsFeatureDescriptor}
    (hlen : featureHeaderLen ≤ response.length)
    (h : findAacsFeatureDescriptor response = .ok (some d)) :
    ∃ ds b rest, After response ds (Bytes.toList b ++ rest) ∧
      parseAacsFeatureDescriptor (@Bytes.toList 8 b) = .ok d := by
  obtain ⟨ds, rest, hds, hrest, hend⟩ := foreign_cases (response.drop featureHeaderLen)
  have hafter : After response ds rest := ⟨hds, hrest⟩
  rcases hend with hshort | hcut | ⟨complete, tail, haacs, rfl⟩
  · rw [find_short hlen hafter hshort] at h
    cases Outcome.ok.inj h
  · rw [find_cut hlen hafter hcut] at h
    cases h
  · rw [find_aacs hlen hafter haacs] at h
    cases hparse : parseAacsFeatureDescriptor complete.bytes with
    | ok found =>
      obtain ⟨b, hb⟩ := exists_eight hparse
      rw [hparse] at h
      obtain rfl := Option.some.inj (Outcome.ok.inj h)
      rw [hb] at hafter hparse
      exact ⟨ds, b, tail, hafter, hparse⟩
    | err e =>
      rw [hparse] at h
      cases h
    | panic =>
      rw [hparse] at h
      cases h

theorem build_after (d : AacsFeatureDescriptor) (profile : UInt16) :
    featureHeaderLen ≤ (buildGetConfigurationAacsResponse d profile).length ∧
      After (buildGetConfigurationAacsResponse d profile) [] (d.toBytes.toList ++ []) := by
  constructor
  · exact Nat.le_of_ble_eq_true rfl
  · constructor
    · intro _ hd
      cases hd
    · rw [List.append_nil]
      rfl

/-- A response yields a descriptor exactly when complete descriptors of other features stand between
the header and eight bytes whose used bits are the descriptor's; and a built response yields what
fits of the descriptor it was built from. -/
theorem find_exact (response : List UInt8) (d : AacsFeatureDescriptor) :
    (findAacsFeatureDescriptor response = .ok (some d) ↔ featureHeaderLen ≤ response.length ∧
      ∃ ds b rest, After response ds (Bytes.toList b ++ rest) ∧ d.narrow = d ∧ d.toBytes =
        Bytes.masked used b) ∧
    ∀ profile, findAacsFeatureDescriptor (buildGetConfigurationAacsResponse d profile) = .ok
      (some d.narrow) := by
  constructor
  · constructor
    · intro h
      have hlen : featureHeaderLen ≤ response.length := by
        rw [findAacsFeatureDescriptor, Outcome.bind_eq_ok] at h
        obtain ⟨_, hlen, -⟩ := h
        exact not_lt.mp (Outcome.refuseIf_eq_ok.mp hlen)
      obtain ⟨ds, b, rest, hafter, hparse⟩ := parse_of_find hlen h
      exact ⟨hlen, ds, b, rest, hafter, codec.parse_eq_ok.mp hparse⟩
    · rintro ⟨hlen, ds, b, rest, hafter, hd⟩
      exact find_of_parse hlen hafter (codec.parse_eq_ok.mpr hd)
  · intro profile
    obtain ⟨hlen, hafter⟩ := build_after d profile
    exact find_of_parse hlen hafter (parse_toBytes d)

end AacsFeatureDescriptor

end Mmc
