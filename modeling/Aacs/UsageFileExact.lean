import Aacs.CciRoundTrip

/-!
# Which bytes are a CPS Unit Usage File

The two headers count the blocks that stand behind them; what the headers reserve and
what fills an area is not read. So a file that holds usage rules holds them whatever its
author left in the rest.
-/

namespace CpsUnitUsageFile

variable {area bytes : List UInt8} {blocks : List CciAndOtherInfo} {f : CpsUnitUsageFile}

/-- A header that counts the blocks, the blocks, and anything behind them. -/
def AreaIn (blocks : List CciAndOtherInfo) (l : List UInt8) : Prop :=
  ∃ reserved filler : List UInt8, reserved.length = 14 ∧
    l = u16ToBe (UInt16.ofNat blocks.length) ++ reserved ++ (areaBytes blocks ++ filler)

theorem parseArea_eq_ok {loops : UInt16} : parseArea area loops.toNat = .ok blocks ↔
    blocks.length = loops.toNat ∧ (∀ b ∈ blocks, b.Fits) ∧ ∃ filler, area = areaBytes blocks ++
      filler := by
  constructor
  · exact areaLoop_eq_ok
  · rintro ⟨hcount, hfits, filler, harea⟩
    have hstart : Ahead area 0 (areaBytes blocks ++ filler) := harea
    rw [parseArea, ← hcount, areaLoop_areaBytes hfits hstart]

theorem AreaIn.length {l : List UInt8} (h : AreaIn blocks l) : 16 ≤ l.length := by
  obtain ⟨reserved, filler, hreserved, rfl⟩ := h
  simp only [List.length_append, length_u16ToBe, hreserved]
  omega

/-- A header and an area, read one behind the other. -/
theorem areaIn_iff {l : List UInt8} (hlen : 16 ≤ l.length) :
    AreaIn blocks l ↔ l.take 2 = u16ToBe (UInt16.ofNat blocks.length) ∧
      ∃ filler, l.drop 16 = areaBytes blocks ++ filler := by
  constructor
  · rintro ⟨reserved, filler, hreserved, rfl⟩
    refine ⟨?_, filler, List.drop_left' (by simp [hreserved])⟩
    rw [List.append_assoc]
    exact List.take_left' (length_u16ToBe _)
  · rintro ⟨hhead, filler, hdrop⟩
    refine ⟨(l.drop 2).take 14, filler, by simp; omega, ?_⟩
    rw [← hhead, ← hdrop, ← List.take_add, List.take_append_drop]

/-- The primary area fills 2048 bytes, and only a secondary area follows. -/
def LaidOutIn (f : CpsUnitUsageFile) (bytes : List UInt8) : Prop :=
  ∃ primary secondary : List UInt8, bytes = primary ++ secondary ∧ primary.length = 2048 ∧
    AreaIn f.primary primary ∧
    if f.hasSecondary then AreaIn f.secondary secondary else secondary = []

theorem ofNat_toNat_length {loops : UInt16} (h : blocks.length = loops.toNat) :
    UInt16.ofNat blocks.length = loops := by
  rw [h, UInt16.ofNat_toNat]

/-- The blocks of the part behind the primary area. -/
theorem parseSecondary_eq_ok {secondary : List CciAndOtherInfo} {has : Bool}
    (hlen : 2048 ≤ bytes.length) :
    parseSecondary bytes = .ok (secondary, has) ↔
      secondary.length < 2 ^ 16 ∧ (∀ b ∈ secondary, b.Fits) ∧ (has = false → secondary = []) ∧
        if has then AreaIn secondary (bytes.drop 2048) else bytes.drop 2048 = [] := by
  have hrest : (bytes.drop 2048).length = bytes.length - 2048 := List.length_drop
  rw [parseSecondary]
  split
  · next hthere =>
    have hne : bytes.drop 2048 ≠ [] := List.ne_nil_of_length_pos (by omega)
    simp only [Outcome.bind_eq_ok, Outcome.refuseIf_eq_ok, exists_const,
      Outcome.indexU16_eq_ok, Nat.not_lt]
    constructor
    · rintro ⟨hheader, loops, hloops, tail, htail, blocks, hblocks, h⟩
      obtain ⟨rfl, rfl⟩ := Prod.mk.inj (Outcome.ok.inj h)
      rw [Outcome.sliceFrom_of_le hheader] at htail
      obtain rfl := Outcome.ok.inj htail
      obtain ⟨hcount, hfits, filler, hfiller⟩ := parseArea_eq_ok.mp hblocks
      have hlt : blocks.length < 2 ^ 16 := hcount ▸ loops.toNat_lt
      refine ⟨hlt, hfits, fun h => Bool.noConfusion h, ?_⟩
      rw [if_pos rfl, areaIn_iff (by omega), ofNat_toNat_length hcount, List.drop_drop]
      exact ⟨hloops, filler, hfiller⟩
    · rintro ⟨hlt, hfits, -, harea⟩
      cases has with
      | false => exact absurd harea hne
      | true =>
        rw [if_pos rfl] at harea
        have hheader := harea.length
        obtain ⟨hloops, filler, hfiller⟩ := (areaIn_iff hheader).mp harea
        rw [List.drop_drop] at hfiller
        exact ⟨by omega, _, hloops, bytes.drop 2064, Outcome.sliceFrom_of_le (by omega), secondary,
          parseArea_eq_ok.mpr ⟨(UInt16.toNat_ofNat_of_lt' hlt).symm, hfits, filler, hfiller⟩, rfl⟩
  · next hthere =>
    have hnil : bytes.drop 2048 = [] := List.drop_eq_nil_of_le (by omega)
    rw [Outcome.pure_eq, Outcome.ok.injEq, Prod.mk.injEq]
    constructor
    · rintro ⟨rfl, rfl⟩
      exact ⟨by decide, by simp, fun _ => rfl, hnil⟩
    · rintro ⟨-, -, habsent, harea⟩
      cases has with
      | false => exact ⟨(habsent rfl).symm, rfl⟩
      | true =>
        rw [if_pos rfl, hnil] at harea
        exact absurd harea.length (by decide)

theorem parse_eq_ok : parse bytes = .ok f ↔ f.Writable ∧ f.LaidOutIn bytes := by
  constructor
  · intro h
    refine ⟨parse_writable h, bytes.take 2048, bytes.drop 2048,
      (List.take_append_drop _ _).symm, ?_⟩
    simp only [parse, Outcome.bind_eq_ok, Outcome.refuseIf_eq_ok, exists_const,
      Outcome.indexU16_eq_ok, Nat.not_lt, Outcome.slice_eq_ok] at h
    obtain ⟨hlen, loops, hloops, area, ⟨-, -, rfl⟩, primary, hprimary, ⟨secondary, has⟩,
      hsecondary, h⟩ := h
    obtain rfl := Outcome.ok.inj h
    obtain ⟨hcount, -, filler, hfiller⟩ := parseArea_eq_ok.mp hprimary
    obtain ⟨-, -, -, hbehind⟩ := (parseSecondary_eq_ok hlen).mp hsecondary
    have htake : (bytes.take 2048).length = 2048 := List.length_take_of_le hlen
    refine ⟨htake, ?_, hbehind⟩
    rw [areaIn_iff (by omega), ofNat_toNat_length hcount, List.take_take, List.drop_take]
    exact ⟨hloops, filler, hfiller⟩
  · rintro ⟨hf, primary, secondary, rfl, hlen, harea, hbehind⟩
    obtain ⟨hloops, filler, hfiller⟩ := (areaIn_iff (by omega)).mp harea
    have hall : 2048 ≤ (primary ++ secondary).length := by
      rw [List.length_append]
      omega
    have hcount : (Outcome.indexU16 (primary ++ secondary) 0 : Result UInt16) =
        .ok (UInt16.ofNat f.primary.length) := by
      rw [Outcome.indexU16_eq_ok, List.drop_zero, List.take_append_of_le_length (by omega)]
      exact hloops
    have hslice : (Outcome.slice (primary ++ secondary) 16 2048 : Result (List UInt8)) =
        .ok (primary.drop 16) := by
      rw [Outcome.slice_of_le (by decide) hall, List.drop_append_of_le_length (by omega)]
      congr 1
      exact List.take_left' (by rw [List.length_drop, hlen])
    have hsecondary : parseSecondary (primary ++ secondary) =
        .ok (f.secondary, f.hasSecondary) := by
      rw [parseSecondary_eq_ok hall, List.drop_left' hlen]
      exact ⟨hf.secondary_count, hf.secondary_fits, hf.secondary_absent, hbehind⟩
    have hprimary : parseArea (primary.drop 16) (UInt16.ofNat f.primary.length).toNat =
        .ok f.primary :=
      parseArea_eq_ok.mpr ⟨(UInt16.toNat_ofNat_of_lt' hf.primary_count).symm, hf.primary_fits,
        filler, hfiller⟩
    rw [parse, Outcome.refuseIf_neg (Nat.not_lt.mpr hall), Outcome.bind_ok, hcount,
      Outcome.bind_ok, hslice, Outcome.bind_ok, hprimary, Outcome.bind_ok, hsecondary]
    rfl

/-- A file that was read is read again from what is written for it. -/
theorem parse_toBytes_of_parse {bytes : List UInt8} {f : CpsUnitUsageFile}
    (h : parse bytes = .ok f) :
    parse f.toBytes = .ok f := parse_toBytes (parse_writable h)

/-- Two blocks in each area, one of them without data. -/
def fourBlocks : CpsUnitUsageFile :=
  ⟨[⟨0x0101, 0x0100, []⟩, ⟨0x0111, 0x0100, [1, 2, 3]⟩],
    [⟨0x0112, 0x0100, [4]⟩, ⟨0x0113, 0x0100, []⟩], true⟩

/-- These blocks with ones in all that is reserved and behind them. -/
def filledBytes : List UInt8 :=
  (u16ToBe 2 ++ List.replicate 14 0xFF ++
    (areaBytes fourBlocks.primary ++ List.replicate 2017 0xFF)) ++
    (u16ToBe 2 ++ List.replicate 14 0xFF ++ (areaBytes fourBlocks.secondary ++ [0xFF]))

theorem parse_filledBytes : parse filledBytes = .ok fourBlocks := by
  have hprimary : ∀ b ∈ fourBlocks.primary, b.Fits := by
    simp [fourBlocks, CciAndOtherInfo.Fits]
  have hsecondary : ∀ b ∈ fourBlocks.secondary, b.Fits := by
    simp [fourBlocks, CciAndOtherInfo.Fits]
  refine parse_eq_ok.mpr ⟨⟨by decide, hprimary, by decide, by decide, by decide, hsecondary⟩,
    _, _, rfl, ?_, ⟨_, _, List.length_replicate, rfl⟩, ⟨_, _, List.length_replicate, rfl⟩⟩
  have hblocks : (areaBytes fourBlocks.primary).length = 15 := rfl
  simp only [List.length_append, List.length_replicate, length_u16ToBe, hblocks]

theorem parse_toBytes_of_parse_filledBytes :
    parse filledBytes = .ok fourBlocks ∧ parse fourBlocks.toBytes = .ok fourBlocks :=
  ⟨parse_filledBytes, parse_toBytes_of_parse parse_filledBytes⟩

/-- A file of the blocks of typed values. -/
def author (primary secondary : List TypedCci) (hasSecondary : Bool) : Result CpsUnitUsageFile := do
  let primary ← primary.mapM TypedCci.toBlock
  let secondary ← secondary.mapM TypedCci.toBlock
  pure ⟨primary, secondary, hasSecondary⟩

/-- Each value has a block that reads as it and as nothing else. -/
theorem readings_mapM {vs : List TypedCci} (h : ∀ v ∈ vs, v.Writable) :
    ∃ blocks, vs.mapM TypedCci.toBlock = .ok blocks ∧ blocks.length = vs.length ∧
      (∀ b ∈ blocks, b.Fits) ∧ blocks.map CciAndOtherInfo.readings = vs.map fun v => [.ok v] := by
  induction vs with
  | nil => exact ⟨[], rfl, rfl, fun _ h => absurd h List.not_mem_nil, rfl⟩
  | cons v vs ih =>
    obtain ⟨hv, hvs⟩ := List.forall_mem_cons.mp h
    obtain ⟨block, hblock, hfits, hread⟩ := TypedCci.readings_toBlock hv
    obtain ⟨blocks, hblocks, hlen, hall, hreads⟩ := ih hvs
    refine ⟨block :: blocks, ?_, ?_, List.forall_mem_cons.mpr ⟨hfits, hall⟩, ?_⟩
    · rw [List.mapM_cons, hblock, Outcome.bind_ok, hblocks]
      rfl
    · rw [List.length_cons, List.length_cons, hlen]
    · rw [List.map_cons, List.map_cons, hread, hreads]

theorem length_le_areaBytes (blocks : List CciAndOtherInfo) :
    6 * blocks.length ≤ (areaBytes blocks).length := by
  induction blocks with
  | nil => exact Nat.zero_le _
  | cons b bs ih =>
    rw [areaBytes_cons, List.length_append, b.length_toBytes, List.length_cons]
    omega

/-- The file that is written is one in which it is laid out. -/
theorem laidOutIn_toBytes (h : f.Writable) : f.LaidOutIn f.toBytes :=
  (parse_eq_ok.mp (parse_toBytes h)).2

/-- The parser accepts exactly the files of its layout, whatever they reserve and whatever
fills them, among them what is written for a file. Typed values come back from every file
that their blocks are laid out in, each by the accessor of its type alone. -/
theorem usage_exact :
    (∀ (bytes : List UInt8) (f : CpsUnitUsageFile), parse bytes = .ok f ↔ f.Writable ∧
      f.LaidOutIn bytes) ∧
    (∀ f : CpsUnitUsageFile, f.Writable → f.LaidOutIn f.toBytes) ∧
    ∀ (primary secondary : List TypedCci) (hasSecondary : Bool),
      (∀ v ∈ primary ++ secondary, v.Writable) →
      ∃ f, author primary secondary hasSecondary = .ok f ∧
        ((areaBytes f.primary).length ≤ 2032 → secondary.length < 2 ^ 16 →
          (hasSecondary = false → secondary = []) →
          ∀ bytes, f.LaidOutIn bytes → ∃ f', parse bytes = .ok f' ∧
            f'.primary.map CciAndOtherInfo.readings = primary.map (fun v => [.ok v]) ∧
            f'.secondary.map CciAndOtherInfo.readings = secondary.map fun v => [.ok v]) := by
  refine ⟨fun _ _ => parse_eq_ok, fun _ => laidOutIn_toBytes, ?_⟩
  intro primary secondary hasSecondary hwritable
  obtain ⟨hprimary, hsecondary⟩ := List.forall_mem_append.mp hwritable
  obtain ⟨ps, hps, -, hpsFits, hpsRead⟩ := readings_mapM hprimary
  obtain ⟨ss, hss, hssLen, hssFits, hssRead⟩ := readings_mapM hsecondary
  refine ⟨⟨ps, ss, hasSecondary⟩, ?_, ?_⟩
  · rw [author, hps, Outcome.bind_ok, hss]
    rfl
  · intro hroom hcount habsent bytes hbytes
    have hfew := length_le_areaBytes ps
    have hroom : (areaBytes ps).length ≤ 2032 := hroom
    have hnone : hasSecondary = false → ss = [] := by
      intro h
      rw [← List.length_eq_zero_iff, hssLen, habsent h, List.length_nil]
    exact ⟨_,
      parse_eq_ok.mpr
        ⟨⟨by dsimp only; omega, hpsFits, hroom, hnone, hssLen.trans_lt hcount, hssFits⟩, hbytes⟩,
        hpsRead, hssRead⟩

/-- Copying is allowed once for four titles. -/
def copyOnce : BasicCci :=
  ⟨true, .copyOneGeneration, true, false, 6, [.basic, .enhanced, .enhanced, .basic]⟩

def copyOnceBlock : CciAndOtherInfo :=
  ⟨0x0101, 0x0100, [6, 22, 0, 4, 0x60] ++ List.replicate 127 0⟩

example : copyOnce.toBlock = .ok copyOnceBlock := rfl

def keyManagement : KeyManagementOnline := ⟨1, .content⟩

/-- Outputs that no owner has authorized. -/
def noOutputs : ContentOwnerAuthorizedOutputs := ⟨Bytes.zero 16⟩

/-- Rules of three kinds, with a secondary area. -/
def threeRules : CpsUnitUsageFile :=
  ⟨[copyOnceBlock, keyManagement.toBlock], [noOutputs.toBlock], true⟩

theorem usage_exact_threeRules : ∃ f, parse threeRules.toBytes = .ok f ∧
    f.primary.map CciAndOtherInfo.readings =
      [[.ok (.basicCci copyOnce)], [.ok (.keyManagementOnline keyManagement)]] ∧
    f.secondary.map CciAndOtherInfo.readings = [[.ok (.contentOwnerOutputs noOutputs)]] := by
  have hwritable : ∀ v ∈ [.basicCci copyOnce, .keyManagementOnline keyManagement] ++
      [TypedCci.contentOwnerOutputs noOutputs], v.Writable := by
    simp only [List.cons_append, List.nil_append, List.forall_mem_cons, List.not_mem_nil,
      false_implies, implies_true, and_true]
    have hkey : keyManagement.Writable := by
      intro v hv
      cases hv
    exact ⟨⟨by decide, by decide⟩, hkey, trivial⟩
  obtain ⟨-, hlaid, htyped⟩ := usage_exact
  obtain ⟨f, hf, hread⟩ := htyped _ _ true hwritable
  obtain rfl : threeRules = f := Outcome.ok.inj hf
  have hprimary : ∀ b ∈ threeRules.primary, b.Fits := by
    simp [threeRules, CciAndOtherInfo.Fits, copyOnceBlock, KeyManagementOnline.toBlock]
  have hsecondary : ∀ b ∈ threeRules.secondary, b.Fits := by
    intro b hb
    obtain rfl := List.mem_singleton.mp hb
    exact TypedCci.fits_of_length (Bytes.length_toList _) (by decide)
  have hroom : (areaBytes threeRules.primary).length ≤ 2032 := by
    simp [threeRules, copyOnceBlock, KeyManagementOnline.toBlock]
  exact hread hroom (by decide) (fun h => by cases h) _
    (hlaid _ ⟨by decide, hprimary, hroom, by decide, by decide, hsecondary⟩)

end CpsUnitUsageFile
