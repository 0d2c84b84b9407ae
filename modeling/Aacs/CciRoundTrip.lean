import Aacs.CciBlocks

/-!
# Writing and reading typed CCI blocks

Each structure is read from the block written for it, and the number of its type
keeps every other accessor away. The fields of a byte do not touch each other, the
bitmap holds one bit for each title, and a number below a hundred has two digits.
-/

open Outcome

namespace BasicCci

theorem fromBits_copyBits (epn : Bool) (cci : Cci) : Cci.fromBits (copyBits epn cci) = cci := by
  cases epn <;> cases cci <;> decide

theorem epn_copyBits (epn : Bool) (cci : Cci) : decide (copyBits epn cci &&& 0x04 ≠ 0) = epn := by
  cases epn <;> cases cci <;> decide

theorem image_tokenBits (image digital : Bool) (apstb : UInt8) :
    decide (tokenBits image digital apstb &&& 0x10 ≠ 0) = image :=
  byte_cases (p := fun apstb => decide (tokenBits image digital apstb &&& 0x10 ≠ 0) = image)
    (by cases image <;> cases digital <;> decide +kernel) apstb

theorem digital_tokenBits (image digital : Bool) (apstb : UInt8) :
    decide (tokenBits image digital apstb &&& 0x08 ≠ 0) = digital :=
  byte_cases (p := fun apstb => decide (tokenBits image digital apstb &&& 0x08 ≠ 0) = digital)
    (by cases image <;> cases digital <;> decide +kernel) apstb

/-- The analog protection keeps its three bits. -/
theorem tokenBits_and (image digital : Bool) {apstb : UInt8} (h : apstb ≤ 7) :
    tokenBits image digital apstb &&& 0x07 = apstb :=
  byte_cases (p := fun apstb => apstb ≤ 7 → tokenBits image digital apstb &&& 0x07 = apstb)
    (by cases image <;> cases digital <;> decide +kernel) apstb h

/-- An enhanced title at a place, in a list that starts at another. -/
def Marked (ts : List TypeOfTitle) (i j : Nat) : Prop := i ≤ j ∧ ts[j - i]? = some .enhanced

theorem not_marked_nil (i j : Nat) : ¬ Marked [] i j := by
  simp [Marked]

theorem marked_cons {t : TypeOfTitle} {ts : List TypeOfTitle} {i j : Nat} :
    Marked (t :: ts) i j ↔ (j = i ∧ t = .enhanced) ∨ Marked ts (i + 1) j := by
  by_cases hj : j = i
  · subst hj
    simp [Marked]
  · by_cases hlt : i < j
    · have hplace : j - i = (j - (i + 1)) + 1 := by omega
      simp only [Marked, hplace, List.getElem?_cons_succ, hj, false_and, false_or]
      exact and_congr_left fun _ => by omega
    · have hout : ¬ i ≤ j := by omega
      have hout' : ¬ i + 1 ≤ j := by omega
      simp [Marked, hj, hout, hout']

/-- The loop sets the bits of the enhanced titles and no other. -/
theorem markTitles_eq_ok {ts : List TypeOfTitle} {i : Nat} {data : List UInt8}
    (hlen : data.length = 132)
    (hroom : i + ts.length ≤ 1024) : ∃ data', markTitles data ts i = .ok data' ∧
      data'.length = 132 ∧
      data'.take 4 = data.take 4 ∧ ∀ j, bitAt data' 4 j = true ↔ bitAt data 4 j = true ∨
        Marked ts i j := by
  induction ts generalizing i data with
  | nil =>
    refine ⟨data, rfl, hlen, rfl, ?_⟩
    intro j
    rw [or_iff_left (not_marked_nil i j)]
  | cons t ts ih =>
    rw [List.length_cons] at hroom
    have hplace : 4 + i / 8 < data.length := by omega
    by_cases ht : t = .enhanced
    · obtain ⟨data', hrun, hlen', htake, hbits⟩ :=
        @ih (i + 1) (setBit data 4 i) (by rw [length_setBit, hlen]) (by omega)
      refine ⟨data', ?_, hlen', by rw [htake, take_setBit], ?_⟩
      · rw [markTitles, if_pos ht, index_of_lt hplace, bind_ok, ← hrun, setBit,
          List.getD_eq_getElem _ _ hplace]
        rfl
      · intro j
        rw [hbits j, bitAt_setBit j hplace, marked_cons, Bool.or_eq_true, decide_eq_true_iff,
          and_iff_left ht, or_assoc]
    · obtain ⟨data', hrun, hlen', htake, hbits⟩ := @ih (i + 1) data hlen (by omega)
      refine ⟨data', ?_, hlen', htake, ?_⟩
      · rw [markTitles, if_neg ht, hrun]
      · intro j
        rw [hbits j, marked_cons, or_iff_right (a := j = i ∧ t = .enhanced) fun h => ht h.2]

theorem titleType_eq {data : List UInt8} {i : Nat} (hlen : data.length = 132) (hi : i < 1024) :
    titleType (data.drop 4) i = .ok (if bitAt data 4 i then .enhanced else .basic) := by
  have hplace : 4 + i / 8 < data.length := by omega
  rw [titleType, index_drop, index_of_lt hplace, bind_ok, bitAt, List.getD_eq_getElem _ _ hplace]
  exact congrArg Outcome.ok (if_congr (shiftRight_and_one _ i) rfl rfl)

theorem bitAt_replicate {pre : List UInt8} (hpre : pre.length = 4) (n j : Nat) :
    bitAt (pre ++ List.replicate n 0) 4 j = false := by
  have hzero : (pre ++ List.replicate n (0 : UInt8)).getD (4 + j / 8) 0 = 0 := by
    rw [List.getD_append_right _ _ _ _ (by omega), hpre, Nat.add_sub_cancel_left]
    simp [List.getD]
  rw [bitAt, hzero, byteBit_zero]

theorem length_header (b : BasicCci) : b.header.length = 4 := rfl

/-- The analog protection has three bits, and the bitmap has room for the titles. -/
structure Writable (b : BasicCci) : Prop where
  apstb_le : b.apstb ≤ 7
  titles_le : b.titleTypes.length ≤ 1024

/-- The header stands in front of the bitmap, and the bitmap has the type of each title. -/
theorem toBlock_eq_ok {b : BasicCci} (h : b.Writable) :
    ∃ data, b.toBlock = .ok ⟨0x0101, 0x0100, data⟩ ∧
    data.length = 132 ∧ Ahead data 0 (b.header ++ data.drop 4) ∧
    (List.range b.titleTypes.length).mapM (titleType (data.drop 4)) = .ok b.titleTypes := by
  have hroom : 0 + b.titleTypes.length ≤ 1024 := by
    rw [Nat.zero_add]
    exact h.titles_le
  obtain ⟨data, hrun, hlen, htake, hbits⟩ :=
    @markTitles_eq_ok b.titleTypes 0 (b.header ++ List.replicate 128 0)
    (by rw [List.length_append, length_header, List.length_replicate]) hroom
  rw [List.take_left' b.length_header] at htake
  have hblock : b.toBlock = .ok ⟨0x0101, 0x0100, data⟩ := by
    rw [toBlock, hrun, bind_ok]
    rfl
  have hstart : Ahead data 0 (b.header ++ data.drop 4) := by
    rw [Ahead, ← htake, List.take_append_drop]
    rfl
  have htitle (i : Nat) (t : TypeOfTitle) (ht : b.titleTypes[i]? = some t) : titleType (data.drop 4)
      i = .ok t := by
    have hi : i < 1024 := lt_of_lt_of_le (List.getElem?_eq_some_iff.mp ht).1 h.titles_le
    have hbit : bitAt data 4 i = true ↔ t = .enhanced := by
      rw [hbits i, bitAt_replicate b.length_header, or_iff_right Bool.false_ne_true, Marked,
        Nat.sub_zero, ht, and_iff_right (Nat.zero_le i), Option.some_inj]
    rw [titleType_eq hlen hi]
    cases t with
    | basic => rw [if_neg (mt hbit.mp (by decide))]
    | enhanced => rw [if_pos (hbit.mpr rfl)]
  exact ⟨data, hblock, hlen, hstart, mapM_range_eq_ok htitle⟩

/-- What is written for the structure reads as the structure. -/
theorem parseData_toBlock {b : BasicCci} (h : b.Writable) :
    ∃ data, b.toBlock = .ok ⟨0x0101, 0x0100, data⟩ ∧ data.length = 132 ∧
      parseData data = .ok b := by
  obtain ⟨data, hblock, hlen, hdata, htitles⟩ := toBlock_eq_ok h
  have hmany := h.titles_le
  have hsmall : b.titleTypes.length < 2 ^ 16 := by omega
  have hcount : (UInt16.ofNat b.titleTypes.length).toNat = b.titleTypes.length :=
    UInt16.toNat_ofNat_of_lt' hsmall
  rw [header, List.append_assoc] at hdata
  have htokens : Ahead data 1 _ := hdata.next
  have hnum : Ahead data 2 _ := htokens.next
  have hread : parseData data = .ok b := by
    rw [parseData, refuseIf_neg (by omega), bind_ok, hdata.index, bind_ok, htokens.index, bind_ok,
      hnum.indexU16, bind_ok, hcount, refuseIf_neg (by omega), bind_ok,
      sliceFrom_of_le (by omega), bind_ok, htitles, bind_ok,
      fromBits_copyBits, epn_copyBits, image_tokenBits, digital_tokenBits,
        tokenBits_and _ _ h.apstb_le]
    rfl
  exact ⟨data, hblock, hlen, hread⟩

end BasicCci

namespace TitleDate

/-- Two nibbles in a byte do not touch each other. -/
theorem nib_or : ∀ hi < 16, ∀ lo < 16, nib (UInt8.ofNat hi <<< 4 ||| UInt8.ofNat lo) true =
    UInt8.ofNat hi ∧ nib (UInt8.ofNat hi <<< 4 ||| UInt8.ofNat lo) false = UInt8.ofNat lo := by
  decide +kernel

theorem nib_or_of_lt {hi lo : UInt8} (hhi : hi.toNat < 16) (hlo : lo.toNat < 16) :
    nib (hi <<< 4 ||| lo) true = hi ∧ nib (hi <<< 4 ||| lo) false = lo := by
  have h := nib_or hi.toNat hhi lo.toNat hlo
  rwa [UInt8.ofNat_toNat, UInt8.ofNat_toNat] at h

/-- The two digits of a number below a hundred. -/
theorem bcd2_toBcd2 {v : UInt8} (h : v ≤ 99) : bcd2 (toBcd2 v) = v := by
  have hv : v.toNat ≤ 99 := h
  obtain ⟨hhi, hlo⟩ := @nib_or_of_lt (v / 10) (v % 10) (by rw [UInt8.toNat_div]; simp; omega)
    (by rw [UInt8.toNat_mod]; simp; omega)
  rw [bcd2, toBcd2, hhi, hlo, ← UInt8.toNat_inj]
  simp
  omega

/-- Every field has the digits it is written with. -/
structure Digits (d : TitleDate) : Prop where
  year_le : d.year ≤ 9999
  month_le : d.month ≤ 99
  day_le : d.day ≤ 99
  hour_le : d.hour ≤ 99
  minute_le : d.minute ≤ 99

theorem length_toBytes (d : TitleDate) : d.toBytes.length = 7 := rfl

/-- The four digits of a year. -/
theorem year_digits {y : UInt16} (h : y ≤ 9999) :
    (y / 1000).toUInt8.toUInt16 * 1000 + (y / 100 % 10).toUInt8.toUInt16 * 100 +
      (y / 10 % 10).toUInt8.toUInt16 * 10 + (y % 10).toUInt8.toUInt16 = y := by
  have hy : y.toNat ≤ 9999 := h
  have htens : y.toNat / 10 / 10 = y.toNat / 100 := Nat.div_div_eq_div_mul _ _ _
  have hhundreds : y.toNat / 100 / 10 = y.toNat / 1000 := Nat.div_div_eq_div_mul _ _ _
  have hsmall (n : Nat) : n % 10 % 256 = n % 10 := Nat.mod_eq_of_lt (by omega)
  have hthousands : y.toNat / 1000 % 256 = y.toNat / 1000 := Nat.mod_eq_of_lt (by omega)
  rw [← UInt16.toNat_inj]
  simp [hsmall, hthousands]
  omega

/-- What is left of a date that is written: four digits of the year, and of every other field
what the two nibbles of a byte hold. -/
def written (d : TitleDate) : TitleDate :=
  ⟨d.year % 10000, bcd2 (toBcd2 d.month), bcd2 (toBcd2 d.day), bcd2 (toBcd2 d.hour),
    bcd2 (toBcd2 d.minute), d.timezone⟩

theorem parse_toBytes_eq (d : TitleDate) : parse d.toBytes = .ok d.written := by
  have hyear : d.year % 10000 ≤ 9999 := by
    have hmod : (d.year % 10000).toNat = d.year.toNat % 10000 := UInt16.toNat_mod _ _
    have hlt : (d.year % 10000).toNat ≤ 9999 := by omega
    exact hlt
  have hyear' : (d.year % 10000).toNat ≤ 9999 := hyear
  generalize hy : d.year % 10000 = y at hyear hyear'
  obtain ⟨h₀, h₁⟩ :=
    @nib_or_of_lt (y / 1000).toUInt8 (y / 100 % 10).toUInt8 (by simp; omega) (by simp; omega)
  obtain ⟨h₂, h₃⟩ :=
    @nib_or_of_lt (y / 10 % 10).toUInt8 (y % 10).toUInt8 (by simp; omega) (by simp; omega)
  rw [toBytes, written, hy]
  simp only [parse, index, List.getElem?_cons_zero, List.getElem?_cons_succ, expect_some, bind_ok]
  rw [h₀, h₁, h₂, h₃, year_digits hyear]
  rfl

theorem written_of_digits {d : TitleDate} (h : d.Digits) : d.written = d := by
  have hyear : d.year.toNat ≤ 9999 := h.year_le
  have hmod : d.year % 10000 = d.year := by
    rw [← UInt16.toNat_inj, UInt16.toNat_mod]
    exact Nat.mod_eq_of_lt (Nat.lt_succ_of_le hyear)
  rw [written, hmod, bcd2_toBcd2 h.month_le, bcd2_toBcd2 h.day_le, bcd2_toBcd2 h.hour_le,
    bcd2_toBcd2 h.minute_le]

end TitleDate

namespace EnhancedTitleUsage

/-- Dates can be written, and none is the one that stands for no date. -/
structure Writable (e : EnhancedTitleUsage) : Prop where
  after_digits : ∀ d ∈ e.after, d.Digits
  after_defined : ∀ d ∈ e.after, d.isUndefined = false
  before_digits : ∀ d ∈ e.before, d.Digits
  before_defined : ∀ d ∈ e.before, d.isUndefined = false

theorem digits_getD {date : Option TitleDate} (h : ∀ d ∈ date, d.Digits) :
    (date.getD TitleDate.default).Digits := by
  cases date with
  | none => exact ⟨by decide, by decide, by decide, by decide, by decide⟩
  | some d => exact h d rfl

/-- No date is written as the undefined one, which is read as no date. -/
theorem defined_getD {date : Option TitleDate} (h : ∀ d ∈ date, d.isUndefined = false) :
    defined (date.getD TitleDate.default) = date := by
  cases date with
  | none => rfl
  | some d => exact if_neg (by rw [Option.getD_some, h d rfl]; exact Bool.false_ne_true)

theorem length_toBlock (e : EnhancedTitleUsage) : e.toBlock.data.length = 32 := rfl

/-- A block is read back with its dates as they were written. -/
theorem parseData_toBlock_eq (e : EnhancedTitleUsage) : parseData e.toBlock.data =
    .ok { e with after := defined (e.after.getD TitleDate.default).written,
                 before := defined (e.before.getD TitleDate.default).written } := by
  have hlen := e.length_toBlock
  have htitle : Ahead e.toBlock.data 0
    (u16ToBe e.titleId ++ ((if e.cacheable = .cacheable then 0 else 1) ::
      (u16ToBe e.period ++ ((e.after.getD TitleDate.default).toBytes ++
        ((e.before.getD TitleDate.default).toBytes ++ List.replicate 13 0))))) := by
    simp [Ahead, toBlock]
  have hcacheable : Ahead e.toBlock.data 2 _ := htitle.step rfl
  have hperiod : Ahead e.toBlock.data 3 _ := hcacheable.next
  have hafter : Ahead e.toBlock.data 5 _ := hperiod.step rfl
  have hbefore : Ahead e.toBlock.data 12 _ := hafter.step (TitleDate.length_toBytes _)
  have hflag : (if (if e.cacheable = .cacheable then 0 else 1) &&& (0x01 : UInt8) =
    0 then Cacheable.cacheable
      else .instant) = e.cacheable := by
    cases e.cacheable <;> rfl
  rw [parseData, refuseIf_neg (by omega), bind_ok, htitle.indexU16, bind_ok,
    hcacheable.index, bind_ok, hperiod.indexU16, bind_ok, slice_of_le (by decide)
      (by omega), bind_ok,
    hafter.take (TitleDate.length_toBytes _),
    TitleDate.parse_toBytes_eq, bind_ok, slice_of_le (by decide) (by omega), bind_ok,
    hbefore.take (TitleDate.length_toBytes _), TitleDate.parse_toBytes_eq, bind_ok, hflag]
  rfl

theorem parseData_toBlock {e : EnhancedTitleUsage} (h : e.Writable) :
    parseData e.toBlock.data = .ok e := by
  rw [parseData_toBlock_eq, TitleDate.written_of_digits (digits_getD h.after_digits),
    defined_getD h.after_defined, TitleDate.written_of_digits (digits_getD h.before_digits),
    defined_getD h.before_defined]

end EnhancedTitleUsage

theorem BindingType.fromU8_toU8 {t : BindingType} (h : ∀ v, t = .reserved v → v = 0 ∨ 5 ≤ v) :
    fromU8 t.toU8 = t := by
  cases t with
  | reserved v =>
    have hother (c : UInt8) (hpos : c ≠ 0) (hlt : c < 5) : ¬ v = c := by
      rintro rfl
      rcases h v rfl with hv | hv
      · exact hpos hv
      · exact UInt8.not_lt.mpr hv hlt
    rw [toU8, fromU8, if_neg (hother 1 (by decide) (by decide)),
      if_neg (hother 2 (by decide) (by decide)), if_neg (hother 3 (by decide) (by decide)),
      if_neg (hother 4 (by decide) (by decide))]
  | _ => rfl

namespace KeyManagementOnline

/-- A reserved binding type carries a code that no other one has. -/
def Writable (k : KeyManagementOnline) : Prop := ∀ v, k.bindingType = .reserved v → v = 0 ∨ 5 ≤ v

theorem parseData_toBlock {k : KeyManagementOnline} (h : k.Writable) :
    parseData k.toBlock.data = .ok k := by
  have hread : parseData k.toBlock.data =
    .ok ⟨k.unitKeyStatus, BindingType.fromU8 k.bindingType.toU8⟩ := rfl
  rw [hread, BindingType.fromU8_toU8 h]

end KeyManagementOnline

theorem ContentOwnerAuthorizedOutputs.parseData_toBlock (o : ContentOwnerAuthorizedOutputs) :
    parseData o.toBlock.data = .ok o := by
  have hbits : Ahead o.toBlock.data 0 (o.outputControlBits.toList ++ []) := (List.append_nil _).symm
  have hlen : o.toBlock.data.length = 0x10 := o.outputControlBits.length_toList
  rw [parseData, refuseIf_neg (not_not_intro hlen), bind_ok, hbits.readArray (by decide), bind_ok]
  rfl

inductive TypedCci where
  | basicCci (b : BasicCci)
  | enhancedTitleUsage (e : EnhancedTitleUsage)
  | keyManagementOnline (k : KeyManagementOnline)
  | contentOwnerOutputs (o : ContentOwnerAuthorizedOutputs)
  deriving DecidableEq

/-- The readings of a block, by the accessors that accept its type. -/
def CciAndOtherInfo.readings (b : CciAndOtherInfo) : List (Result TypedCci) :=
  (b.asBasicCci.map (TypedCci.basicCci <$> ·)).toList ++
  (b.asEnhancedTitleUsage.map (TypedCci.enhancedTitleUsage <$> ·)).toList ++
  (b.asKeyManagementOnline.map (TypedCci.keyManagementOnline <$> ·)).toList ++
  (b.asContentOwnerOutputs.map (TypedCci.contentOwnerOutputs <$> ·)).toList

namespace TypedCci

def toBlock : TypedCci → Result CciAndOtherInfo
  | basicCci b => b.toBlock
  | enhancedTitleUsage e => pure e.toBlock
  | keyManagementOnline k => pure k.toBlock
  | contentOwnerOutputs o => pure o.toBlock

def Writable : TypedCci → Prop
  | basicCci b => b.Writable
  | enhancedTitleUsage e => e.Writable
  | keyManagementOnline k => k.Writable
  | contentOwnerOutputs _ => True

theorem fits_of_length {b : CciAndOtherInfo} {n : Nat} (h : b.data.length = n) (hn : n < 2 ^ 16) :
    b.Fits := by
  rwa [CciAndOtherInfo.Fits, h]

/-- Only the accessor of its type accepts a block, and it reads what was written. -/
theorem readings_toBlock {v : TypedCci} (h : v.Writable) :
    ∃ block, v.toBlock = .ok block ∧ block.Fits ∧ block.readings = [.ok v] := by
  cases v with
  | basicCci b =>
    obtain ⟨data, hblock, hlen, hread⟩ := BasicCci.parseData_toBlock h
    have hreadings : CciAndOtherInfo.readings ⟨0x0101, 0x0100, data⟩ =
      [basicCci <$> BasicCci.parseData data] := rfl
    rw [hread, map_ok] at hreadings
    exact ⟨_, hblock, fits_of_length hlen (by decide), hreadings⟩
  | enhancedTitleUsage e =>
    have hreadings : e.toBlock.readings =
      [enhancedTitleUsage <$> EnhancedTitleUsage.parseData e.toBlock.data] := rfl
    rw [EnhancedTitleUsage.parseData_toBlock h, map_ok] at hreadings
    exact ⟨_, rfl, fits_of_length e.length_toBlock (by decide), hreadings⟩
  | keyManagementOnline k =>
    have hlen : k.toBlock.data.length = 0x10 := rfl
    have hreadings : k.toBlock.readings =
      [keyManagementOnline <$> KeyManagementOnline.parseData k.toBlock.data] := rfl
    rw [KeyManagementOnline.parseData_toBlock h, map_ok] at hreadings
    exact ⟨_, rfl, fits_of_length hlen (by decide), hreadings⟩
  | contentOwnerOutputs o =>
    have hlen : o.toBlock.data.length = 0x10 := o.outputControlBits.length_toList
    have hreadings : o.toBlock.readings =
      [contentOwnerOutputs <$> ContentOwnerAuthorizedOutputs.parseData o.toBlock.data] := rfl
    rw [ContentOwnerAuthorizedOutputs.parseData_toBlock, map_ok] at hreadings
    exact ⟨_, rfl, fits_of_length hlen (by decide), hreadings⟩

/-- A structure comes back from the bytes its block is written to, whatever follows them. -/
theorem readings_parse_toBlock {v : TypedCci} (h : v.Writable) (rest : List UInt8) :
    ∃ block, v.toBlock = .ok block ∧
      CciAndOtherInfo.parse (block.toBytes ++ rest) = .ok (block, block.toBytes.length) ∧
        block.readings = [.ok v] := by
  obtain ⟨block, hblock, hfits, hread⟩ := readings_toBlock h
  exact ⟨block, hblock, CciAndOtherInfo.parse_toBytes hfits rest, hread⟩

/-- A reserved byte follows four titles, of which the middle two are enhanced. -/
theorem readings_parse_toBlock_titles :
    ∃ block, toBlock
      (basicCci ⟨true, .copyOneGeneration, true, false, 6,
        [.basic, .enhanced, .enhanced, .basic]⟩) = .ok block ∧
      CciAndOtherInfo.parse (block.toBytes ++ [0]) = .ok (block, block.toBytes.length) ∧
      block.readings =
        [.ok (basicCci ⟨true, .copyOneGeneration, true, false, 6,
          [.basic, .enhanced, .enhanced, .basic]⟩)] :=
  readings_parse_toBlock (v := basicCci _) ⟨by decide, by decide⟩ [0]

end TypedCci
