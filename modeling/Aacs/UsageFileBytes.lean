import Aacs.Cursor
import Aacs.UsageFile

/-!
# Writing the CPS Unit Usage File

The blocks of an area are written one behind the other, behind a header that
counts them, and zeros fill the area. The primary area has one length; that of
the secondary one grows with its blocks.
-/

namespace CciAndOtherInfo

def toBytes (b : CciAndOtherInfo) : List UInt8 :=
  u16ToBe b.infoType ++ u16ToBe b.version ++ u16ToBe (UInt16.ofNat b.data.length) ++ b.data

@[simp] theorem length_toBytes (b : CciAndOtherInfo) : b.toBytes.length = 6 + b.data.length := by
  simp [toBytes]
  omega

/-- The length field can hold the length of the data. -/
def Fits (b : CciAndOtherInfo) : Prop := b.data.length < 2 ^ 16

theorem Fits.toNat_length {b : CciAndOtherInfo} (h : b.Fits) :
    (UInt16.ofNat b.data.length).toNat = b.data.length :=
  UInt16.toNat_ofNat_of_lt' h

/-- A block is read from the front of what it is written to. -/
theorem parse_toBytes {b : CciAndOtherInfo} (h : b.Fits) (rest : List UInt8) :
    parse (b.toBytes ++ rest) = .ok (b, b.toBytes.length) := by
  have hlen : (b.toBytes ++ rest).length = 6 + b.data.length + rest.length := by simp
  have htype : Ahead (b.toBytes ++ rest) 0 (u16ToBe b.infoType ++ (u16ToBe b.version ++
      (u16ToBe (UInt16.ofNat b.data.length) ++ (b.data ++ rest)))) := by
    simp [Ahead, toBytes]
  have hversion : Ahead _ 2 _ := htype.step rfl
  have hcount : Ahead _ 4 _ := hversion.step rfl
  have hdata : Ahead _ 6 _ := hcount.step rfl
  rw [parse, Outcome.refuseIf_neg (by omega), Outcome.bind_ok, htype.indexU16, Outcome.bind_ok,
    hversion.indexU16, Outcome.bind_ok, hcount.indexU16, Outcome.bind_ok, h.toNat_length]
  dsimp only
  rw [Outcome.refuseIf_neg (by omega), Outcome.bind_ok,
    Outcome.slice_of_le (Nat.le_add_right _ _) (by omega), Outcome.bind_ok, Nat.add_sub_cancel_left,
    hdata.take rfl, length_toBytes]
  rfl

/-- What is read was written so, in front of the rest. -/
theorem parse_eq_ok {bytes : List UInt8} {r : CciAndOtherInfo × Nat} (h : parse bytes = .ok r) :
    r.1.Fits ∧ r.2 = r.1.toBytes.length ∧ ∃ rest, bytes = r.1.toBytes ++ rest := by
  simp only [parse, Outcome.bind_eq_ok, Outcome.refuseIf_eq_ok, exists_const,
    Outcome.indexU16_eq_ok, Outcome.slice_eq_ok] at h
  obtain ⟨-, infoType, htype, version, hversion, dataLength, hcount, -, data,
    ⟨-, hlen, hdata⟩, hr⟩ := h
  obtain rfl := Outcome.ok.inj hr
  rw [Nat.add_sub_cancel_left] at hdata
  have hlength : data.length = dataLength.toNat := by
    rw [hdata, List.length_take_of_le (by rw [List.length_drop]; omega)]
  refine ⟨hlength ▸ dataLength.toNat_lt, by rw [length_toBytes, hlength],
    bytes.drop (6 + dataLength.toNat), ?_⟩
  have hsplit (i j : Nat) : bytes.drop i = (bytes.drop i).take j ++ bytes.drop (i + j) := by
    rw [← List.drop_drop, List.take_append_drop]
  calc bytes = (bytes.drop 0).take 2 ++ bytes.drop 2 := hsplit 0 2
    _ = u16ToBe infoType ++ (u16ToBe version ++ bytes.drop 4) := by rw [htype, hsplit 2 2, hversion]
    _ = u16ToBe infoType ++
      (u16ToBe version ++ (u16ToBe dataLength ++ (data ++ bytes.drop (6 + dataLength.toNat)))) := by
      rw [hsplit 4 2, hcount, hsplit 6 dataLength.toNat, ← hdata]
    _ = _ := by
      rw [toBytes, hlength, UInt16.ofNat_toNat]
      simp only [List.append_assoc]

end CciAndOtherInfo

namespace CpsUnitUsageFile

def areaBytes (blocks : List CciAndOtherInfo) : List UInt8 := blocks.flatMap CciAndOtherInfo.toBytes

@[simp] theorem areaBytes_nil : areaBytes [] = [] := rfl

@[simp] theorem areaBytes_cons (b : CciAndOtherInfo) (bs : List CciAndOtherInfo) :
    areaBytes (b :: bs) = b.toBytes ++ areaBytes bs := rfl

/-- The loop reads the blocks written, and leaves what fills the area. -/
theorem areaLoop_areaBytes {area filler : List UInt8} {blocks : List CciAndOtherInfo} {cursor : Nat}
    (hfits : ∀ b ∈ blocks, b.Fits) (h : Ahead area cursor (areaBytes blocks ++ filler)) :
    areaLoop area blocks.length cursor = .ok blocks := by
  induction blocks generalizing cursor with
  | nil => rfl
  | cons b bs ih =>
    obtain ⟨hb, hbs⟩ := List.forall_mem_cons.mp hfits
    rw [areaBytes_cons, List.append_assoc] at h
    have hend := h.fits rfl (by rw [CciAndOtherInfo.length_toBytes]; omega)
    have hlen := b.length_toBytes
    have htail : (Outcome.sliceFrom area cursor : Result (List UInt8)) =
        .ok (b.toBytes ++ (areaBytes bs ++ filler)) := by
      rw [Outcome.sliceFrom_of_le (by omega), h]
    rw [List.length_cons, areaLoop, Outcome.refuseIf_neg (by omega), Outcome.bind_ok, htail,
      Outcome.bind_ok, CciAndOtherInfo.parse_toBytes hb, Outcome.bind_ok, ih hbs (h.step rfl),
      Outcome.bind_ok, Outcome.pure_eq]

theorem areaLoop_eq_ok {area : List UInt8} {n cursor : Nat} {blocks : List CciAndOtherInfo}
    (h : areaLoop area n cursor = .ok blocks) : blocks.length = n ∧ (∀ b ∈ blocks, b.Fits) ∧
      ∃ filler, Ahead area cursor (areaBytes blocks ++ filler) := by
  induction n generalizing cursor blocks with
  | zero =>
    obtain rfl := Outcome.ok.inj h
    exact ⟨rfl, by simp, area.drop cursor, rfl⟩
  | succ n ih =>
    obtain ⟨_, hroom, h⟩ := Outcome.bind_eq_ok.mp h
    obtain ⟨tail, htail, h⟩ := Outcome.bind_eq_ok.mp h
    obtain ⟨r, hr, h⟩ := Outcome.bind_eq_ok.mp h
    obtain ⟨bs, hbs, h⟩ := Outcome.bind_eq_ok.mp h
    obtain rfl := Outcome.ok.inj h
    rw [Outcome.refuseIf_eq_ok] at hroom
    rw [Outcome.sliceFrom_of_le (by omega)] at htail
    obtain ⟨hfits, hend, rest, hrest⟩ := CciAndOtherInfo.parse_eq_ok hr
    obtain ⟨hlen, hall, filler, hfiller⟩ := ih hbs
    have hcursor : Ahead area cursor (r.1.toBytes ++ rest) := (Outcome.ok.inj htail).trans hrest
    have hnext : rest = areaBytes bs ++ filler := by
      rw [hend] at hfiller
      exact (hcursor.step rfl).symm.trans hfiller
    refine ⟨by rw [List.length_cons, hlen], List.forall_mem_cons.mpr ⟨hfits, hall⟩, filler, ?_⟩
    rw [areaBytes_cons, List.append_assoc, ← hnext]
    exact hcursor

/-- `vec.resize(n, 0)`. -/
def resize (n : Nat) (bs : List UInt8) : List UInt8 := bs.take n ++ List.replicate (n - bs.length) 0

@[simp] theorem length_resize (n : Nat) (bs : List UInt8) : (resize n bs).length = n := by
  simp [resize]
  omega

theorem resize_of_le {n : Nat} {bs : List UInt8} (h : bs.length ≤ n) :
    resize n bs = bs ++ List.replicate (n - bs.length) 0 := by
  rw [resize, List.take_of_length_le h]

/-- A header: the count of the blocks, and fourteen reserved bytes. -/
def areaHeader (blocks : List CciAndOtherInfo) : List UInt8 :=
  u16ToBe (UInt16.ofNat blocks.length) ++ List.replicate 14 0

@[simp] theorem length_areaHeader (blocks : List CciAndOtherInfo) :
    (areaHeader blocks).length = 16 := by
  simp [areaHeader]

/-- `a.div_ceil(b)`. -/
def divCeil (a b : Nat) : Nat := if a % b = 0 then a / b else a / b + 1

/-- The length of the secondary area for blocks of a total length. -/
def secondaryTarget (len : Nat) : Nat :=
  let areaMin := 2048 - 16
  let target := max len areaMin
  divCeil target areaMin * areaMin

def toBytes (f : CpsUnitUsageFile) : List UInt8 :=
  areaHeader f.primary ++ resize 2032 (areaBytes f.primary) ++
    if f.hasSecondary then
      areaHeader f.secondary ++ resize (secondaryTarget (areaBytes f.secondary).length)
        (areaBytes f.secondary)
    else []

theorem secondaryTarget_eq (len : Nat) : secondaryTarget len = 2032 * ((len - 1) / 2032 + 1) := by
  have hmin : 2048 - 16 = 2032 := rfl
  rw [secondaryTarget, hmin, divCeil]
  by_cases h : max len 2032 % 2032 = 0
  · rw [if_pos h]
    omega
  · rw [if_neg h]
    omega

theorem le_secondaryTarget (len : Nat) : len ≤ secondaryTarget len := by
  rw [secondaryTarget_eq]
  omega

section
variable {f : CpsUnitUsageFile}

theorem toBytes_of_not (h : f.hasSecondary = false) :
    f.toBytes = areaHeader f.primary ++ resize 2032 (areaBytes f.primary) := by
  rw [toBytes, h, if_neg Bool.false_ne_true, List.append_nil]

/-- Zeros fill the secondary area behind its blocks. -/
theorem toBytes_of_has (h : f.hasSecondary = true) :
    f.toBytes = areaHeader f.primary ++ resize 2032 (areaBytes f.primary) ++
      (areaHeader f.secondary ++ areaBytes f.secondary ++
        List.replicate
          (secondaryTarget (areaBytes f.secondary).length - (areaBytes f.secondary).length) 0) := by
  rw [toBytes, h, if_pos rfl, resize_of_le (le_secondaryTarget _),
    List.append_assoc (areaHeader f.secondary)]

theorem length_primary :
    (areaHeader f.primary ++ resize 2032 (areaBytes f.primary)).length = 2048 := by
  simp

theorem drop_toBytes (h : f.hasSecondary = true) :
    f.toBytes.drop 2048 = areaHeader f.secondary ++ areaBytes f.secondary ++
      List.replicate
        (secondaryTarget (areaBytes f.secondary).length - (areaBytes f.secondary).length) 0 := by
  rw [toBytes_of_has h, List.drop_left' length_primary]

theorem length_toBytes_of_not (h : f.hasSecondary = false) : f.toBytes.length = 2048 := by
  rw [toBytes_of_not h, length_primary]

theorem length_toBytes_of_has (h : f.hasSecondary = true) :
    f.toBytes.length = 2048 + (16 + secondaryTarget (areaBytes f.secondary).length) := by
  have hle := le_secondaryTarget (areaBytes f.secondary).length
  rw [toBytes_of_has h, List.length_append, length_primary]
  simp only [List.length_append, length_areaHeader, List.length_replicate]
  omega

end

/-- The file ends at the end of a sector, and zeros fill the secondary area up to the end of
the first sector that leaves room for its header and its blocks. -/
def Sized (f : CpsUnitUsageFile) : Prop :=
  f.toBytes.length % 2048 = 0 ∧ (f.hasSecondary = true → ∃ sectors padding, 0 < sectors ∧
    f.toBytes.drop 2048 = areaHeader f.secondary ++ areaBytes f.secondary ++
      List.replicate padding 0 ∧
    (areaBytes f.secondary).length + padding = 2048 * sectors - 16 ∧
    ∀ n, 0 < n → (areaBytes f.secondary).length ≤ 2048 * n - 16 → sectors ≤ n)

/-- The area grows by 2032 bytes and not by sectors: it ends with one only when its blocks end in
the first of 128 such steps, which are 127 sectors. -/
theorem sized_iff (f : CpsUnitUsageFile) :
    Sized f ↔ (f.hasSecondary = true → ((areaBytes f.secondary).length - 1) / 2032 % 128 = 0) := by
  cases h : f.hasSecondary with
  | false =>
    have hlength := length_toBytes_of_not h
    simp [Sized, h, hlength]
  | true =>
    have hlength := length_toBytes_of_has h
    have hdrop := drop_toBytes h
    have hle := le_secondaryTarget (areaBytes f.secondary).length
    have htarget := secondaryTarget_eq (areaBytes f.secondary).length
    constructor
    · rintro ⟨hsector, -⟩ -
      omega
    · intro hsteps
      obtain ⟨m, hm⟩ := Nat.dvd_of_mod_eq_zero (hsteps rfl)
      have hend : secondaryTarget (areaBytes f.secondary).length = 2048 * (127 * m + 1) - 16 := by
        omega
      constructor
      · omega
      · intro _
        refine ⟨127 * m + 1, _, by omega, hdrop, by omega, ?_⟩
        intro n hn hroom
        omega

/-- One block of 2032 bytes and its header need two steps. -/
theorem not_sized_2032 : ¬ Sized ⟨[], [⟨0x0113, 0x0100, List.replicate 2032 0⟩], true⟩ := by
  generalize hblock : CciAndOtherInfo.mk 0x0113 0x0100 (List.replicate 2032 0) = block
  have hlen : (areaBytes [block]).length = 2038 := by
    rw [areaBytes_cons, areaBytes_nil, List.append_nil, CciAndOtherInfo.length_toBytes, ← hblock,
      List.length_replicate]
  rintro ⟨hsector, -⟩
  rw [length_toBytes_of_has rfl, hlen, secondaryTarget_eq] at hsector
  omega

/-- The counts and the lengths fit their fields, the primary blocks their area, and blocks stand in
a secondary area only where there is one. -/
structure Writable (f : CpsUnitUsageFile) : Prop where
  primary_count : f.primary.length < 2 ^ 16
  primary_fits : ∀ b ∈ f.primary, b.Fits
  primary_room : (areaBytes f.primary).length ≤ 2032
  secondary_absent : f.hasSecondary = false → f.secondary = []
  secondary_count : f.secondary.length < 2 ^ 16
  secondary_fits : ∀ b ∈ f.secondary, b.Fits

theorem parseSecondary_writable {bytes : List UInt8} {r : List CciAndOtherInfo × Bool}
    (h : parseSecondary bytes = .ok r) :
    (r.2 = false → r.1 = []) ∧ r.1.length < 2 ^ 16 ∧ ∀ b ∈ r.1, b.Fits := by
  by_cases hthere : bytes.length > 2048
  · rw [parseSecondary, if_pos hthere] at h
    obtain ⟨_, -, h⟩ := Outcome.bind_eq_ok.mp h
    obtain ⟨loops, -, h⟩ := Outcome.bind_eq_ok.mp h
    obtain ⟨area, -, h⟩ := Outcome.bind_eq_ok.mp h
    obtain ⟨blocks, hblocks, h⟩ := Outcome.bind_eq_ok.mp h
    obtain rfl := Outcome.ok.inj h
    obtain ⟨hcount, hfits, -⟩ := areaLoop_eq_ok hblocks
    exact ⟨fun h => Bool.noConfusion h, hcount ▸ loops.toNat_lt, hfits⟩
  · rw [parseSecondary, if_neg hthere] at h
    obtain rfl := Outcome.ok.inj h
    simp

/-- What is read can be written. -/
theorem parse_writable {bytes : List UInt8} {f : CpsUnitUsageFile} (h : parse bytes = .ok f) :
    f.Writable := by
  obtain ⟨_, -, h⟩ := Outcome.bind_eq_ok.mp h
  obtain ⟨loops, -, h⟩ := Outcome.bind_eq_ok.mp h
  obtain ⟨area, harea, h⟩ := Outcome.bind_eq_ok.mp h
  obtain ⟨primary, hprimary, h⟩ := Outcome.bind_eq_ok.mp h
  obtain ⟨secondary, hsecondary, h⟩ := Outcome.bind_eq_ok.mp h
  obtain rfl := Outcome.ok.inj h
  obtain ⟨-, hlen, rfl⟩ := Outcome.slice_eq_ok.mp harea
  obtain ⟨hcount, hfits, filler, hfiller⟩ := areaLoop_eq_ok hprimary
  obtain ⟨habsent, hcount', hfits'⟩ := parseSecondary_writable hsecondary
  have hlength := congrArg List.length hfiller
  rw [List.drop_zero, length_drop_take (by omega), List.length_append] at hlength
  have hroom : (areaBytes primary).length ≤ 2032 := by omega
  exact ⟨hcount ▸ loops.toNat_lt, hfits, hroom, habsent, hcount', hfits'⟩

section
variable {f : CpsUnitUsageFile}

/-- The count and the blocks of an area are read from what is written for it. -/
theorem parseArea_areaBytes {area filler : List UInt8} {blocks : List CciAndOtherInfo}
    (hcount : blocks.length < 2 ^ 16) (hfits : ∀ b ∈ blocks, b.Fits)
    (harea : area = areaBytes blocks ++ filler) :
    parseArea area (UInt16.ofNat blocks.length).toNat = .ok blocks := by
  have hstart : Ahead area 0 (areaBytes blocks ++ filler) := harea
  rw [UInt16.toNat_ofNat_of_lt' hcount, parseArea, areaLoop_areaBytes hfits hstart]

theorem parseSecondary_toBytes (h : f.Writable) : parseSecondary f.toBytes = .ok
    (f.secondary, f.hasSecondary) := by
  cases hhas : f.hasSecondary with
  | false =>
    have hlen := length_toBytes_of_not hhas
    rw [parseSecondary, if_neg (by omega), h.secondary_absent hhas]
    rfl
  | true =>
    have hlen := length_toBytes_of_has hhas
    have hheader := drop_toBytes hhas
    rw [areaHeader, List.append_assoc, List.append_assoc] at hheader
    have hcount : Ahead f.toBytes 2048 _ := hheader
    have hreserved : Ahead f.toBytes 2050 _ := hcount.step rfl
    have harea : Ahead f.toBytes 2064 _ := hreserved.step List.length_replicate
    rw [parseSecondary, if_pos (by omega), Outcome.refuseIf_neg (by omega), Outcome.bind_ok,
      hcount.indexU16, Outcome.bind_ok, Outcome.sliceFrom_of_le (by omega), Outcome.bind_ok,
      parseArea_areaBytes h.secondary_count h.secondary_fits harea]
    rfl

/-- What is written is read again. -/
theorem parse_toBytes (h : f.Writable) : parse f.toBytes = .ok f := by
  have hlen : 2048 ≤ f.toBytes.length := by
    rw [toBytes, List.length_append, length_primary]
    exact Nat.le_add_right _ _
  have hbytes : f.toBytes = u16ToBe (UInt16.ofNat f.primary.length) ++ (List.replicate 14 0 ++
      (resize 2032 (areaBytes f.primary) ++ f.toBytes.drop 2048)) := by
    rw [← List.append_assoc, ← List.append_assoc, ← areaHeader, toBytes,
      List.drop_left' length_primary]
  have hcount : Ahead f.toBytes 0 _ := hbytes
  have hreserved : Ahead f.toBytes 2 _ := hcount.step rfl
  have harea : Ahead f.toBytes 16 _ := hreserved.step List.length_replicate
  rw [parse, Outcome.refuseIf_neg (by omega), Outcome.bind_ok, hcount.indexU16, Outcome.bind_ok,
    Outcome.slice_of_le (by decide) hlen, Outcome.bind_ok, harea.take (length_resize _ _),
    parseArea_areaBytes h.primary_count h.primary_fits (resize_of_le h.primary_room),
      Outcome.bind_ok,
    parseSecondary_toBytes h]
  rfl

end

end CpsUnitUsageFile
