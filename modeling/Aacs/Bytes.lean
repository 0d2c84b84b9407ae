import Aacs.Outcome
import Mathlib.Data.Nat.Digits.Lemmas

/-!
# Byte strings

Byte arrays of a fixed length, reads of a byte string that panic out of range,
and big-endian numbers: `beNat` reads one and `beBytes` writes one, inverse to
each other in both directions.
-/

theorem length_drop_take {n : Nat} {bs : List UInt8} {off : Nat} (h : off + n ≤ bs.length) :
    ((bs.drop off).take n).length = n := by
  rw [List.length_take_of_le]
  rw [List.length_drop]
  omega

theorem length_flatMap_const {α β : Type} {l : List α} {f : α → List β} {c : Nat}
    (h : ∀ a ∈ l, (f a).length = c) :
    (l.flatMap f).length = l.length * c := by
  induction l with
  | nil => simp
  | cons a l ih =>
    obtain ⟨ha, hl⟩ := List.forall_mem_cons.mp h
    rw [List.flatMap_cons, List.length_append, ha, ih hl, List.length_cons, Nat.succ_mul,
      Nat.add_comm]

/-- `[u8; n]`. -/
@[ext] structure Bytes (n : Nat) where
  toList : List UInt8
  length_toList : toList.length = n
  deriving DecidableEq

namespace Bytes

attribute [simp] length_toList

variable {m n : Nat}

/-- Bytes of these arrays are read at literal places. -/
instance neZero10 : NeZero 10 := ⟨by decide⟩

instance neZero12 : NeZero 12 := ⟨by decide⟩

instance neZero16 : NeZero 16 := ⟨by decide⟩

def zero (n : Nat) : Bytes n := ⟨List.replicate n 0, List.length_replicate⟩

def ofFn (f : Fin n → UInt8) : Bytes n := ⟨List.ofFn f, List.length_ofFn⟩

def get (b : Bytes n) (i : Fin n) : UInt8 := b.toList.get (i.cast b.length_toList.symm)

def append (a : Bytes m) (b : Bytes n) : Bytes (m + n) := ⟨a.toList ++ b.toList, by simp⟩

@[simp] theorem append_toList (a : Bytes m) (b : Bytes n) :
    (a.append b).toList = a.toList ++ b.toList := rfl

theorem length_slice (b : Bytes n) {off len : Nat} (h : Nat.ble (off + len) n = true) :
    ((b.toList.drop off).take len).length = len :=
  length_drop_take (b.length_toList.symm ▸ Nat.le_of_ble_eq_true h)

/-- `b[off..off + len]` of an array, in range by its type: for literals the bound is evaluated. -/
def slice (b : Bytes n) (off len : Nat)
    (h : Nat.ble (off + len) n = true := by exact Eq.refl true) : Bytes len :=
  ⟨(b.toList.drop off).take len, length_slice b h⟩

@[simp] theorem slice_toList (b : Bytes n) (off len : Nat) (h : Nat.ble (off + len) n = true) :
    (b.slice off len h).toList = (b.toList.drop off).take len := rfl

def xor (a b : Bytes n) : Bytes n := ⟨List.zipWith (· ^^^ ·) a.toList b.toList, by simp⟩

@[simp] theorem xor_toList (a b : Bytes n) :
    (a.xor b).toList = List.zipWith (· ^^^ ·) a.toList b.toList := rfl

theorem xor_xor (a b : Bytes n) : (a.xor b).xor b = a := by
  apply Bytes.ext
  apply List.ext_getElem (by simp)
  intro i _ _
  simp only [xor_toList, List.getElem_zipWith, UInt8.xor_assoc, UInt8.xor_self, UInt8.xor_zero]

theorem xor_right_comm (a b c : Bytes n) : (a.xor b).xor c = (a.xor c).xor b := by
  apply Bytes.ext
  apply List.ext_getElem
  · simp
  · intro i h₁ h₂
    simp only [xor_toList, List.getElem_zipWith, UInt8.xor_assoc]
    exact congrArg _ (UInt8.xor_comm _ _)

theorem xor_left_injective (c : Bytes n) : Function.Injective fun a : Bytes n => a.xor c := by
  intro a b h
  have h' := congrArg (fun x : Bytes n => x.xor c) h
  simpa only [xor_xor] using h'

theorem xor_comm (a b : Bytes n) : a.xor b = b.xor a := by
  apply Bytes.ext
  simp only [xor_toList]
  exact List.zipWith_comm_of_comm UInt8.xor_comm

/-- What two values have in common drops out of their difference. -/
theorem xor_cancel (x a b : Bytes n) : (x.xor a).xor (x.xor b) = a.xor b := by
  rw [xor_right_comm, xor_comm x (x.xor b), xor_comm x b, xor_xor, xor_comm]

end Bytes

namespace Outcome

variable {ε : Type}

/-- `bs[i]`. -/
def index (bs : List UInt8) (i : Nat) : Outcome ε UInt8 := expect bs[i]?

theorem index_eq_ok {bs : List UInt8} {i : Nat} {b : UInt8} :
    (index bs i : Outcome ε UInt8) = ok b ↔ bs[i]? = some b := expect_eq_ok

theorem index_of_lt {bs : List UInt8} {i : Nat} (h : i < bs.length) :
    (index bs i : Outcome ε UInt8) = ok (bs.get ⟨i, h⟩) := by
  simp [index, h]

theorem drop_take_one {bs : List UInt8} {i : Nat} {b : UInt8} (h : bs[i]? = some b) :
    (bs.drop i).take 1 = [b] := by
  obtain ⟨hi, rfl⟩ := List.getElem?_eq_some_iff.mp h
  rw [List.drop_eq_getElem_cons hi, List.take_succ_cons, List.take_zero]

/-- `a - b` on bytes, which panics below zero. -/
def subU8 (a b : UInt8) : Outcome ε UInt8 := if b ≤ a then ok (a - b) else panic

/-- `a + b` on bytes, which panics above 255. -/
def addU8 (a b : UInt8) : Outcome ε UInt8 := if a.toNat + b.toNat < 256 then ok (a + b) else panic

/-- `a >> n`, which panics from 32 on. -/
def shrU32 (a : UInt32) (n : Nat) : Outcome ε UInt32 :=
  if n < 32 then ok (a >>> UInt32.ofNat n) else panic

theorem shrU32_of_lt (a : UInt32) {n : Nat} (h : n < 32) :
    (shrU32 a n : Outcome ε UInt32) = ok (a >>> UInt32.ofNat n) := by
  rw [shrU32, if_pos h]

/-- `&bs[a..b]`. -/
def slice (bs : List UInt8) (a b : Nat) : Outcome ε (List UInt8) :=
  if a ≤ b ∧ b ≤ bs.length then ok ((bs.drop a).take (b - a)) else panic

theorem slice_eq_ok {bs s : List UInt8} {a b : Nat} :
    (slice bs a b : Outcome ε (List UInt8)) = ok s ↔
      a ≤ b ∧ b ≤ bs.length ∧ s = (bs.drop a).take (b - a) := by
  unfold slice
  split <;> simp <;> grind

theorem slice_of_le {bs : List UInt8} {a b : Nat} (ha : a ≤ b) (hb : b ≤ bs.length) :
    (slice bs a b : Outcome ε (List UInt8)) = ok ((bs.drop a).take (b - a)) := by
  simp [slice, ha, hb]

/-- `&bs[a..]`. -/
def sliceFrom (bs : List UInt8) (a : Nat) : Outcome ε (List UInt8) := slice bs a bs.length

theorem sliceFrom_of_le {bs : List UInt8} {a : Nat} (ha : a ≤ bs.length) :
    (sliceFrom bs a : Outcome ε (List UInt8)) = ok (bs.drop a) := by
  rw [sliceFrom, slice_of_le ha le_rfl, List.take_of_length_le (by simp)]

/-- `arr.copy_from_slice(bs)` into a fresh `[u8; n]`: the lengths must be equal. -/
def copyFrom (n : Nat) (bs : List UInt8) : Outcome ε (Bytes n) :=
  if h : bs.length = n then ok ⟨bs, h⟩ else panic

theorem copyFrom_eq_ok {n : Nat} {bs : List UInt8} {b : Bytes n} :
    (copyFrom n bs : Outcome ε (Bytes n)) = ok b ↔ bs = b.toList := by
  unfold copyFrom
  split
  · simp [Bytes.ext_iff]
  · next h => simp; rintro rfl; exact h b.length_toList

theorem copyFrom_of_length {n : Nat} {bs : List UInt8} (h : bs.length = n) :
    (copyFrom n bs : Outcome ε (Bytes n)) = ok ⟨bs, h⟩ := copyFrom_eq_ok.mpr rfl

/-- `arr.copy_from_slice(&bs[off..off + n])`. -/
def readArray (n : Nat) (bs : List UInt8) (off : Nat) : Outcome ε (Bytes n) := do
  let s ← slice bs off (off + n)
  copyFrom n s

theorem readArray_eq_ok {n : Nat} {bs : List UInt8} {off : Nat} {b : Bytes n} :
    (readArray n bs off : Outcome ε (Bytes n)) = ok b ↔
      off + n ≤ bs.length ∧ b.toList = (bs.drop off).take n := by
  simp only [readArray, bind_eq_ok, slice_eq_ok, copyFrom_eq_ok]
  constructor
  · rintro ⟨s, ⟨_, hlen, rfl⟩, hs⟩
    exact ⟨hlen, by rw [← hs, Nat.add_sub_cancel_left]⟩
  · rintro ⟨hlen, hb⟩
    exact ⟨b.toList, ⟨by omega, hlen, by rw [hb, Nat.add_sub_cancel_left]⟩, rfl⟩

theorem readArray_of_le {n : Nat} {bs : List UInt8} {off : Nat} (h : off + n ≤ bs.length) :
    (readArray n bs off : Outcome ε (Bytes n)) = ok ⟨(bs.drop off).take n, length_drop_take h⟩ := by
  rw [readArray_eq_ok]
  exact ⟨h, rfl⟩

/-- `count` arrays of `n` bytes, one behind the other. -/
def readArrays (n : Nat) : Nat → List UInt8 → Nat → Outcome ε (List (Bytes n))
  | 0, _, _ => pure []
  | count + 1, bs, off => do
    let a ← readArray n bs off
    let as ← readArrays n count bs (off + n)
    pure (a :: as)

theorem readArrays_eq_ok {n count : Nat} {bs : List UInt8} {off : Nat} {as : List (Bytes n)}
    (hlen : off + count * n ≤ bs.length) : (readArrays n count bs off : Outcome ε _) = ok as ↔
      as.length = count ∧ (bs.drop off).take (count * n) = as.flatMap Bytes.toList := by
  induction count generalizing off as with
  | zero =>
    rw [readArrays, Nat.zero_mul, List.take_zero, List.length_eq_zero_iff]
    constructor
    · intro h
      obtain rfl := ok.inj h
      exact ⟨rfl, rfl⟩
    · rintro ⟨rfl, -⟩
      rfl
  | succ count ih =>
    have hn : (count + 1) * n = n + count * n := by ring
    rw [hn] at hlen ⊢
    rw [List.take_add, List.drop_drop, readArrays, bind_eq_ok]
    have hrest (as' : List (Bytes n)) : (readArrays n count bs (off + n) : Outcome ε _) =
        ok as' ↔ _ :=
      ih (by omega)
    simp only [readArray_eq_ok, bind_eq_ok, hrest, pure_eq, ok.injEq]
    constructor
    · rintro ⟨a, ⟨-, ha⟩, as', ⟨hcount, has⟩, rfl⟩
      exact ⟨by rw [List.length_cons, hcount], by rw [List.flatMap_cons, ha, has]⟩
    · rintro ⟨hcount, hall⟩
      cases as with
      | nil => simp at hcount
      | cons a as =>
        rw [List.flatMap_cons] at hall
        obtain ⟨ha, has⟩ := List.append_inj hall (by simp; omega)
        exact ⟨a, ⟨by omega, ha.symm⟩, as, ⟨by simpa using hcount, has⟩, rfl⟩

end Outcome

/-- The number a byte string spells, most significant byte first. -/
def beNat (bs : List UInt8) : Nat := bs.foldl (fun a b => a * 256 + b.toNat) 0

/-- The low `n` bytes of `v`, most significant byte first. -/
def beBytes : Nat → Nat → List UInt8
  | 0, _ => []
  | n + 1, v => UInt8.ofNat (v / 256 ^ n) :: beBytes n v

@[simp] theorem beNat_nil : beNat [] = 0 := rfl

theorem foldl_beNat (bs : List UInt8) (a : Nat) :
    bs.foldl (fun a b => a * 256 + b.toNat) a = a * 256 ^ bs.length + beNat bs := by
  induction bs generalizing a with
  | nil => simp
  | cons b bs ih =>
    simp only [beNat, List.foldl_cons, List.length_cons]
    rw [ih, ih (0 * 256 + b.toNat)]
    ring

theorem beNat_cons (b : UInt8) (bs : List UInt8) :
    beNat (b :: bs) = b.toNat * 256 ^ bs.length + beNat bs := by
  rw [beNat, List.foldl_cons, foldl_beNat]
  ring

theorem beNat_append (as bs : List UInt8) :
    beNat (as ++ bs) = beNat as * 256 ^ bs.length + beNat bs := by
  rw [beNat, List.foldl_append, foldl_beNat]
  rfl

theorem beNat_lt (bs : List UInt8) : beNat bs < 256 ^ bs.length := by
  induction bs with
  | nil => simp
  | cons b bs ih =>
    rw [beNat_cons, List.length_cons, pow_succ]
    have hb := b.toNat_lt
    nlinarith

@[simp] theorem length_beBytes (n v : Nat) : (beBytes n v).length = n := by
  induction n with
  | zero => rfl
  | succ n ih => simp [beBytes, ih]

theorem beNat_beBytes (n v : Nat) : beNat (beBytes n v) = v % 256 ^ n := by
  induction n with
  | zero => simp [beBytes, Nat.mod_one]
  | succ n ih =>
    have hb : (UInt8.ofNat (v / 256 ^ n)).toNat = v / 256 ^ n % 256 := UInt8.toNat_ofNat'
    rw [beBytes, beNat_cons, length_beBytes, ih, hb, Nat.pow_succ, Nat.mod_mul]
    ring

/-- A byte string is determined by its length and the number it spells. -/
theorem beNat_inj {as bs : List UInt8} (hlen : as.length = bs.length) (h : beNat as = beNat bs) :
    as = bs := by
  induction as generalizing bs with
  | nil => exact (List.length_eq_zero_iff.mp hlen.symm).symm
  | cons a as ih =>
    cases bs with
    | nil => simp at hlen
    | cons b bs =>
      simp only [List.length_cons, Nat.add_right_cancel_iff] at hlen
      rw [beNat_cons, beNat_cons, hlen] at h
      have ha := hlen ▸ beNat_lt as
      have hb := beNat_lt bs
      have hhead : a.toNat = b.toNat := by
        have h₁ := congrArg (· / 256 ^ bs.length) h
        simpa [Nat.add_div_of_dvd_right, Nat.div_eq_of_lt ha, Nat.div_eq_of_lt hb,
          Nat.mul_div_cancel _ (Nat.pow_pos (show 0 < 256 by decide))] using h₁
      rw [hhead] at h
      rw [UInt8.toNat_inj.mp hhead, ih hlen (by omega)]

theorem beBytes_beNat (bs : List UInt8) : beBytes bs.length (beNat bs) = bs := by
  apply beNat_inj (by simp)
  rw [beNat_beBytes, Nat.mod_eq_of_lt (beNat_lt bs)]

theorem Bytes.beBytes_toList {n : Nat} (b : Bytes n) : beBytes n (beNat b.toList) = b.toList := by
  obtain ⟨l, rfl⟩ := b
  exact beBytes_beNat l

/-- The `[u8; n]` form of `beBytes`. -/
def Bytes.ofNat (n v : Nat) : Bytes n := ⟨beBytes n v, length_beBytes n v⟩

/-- A statement about one byte, checked at each of its values. -/
theorem byte_cases {p : UInt8 → Prop} (h : ∀ n < 256, p (UInt8.ofNat n)) (b : UInt8) : p b := by
  have hb := h b.toNat b.toNat_lt
  rwa [UInt8.ofNat_toNat] at hb

/-- `((b[0] as u16) << 8) | b[1] as u16`. -/
def u16FromBe (b₀ b₁ : UInt8) : UInt16 := (b₀.toUInt16 <<< 8) ||| b₁.toUInt16

/-- `u32::from_be_bytes`. -/
def u32FromBe (b₀ b₁ b₂ b₃ : UInt8) : UInt32 :=
  (b₀.toUInt32 <<< 24) ||| (b₁.toUInt32 <<< 16) ||| (b₂.toUInt32 <<< 8) ||| b₃.toUInt32

/-- `u16::to_be_bytes`. -/
def u16ToBe (v : UInt16) : List UInt8 := [(v >>> 8).toUInt8, v.toUInt8]

/-- `u32::to_be_bytes`. -/
def u32ToBe (v : UInt32) : List UInt8 :=
  [(v >>> 24).toUInt8, (v >>> 16).toUInt8, (v >>> 8).toUInt8, v.toUInt8]

@[simp] theorem length_u16ToBe (v : UInt16) : (u16ToBe v).length = 2 := rfl

@[simp] theorem length_u32ToBe (v : UInt32) : (u32ToBe v).length = 4 := rfl

theorem u16FromBe_toNat (b₀ b₁ : UInt8) : (u16FromBe b₀ b₁).toNat = beNat [b₀, b₁] := by
  have h₀ := b₀.toNat_lt
  have h₁ := b₁.toNat_lt
  have hs₀ : (b₀.toUInt16 <<< 8).toNat = b₀.toNat <<< 8 := by
    simp [UInt16.toNat_shiftLeft, Nat.shiftLeft_eq]
    omega
  simp only [u16FromBe, UInt16.toNat_or, hs₀, UInt8.toNat_toUInt16]
  rw [← Nat.shiftLeft_add_eq_or_of_lt (by omega), Nat.shiftLeft_eq]
  simp [beNat]

theorem u32FromBe_toNat (b₀ b₁ b₂ b₃ : UInt8) :
    (u32FromBe b₀ b₁ b₂ b₃).toNat = beNat [b₀, b₁, b₂, b₃] := by
  have h₀ := b₀.toNat_lt
  have h₁ := b₁.toNat_lt
  have h₂ := b₂.toNat_lt
  have h₃ := b₃.toNat_lt
  have hs₀ : (b₀.toUInt32 <<< 24).toNat = b₀.toNat <<< 24 := by
    simp [UInt32.toNat_shiftLeft, Nat.shiftLeft_eq]
    omega
  have hs₁ : (b₁.toUInt32 <<< 16).toNat = b₁.toNat <<< 16 := by
    simp [UInt32.toNat_shiftLeft, Nat.shiftLeft_eq]
    omega
  have hs₂ : (b₂.toUInt32 <<< 8).toNat = b₂.toNat <<< 8 := by
    simp [UInt32.toNat_shiftLeft, Nat.shiftLeft_eq]
    omega
  have hor₁ : b₀.toNat <<< 24 ||| b₁.toNat <<< 16 = (b₀.toNat * 256 + b₁.toNat) <<< 16 := by
    rw [← Nat.shiftLeft_add_eq_or_of_lt (by rw [Nat.shiftLeft_eq]; omega)]
    simp only [Nat.shiftLeft_eq]
    omega
  have hor₂ : (b₀.toNat * 256 + b₁.toNat) <<< 16 ||| b₂.toNat <<< 8 =
      ((b₀.toNat * 256 + b₁.toNat) * 256 + b₂.toNat) <<< 8 := by
    rw [← Nat.shiftLeft_add_eq_or_of_lt (by rw [Nat.shiftLeft_eq]; omega)]
    simp only [Nat.shiftLeft_eq]
    omega
  simp only [u32FromBe, UInt32.toNat_or, hs₀, hs₁, hs₂, hor₁, hor₂, UInt8.toNat_toUInt32]
  rw [← Nat.shiftLeft_add_eq_or_of_lt (by omega), Nat.shiftLeft_eq]
  simp [beNat]

theorem beNat_u16ToBe (v : UInt16) : beNat (u16ToBe v) = v.toNat := by
  have h := v.toNat_lt
  simp [beNat, u16ToBe, UInt16.toNat_shiftRight, Nat.shiftRight_eq_div_pow]
  omega

theorem beNat_u32ToBe (v : UInt32) : beNat (u32ToBe v) = v.toNat := by
  have h := v.toNat_lt
  simp [beNat, u32ToBe, UInt32.toNat_shiftRight, Nat.shiftRight_eq_div_pow]
  omega

theorem u32ToBe_inj {v w : UInt32} : u32ToBe v = u32ToBe w ↔ v = w :=
  ⟨fun h => by rw [← UInt32.toNat_inj, ← beNat_u32ToBe, h, beNat_u32ToBe], fun h => h ▸ rfl⟩

/-- Reading the two bytes of a word gives it back. -/
@[simp] theorem u16FromBe_toBe (v : UInt16) : u16FromBe (v >>> 8).toUInt8 v.toUInt8 = v := by
  rw [← UInt16.toNat_inj, u16FromBe_toNat, ← beNat_u16ToBe v, u16ToBe]

@[simp] theorem u32FromBe_toBe (v : UInt32) :
    u32FromBe (v >>> 24).toUInt8 (v >>> 16).toUInt8 (v >>> 8).toUInt8 v.toUInt8 = v := by
  rw [← UInt32.toNat_inj, u32FromBe_toNat, ← beNat_u32ToBe v, u32ToBe]

/-- Writing the word read from two bytes gives them back. -/
@[simp] theorem u16ToBe_fromBe (b₀ b₁ : UInt8) : u16ToBe (u16FromBe b₀ b₁) = [b₀, b₁] :=
  beNat_inj rfl (by rw [beNat_u16ToBe, u16FromBe_toNat])

@[simp] theorem u32ToBe_fromBe (b₀ b₁ b₂ b₃ : UInt8) :
    u32ToBe (u32FromBe b₀ b₁ b₂ b₃) = [b₀, b₁, b₂, b₃] :=
  beNat_inj rfl (by rw [beNat_u32ToBe, u32FromBe_toNat])

namespace Outcome

variable {ε : Type}

/-- `u16::from_be_bytes` of the two bytes at an offset. -/
def indexU16 (bs : List UInt8) (off : Nat) : Outcome ε UInt16 := do
  let b₀ ← index bs off
  let b₁ ← index bs (off + 1)
  pure (u16FromBe b₀ b₁)

/-- `u32::from_be_bytes` of the three bytes at an offset, below a zero byte. -/
def indexU24 (bs : List UInt8) (off : Nat) : Outcome ε UInt32 := do
  let b₀ ← index bs off
  let b₁ ← index bs (off + 1)
  let b₂ ← index bs (off + 2)
  pure (u32FromBe 0 b₀ b₁ b₂)

/-- `u32::from_be_bytes` of the four bytes at an offset. -/
def indexU32 (bs : List UInt8) (off : Nat) : Outcome ε UInt32 := do
  let b₀ ← index bs off
  let b₁ ← index bs (off + 1)
  let b₂ ← index bs (off + 2)
  let b₃ ← index bs (off + 3)
  pure (u32FromBe b₀ b₁ b₂ b₃)

theorem indexU16_eq_ok {bs : List UInt8} {off : Nat} {v : UInt16} :
    (indexU16 bs off : Outcome ε UInt16) = ok v ↔ (bs.drop off).take 2 = u16ToBe v := by
  simp only [indexU16, bind_eq_ok, index_eq_ok, ← List.getElem?_drop, pure_eq, ok.injEq]
  rw [← Nat.add_zero off, ← List.getElem?_drop, Nat.add_zero]
  generalize bs.drop off = l
  constructor
  · rintro ⟨b₀, h₀, b₁, h₁, rfl⟩
    rw [u16ToBe_fromBe]
    match l, h₀, h₁ with
    | _ :: _ :: _, rfl, rfl => rfl
  · intro h
    match l, h with
    | [], h => cases h
    | [_], h => cases h
    | b₀ :: b₁ :: _, h =>
      simp only [List.take_succ_cons, List.take_zero, u16ToBe, List.cons.injEq, and_true] at h
      obtain ⟨rfl, rfl⟩ := h
      exact ⟨_, rfl, _, rfl, u16FromBe_toBe v⟩

theorem indexU32_eq_ok {bs : List UInt8} {off : Nat} {v : UInt32} :
    (indexU32 bs off : Outcome ε UInt32) = ok v ↔ (bs.drop off).take 4 = u32ToBe v := by
  simp only [indexU32, bind_eq_ok, index_eq_ok, ← List.getElem?_drop, pure_eq, ok.injEq]
  rw [← Nat.add_zero off, ← List.getElem?_drop, Nat.add_zero]
  generalize bs.drop off = l
  constructor
  · rintro ⟨b₀, h₀, b₁, h₁, b₂, h₂, b₃, h₃, rfl⟩
    rw [u32ToBe_fromBe]
    match l, h₀, h₁, h₂, h₃ with
    | _ :: _ :: _ :: _ :: _, rfl, rfl, rfl, rfl => rfl
  · intro h
    match l, h with
    | [], h => cases h
    | [_], h => cases h
    | [_, _], h => cases h
    | [_, _, _], h => cases h
    | b₀ :: b₁ :: b₂ :: b₃ :: _, h =>
      simp only [List.take_succ_cons, List.take_zero, u32ToBe, List.cons.injEq, and_true] at h
      obtain ⟨rfl, rfl, rfl, rfl⟩ := h
      exact ⟨_, rfl, _, rfl, _, rfl, _, rfl, u32FromBe_toBe v⟩

/-- A 24-bit word is read as the 32-bit word below a zero byte. -/
theorem indexU24_eq (bs : List UInt8) (off : Nat) :
    (indexU24 bs off : Outcome ε UInt32) = indexU32 (0 :: bs.drop off) 0 := by
  simp [indexU24, indexU32, index]

theorem indexU24_eq_ok {bs : List UInt8} {off : Nat} {v : UInt32} :
    (indexU24 bs off : Outcome ε UInt32) = ok v ↔ 0 :: (bs.drop off).take 3 = u32ToBe v := by
  rw [indexU24_eq, indexU32_eq_ok]
  rfl

end Outcome
