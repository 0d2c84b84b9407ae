import Aacs.Bytes

/-!
# Streams of length-prefixed records

A record is a tag byte, a big-endian length of `w` bytes that counts the header,
and a payload. A byte string splits in one way into the complete records at its
head and a rest that begins with none, and everything that walks it record by
record is a function of that split.
-/

/-- A record whose length field has `w` bytes. -/
structure Record (w : Nat) where
  tag : UInt8
  payload : List UInt8
  fits : 1 + w + payload.length < 256 ^ w

namespace Record

variable {w : Nat} {bs : List UInt8}

/-- The value of the length field. -/
def length (r : Record w) : Nat := 1 + w + r.payload.length

def bytes (r : Record w) : List UInt8 := r.tag :: beBytes w r.length ++ r.payload

@[simp] theorem length_bytes (r : Record w) : r.bytes.length = r.length := by
  simp [bytes, length]
  omega

@[ext] theorem ext {r s : Record w} (htag : r.tag = s.tag)
    (hpayload : r.payload = s.payload) : r = s := by
  cases r
  cases s
  cases htag
  cases hpayload
  rfl

def encode (rs : List (Record w)) : List UInt8 := rs.flatMap bytes

@[simp] theorem encode_nil : encode ([] : List (Record w)) = [] := rfl

@[simp] theorem encode_cons (r : Record w) (rs : List (Record w)) :
    encode (r :: rs) = r.bytes ++ encode rs := rfl

@[simp] theorem encode_append (rs ss : List (Record w)) :
    encode (rs ++ ss) = encode rs ++ encode ss := by
  simp [encode]

theorem fits_of_header {bs : List UInt8} (h : w ≤ bs.length ∧ 1 + w ≤ beNat (bs.take w) ∧
    beNat (bs.take w) - (1 + w) ≤ (bs.drop w).length) :
    1 + w + ((bs.drop w).take (beNat (bs.take w) - (1 + w))).length = beNat (bs.take w) ∧
      beNat (bs.take w) < 256 ^ w := by
  have hlt := beNat_lt (bs.take w)
  rw [List.length_take_of_le h.1] at hlt
  rw [List.length_take_of_le h.2.2]
  omega

/-- The complete record at the head of a byte string, and what follows it. -/
def next (w : Nat) : List UInt8 → Option (Record w × List UInt8)
  | [] => none
  | tag :: bs =>
    if h : w ≤ bs.length ∧ 1 + w ≤ beNat (bs.take w) ∧
        beNat (bs.take w) - (1 + w) ≤ (bs.drop w).length then
      some (⟨tag, (bs.drop w).take (beNat (bs.take w) - (1 + w)),
        (fits_of_header h).1.trans_lt (fits_of_header h).2⟩, (bs.drop w).drop (beNat
          (bs.take w) - (1 + w)))
    else none

theorem next_bytes_append (r : Record w) (rest : List UInt8) :
    next w (r.bytes ++ rest) = some (r, rest) := by
  have hn : beNat (beBytes w r.length) = r.length := by
    rw [beNat_beBytes, Nat.mod_eq_of_lt]
    exact r.fits
  have htake : (beBytes w r.length ++ (r.payload ++ rest)).take w = beBytes w r.length := by
    simp
  have hdrop : (beBytes w r.length ++ (r.payload ++ rest)).drop w = r.payload ++ rest := by
    simp
  have hpayload : r.length - (1 + w) = r.payload.length := by
    rw [length]
    omega
  have hcons : r.bytes ++ rest = r.tag :: (beBytes w r.length ++ (r.payload ++ rest)) := by
    simp [bytes]
  rw [hcons, next]
  simp only [htake, hdrop, hn, hpayload]
  rw [dif_pos]
  · simp
  · simp [length]

/-- The first record is read off exactly when the byte string starts with its bytes. -/
theorem next_eq_some {r : Record w} {rest : List UInt8} :
    next w bs = some (r, rest) ↔ bs = r.bytes ++ rest := by
  constructor
  · intro h
    cases bs with
    | nil => cases h
    | cons tag bs =>
      rw [next] at h
      split at h
      · next hfits =>
        obtain ⟨rfl, rfl⟩ := Prod.mk.inj (Option.some.inj h)
        have hbe : beBytes w (beNat (bs.take w)) = bs.take w := by
          have hround := beBytes_beNat (bs.take w)
          rwa [List.length_take_of_le hfits.1] at hround
        rw [bytes, length, (fits_of_header hfits).1, hbe]
        simp only [List.cons_append, List.append_assoc, List.take_append_drop]
      · cases h
  · rintro rfl
    exact next_bytes_append r rest

/-- The complete records at the head of a byte string, and the rest. -/
def split (w : Nat) (bs : List UInt8) : List (Record w) × List UInt8 :=
  match _h : next w bs with
  | none => ([], bs)
  | some (r, rest) =>
    let s := split w rest
    (r :: s.1, s.2)
termination_by bs.length
decreasing_by
  rw [next_eq_some.mp _h]
  simp [length]

theorem split_of_next_eq_none (h : next w bs = none) : split w bs = ([], bs) := by
  rw [split]
  split
  · rfl
  · next heq => simp [h] at heq

theorem split_nil : split w [] = ([], []) := split_of_next_eq_none rfl

theorem split_bytes_append (r : Record w) (rest : List UInt8) :
    split w (r.bytes ++ rest) = (r :: (split w rest).1, (split w rest).2) := by
  rw [split]
  split
  · next h => simp [next_bytes_append] at h
  · next h =>
    rw [next_bytes_append] at h
    obtain ⟨rfl, rfl⟩ := Prod.mk.inj (Option.some.inj h)
    rfl

/-- Induction over a stream: a rest with no record, or a record before a stream. -/
theorem stream_induction {motive : List UInt8 → Prop} (rest : ∀ bs, next w bs = none → motive bs)
    (record : ∀ (r : Record w) bs, motive bs → motive (r.bytes ++ bs)) (bs : List UInt8) :
    motive bs := by
  induction hn : bs.length using Nat.strong_induction_on generalizing bs with
  | _ n ih =>
    cases h : next w bs with
    | none => exact rest bs h
    | some p =>
      obtain ⟨r, bs'⟩ := p
      obtain rfl := next_eq_some.mp h
      refine record r bs' (ih bs'.length ?_ bs' rfl)
      rw [← hn, List.length_append, length_bytes, length]
      omega

theorem split_encode_append (rs : List (Record w)) (bs : List UInt8) :
    split w (encode rs ++ bs) = (rs ++ (split w bs).1, (split w bs).2) := by
  induction rs with
  | nil => rfl
  | cons r rs ih => rw [encode_cons, List.append_assoc, split_bytes_append, ih, List.cons_append]

/-- The records and the rest make up the byte string. -/
theorem encode_split (bs : List UInt8) : encode (split w bs).1 ++ (split w bs).2 = bs := by
  induction bs using stream_induction (w := w) with
  | rest bs h => rw [split_of_next_eq_none h, encode_nil, List.nil_append]
  | record r bs ih => rw [split_bytes_append, encode_cons, List.append_assoc, ih]

theorem next_split_rest (bs : List UInt8) : next w (split w bs).2 = none := by
  induction bs using stream_induction (w := w) with
  | rest bs h => rw [split_of_next_eq_none h, h]
  | record r bs ih => rwa [split_bytes_append]

end Record
