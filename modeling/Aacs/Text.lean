import Aacs.Outcome
import Mathlib.Data.List.DropRight

/-!
# Text at UTF-8 byte offsets

A text is its list of characters, and an offset counts the bytes of its UTF-8
form. A cut at an offset inside a character panics; the offsets a search returns
are not inside one.
-/
namespace Text

/-- `s.len()`. -/
def utf8Len : List Char → Nat
  | [] => 0
  | c :: s => c.utf8Size + utf8Len s

@[simp] theorem utf8Len_nil : utf8Len [] = 0 := rfl

@[simp] theorem utf8Len_cons (c : Char) (s : List Char) :
    utf8Len (c :: s) = c.utf8Size + utf8Len s := rfl

@[simp] theorem utf8Len_append (s t : List Char) : utf8Len (s ++ t) = utf8Len s + utf8Len t := by
  induction s with
  | nil => rw [List.nil_append, utf8Len_nil, Nat.zero_add]
  | cons c s ih => rw [List.cons_append, utf8Len_cons, utf8Len_cons, ih, Nat.add_assoc]

/-- `s.as_bytes()`. -/
def utf8Bytes (s : List Char) : List UInt8 := s.flatMap String.utf8EncodeChar

@[simp] theorem length_utf8Bytes (s : List Char) : (utf8Bytes s).length = utf8Len s := by
  induction s with
  | nil => rfl
  | cons c s ih =>
    rw [utf8Bytes, List.flatMap_cons, ← utf8Bytes, List.length_append, ih,
      String.length_utf8EncodeChar, utf8Len_cons]

theorem utf8Len_eq_one {s : List Char} : utf8Len s = 1 ↔ ∃ c, s = [c] ∧ c.utf8Size = 1 := by
  constructor
  · intro h
    match s with
    | [] => cases h
    | [c] => exact ⟨c, rfl, h⟩
    | c :: d :: s =>
      have hc := c.utf8Size_pos
      have hd := d.utf8Size_pos
      simp only [utf8Len_cons] at h
      omega
  · rintro ⟨c, rfl, hc⟩
    exact hc

/-- Characters of one byte are told apart by it. -/
theorem toUInt8_inj {c d : Char} (hc : c.utf8Size = 1) (hd : d.utf8Size = 1) :
    c.toUInt8 = d.toUInt8 ↔ c = d := by
  refine ⟨fun h => ?_, fun h => h ▸ rfl⟩
  have hc' : c.val.toNat ≤ 127 := UInt32.le_iff_toNat_le.mp (Char.utf8Size_eq_one_iff.mp hc)
  have hd' : d.val.toNat ≤ 127 := UInt32.le_iff_toNat_le.mp (Char.utf8Size_eq_one_iff.mp hd)
  have hv : c.val.toNat % 256 = d.val.toNat % 256 := congrArg UInt8.toNat h
  exact Char.ext (UInt32.toNat_inj.mp (by omega))

/-- The text before and after a byte offset, unless it is inside a character or too large. -/
def splitAt : Nat → List Char → Option (List Char × List Char)
  | 0, s => some ([], s)
  | _ + 1, [] => none
  | n + 1, c :: s =>
    if c.utf8Size ≤ n + 1 then (splitAt (n + 1 - c.utf8Size) s).map fun p =>
      (c :: p.1, p.2) else none

@[simp] theorem splitAt_zero (s : List Char) : splitAt 0 s = some ([], s) := by
  cases s <;> rfl

theorem splitAt_cons {n : Nat} (hn : n ≠ 0) (c : Char) (s : List Char) : splitAt n (c :: s) =
    if c.utf8Size ≤ n then (splitAt (n - c.utf8Size) s).map fun p => (c :: p.1, p.2) else none := by
  cases n with
  | zero => exact absurd rfl hn
  | succ n => rfl

theorem splitAt_append (s t : List Char) : splitAt (utf8Len s) (s ++ t) = some (s, t) := by
  induction s with
  | nil => exact splitAt_zero t
  | cons c s ih =>
    have hc := c.utf8Size_pos
    rw [utf8Len_cons, List.cons_append, splitAt_cons (by omega), if_pos (by omega),
      Nat.add_sub_cancel_left, ih]
    rfl

/-- `&s[..n]`. -/
def sliceTo {ε : Type} (s : List Char) (n : Nat) : Outcome ε (List Char) :=
  Outcome.expect ((splitAt n s).map Prod.fst)

/-- `&s[n..]`. -/
def sliceFrom {ε : Type} (s : List Char) (n : Nat) : Outcome ε (List Char) :=
  Outcome.expect ((splitAt n s).map Prod.snd)

/-- `&s[a..b]`. -/
def slice {ε : Type} (s : List Char) (a b : Nat) : Outcome ε (List Char) := do
  let rest ← sliceFrom s a
  if a ≤ b then sliceTo rest (b - a) else .panic

@[simp] theorem sliceTo_append {ε : Type} (s t : List Char) :
    (sliceTo (s ++ t) (utf8Len s) : Outcome ε (List Char)) = .ok s := by
  rw [sliceTo, splitAt_append]
  rfl

@[simp] theorem sliceFrom_append {ε : Type} (s t : List Char) :
    (sliceFrom (s ++ t) (utf8Len s) : Outcome ε (List Char)) = .ok t := by
  rw [sliceFrom, splitAt_append]
  rfl

/-- `s.find(p)`. -/
def find (p : Char → Bool) : List Char → Option Nat
  | [] => none
  | c :: s => if p c then some 0 else (find p s).map (· + c.utf8Size)

/-- A search stops at the first character with the property. -/
theorem find_eq_some {p : Char → Bool} {s : List Char} {n : Nat} (h : find p s = some n) :
    ∃ a c b, s = a ++ c :: b ∧ n = utf8Len a ∧ p c = true ∧ ∀ d ∈ a, p d = false := by
  induction s generalizing n with
  | nil => cases h
  | cons c s ih =>
    rw [find] at h
    by_cases hc : p c = true
    · rw [if_pos hc] at h
      exact ⟨[], c, s, rfl, (Option.some.inj h).symm, hc, fun _ h => absurd h List.not_mem_nil⟩
    · rw [if_neg hc] at h
      obtain ⟨m, hm, rfl⟩ := Option.map_eq_some_iff.mp h
      obtain ⟨a, d, b, rfl, rfl, hd, ha⟩ := ih hm
      refine ⟨c :: a, d, b, rfl, ?_, hd, ?_⟩
      · rw [utf8Len_cons, Nat.add_comm]
      · rw [List.forall_mem_cons]
        exact ⟨by simpa using hc, ha⟩

theorem find_eq_none {p : Char → Bool} {s : List Char} :
    find p s = none ↔ ∀ c ∈ s, p c = false := by
  induction s with
  | nil => simp [find]
  | cons c s ih => by_cases hc : p c = true <;> simp [find, hc, ih]

theorem takeWhile_of_find_none {p : Char → Bool} {s : List Char} (h : find p s = none) :
    (s.takeWhile fun c => !p c) = s ∧ (s.dropWhile fun c => !p c) = [] := by
  have hall : ∀ c ∈ s, (!p c) = true := fun c hc => by rw [find_eq_none.mp h c hc, Bool.not_false]
  exact ⟨List.takeWhile_eq_self_iff.mpr hall, List.dropWhile_eq_nil_iff.mpr hall⟩

/-- A search splits the text in front of the first character with the property. -/
theorem split_of_find {p : Char → Bool} {s : List Char} {n : Nat} (h : find p s = some n) :
    ∃ c b, s = (s.takeWhile fun c => !p c) ++ c :: b ∧ (s.dropWhile fun c => !p c) = c :: b ∧
      p c = true ∧ n = utf8Len (s.takeWhile fun c => !p c) := by
  obtain ⟨a, c, b, rfl, rfl, hc, ha⟩ := find_eq_some h
  have hall : ∀ d ∈ a, (!p d) = true := fun d hd => by rw [ha d hd, Bool.not_false]
  have htake : ((a ++ c :: b).takeWhile fun c => !p c) = a := by
    rw [List.takeWhile_append_of_pos hall]
    simp [hc]
  have hdrop : ((a ++ c :: b).dropWhile fun c => !p c) = c :: b := by
    rw [List.dropWhile_append_of_pos hall]
    simp [hc]
  exact ⟨c, b, by rw [htake], hdrop, hc, by rw [htake]⟩

/-- Both sides of an offset a search returned can be cut out. -/
theorem cut_of_find {ε : Type} {p : Char → Bool} {s : List Char} {n : Nat} (h : find p s = some n) :
    (sliceTo s n : Outcome ε (List Char)) = .ok (s.takeWhile fun c => !p c) ∧
      (sliceFrom s n : Outcome ε (List Char)) = .ok (s.dropWhile fun c => !p c) := by
  obtain ⟨c, b, hs, hdrop, -, hn⟩ := split_of_find h
  have hcut := splitAt_append (s.takeWhile fun c => !p c) (c :: b)
  rw [← hs, ← hn] at hcut
  simp [sliceTo, sliceFrom, hcut, hdrop]

/-- So can what stands behind the character found, when it is one byte wide. -/
theorem cut_behind_find {ε : Type} {p : Char → Bool} {s : List Char} {n : Nat}
    (hp : ∀ c, p c = true → c.utf8Size = 1) (h : find p s = some n) :
    (sliceFrom s (n + 1) : Outcome ε (List Char)) = .ok (s.dropWhile fun c => !p c).tail := by
  obtain ⟨c, b, hs, hdrop, hc, hn⟩ := split_of_find h
  have hlen : utf8Len ((s.takeWhile fun c => !p c) ++ [c]) = n + 1 := by
    rw [utf8Len_append, ← hn, utf8Len_cons, hp c hc, utf8Len_nil]
  have hcut := splitAt_append ((s.takeWhile fun c => !p c) ++ [c]) b
  rw [← List.append_cons, ← hs, hlen] at hcut
  simp [sliceFrom, hcut, hdrop]

/-- `s.char_indices()`, of a text that begins at an offset. -/
def charIndices : Nat → List Char → List (Nat × Char)
  | _, [] => []
  | i, c :: s => (i, c) :: charIndices (i + c.utf8Size) s

/-- The first indices of a text are the indices of its beginning. -/
theorem charIndices_beginning {i : Nat} {s : List Char} {l : List (Nat × Char)}
    (h : List.IsPrefix l (charIndices i s)) : ∃ a b, s = a ++ b ∧ l = charIndices i a := by
  induction s generalizing i l with
  | nil => exact ⟨[], [], rfl, List.prefix_nil.mp h⟩
  | cons c s ih =>
    cases l with
    | nil => exact ⟨[], c :: s, rfl, rfl⟩
    | cons x l =>
      obtain ⟨rfl, hl⟩ := List.cons_prefix_cons.mp h
      obtain ⟨a, b, rfl, rfl⟩ := ih hl
      exact ⟨c :: a, b, rfl, rfl⟩

/-- The last character of a text ends where the text does. -/
theorem charIndices_last {i j : Nat} {c : Char} {s : List Char}
    (h : (charIndices i s).getLast? = some (j, c)) :
    j + c.utf8Size = i + utf8Len s := by
  induction s generalizing i with
  | nil => cases h
  | cons d s ih =>
    cases s with
    | nil =>
      obtain ⟨rfl, rfl⟩ := Prod.mk.inj (Option.some.inj h)
      rfl
    | cons e s =>
      have hlast : (charIndices (i + d.utf8Size) (e :: s)).getLast? = some (j, c) := by
        simpa [charIndices, List.getLast?_cons_cons] using h
      rw [ih hlast, utf8Len_cons d, Nat.add_assoc]

/-- `char::is_whitespace`: the Unicode property White_Space. -/
def isWhitespace (c : Char) : Bool :=
  let v := c.toNat
  (9 ≤ v && v ≤ 13) || v == 0x20 || v == 0x85 || v == 0xA0 || v == 0x1680 ||
    (0x2000 ≤ v && v ≤ 0x200A) || v == 0x2028 || v == 0x2029 || v == 0x202F ||
      v == 0x205F || v == 0x3000

/-- `s.trim()`. -/
def trim (s : List Char) : List Char := (s.dropWhile isWhitespace).rdropWhile isWhitespace

/-- `s.strip_prefix(t)`. -/
def stripStart (t s : List Char) : Option (List Char) :=
  if t.isPrefixOf s then some (s.drop t.length) else none

/-- `s.split_once(c)`. -/
def splitOnce (c : Char) : List Char → Option (List Char × List Char)
  | [] => none
  | d :: s => if d = c then some ([], s) else (splitOnce c s).map fun p => (d :: p.1, p.2)

/-- `s.split(c)`. -/
def split (c : Char) (s : List Char) : List (List Char) := s.splitOn c

/-- One carriage return at the end of a line is part of its terminator. -/
def stripCarriageReturn (line : List Char) : List Char :=
  if line.getLast? = some '\r' then line.dropLast else line

/-- `s.lines()`. -/
def lines (s : List Char) : List (List Char) :=
  let pieces := split '\n' s
  pieces.dropLast.map stripCarriageReturn ++ pieces.getLast?.toList.filter (· ≠ [])

/-- `parts.join(sep)`. -/
def join (sep : List Char) (parts : List (List Char)) : List Char := sep.intercalate parts

/-- `s.to_ascii_uppercase()`. -/
def toAsciiUppercase (s : List Char) : List Char := s.map Char.toUpper

/-- `s.eq_ignore_ascii_case(t)`. -/
def eqIgnoreAsciiCase (s t : List Char) : Bool := toAsciiUppercase s = toAsciiUppercase t

/-- `c.to_digit(radix)`, for a radix up to 16. -/
def toDigit (radix : Nat) (c : Char) : Option Nat :=
  let v := c.toNat
  let d := if 48 ≤ v ∧ v ≤ 57 then some (v - 48)
    else if 97 ≤ v ∧ v ≤ 102 then some (v - 97 + 10)
    else if 65 ≤ v ∧ v ≤ 70 then some (v - 65 + 10) else none
  d.filter (· < radix)

/-- The value of a digit string, if every step stays below the bound. -/
def digitsValue (radix bound : Nat) (s : List Char) : Option Nat :=
  s.foldlM (fun v c => do
    let d ← toDigit radix c
    if v * radix + d < bound then some (v * radix + d) else none) 0

/-- `from_str_radix` of an unsigned type below `bound`: one plus sign may stand before the
digits. -/
def fromStrRadix (radix bound : Nat) (s : List Char) : Option Nat :=
  match s with
  | [] => none
  | '+' :: [] => none
  | '+' :: digits => digitsValue radix bound digits
  | digits => digitsValue radix bound digits

/-- A digit is one of the first 128 characters. -/
theorem toNat_of_toDigit {radix d : Nat} {c : Char} (h : toDigit radix c = some d) :
    c.toNat < 128 := by
  by_contra hc
  have h1 : ¬(48 ≤ c.toNat ∧ c.toNat ≤ 57) := by omega
  have h2 : ¬(97 ≤ c.toNat ∧ c.toNat ≤ 102) := by omega
  have h3 : ¬(65 ≤ c.toNat ∧ c.toNat ≤ 70) := by omega
  simp [toDigit, h1, h2, h3] at h

/-- A digit is one byte wide. -/
theorem utf8Size_of_toDigit {radix d : Nat} {c : Char} (h : toDigit radix c = some d) :
    c.utf8Size = 1 := by
  have hsmall : c.toNat ≤ 0x7f := Nat.le_of_lt_succ (toNat_of_toDigit h)
  exact Char.utf8Size_eq_one_iff.mpr (UInt32.le_iff_toNat_le.mpr hsmall)

/-- A property of the first 128 characters, one after the other. -/
theorem ascii_cases {p : Char → Prop} (h : ∀ n < 128, p (Char.ofNat n)) {c : Char}
    (hc : c.toNat < 128) : p c := by
  have hp := h c.toNat hc
  rwa [Char.ofNat_toNat] at hp

/-- A number begins with one byte. -/
theorem fromStrRadix_eq_none {radix bound : Nat} {c : Char} {s : List Char} (hc : c.utf8Size ≠ 1) :
    fromStrRadix radix bound (c :: s) = none := by
  have hplus : c ≠ '+' := fun h => hc (h ▸ rfl)
  have hdigit : toDigit radix c = none := by
    by_contra h
    obtain ⟨d, hd⟩ := Option.ne_none_iff_exists'.mp h
    exact hc (utf8Size_of_toDigit hd)
  simp [fromStrRadix, hplus, digitsValue, hdigit]

theorem digitsValue_concat (radix bound : Nat) (s : List Char) (c : Char) :
    digitsValue radix bound (s ++ [c]) = (do
      let v ← digitsValue radix bound s
      let d ← toDigit radix c
      if v * radix + d < bound then some (v * radix + d) else none) := by
  rw [digitsValue, List.foldlM_append, ← digitsValue]
  simp

theorem toDigit_of_digitsValue {radix bound n : Nat} {s : List Char}
    (h : digitsValue radix bound s = some n) :
    ∀ c ∈ s, ∃ d, toDigit radix c = some d := by
  induction s using List.reverseRecOn generalizing n with
  | nil => simp
  | append_singleton s c ih =>
    rw [digitsValue_concat] at h
    obtain ⟨v, hv, h⟩ := Option.bind_eq_some_iff.mp h
    obtain ⟨d, hd, -⟩ := Option.bind_eq_some_iff.mp h
    rw [List.forall_mem_append, List.forall_mem_singleton]
    exact ⟨ih hv, d, hd⟩

/-- The digits of a number are read as the number. -/
theorem digitsValue_toDigits {n : Nat} (hn : n < 65536) :
    digitsValue 10 65536 (Nat.toDigits 10 n) = some n := by
  have hdigit : ∀ d < 10, toDigit 10 (Nat.digitChar d) = some d := by decide
  induction n using Nat.strongRecOn with
  | ind n ih =>
    rw [Nat.toDigits_eq_if (by decide)]
    split
    · next hlt => simp [digitsValue, hdigit n hlt, hn]
    · next hle =>
      have hrest := ih (n / 10) (by omega) (by omega)
      have hback : n / 10 * 10 + n % 10 = n := Nat.div_add_mod' n 10
      rw [digitsValue_concat, hrest, hdigit (n % 10) (Nat.mod_lt n (by decide))]
      simp [hback, hn]

end Text
