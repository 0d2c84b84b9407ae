import Aacs.KeyDbFormat
import Aacs.KeyDbSkips

/-!
# The two hexadecimal decoders

The rows of the first form are decoded by the radix parser of the integers, two
characters at a time, and that parser takes a plus sign in front of a digit. The
decoder of the records takes digits alone. On other texts the two agree.
-/

open Text Outcome

namespace KeyDb

theorem isHexDigit_iff {c : Char} : c.isHexDigit = true ↔ ∃ d, toDigit 16 c = some d := by
  have hdigit : c.isHexDigit = true ↔
      (48 ≤ c.toNat ∧ c.toNat ≤ 57) ∨ (97 ≤ c.toNat ∧ c.toNat ≤ 102) ∨
        (65 ≤ c.toNat ∧ c.toNat ≤ 70) := by
    simp only [Char.isHexDigit, Char.isDigit, Bool.or_eq_true, Bool.and_eq_true,
      decide_eq_true_eq, or_assoc]
    rfl
  rw [hdigit]
  constructor
  · rintro (h | h | h)
    · have hlt : c.toNat - 48 < 16 := by omega
      exact ⟨c.toNat - 48, by simp [toDigit, h, hlt]⟩
    · have hno : ¬c.toNat ≤ 57 := by omega
      have hlt : c.toNat - 97 + 10 < 16 := by omega
      exact ⟨c.toNat - 97 + 10, by simp [toDigit, h, hno, hlt]⟩
    · have hno : ¬c.toNat ≤ 57 := by omega
      have hno' : ¬97 ≤ c.toNat := by omega
      have hlt : c.toNat - 65 + 10 < 16 := by omega
      exact ⟨c.toNat - 65 + 10, by simp [toDigit, h, hno, hno', hlt]⟩
  · rintro ⟨d, h⟩
    by_contra hno
    rw [not_or, not_or] at hno
    rw [toDigit, if_neg hno.1, if_neg hno.2.1, if_neg hno.2.2] at h
    cases h

/-- The radix parser on two characters, of which the first is no sign. -/
theorem fromStrRadix_pair {c d : Char} (hc : c ≠ '+') :
    fromStrRadix 16 256 [c, d] = (do
      let hi ← toDigit 16 c
      let lo ← toDigit 16 d
      some (hi * 16 + lo)) := by
  have hdigits : fromStrRadix 16 256 [c, d] = digitsValue 16 256 [c, d] := by
    simp [fromStrRadix, hc]
  simp only [hdigits, digitsValue, List.foldlM_cons, List.foldlM_nil]
  cases hhi : toDigit 16 c with
  | none => rfl
  | some hi =>
    cases hlo : toDigit 16 d with
    | none => simp
    | some lo =>
      have hlt := (hexDigit_of_toDigit hhi).2
      have hlt' := (hexDigit_of_toDigit hlo).2
      have hfirst : hi < 256 := by omega
      have hboth : hi * 16 + lo < 256 := by omega
      simp [hfirst, hboth]

/-- Behind a sign one digit is a number. -/
theorem fromStrRadix_sign (d : Char) : fromStrRadix 16 256 ['+', d] = toDigit 16 d := by
  have hdigits : fromStrRadix 16 256 ['+', d] = digitsValue 16 256 [d] := by simp [fromStrRadix]
  simp only [hdigits, digitsValue, List.foldlM_cons, List.foldlM_nil]
  cases hlo : toDigit 16 d with
  | none => rfl
  | some lo =>
    have hlt := (hexDigit_of_toDigit hlo).2
    have hbound : lo < 256 := by omega
    simp [hbound]

theorem fromStrRadix_isSome {c d : Char} : (∃ v, fromStrRadix 16 256 [c, d] = some v) ↔
    (c.isHexDigit = true ∨ c = '+') ∧ d.isHexDigit = true := by
  by_cases hc : c = '+'
  · subst hc
    rw [fromStrRadix_sign, ← isHexDigit_iff]
    simp
  · rw [fromStrRadix_pair hc, or_iff_left hc, isHexDigit_iff, isHexDigit_iff]
    simp only [Option.bind_eq_bind, Option.bind_eq_some_iff, Option.some.injEq]
    constructor
    · rintro ⟨v, hi, hhi, lo, hlo, -⟩
      exact ⟨⟨hi, hhi⟩, lo, hlo⟩
    · rintro ⟨⟨hi, hhi⟩, lo, hlo⟩
      exact ⟨_, hi, hhi, lo, hlo, rfl⟩

/-- Digits of either letter case and nothing else. -/
def Hexadecimal (text : List Char) : Prop := ∀ c ∈ text, c.isHexDigit = true

/-- In every pair a digit, or a sign in the place of the first one. -/
def SignedPairs : List Char → Prop
  | [] => True
  | [_] => False
  | c :: d :: s => (c.isHexDigit = true ∨ c = '+') ∧ d.isHexDigit = true ∧ SignedPairs s

/-- The texts that the decoder of the first form takes. -/
theorem hexPairs_isSome {text : List Char} :
    (∃ bs, hexPairs text = some bs) ↔ SignedPairs text := by
  induction text using hexPairs.induct with
  | case1 => exact iff_of_true ⟨[], rfl⟩ trivial
  | case2 c =>
    apply iff_of_false
    · rintro ⟨bs, h⟩
      cases h
    · exact id
  | case3 c d s ih =>
    rw [SignedPairs, ← and_assoc, ← fromStrRadix_isSome, ← ih, hexPairs]
    simp only [Option.bind_eq_bind, Option.bind_eq_some_iff]
    constructor
    · rintro ⟨_, v, hv, bs, hbs, -⟩
      exact ⟨⟨v, hv⟩, bs, hbs⟩
    · rintro ⟨⟨v, hv⟩, bs, hbs⟩
      exact ⟨_, v, hv, bs, hbs, rfl⟩

/-- Spelled bytes are what both decoders read. -/
theorem hexPairs_of_spells {bs : List UInt8} {text : List Char} (h : Spells bs text) :
    hexPairs text = some bs := by
  induction h with
  | nil => rfl
  | @cons b bs hi lo s hhi hlo _ ih =>
    have hsign : hi ≠ '+' := by
      rintro rfl
      cases hhi
    have hb : b.toNat / 16 * 16 + b.toNat % 16 = b.toNat := Nat.div_add_mod' b.toNat 16
    rw [hexPairs, fromStrRadix_pair hsign, hhi, hlo, ih]
    simp [hb]

theorem Spells.digits {bs : List UInt8} {s : List Char} (h : Spells bs s) :
    ∀ c ∈ s, ∃ d, toDigit 16 c = some d := by
  induction h with
  | nil => simp
  | cons hhi hlo _ ih =>
    rw [List.forall_mem_cons, List.forall_mem_cons]
    exact ⟨⟨_, hhi⟩, ⟨_, hlo⟩, ih⟩

/-- An even number of digits spells bytes. -/
theorem exists_spells {text : List Char} (heven : text.length % 2 = 0) (h : Hexadecimal text) :
    ∃ bs, Spells bs text := by
  induction text using hexPairs.induct with
  | case1 => exact ⟨[], .nil⟩
  | case2 c => cases heven
  | case3 c d s ih =>
    obtain ⟨hi, hhi⟩ := isHexDigit_iff.mp (h c (by simp))
    obtain ⟨lo, hlo⟩ := isHexDigit_iff.mp (h d (by simp))
    have hs : Hexadecimal s := fun e he => h e (by simp [he])
    have heven' : s.length % 2 = 0 := by
      simp only [List.length_cons] at heven
      omega
    obtain ⟨bs, hbs⟩ := ih heven' hs
    have hlt := (hexDigit_of_toDigit hhi).2
    have hlt' := (hexDigit_of_toDigit hlo).2
    have hbyte : (UInt8.ofNat (hi * 16 + lo)).toNat = hi * 16 + lo := by
      rw [UInt8.toNat_ofNat']
      omega
    refine ⟨UInt8.ofNat (hi * 16 + lo) :: bs, .cons ?_ ?_ hbs⟩
    · rw [hbyte, hhi, Option.some.injEq]
      omega
    · rw [hbyte, hlo, Option.some.injEq]
      omega

theorem Hexadecimal.signedPairs {text : List Char} (h : Hexadecimal text)
    (heven : text.length % 2 = 0) :
    SignedPairs text := by
  obtain ⟨bs, hbs⟩ := exists_spells heven h
  exact hexPairs_isSome.mp ⟨bs, hexPairs_of_spells hbs⟩

/-- What the first decoder takes and is no digit is a sign. -/
theorem signedPairs_sign {text : List Char} (h : SignedPairs text) :
    '+' ∈ text ↔ ¬Hexadecimal text := by
  constructor
  · intro hplus hall
    exact absurd (hall '+' hplus) (by decide)
  · intro hno
    by_contra hplus
    apply hno
    clear hno
    induction text using hexPairs.induct with
    | case1 => exact fun c hc => absurd hc List.not_mem_nil
    | case2 c => exact h.elim
    | case3 c d s ih =>
      obtain ⟨hc, hd, hs⟩ := h
      rw [List.mem_cons, List.mem_cons, not_or, not_or] at hplus
      have hrest := ih hs hplus.2.2
      rw [Hexadecimal, List.forall_mem_cons, List.forall_mem_cons]
      exact ⟨hc.resolve_right fun h => hplus.1 h.symm, hd, hrest⟩

section Fields

variable {n : Nat} {text : List Char}

theorem parseHexArrayLegacy_eq_ok {b : Bytes n} (hascii : Ascii text) (hlen : text.length = 2 * n) :
    parseHexArrayLegacy n text = .ok b ↔ hexPairs text = some b.toList := by
  have hcut := pairsCut_of_ascii hascii (by omega)
  have hlen' : utf8Len text = 2 * n := hascii.utf8Len.trans hlen
  constructor
  · intro h
    cases hpairs : hexPairs text with
    | none =>
      obtain ⟨e, he⟩ := parseHexArrayLegacy_of_not_hex hlen' hcut hpairs
      rw [he] at h
      cases h
    | some bs =>
      rw [parseHexArrayLegacy_eq hlen', if_pos hcut, hpairs, okOrElse_some, bind_ok,
        copyFrom_eq_ok] at h
      rw [h]
  · intro h
    rw [parseHexArrayLegacy_eq hlen', if_pos hcut, h, okOrElse_some, bind_ok, copyFrom_eq_ok]

/-- Spelled bytes are what the decoder returns. -/
theorem parseHexArrayLegacy_of_spells {b : Bytes n} (h : Spells b.toList text) :
    parseHexArrayLegacy n text = .ok b := by
  have hascii : Ascii text := by
    intro c hc
    obtain ⟨d, hd⟩ := h.digits c hc
    exact utf8Size_of_toDigit hd
  have hlen : text.length = 2 * n := by
    have hbytes := h.length
    rwa [hascii.utf8Len, Bytes.length_toList] at hbytes
  exact (parseHexArrayLegacy_eq_ok hascii hlen).mpr (hexPairs_of_spells h)

/-- The decoder takes the texts of `n` pairs, with a digit or a sign in the first place. -/
theorem parseHexArrayLegacy_isOk (hascii : Ascii text) :
    (∃ b, parseHexArrayLegacy n text = .ok b) ↔ text.length = 2 * n ∧ SignedPairs text := by
  by_cases hlen : text.length = 2 * n
  · rw [and_iff_right hlen, ← hexPairs_isSome]
    constructor
    · rintro ⟨b, hb⟩
      exact ⟨b.toList, (parseHexArrayLegacy_eq_ok hascii hlen).mp hb⟩
    · rintro ⟨bs, hbs⟩
      have hcut := pairsCut_of_ascii hascii (by omega)
      exact parseHexArrayLegacy_of_hex (hascii.utf8Len.trans hlen) hcut hbs
  · have hlen' : utf8Len text ≠ 2 * n := by rwa [hascii.utf8Len]
    obtain ⟨e, he⟩ := parseHexArrayLegacy_of_length hlen'
    rw [he]
    apply iff_of_false
    · rintro ⟨b, hb⟩
      cases hb
    · exact fun h => hlen h.1

/-- Digits are read by both decoders alike. -/
theorem parseHexBytes_of_legacy {b : Bytes n} (hascii : Ascii text) (hhex : Hexadecimal text)
    (h : parseHexArrayLegacy n text = .ok b) : parseHexBytes text = .ok b.toList := by
  have hlen := ((parseHexArrayLegacy_isOk hascii).mp ⟨b, h⟩).1
  obtain ⟨bs, hbs⟩ := exists_spells (by omega) hhex
  rw [parseHexArrayLegacy_eq_ok hascii hlen, hexPairs_of_spells hbs, Option.some.injEq] at h
  rw [parseHexBytes_of_spells hbs, h]

/-- A decoder takes the texts of `n` pairs of digits and no others, and it reads them as the
decoder of the records does. -/
def ExactlyHex (n : Nat) (decode : List Char → Result (Bytes n)) (text : List Char) : Prop :=
  ((∃ b, decode text = .ok b) ↔ text.length = 2 * n ∧ Hexadecimal text) ∧
    ∀ b, decode text = .ok b → parseHexBytes text = .ok b.toList

/-- A text of `n` pairs with a sign in one of them at least, and otherwise digits. -/
def Signed (n : Nat) (text : List Char) : Prop :=
  text.length = 2 * n ∧ SignedPairs text ∧ '+' ∈ text

theorem exactlyHex_iff (hascii : Ascii text) : ExactlyHex n (parseHexArrayLegacy n) text ↔
    ¬Signed n text := by
  rw [ExactlyHex, parseHexArrayLegacy_isOk hascii]
  constructor
  · rintro ⟨hexact, -⟩ ⟨hlen, hpairs, hplus⟩
    have hhex := (hexact.mp ⟨hlen, hpairs⟩).2
    exact (signedPairs_sign hpairs).mp hplus hhex
  · intro hsigned
    have hhex : text.length = 2 * n → SignedPairs text → Hexadecimal text := by
      intro hlen hpairs
      by_contra hno
      exact hsigned ⟨hlen, hpairs, (signedPairs_sign hpairs).mpr hno⟩
    constructor
    · constructor
      · rintro ⟨hlen, hpairs⟩
        exact ⟨hlen, hhex hlen hpairs⟩
      · rintro ⟨hlen, hdigits⟩
        exact ⟨hlen, hdigits.signedPairs (by omega)⟩
    · intro b hb
      obtain ⟨hlen, hpairs⟩ := (parseHexArrayLegacy_isOk hascii).mp ⟨b, hb⟩
      exact parseHexBytes_of_legacy hascii (hhex hlen hpairs) hb

end Fields

/-- The two decoders of the first form take hexadecimal digits exactly, but for the texts of
the right length with a sign in front of a digit. -/
theorem legacyHex_exact_iff (text : List Char) (hascii : Ascii text) :
    (ExactlyHex 20 parseHexArray20Legacy text ↔ ¬Signed 20 text) ∧
      (ExactlyHex 16 parseHexArray16Legacy text ↔ ¬Signed 16 text) :=
  ⟨exactlyHex_iff hascii, exactlyHex_iff hascii⟩

/-- A disc id whose first pair is a sign and a digit. -/
def signedDiscId : List Char := '+' :: 'a' :: List.replicate 38 '0'

theorem ascii_signedDiscId : Ascii signedDiscId := by
  intro c hc
  rw [signedDiscId, List.mem_cons, List.mem_cons, List.mem_replicate] at hc
  rcases hc with rfl | rfl | ⟨-, rfl⟩
  · decide
  · decide
  · decide

theorem legacyHex_exact_iff_signed :
    (ExactlyHex 20 parseHexArray20Legacy signedDiscId ↔ ¬Signed 20 signedDiscId) ∧
      (ExactlyHex 16 parseHexArray16Legacy signedDiscId ↔ ¬Signed 16 signedDiscId) :=
  legacyHex_exact_iff signedDiscId ascii_signedDiscId

/-- The sign is taken for a part of the number. -/
theorem signedDiscId_not_exactlyHex :
    Ascii signedDiscId ∧ ¬ExactlyHex 20 parseHexArray20Legacy signedDiscId := by
  have hzeros : Hexadecimal (List.replicate 38 '0') := by
    intro c hc
    rw [(List.mem_replicate.mp hc).2]
    rfl
  have hsigned : Signed 20 signedDiscId :=
    ⟨rfl, ⟨.inr rfl, rfl, hzeros.signedPairs rfl⟩, List.mem_cons_self⟩
  exact ⟨ascii_signedDiscId, fun h => (exactlyHex_iff ascii_signedDiscId).mp h hsigned⟩

end KeyDb
