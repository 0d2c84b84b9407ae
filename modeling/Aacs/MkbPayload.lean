import Aacs.Mkb

/-!
# The payloads of a media key block

Each decoder keeps some bytes of its payload and drops the others: a header
count, padding, a cut-off rest. What is decoded can be written back as the bytes
kept, and it can be read from them alone.
-/

namespace RevocationEntry

def bytes (e : RevocationEntry) : List UInt8 := u16ToBe e.range ++ e.id.toList

@[simp] theorem length_bytes (e : RevocationEntry) : e.bytes.length = 8 := by
  simp [bytes]

end RevocationEntry

def entryBytes (entries : List RevocationEntry) : List UInt8 :=
  entries.flatMap RevocationEntry.bytes

@[simp] theorem entryBytes_nil : entryBytes [] = [] := rfl

@[simp] theorem entryBytes_cons (e : RevocationEntry) (es : List RevocationEntry) :
    entryBytes (e :: es) = e.bytes ++ entryBytes es := rfl

@[simp] theorem length_entryBytes (es : List RevocationEntry) :
    (entryBytes es).length = es.length * 8 := by
  induction es with
  | nil => rfl
  | cons e es ih =>
    rw [entryBytes_cons, List.length_append, ih, RevocationEntry.length_bytes, List.length_cons]
    omega

namespace RevocationSignatureBlock

def signatureBytes (b : RevocationSignatureBlock) : List UInt8 :=
  match b.signature with
  | some sig => sig.toList
  | none => []

def bytes (b : RevocationSignatureBlock) : List UInt8 :=
  u32ToBe b.entriesInBlock ++ entryBytes b.entries ++ b.signatureBytes

/-- The count of a block is the number of its entries. -/
def Counted (b : RevocationSignatureBlock) : Prop := b.entriesInBlock.toNat = b.entries.length

theorem length_bytes (b : RevocationSignatureBlock) (h : b.Counted) :
    b.bytes.length = 4 + b.entriesInBlock.toNat * 8 + b.signatureBytes.length := by
  rw [bytes, List.length_append, List.length_append, length_u32ToBe, length_entryBytes, h]

theorem bytes_eq (b : RevocationSignatureBlock) (tail : List UInt8) :
    b.bytes ++ tail = u32ToBe b.entriesInBlock ++
      (entryBytes b.entries ++ (b.signatureBytes ++ tail)) := by
  simp only [bytes, List.append_assoc]

end RevocationSignatureBlock

def blockBytes (blocks : List RevocationSignatureBlock) : List UInt8 :=
  blocks.flatMap RevocationSignatureBlock.bytes

@[simp] theorem blockBytes_nil : blockBytes [] = [] := rfl

@[simp] theorem blockBytes_cons (b : RevocationSignatureBlock)
    (bs : List RevocationSignatureBlock) :
    blockBytes (b :: bs) = b.bytes ++ blockBytes bs := rfl

namespace Mkb

theorem readEntries_eq_ok {n : Nat} {rest : List UInt8} {es : List RevocationEntry} :
    readEntries n rest = .ok es ↔ es.length = n ∧ rest.take (n * 8) = entryBytes es := by
  induction n generalizing rest es with
  | zero =>
    rw [readEntries, Nat.zero_mul, List.take_zero, List.length_eq_zero_iff]
    constructor
    · intro h
      obtain rfl := Outcome.ok.inj h
      exact ⟨rfl, rfl⟩
    · rintro ⟨rfl, -⟩
      rfl
  | succ n ih =>
    have htake (k : Nat) : rest.take (8 + k) = rest.take 2 ++ (rest.drop 2).take 6 ++
        (rest.drop 8).take k := by
      rw [List.take_add, show rest.take 8 = rest.take 2 ++ (rest.drop 2).take 6 from List.take_add
        (i := 2) (j := 6)]
    rw [show (n + 1) * 8 = 8 + n * 8 by omega, htake, readEntries]
    simp only [Outcome.bind_eq_ok, Outcome.indexU16_eq_ok, Outcome.readArray_eq_ok, ih,
      List.drop_zero, Outcome.pure_eq, Outcome.ok.injEq]
    constructor
    · rintro ⟨range, hrange, id, ⟨-, hid⟩, es', ⟨hlen, hes⟩, rfl⟩
      exact ⟨by rw [List.length_cons, hlen],
        by rw [hrange, hes, ← hid, entryBytes_cons, RevocationEntry.bytes]⟩
    · rintro ⟨hlen, hes⟩
      cases es with
      | nil => simp at hlen
      | cons e es =>
        have hall := congrArg List.length hes
        simp at hall hlen
        have hsplit : rest.take 2 ++ (rest.drop 2).take 6 = e.bytes ∧
            (rest.drop 8).take (n * 8) = entryBytes es :=
          List.append_inj (by rw [hes, entryBytes_cons]) (by simp; omega)
        have hentry : rest.take 2 = u16ToBe e.range ∧ (rest.drop 2).take 6 = e.id.toList :=
          List.append_inj hsplit.1 (by simp; omega)
        exact ⟨e.range, hentry.1, e.id, ⟨by omega, hentry.2.symm⟩, es, ⟨hlen, hsplit.2⟩, rfl⟩

theorem blockLoop_nil : blockLoop [] = .ok ([], []) := by
  rw [blockLoop]
  rfl

/-- One pass of the block loop. -/
theorem blockLoop_cases {rest : List UInt8}
    {x : List RevocationEntry × List RevocationSignatureBlock} (h : blockLoop rest = .ok x) :
    (rest = [] ∧ x = ([], [])) ∨
    (∃ (b : RevocationSignatureBlock) (tail : List UInt8), b.Counted ∧ b.signature = none ∧
      rest = b.bytes ++ tail ∧ tail.length < 40 ∧ x = (b.entries, [b])) ∨
    (∃ (b : RevocationSignatureBlock) (tail : List UInt8)
      (y : List RevocationEntry × List RevocationSignatureBlock), b.Counted ∧ b.signature.isSome ∧
      rest = b.bytes ++ tail ∧ blockLoop tail = .ok y ∧ x = (b.entries ++ y.1, b :: y.2)) := by
  rw [blockLoop] at h
  by_cases h0 : rest.length = 0
  · rw [if_pos h0] at h
    exact .inl ⟨List.length_eq_zero_iff.mp h0, (Outcome.ok.inj h).symm⟩
  by_cases h4 : rest.length < 4
  · rw [if_neg h0, dif_pos h4] at h
    cases h
  rw [if_neg h0, dif_neg h4] at h
  obtain ⟨n, hn, h⟩ := Outcome.bind_eq_ok.mp h
  obtain ⟨_, hlen, h⟩ := Outcome.bind_eq_ok.mp h
  obtain ⟨es, hes, h⟩ := Outcome.bind_eq_ok.mp h
  rw [Outcome.indexU32_eq_ok, List.drop_zero] at hn
  rw [Outcome.refuseIf_eq_ok] at hlen
  obtain ⟨hcount, hentries⟩ := readEntries_eq_ok.mp hes
  have hrest : rest = u32ToBe n ++ entryBytes es ++ ((rest.drop 4).drop (n.toNat * 8)) := by
    rw [← hn, ← hentries, List.append_assoc, List.take_append_drop, List.take_append_drop]
  dsimp only at h
  split at h
  · next h40 =>
    obtain ⟨sig, hsig, h⟩ := Outcome.bind_eq_ok.mp h
    obtain ⟨y, hy, h⟩ := Outcome.bind_eq_ok.mp h
    rw [Outcome.readArray_eq_ok, List.drop_zero] at hsig
    refine .inr (.inr ⟨⟨n, es, some sig⟩, _, y, hcount.symm, rfl, ?_, hy, (Outcome.ok.inj h).symm⟩)
    change rest = u32ToBe n ++ entryBytes es ++ sig.toList ++ _
    rw [hsig.2, List.append_assoc, List.take_append_drop]
    exact hrest
  · next h40 =>
    refine .inr
      (.inl ⟨⟨n, es, none⟩, _, hcount.symm, rfl, ?_, Nat.not_le.mp h40, (Outcome.ok.inj h).symm⟩)
    change rest = u32ToBe n ++ entryBytes es ++ [] ++ _
    rw [List.append_nil]
    exact hrest

/-- The block loop reads back a block. -/
theorem blockLoop_bytes {b : RevocationSignatureBlock} (hb : b.Counted) (tail : List UInt8)
    (htail : b.signature = none → tail.length < 40) : blockLoop (b.bytes ++ tail) =
      if b.signature = none then .ok (b.entries, [b])
      else blockLoop tail >>= fun y => .ok (b.entries ++ y.1, b :: y.2) := by
  have hlen := b.length_bytes hb
  have hn : (Outcome.indexU32 (b.bytes ++ tail) 0 : Result UInt32) = .ok b.entriesInBlock := by
    rw [Outcome.indexU32_eq_ok, b.bytes_eq]
    exact List.take_left' rfl
  have hdrop : (b.bytes ++ tail).drop 4 = entryBytes b.entries ++ (b.signatureBytes ++ tail) := by
    rw [b.bytes_eq]
    exact List.drop_left' rfl
  have hentries : readEntries b.entriesInBlock.toNat
    (entryBytes b.entries ++ (b.signatureBytes ++ tail)) =
      .ok b.entries := by
    rw [readEntries_eq_ok, hb]
    exact ⟨rfl, List.take_left' (length_entryBytes _)⟩
  have hrest : (entryBytes b.entries ++ (b.signatureBytes ++ tail)).drop
    (b.entriesInBlock.toNat * 8) =
      b.signatureBytes ++ tail := by
    rw [hb]
    exact List.drop_left' (length_entryBytes _)
  rw [blockLoop, if_neg (by rw [List.length_append]; omega),
    dif_neg (by rw [List.length_append]; omega), hn]
  simp only [Outcome.bind_ok, hdrop, hrest, hentries]
  rw [Outcome.refuseIf_neg (by rw [hb, List.length_append, length_entryBytes]; omega),
    Outcome.bind_ok]
  obtain ⟨n, es, sig⟩ := b
  cases sig with
  | none =>
    have hshort := htail rfl
    rw [if_neg (by simp [RevocationSignatureBlock.signatureBytes, hshort]), if_pos rfl]
    rfl
  | some sig =>
    have hsig : (Outcome.readArray 40 (sig.toList ++ tail) 0 : Result (Bytes 40)) = .ok sig := by
      rw [Outcome.readArray_eq_ok]
      exact ⟨by simp, (List.take_left' sig.length_toList).symm⟩
    rw [if_pos (by simp [RevocationSignatureBlock.signatureBytes]), if_neg (by simp),
      RevocationSignatureBlock.signatureBytes, hsig, Outcome.bind_ok,
      List.drop_left' sig.length_toList]
    rfl

/-- The bytes of the blocks, without a rest too short for what it should hold. -/
def keptBlocks (rest : List UInt8) : List UInt8 :=
  if _h : rest.length < 4 then []
  else
    let n := 4 + beNat (rest.take 4) * 8
    if n + 40 ≤ rest.length then rest.take (n + 40) ++ keptBlocks (rest.drop (n + 40))
    else rest.take n
termination_by rest.length
decreasing_by
  rw [List.length_drop]
  omega

theorem keptBlocks_bytes {b : RevocationSignatureBlock} (hb : b.Counted) (tail : List UInt8)
    (htail : b.signature = none → tail.length < 40) :
    keptBlocks (b.bytes ++ tail) = b.bytes ++ if b.signature = none then []
      else keptBlocks tail := by
  have hlen := b.length_bytes hb
  have hn : beNat ((b.bytes ++ tail).take 4) = b.entriesInBlock.toNat := by
    rw [b.bytes_eq, List.take_left' (length_u32ToBe _), beNat_u32ToBe]
  rw [keptBlocks, dif_neg (by rw [List.length_append]; omega), hn]
  dsimp only
  obtain ⟨n, es, sig⟩ := b
  cases sig with
  | none =>
    have hshort := htail rfl
    have hbytes : 4 + n.toNat * 8 = (RevocationSignatureBlock.bytes ⟨n, es, none⟩).length := by
      simp [hlen, RevocationSignatureBlock.signatureBytes]
    rw [hbytes, if_neg (by rw [List.length_append]; omega), if_pos rfl, List.append_nil]
    exact List.take_left' rfl
  | some sig =>
    have hbytes : 4 + n.toNat * 8 + 40 =
        (RevocationSignatureBlock.bytes ⟨n, es, some sig⟩).length := by
      simp [hlen, RevocationSignatureBlock.signatureBytes]
    rw [hbytes, if_pos (by simp), if_neg (by simp), List.take_left' rfl, List.drop_left' rfl]

theorem keptBlocks_spec {rest : List UInt8}
    {x : List RevocationEntry × List RevocationSignatureBlock}
    (h : blockLoop rest = .ok x) : blockLoop (keptBlocks rest) = .ok x ∧ blockBytes x.2 =
      keptBlocks rest := by
  induction hn : rest.length using Nat.strong_induction_on generalizing rest x with
  | _ n ih =>
    rcases blockLoop_cases h with ⟨rfl, rfl⟩ | ⟨b, tail, hb, hsig, rfl, htail, rfl⟩ |
      ⟨b, tail, y, hb, hsig, rfl, hy, rfl⟩
    · rw [keptBlocks]
      exact ⟨h, rfl⟩
    · have hkept := keptBlocks_bytes hb tail fun _ => htail
      rw [if_pos hsig, List.append_nil] at hkept
      have hread := blockLoop_bytes hb [] fun _ => by simp
      rw [if_pos hsig, List.append_nil] at hread
      rw [hkept, hread]
      exact ⟨rfl, List.append_nil _⟩
    · have hne : b.signature ≠ none := Option.isSome_iff_ne_none.mp hsig
      have hlen := b.length_bytes hb
      obtain ⟨hread, hwrite⟩ := ih tail.length (by rw [← hn, List.length_append]; omega) hy rfl
      rw [keptBlocks_bytes hb tail fun h => absurd h hne, if_neg hne,
        blockLoop_bytes hb _ fun h => absurd h hne, if_neg hne, hread]
      exact ⟨rfl, by rw [blockBytes_cons, hwrite]⟩

/-- A field starts as `start` and is decoded from a payload; what it holds is determined by the
bytes kept of the payload, and determines them. -/
structure Keeps {α : Type} (decode : List UInt8 → Result α) (start : α)
    (kept : List UInt8 → List UInt8) : Prop where
  eq_iff : ∀ {p q : List UInt8} {x y : α}, decode p = .ok x → decode q = .ok y →
    (x = y ↔ kept p = kept q)
  eq_start_iff : ∀ {p : List UInt8} {x : α}, decode p = .ok x → (x = start ↔ kept p = [])

/-- What is decoded is written back as the bytes kept, and read from them. -/
theorem Keeps.of_read {α : Type} {decode : List UInt8 → Result α} {start : α}
    {kept : List UInt8 → List UInt8} (read : List UInt8 → Result α) (write : α → List UInt8)
    (hstart : read [] = .ok start ∧ write start = [])
    (h : ∀ {p x}, decode p = .ok x → read (kept p) = .ok x ∧ write x = kept p) :
    Keeps decode start kept := by
  constructor
  · intro p q x y hp hq
    obtain ⟨hread, hwrite⟩ := h hp
    obtain ⟨hread', hwrite'⟩ := h hq
    constructor
    · rintro rfl
      exact hwrite.symm.trans hwrite'
    · intro heq
      rw [heq] at hread
      exact Outcome.ok.inj (hread.symm.trans hread')
  · intro p x hp
    obtain ⟨hread, hwrite⟩ := h hp
    constructor
    · rintro rfl
      exact hwrite.symm.trans hstart.2
    · intro heq
      rw [heq] at hread
      exact Outcome.ok.inj (hread.symm.trans hstart.1)

/-- A field that a record sets and that is absent without one. -/
theorem Keeps.some {α β : Type} {decode : List UInt8 → Result α} {wrap : α → β} {start : β}
    {kept : List UInt8 → List UInt8} (hwrap : ∀ {x y}, wrap x = wrap y ↔ x = y)
    (hstart : ∀ x, wrap x ≠ start) (hne : ∀ {p x}, decode p = .ok x → kept p ≠ [])
    (h : ∀ {p q x y}, decode p = .ok x → decode q = .ok y → (x = y ↔ kept p = kept q)) :
    Keeps (fun p => do let x ← decode p; pure (wrap x)) start kept := by
  constructor
  · intro p q x y hp hq
    obtain ⟨x', hx, hp⟩ := Outcome.bind_eq_ok.mp hp
    obtain ⟨y', hy, hq⟩ := Outcome.bind_eq_ok.mp hq
    obtain rfl := Outcome.ok.inj hp
    obtain rfl := Outcome.ok.inj hq
    rw [hwrap]
    exact h hx hy
  · intro p x hp
    obtain ⟨x', hx, hp⟩ := Outcome.bind_eq_ok.mp hp
    obtain rfl := Outcome.ok.inj hp
    simp [hstart, hne hx]

/-- A run of pieces of `n` bytes, as a decoder that drops a shorter rest. -/
theorem keeps_pieces {α : Type} {decode : List UInt8 → Result (List α)}
    {write : α → List UInt8} {n : Nat}
    (hn : 0 < n) (hdecode : ∀ p, p.length < n → decode p = .ok [])
    (h : ∀ {p xs}, n ≤ p.length → decode p = .ok xs → ∃ x ys, xs = x :: ys ∧ write x = p.take n ∧
      decode (p.drop n) = .ok ys ∧ ∀ {q zs}, decode q = .ok zs → decode (p.take n ++ q) = .ok
        (x :: zs)) :
    Keeps decode [] fun p => p.take (p.length / n * n) := by
  refine Keeps.of_read decode (fun xs => xs.flatMap write) ⟨hdecode [] hn, rfl⟩ ?_
  intro p xs hp
  induction hm : p.length using Nat.strong_induction_on generalizing p xs with
  | _ m ih =>
    rw [← hm]
    by_cases hlen : p.length < n
    · obtain rfl := Outcome.ok.inj ((hdecode p hlen).symm.trans hp)
      rw [Nat.div_eq_of_lt hlen, Nat.zero_mul, List.take_zero]
      exact ⟨hdecode [] hn, rfl⟩
    · obtain ⟨x, ys, rfl, hx, hys, hcons⟩ := h (Nat.not_lt.mp hlen) hp
      obtain ⟨hread, hwrite⟩ := ih (p.drop n).length (by rw [List.length_drop]; omega) hys rfl
      have hcount : p.length / n * n = n + (p.drop n).length / n * n := by
        rw [List.length_drop, Nat.div_eq_sub_div hn (Nat.not_lt.mp hlen)]
        ring
      rw [hcount, List.take_add]
      exact ⟨hcons hread, by rw [List.flatMap_cons, hx, hwrite]⟩

theorem parseMediaKeyData_of_le {p : List UInt8} (h : 16 ≤ p.length) :
    parseMediaKeyData p = parseMediaKeyData (p.drop 16) >>= fun keys =>
      .ok (⟨p.take 16, by simp [h]⟩ :: keys) := by
  rw [parseMediaKeyData, dif_neg (by omega), Outcome.readArray_of_le (by omega)]
  rfl

theorem keeps_mediaKeyData :
    Keeps parseMediaKeyData [] fun p => p.take (p.length / 16 * 16) := by
  refine @keeps_pieces _ _ Bytes.toList _ (by decide) ?_ ?_
  · intro p hp
    rw [parseMediaKeyData, dif_pos hp]
    rfl
  · intro p xs hlen hp
    rw [parseMediaKeyData_of_le hlen] at hp
    obtain ⟨keys, hkeys, hp⟩ := Outcome.bind_eq_ok.mp hp
    refine ⟨⟨p.take 16, by simp [hlen]⟩, keys, (Outcome.ok.inj hp).symm, rfl, hkeys,
      fun {q zs} hq => ?_⟩
    have htake : (p.take 16).length = 16 := List.length_take_of_le hlen
    rw [parseMediaKeyData_of_le (by rw [List.length_append]; omega), List.drop_left' htake, hq]
    simp [List.take_left' htake]

theorem readOffsets_of_le {p : List UInt8} (h : 3 ≤ p.length) :
    ∃ off, 0 :: p.take 3 = u32ToBe off ∧ readOffsets p = readOffsets (p.drop 3) >>= fun offsets =>
      .ok (off :: offsets) := by
  match p, h with
  | b₀ :: b₁ :: b₂ :: p, _ =>
    refine ⟨u32FromBe 0 b₀ b₁ b₂, by simp, ?_⟩
    rw [readOffsets, dif_neg (by simp)]
    rfl

theorem keeps_offsets : Keeps readOffsets [] fun p => p.take (p.length / 3 * 3) := by
  refine @keeps_pieces _ _ (fun off => (u32ToBe off).tail) _ (by decide) ?_ ?_
  · intro p hp
    rw [readOffsets, dif_pos hp]
    rfl
  · intro p xs hlen hp
    obtain ⟨off, hoff, hread⟩ := readOffsets_of_le hlen
    rw [hread] at hp
    obtain ⟨offsets, hoffsets, hp⟩ := Outcome.bind_eq_ok.mp hp
    refine ⟨off, offsets, (Outcome.ok.inj hp).symm, by rw [← hoff, List.tail_cons], hoffsets,
      fun {q zs} hq => ?_⟩
    have htake : (p.take 3).length = 3 := List.length_take_of_le hlen
    obtain ⟨off', hoff', hread'⟩ :=
      readOffsets_of_le (p := p.take 3 ++ q) (by rw [List.length_append]; omega)
    rw [List.take_left' htake, hoff] at hoff'
    rw [hread', List.drop_left' htake, hq, u32ToBe_inj.mp hoff']
    rfl

/-- The five-byte entries up to the first one whose two high mask bits are set. -/
def keptSubdiff (payload : List UInt8) : List UInt8 :=
  if _h : payload.length < 5 then []
  else if payload.headD 0 &&& 0xC0 ≠ 0 then []
  else payload.take 5 ++ keptSubdiff (payload.drop 5)
termination_by payload.length
decreasing_by
  rw [List.length_drop]
  omega

def SubsetDifferenceEntry.bytes (e : SubsetDifferenceEntry) : List UInt8 :=
  e.uMaskZeroBits :: u32ToBe e.uv

theorem parseExplicitSubdiff_cons (b b₀ b₁ b₂ b₃ : UInt8) (p : List UInt8) :
    parseExplicitSubdiff (b :: b₀ :: b₁ :: b₂ :: b₃ :: p) = if b &&& 0xC0 ≠ 0 then .ok [] else
      parseExplicitSubdiff p >>= fun entries => .ok (⟨b, u32FromBe b₀ b₁ b₂ b₃⟩ :: entries) := by
  rw [parseExplicitSubdiff, dif_neg (by simp)]
  rfl

theorem exists_cons_of_five_le {p : List UInt8} (h : ¬p.length < 5) :
    ∃ b b₀ b₁ b₂ b₃ q, p = b :: b₀ :: b₁ :: b₂ :: b₃ :: q := by
  match p with
  | b :: b₀ :: b₁ :: b₂ :: b₃ :: q => exact ⟨b, b₀, b₁, b₂, b₃, q, rfl⟩
  | [] | [_] | [_, _] | [_, _, _] | [_, _, _, _] => simp at h

theorem keeps_explicitSubdiff : Keeps parseExplicitSubdiff [] keptSubdiff := by
  refine Keeps.of_read parseExplicitSubdiff (fun es => es.flatMap SubsetDifferenceEntry.bytes)
    ⟨by rw [parseExplicitSubdiff]; rfl, rfl⟩ ?_
  intro p x hp
  induction p using keptSubdiff.induct generalizing x with
  | case1 p hlen =>
    rw [parseExplicitSubdiff, dif_pos hlen] at hp
    obtain rfl := Outcome.ok.inj hp
    rw [keptSubdiff, dif_pos hlen, parseExplicitSubdiff]
    exact ⟨rfl, rfl⟩
  | case2 p hlen hmask =>
    rw [keptSubdiff, dif_neg hlen, if_pos hmask]
    obtain ⟨b, b₀, b₁, b₂, b₃, q, rfl⟩ := exists_cons_of_five_le hlen
    rw [parseExplicitSubdiff_cons, if_pos (by exact hmask)] at hp
    obtain rfl := Outcome.ok.inj hp
    rw [parseExplicitSubdiff]
    exact ⟨rfl, rfl⟩
  | case3 p hlen hmask ih =>
    rw [keptSubdiff, dif_neg hlen, if_neg hmask]
    obtain ⟨b, b₀, b₁, b₂, b₃, q, rfl⟩ := exists_cons_of_five_le hlen
    rw [parseExplicitSubdiff_cons, if_neg (by exact hmask)] at hp
    obtain ⟨es, hes, hp⟩ := Outcome.bind_eq_ok.mp hp
    obtain rfl := Outcome.ok.inj hp
    have hread : parseExplicitSubdiff (keptSubdiff q) = .ok es := (ih hes).1
    have hwrite : es.flatMap SubsetDifferenceEntry.bytes = keptSubdiff q := (ih hes).2
    have hcons : (b :: b₀ :: b₁ :: b₂ :: b₃ :: q).take 5 ++
        keptSubdiff ((b :: b₀ :: b₁ :: b₂ :: b₃ :: q).drop 5) = b :: b₀ :: b₁ :: b₂ :: b₃ ::
          keptSubdiff q := rfl
    rw [hcons, parseExplicitSubdiff_cons, if_neg (by exact hmask), hread]
    refine ⟨rfl, ?_⟩
    rw [List.flatMap_cons, hwrite, SubsetDifferenceEntry.bytes, u32ToBe_fromBe]
    rfl

theorem MkbType.fromU32_inj {v w : UInt32} : MkbType.fromU32 v = MkbType.fromU32 w ↔ v = w := by
  unfold MkbType.fromU32
  grind

theorem parseTypeAndVersion_take {p : List UInt8} {tv : MkbType × UInt32}
    (h : parseTypeAndVersion p = .ok tv) :
    ∃ v, tv.1 = MkbType.fromU32 v ∧ p.take 8 = u32ToBe v ++ u32ToBe tv.2 := by
  obtain ⟨_, -, h⟩ := Outcome.bind_eq_ok.mp h
  obtain ⟨v, hv, h⟩ := Outcome.bind_eq_ok.mp h
  obtain ⟨w, hw, h⟩ := Outcome.bind_eq_ok.mp h
  obtain rfl := Outcome.ok.inj h
  rw [Outcome.indexU32_eq_ok, List.drop_zero] at hv
  rw [Outcome.indexU32_eq_ok] at hw
  refine ⟨v, rfl, ?_⟩
  rw [← hv, ← hw]
  exact List.take_add (i := 4) (j := 4)

theorem keeps_typeAndVersion :
    Keeps (fun p => do let tv ← parseTypeAndVersion p; pure (some tv.1, tv.2)) (none, 0)
      (·.take 8) := by
  refine Keeps.some (by simp [Prod.ext_iff]) (by simp) ?_ ?_
  · intro p x hp
    obtain ⟨v, -, htake⟩ := parseTypeAndVersion_take hp
    simp [htake, u32ToBe]
  · intro p q x y hp hq
    obtain ⟨v, hv, hp⟩ := parseTypeAndVersion_take hp
    obtain ⟨w, hw, hq⟩ := parseTypeAndVersion_take hq
    rw [hp, hq, List.append_eq_append_iff_of_size_eq_left (by simp), u32ToBe_inj, u32ToBe_inj,
      Prod.ext_iff, hv, hw, MkbType.fromU32_inj]

theorem parseVerifyMediaKey_take {p : List UInt8} {vd : Bytes 16}
    (h : parseVerifyMediaKey p = .ok vd) :
    p.take 16 = vd.toList := by
  obtain ⟨_, -, h⟩ := Outcome.bind_eq_ok.mp h
  exact (Outcome.readArray_eq_ok.mp h).2.symm

theorem keeps_verifyMediaKey :
    Keeps (fun p => do let vd ← parseVerifyMediaKey p; pure (some vd)) none (·.take 16) := by
  refine Keeps.some (by simp) (by simp) ?_ ?_
  · intro p x hp
    rw [parseVerifyMediaKey_take hp, ← List.length_pos_iff, x.length_toList]
    decide
  · intro p q x y hp hq
    rw [parseVerifyMediaKey_take hp, parseVerifyMediaKey_take hq, Bytes.ext_iff]

theorem parseSubdiffIndex_take {p : List UInt8} {index : SubsetDiffIndex}
    (h : parseSubdiffIndex p = .ok index) :
    p.take 4 = u32ToBe index.span ∧ readOffsets (p.drop 4) = .ok index.offsets := by
  obtain ⟨_, -, h⟩ := Outcome.bind_eq_ok.mp h
  obtain ⟨span, hspan, h⟩ := Outcome.bind_eq_ok.mp h
  obtain ⟨offsets, hoffsets, h⟩ := Outcome.bind_eq_ok.mp h
  obtain rfl := Outcome.ok.inj h
  rw [Outcome.indexU32_eq_ok, List.drop_zero] at hspan
  exact ⟨hspan, hoffsets⟩

theorem keeps_subdiffIndex :
    Keeps (fun p => do let index ← parseSubdiffIndex p; pure (some index)) none
    fun p => p.take (4 + (p.drop 4).length / 3 * 3) := by
  refine Keeps.some (by simp) (by simp) ?_ ?_
  · intro p x hp
    rw [List.take_add, (parseSubdiffIndex_take hp).1]
    simp [u32ToBe]
  · intro p q x y hp hq
    obtain ⟨hspan, hoffsets⟩ := parseSubdiffIndex_take hp
    obtain ⟨hspan', hoffsets'⟩ := parseSubdiffIndex_take hq
    rw [List.take_add, List.take_add, hspan, hspan',
      List.append_eq_append_iff_of_size_eq_left (by simp), u32ToBe_inj,
      ← keeps_offsets.eq_iff hoffsets hoffsets']
    cases x
    cases y
    simp

theorem keeps_revocationList :
    Keeps parseRevocationListWithBlocks ([], []) fun p => keptBlocks (p.drop 4) := by
  refine Keeps.of_read blockLoop (fun x => blockBytes x.2) ⟨blockLoop_nil, rfl⟩ ?_
  intro p x hp
  obtain ⟨_, -, hp⟩ := Outcome.bind_eq_ok.mp hp
  obtain ⟨_, -, hp⟩ := Outcome.bind_eq_ok.mp hp
  exact keptBlocks_spec hp

end Mkb
