import Aacs.MkbRecords

/-!
# The walk over a revocation list record

The parser reads the blocks of a payload one behind the other; the check of the
signatures steps over the record with the counts of these blocks. Both come to
the same places, and the check leaves no block out.
-/
namespace Mkb

open Outcome

/-- A block that the walk comes to: how many bytes of the record its signature is checked over,
and whether the walk stops behind its entries. -/
structure Visit where
  block : RevocationSignatureBlock
  hashed : Nat
  stops : Bool
  deriving DecidableEq

/-- The cursor walk of the check, the signatures left aside. -/
def walk (rlRecord : List UInt8) : List RevocationSignatureBlock → Nat → Result (List Visit)
  | [], _ => pure []
  | block :: blocks, cursor => do
    let payloadLen := rlRecord.length - 4
    refuseIf (cursor + 4 > payloadLen) (.truncated "Revocation List per-block entry count")
    let cursor := cursor + 4
    let entriesBytes := block.entriesInBlock.toNat * 8
    refuseIf (cursor + entriesBytes > payloadLen) (.truncated "Revocation List block entries")
    let cursor := cursor + entriesBytes
    if cursor + 40 > payloadLen then pure [⟨block, 4 + cursor, true⟩]
    else do
      let visits ← walk rlRecord blocks (cursor + 40)
      pure (⟨block, 4 + cursor, false⟩ :: visits)

/-- The check of one block, which also says whether any signature has been verified by then. -/
def checkVisit (aacsLaPub : Point) (tvRaw rlRecord : List UInt8) (verifiedAny : Bool) (v : Visit) :
    Result Bool :=
  match v.block.signature with
  | some sig => do
    refuseIf (Ecdsa.verify aacsLaPub sig (tvRaw ++ rlRecord.take v.hashed) = false)
      .mkbSignatureInvalid
    pure true
  | none => pure verifiedAny

section
variable {rlRecord : List UInt8} {block : RevocationSignatureBlock}
  {blocks : List RevocationSignatureBlock} {cursor : Nat}

/-- One block of the walk. -/
theorem walk_cons {visits : List Visit} (h : walk rlRecord (block :: blocks) cursor = .ok visits) :
    cursor + 4 + block.entriesInBlock.toNat * 8 ≤ rlRecord.length - 4 ∧
    ((cursor + 4 + block.entriesInBlock.toNat * 8 + 40 > rlRecord.length - 4 ∧
        visits = [⟨block, 4 + (cursor + 4 + block.entriesInBlock.toNat * 8), true⟩]) ∨
      (¬cursor + 4 + block.entriesInBlock.toNat * 8 + 40 > rlRecord.length - 4 ∧ ∃ vs,
        walk rlRecord blocks (cursor + 4 + block.entriesInBlock.toNat * 8 + 40) = .ok vs ∧
        visits = ⟨block, 4 + (cursor + 4 + block.entriesInBlock.toNat * 8), false⟩ :: vs)) := by
  rw [walk] at h
  obtain ⟨_, -, h⟩ := bind_eq_ok.mp h
  obtain ⟨_, hentries, h⟩ := bind_eq_ok.mp h
  rw [refuseIf_eq_ok] at hentries
  apply And.intro (Nat.not_lt.mp hentries)
  by_cases hstop : cursor + 4 + block.entriesInBlock.toNat * 8 + 40 > rlRecord.length - 4
  · rw [if_pos hstop] at h
    exact .inl ⟨hstop, (ok.inj h).symm⟩
  · rw [if_neg hstop] at h
    obtain ⟨vs, hvs, h⟩ := bind_eq_ok.mp h
    exact .inr ⟨hstop, vs, hvs, (ok.inj h).symm⟩

/-- One block of the walk, when its entries lie in the record. -/
theorem walk_cons_eq (hfit : cursor + 4 + block.entriesInBlock.toNat * 8 ≤ rlRecord.length - 4) :
    walk rlRecord (block :: blocks) cursor =
      if cursor + 4 + block.entriesInBlock.toNat * 8 + 40 > rlRecord.length - 4 then
        .ok [⟨block, 4 + (cursor + 4 + block.entriesInBlock.toNat * 8), true⟩]
      else walk rlRecord blocks (cursor + 4 + block.entriesInBlock.toNat * 8 + 40) >>= fun vs =>
        .ok (⟨block, 4 + (cursor + 4 + block.entriesInBlock.toNat * 8), false⟩ :: vs) := by
  rw [walk, refuseIf_neg (by omega), bind_ok]
  dsimp only
  rw [refuseIf_neg (by omega), bind_ok]
  rfl

/-- One block of the check, when its entries lie in the record. -/
theorem verifyBlocks_cons_eq (aacsLaPub : Point) (tvRaw : List UInt8) (verifiedAny stops : Bool)
    (hfit : cursor + 4 + block.entriesInBlock.toNat * 8 ≤ rlRecord.length - 4) :
    verifyBlocks aacsLaPub tvRaw rlRecord (block :: blocks) cursor verifiedAny =
      checkVisit aacsLaPub tvRaw rlRecord verifiedAny
        ⟨block, 4 + (cursor + 4 + block.entriesInBlock.toNat * 8), stops⟩ >>= fun any =>
      if cursor + 4 + block.entriesInBlock.toNat * 8 + 40 > rlRecord.length - 4 then pure any
      else verifyBlocks aacsLaPub tvRaw rlRecord blocks
        (cursor + 4 + block.entriesInBlock.toNat * 8 + 40) any := by
  have hslice : (slice rlRecord 0 (4 + (cursor + 4 + block.entriesInBlock.toNat * 8)) : Result
    (List UInt8)) =
      .ok (rlRecord.take (4 + (cursor + 4 + block.entriesInBlock.toNat * 8))) :=
    slice_of_le (Nat.zero_le _) (by omega)
  rw [verifyBlocks, refuseIf_neg (by omega), bind_ok]
  dsimp only
  rw [refuseIf_neg (by omega), bind_ok, checkVisit]
  dsimp only
  cases block.signature with
  | none => rfl
  | some sig =>
    dsimp only
    rw [hslice, bind_ok, bind_assoc]

end

/-- A walk that ends well leaves only the signatures to be checked, block by block. -/
theorem verifyBlocks_eq_foldlM (aacsLaPub : Point) (tvRaw : List UInt8) {rlRecord : List UInt8}
    {blocks : List RevocationSignatureBlock} {cursor : Nat} {visits : List Visit}
    (h : walk rlRecord blocks cursor = .ok visits) (verifiedAny : Bool) :
    verifyBlocks aacsLaPub tvRaw rlRecord blocks cursor verifiedAny =
      visits.foldlM (checkVisit aacsLaPub tvRaw rlRecord) verifiedAny := by
  induction blocks generalizing cursor visits verifiedAny with
  | nil =>
    obtain rfl := ok.inj h
    rfl
  | cons block blocks ih =>
    obtain ⟨hfit, hstops | hgoes⟩ := walk_cons h
    · obtain ⟨hstop, rfl⟩ := hstops
      rw [verifyBlocks_cons_eq aacsLaPub tvRaw verifiedAny true hfit, List.foldlM_cons]
      apply bind_congr_ok
      intro any _
      rw [if_pos hstop, List.foldlM_nil]
    · obtain ⟨hstop, vs, hvs, rfl⟩ := hgoes
      rw [verifyBlocks_cons_eq aacsLaPub tvRaw verifiedAny false hfit, List.foldlM_cons]
      apply bind_congr_ok
      intro any _
      rw [if_neg hstop, ih hvs]

/-- The checks refuse a signature or none; they do not run out of bytes. -/
theorem foldlM_checkVisit_ne_truncated (aacsLaPub : Point) (tvRaw rlRecord : List UInt8)
    (visits : List Visit) (verifiedAny : Bool) (what : String) :
    visits.foldlM (checkVisit aacsLaPub tvRaw rlRecord) verifiedAny ≠ .err (.truncated what) := by
  induction visits generalizing verifiedAny with
  | nil => simp
  | cons v visits ih =>
    rw [List.foldlM_cons, checkVisit]
    cases v.block.signature with
    | none => exact ih verifiedAny
    | some sig =>
      dsimp only
      by_cases hverify : Ecdsa.verify aacsLaPub sig (tvRaw ++ rlRecord.take v.hashed) = false
      · rw [refuseIf_pos hverify, bind_err, bind_err]
        simp
      · rw [refuseIf_neg hverify, bind_ok, pure_eq, bind_ok]
        exact ih true

/-- The blocks from an offset of the record on, one behind the other; the walk stops at one
without a signature. -/
def layout (offset : Nat) : List RevocationSignatureBlock → List Visit
  | [] => []
  | b :: bs => ⟨b, offset + 4 + b.entriesInBlock.toNat * 8, b.signature.isNone⟩ ::
    layout (offset + b.bytes.length) bs

theorem map_block_layout (offset : Nat) (bs : List RevocationSignatureBlock) :
    (layout offset bs).map Visit.block = bs := by
  induction bs generalizing offset with
  | nil => rfl
  | cons b bs ih => rw [layout, List.map_cons, ih]

theorem getElem?_layout {offset i : Nat} {bs : List RevocationSignatureBlock} {v : Visit}
    (h : (layout offset bs)[i]? = some v) : ∃ b, bs[i]? = some b ∧
      v = ⟨b, offset + (blockBytes (bs.take i)).length + 4 + b.entriesInBlock.toNat * 8,
        b.signature.isNone⟩ := by
  induction bs generalizing offset i with
  | nil => cases h
  | cons b bs ih =>
    cases i with
    | zero =>
      obtain rfl := Option.some.inj h
      exact ⟨b, rfl, rfl⟩
    | succ i =>
      obtain ⟨b', hb', hv⟩ := ih h
      rw [Nat.add_assoc offset, ← List.length_append, ← blockBytes_cons,
        ← List.take_succ_cons] at hv
      exact ⟨b', hb', hv⟩

theorem blocks_of_blockLoop {rest : List UInt8}
    {x : List RevocationEntry × List RevocationSignatureBlock} (h : blockLoop rest = .ok x) :
    Blocks rest x.2 ∧ x.1 = x.2.flatMap RevocationSignatureBlock.entries := by
  induction hn : rest.length using Nat.strong_induction_on generalizing rest x with
  | _ n ih =>
    rcases blockLoop_cases h with ⟨rfl, rfl⟩ | ⟨b, tail, hb, hsig, rfl, htail, rfl⟩ |
      ⟨b, tail, y, hb, hsig, rfl, hy, rfl⟩
    · exact ⟨.nil, rfl⟩
    · exact ⟨.unsigned hb hsig htail, by simp⟩
    · have hlen := b.length_bytes hb
      obtain ⟨hblocks, hentries⟩ := ih tail.length (by rw [← hn, List.length_append]; omega) hy rfl
      exact ⟨.signed hb (Option.isSome_iff_ne_none.mp hsig) hblocks,
        by rw [List.flatMap_cons, hentries]⟩

theorem Blocks.counted {rest : List UInt8} {bs : List RevocationSignatureBlock}
    (h : Blocks rest bs) :
    ∀ b ∈ bs, b.Counted := by
  induction h with
  | nil => simp
  | unsigned counted hsig short => simpa using counted
  | signed counted hsig rest ih => simpa using ⟨counted, ih⟩

/-- What is left behind the blocks is too short for a signature. -/
theorem Blocks.bytes {rest : List UInt8} {bs : List RevocationSignatureBlock} (h : Blocks rest bs) :
    ∃ tail, rest = blockBytes bs ++ tail := by
  induction h with
  | nil => exact ⟨[], rfl⟩
  | @unsigned b tail counted hsig short =>
    exact ⟨tail, by rw [blockBytes_cons, blockBytes_nil, List.append_nil]⟩
  | @signed b tail bs counted hsig rest ih =>
    obtain ⟨tail', htail⟩ := ih
    exact ⟨tail', by rw [blockBytes_cons, List.append_assoc, htail]⟩

/-- Only the last block can lack its signature. -/
theorem Blocks.last_of_unsigned {rest : List UInt8} {bs : List RevocationSignatureBlock}
    (h : Blocks rest bs) {i : Nat}
    {b : RevocationSignatureBlock} (hb : bs[i]? = some b) (hsig : b.signature = none) :
    i + 1 = bs.length := by
  induction h generalizing i with
  | nil => cases hb
  | unsigned =>
    obtain ⟨hi, -⟩ := List.getElem?_eq_some_iff.mp hb
    simp at hi
    simp [hi]
  | signed counted hne rest ih =>
    cases i with
    | zero =>
      obtain rfl := Option.some.inj hb
      exact absurd hsig hne
    | succ i => rw [List.length_cons, ih hb]

/-- The record has four bytes in front of its payload, which the walk counts from. -/
theorem hashed_eq (cursor entriesBytes : Nat) :
    4 + (cursor + 4 + entriesBytes) = 4 + cursor + 4 + entriesBytes := by
  omega

/-- The walk comes to every block, where the parser has read it. -/
theorem walk_eq_layout {rlRecord rest : List UInt8} {bs : List RevocationSignatureBlock}
    (h : Blocks rest bs) {cursor : Nat} (hrest : rlRecord.drop (4 + cursor) = rest)
    (hcursor : 4 + cursor ≤ rlRecord.length) :
    walk rlRecord bs cursor = .ok (layout (4 + cursor) bs) := by
  induction h generalizing cursor with
  | nil => rfl
  | @unsigned b tail counted hsig short =>
    have hlen := b.length_bytes counted
    have htotal := congrArg List.length hrest
    rw [List.length_drop, List.length_append] at htotal
    rw [RevocationSignatureBlock.signatureBytes, hsig, List.length_nil] at hlen
    rw [walk_cons_eq (by omega), if_pos (by omega), hashed_eq, layout, layout, hsig]
    rfl
  | @signed b tail bs counted hsig rest ih =>
    have hlen := b.length_bytes counted
    have htotal := congrArg List.length hrest
    obtain ⟨sig, hsome⟩ := Option.ne_none_iff_exists'.mp hsig
    rw [List.length_drop, List.length_append] at htotal
    rw [RevocationSignatureBlock.signatureBytes, hsome] at hlen
    dsimp only at hlen
    rw [sig.length_toList] at hlen
    have hnext : 4 + cursor + b.bytes.length = 4 + (cursor + 4 + b.entriesInBlock.toNat * 8 + 40) :=
      by omega
    have htail : rlRecord.drop (4 + (cursor + 4 + b.entriesInBlock.toNat * 8 + 40)) = tail := by
      rw [← hnext, ← List.drop_drop, hrest, List.drop_left' rfl]
    rw [walk_cons_eq (by omega), if_neg (by omega), ih htail (by omega), bind_ok, hashed_eq, layout,
      hnext, hsome]
    rfl

theorem take_append_of_eq {l a b : List UInt8} {n : Nat} (h : l = a ++ b) (hn : n = a.length) :
    l.take n = a := by
  rw [h, hn, List.take_left' rfl]

theorem drop_append_of_eq {l a b : List UInt8} {n : Nat} (h : l = a ++ b) (hn : n = a.length) :
    l.drop n = b := by
  rw [h, hn, List.drop_left' rfl]

/-- The bytes in front of the signature of a block, and the signature behind them. -/
theorem Blocks.split_at {rest : List UInt8} {bs : List RevocationSignatureBlock}
    (h : Blocks rest bs) {i : Nat} {b : RevocationSignatureBlock} (hb : bs[i]? = some b) : ∃ tail,
      rest = blockBytes (bs.take i) ++ u32ToBe b.entriesInBlock ++ entryBytes b.entries ++
        (b.signatureBytes ++ tail) := by
  obtain ⟨tail, htail⟩ := h.bytes
  obtain ⟨hi, rfl⟩ := List.getElem?_eq_some_iff.mp hb
  have hsplit : bs = bs.take i ++ bs[i] :: bs.drop (i + 1) := by
    rw [← List.drop_eq_getElem_cons hi, List.take_append_drop]
  have hbytes : blockBytes bs = blockBytes (bs.take i) ++
      (bs[i].bytes ++ blockBytes (bs.drop (i + 1))) := by
    conv_lhs => rw [hsplit]
    rw [blockBytes, List.flatMap_append, List.flatMap_cons]
    rfl
  use blockBytes (bs.drop (i + 1)) ++ tail
  rw [htail, hbytes, RevocationSignatureBlock.bytes]
  simp only [List.append_assoc]

/-- A check that refuses otherwise than `t`, in front of a sequence that does not end with `t`. -/
theorem refuseIf_bind_ne {α : Type} {c : Prop} [Decidable c] {e t : AacsError} {f : Unit → Result α}
    (he : e ≠ t) (hf : ¬c → f () ≠ .err t) : (refuseIf c e >>= f) ≠ .err t := by
  by_cases hc : c
  · rw [refuseIf_pos hc, bind_err]
    exact fun h => he (err.inj h)
  · rw [refuseIf_neg hc, bind_ok]
    exact hf hc

/-- The whole check of the signatures, when it finds the record that holds the payload. -/
theorem verifyRevocationListSignatures_ne_truncated {m : Mkb} {originalBytes rlRecord : List UInt8}
    {aacsLaPub : Point}
    {tag : UInt8} {blocks : List RevocationSignatureBlock} {extent : Nat × Nat} {what : String}
    (hextent : findRecordExtent originalBytes tag = .ok (some extent))
    (hrecord : (slice originalBytes extent.1 (extent.1 + extent.2) : Result (List UInt8)) =
      .ok rlRecord)
    (hlen : 8 ≤ rlRecord.length)
    (hwalk : verifyBlocks aacsLaPub m.typeAndVersionRaw rlRecord blocks 4 false ≠
      .err (.truncated what)) :
    m.verifyRevocationListSignatures originalBytes aacsLaPub tag blocks ≠ .err
      (.truncated what) := by
  apply refuseIf_bind_ne (by simp)
  intro _
  apply refuseIf_bind_ne (by simp)
  intro _
  rw [hextent, bind_ok, okOr_some, bind_ok, hrecord, bind_ok, sliceFrom_of_le (by omega), bind_ok,
    refuseIf_neg (by rw [List.length_drop]; omega), bind_ok]
  cases hend : verifyBlocks aacsLaPub m.typeAndVersionRaw rlRecord blocks 4 false with
  | ok any =>
    by_cases hany : any = false <;> simp [refuseIf, hany]
  | err e =>
    intro h
    obtain rfl := err.inj h
    exact hwalk hend
  | panic => simp

/-- The bytes that a visit hashes, and the signature behind them. -/
theorem Blocks.visit {header p : List UInt8} {bs : List RevocationSignatureBlock}
    (h : Blocks (p.drop 4) bs)
    (hheader : header.length = 4) (hlen : 4 ≤ p.length) {i : Nat} {v : Visit}
    (hv : (layout 8 bs)[i]? = some v) :
    (header ++ p).take v.hashed = header ++ p.take 4 ++ blockBytes (bs.take i) ++
      u32ToBe v.block.entriesInBlock ++ entryBytes v.block.entries ∧
    (∀ sig, v.block.signature = some sig → ((header ++ p).drop v.hashed).take 40 = sig.toList) ∧
    (v.stops = true → v.block.signature = none ∧ i + 1 = bs.length) := by
  obtain ⟨b, hb, rfl⟩ := getElem?_layout hv
  obtain ⟨tail, htail⟩ := h.split_at hb
  have hcounted : b.entriesInBlock.toNat = b.entries.length := h.counted b (List.mem_of_getElem? hb)
  have hrecord : header ++ p =
    (header ++ p.take 4 ++ blockBytes (bs.take i) ++ u32ToBe b.entriesInBlock ++
      entryBytes b.entries) ++ (b.signatureBytes ++ tail) := by
    conv_lhs => rw [← List.take_append_drop 4 p, htail]
    simp only [List.append_assoc]
  have hhashed : 8 + (blockBytes (bs.take i)).length + 4 + b.entriesInBlock.toNat * 8 =
      (header ++ p.take 4 ++ blockBytes (bs.take i) ++ u32ToBe b.entriesInBlock ++
        entryBytes b.entries).length := by
    simp only [List.length_append, hheader, List.length_take_of_le hlen, length_u32ToBe,
      length_entryBytes, hcounted]
  refine ⟨take_append_of_eq hrecord hhashed, ?_, ?_⟩
  · intro sig hsig
    dsimp only at hsig
    rw [drop_append_of_eq hrecord hhashed, RevocationSignatureBlock.signatureBytes, hsig]
    exact List.take_left' sig.length_toList
  · intro hstops
    have hnone : b.signature = none := Option.isNone_iff_eq_none.mp hstops
    exact ⟨hnone, h.last_of_unsigned hb hnone⟩

/-- The flat list is the blocks' entries. Over the record that was parsed, the walk comes to every
block: the bytes that it hashes are those in front of the block's signature, and it stops only
behind a last block without one. So the check ends with the outcome of its signatures. -/
theorem revocation_blocks_agree (header p : List UInt8)
    (x : List RevocationEntry × List RevocationSignatureBlock) (hheader : header.length = 4)
    (h : parseRevocationListWithBlocks p = .ok x) :
    x.1 = x.2.flatMap RevocationSignatureBlock.entries ∧
    ∃ visits, walk (header ++ p) x.2 4 = .ok visits ∧ visits.map Visit.block = x.2 ∧
      (∀ i v, visits[i]? = some v →
        (header ++ p).take v.hashed = header ++ p.take 4 ++ blockBytes (x.2.take i) ++
          u32ToBe v.block.entriesInBlock ++ entryBytes v.block.entries ∧
        (∀ sig, v.block.signature = some sig → ((header ++ p).drop v.hashed).take 40 = sig.toList) ∧
        (v.stops = true → v.block.signature = none ∧ i + 1 = x.2.length)) ∧
      ∀ (aacsLaPub : Point) (tvRaw : List UInt8) (verifiedAny : Bool),
        verifyBlocks aacsLaPub tvRaw (header ++ p) x.2 4 verifiedAny =
          visits.foldlM (checkVisit aacsLaPub tvRaw (header ++ p)) verifiedAny ∧
        ∀ what, verifyBlocks aacsLaPub tvRaw (header ++ p) x.2 4 verifiedAny ≠ .err
          (.truncated what) ∧
          ∀ (m : Mkb) (originalBytes : List UInt8) (tag : UInt8) (extent : Nat × Nat),
            findRecordExtent originalBytes tag = .ok (some extent) →
            (slice originalBytes extent.1 (extent.1 + extent.2) : Result (List UInt8)) = .ok
            (header ++ p) → m.verifyRevocationListSignatures originalBytes aacsLaPub tag x.2 ≠ .err
              (.truncated what) := by
  obtain ⟨_, hlen, h⟩ := bind_eq_ok.mp h
  obtain ⟨_, -, h⟩ := bind_eq_ok.mp h
  rw [refuseIf_eq_ok, Nat.not_lt] at hlen
  obtain ⟨hblocks, hentries⟩ := blocks_of_blockLoop h
  have hdrop : (header ++ p).drop (4 + 4) = p.drop 4 := by
    rw [← List.drop_drop, List.drop_left' hheader]
  have hwalk : walk (header ++ p) x.2 4 = .ok (layout 8 x.2) :=
    walk_eq_layout hblocks hdrop (by rw [List.length_append, hheader]; omega)
  refine ⟨hentries, layout 8 x.2, hwalk, map_block_layout 8 x.2, ?_, ?_⟩
  · intro i v hv
    exact hblocks.visit hheader hlen hv
  · intro aacsLaPub tvRaw verifiedAny
    have hcheck := fun tvRaw any => verifyBlocks_eq_foldlM aacsLaPub tvRaw hwalk any
    have hends : ∀ what tvRaw any, verifyBlocks aacsLaPub tvRaw (header ++ p) x.2 4 any ≠
        .err (.truncated what) := by
      intro what tvRaw any
      rw [hcheck]
      exact foldlM_checkVisit_ne_truncated aacsLaPub tvRaw _ _ any what
    apply And.intro (hcheck tvRaw verifiedAny)
    intro what
    apply And.intro (hends what tvRaw verifiedAny)
    intro m originalBytes tag extent hextent hrecord
    exact verifyRevocationListSignatures_ne_truncated hextent hrecord
      (by rw [List.length_append]; omega) (hends what m.typeAndVersionRaw false)

/-- A signed block with one entry, and an empty last block behind whose count one byte is left. -/
def tailBlocks : List RevocationSignatureBlock :=
  [⟨1, [⟨2, Bytes.zero 6⟩], some (Bytes.zero 40)⟩, ⟨0, [], none⟩]

def tailPayload : List UInt8 := [0, 0, 0, 1] ++ (blockBytes tailBlocks ++ [7])

theorem parse_tailPayload : parseRevocationListWithBlocks tailPayload =
    .ok (tailBlocks.flatMap RevocationSignatureBlock.entries, tailBlocks) := by
  have hlast : Blocks (RevocationSignatureBlock.bytes ⟨0, [], none⟩ ++ [7]) [⟨0, [], none⟩] :=
    .unsigned rfl rfl (by decide)
  have hblocks : Blocks (tailPayload.drop 4) tailBlocks := .signed rfl (by simp) hlast
  exact parseRevocationListWithBlocks_eq (by decide) hblocks

theorem revocation_blocks_agree_tail :
    ∃ visits, walk ([0x21, 0, 0, 65] ++ tailPayload) tailBlocks 4 = .ok visits ∧
      visits.map Visit.block = tailBlocks := by
  obtain ⟨-, visits, hwalk, hblocks, -⟩ :=
    revocation_blocks_agree [0x21, 0, 0, 65] _ _ rfl parse_tailPayload
  exact ⟨visits, hwalk, hblocks⟩

end Mkb
