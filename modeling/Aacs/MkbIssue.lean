import Aacs.MkbWalk
import Aacs.MkbRevocation

/-!
# Issued Media Key Blocks

A block carries three kinds of signatures: those of the list of drives and of the list
of hosts, one behind each set of entries, and the one over all that stands before the End
record. A block is parsed whatever its signatures are; a check passes when all of its
signatures verify, and no two of them are over the same bytes.
-/
namespace Mkb

open Record Outcome

/-- The entries of a signature block, and the signature behind them. -/
abbrev SignedSet := List RevocationEntry × Ecdsa.Signature

/-- A block up to its signature. -/
def countedBytes (es : List RevocationEntry) : List UInt8 :=
  u32ToBe (UInt32.ofNat es.length) ++ entryBytes es

def signatureBlock (s : SignedSet) : RevocationSignatureBlock :=
  ⟨UInt32.ofNat s.1.length, s.1, some s.2⟩

def setBytes (sets : List SignedSet) : List UInt8 := blockBytes (sets.map signatureBlock)

/-- The blocks up to the signature of block `k`. -/
def signedBlocks : List SignedSet → Nat → List UInt8
  | [], _ => []
  | s :: _, 0 => countedBytes s.1
  | s :: sets, k + 1 => (signatureBlock s).bytes ++ signedBlocks sets k

section
variable {s : SignedSet} {sets : List SignedSet} {k : Nat}

theorem bytes_signatureBlock (s : SignedSet) :
    (signatureBlock s).bytes = countedBytes s.1 ++ s.2.toList := rfl

theorem length_countedBytes (es : List RevocationEntry) :
    (countedBytes es).length = 4 + es.length * 8 := by
  rw [countedBytes, List.length_append, length_u32ToBe, length_entryBytes]

theorem setBytes_cons (s : SignedSet) (sets : List SignedSet) :
    setBytes (s :: sets) = (signatureBlock s).bytes ++ setBytes sets := by
  rw [setBytes, List.map_cons, blockBytes_cons, ← setBytes]

theorem length_setBytes (sets : List SignedSet) :
    (setBytes sets).length = (sets.map fun s => 44 + s.1.length * 8).sum := by
  induction sets with
  | nil => rfl
  | cons s sets ih =>
    rw [setBytes_cons, List.length_append, ih, bytes_signatureBlock, List.length_append,
      length_countedBytes, s.2.length_toList, List.map_cons, List.sum_cons]
    omega

theorem blocks_setBytes (h : ∀ s ∈ sets, (signatureBlock s).Counted) :
    Blocks (setBytes sets) (sets.map signatureBlock) := by
  induction sets with
  | nil => exact .nil
  | cons s sets ih =>
    obtain ⟨hs, hsets⟩ := List.forall_mem_cons.mp h
    rw [setBytes_cons]
    exact .signed hs (by simp [signatureBlock]) (ih hsets)

/-- Behind what a signature is over stands the signature. -/
theorem signedBlocks_append (h : sets[k]? = some s) :
    ∃ rest, setBytes sets = signedBlocks sets k ++ (s.2.toList ++ rest) := by
  induction sets generalizing k with
  | nil => cases h
  | cons s' sets ih =>
    cases k with
    | zero =>
      obtain rfl := Option.some.inj h
      exact ⟨setBytes sets, by rw [setBytes_cons, signedBlocks, bytes_signatureBlock,
        List.append_assoc]⟩
    | succ k =>
      obtain ⟨rest, hrest⟩ := ih h
      exact ⟨rest, by rw [setBytes_cons, signedBlocks, hrest, List.append_assoc]⟩

theorem length_signedBlocks (h : sets[k]? = some s) : (signedBlocks sets k).length =
    (blockBytes ((sets.map signatureBlock).take k)).length + (4 + s.1.length * 8) := by
  induction sets generalizing k with
  | nil => cases h
  | cons s' sets ih =>
    cases k with
    | zero =>
      obtain rfl := Option.some.inj h
      rw [signedBlocks, length_countedBytes, List.take_zero, blockBytes_nil, List.length_nil,
        Nat.zero_add]
    | succ k =>
      rw [signedBlocks, List.length_append, ih h, List.map_cons, List.take_succ_cons,
        blockBytes_cons, List.length_append, Nat.add_assoc]

end

theorem Blocks.unique {p : List UInt8} {bs bs' : List RevocationSignatureBlock} (h : Blocks p bs)
    (h' : Blocks p bs') :
    bs = bs' :=
  (Prod.mk.inj (ok.inj ((blockLoop_eq h).symm.trans (blockLoop_eq h')))).2

theorem signatureBlock_injective : Function.Injective signatureBlock := by
  rintro ⟨es, sig⟩ ⟨es', sig'⟩ h
  injection h with _ hentries hsignature
  exact Prod.ext hentries (Option.some.inj hsignature)

theorem setBytes_inj {sets sets' : List SignedSet} (hsets : ∀ s ∈ sets, (signatureBlock s).Counted)
    (hsets' : ∀ s ∈ sets', (signatureBlock s).Counted) (h : setBytes sets = setBytes sets') :
    sets = sets' := by
  have hblocks := blocks_setBytes hsets
  rw [h] at hblocks
  exact List.map_injective_iff.mpr signatureBlock_injective
    (hblocks.unique (blocks_setBytes hsets'))

theorem bytes_append_inj {r r' : MkbRecord} {rest rest' : List UInt8}
    (h : r.bytes ++ rest = r'.bytes ++ rest') :
    r = r' ∧ rest = rest' := by
  have hnext := next_bytes_append r rest
  rw [h, next_bytes_append] at hnext
  obtain ⟨rfl, rfl⟩ := Prod.mk.inj (Option.some.inj hnext)
  exact ⟨rfl, rfl⟩

theorem encode_inj {rs rs' : List MkbRecord} (h : encode rs = encode rs') : rs = rs' := by
  have hsplit : ∀ rs : List MkbRecord, split 3 (encode rs) = (rs, []) := by
    intro rs
    have happend := split_encode_append rs []
    rwa [List.append_nil, split_nil, List.append_nil] at happend
  have hrs := hsplit rs
  rw [h, hsplit] at hrs
  exact (Prod.mk.inj hrs).1.symm

theorem eq_of_countedBytes {s s' : SignedSet} (hs : (signatureBlock s).Counted)
    (hs' : (signatureBlock s').Counted)
    {rest rest' : List UInt8} (h : countedBytes s.1 ++ rest = countedBytes s'.1 ++ rest') :
    s.1 = s'.1 ∧ rest = rest' := by
  have hcount : u32ToBe (signatureBlock s).entriesInBlock =
      u32ToBe (signatureBlock s').entriesInBlock := by
    rw [countedBytes, countedBytes, List.append_assoc, List.append_assoc] at h
    exact (List.append_inj h rfl).1
  have hlen : s.1.length = s'.1.length := by
    have hword := congrArg UInt32.toNat (u32ToBe_inj.mp hcount)
    rwa [hs, hs'] at hword
  obtain ⟨hbytes, hrest⟩ :=
    List.append_inj h (by rw [length_countedBytes, length_countedBytes, hlen])
  refine ⟨?_, hrest⟩
  obtain ⟨-, hentries⟩ := List.append_inj hbytes rfl
  have hread : readEntries s.1.length (entryBytes s.1) = .ok s.1 :=
    readEntries_eq_ok.mpr ⟨rfl, List.take_of_length_le (by simp)⟩
  rw [hlen, hentries, readEntries_eq_ok.mpr ⟨rfl, List.take_of_length_le (by simp)⟩] at hread
  exact (ok.inj hread).symm

/-- The count says where the entries end; there one list ends and the other has a signature. -/
theorem countedBytes_ne {s s' : SignedSet} (hs : (signatureBlock s).Counted)
    (hs' : (signatureBlock s').Counted)
    (rest : List UInt8) : countedBytes s.1 ≠ (signatureBlock s').bytes ++ rest := by
  intro h
  rw [bytes_signatureBlock, List.append_assoc, ← List.append_nil (countedBytes s.1)] at h
  have hlen := congrArg List.length (eq_of_countedBytes hs hs' h).2
  rw [List.length_nil, List.length_append, s'.2.length_toList] at hlen
  omega

/-- What one signature of a list is over, no other one is over. -/
theorem signedBlocks_inj {sets sets' : List SignedSet} {k k' : Nat}
    (hsets : ∀ s ∈ sets, (signatureBlock s).Counted)
    (hsets' : ∀ s ∈ sets', (signatureBlock s).Counted) (hk : k < sets.length)
    (hk' : k' < sets'.length) (h : signedBlocks sets k = signedBlocks sets' k') :
    k = k' ∧ (sets.take (k + 1)).map Prod.fst = (sets'.take (k + 1)).map Prod.fst := by
  induction sets generalizing k sets' k' with
  | nil => cases hk
  | cons s sets ih =>
    cases sets' with
    | nil => cases hk'
    | cons s' sets' =>
      obtain ⟨hs, htail⟩ := List.forall_mem_cons.mp hsets
      obtain ⟨hs', htail'⟩ := List.forall_mem_cons.mp hsets'
      cases k with
      | zero =>
        cases k' with
        | zero =>
          have hcounted : countedBytes s.1 ++ [] = countedBytes s'.1 ++ [] := congrArg (· ++ []) h
          obtain ⟨hentries, -⟩ := eq_of_countedBytes hs hs' hcounted
          exact ⟨rfl, by simp [hentries]⟩
        | succ k' => exact absurd h (countedBytes_ne hs hs' _)
      | succ k =>
        cases k' with
        | zero => exact absurd h.symm (countedBytes_ne hs' hs _)
        | succ k' =>
          rw [signedBlocks, signedBlocks, bytes_signatureBlock, bytes_signatureBlock,
            List.append_assoc, List.append_assoc] at h
          obtain ⟨hentries, hrest⟩ := eq_of_countedBytes hs hs' h
          obtain ⟨-, hblocks⟩ :=
            List.append_inj hrest (by rw [s.2.length_toList, s'.2.length_toList])
          obtain ⟨rfl, hsame⟩ :=
            ih htail htail' (Nat.lt_of_succ_lt_succ hk) (Nat.lt_of_succ_lt_succ hk') hblocks
          exact ⟨rfl, by rw [List.take_succ_cons, List.take_succ_cons, List.map_cons, List.map_cons,
            hentries, hsame]⟩

/-- A revocation list: the count at its head and its blocks. -/
structure SignedList where
  total : UInt32
  sets : List SignedSet
  sets_ne : sets ≠ []
  fits : 8 + (sets.map fun s => 44 + s.1.length * 8).sum < 256 ^ 3

namespace SignedList

variable (L : SignedList) (tag : UInt8)

def entries : List RevocationEntry := L.sets.flatMap Prod.fst

def payload : List UInt8 := u32ToBe L.total ++ setBytes L.sets

theorem length_payload : 1 + 3 + L.payload.length = 8 +
    (L.sets.map fun s => 44 + s.1.length * 8).sum := by
  rw [payload, List.length_append, length_u32ToBe, length_setBytes]
  omega

def record : MkbRecord := ⟨tag, L.payload, L.length_payload ▸ L.fits⟩

/-- The header of the record and the count. -/
def head : List UInt8 := tag :: beBytes 3 (L.record tag).length ++ u32ToBe L.total

theorem length_head : (L.head tag).length = 8 := by
  simp [head]

theorem bytes_record : (L.record tag).bytes = L.head tag ++ setBytes L.sets := by
  rw [Record.bytes, head, List.append_assoc]
  rfl

theorem counted : ∀ s ∈ L.sets, (signatureBlock s).Counted := by
  intro s hs
  have hmem := List.mem_map_of_mem hs (f := fun s => 44 + s.1.length * 8)
  have hle := List.single_le_sum (fun _ _ => Nat.zero_le _) _ hmem
  have hfits := L.fits
  have hlt : s.1.length < 2 ^ 32 := by omega
  exact UInt32.toNat_ofNat_of_lt' hlt

theorem blocks_payload : Blocks (L.payload.drop 4) (L.sets.map signatureBlock) := by
  have hdrop : L.payload.drop 4 = setBytes L.sets := List.drop_left' (length_u32ToBe _)
  rw [hdrop]
  exact blocks_setBytes L.counted

theorem four_le : 4 ≤ L.payload.length := by
  rw [payload, List.length_append, length_u32ToBe]
  exact Nat.le_add_right _ _

theorem flatMap_entries :
    (L.sets.map signatureBlock).flatMap RevocationSignatureBlock.entries = L.entries := by
  rw [List.flatMap_map]
  rfl

/-- The signature of block `k`, and what of the record it is over. -/
def part (k : Nat) : Option (Ecdsa.Signature × List UInt8) :=
  L.sets[k]?.map fun s => (s.2, L.head tag ++ signedBlocks L.sets k)

variable {L tag} {L' : SignedList} {tag' : UInt8}

theorem record_inj (h : L.record tag = L'.record tag') : L = L' := by
  have hpayload : L.payload = L'.payload := congrArg Record.payload h
  obtain ⟨htotal, hsets⟩ := List.append_inj hpayload rfl
  have htotal := u32ToBe_inj.mp htotal
  have hsets := setBytes_inj L.counted L'.counted hsets
  obtain ⟨total, sets, _, _⟩ := L
  obtain ⟨total', sets', _, _⟩ := L'
  obtain rfl : total = total' := htotal
  obtain rfl : sets = sets' := hsets
  rfl

theorem part_eq_some {k : Nat} {sig : Ecdsa.Signature} {signed : List UInt8}
    (h : L.part tag k = some (sig, signed)) :
    k < L.sets.length ∧ signed = L.head tag ++ signedBlocks L.sets k ∧
      ∃ rest, (L.record tag).bytes = signed ++ (sig.toList ++ rest) := by
  obtain ⟨s, hs, hsigned⟩ := Option.map_eq_some_iff.mp h
  obtain ⟨rfl, rfl⟩ := Prod.mk.inj hsigned
  obtain ⟨rest, hrest⟩ := signedBlocks_append hs
  exact ⟨(List.getElem?_eq_some_iff.mp hs).1, rfl,
    rest, by rw [bytes_record, hrest, List.append_assoc]⟩

/-- Two signatures of lists over the same bytes are of the same block of the same kind of list. -/
theorem part_inj {k k' : Nat} {sig sig' : Ecdsa.Signature} {signed : List UInt8}
    (h : L.part tag k = some (sig, signed)) (h' : L'.part tag' k' = some (sig', signed)) :
    tag = tag' ∧ k = k' ∧ (L.sets.take (k + 1)).map Prod.fst =
      (L'.sets.take (k + 1)).map Prod.fst := by
  obtain ⟨hk, rfl, -⟩ := part_eq_some h
  obtain ⟨hk', hsigned, -⟩ := part_eq_some h'
  obtain ⟨hhead, hblocks⟩ := List.append_inj hsigned (by rw [length_head, length_head])
  obtain ⟨rfl, hsame⟩ := signedBlocks_inj L.counted L'.counted hk hk' hblocks
  exact ⟨(List.cons.inj hhead).1, rfl, hsame⟩

/-- What a signature of a list is over breaks off inside a record. -/
theorem part_ne_encode {k : Nat} {sig : Ecdsa.Signature} {rs : List MkbRecord} :
    L.part tag k ≠ some (sig, encode rs) := by
  intro h
  obtain ⟨-, hsigned, rest, hrest⟩ := part_eq_some h
  cases rs with
  | nil =>
    have hlen := congrArg List.length hsigned
    rw [List.length_append, length_head, encode_nil, List.length_nil] at hlen
    omega
  | cons r rs =>
    rw [encode_cons, List.append_assoc, ← List.append_nil (L.record tag).bytes] at hrest
    have hlen := congrArg List.length (bytes_append_inj hrest).2
    rw [List.length_nil, List.length_append, List.length_append, sig.length_toList] at hlen
    omega

end SignedList

/-- A walk over signed blocks ends well when all their signatures verify. -/
theorem foldlM_checkVisit_eq_ok {aacsLaPub : Point} {tvRaw rlRecord : List UInt8}
    {visits : List Visit}
    (hsigned : ∀ v ∈ visits, v.block.signature ≠ none) {verifiedAny any : Bool} :
    visits.foldlM (checkVisit aacsLaPub tvRaw rlRecord) verifiedAny = .ok any ↔
      (∀ v ∈ visits, ∀ sig, v.block.signature = some sig →
        Ecdsa.verify aacsLaPub sig (tvRaw ++ rlRecord.take v.hashed) = true) ∧
      any = (verifiedAny || !visits.isEmpty) := by
  induction visits generalizing verifiedAny with
  | nil =>
    rw [List.foldlM_nil, pure_eq, ok.injEq, List.isEmpty_nil, Bool.not_true, Bool.or_false,
      @eq_comm _ any]
    simp
  | cons v visits ih =>
    obtain ⟨hv, hvisits⟩ := List.forall_mem_cons.mp hsigned
    obtain ⟨sig, hsig⟩ := Option.ne_none_iff_exists'.mp hv
    have hcheck : ∀ any', checkVisit aacsLaPub tvRaw rlRecord verifiedAny v = .ok any' ↔
        Ecdsa.verify aacsLaPub sig (tvRaw ++ rlRecord.take v.hashed) = true ∧ true = any' := by
      intro any'
      rw [checkVisit, hsig]
      simp only [bind_eq_ok, refuseIf_eq_ok, exists_const, Bool.not_eq_false, pure_eq, ok.injEq]
    simp only [List.foldlM_cons, bind_eq_ok, hcheck, ih hvisits, List.forall_mem_cons, hsig,
      Option.some.injEq, forall_eq']
    simp [and_assoc]

namespace SignedList

variable {L : SignedList} {tag : UInt8} {k : Nat} {sig : Ecdsa.Signature}

/-- The blocks of a list, where the walk over its record comes to them. -/
def visits (L : SignedList) : List Visit := layout (4 + 4) (L.sets.map signatureBlock)

theorem part_of_visit (tag : UInt8) {v : Visit} (h : L.visits[k]? = some v) :
    ∃ s, v.block = signatureBlock s ∧ L.part tag k = some
      (s.2, (L.record tag).bytes.take v.hashed) := by
  obtain ⟨b, hb, rfl⟩ := getElem?_layout h
  rw [List.getElem?_map, Option.map_eq_some_iff] at hb
  obtain ⟨s, hs, rfl⟩ := hb
  have hcount : (signatureBlock s).entriesInBlock.toNat = s.1.length :=
    L.counted s (List.mem_of_getElem? hs)
  obtain ⟨rest, hrest⟩ := signedBlocks_append hs
  have hlen := length_signedBlocks hs
  refine ⟨s, rfl, ?_⟩
  rw [part, hs, Option.map_some, bytes_record, hrest, ← List.append_assoc, hcount, List.take_left']
  rw [List.length_append, length_head, hlen]
  dsimp only
  omega

theorem visit_of_part {signed : List UInt8} (h : L.part tag k = some (sig, signed)) :
    ∃ v, L.visits[k]? = some v ∧ v.block.signature = some sig ∧ signed =
      (L.record tag).bytes.take v.hashed := by
  obtain ⟨hk, -⟩ := part_eq_some h
  have hlen := congrArg List.length (map_block_layout (4 + 4) (L.sets.map signatureBlock))
  rw [List.length_map, List.length_map] at hlen
  have hvisit := List.getElem?_eq_getElem (hlen.symm ▸ hk : k < L.visits.length)
  obtain ⟨s, hs, hpart⟩ := part_of_visit tag hvisit
  rw [h] at hpart
  obtain ⟨rfl, rfl⟩ := Prod.mk.inj (Option.some.inj hpart)
  exact ⟨_, hvisit, by rw [hs]; rfl, rfl⟩

/-- The check of a list steps over its blocks and verifies each signature over what stands before
it. -/
theorem verifyBlocks_iff {aacsLaPub : Point} {tvRaw : List UInt8} :
    verifyBlocks aacsLaPub tvRaw (L.record tag).bytes
      (L.sets.map signatureBlock) 4 false = .ok true ↔
      ∀ k sig signed, L.part tag k = some (sig, signed) → Ecdsa.verify aacsLaPub sig
        (tvRaw ++ signed) = true := by
  have hdrop : (L.record tag).bytes.drop (4 + 4) = setBytes L.sets := by
    rw [bytes_record]
    exact List.drop_left' (L.length_head tag)
  have hlen : 4 + 4 ≤ (L.record tag).bytes.length := by
    rw [bytes_record, List.length_append, length_head]
    exact Nat.le_add_right _ _
  have hsigned : ∀ v ∈ L.visits, v.block.signature ≠ none := by
    intro v hv
    obtain ⟨k, hk⟩ := List.mem_iff_getElem?.mp hv
    obtain ⟨s, hs, -⟩ := part_of_visit tag hk
    rw [hs]
    exact Option.some_ne_none _
  have hne : L.visits ≠ [] := by
    intro hnil
    have hmap := map_block_layout (4 + 4) (L.sets.map signatureBlock)
    rw [← visits, hnil, List.map_nil] at hmap
    exact L.sets_ne (List.map_eq_nil_iff.mp hmap.symm)
  rw [verifyBlocks_eq_foldlM aacsLaPub tvRaw
    (walk_eq_layout (blocks_setBytes L.counted) hdrop hlen), ← visits,
    foldlM_checkVisit_eq_ok hsigned, and_iff_left (by simp [hne])]
  constructor
  · intro h k sig signed hpart
    obtain ⟨v, hv, hsig, rfl⟩ := visit_of_part hpart
    exact h v (List.mem_of_getElem? hv) sig hsig
  · intro h v hv sig hsig
    obtain ⟨k, hk⟩ := List.mem_iff_getElem?.mp hv
    obtain ⟨s, hs, hpart⟩ := part_of_visit tag hk
    rw [hs] at hsig
    obtain rfl := Option.some.inj hsig
    exact h k _ _ hpart

end SignedList

/-- Whom a list bars. -/
inductive ListKind where
  | drives
  | hosts
  deriving DecidableEq

namespace ListKind

def tag : ListKind → UInt8
  | drives => tagDriveRevocationList
  | hosts => tagHostRevocationList

theorem tag_inj {kind kind' : ListKind} (h : kind.tag = kind'.tag) : kind = kind' := by
  revert h
  cases kind <;> cases kind' <;> decide

theorem tag_ne (kind : ListKind) : kind.tag ≠ tagTypeAndVersion ∧ kind.tag ≠ tagEndOfBlock := by
  cases kind <;> decide

end ListKind

/-- A block with one list of each kind, wherever its record stands behind the Type and Version
record. -/
structure Issued where
  typeAndVersion : MkbRecord
  list : ListKind → SignedList
  records : List MkbRecord
  signature : Ecdsa.Signature
  typeAndVersion_tag : typeAndVersion.tag = tagTypeAndVersion
  typeAndVersion_shaped : Shaped typeAndVersion.tag typeAndVersion.payload
  records_shaped : ∀ r ∈ records, Shaped r.tag r.payload
  records_tag : ∀ r ∈ records, r.tag ≠ tagTypeAndVersion ∧ r.tag ≠ tagEndOfBlock
  list_record : ∀ kind, records.filter (·.tag = kind.tag) = [(list kind).record kind.tag]

/-- The signatures of a block. -/
inductive Part where
  | block (kind : ListKind) (k : Nat)
  | all
  deriving DecidableEq

namespace Issued

variable (I : Issued)

def signedRecords : List MkbRecord := I.typeAndVersion :: I.records

/-- The block, with zeros behind it. -/
def bytes (n : Nat) : List UInt8 :=
  encode (I.signedRecords ++ [endRecord I.signature]) ++ List.replicate n 0

/-- A signature and what it is over. -/
def part : Part → Option (Ecdsa.Signature × List UInt8)
  | .block kind k => ((I.list kind).part kind.tag k).map fun x =>
    (x.1, I.typeAndVersion.bytes ++ x.2)
  | .all => some (I.signature, encode I.signedRecords)

def Verifies (aacsLaPub : Point) (p : Part) : Prop :=
  ∀ sig signed, I.part p = some (sig, signed) → Ecdsa.verify aacsLaPub sig signed = true

/-- What a signature stands for: the entries of a list up to it, or all the records. -/
def SaysSame (I' : Issued) : Part → Prop
  | .block kind k => ((I.list kind).sets.take (k + 1)).map Prod.fst =
    ((I'.list kind).sets.take (k + 1)).map Prod.fst
  | .all => I.records = I'.records ∧ ∀ kind, I.list kind = I'.list kind

variable {I} {I' : Issued} {sig sig' : Ecdsa.Signature} {signed : List UInt8}

theorem part_block {kind : ListKind} {k : Nat} : I.part (.block kind k) = some (sig, signed) ↔
    ∃ tail, (I.list kind).part kind.tag k = some (sig, tail) ∧ signed =
      I.typeAndVersion.bytes ++ tail := by
  rw [part, Option.map_eq_some_iff]
  constructor
  · rintro ⟨⟨_, tail⟩, hpart, heq⟩
    obtain ⟨rfl, rfl⟩ := Prod.mk.inj heq
    exact ⟨tail, hpart, rfl⟩
  · rintro ⟨tail, hpart, rfl⟩
    exact ⟨_, hpart, rfl⟩

theorem part_all : I.part .all = some (sig, signed) ↔
    sig = I.signature ∧ signed = I.typeAndVersion.bytes ++ encode I.records := by
  rw [part, signedRecords, encode_cons, Option.some.injEq, Prod.mk.injEq, @eq_comm _ sig,
    @eq_comm _ signed]

/-- Two signatures over the same bytes are the same part of two blocks of the same type and version,
and say the same. -/
theorem part_inj {p p' : Part} (h : I.part p = some (sig, signed))
    (h' : I'.part p' = some (sig', signed)) :
    p = p' ∧ I.typeAndVersion = I'.typeAndVersion ∧ I.SaysSame I' p := by
  cases p with
  | block kind k =>
    obtain ⟨tail, hpart, rfl⟩ := part_block.mp h
    cases p' with
    | block kind' k' =>
      obtain ⟨tail', hpart', hsigned⟩ := part_block.mp h'
      obtain ⟨htv, rfl⟩ := bytes_append_inj hsigned
      obtain ⟨htag, rfl, hsame⟩ := SignedList.part_inj hpart hpart'
      obtain rfl := ListKind.tag_inj htag
      exact ⟨rfl, htv, hsame⟩
    | all =>
      obtain ⟨-, rfl⟩ := bytes_append_inj (part_all.mp h').2
      exact absurd hpart SignedList.part_ne_encode
  | all =>
    obtain ⟨-, rfl⟩ := part_all.mp h
    cases p' with
    | block kind' k' =>
      obtain ⟨tail', hpart', hsigned⟩ := part_block.mp h'
      obtain ⟨-, rfl⟩ := bytes_append_inj hsigned
      exact absurd hpart' SignedList.part_ne_encode
    | all =>
      obtain ⟨htv, hencode⟩ := bytes_append_inj (part_all.mp h').2
      have hrecords := encode_inj hencode
      refine ⟨rfl, htv, hrecords, fun kind => ?_⟩
      have hlist := I.list_record kind
      rw [hrecords, I'.list_record kind] at hlist
      exact (SignedList.record_inj (List.singleton_inj.mp hlist)).symm

section
variable (I)

theorem shaped : ∀ r ∈ I.signedRecords ++ [endRecord I.signature], Shaped r.tag r.payload := by
  intro r hr
  rcases List.mem_append.mp hr with hr | hr
  · rcases List.mem_cons.mp hr with rfl | hr
    · exact I.typeAndVersion_shaped
    · exact I.records_shaped r hr
  · obtain rfl := List.mem_singleton.mp hr
    have hend : (endRecord I.signature).tag = tagEndOfBlock := rfl
    constructor <;> intro htag <;> rw [hend] at htag <;> exact absurd htag (by decide)

theorem signedRecords_tag : ∀ r ∈ I.signedRecords, r.tag ≠ tagEndOfBlock := by
  rw [signedRecords, List.forall_mem_cons, I.typeAndVersion_tag]
  exact ⟨by decide, fun r hr => (I.records_tag r hr).2⟩

theorem filter_list (kind : ListKind) :
    (I.signedRecords ++ [endRecord I.signature]).filter (·.tag = kind.tag) =
    [(I.list kind).record kind.tag] := by
  obtain ⟨htv, hend⟩ := kind.tag_ne
  have hfirst : I.typeAndVersion.tag ≠ kind.tag := I.typeAndVersion_tag ▸ htv.symm
  have hlast : (endRecord I.signature).tag ≠ kind.tag := hend.symm
  rw [List.filter_append, signedRecords, List.filter_cons_of_neg (by simp [hfirst]),
    List.filter_cons_of_neg (by simp [hlast]), List.filter_nil, List.append_nil, I.list_record]

theorem filter_typeAndVersion :
    (I.signedRecords ++ [endRecord I.signature]).filter (·.tag = tagTypeAndVersion) =
    [I.typeAndVersion] := by
  have hrecords : I.records.filter (·.tag = tagTypeAndVersion) = [] := by
    simpa using fun r hr => (I.records_tag r hr).1
  have hlast : (endRecord I.signature).tag ≠ tagTypeAndVersion :=
    (by decide : tagEndOfBlock ≠ tagTypeAndVersion)
  rw [List.filter_append, signedRecords,
    List.filter_cons_of_pos (by simp [I.typeAndVersion_tag]), hrecords, List.filter_cons_of_neg
      (by simp [hlast]), List.filter_nil, List.append_nil]

theorem lastOf_endOfBlock :
    lastOf tagEndOfBlock (I.signedRecords ++ [endRecord I.signature]) = some
      (endRecord I.signature) := by
  have hlast : (endRecord I.signature).tag = tagEndOfBlock := rfl
  rw [lastOf_append_singleton, if_pos hlast]

end

/-- The blocks that the parser reads are those of the list. -/
theorem blocks_list (I : Issued) (kind : ListKind) {bs : List RevocationSignatureBlock}
    (h : Blocks
      (((lastPayload kind.tag (I.signedRecords ++ [endRecord I.signature])).getD []).drop 4) bs) :
    bs = (I.list kind).sets.map signatureBlock := by
  rw [lastPayload, lastOf, I.filter_list kind] at h
  exact h.unique (I.list kind).blocks_payload

/-- The check of a list finds its record, and verifies the signatures of its blocks. -/
theorem verifyList_iff {m : Mkb} (kind : ListKind) (n : Nat) {aacsLaPub : Point}
    (htv : m.typeAndVersionRaw = I.typeAndVersion.bytes) :
    m.verifyRevocationListSignatures (I.bytes n) aacsLaPub kind.tag
      ((I.list kind).sets.map signatureBlock) = .ok () ↔
      ∀ k, I.Verifies aacsLaPub (.block kind k) := by
  have hfirst : firstOf kind.tag (split 3 (I.bytes n)).1 =
      some ((I.list kind).record kind.tag) := by
    rw [bytes, split_encode_append, firstOf, ← List.head?_filter, List.filter_append,
      I.filter_list kind]
    rfl
  have hlen : 8 ≤ ((I.list kind).record kind.tag).length := by
    have hfour : 4 ≤ ((I.list kind).record kind.tag).payload.length := (I.list kind).four_le
    rw [Record.length]
    omega
  have hne : (I.list kind).sets.map signatureBlock ≠ [] :=
    fun hnil => (I.list kind).sets_ne (List.map_eq_nil_iff.mp hnil)
  have htvne : I.typeAndVersion.bytes ≠ [] := by simp [Record.bytes]
  simp only [verifyRevocationListSignatures_iff, htv, hfirst, Option.some.injEq, exists_eq_left',
    hne, htvne, hlen, SignedList.verifyBlocks_iff, ne_eq, not_false_eq_true, true_and]
  constructor
  · intro h k sig signed hpart
    obtain ⟨tail, htail, rfl⟩ := part_block.mp hpart
    exact h k sig tail htail
  · intro h k sig tail htail
    exact h k sig _ (part_block.mpr ⟨tail, htail, rfl⟩)

/-- An issued block is parsed and holds its lists. Each of the three checks passes exactly when its
signatures verify, and no signature of an issued block can stand for anything else in another. -/
theorem signatures_exact (I : Issued) (n : Nat) (aacsLaPub : Point) :
    (∃ m, parse (I.bytes n) = .ok m ∧ m.driveRevocationList = (I.list .drives).entries ∧
      m.hostRevocationList = (I.list .hosts).entries ∧
      (m.verifyDriveRevocationList (I.bytes n) aacsLaPub = .ok () ↔ ∀ k,
        I.Verifies aacsLaPub (.block .drives k)) ∧
      (m.verifyHostRevocationList (I.bytes n) aacsLaPub = .ok () ↔ ∀ k,
        I.Verifies aacsLaPub (.block .hosts k)) ∧
      (m.verifyEndOfBlockSignature (I.bytes n) aacsLaPub = .ok () ↔ I.Verifies aacsLaPub .all)) ∧
    ∀ (I' : Issued) (p p' : Part) (sig sig' : Ecdsa.Signature) (signed : List UInt8),
      I.part p = some (sig, signed) → I'.part p' = some (sig', signed) →
      p = p' ∧ I.typeAndVersion = I'.typeAndVersion ∧ I.SaysSame I' p := by
  refine ⟨?_, fun I' p p' sig sig' signed => part_inj⟩
  have hfirst : (I.signedRecords ++ [endRecord I.signature]).head?.map Record.tag =
      some tagTypeAndVersion :=
    congrArg some I.typeAndVersion_tag
  obtain ⟨m, hm, hdecodes⟩ := parse_shaped n hfirst I.shaped
  have hholds := hdecodes.holds hfirst I.shaped
  have hdrives := I.blocks_list .drives hholds.driveRevocationBlocks
  have hhosts := I.blocks_list .hosts hholds.hostRevocationBlocks
  have htv : m.typeAndVersionRaw = I.typeAndVersion.bytes := by
    obtain ⟨r, hr, -, -, hraw⟩ := hholds.typeAndVersion
    rw [lastOf, I.filter_typeAndVersion] at hr
    obtain rfl := Option.some.inj hr
    exact hraw
  have hsig : m.endOfBlockSignature = some I.signature := by
    rw [hholds.endOfBlockSignature, lastPayload, I.lastOf_endOfBlock]
    exact dif_pos I.signature.length_toList
  refine ⟨m, hm, ?_, ?_, ?_, ?_, ?_⟩
  · rw [hholds.driveRevocationList, hdrives, SignedList.flatMap_entries]
  · rw [hholds.hostRevocationList, hhosts, SignedList.flatMap_entries]
  · rw [verifyDriveRevocationList, hdrives]
    exact verifyList_iff .drives n htv
  · rw [verifyHostRevocationList, hhosts]
    exact verifyList_iff .hosts n htv
  · rw [bytes, verifyEndOfBlockSignature_iff I.signedRecords_tag rfl, hsig]
    constructor
    · rintro ⟨sig, heq, hverify⟩ sig' signed hpart
      obtain rfl := Option.some.inj heq
      obtain ⟨rfl, rfl⟩ := Prod.mk.inj (Option.some.inj hpart)
      exact hverify
    · intro h
      exact ⟨_, rfl, h _ _ rfl⟩

/-- One entry in each list. -/
def oneEntry : SignedList where
  total := 1
  sets := [([⟨0, Bytes.zero 6⟩], Bytes.zero 40)]
  sets_ne := List.cons_ne_nil _ _
  fits := by decide

theorem shaped_record (L : SignedList) (kind : ListKind) :
    Shaped (L.record kind.tag).tag (L.record kind.tag).payload := by
  constructor
  · intro htag
    exact absurd htag kind.tag_ne.1
  · intro
    exact ⟨L.four_le, _, L.blocks_payload⟩
  all_goals
    intro htag
    change kind.tag = _ at htag
    cases kind <;> exact absurd htag (by decide)

def oneEach : Issued where
  typeAndVersion := tvRecord
  list _ := oneEntry
  records := [oneEntry.record tagDriveRevocationList, oneEntry.record tagHostRevocationList]
  signature := Bytes.zero 40
  typeAndVersion_tag := rfl
  typeAndVersion_shaped := by
    constructor <;> intro htag
    · decide
    all_goals exact absurd htag (by decide)
  records_shaped := by
    simp only [List.forall_mem_cons, List.not_mem_nil, false_implies, implies_true, and_true]
    exact ⟨shaped_record oneEntry .drives, shaped_record oneEntry .hosts⟩
  records_tag := by
    simp only [List.forall_mem_cons, List.not_mem_nil, false_implies, implies_true, and_true]
    decide
  list_record kind := by
    cases kind <;> rfl

theorem signatures_exact_oneEach :
    (∃ m, parse (oneEach.bytes 0) = .ok m ∧ m.driveRevocationList = (oneEach.list .drives).entries ∧
      m.hostRevocationList = (oneEach.list .hosts).entries ∧
      (m.verifyDriveRevocationList (oneEach.bytes 0) (Ecdsa.publicKey U160.one) = .ok () ↔
        ∀ k, oneEach.Verifies (Ecdsa.publicKey U160.one) (.block .drives k)) ∧
      (m.verifyHostRevocationList (oneEach.bytes 0) (Ecdsa.publicKey U160.one) = .ok () ↔
        ∀ k, oneEach.Verifies (Ecdsa.publicKey U160.one) (.block .hosts k)) ∧
      (m.verifyEndOfBlockSignature (oneEach.bytes 0) (Ecdsa.publicKey U160.one) = .ok () ↔
        oneEach.Verifies (Ecdsa.publicKey U160.one) .all)) ∧
    ∀ (I' : Issued) (p p' : Part) (sig sig' : Ecdsa.Signature) (signed : List UInt8),
      oneEach.part p = some (sig, signed) → I'.part p' = some (sig', signed) →
      p = p' ∧ oneEach.typeAndVersion = I'.typeAndVersion ∧ oneEach.SaysSame I' p :=
  signatures_exact oneEach 0 (Ecdsa.publicKey U160.one)

end Issued

end Mkb
