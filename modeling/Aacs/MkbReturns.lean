import Aacs.MkbStream
import Aacs.Usize

/-!
# The parser of a media key block returns

Each decoder reads inside its payload, and so the record loop ends with a block or
an error on every byte string, and so do the signature checks.
-/
namespace Mkb

open Outcome

theorem returns_parseTypeAndVersion (p : List UInt8) : Returns (parseTypeAndVersion p) := by
  apply Returns.refuseIf_bind
  intro h
  exact (returns_indexU32 (by omega)).bind fun _ _ => (returns_indexU32 (by omega)).bind fun _ _ =>
    returns_ok _

theorem returns_readEntries {n : Nat} {rest : List UInt8} (h : n * 8 ≤ rest.length) :
    Returns (readEntries n rest) := by
  induction n generalizing rest with
  | zero => exact returns_ok _
  | succ n ih =>
    have hrest : n * 8 ≤ (rest.drop 8).length := by
      rw [List.length_drop]
      omega
    exact (returns_indexU16 (by omega)).bind fun _ _ =>
      (returns_readArray (by omega)).bind fun _ _ =>
      (ih hrest).bind fun _ _ => returns_ok _

theorem returns_blockLoop (rest : List UInt8) : Returns (blockLoop rest) := by
  induction hn : rest.length using Nat.strong_induction_on generalizing rest with
  | _ n ih =>
    rw [blockLoop]
    split
    · exact returns_ok _
    split
    · exact returns_err _
    refine (returns_indexU32 (by omega)).bind fun count _ => Returns.refuseIf_bind fun hcount => ?_
    apply (returns_readEntries (Nat.le_of_not_lt hcount)).bind
    intro entries _
    dsimp only
    split
    · have hrest : (((rest.drop 4).drop (count.toNat * 8)).drop 40).length < n := by
        simp only [List.length_drop]
        omega
      exact (returns_readArray (by omega)).bind fun _ _ => (ih _ hrest _ rfl).bind fun _ _ =>
        returns_ok _
    · exact returns_ok _

theorem returns_parseRevocationListWithBlocks (p : List UInt8) :
    Returns (parseRevocationListWithBlocks p) := by
  apply Returns.refuseIf_bind
  intro h
  exact (returns_indexU32 (by omega)).bind fun _ _ => returns_blockLoop _

theorem returns_parseVerifyMediaKey (p : List UInt8) : Returns (parseVerifyMediaKey p) := by
  apply Returns.refuseIf_bind
  intro h
  exact returns_readArray (by omega)

theorem returns_parseExplicitSubdiff (p : List UInt8) : Returns (parseExplicitSubdiff p) := by
  induction p using parseExplicitSubdiff.induct with
  | case1 p h =>
    rw [parseExplicitSubdiff, dif_pos h]
    exact returns_ok _
  | case2 p h ih =>
    rw [parseExplicitSubdiff, dif_neg h]
    refine (returns_index (by omega)).bind fun uMask _ => ?_
    split
    · exact returns_ok _
    · exact (returns_indexU32 (by omega)).bind fun _ _ => ih.bind fun _ _ => returns_ok _

theorem returns_readOffsets (rest : List UInt8) : Returns (readOffsets rest) := by
  induction rest using readOffsets.induct with
  | case1 rest h =>
    rw [readOffsets, dif_pos h]
    exact returns_ok _
  | case2 rest h ih =>
    rw [readOffsets, dif_neg h]
    exact (returns_indexU24 (by omega)).bind fun _ _ => ih.bind fun _ _ => returns_ok _

theorem returns_parseSubdiffIndex (p : List UInt8) : Returns (parseSubdiffIndex p) := by
  apply Returns.refuseIf_bind
  intro h
  exact (returns_indexU32 (by omega)).bind fun _ _ => (returns_readOffsets _).bind fun _ _ =>
    returns_ok _

theorem returns_parseMediaKeyData (p : List UInt8) : Returns (parseMediaKeyData p) := by
  induction p using parseMediaKeyData.induct with
  | case1 p h =>
    rw [parseMediaKeyData, dif_pos h]
    exact returns_ok _
  | case2 p h ih =>
    rw [parseMediaKeyData, dif_neg h]
    exact (returns_readArray (by omega)).bind fun _ _ => ih.bind fun _ _ => returns_ok _

theorem returns_parseVariantNumber (p : List UInt8) : Returns (parseVariantNumber p) := by
  apply Returns.refuseIf_bind
  intro h
  exact (returns_readArray (by omega)).bind fun _ _ => (returns_sliceFrom (Nat.le_of_not_lt h)).bind
    fun _ _ => returns_ok _

theorem returns_endSignature (p : List UInt8) : Returns (endSignature p) := by
  rw [endSignature]
  split
  · exact (returns_readArray (by omega)).bind fun _ _ => returns_ok _
  · exact returns_ok _

theorem returns_decodeRecord (tag : UInt8) (payload record : List UInt8) (m : Mkb) :
    Returns (decodeRecord tag payload record m) := by
  have hrevocation := returns_parseRevocationListWithBlocks payload
  have hkeys := returns_parseMediaKeyData payload
  rw [decodeRecord]
  refine Returns.ite ((returns_parseTypeAndVersion payload).bind fun _ _ => returns_ok _) ?_
  refine Returns.ite (hrevocation.bind fun _ _ => returns_ok _) ?_
  refine Returns.ite (hrevocation.bind fun _ _ => returns_ok _) ?_
  refine Returns.ite ((returns_parseVerifyMediaKey payload).bind fun _ _ => returns_ok _) ?_
  refine Returns.ite ((returns_parseExplicitSubdiff payload).bind fun _ _ => returns_ok _) ?_
  refine Returns.ite ((returns_parseSubdiffIndex payload).bind fun _ _ => returns_ok _) ?_
  refine Returns.ite (hkeys.bind fun _ _ => returns_ok _) ?_
  refine Returns.ite (hkeys.bind fun _ _ => returns_ok _) ?_
  refine Returns.ite ((returns_parseVariantNumber payload).bind fun _ _ => returns_ok _) ?_
  exact Returns.ite ((returns_endSignature payload).bind fun _ _ => returns_ok _) (returns_ok _)

theorem returns_parseLoop (bs : List UInt8) (st : ParseState) : Returns (parseLoop bs st) := by
  induction bs using Record.stream_induction (w := 3) generalizing st with
  | rest bs h =>
    rw [parseLoop]
    split
    · exact returns_ok _
    next hlen =>
    obtain ⟨tag, v, htag, hv, hshort⟩ := header_of_none h hlen
    rw [htag, hv]
    simp only [bind_ok]
    split
    · split
      · exact returns_ok _
      · exact returns_err _
    · next hge =>
      rw [dif_pos (hshort.resolve_left hge)]
      exact returns_err _
  | record r bs ih =>
    rw [parseLoop_record]
    exact ((returns_decodeRecord _ _ _ _).bind fun _ _ => returns_ok _).bind fun _ _ => ih _

theorem returns_parse (bs : List UInt8) : Returns (parse bs) :=
  (returns_parseLoop bs _).bind fun _ _ => Returns.refuseIf_bind fun _ => returns_ok _

/-- The search ends, and what it finds is inside the byte string and has a header. -/
theorem findRecordExtent_spec (bs : List UInt8) (tag : UInt8) :
    ∃ o, findRecordExtent bs tag = .ok o ∧ ∀ e, o = some e → e.1 + e.2 ≤ bs.length ∧ 4 ≤ e.2 := by
  rcases findRecordExtent_eq bs tag with ⟨-, hnone⟩ | ⟨r, e, -, hsome, hslice⟩
  · exact ⟨none, hnone, fun e he => by cases he⟩
  · refine ⟨some e, hsome, fun e' he => ?_⟩
    obtain rfl := Option.some.inj he
    obtain ⟨-, hend, hbytes⟩ := slice_eq_ok.mp hslice
    have hlen := congrArg List.length hbytes
    rw [Record.length_bytes, Record.length, List.length_take, List.length_drop] at hlen
    exact ⟨hend, by omega⟩

theorem returns_verifyEndOfBlockSignature (mkb : Mkb) (bs : List UInt8) (aacsLaPub : Point) :
    Returns (mkb.verifyEndOfBlockSignature bs aacsLaPub) := by
  obtain ⟨o, ho, hbound⟩ := findRecordExtent_spec bs tagEndOfBlock
  refine (returns_okOr _ _).bind fun sig _ => Returns.bind ?_ fun signedLen hlen => ?_
  · rw [findEndOfBlockSignedPrefixLen, ← findRecordExtent, ho]
    exact (returns_okOr _ _).bind fun _ _ => returns_ok _
  · rw [findEndOfBlockSignedPrefixLen, ← findRecordExtent, ho, bind_ok] at hlen
    obtain ⟨e, he, hlen⟩ := bind_eq_ok.mp hlen
    obtain rfl := ok.inj hlen
    have hend := hbound e (okOr_eq_ok.mp he)
    exact (returns_slice (Nat.zero_le _) (by omega)).bind fun _ _ => returns_refuseIf _ _

theorem returns_verifyBlocks (aacsLaPub : Point) (raw rlRecord : List UInt8)
    (hrecord : 4 ≤ rlRecord.length)
    (blocks : List RevocationSignatureBlock) (cursor : Nat) (verifiedAny : Bool) :
    Returns (verifyBlocks aacsLaPub raw rlRecord blocks cursor verifiedAny) := by
  induction blocks generalizing cursor verifiedAny with
  | nil => exact returns_ok _
  | cons block blocks ih =>
    rw [verifyBlocks]
    apply Returns.refuseIf_bind
    intro _
    apply Returns.refuseIf_bind
    intro hfits
    cases block.signature with
    | none => exact Returns.ite (returns_ok _) (ih _ _)
    | some sig =>
      exact (returns_slice (Nat.zero_le _) (by omega)).bind fun _ _ =>
        Returns.refuseIf_bind fun _ => Returns.ite (returns_ok _) (ih _ _)

theorem returns_verifyRevocationListSignatures (mkb : Mkb) (bs : List UInt8) (aacsLaPub : Point)
    (tag : UInt8) (blocks : List RevocationSignatureBlock) :
    Returns (mkb.verifyRevocationListSignatures bs aacsLaPub tag blocks) := by
  obtain ⟨o, ho, hbound⟩ := findRecordExtent_spec bs tag
  apply Returns.refuseIf_bind
  intro _
  apply Returns.refuseIf_bind
  intro _
  rw [ho, bind_ok]
  apply (returns_okOr _ _).bind
  intro e he
  obtain ⟨hend, hheader⟩ := hbound e (okOr_eq_ok.mp he)
  refine (returns_slice (by omega) hend).bind fun rlRecord hrecord => ?_
  have hlen : 4 ≤ rlRecord.length := by
    obtain ⟨-, -, rfl⟩ := slice_eq_ok.mp hrecord
    rw [List.length_take, List.length_drop]
    omega
  exact (returns_sliceFrom hlen).bind fun _ _ => Returns.refuseIf_bind fun _ =>
    (returns_verifyBlocks _ _ _ hlen _ _ _).bind fun _ _ => returns_refuseIf _ _

end Mkb
