import Aacs.MkbContent

/-!
# What the revocation list signatures cover

The parser keeps the last revocation list record of a tag. The check of its
signatures looks the record up again, takes the first one of the tag, and steps
over it with the counts of the blocks already parsed. The entries exposed are
the ones checked when both records agree where signed entries lie.
-/
namespace Mkb

open Record

section
variable {aacsLaPub : Point} {tvRaw rlRecord : List UInt8} {block : RevocationSignatureBlock}
  {blocks : List RevocationSignatureBlock} {cursor : Nat} {any v : Bool}

end

/-- The check passes when the walk over the first record of the tag verifies some block. -/
theorem verifyRevocationListSignatures_iff {m : Mkb} {bytes : List UInt8} {aacsLaPub : Point}
    {tag : UInt8} {blocks : List RevocationSignatureBlock} :
    m.verifyRevocationListSignatures bytes aacsLaPub tag blocks = .ok () ↔
      blocks ≠ [] ∧ m.typeAndVersionRaw ≠ [] ∧ ∃ r, firstOf tag (split 3 bytes).1 = some r ∧
        8 ≤ r.length ∧
        verifyBlocks aacsLaPub m.typeAndVersionRaw r.bytes blocks 4 false = .ok true := by
  simp only [verifyRevocationListSignatures, Outcome.bind_eq_ok, Outcome.refuseIf_eq_ok,
    exists_const]
  apply and_congr_right
  intro _
  apply and_congr_right
  intro _
  rcases findRecordExtent_eq bytes tag with ⟨hfirst, hfind⟩ | ⟨r, e, hfirst, hfind, hslice⟩
  · simp [hfirst, hfind]
  · have hlen : 4 ≤ r.bytes.length := by
      rw [length_bytes, length]
      omega
    have hfour : (r.bytes.drop 4).length < 4 ↔ ¬8 ≤ r.length := by
      rw [List.length_drop, length_bytes]
      omega
    simp only [hfirst, hfind, hslice, Outcome.ok.injEq, Option.some.injEq, exists_eq_left',
      Outcome.okOr_some, Outcome.sliceFrom_of_le hlen, hfour, not_not, Bool.not_eq_false]
    simp

end Mkb
