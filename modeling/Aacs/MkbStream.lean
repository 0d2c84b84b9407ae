import Aacs.Mkb
import Aacs.RecordStream

/-!
# The walks over a media key block

The record loop of the parser and the search for a record read the same bytes on
their own. Both are functions of the split into records: the loop is a fold of
the arms, and the search finds the first record with the tag.
-/
namespace Mkb

open Record

abbrev MkbRecord := Record 3

section
variable (r : MkbRecord) (rest : List UInt8)

theorem index_record : (Outcome.index (r.bytes ++ rest) 0 : Result UInt8) = .ok r.tag := rfl

theorem indexU24_record : ∃ v, (Outcome.indexU24 (r.bytes ++ rest) 1 : Result UInt32) = .ok v ∧
    v.toNat = r.length := by
  refine ⟨_, rfl, ?_⟩
  have hbytes : beNat (beBytes 3 r.length) = r.length := by
    rw [beNat_beBytes]
    exact Nat.mod_eq_of_lt r.fits
  rw [u32FromBe_toNat, beNat_cons, UInt8.toNat_zero, Nat.zero_mul, Nat.zero_add]
  exact hbytes

theorem length_record : ¬(r.bytes ++ rest).length < 4 := by
  simp [length]
  omega

theorem slice_record_payload :
    (Outcome.slice (r.bytes ++ rest) 4 r.length : Result (List UInt8)) = .ok r.payload := by
  rw [Outcome.slice_of_le (by simp [length]) (by simp)]
  congr 1
  have hpayload : r.length - 4 = r.payload.length := by
    rw [length]
    omega
  rw [hpayload]
  exact List.take_left' rfl

theorem slice_record :
    (Outcome.slice (r.bytes ++ rest) 0 r.length : Result (List UInt8)) = .ok r.bytes := by
  rw [Outcome.slice_of_le (Nat.zero_le _) (by simp)]
  congr 1
  exact List.take_left' (by simp)

theorem drop_record : (r.bytes ++ rest).drop r.length = rest := List.drop_left' (by simp)

end

/-- A header that begins no complete record. -/
theorem header_of_none {bs : List UInt8} (h : next 3 bs = none) (hlen : ¬bs.length < 4) :
    ∃ tag v, (Outcome.index bs 0 : Result UInt8) = .ok tag ∧
      (Outcome.indexU24 bs 1 : Result UInt32) = .ok v ∧ (v.toNat < 4 ∨ v.toNat > bs.length) := by
  match bs, hlen with
  | [], hlen => simp at hlen
  | [_], hlen => simp at hlen
  | [_, _], hlen => simp at hlen
  | [_, _, _], hlen => simp at hlen
  | tag :: b₁ :: b₂ :: b₃ :: bs, _ =>
    refine ⟨tag, _, rfl, rfl, ?_⟩
    simp only [next, dite_eq_right_iff, reduceCtorEq, imp_false] at h
    rw [u32FromBe_toNat]
    have hvalue : beNat [0, b₁, b₂, b₃] = beNat [b₁, b₂, b₃] := by simp [beNat]
    rw [hvalue]
    simp at h
    simp
    omega

/-- One pass of the loop over a complete record. -/
def stepRecord (st : ParseState) (r : MkbRecord) : Result ParseState := do
  let out ← decodeRecord r.tag r.payload r.bytes st.out
  pure { out
         sawTypeRecordFirst := if st.firstRecord ∧ r.tag = tagTypeAndVersion then true
           else st.sawTypeRecordFirst
         firstRecord := false }

theorem parseLoop_record (r : MkbRecord) (rest : List UInt8) (st : ParseState) :
    parseLoop (r.bytes ++ rest) st = stepRecord st r >>= parseLoop rest := by
  obtain ⟨v, hv, hlen⟩ := indexU24_record r rest
  rw [parseLoop, if_neg (length_record r rest), index_record, hv]
  have hge : ¬r.length < 4 := by
    rw [length]
    omega
  have hle : ¬r.length > (r.bytes ++ rest).length := by simp
  simp only [Outcome.bind_ok, hlen, if_neg hge, dif_neg hle, slice_record_payload, slice_record,
    drop_record, stepRecord, bind_assoc, Outcome.pure_eq]

/-- The bytes after the last complete record change nothing. -/
theorem parseLoop_rest {bs : List UInt8} (h : next 3 bs = none) {st st' : ParseState}
    (hok : parseLoop bs st = .ok st') : st' = st := by
  rw [parseLoop] at hok
  by_cases hlen : bs.length < 4
  · rw [if_pos hlen] at hok
    exact (Outcome.ok.inj hok).symm
  obtain ⟨tag, v, htag, hv, hshort⟩ := header_of_none h hlen
  rw [if_neg hlen, htag, hv] at hok
  simp only [Outcome.bind_ok] at hok
  split at hok
  · split at hok
    · exact (Outcome.ok.inj hok).symm
    · cases hok
  · next hge =>
    rw [dif_pos (hshort.resolve_left hge)] at hok
    cases hok

/-- The loop folds its arms over the complete records. -/
theorem parseLoop_eq (bs : List UInt8) (st : ParseState) : parseLoop bs st =
    (split 3 bs).1.foldlM stepRecord st >>= parseLoop (split 3 bs).2 := by
  induction bs using stream_induction (w := 3) generalizing st with
  | rest bs h => rw [split_of_next_eq_none h, List.foldlM_nil, pure_bind]
  | record r bs ih =>
    rw [parseLoop_record, split_bytes_append, List.foldlM_cons, bind_assoc]
    exact bind_congr fun st' => ih st'

/-- Offset and length of the first record with a tag. -/
def firstExtent (tag : UInt8) (cursor : Nat) : List MkbRecord → Option (Nat × Nat)
  | [] => none
  | r :: rs => if r.tag = tag then some (cursor, r.length) else firstExtent tag
    (cursor + r.length) rs

theorem findRecord_eq (tag : UInt8) (cursor : Nat) (bs : List UInt8) :
    findRecord tag cursor bs = .ok (firstExtent tag cursor (split 3 bs).1) := by
  induction bs using stream_induction (w := 3) generalizing cursor with
  | rest bs h =>
    rw [split_of_next_eq_none h, findRecord]
    by_cases hlen : bs.length < 4
    · rw [if_pos hlen]
      rfl
    · obtain ⟨tag', v, htag, hv, hshort⟩ := header_of_none h hlen
      rw [if_neg hlen, htag, hv]
      simp only [Outcome.bind_ok]
      rw [dif_pos (hshort.imp_right id)]
      rfl
  | record r bs ih =>
    obtain ⟨v, hv, hlen⟩ := indexU24_record r bs
    have hfit : ¬(r.length < 4 ∨ r.length > (r.bytes ++ bs).length) := by
      simp [length]
    rw [findRecord, if_neg (length_record r bs), index_record, hv, split_bytes_append, firstExtent]
    simp only [Outcome.bind_ok, hlen, dif_neg hfit, drop_record]
    split
    · rfl
    · exact ih _

/-- The first record with a tag lies behind the records before it. -/
theorem firstExtent_append {tag : UInt8} {rs : List MkbRecord} (hrs : ∀ r ∈ rs, r.tag ≠ tag)
    {e : MkbRecord} (he : e.tag = tag) (cursor : Nat) (ss : List MkbRecord) :
    firstExtent tag cursor (rs ++ e :: ss) = some (cursor + (encode rs).length, e.length) := by
  induction rs generalizing cursor with
  | nil => simp [firstExtent, he]
  | cons r rs ih =>
    rw [List.cons_append, firstExtent, if_neg (hrs r List.mem_cons_self),
      ih (fun r' hr' => hrs r' (List.mem_cons_of_mem _ hr'))]
    simp [Nat.add_assoc]

/-- The first record with a tag. -/
def firstOf (tag : UInt8) (rs : List MkbRecord) : Option MkbRecord := rs.find? (·.tag = tag)

theorem firstExtent_of_none {tag : UInt8} {rs : List MkbRecord} (h : firstOf tag rs = none)
    (cursor : Nat) :
    firstExtent tag cursor rs = none := by
  induction rs generalizing cursor with
  | nil => rfl
  | cons r rs ih =>
    rw [firstOf, List.find?_eq_none] at h
    have hr : r.tag ≠ tag := by simpa using h r List.mem_cons_self
    rw [firstExtent, if_neg hr]
    exact ih (List.find?_eq_none.mpr fun r' hr' => h r' (List.mem_cons_of_mem _ hr')) _

/-- What the search finds in a byte string is the first record with the tag. -/
theorem findRecordExtent_eq (bs : List UInt8) (tag : UInt8) :
    (firstOf tag (split 3 bs).1 = none ∧ findRecordExtent bs tag = .ok none) ∨
    ∃ r e, firstOf tag (split 3 bs).1 = some r ∧ findRecordExtent bs tag = .ok (some e) ∧
      (Outcome.slice bs e.1 (e.1 + e.2) : Result (List UInt8)) = .ok r.bytes := by
  rw [findRecordExtent, findRecord_eq]
  cases h : firstOf tag (split 3 bs).1 with
  | none => exact .inl ⟨rfl, congrArg _ (firstExtent_of_none h 0)⟩
  | some r =>
    obtain ⟨htag, ps, ss, hsplit, hps⟩ := List.find?_eq_some_iff_append.mp h
    rw [hsplit, firstExtent_append (by simpa using hps) (by simpa using htag)]
    refine .inr ⟨r, _, rfl, rfl, ?_⟩
    have hbytes : bs = encode ps ++ (r.bytes ++ (encode ss ++ (split 3 bs).2)) := by
      rw [← List.append_assoc r.bytes, ← encode_cons, ← List.append_assoc, ← encode_append,
        ← hsplit, encode_split]
    rw [hbytes, Outcome.slice_of_le (by omega) (by simp)]
    congr 1
    rw [Nat.zero_add, Nat.add_sub_cancel_left, List.drop_left' rfl]
    exact List.take_left' (by simp)

end Mkb
