import Aacs.Bytes

/-!
# Reads behind a cursor

A decoder that moves a cursor through a byte string sees the bytes from the
cursor on. Each read takes what it decodes off their front, and the cursor moves
behind it.
-/

/-- The bytes from the cursor on are `tail`. -/
def Ahead (bs : List UInt8) (cursor : Nat) (tail : List UInt8) : Prop := bs.drop cursor = tail

namespace Ahead

variable {ε : Type} {bs pre tail : List UInt8} {cursor n : Nat}

theorem start (bs : List UInt8) : Ahead bs 0 bs := List.drop_zero

/-- The cursor moves over what it has read. -/
theorem step (h : Ahead bs cursor (pre ++ tail)) (hn : pre.length = n) :
    Ahead bs (cursor + n) tail := by
  rw [Ahead, ← List.drop_drop, h]
  exact List.drop_left' hn

theorem next {b : UInt8} (h : Ahead bs cursor (b :: tail)) : Ahead bs (cursor + 1) tail :=
  @step bs [b] tail cursor 1 h rfl

/-- What the cursor reads is inside the byte string. -/
theorem fits (h : Ahead bs cursor (pre ++ tail)) (hn : pre.length = n) (hpos : 0 < n) :
    cursor + n ≤ bs.length := by
  have hlen := congrArg List.length h
  rw [List.length_drop, List.length_append, hn] at hlen
  omega

theorem take (h : Ahead bs cursor (pre ++ tail)) (hn : pre.length = n) :
    (bs.drop cursor).take n = pre := by
  rw [h]
  exact List.take_left' hn

theorem index {b : UInt8} (h : Ahead bs cursor (b :: tail)) :
    (Outcome.index bs cursor : Outcome ε UInt8) = .ok b := by
  rw [Outcome.index_eq_ok, ← Nat.add_zero cursor, ← List.getElem?_drop, h]
  rfl

theorem indexU16 {v : UInt16} (h : Ahead bs cursor (u16ToBe v ++ tail)) :
    (Outcome.indexU16 bs cursor : Outcome ε UInt16) = .ok v :=
  Outcome.indexU16_eq_ok.mpr (h.take rfl)

theorem indexU32 {v : UInt32} (h : Ahead bs cursor (u32ToBe v ++ tail)) :
    (Outcome.indexU32 bs cursor : Outcome ε UInt32) = .ok v :=
  Outcome.indexU32_eq_ok.mpr (h.take rfl)

theorem readArray {a : Bytes n} (h : Ahead bs cursor (a.toList ++ tail)) (hpos : 0 < n) :
    (Outcome.readArray n bs cursor : Outcome ε (Bytes n)) = .ok a :=
  Outcome.readArray_eq_ok.mpr ⟨h.fits a.length_toList hpos, (h.take a.length_toList).symm⟩

theorem readArrays {as : List (Bytes n)} (h : Ahead bs cursor (as.flatMap Bytes.toList ++ tail))
    (hpos : 0 < n) :
    (Outcome.readArrays n as.length bs cursor : Outcome ε (List (Bytes n))) = .ok as := by
  induction as generalizing cursor with
  | nil => rfl
  | cons a as ih =>
    rw [List.flatMap_cons, List.append_assoc] at h
    rw [List.length_cons, Outcome.readArrays, h.readArray hpos, Outcome.bind_ok,
      ih (h.step a.length_toList)]
    rfl

end Ahead
