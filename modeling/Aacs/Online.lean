import Aacs.AesInverse

/-!
# Permissions from the remote server

The message that grants an enhanced title: the title key, the player's nonce and the hash
of volume and title, added up and encrypted under the volume unique key.
-/

namespace Online

variable (aes : Aes128)

/-- `AES_H(Volume ID || title_id)`. -/
def titleBindingHash (volumeId : Bytes 16) (titleId : UInt32) : Bytes 16 :=
  Aes.aesH aes (volumeId.toList ++ u32ToBe titleId)

/-- `Kt XOR Nonce XOR AES_H(Volume ID || title_id)`. -/
def permissionPlaintext (kt nonce volumeId : Bytes 16) (titleId : UInt32) : Bytes 16 :=
  (kt.xor nonce).xor (titleBindingHash aes volumeId titleId)

/-- The server's side. -/
def enhancedTitleKeyMessage (kvu kt nonce volumeId : Bytes 16) (titleId : UInt32) : Bytes 16 :=
  aes.encrypt kvu (permissionPlaintext aes kt nonce volumeId titleId)

/-- The player's side. -/
def recoverEnhancedTitleKey (kvu message nonce volumeId : Bytes 16) (titleId : UInt32) : Bytes 16 :=
  ((aes.decrypt kvu message).xor nonce).xor (titleBindingHash aes volumeId titleId)

/-- The differences of all bytes, collected: no early exit. -/
def ctEq16 (a b : Bytes 16) : Bool :=
  (List.zipWith (· ^^^ ·) a.toList b.toList).foldl (· ||| ·) 0 == 0

/-- `setPermission`: the message recomputed and compared. -/
def verifyEnhancedPermission (kvu kt nonce volumeId : Bytes 16) (titleId : UInt32)
    (message : Bytes 16) : Bool :=
  ctEq16 (enhancedTitleKeyMessage aes kvu kt nonce volumeId titleId) message

variable {aes} {kvu kt nonce volumeId message : Bytes 16} {titleId : UInt32}

theorem or_eq_zero_iff (a b : UInt8) : a ||| b = 0 ↔ a = 0 ∧ b = 0 := by
  rw [← UInt8.toNat_inj, ← UInt8.toNat_inj, ← UInt8.toNat_inj, UInt8.toNat_or]
  exact Nat.or_eq_zero_iff

theorem foldl_or_eq_zero (bs : List UInt8) (acc : UInt8) :
    bs.foldl (· ||| ·) acc = 0 ↔ acc = 0 ∧ ∀ b ∈ bs, b = 0 := by
  induction bs generalizing acc with
  | nil => simp
  | cons b bs ih => rw [List.foldl_cons, ih, or_eq_zero_iff, List.forall_mem_cons, and_assoc]

theorem zipWith_xor_eq_zero {as bs : List UInt8} (h : as.length = bs.length) :
    (∀ x ∈ List.zipWith (· ^^^ ·) as bs, x = 0) ↔ as = bs := by
  induction as generalizing bs with
  | nil =>
    cases bs with
    | nil => simp
    | cons b bs => simp at h
  | cons a as ih =>
    cases bs with
    | nil => simp at h
    | cons b bs =>
      rw [List.zipWith_cons_cons, List.forall_mem_cons, ih (Nat.succ.inj h), UInt8.xor_eq_zero_iff,
        List.cons.injEq]

/-- The comparison without early exit is equality. -/
theorem ctEq16_iff (a b : Bytes 16) : ctEq16 a b = true ↔ a = b := by
  have hlen : a.toList.length = b.toList.length := by simp
  rw [ctEq16, beq_iff_eq, foldl_or_eq_zero, zipWith_xor_eq_zero hlen, Bytes.ext_iff]
  simp

theorem recover_message (haes : ∀ key data, aes.decrypt key (aes.encrypt key data) = data)
    (kvu kt nonce volumeId : Bytes 16) (titleId : UInt32) :
    recoverEnhancedTitleKey aes kvu (enhancedTitleKeyMessage aes kvu kt nonce volumeId titleId)
      nonce volumeId titleId = kt := by
  rw [recoverEnhancedTitleKey, enhancedTitleKeyMessage, haes, permissionPlaintext,
    Bytes.xor_right_comm _ _ nonce, Bytes.xor_xor, Bytes.xor_xor]

theorem message_recover (haes : ∀ key data, aes.encrypt key (aes.decrypt key data) = data)
    (kvu message nonce volumeId : Bytes 16) (titleId : UInt32) :
    enhancedTitleKeyMessage aes kvu (recoverEnhancedTitleKey aes kvu message nonce volumeId titleId)
      nonce volumeId titleId = message := by
  rw [enhancedTitleKeyMessage, permissionPlaintext, recoverEnhancedTitleKey,
    Bytes.xor_right_comm _ _ nonce, Bytes.xor_xor, Bytes.xor_xor, haes]

theorem verify_iff : verifyEnhancedPermission aes kvu kt nonce volumeId titleId message = true ↔
    enhancedTitleKeyMessage aes kvu kt nonce volumeId titleId = message := ctEq16_iff _ _

theorem encrypt_injective (haes : ∀ key data, aes.decrypt key (aes.encrypt key data) = data)
    (key : Bytes 16) :
    Function.Injective (aes.encrypt key) :=
  Function.LeftInverse.injective (haes key)

/-- Two messages for one title key agree when the nonce and the hash add up to the same. -/
theorem message_eq_iff (haes : ∀ key data, aes.decrypt key (aes.encrypt key data) = data)
    {nonce' volumeId' : Bytes 16} {titleId' : UInt32} :
    enhancedTitleKeyMessage aes kvu kt nonce volumeId titleId =
        enhancedTitleKeyMessage aes kvu kt nonce' volumeId' titleId' ↔
      nonce.xor (titleBindingHash aes volumeId titleId) = nonce'.xor
        (titleBindingHash aes volumeId' titleId') := by
  have hassoc (n h : Bytes 16) : (kt.xor n).xor h = (n.xor h).xor kt := by
    rw [Bytes.xor_comm kt, Bytes.xor_right_comm]
  rw [enhancedTitleKeyMessage, enhancedTitleKeyMessage, (encrypt_injective haes kvu).eq_iff,
    permissionPlaintext, permissionPlaintext, hassoc, hassoc, (Bytes.xor_left_injective kt).eq_iff]

/-- A message is accepted exactly when the title key recovered from it is the one held, which
is so of the server's message; and an accepted message is accepted for another nonce, volume
or title exactly when the nonce and the hash add up to the same, so for the same title never
under another nonce. -/
theorem permission_exact (aes : Aes128)
    (hdec : ∀ key data, aes.decrypt key (aes.encrypt key data) = data)
    (henc : ∀ key data, aes.encrypt key (aes.decrypt key data) = data)
    (kvu kt nonce volumeId : Bytes 16) (titleId : UInt32) (message : Bytes 16) :
    (verifyEnhancedPermission aes kvu kt nonce volumeId titleId message = true ↔
      recoverEnhancedTitleKey aes kvu message nonce volumeId titleId = kt) ∧
    verifyEnhancedPermission aes kvu kt nonce volumeId titleId
      (enhancedTitleKeyMessage aes kvu kt nonce volumeId titleId) = true ∧
    (verifyEnhancedPermission aes kvu kt nonce volumeId titleId message = true →
      ∀ nonce' volumeId' titleId',
        (verifyEnhancedPermission aes kvu kt nonce' volumeId' titleId' message = true ↔
        nonce'.xor (titleBindingHash aes volumeId' titleId') = nonce.xor
          (titleBindingHash aes volumeId titleId)) ∧
        (verifyEnhancedPermission aes kvu kt nonce' volumeId titleId message = true → nonce' =
          nonce)) := by
  have hbinds (haccept : verifyEnhancedPermission aes kvu kt nonce volumeId titleId message = true)
      (nonce' volumeId' : Bytes 16) (titleId' : UInt32) :
      verifyEnhancedPermission aes kvu kt nonce' volumeId' titleId' message = true ↔
        nonce'.xor (titleBindingHash aes volumeId' titleId') =
          nonce.xor (titleBindingHash aes volumeId titleId) := by
    rw [verify_iff, ← verify_iff.mp haccept, message_eq_iff hdec]
  refine ⟨?_, verify_iff.mpr rfl, fun haccept nonce' volumeId' titleId' =>
    ⟨hbinds haccept _ _ _, fun h => ?_⟩⟩
  · rw [verify_iff]
    constructor
    · rintro rfl
      exact recover_message hdec _ _ _ _ _
    · rintro rfl
      exact message_recover henc _ _ _ _ _
  · exact Bytes.xor_left_injective _ ((hbinds haccept nonce' volumeId titleId).mp h)

/-- The server's message for a nonce of zeros, under another nonce. -/
theorem permission_exact_fips197 :
    ¬verifyEnhancedPermission Aes128.fips197 (Bytes.zero 16) (Bytes.zero 16) Aes.rb
      (Bytes.zero 16) 7
      (enhancedTitleKeyMessage Aes128.fips197 (Bytes.zero 16) (Bytes.zero 16) (Bytes.zero 16)
        (Bytes.zero 16) 7) := by
  have hne : Aes.rb ≠ Bytes.zero 16 := by decide
  obtain ⟨-, haccept, hbinds⟩ := permission_exact Aes128.fips197 Aes128.decryptBlock_encryptBlock
    Aes128.encryptBlock_decryptBlock (Bytes.zero 16) (Bytes.zero 16) (Bytes.zero 16)
      (Bytes.zero 16) 7
    (enhancedTitleKeyMessage Aes128.fips197 (Bytes.zero 16) (Bytes.zero 16) (Bytes.zero 16)
      (Bytes.zero 16) 7)
  exact fun h => hne ((hbinds haccept Aes.rb (Bytes.zero 16) 7).2 h)

end Online
