/-!
# Cipher block chaining

Each block is combined with the ciphertext before it and then encrypted. The
blocks, the combination and the block functions are arbitrary: chaining is
undone wherever one block is.
-/
namespace Chaining

variable {B : Type} (xor : B → B → B)

/-- Chaining encryption; the first argument is the ciphertext before the blocks. -/
def encrypt (enc : B → B) : B → List B → List B
  | _, [] => []
  | prev, b :: bs => enc (xor b prev) :: encrypt enc (enc (xor b prev)) bs

def decrypt (dec : B → B) : B → List B → List B
  | _, [] => []
  | prev, c :: cs => xor (dec c) prev :: decrypt dec c cs

@[simp] theorem length_encrypt (enc : B → B) (prev : B) (bs : List B) :
    (encrypt xor enc prev bs).length = bs.length := by
  induction bs generalizing prev with
  | nil => rfl
  | cons b bs ih => rw [encrypt, List.length_cons, List.length_cons, ih]

@[simp] theorem length_decrypt (dec : B → B) (prev : B) (cs : List B) :
    (decrypt xor dec prev cs).length = cs.length := by
  induction cs generalizing prev with
  | nil => rfl
  | cons c cs ih => rw [decrypt, List.length_cons, List.length_cons, ih]

/-- A block is decrypted from its ciphertext and the ciphertext before it. -/
theorem getElem?_decrypt (dec : B → B) {iv c prev : B} {cs : List B} {i : Nat}
    (hc : cs[i]? = some c) (hprev : (iv :: cs)[i]? = some prev) :
    (decrypt xor dec iv cs)[i]? = some (xor (dec c) prev) := by
  induction cs generalizing iv i with
  | nil => cases hc
  | cons d cs ih =>
    cases i with
    | zero =>
      obtain rfl := Option.some.inj hc
      obtain rfl := Option.some.inj hprev
      rfl
    | succ i => exact ih hc hprev

variable {xor} (hxor : ∀ a b, xor (xor a b) b = a)
include hxor

theorem decrypt_encrypt {enc dec : B → B} (h : ∀ b, dec (enc b) = b) (iv : B) (bs : List B) :
    decrypt xor dec iv (encrypt xor enc iv bs) = bs := by
  induction bs generalizing iv with
  | nil => rfl
  | cons b bs ih => rw [encrypt, decrypt, h, hxor, ih]

theorem encrypt_decrypt {enc dec : B → B} (h : ∀ b, enc (dec b) = b) (iv : B) (cs : List B) :
    encrypt xor enc iv (decrypt xor dec iv cs) = cs := by
  induction cs generalizing iv with
  | nil => rfl
  | cons c cs ih => rw [decrypt, encrypt, hxor, h, ih]

end Chaining
