import Mathlib.Data.List.Basic
import Mathlib.Tactic.Common

/-!
# Cipher block chaining

A cipher on blocks, with a key, and its use on a sequence of blocks: each block is combined with the
encrypted one before it, the first one with an initial vector, and encrypted.  `uncbc` undoes `cbc`
(`uncbc_cbc`), whatever the blocks are, if combining twice with the same block changes nothing.
-/

namespace Neufbox.Cbc

/-- A block cipher: decryption inverts encryption. -/
structure Cipher (K B : Type*) where
  enc : K → B → B
  dec : K → B → B
  dec_enc : ∀ k b, dec k (enc k b) = b

variable {K B : Type*} [XorOp B] (aes : Cipher K B) (k : K)

/-- One block: what it is encrypted to is also the next vector. -/
def crypt (iv b : B) : B := aes.enc k (b ^^^ iv)

def cbc : B → List B → List B
  | _, [] => []
  | iv, b :: bs => crypt aes k iv b :: cbc (crypt aes k iv b) bs

def uncbc : B → List B → List B
  | _, [] => []
  | iv, c :: cs => (aes.dec k c ^^^ iv) :: uncbc c cs

@[simp] theorem length_cbc (iv : B) (bs : List B) : (cbc aes k iv bs).length = bs.length := by
  induction bs generalizing iv with
  | nil => rfl
  | cons b bs ih => rw [cbc, List.length_cons, ih, List.length_cons]

theorem cbc_concat (iv : B) (bs : List B) (b : B) :
    cbc aes k iv (bs ++ [b])
      = cbc aes k iv bs ++ [crypt aes k ((cbc aes k iv bs).getLast?.getD iv) b] := by
  induction bs generalizing iv with
  | nil => rfl
  | cons b' bs ih =>
    rw [List.cons_append, cbc, ih, cbc, List.cons_append, List.getLast?_cons, Option.getD_some]

/-- **Decryption** of a chain. -/
theorem uncbc_cbc (hxor : ∀ x v : B, x ^^^ v ^^^ v = x) (iv : B) (bs : List B) :
    uncbc aes k iv (cbc aes k iv bs) = bs := by
  induction bs generalizing iv with
  | nil => rfl
  | cons b bs ih => rw [cbc, uncbc, ih, crypt, aes.dec_enc, hxor]

end Neufbox.Cbc
