import Mathlib.Algebra.Order.Group.Nat
import Mathlib.Tactic.Common

/-!
# Fixed-width integers as bytes

`Endian.encode e k v` is the representation of the natural number `v` modulo `256^k` in `k` bytes,
in the byte order `e`, and `Endian.decode e` reads a list of bytes back.  They are inverse to each
other on numbers below `256^k` (`decode_encode`).

`overlay old new` is what a variable holds after the bytes `new` were stored over the beginning of
its representation `old`: all of `new` when it is a whole representation, a mixture otherwise.
-/

namespace Neufbox

/-- The byte order of a machine. -/
inductive Endian where
  | big
  | little
  deriving DecidableEq

namespace Endian

/-- The `k` low bytes of `v`, lowest first. -/
def encodeLE : ℕ → ℕ → List UInt8
  | 0, _ => []
  | k + 1, v => UInt8.ofNat v :: encodeLE k (v / 256)

/-- The number whose bytes, lowest first, are given. -/
def decodeLE : List UInt8 → ℕ
  | [] => 0
  | b :: bs => b.toNat + 256 * decodeLE bs

def encode : Endian → ℕ → ℕ → List UInt8
  | .little, k, v => encodeLE k v
  | .big, k, v => (encodeLE k v).reverse

def decode : Endian → List UInt8 → ℕ
  | .little, bs => decodeLE bs
  | .big, bs => decodeLE bs.reverse

theorem length_encodeLE (k v : ℕ) : (encodeLE k v).length = k := by
  induction k generalizing v with
  | zero => rfl
  | succ k ih => rw [encodeLE, List.length_cons, ih]

theorem decodeLE_encodeLE (k v : ℕ) (h : v < 256 ^ k) : decodeLE (encodeLE k v) = v := by
  induction k generalizing v with
  | zero =>
    rw [pow_zero] at h
    rw [encodeLE, decodeLE]
    omega
  | succ k ih =>
    rw [pow_succ] at h
    rw [encodeLE, decodeLE, ih (v / 256) (by omega), UInt8.toNat_ofNat']
    omega

theorem decodeLE_lt (bs : List UInt8) : decodeLE bs < 256 ^ bs.length := by
  induction bs with
  | nil => exact Nat.one_pos
  | cons b bs ih =>
    have hb : b.toNat < 256 := b.toNat_lt
    rw [decodeLE, List.length_cons, pow_succ]
    omega

theorem encodeLE_decodeLE (bs : List UInt8) : encodeLE bs.length (decodeLE bs) = bs := by
  induction bs with
  | nil => rfl
  | cons b bs ih =>
    have hb : b.toNat < 256 := b.toNat_lt
    have hlow : UInt8.ofNat (b.toNat + 256 * decodeLE bs) = b := by
      apply UInt8.toNat_inj.mp
      rw [UInt8.toNat_ofNat']
      omega
    have hhigh : (b.toNat + 256 * decodeLE bs) / 256 = decodeLE bs := by omega
    rw [decodeLE, List.length_cons, encodeLE, hlow, hhigh, ih]

/-- The bytes of a number, of which there are as many as it has. -/
theorem decodeLE_eq_iff {bs : List UInt8} {k v : ℕ} (hbs : bs.length = k) (hv : v < 256 ^ k) :
    decodeLE bs = v ↔ bs = encodeLE k v := by
  constructor
  · rintro rfl
    rw [← hbs, encodeLE_decodeLE]
  · rintro rfl
    exact decodeLE_encodeLE k v hv

@[simp] theorem length_encode (e : Endian) (k v : ℕ) : (e.encode k v).length = k := by
  cases e
  · rw [encode, List.length_reverse, length_encodeLE]
  · exact length_encodeLE k v

theorem decode_encode (e : Endian) {k v : ℕ} (h : v < 256 ^ k) : e.decode (e.encode k v) = v := by
  cases e
  · rw [encode, decode, List.reverse_reverse, decodeLE_encodeLE k v h]
  · exact decodeLE_encodeLE k v h

theorem encode_decode (e : Endian) {bs : List UInt8} {k : ℕ} (h : bs.length = k) :
    e.encode k (e.decode bs) = bs := by
  subst h
  cases e with
  | big =>
    have hreverse := encodeLE_decodeLE bs.reverse
    rw [List.length_reverse] at hreverse
    rw [encode, decode, hreverse, List.reverse_reverse]
  | little => exact encodeLE_decodeLE bs

end Endian

/-- The representation `old` after `new` was stored over its beginning. -/
def overlay (old new : List UInt8) : List UInt8 := new ++ old.drop new.length

theorem overlay_of_length_eq {old new : List UInt8} (h : new.length = old.length) :
    overlay old new = new := by
  rw [overlay, List.drop_eq_nil_of_le (by omega), List.append_nil]

theorem length_overlay {old new : List UInt8} (h : new.length ≤ old.length) :
    (overlay old new).length = old.length := by
  rw [overlay, List.length_append, List.length_drop]
  omega

end Neufbox
