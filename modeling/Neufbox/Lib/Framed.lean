import Neufbox.Lib.Bytes

/-!
# Records with their length in front

`frame w r` is the record `r` behind its length in `w` bytes, lowest first, and `frames w rs` is a
sequence of records one behind the other.  As long as the lengths are below `256^w` (`Short w rs`),
the first record is found again: its length is read from the first `w` bytes (`decodeLE_take`), its
bytes are the next ones (`take_drop_frames_cons`), and the others follow (`drop_frames_cons`).
-/

namespace Neufbox.Framed

open Endian

variable {w : ℕ} {r : List UInt8} {rs : List (List UInt8)}

def frame (w : ℕ) (r : List UInt8) : List UInt8 := encodeLE w r.length ++ r

def frames (w : ℕ) (rs : List (List UInt8)) : List UInt8 := rs.flatMap (frame w)

/-- The length of every record can be written in `w` bytes. -/
def Short (w : ℕ) (rs : List (List UInt8)) : Prop := ∀ r ∈ rs, r.length < 256 ^ w

theorem length_frame (w : ℕ) (r : List UInt8) : (frame w r).length = w + r.length := by
  rw [frame, List.length_append, length_encodeLE]

theorem frames_nil (w : ℕ) : frames w [] = [] := rfl

theorem frames_cons (w : ℕ) (r : List UInt8) (rs : List (List UInt8)) :
    frames w (r :: rs) = frame w r ++ frames w rs := List.flatMap_cons

theorem frames_concat (w : ℕ) (rs : List (List UInt8)) (r : List UInt8) :
    frames w (rs ++ [r]) = frames w rs ++ frame w r := by
  rw [frames, List.flatMap_append, List.flatMap_singleton, ← frames]

theorem length_frames_cons (w : ℕ) (r : List UInt8) (rs : List (List UInt8)) :
    (frames w (r :: rs)).length = w + r.length + (frames w rs).length := by
  rw [frames_cons, List.length_append, length_frame]

theorem short_nil : Short w [] := fun _ h => nomatch h

theorem Short.tail (h : Short w (r :: rs)) : Short w rs :=
  fun r' hr' => h r' (List.mem_cons_of_mem r hr')

theorem short_concat : Short w (rs ++ [r]) ↔ Short w rs ∧ r.length < 256 ^ w := by
  simp only [Short, List.mem_append, List.mem_singleton, or_imp, forall_and, forall_eq]

/-! ### The first record -/

/-- The first field is the length of the first record. -/
theorem decodeLE_take (h : Short w (r :: rs)) :
    decodeLE ((frames w (r :: rs)).take w) = r.length := by
  have htake : (frames w (r :: rs)).take w = encodeLE w r.length := by
    rw [frames_cons, frame, List.append_assoc]
    exact List.take_left' (length_encodeLE w r.length)
  rw [htake]
  exact decodeLE_encodeLE w r.length (h r (List.mem_cons_self ..))

theorem take_drop_frames_cons (w : ℕ) (r : List UInt8) (rs : List (List UInt8)) :
    ((frames w (r :: rs)).drop w).take r.length = r := by
  rw [frames_cons, frame, List.append_assoc, List.drop_left' (length_encodeLE w r.length)]
  exact List.take_left

theorem drop_frames_cons (w : ℕ) (r : List UInt8) (rs : List (List UInt8)) :
    (frames w (r :: rs)).drop (r.length + w) = frames w rs := by
  rw [frames_cons]
  apply List.drop_left'
  rw [length_frame, Nat.add_comm]

end Neufbox.Framed
