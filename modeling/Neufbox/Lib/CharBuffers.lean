import Mathlib.Data.List.TakeWhile
import Mathlib.Tactic.Common

/-!
# Strings in buffers of a fixed size

A buffer of `n` characters.  `overwrite` stores characters into it from a position on, if they fit;
`cstr` is the string in it, up to the first NUL, if there is one.  `Holds b s` says that the buffer
has the string `s` and then nothing but NULs.  Such a buffer can be appended to (`Holds.append`); a
string stored over `s` leaves the rest of `s` behind if it is shorter (`Holds.store`).
-/

namespace Neufbox.CharBuffers

variable {n : ℕ}

@[ext] structure Buffer (n : ℕ) where
  chars : List Char
  length_chars : chars.length = n
  deriving DecidableEq

def nul : Char := '\x00'

def blank (n : ℕ) : Buffer n := ⟨List.replicate n nul, List.length_replicate⟩

/-- The characters stored from the position on, if they are inside the buffer. -/
def overwrite (b : Buffer n) (pos : ℕ) (new : List Char) : Option (Buffer n) :=
  if h : pos + new.length ≤ n then
    some ⟨b.chars.take pos ++ (new ++ b.chars.drop (pos + new.length)), by
      simp only [List.length_append, List.length_take, List.length_drop, b.length_chars]
      omega⟩
  else none

/-- The string in the buffer, if it ends there. -/
def cstr (b : Buffer n) : Option (List Char) :=
  if nul ∈ b.chars then some (b.chars.takeWhile (· ≠ nul)) else none

section

variable {b b' : Buffer n} {pos : ℕ} {new s : List Char}

theorem overwrite_eq_some :
    overwrite b pos new = some b' ↔
      pos + new.length ≤ n ∧
        b'.chars = b.chars.take pos ++ (new ++ b.chars.drop (pos + new.length)) := by
  unfold overwrite
  split_ifs with h
  · rw [Option.some_inj, eq_comm, Buffer.ext_iff]
    exact (and_iff_right h).symm
  · simp [h]

theorem exists_overwrite (b : Buffer n) (pos : ℕ) (new : List Char) (h : pos + new.length ≤ n) :
    ∃ b', overwrite b pos new = some b' ∧
      b'.chars = b.chars.take pos ++ (new ++ b.chars.drop (pos + new.length)) :=
  ⟨_, dif_pos h, rfl⟩

theorem overwrite_eq_none : overwrite b pos new = none ↔ n < pos + new.length := by
  unfold overwrite
  split_ifs with h
  · simp [h]
  · simpa using h

/-- A string followed by a NUL. -/
theorem cstr_eq_some (h : nul ∉ s) (rest : List Char) (hb : b.chars = s ++ nul :: rest) :
    cstr b = some s := by
  have hwhile : b.chars.takeWhile (· ≠ nul) = s := by
    rw [hb, List.takeWhile_append_of_pos (fun c hc => decide_eq_true (ne_of_mem_of_not_mem hc h)),
      List.takeWhile_cons_of_neg (by simp), List.append_nil]
  rw [cstr, if_pos (by simp [hb]), hwhile]

/-- The buffer has the string, and then NULs up to its end. -/
structure Holds (b : Buffer n) (s : List Char) : Prop where
  lt : s.length < n
  nul_notMem : nul ∉ s
  chars_eq : b.chars = s ++ List.replicate (n - s.length) nul

theorem holds_blank (h : 0 < n) : Holds (blank n) [] :=
  ⟨h, List.not_mem_nil, rfl⟩

theorem Holds.cstr_eq (h : Holds b s) : cstr b = some s := by
  have hsucc : n - s.length = n - s.length - 1 + 1 := by
    have := h.lt
    omega
  refine cstr_eq_some h.nul_notMem (List.replicate (n - s.length - 1) nul) ?_
  rw [h.chars_eq, hsucc, List.replicate_succ, Nat.add_sub_cancel]

theorem Holds.take_eq (h : Holds b s) : b.chars.take s.length = s := by
  rw [h.chars_eq, List.take_left]

theorem Holds.drop_eq (h : Holds b s) (pos : ℕ) :
    b.chars.drop pos = s.drop pos ++ List.replicate (n - max pos s.length) nul := by
  rw [h.chars_eq, List.drop_append, List.drop_replicate]
  congr 2
  omega

/-- A string is stored over the one in the buffer; of a longer one the rest stays. -/
theorem Holds.store (h : Holds b s) (hnew : nul ∉ new) (hlt : new.length < n) :
    ∃ b', overwrite b 0 new = some b' ∧ Holds b' (new ++ s.drop new.length) := by
  obtain ⟨b', hb', hchars⟩ := exists_overwrite b 0 new (by omega)
  have hs := h.lt
  refine ⟨b', hb', ?_, ?_, ?_⟩
  · rw [List.length_append, List.length_drop]
    omega
  · rw [List.mem_append, not_or]
    exact ⟨hnew, fun hmem => h.nul_notMem (List.mem_of_mem_drop hmem)⟩
  · rw [hchars, List.take_zero, List.nil_append, Nat.zero_add, h.drop_eq, List.append_assoc,
      List.length_append, List.length_drop]
    congr 3
    omega

/-- What is stored up to the end of the buffer, or past it, leaves no string. -/
theorem Holds.cstr_overwrite_of_le (h : Holds b s) (hnew : nul ∉ new) (hpos : pos ≤ s.length)
    (hle : n ≤ pos + new.length) : (overwrite b pos new).bind cstr = none := by
  cases hb : overwrite b pos new with
  | none => rfl
  | some b' =>
    obtain ⟨-, hchars⟩ := overwrite_eq_some.mp hb
    have htake : nul ∉ b.chars.take pos := by
      rw [h.chars_eq, List.take_append_of_le_length hpos]
      exact fun hmem => h.nul_notMem (List.mem_of_mem_take hmem)
    have hdrop : b.chars.drop (pos + new.length) = [] :=
      List.drop_of_length_le (b.length_chars.trans_le hle)
    have hnone : nul ∉ b'.chars := by
      rw [hchars, hdrop, List.append_nil, List.mem_append, not_or]
      exact ⟨htake, hnew⟩
    exact if_neg hnone

/-- Characters, and NULs after them, are appended to the string in the buffer. -/
theorem Holds.append (h : Holds b s) (hnew : nul ∉ new) {k : ℕ}
    (hlt : s.length + new.length < n) (hk : s.length + new.length + k ≤ n) :
    ∃ b', overwrite b s.length (new ++ List.replicate k nul) = some b' ∧ Holds b' (s ++ new) := by
  have hlength : (new ++ List.replicate k nul).length = new.length + k := by simp
  obtain ⟨b', hb', hchars⟩ :=
    exists_overwrite b s.length (new ++ List.replicate k nul) (by omega)
  refine ⟨b', hb', by rwa [List.length_append], ?_, ?_⟩
  · rw [List.mem_append, not_or]
    exact ⟨h.nul_notMem, hnew⟩
  · rw [hchars, h.take_eq, h.drop_eq, List.drop_of_length_le (by omega), List.nil_append,
      List.append_assoc, List.append_assoc, List.replicate_append_replicate, hlength,
      List.length_append]
    congr 3
    omega

end

end Neufbox.CharBuffers
