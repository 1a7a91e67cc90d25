import Mathlib.Data.List.Basic
import Mathlib.Tactic.Common

/-!
# Blocking reads from a byte stream

A stream is the list of what successive `read` calls will find on a descriptor: a chunk of bytes,
an interruption by a signal, or a failure.  A chunk longer than what a call asks for stays for the
next one.  When the list is used up the peer has closed the stream, and every further call returns
no byte.

* `safeRead` is one read, repeated while it is interrupted;
* `fullRead` repeats `safeRead` until it has all the bytes asked for (`fullRead_eq_safeRead`).

`delivered s` are the bytes that arrive before the first failure, however they are cut into
chunks; `fullRead_of_le` and `fullRead_of_lt` say what `fullRead` makes of them.
-/

namespace Neufbox.ByteStream

/-- What a `read` call finds.  A chunk is never empty: an empty read means end of file. -/
inductive Arrival where
  | data (head : UInt8) (tail : List UInt8)
  | intr
  | fail
  deriving DecidableEq

/-- What a read gives: whether it failed, the bytes it stored and the stream after it. -/
structure ReadOut where
  failed : Bool
  bytes : List UInt8
  rest : List Arrival

/-- The outcome of a read that had stored `bytes` before. -/
def ReadOut.after (bytes : List UInt8) (r : ReadOut) : ReadOut :=
  { r with bytes := bytes ++ r.bytes }

/-- Put the unread end of a chunk back. -/
def unread (bytes : List UInt8) (s : List Arrival) : List Arrival :=
  match bytes with
  | [] => s
  | b :: bs => .data b bs :: s

/-- One read of at most `n` bytes, repeated while it is interrupted. -/
def safeRead (n : ℕ) : List Arrival → ReadOut
  | [] => ⟨false, [], []⟩
  | .intr :: s => safeRead n s
  | .fail :: s => ⟨true, [], s⟩
  | .data b bs :: s => ⟨false, (b :: bs).take n, unread ((b :: bs).drop n) s⟩

/-- Reads until `n` bytes are there, the stream ends or a read fails. -/
def fullRead (n : ℕ) : List Arrival → ReadOut
  | [] => ⟨false, [], []⟩
  | .intr :: s => if n = 0 then ⟨false, [], .intr :: s⟩ else fullRead n s
  | .fail :: s => if n = 0 then ⟨false, [], .fail :: s⟩ else ⟨true, [], s⟩
  | .data b bs :: s =>
    if n ≤ bs.length + 1 then ⟨false, (b :: bs).take n, unread ((b :: bs).drop n) s⟩
    else (fullRead (n - (bs.length + 1)) s).after (b :: bs)

/-- The bytes that arrive before the first failure. -/
def delivered : List Arrival → List UInt8
  | [] => []
  | .intr :: s => delivered s
  | .fail :: _ => []
  | .data b bs :: s => b :: bs ++ delivered s

/-- The stream ends with a failure, not by being closed. -/
def fails : List Arrival → Bool
  | [] => false
  | .intr :: s => fails s
  | .fail :: _ => true
  | .data _ _ :: s => fails s

theorem delivered_unread (bytes : List UInt8) (s : List Arrival) :
    delivered (unread bytes s) = bytes ++ delivered s := by
  cases bytes <;> rfl

theorem fails_unread (bytes : List UInt8) (s : List Arrival) :
    fails (unread bytes s) = fails s := by
  cases bytes <;> rfl

theorem fullRead_zero (s : List Arrival) : fullRead 0 s = ⟨false, [], s⟩ := by
  rcases s with - | ⟨b, bs⟩ | - | - <;> rfl

/-- The bytes of a stream that delivers enough: `fullRead` takes exactly `n` of them and leaves
the others, whatever the chunks are. -/
theorem fullRead_of_le {n : ℕ} {s : List Arrival} (h : n ≤ (delivered s).length) :
    (fullRead n s).failed = false ∧ (fullRead n s).bytes = (delivered s).take n ∧
      delivered (fullRead n s).rest = (delivered s).drop n ∧
      fails (fullRead n s).rest = fails s := by
  induction s generalizing n with
  | nil =>
    obtain rfl : n = 0 := by simpa [delivered] using h
    exact ⟨rfl, rfl, rfl, rfl⟩
  | cons a s ih =>
    rcases Nat.eq_zero_or_pos n with rfl | hn
    · rw [fullRead_zero]
      exact ⟨rfl, rfl, rfl, rfl⟩
    · cases a with
      | intr => rw [fullRead, if_neg (by omega)]; exact ih h
      | fail => rw [delivered, List.length_nil] at h; omega
      | data b bs =>
        rw [delivered, List.length_append, List.length_cons] at h
        rw [delivered, fullRead]
        split_ifs with hle
        · refine ⟨rfl, ?_, ?_, ?_⟩
          · rw [List.take_append_of_le_length (by simpa using hle)]
          · rw [delivered_unread, List.drop_append_of_le_length (by simpa using hle)]
          · rw [fails_unread, fails]
        · obtain ⟨h1, h2, h3, h4⟩ := ih (n := n - (bs.length + 1)) (by omega)
          have hlen : (b :: bs).length ≤ n := by rw [List.length_cons]; omega
          refine ⟨h1, ?_, ?_, ?_⟩
          · rw [ReadOut.after, h2, List.take_append, List.take_of_length_le hlen, List.length_cons]
          · rw [ReadOut.after, h3, List.drop_append, List.drop_eq_nil_of_le hlen, List.nil_append,
              List.length_cons]
          · rw [ReadOut.after, h4, fails]

/-- A stream that does not deliver enough: `fullRead` stores all there is, and fails if the stream
does. -/
theorem fullRead_of_lt {n : ℕ} {s : List Arrival} (h : (delivered s).length < n) :
    (fullRead n s).failed = fails s ∧ (fullRead n s).bytes = delivered s ∧
      (fails s = false → (fullRead n s).rest = []) := by
  induction s generalizing n with
  | nil => exact ⟨rfl, rfl, fun _ => rfl⟩
  | cons a s ih =>
    cases a with
    | intr => rw [fullRead, if_neg (by omega)]; exact ih h
    | fail =>
      rw [fullRead, if_neg (by omega)]
      exact ⟨rfl, rfl, fun hf => nomatch hf⟩
    | data b bs =>
      rw [delivered, List.length_append, List.length_cons] at h
      rw [fullRead, if_neg (by omega)]
      obtain ⟨h1, h2, h3⟩ := ih (n := n - (bs.length + 1)) (by omega)
      refine ⟨h1, ?_, h3⟩
      rw [delivered, ReadOut.after, h2]

/-- Whatever the stream, `fullRead` stores the first `n` of the bytes delivered. -/
theorem fullRead_bytes (n : ℕ) (s : List Arrival) :
    (fullRead n s).bytes = (delivered s).take n := by
  rcases Nat.lt_or_ge (delivered s).length n with h | h
  · rw [(fullRead_of_lt h).2.1, List.take_of_length_le (Nat.le_of_lt h)]
  · exact (fullRead_of_le h).2.1

/-- It fails exactly when the stream fails before `n` bytes are delivered. -/
theorem fullRead_failed_iff {n : ℕ} {s : List Arrival} :
    (fullRead n s).failed = true ↔ fails s = true ∧ (delivered s).length < n := by
  rcases Nat.lt_or_ge (delivered s).length n with h | h
  · rw [(fullRead_of_lt h).1]
    exact ⟨fun hf => ⟨hf, h⟩, And.left⟩
  · rw [(fullRead_of_le h).1]
    exact ⟨fun hf => (nomatch hf), fun hf => absurd hf.2 (by omega)⟩

/-- A read that does not fail leaves the bytes behind those it asked for. -/
theorem fullRead_rest {n : ℕ} {s : List Arrival} (h : (fullRead n s).failed = false) :
    delivered (fullRead n s).rest = (delivered s).drop n ∧
      fails (fullRead n s).rest = fails s := by
  rcases Nat.lt_or_ge (delivered s).length n with hlt | hge
  · obtain ⟨h1, -, h3⟩ := fullRead_of_lt hlt
    have hf : fails s = false := h1 ▸ h
    rw [h3 hf, hf, List.drop_eq_nil_of_le (Nat.le_of_lt hlt)]
    exact ⟨rfl, rfl⟩
  · exact (fullRead_of_le hge).2.2

/-- A read that leaves nothing has asked for as much as there was. -/
theorem length_le_of_fullRead {n : ℕ} {s : List Arrival} (h : delivered (fullRead n s).rest = []) :
    (delivered s).length ≤ n := by
  by_contra hgt
  have hdrop := (fullRead_of_le (Nat.le_of_lt (Nat.lt_of_not_le hgt))).2.2.1
  rw [h] at hdrop
  have := congrArg List.length hdrop
  rw [List.length_drop, List.length_nil] at this
  omega

/-- A single read: it stores at most `n` of the bytes that arrive, and loses none. -/
theorem safeRead_spec {n : ℕ} {s : List Arrival} :
    (safeRead n s).bytes.length ≤ n ∧
      ((safeRead n s).failed = false →
        delivered s = (safeRead n s).bytes ++ delivered (safeRead n s).rest) ∧
      ((safeRead n s).failed = true → delivered s = [] ∧ (safeRead n s).bytes = []) := by
  induction s with
  | nil => exact ⟨Nat.zero_le n, fun _ => rfl, fun h => nomatch h⟩
  | cons a s ih =>
    cases a with
    | intr => exact ih
    | fail => exact ⟨Nat.zero_le n, fun h => (nomatch h), fun _ => ⟨rfl, rfl⟩⟩
    | data b bs =>
      refine ⟨by rw [safeRead, List.length_take]; omega, fun _ => ?_, fun h => nomatch h⟩
      rw [safeRead, delivered_unread, ← List.append_assoc, List.take_append_drop, delivered]

theorem fails_append {s : List Arrival} (h : fails s = false) (t : List Arrival) :
    fails (s ++ t) = fails t := by
  induction s with
  | nil => rfl
  | cons a s ih =>
    cases a with
    | intr => exact ih h
    | fail => exact nomatch h
    | data b bs => exact ih h

theorem delivered_append {s : List Arrival} (h : fails s = false) (t : List Arrival) :
    delivered (s ++ t) = delivered s ++ delivered t := by
  induction s with
  | nil => rfl
  | cons a s ih =>
    cases a with
    | intr => exact ih h
    | fail => exact nomatch h
    | data b bs => simp only [List.cons_append, delivered, ih h, List.append_assoc]

end Neufbox.ByteStream
