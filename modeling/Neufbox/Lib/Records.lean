import Mathlib.Data.List.Induction
import Mathlib.Data.List.TakeWhile
import Mathlib.Tactic.Common

/-!
# Records in memory

A pointer is the memory from there on, a list; pointer arithmetic is `List.drop`, and what is read
past the end is `none`.

* `bytes? n l`: the first `n` elements.
* `upTo? x l`: the elements before the first `x`.
* `gather n f`: what is read from `n` records, one after the other.

What was read stays the same when there is more memory (`bytes?_append`, `upTo?_append`,
`gather_mono`).
-/

namespace Neufbox.Records

variable {α β : Type*}

/-! ### Pieces -/

def bytes? (n : ℕ) (l : List α) : Option (List α) := if n ≤ l.length then some (l.take n) else none

theorem getElem?_append_of_some {l : List α} {k : ℕ} {x : α} (h : l[k]? = some x) (l' : List α) :
    (l ++ l')[k]? = some x := by
  obtain ⟨hk, -⟩ := List.getElem?_eq_some_iff.mp h
  rw [List.getElem?_append_left hk, h]

theorem isSome_bytes?_bind {n : ℕ} {l : List α} {h : List α → Option β} :
    ((bytes? n l).bind h).isSome ↔ n ≤ l.length ∧ (h (l.take n)).isSome := by
  unfold bytes?
  split_ifs with hle <;> simp [hle]

theorem bytes?_append {n : ℕ} {l r : List α} (h : bytes? n l = some r) (l' : List α) :
    bytes? n (l ++ l') = some r := by
  unfold bytes? at h ⊢
  split_ifs at h with hle
  rw [if_pos (by rw [List.length_append]; omega), List.take_append_of_le_length hle, ← h]

theorem bytes?_left {n : ℕ} {l : List α} (h : l.length = n) (l' : List α) :
    bytes? n (l ++ l') = some l := by
  rw [bytes?, if_pos (by rw [List.length_append]; omega), ← h, List.take_left]

def upTo? [DecidableEq α] (x : α) (l : List α) : Option (List α) :=
  if x ∈ l then some (l.takeWhile (· ≠ x)) else none

theorem isSome_upTo?_bind [DecidableEq α] {x : α} {l : List α} {h : List α → Option β} :
    ((upTo? x l).bind h).isSome ↔ x ∈ l ∧ (h (l.takeWhile (· ≠ x))).isSome := by
  unfold upTo?
  split_ifs with hmem <;> simp [hmem]

theorem takeWhile_append_of_mem {p : α → Bool} {l : List α} {x : α} (hx : x ∈ l)
    (hp : p x = false) (l' : List α) : (l ++ l').takeWhile p = l.takeWhile p := by
  rw [List.takeWhile_append, if_neg]
  intro hlength
  have hall := List.takeWhile_eq_self_iff.mp ((List.takeWhile_prefix p).eq_of_length hlength)
  exact absurd (hp.symm.trans (hall x hx)) Bool.false_ne_true

theorem upTo?_append [DecidableEq α] {x : α} {l r : List α} (h : upTo? x l = some r)
    (l' : List α) : upTo? x (l ++ l') = some r := by
  unfold upTo? at h ⊢
  split_ifs at h with hx
  rw [if_pos (List.mem_append_left l' hx), takeWhile_append_of_mem hx (by simp), ← h]

/-! ### Record after record -/

/-- Records of one size are found by it. -/
theorem drop_flatMap_append {h : α → List β} {k : ℕ} (l' : List β) {i : ℕ} :
    ∀ {l : List α}, i ≤ l.length → (∀ x ∈ l.take i, (h x).length = k) →
      (l.flatMap h ++ l').drop (k * i) = (l.drop i).flatMap h ++ l' := by
  induction i with
  | zero => exact fun _ _ => rfl
  | succ i ih =>
    rintro (- | ⟨x, l⟩) hi hsize
    · exact absurd hi (Nat.not_succ_le_zero i)
    · have hx : (h x).length = k := hsize x (by simp)
      rw [List.flatMap_cons, List.append_assoc, Nat.mul_succ, Nat.add_comm, ← List.drop_drop,
        List.drop_left' hx, List.drop_succ_cons]
      exact ih (Nat.le_of_succ_le_succ hi) fun y hy => hsize y (by simp [hy])

/-- `f 0`, …, `f (n - 1)`, if they can all be read. -/
def gather (f : ℕ → Option (List β)) : ℕ → Option (List β)
  | 0 => some []
  | n + 1 => do
    let xs ← gather f n
    let ys ← f n
    some (xs ++ ys)

variable {f g : ℕ → Option (List β)} {n : ℕ}

theorem gather_eq_some_iff {zs : List β} :
    gather f (n + 1) = some zs ↔
      ∃ xs ys, gather f n = some xs ∧ f n = some ys ∧ xs ++ ys = zs := by
  simp [gather, Option.bind_eq_some_iff]

theorem isSome_gather : (gather f n).isSome ↔ ∀ i < n, (f i).isSome := by
  induction n with
  | zero => simp [gather]
  | succ n ih =>
    simp only [Option.isSome_iff_exists, gather_eq_some_iff, Nat.forall_lt_succ_right] at ih ⊢
    constructor
    · rintro ⟨_, xs, ys, hxs, hys, -⟩
      exact ⟨ih.mp ⟨xs, hxs⟩, ys, hys⟩
    · rintro ⟨hbefore, ys, hys⟩
      obtain ⟨xs, hxs⟩ := ih.mpr hbefore
      exact ⟨_, xs, ys, hxs, hys, rfl⟩

/-- The records are those of a list. -/
theorem gather_eq_flatMap {l : List α} {h : α → List β}
    (heq : ∀ i (hi : i < l.length), f i = some (h l[i])) :
    gather f l.length = some (l.flatMap h) := by
  induction l using List.reverseRecOn with
  | nil => rfl
  | append_singleton l x ih =>
    have hlast := heq l.length (by simp)
    rw [List.length_append, List.length_singleton, gather_eq_some_iff, List.flatMap_append,
      List.flatMap_singleton]
    refine ⟨_, _, ih fun i hi => ?_, hlast, by simp⟩
    rw [heq i (by rw [List.length_append]; omega), List.getElem_append_left hi]

theorem gather_mono (hmono : ∀ i < n, ∀ ys, f i = some ys → g i = some ys) {zs : List β}
    (h : gather f n = some zs) : gather g n = some zs := by
  induction n generalizing zs with
  | zero => exact h
  | succ n ih =>
    obtain ⟨xs, ys, hxs, hys, rfl⟩ := gather_eq_some_iff.mp h
    exact gather_eq_some_iff.mpr ⟨xs, ys, ih (fun i hi => hmono i (by omega)) hxs,
      hmono n (by omega) ys hys, rfl⟩

/-- What is read from a record is a part of the whole. -/
theorem length_le_of_gather {zs : List β} (h : gather f n = some zs) {i : ℕ} (hi : i < n) :
    ∃ ys, f i = some ys ∧ ys.length ≤ zs.length := by
  induction n generalizing zs with
  | zero => exact absurd hi (Nat.not_lt_zero i)
  | succ n ih =>
    obtain ⟨xs, ys, hxs, hys, rfl⟩ := gather_eq_some_iff.mp h
    rw [List.length_append]
    rcases Nat.lt_succ_iff_lt_or_eq.mp hi with hlt | rfl
    · obtain ⟨ys', hys', hle⟩ := ih hxs hlt
      exact ⟨ys', hys', by omega⟩
    · exact ⟨ys, hys, by omega⟩

/-- Records with one element each. -/
theorem length_gather {zs : List β} (hone : ∀ i ys, f i = some ys → ys.length = 1)
    (h : gather f n = some zs) : zs.length = n := by
  induction n generalizing zs with
  | zero => rw [← Option.some.inj h, List.length_nil]
  | succ n ih =>
    obtain ⟨xs, ys, hxs, hys, rfl⟩ := gather_eq_some_iff.mp h
    rw [List.length_append, ih hxs, hone n ys hys]

end Neufbox.Records
