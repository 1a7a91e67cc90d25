import Mathlib.Data.Set.Function
import Mathlib.Order.Interval.Set.Defs
import Neufbox.Lib.Memory

/-!
# Memories with the addresses that were stored to

An `Overlay m` is a memory that has come from `m` by stores, with the addresses of the stores in
their order.  At every other address it is `m`.

A block is given by the addresses of its cells, `f 0`, `f 1`, …, and `g ∘ f` is what a memory `g`
holds there.  If the addresses are distinct, `storeList` stores a list into the block
(`read_storeList`), and `store` one cell (`read_store`).
-/

namespace Neufbox

open Memory

variable {A β : Type*} [DecidableEq A]

structure Overlay (m : A → β) where
  mem : A → β
  touched : List A
  frame : ∀ a, a ∉ touched → mem a = m a

namespace Overlay

variable {m : A → β}

/-- Nothing is stored yet. -/
def start (m : A → β) : Overlay m := ⟨m, [], fun _ _ => rfl⟩

theorem frame_store (s : Overlay m) (a : A) (b : β) (a' : A) (h : a' ∉ s.touched ++ [a]) :
    Function.update s.mem a b a' = m a' := by
  rw [List.mem_append, List.mem_singleton, not_or] at h
  rw [Function.update_of_ne h.2, s.frame a' h.1]

def store (s : Overlay m) (a : A) (b : β) : Overlay m :=
  ⟨Function.update s.mem a b, s.touched ++ [a], frame_store s a b⟩

/-- The cells stored at the addresses, one after the other. -/
def storeList : Overlay m → (ℕ → A) → List β → Overlay m
  | s, _, [] => s
  | s, f, b :: bs => storeList (s.store (f 0) b) (fun i => f (i + 1)) bs

variable (s : Overlay m) {f : ℕ → A} {n : ℕ}

theorem mem_store_of_ne {a a' : A} (h : a' ≠ a) (b : β) : (s.store a b).mem a' = s.mem a' := by
  show Function.update s.mem a b a' = s.mem a'
  rw [Function.update_of_ne h]

@[simp] theorem mem_store_self (a : A) (b : β) : (s.store a b).mem a = b := by
  show Function.update s.mem a b a = b
  rw [Function.update_self]

@[simp] theorem touched_storeList (f : ℕ → A) (bs : List β) :
    (s.storeList f bs).touched = s.touched ++ (List.range bs.length).map f := by
  induction bs generalizing s f with
  | nil => exact (List.append_nil _).symm
  | cons b bs ih =>
    rw [storeList, ih, List.length_cons, List.range_succ_eq_map, List.map_cons, List.map_map]
    exact List.append_assoc ..

theorem mem_storeList_of_ne {a : A} {bs : List β} (h : ∀ i < bs.length, a ≠ f i) :
    (s.storeList f bs).mem a = s.mem a := by
  induction bs generalizing s f with
  | nil => rfl
  | cons b bs ih =>
    rw [storeList, ih _ fun i hi => h (i + 1) (Nat.succ_lt_succ hi),
      mem_store_of_ne s (h 0 (Nat.succ_pos _))]

/-- A block holds the list that was stored to it. -/
theorem read_storeList (hf : Set.InjOn f (Set.Iio n)) {bs : List β} (hbs : bs.length ≤ n) :
    read ((s.storeList f bs).mem ∘ f) 0 bs.length = bs := by
  induction bs generalizing s f n with
  | nil => rfl
  | cons b bs ih =>
    rw [List.length_cons] at hbs
    have hne (i : ℕ) (hi : i < bs.length) : f 0 ≠ f (i + 1) :=
      hf.ne (show 0 < n by omega) (show i + 1 < n by omega) (Nat.succ_ne_zero i).symm
    have htail : Set.InjOn (fun i => f (i + 1)) (Set.Iio (n - 1)) := by
      intro i (hi : i < n - 1) j (hj : j < n - 1) hij
      exact Nat.succ.inj (hf (show i + 1 < n by omega) (show j + 1 < n by omega) hij)
    have hhead : (s.storeList f (b :: bs)).mem (f 0) = b := by
      rw [storeList, mem_storeList_of_ne _ hne, mem_store_self]
    have hrest := ih (s.store (f 0) b) htail (by omega)
    rw [List.length_cons, read_succ]
    refine congrArg₂ List.cons hhead (Eq.trans ?_ hrest)
    apply List.map_congr_left
    intro i _
    show (s.storeList f (b :: bs)).mem (f (0 + 1 + i)) = _
    rw [Nat.zero_add, Nat.add_comm 1 i, storeList]
    simp

/-- One cell stored behind a part of the block. -/
theorem read_store (hf : Set.InjOn f (Set.Iio n)) {k : ℕ} (hk : k < n) (b : β) :
    read ((s.store (f k) b).mem ∘ f) 0 (k + 1) = read (s.mem ∘ f) 0 k ++ [b] := by
  have hrest : read ((s.store (f k) b).mem ∘ f) 0 k = read (s.mem ∘ f) 0 k := by
    apply read_congr
    intro i hi
    rw [Nat.zero_add]
    exact mem_store_of_ne s (hf.ne (hi.trans hk) hk hi.ne) b
  have hlast : ((s.store (f k) b).mem ∘ f) (0 + k) = b := by
    rw [Nat.zero_add]
    exact mem_store_self s (f k) b
  rw [read_add, hrest, read_succ, hlast]
  rfl

end Overlay

end Neufbox
