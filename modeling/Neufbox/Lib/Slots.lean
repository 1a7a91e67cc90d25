import Mathlib.Data.Fintype.Basic
import Mathlib.Logic.Function.Basic

/-!
# Slots with keys

A row of `n` slots, each of which may hold a key.  `replaceWhere p v` writes `v` into every slot
that `p` picks; `KeyedOnce` says that no key is held twice.  A write keeps that when `p` picks at
most one slot, and with it the slot of the key that is written (`KeyedOnce.replaceWhere`).
`gather` is what the slots of a key have, read off each of them.

`scanStep` is one round of a loop that writes what it picks, place by place; `foldl_scanStep` puts
the rounds together.
-/

namespace Neufbox.Slots

open Function (update)

variable {n : ℕ} {α κ : Type*}

/-- The slots with `v` in each that `p` picks. -/
def replaceWhere (p : Fin n → α → Bool) (v : α) (slots : Fin n → α) : Fin n → α :=
  fun i => if p i (slots i) then v else slots i

theorem replaceWhere_of_picked {p : Fin n → α → Bool} {v : α} {slots : Fin n → α} {i : Fin n}
    (h : p i (slots i)) : replaceWhere p v slots i = v := if_pos h

theorem replaceWhere_of_not_picked {p : Fin n → α → Bool} {v : α} {slots : Fin n → α} {i : Fin n}
    (h : ¬p i (slots i)) : replaceWhere p v slots i = slots i := if_neg h

theorem replaceWhere_eq_self {p : Fin n → α → Bool} {v : α} {slots : Fin n → α}
    (h : ∀ i, ¬p i (slots i)) : replaceWhere p v slots = slots :=
  funext fun i => replaceWhere_of_not_picked (h i)

/-- No key is held by two slots. -/
def KeyedOnce (key : α → Option κ) (slots : Fin n → α) : Prop :=
  ∀ ⦃i j k⦄, key (slots i) = some k → key (slots j) = some k → i = j

instance (key : α → Option κ) [DecidableEq κ] (slots : Fin n → α) :
    Decidable (KeyedOnce key slots) :=
  decidable_of_iff (∀ i j, key (slots i) ≠ none → key (slots i) = key (slots j) → i = j)
    ⟨fun h i j _ hi hj => h i j (by simp [hi]) (hi.trans hj.symm), fun h i j hi hij => by
      obtain ⟨k, hk⟩ := Option.ne_none_iff_exists'.mp hi
      exact h hk (hij ▸ hk)⟩

/-- At most one slot is picked. -/
def AtMostOne (p : Fin n → α → Bool) (slots : Fin n → α) : Prop :=
  ∀ ⦃i j⦄, p i (slots i) → p j (slots j) → i = j

instance (p : Fin n → α → Bool) (slots : Fin n → α) : Decidable (AtMostOne p slots) :=
  inferInstanceAs (Decidable (∀ i j, p i (slots i) → p j (slots j) → i = j))

/-- **One write keeps the keys apart** when it picks at most one slot, and every slot that holds
the key it writes. -/
theorem KeyedOnce.replaceWhere {key : α → Option κ} {slots : Fin n → α} (h : KeyedOnce key slots)
    {p : Fin n → α → Bool} {v : α} {k : κ} (hv : key v = some k) (hone : AtMostOne p slots)
    (hp : ∀ i, key (slots i) = some k → p i (slots i)) :
    KeyedOnce key (replaceWhere p v slots) := by
  intro i j k' hi hj
  by_cases hpi : p i (slots i) <;> by_cases hpj : p j (slots j)
  · exact hone hpi hpj
  · -- The slot that was not picked holds the key that was written, so it was picked.
    rw [replaceWhere_of_picked hpi, hv] at hi
    rw [replaceWhere_of_not_picked hpj, ← hi] at hj
    exact absurd (hp j hj) hpj
  · rw [replaceWhere_of_picked hpj, hv] at hj
    rw [replaceWhere_of_not_picked hpi, ← hj] at hi
    exact absurd (hp i hi) hpi
  · rw [replaceWhere_of_not_picked hpi] at hi
    rw [replaceWhere_of_not_picked hpj] at hj
    exact h hi hj

/-! ### What the slots of a key have -/

section Gather

variable {β : Type*} {key : α → Option κ} {f : α → Set β} {slots : Fin n → α} {k : κ}
  {p : Fin n → α → Bool} {v : α}

/-- What the slots that hold the key have. -/
def gather (key : α → Option κ) (f : α → Set β) (slots : Fin n → α) (k : κ) : Set β :=
  {x | ∃ i, key (slots i) = some k ∧ x ∈ f (slots i)}

theorem gather_eq_empty (h : ∀ i, key (slots i) ≠ some k) : gather key f slots k = ∅ :=
  Set.eq_empty_of_forall_notMem fun _ ⟨i, hi, _⟩ => h i hi

theorem KeyedOnce.gather_eq (h : KeyedOnce key slots) {i : Fin n} (hi : key (slots i) = some k) :
    gather key f slots k = f (slots i) := by
  ext x
  constructor
  · rintro ⟨j, hj, hx⟩
    rwa [h hi hj]
  · exact fun hx => ⟨i, hi, hx⟩

/-- The key that is written has what is written, when every slot that held it is picked. -/
theorem gather_replaceWhere_self (hv : key v = some k) {i : Fin n} (hi : p i (slots i))
    (hp : ∀ j, key (slots j) = some k → p j (slots j)) :
    gather key f (replaceWhere p v slots) k = f v := by
  ext x
  constructor
  · rintro ⟨j, hj, hx⟩
    by_cases hpj : p j (slots j)
    · rwa [replaceWhere_of_picked hpj] at hx
    · rw [replaceWhere_of_not_picked hpj] at hj
      exact absurd (hp j hj) hpj
  · intro hx
    have hw : replaceWhere p v slots i = v := replaceWhere_of_picked hi
    exact ⟨i, hw.symm ▸ hv, hw.symm ▸ hx⟩

/-- A key that is not written, and none of whose slots is picked, keeps what it has. -/
theorem gather_replaceWhere_of_ne (hv : key v ≠ some k)
    (hp : ∀ j, p j (slots j) → key (slots j) ≠ some k) :
    gather key f (replaceWhere p v slots) k = gather key f slots k := by
  ext x
  constructor
  · rintro ⟨j, hj, hx⟩
    by_cases hpj : p j (slots j)
    · rw [replaceWhere_of_picked hpj] at hj
      exact absurd hj hv
    · rw [replaceWhere_of_not_picked hpj] at hj hx
      exact ⟨j, hj, hx⟩
  · rintro ⟨j, hj, hx⟩
    have hw : replaceWhere p v slots j = slots j :=
      replaceWhere_of_not_picked fun hpj => hp j hpj hj
    exact ⟨j, hw.symm ▸ hj, hw.symm ▸ hx⟩

end Gather

/-! ### The loop -/

/-- One round: the place is read, and written if it is picked. -/
def scanStep {ι : Type*} [DecidableEq ι] (p : α → Bool) (v : α) (acc : (ι → α) × Bool) (i : ι) :
    (ι → α) × Bool :=
  if p (acc.1 i) then (update acc.1 i v, true) else acc

/-- **The loop over some places, each once**: those of them that are picked are written, and the
flag says whether there is one. -/
theorem foldl_scanStep {ι : Type*} [DecidableEq ι] (p : α → Bool) (v : α) {l : List ι}
    (hl : l.Nodup) (slots : ι → α) (found : Bool) :
    l.foldl (scanStep p v) (slots, found)
      = (fun i => if i ∈ l ∧ p (slots i) then v else slots i,
        found || l.any fun i => p (slots i)) := by
  induction l generalizing slots found with
  | nil => simp
  | cons i l ih =>
    obtain ⟨hi, hl⟩ := List.nodup_cons.mp hl
    -- A place of the rest of the loop is not `i`, so the write into `i` does not change it.
    have hrest : ∀ j ∈ l, update slots i v j = slots j := fun j hj =>
      Function.update_of_ne (ne_of_mem_of_not_mem hj hi) ..
    by_cases hp : p (slots i)
    · rw [List.foldl_cons, scanStep, if_pos hp, ih hl]
      refine Prod.ext (funext fun j => ?_) ?_
      · by_cases hj : j ∈ l
        · simp [hj, hrest j hj]
        · by_cases hji : j = i
          · subst hji
            simp [hj, hp]
          · simp [hj, hji]
      · simp [hp]
    · rw [List.foldl_cons, scanStep, if_neg hp, ih hl]
      refine Prod.ext (funext fun j => ?_) ?_
      · by_cases hji : j = i
        · subst hji
          simp [hi, hp]
        · simp [hji]
      · simp [hp]

end Neufbox.Slots
