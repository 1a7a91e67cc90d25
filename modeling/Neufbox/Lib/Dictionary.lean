import Mathlib.Data.List.AList
import Mathlib.Data.List.Induction

/-!
# Dictionaries in insertion order

An association list with unique keys, `AList`, whose entries stay where they were inserted: a new
key goes to the end (`AList.put`), and a key that is there has its value replaced in place.

What such a list holds after a sequence of changes is said without it: `bound changes k` follows one
key through the changes and gives the number of the change that inserted it, and the value it was
last put with.  `lookup_applyAll` and `pairwise_keys_applyAll` say that the list has exactly these
values, and that its keys are in the order of these numbers.
-/

namespace Neufbox

variable {κ β : Type*}

/-- An association list with unique keys. -/
abbrev Dictionary (κ β : Type*) := AList fun _ : κ => β

namespace Dictionary

variable {d : Dictionary κ β} {k k' : κ} {v v' : β} {l₁ l₂ : List (Σ _ : κ, β)}

/-- A new key at the end. -/
def append (d : Dictionary κ β) (k : κ) (v : β) (hk : k ∉ d) : Dictionary κ β where
  entries := d.entries ++ [⟨k, v⟩]
  nodupKeys := by
    rw [List.nodupKeys_middle, List.append_nil, List.nodupKeys_cons]
    exact ⟨hk, d.nodupKeys⟩

/-- The entries as pairs. -/
def pairs (d : Dictionary κ β) : List (κ × β) := d.entries.map fun e => (e.1, e.2)

theorem map_fst_pairs (d : Dictionary κ β) : d.pairs.map Prod.fst = d.keys := by
  rw [pairs, List.map_map]
  rfl

theorem mem_of_entries_eq (h : d.entries = l₁ ++ ⟨k, v⟩ :: l₂) : k ∈ d := by
  have hmem : (⟨k, v⟩ : Σ _ : κ, β) ∈ d.entries := by rw [h]; simp
  exact List.mem_keys_of_mem hmem

/-- The keys before an entry are other keys. -/
theorem notMem_keys_of_entries_eq (h : d.entries = l₁ ++ ⟨k, v⟩ :: l₂) : k ∉ l₁.keys := by
  have hnodup := d.nodupKeys
  rw [h, List.nodupKeys_middle, List.nodupKeys_cons] at hnodup
  intro hk
  refine hnodup.1 ?_
  rw [List.keys, List.map_append]
  exact List.mem_append_left _ hk

variable [DecidableEq κ]

/-- The value of a key is replaced, or the key is appended. -/
def put (d : Dictionary κ β) (k : κ) (v : β) : Dictionary κ β :=
  if hk : k ∈ d then d.replace k v else d.append k v hk

theorem entries_put_of_notMem (hk : k ∉ d) : (d.put k v).entries = d.entries ++ [⟨k, v⟩] := by
  rw [put, dif_neg hk]
  rfl

/-- **A put of a key that is there** replaces its value in place. -/
theorem entries_put_of_eq (h : d.entries = l₁ ++ ⟨k, v'⟩ :: l₂) :
    (d.put k v).entries = l₁ ++ ⟨k, v⟩ :: l₂ := by
  have hk := notMem_keys_of_entries_eq h
  rw [put, dif_pos (mem_of_entries_eq h)]
  show d.entries.kreplace k v = _
  rw [h]
  clear h
  induction l₁ with
  | nil => exact List.lookmap_cons_some _ _ (dif_pos rfl)
  | cons e l₁ ih =>
    have hne : k ≠ e.1 := fun heq => hk (heq ▸ List.mem_cons_self ..)
    have hrest := ih fun hmem => hk (List.mem_cons_of_mem _ hmem)
    have hcons : (e :: (l₁ ++ ⟨k, v'⟩ :: l₂)).kreplace k v
        = e :: (l₁ ++ ⟨k, v'⟩ :: l₂).kreplace k v := List.lookmap_cons_none _ _ (dif_neg hne)
    rw [List.cons_append, hcons, hrest, List.cons_append]

/-- **An erased key** leaves the other entries as they are. -/
theorem entries_erase_of_eq (h : d.entries = l₁ ++ ⟨k, v⟩ :: l₂) :
    (d.erase k).entries = l₁ ++ l₂ := by
  have hk := notMem_keys_of_entries_eq h
  show d.entries.kerase k = _
  rw [h]
  clear h
  induction l₁ with
  | nil => exact List.kerase_cons_eq rfl
  | cons e l₁ ih =>
    have hne : k ≠ e.1 := fun heq => hk (heq ▸ List.mem_cons_self ..)
    rw [List.cons_append, List.kerase_cons_ne hne, ih fun hmem => hk (List.mem_cons_of_mem _ hmem),
      List.cons_append]

theorem erase_of_notMem (hk : k ∉ d) : d.erase k = d :=
  AList.ext (List.kerase_of_notMem_keys hk)

theorem mem_pairs_iff : (k, v) ∈ d.pairs ↔ d.lookup k = some v := by
  have hmem := AList.mem_lookup_iff (a := k) (b := v) (s := d)
  rw [← Option.mem_def, hmem, pairs, List.mem_map]
  constructor
  · rintro ⟨e, he, heq⟩
    obtain ⟨rfl, rfl⟩ := Prod.mk.inj heq
    exact he
  · exact fun h => ⟨_, h, rfl⟩

theorem lookup_put (d : Dictionary κ β) (k k' : κ) (v : β) :
    (d.put k v).lookup k' = if k = k' then some v else d.lookup k' := by
  by_cases hk : k ∈ d
  · obtain ⟨v', l₁, l₂, -, h, -⟩ := List.exists_of_kerase hk
    have hput : (d.put k v).entries = l₁ ++ ⟨k, v⟩ :: l₂ := entries_put_of_eq h
    have hnot := notMem_keys_of_entries_eq h
    rw [AList.lookup, AList.lookup, hput, h, List.dlookup_append, List.dlookup_append]
    split_ifs with heq
    · subst heq
      rw [List.dlookup_eq_none.mpr hnot, List.dlookup_cons_eq]
      rfl
    · rw [List.dlookup_cons_ne _ _ (Ne.symm heq), List.dlookup_cons_ne _ _ (Ne.symm heq)]
  · rw [AList.lookup, AList.lookup, entries_put_of_notMem hk, List.dlookup_append]
    split_ifs with heq
    · subst heq
      rw [List.dlookup_eq_none.mpr hk, List.dlookup_cons_eq]
      rfl
    · rw [List.dlookup_cons_ne _ _ (Ne.symm heq), List.dlookup_nil, Option.or_none]

theorem keys_put (d : Dictionary κ β) (k : κ) (v : β) :
    (d.put k v).keys = if k ∈ d then d.keys else d.keys ++ [k] := by
  split_ifs with hk
  · rw [put, dif_pos hk]
    exact AList.keys_replace k v d
  · rw [AList.keys, entries_put_of_notMem hk]
    exact List.map_append

end Dictionary

/-! ### Histories -/

open Dictionary

variable [DecidableEq κ]

/-- A change to a dictionary. -/
inductive Change (κ β : Type*) where
  | put (k : κ) (v : β)
  | remove (k : κ)
  | clear

namespace Change

def apply (d : Dictionary κ β) : Change κ β → Dictionary κ β
  | .put k v => d.put k v
  | .remove k => d.erase k
  | .clear => ∅

/-- The dictionary after the changes. -/
def applyAll (changes : List (Change κ β)) : Dictionary κ β := changes.foldl apply ∅

/-- What the change with number `n` does to what is known of a key: the number of the change that
inserted it and the value it was last put with. -/
def track (k : κ) (s : Option (ℕ × β)) (n : ℕ) : Change κ β → Option (ℕ × β)
  | .put k' v => if k' = k then some ((s.map Prod.fst).getD n, v) else s
  | .remove k' => if k' = k then none else s
  | .clear => none

def bound (changes : List (Change κ β)) (k : κ) : Option (ℕ × β) :=
  changes.zipIdx.foldl (fun s change => track k s change.2 change.1) none

/-- The value of the last put of a key that was not removed since. -/
def lastPut (changes : List (Change κ β)) (k : κ) : Option β := (bound changes k).map Prod.snd

/-- The number of the put that inserted the key. -/
def insertedAt (changes : List (Change κ β)) (k : κ) : Option ℕ := (bound changes k).map Prod.fst

/-- The keys are there, and the first one was inserted before the second one. -/
def InsertedBefore (changes : List (Change κ β)) (k k' : κ) : Prop :=
  ∃ i ∈ insertedAt changes k, ∃ j ∈ insertedAt changes k', i < j

variable {changes : List (Change κ β)} {change : Change κ β} {k k' : κ}

theorem applyAll_concat (changes : List (Change κ β)) (change : Change κ β) :
    applyAll (changes ++ [change]) = apply (applyAll changes) change := by
  rw [applyAll, List.foldl_append]
  rfl

theorem bound_concat (changes : List (Change κ β)) (change : Change κ β) (k : κ) :
    bound (changes ++ [change]) k = track k (bound changes k) changes.length change := by
  rw [bound, List.zipIdx_append, List.foldl_append, Nat.zero_add]
  rfl

/-- **The values** are those of the last puts. -/
theorem lookup_applyAll (changes : List (Change κ β)) (k : κ) :
    (applyAll changes).lookup k = lastPut changes k := by
  induction changes using List.reverseRecOn with
  | nil => rfl
  | append_singleton changes change ih =>
    rw [applyAll_concat, lastPut, bound_concat]
    rw [lastPut] at ih
    cases change with
    | put k' v =>
      rw [apply, lookup_put, track, ih]
      split_ifs <;> rfl
    | remove k' =>
      rw [apply, track]
      split_ifs with heq
      · subst heq
        exact AList.lookup_erase _ _
      · rw [AList.lookup_erase_ne (Ne.symm heq), ih]
    | clear => rfl

theorem mem_applyAll_iff : k ∈ applyAll changes ↔ (bound changes k).isSome := by
  rw [← AList.lookup_isSome, lookup_applyAll, lastPut, Option.isSome_map]

/-- A key that is there was inserted by one of the changes. -/
theorem insertedAt_lt {i : ℕ} (hi : i ∈ insertedAt changes k) : i < changes.length := by
  induction changes using List.reverseRecOn with
  | nil => exact nomatch hi
  | append_singleton changes change ih =>
    rw [List.length_append, List.length_singleton]
    rw [insertedAt, bound_concat] at hi
    cases change with
    | put k' v =>
      rw [track] at hi
      split_ifs at hi with heq
      · have hi : (insertedAt changes k).getD changes.length = i := Option.some.inj hi
        cases hold : insertedAt changes k with
        | none =>
          rw [hold, Option.getD_none] at hi
          omega
        | some j =>
          rw [hold, Option.getD_some] at hi
          have := ih (hi ▸ hold)
          omega
      · exact Nat.lt_succ_of_lt (ih hi)
    | remove k' =>
      rw [track] at hi
      split_ifs at hi with heq
      · exact nomatch hi
      · exact Nat.lt_succ_of_lt (ih hi)
    | clear => exact nomatch hi

/-- A key that stays was inserted when it was before. -/
theorem insertedAt_concat (hk : k ∈ applyAll changes) (hk' : k ∈ applyAll (changes ++ [change])) :
    insertedAt (changes ++ [change]) k = insertedAt changes k := by
  obtain ⟨⟨i, v⟩, hold⟩ := Option.isSome_iff_exists.mp (mem_applyAll_iff.mp hk)
  have hnew := mem_applyAll_iff.mp hk'
  rw [bound_concat, hold] at hnew
  rw [insertedAt, insertedAt, bound_concat, hold]
  cases change with
  | put k' v' =>
    rw [track]
    split_ifs <;> rfl
  | remove k' =>
    rw [track] at hnew ⊢
    by_cases heq : k' = k
    · rw [if_pos heq] at hnew
      exact nomatch hnew
    · rw [if_neg heq]
  | clear => exact nomatch hnew

/-- Keys that stay keep their order. -/
theorem InsertedBefore.concat (hk : k ∈ applyAll (changes ++ [change]))
    (hk' : k' ∈ applyAll (changes ++ [change])) (hold : k ∈ applyAll changes)
    (hold' : k' ∈ applyAll changes) (h : InsertedBefore changes k k') :
    InsertedBefore (changes ++ [change]) k k' := by
  rw [InsertedBefore, insertedAt_concat hold hk, insertedAt_concat hold' hk']
  exact h

/-- A new key comes behind all others. -/
theorem insertedBefore_put {v : β} (hold : k ∈ applyAll changes)
    (hk : k ∈ applyAll (changes ++ [.put k' v])) (hnew : k' ∉ applyAll changes) :
    InsertedBefore (changes ++ [.put k' v]) k k' := by
  obtain ⟨⟨i, v'⟩, hi⟩ := Option.isSome_iff_exists.mp (mem_applyAll_iff.mp hold)
  have hi : i ∈ insertedAt changes k := by rw [insertedAt, hi]; rfl
  have hnone : bound changes k' = none := by
    rwa [mem_applyAll_iff, Option.isSome_iff_ne_none, not_not] at hnew
  refine ⟨i, ?_, changes.length, ?_, insertedAt_lt hi⟩
  · rwa [insertedAt_concat hold hk]
  · rw [insertedAt, bound_concat, hnone, track, if_pos rfl]
    rfl

/-- **The order** of the keys is that of their insertion. -/
theorem pairwise_keys_applyAll (changes : List (Change κ β)) :
    (applyAll changes).keys.Pairwise (InsertedBefore changes) := by
  induction changes using List.reverseRecOn with
  | nil => exact List.Pairwise.nil
  | append_singleton changes change ih =>
    -- what stays of the keys is in the same order
    have hstay : ∀ keys : List κ, keys.Sublist (applyAll changes).keys →
        (∀ k ∈ keys, k ∈ applyAll (changes ++ [change])) →
        keys.Pairwise (InsertedBefore (changes ++ [change])) := by
      intro keys hsub hkeys
      refine (ih.sublist hsub).imp_of_mem fun hk hk' h => ?_
      exact h.concat (hkeys _ hk) (hkeys _ hk') (hsub.subset hk) (hsub.subset hk')
    have heq := applyAll_concat changes change
    cases change with
    | put k v =>
      have hkeys := keys_put (applyAll changes) k v
      rw [heq, apply, hkeys]
      have hmem : ∀ k' ∈ (applyAll changes).keys, k' ∈ applyAll (changes ++ [.put k v]) := by
        intro k' hk'
        rw [heq, apply, AList.mem_keys, hkeys]
        split_ifs
        · exact hk'
        · exact List.mem_append_left _ hk'
      split_ifs with hk
      · exact hstay _ (List.Sublist.refl _) hmem
      · refine List.pairwise_append.mpr ⟨hstay _ (List.Sublist.refl _) hmem,
          List.pairwise_singleton _ _, ?_⟩
        intro k' hk' k'' hk''
        obtain rfl := List.mem_singleton.mp hk''
        exact insertedBefore_put hk' (hmem k' hk') hk
    | remove k =>
      rw [heq]
      refine hstay _ (by rw [apply, AList.keys_erase]; exact List.erase_sublist) ?_
      intro k' hk'
      rwa [heq, AList.mem_keys]
    | clear =>
      rw [heq]
      exact List.Pairwise.nil

end Change

end Neufbox
