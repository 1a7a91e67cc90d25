import Mathlib.Data.List.Induction
import Mathlib.Data.List.Nodup
import Mathlib.Tactic.Common

/-!
# Registries and their histories

A registry keeps records in the order of their insertion.  Every record has a handle, a number that
is never used again: a program that holds a pointer to a record and later changes it through that
pointer is modelled by `update` with the handle.  A record is looked up by a property, and the first
match counts (`find?`, `remove`); `retain` sweeps over all of them.

A history says which records were `marked`, with some evidence, and which were `dropped`.  A mark
stands when the record was not dropped since (`Standing`).  `Tracks mark V r history` ties a field
of the records to the history: a record of `r` carries the mark if and only if one stands in the
history, and then its evidence satisfies `V`.  Every operation keeps this, with the events it emits
(`Tracks.add`, `Tracks.update`, `Tracks.marks`, `Tracks.remove`, `Tracks.retain`).
-/

namespace Neufbox

/-- Records in the order of their insertion, each under a handle of its own. -/
structure Registry (α : Type*) where
  entries : List (ℕ × α)
  next : ℕ
  nodup : (entries.map Prod.fst).Nodup
  lt_next : ∀ e ∈ entries, e.1 < next

namespace Registry

variable {α β : Type*}

def empty : Registry α := ⟨[], 0, List.nodup_nil, fun _ h => nomatch h⟩

variable (r : Registry α)

/-- A new record at the end, under the handle `next`. -/
def add (a : α) : Registry α where
  entries := r.entries ++ [(r.next, a)]
  next := r.next + 1
  nodup := by
    rw [List.map_append, List.nodup_append]
    refine ⟨r.nodup, List.nodup_singleton _, ?_⟩
    rintro k hk j hj rfl
    obtain ⟨e, he, rfl⟩ := List.mem_map.mp hk
    have := r.lt_next e he
    rw [List.map_singleton, List.mem_singleton] at hj
    omega
  lt_next := by
    intro e he
    rcases List.mem_append.mp he with he | he
    · have := r.lt_next e he
      omega
    · rw [List.mem_singleton.mp he]
      exact Nat.lt_succ_self _

/-- The first record with the property. -/
def find? (p : α → Bool) : Option (ℕ × α) := r.entries.find? fun e => p e.2

/-- The record under a handle is changed. -/
def update (k : ℕ) (f : α → α) : Registry α where
  entries := r.entries.map fun e => if e.1 = k then (e.1, f e.2) else e
  next := r.next
  nodup := by
    have h : (Prod.fst ∘ fun e : ℕ × α => if e.1 = k then (e.1, f e.2) else e) = Prod.fst := by
      funext e
      dsimp only [Function.comp]
      split_ifs <;> rfl
    rw [List.map_map, h]
    exact r.nodup
  lt_next := by
    intro e he
    obtain ⟨e', he', rfl⟩ := List.mem_map.mp he
    have := r.lt_next e' he'
    split_ifs <;> exact this

/-- A registry with some of the records left out. -/
def sublist (entries : List (ℕ × α)) (h : entries.Sublist r.entries) :
    Registry α where
  entries := entries
  next := r.next
  nodup := r.nodup.sublist (h.map _)
  lt_next := fun e he => r.lt_next e (h.subset he)

/-- The first record with the property is taken out. -/
def remove (p : α → Bool) : Registry α :=
  r.sublist (r.entries.eraseP fun e => p e.2) List.eraseP_sublist

/-- All records without the property are taken out. -/
def retain (p : α → Bool) : Registry α :=
  r.sublist (r.entries.filter fun e => p e.2) List.filter_sublist

/-- Two records under one handle are the same record. -/
theorem eq_of_fst_eq {e e' : ℕ × α} (he : e ∈ r.entries) (he' : e' ∈ r.entries)
    (h : e.1 = e'.1) : e = e' :=
  List.inj_on_of_nodup_map r.nodup he he' h

/-! ### Properties of all records -/

/-- Every record has the property. -/
def Holds (P : α → Prop) (r : Registry α) : Prop := ∀ e ∈ r.entries, P e.2

variable {P : α → Prop} {r : Registry α}

/-- The first record with the property is one of the records and has it. -/
theorem mem_of_find? {p : α → Bool} {e : ℕ × α} (h : r.find? p = some e) :
    e ∈ r.entries ∧ p e.2 = true :=
  ⟨List.mem_of_find?_eq_some h, List.find?_some (p := fun e : ℕ × α => p e.2) h⟩

theorem holds_empty : Holds P empty := fun _ h => nomatch h

theorem Holds.imp {Q : α → Prop} (h : Holds P r) (himp : ∀ a, P a → Q a) : Holds Q r :=
  fun e he => himp e.2 (h e he)

theorem Holds.add (h : Holds P r) {a : α} (ha : P a) : Holds P (r.add a) := by
  intro e he
  rcases List.mem_append.mp he with he | he
  · exact h e he
  · rw [List.mem_singleton.mp he]
    exact ha

theorem Holds.update (h : Holds P r) (k : ℕ) {f : α → α} (hf : ∀ a, P a → P (f a)) :
    Holds P (r.update k f) := by
  intro e he
  obtain ⟨e', he', rfl⟩ := List.mem_map.mp he
  split_ifs
  · exact hf _ (h e' he')
  · exact h e' he'

/-- A change of one record that is known. -/
theorem Holds.update_mem (h : Holds P r) {e : ℕ × α} (he : e ∈ r.entries) {f : α → α}
    (hf : P (f e.2)) : Holds P (r.update e.1 f) := by
  intro e' he'
  obtain ⟨e', hmem, rfl⟩ := List.mem_map.mp he'
  split_ifs with hk
  · obtain rfl := r.eq_of_fst_eq hmem he hk
    exact hf
  · exact h e' hmem

/-- A new record that is changed at once. -/
theorem Holds.add_update (h : Holds P r) {a : α} {f : α → α} (hf : P (f a)) :
    Holds P ((r.add a).update r.next f) := by
  intro e he
  obtain ⟨e', hmem, rfl⟩ := List.mem_map.mp he
  rcases List.mem_append.mp hmem with hmem | hmem
  · rw [if_neg (Nat.ne_of_lt (r.lt_next e' hmem))]
    exact h e' hmem
  · rw [List.mem_singleton.mp hmem, if_pos rfl]
    exact hf

theorem Holds.sublist (h : Holds P r) {entries : List (ℕ × α)}
    (hsub : entries.Sublist r.entries) : Holds P (r.sublist entries hsub) :=
  fun e he => h e (hsub.subset he)

/-! ### Counting records -/

/-- The number of records with the property. -/
def count (p : α → Bool) (r : Registry α) : ℕ := r.entries.countP fun e => p e.2

theorem count_add (p : α → Bool) (r : Registry α) (a : α) :
    count p (r.add a) = count p r + if p a then 1 else 0 := by
  unfold count add
  rw [List.countP_append, List.countP_singleton]

theorem count_remove_le (p q : α → Bool) (r : Registry α) : count p (r.remove q) ≤ count p r :=
  List.eraseP_sublist.countP_le

theorem countP_update_le {p : α → Bool} (k : ℕ) {f : α → α}
    (hf : ∀ a, p (f a) = true → p a = true) (l : List (ℕ × α)) :
    (l.map fun e => if e.1 = k then (e.1, f e.2) else e).countP (fun e => p e.2)
      ≤ l.countP fun e => p e.2 := by
  rw [List.countP_map]
  apply List.countP_mono_left
  intro e _ he
  dsimp only [Function.comp] at he
  split_ifs at he
  · exact hf _ he
  · exact he

/-- A change that gives no record the property. -/
theorem count_update_le {p : α → Bool} (r : Registry α) (k : ℕ) {f : α → α}
    (hf : ∀ a, p (f a) = true → p a = true) : count p (r.update k f) ≤ count p r :=
  countP_update_le k hf r.entries

/-- A change that takes the property from a record that has it. -/
theorem count_update_lt {p : α → Bool} {e : ℕ × α} (he : e ∈ r.entries) (hp : p e.2 = true)
    {f : α → α} (hfe : p (f e.2) = false) (hf : ∀ a, p (f a) = true → p a = true) :
    count p (r.update e.1 f) < count p r := by
  obtain ⟨l₁, l₂, hsplit⟩ := List.append_of_mem he
  have h₁ := countP_update_le e.1 hf l₁
  have h₂ := countP_update_le e.1 hf l₂
  show (r.entries.map _).countP _ < r.entries.countP _
  rw [hsplit, List.map_append, List.map_cons, if_pos rfl, List.countP_append, List.countP_append,
    List.countP_cons_of_neg (by simp [hfe]), List.countP_cons_of_pos (by simpa using hp)]
  omega

/-! ### Histories -/

/-- What a history records of a registry. -/
inductive Event (β : Type*) where
  | marked (k : ℕ) (b : β)
  | dropped (k : ℕ)
  deriving DecidableEq

/-- The events of `remove`. -/
def removed (r : Registry α) (p : α → Bool) : List (Event β) :=
  (r.find? p).toList.map fun e => .dropped e.1

/-- The events of `retain`. -/
def swept (r : Registry α) (p : α → Bool) : List (Event β) :=
  (r.entries.filter fun e => ! p e.2).map fun e => .dropped e.1

theorem marked_not_mem_removed (r : Registry α) (p : α → Bool) (k : ℕ) (b : β) :
    Event.marked k b ∉ r.removed p := by
  intro h
  obtain ⟨_, _, heq⟩ := List.mem_map.mp h
  exact nomatch heq

theorem marked_not_mem_swept (r : Registry α) (p : α → Bool) (k : ℕ) (b : β) :
    Event.marked k b ∉ r.swept p := by
  intro h
  obtain ⟨_, _, heq⟩ := List.mem_map.mp h
  exact nomatch heq

/-- The record under `k` was marked with `b` and not dropped since. -/
def Standing (history : List (Event β)) (k : ℕ) (b : β) : Prop :=
  ∃ before after, history = before ++ .marked k b :: after ∧ .dropped k ∉ after

theorem Standing.mem {history : List (Event β)} {k : ℕ} {b : β} (h : Standing history k b) :
    .marked k b ∈ history := by
  obtain ⟨before, after, rfl, -⟩ := h
  simp

/-- One more event: it is the mark itself, or it does not undo it. -/
theorem standing_concat {history : List (Event β)} {e : Event β} {k : ℕ} {b : β} :
    Standing (history ++ [e]) k b ↔
      e = .marked k b ∨ (e ≠ .dropped k ∧ Standing history k b) := by
  constructor
  · rintro ⟨before, after, h, hnot⟩
    rcases List.eq_nil_or_concat after with rfl | ⟨after', e', rfl⟩
    · obtain ⟨-, he⟩ := List.append_inj' h rfl
      exact .inl (List.singleton_inj.mp he)
    · rw [List.concat_eq_append, ← List.cons_append, ← List.append_assoc] at h
      obtain ⟨hpre, he⟩ := List.append_inj' h rfl
      rw [List.concat_eq_append, List.mem_append, not_or] at hnot
      refine .inr ⟨?_, before, after', hpre, hnot.1⟩
      rintro rfl
      exact hnot.2 (List.mem_singleton.mpr (List.singleton_inj.mp he))
  · rintro (rfl | ⟨hne, before, after, rfl, hnot⟩)
    · exact ⟨history, [], rfl, List.not_mem_nil⟩
    · refine ⟨before, after ++ [e], by simp, ?_⟩
      rw [List.mem_append, List.mem_singleton, not_or]
      exact ⟨hnot, Ne.symm hne⟩

/-- Drops of other records leave a mark standing. -/
theorem standing_append_dropped {history : List (Event β)} {ks : List ℕ} {k : ℕ} {b : β}
    (h : k ∉ ks) : Standing (history ++ ks.map .dropped) k b ↔ Standing history k b := by
  induction ks using List.reverseRecOn with
  | nil => simp
  | append_singleton ks j ih =>
    rw [List.mem_append, List.mem_singleton, not_or] at h
    rw [List.map_append, List.map_singleton, ← List.append_assoc, standing_concat, ih h.1]
    simp [Ne.symm h.2]

/-! ### Registries and histories together -/

/-- The marks of the records are those that stand in the history. -/
structure Tracks (mark : α → Bool) (V : α → β → Prop) (r : Registry α)
    (history : List (Event β)) : Prop where
  marked : ∀ e ∈ r.entries, mark e.2 = true → ∃ b, Standing history e.1 b ∧ V e.2 b
  standing : ∀ e ∈ r.entries, ∀ b, Standing history e.1 b → mark e.2 = true
  fresh : ∀ k b, .marked k b ∈ history → k < r.next

variable {mark : α → Bool} {V : α → β → Prop} {history : List (Event β)}

theorem tracks_empty : Tracks mark V empty [] :=
  ⟨fun _ h => (nomatch h), fun _ h => (nomatch h), fun _ _ h => nomatch h⟩

/-- Taking out the first record with the property takes out that record and no other. -/
theorem mem_remove_iff {p : α → Bool} {e : ℕ × α} :
    e ∈ (r.remove p).entries ↔ e ∈ r.entries ∧ r.find? p ≠ some e := by
  show e ∈ r.entries.eraseP (fun e => p e.2) ↔ e ∈ r.entries ∧ r.find? p ≠ some e
  rcases hfind : r.find? p with - | e₀
  · rw [List.eraseP_of_forall_not fun a ha => List.find?_eq_none.mp hfind a ha]
    simp
  · obtain ⟨hp, l₁, l₂, hsplit, hnot⟩ := List.find?_eq_some_iff_append.mp hfind
    have herase : (r.entries.eraseP fun e => p e.2) = l₁ ++ l₂ := by
      rw [hsplit, List.eraseP_append_right _ fun a ha => by simpa using hnot a ha,
        List.eraseP_cons_of_pos (p := fun e : ℕ × α => p e.2) hp]
    have hnodup := r.nodup
    rw [hsplit, List.map_append, List.map_cons, List.nodup_middle, List.nodup_cons,
      ← List.map_append] at hnodup
    rw [herase, hsplit, List.mem_append, List.mem_append, List.mem_cons]
    constructor
    · intro he
      refine ⟨by tauto, ?_⟩
      rintro heq
      obtain rfl := Option.some.inj heq
      exact hnodup.1 (List.mem_map_of_mem (List.mem_append.mpr he))
    · rintro ⟨he, hne⟩
      have : e ≠ e₀ := fun heq => hne (congrArg some heq.symm)
      tauto

theorem Tracks.add (h : Tracks mark V r history) {a : α} (ha : mark a = false) :
    Tracks mark V (r.add a) history := by
  refine ⟨?_, ?_, ?_⟩
  · intro e he hm
    rcases List.mem_append.mp he with he | he
    · exact h.marked e he hm
    · rw [List.mem_singleton.mp he, ha] at hm
      exact nomatch hm
  · intro e he b hs
    rcases List.mem_append.mp he with he | he
    · exact h.standing e he b hs
    · -- the new handle was never used, so it has no mark
      rw [List.mem_singleton.mp he] at hs
      exact absurd (h.fresh _ b hs.mem) (Nat.lt_irrefl _)
  · intro k b hk
    exact Nat.lt_succ_of_lt (h.fresh k b hk)

/-- A change that neither gives nor takes a mark. -/
theorem Tracks.update (h : Tracks mark V r history) (k : ℕ) {f : α → α}
    (hmark : ∀ a, mark (f a) = mark a) (hV : ∀ a b, V a b → V (f a) b) :
    Tracks mark V (r.update k f) history := by
  refine ⟨?_, ?_, h.fresh⟩
  · intro e he hm
    obtain ⟨e', he', rfl⟩ := List.mem_map.mp he
    split_ifs at hm ⊢ with hk
    · rw [hmark] at hm
      obtain ⟨b, hs, hv⟩ := h.marked e' he' hm
      exact ⟨b, hs, hV _ _ hv⟩
    · exact h.marked e' he' hm
  · intro e he b hs
    obtain ⟨e', he', rfl⟩ := List.mem_map.mp he
    split_ifs at hs ⊢ with hk
    · rw [hmark]
      exact h.standing e' he' b hs
    · exact h.standing e' he' b hs

/-- A change that marks a record. -/
theorem Tracks.marks (h : Tracks mark V r history) {e : ℕ × α} (he : e ∈ r.entries) {f : α → α}
    {b : β} (hmark : mark (f e.2) = true) (hV : V (f e.2) b) :
    Tracks mark V (r.update e.1 f) (history ++ [.marked e.1 b]) := by
  refine ⟨?_, ?_, ?_⟩
  · intro e' he' hm
    obtain ⟨e', hmem, rfl⟩ := List.mem_map.mp he'
    split_ifs at hm ⊢ with hk
    · obtain rfl := r.eq_of_fst_eq hmem he hk
      exact ⟨b, standing_concat.mpr (.inl rfl), hV⟩
    · obtain ⟨c, hs, hv⟩ := h.marked e' hmem hm
      exact ⟨c, standing_concat.mpr (.inr ⟨by simp, hs⟩), hv⟩
  · intro e' he' c hs
    obtain ⟨e', hmem, rfl⟩ := List.mem_map.mp he'
    split_ifs at hs ⊢ with hk
    · obtain rfl := r.eq_of_fst_eq hmem he hk
      exact hmark
    · rcases standing_concat.mp hs with heq | ⟨-, hs⟩
      · exact absurd (Event.marked.inj heq).1.symm hk
      · exact h.standing e' hmem c hs
  · intro k c hk
    rcases List.mem_append.mp hk with hk | hk
    · exact h.fresh k c hk
    · rw [(Event.marked.inj (List.mem_singleton.mp hk)).1]
      exact r.lt_next e he

/-- Records that are taken out, with the events that say so. -/
theorem Tracks.sublist (h : Tracks mark V r history) {entries : List (ℕ × α)}
    (hsub : entries.Sublist r.entries) {ks : List ℕ} (hks : ∀ e ∈ entries, e.1 ∉ ks) :
    Tracks mark V (r.sublist entries hsub) (history ++ ks.map .dropped) := by
  refine ⟨?_, ?_, ?_⟩
  · intro e he hm
    obtain ⟨b, hs, hv⟩ := h.marked e (hsub.subset he) hm
    exact ⟨b, (standing_append_dropped (hks e he)).mpr hs, hv⟩
  · intro e he b hs
    rw [standing_append_dropped (hks e he)] at hs
    exact h.standing e (hsub.subset he) b hs
  · intro k b hk
    rcases List.mem_append.mp hk with hk | hk
    · exact h.fresh k b hk
    · obtain ⟨_, _, heq⟩ := List.mem_map.mp hk
      exact nomatch heq

theorem Tracks.remove (h : Tracks mark V r history) (p : α → Bool) :
    Tracks mark V (r.remove p) (history ++ r.removed p) := by
  have hks : ∀ e ∈ r.entries.eraseP fun e => p e.2, e.1 ∉ (r.find? p).toList.map Prod.fst := by
    intro e he hmem
    obtain ⟨hentry, hne⟩ := mem_remove_iff.mp he
    obtain ⟨e₀, he₀, heq⟩ := List.mem_map.mp hmem
    rw [Option.mem_toList] at he₀
    exact hne ((r.eq_of_fst_eq hentry (mem_of_find? he₀).1 heq.symm) ▸ he₀)
  have := h.sublist List.eraseP_sublist hks
  rwa [List.map_map] at this

theorem Tracks.retain (h : Tracks mark V r history) (p : α → Bool) :
    Tracks mark V (r.retain p) (history ++ r.swept p) := by
  have hks : ∀ e ∈ r.entries.filter fun e => p e.2,
      e.1 ∉ (r.entries.filter fun e => ! p e.2).map Prod.fst := by
    intro e he hmem
    obtain ⟨e', he', heq⟩ := List.mem_map.mp hmem
    rw [List.mem_filter] at he he'
    obtain rfl := r.eq_of_fst_eq he'.1 he.1 heq
    simp [he.2] at he'
  have := h.sublist List.filter_sublist hks
  rwa [List.map_map] at this

end Registry

end Neufbox
