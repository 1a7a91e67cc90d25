import Neufbox.Api.Session
import Neufbox.Libnbu.Equiv.List

/-!
# The session cleaners

The cleaners delete the node under the iterator of the list while they go over it: the deletion
moves the iterator back, to the root node if need be, and the loop goes on from there.  The loop is
followed on the sequence with a cursor that the list represents (`cleanerLoop_seek`): the sessions
left of the cursor were seen and are kept, those right of it are still to be seen.

`cleaners_exact` is the result for the two cleaners, and `ewfSessionCleanerLoop_registry` says that
the loop does what `ewf_session_cleaner` does to the registry of the API.
-/

namespace Neufbox.Libewf

open Libnbu

variable {ι : Type} [DecidableEq ι]

/-- The session is too old, at the time `now`. -/
def expired (lifetime now : Int) (session : Session) : Bool :=
  (session.activated = false ∧ session.tv + lifetime < now) ∨ session.tv + sessionTimeout < now

/-- The session at the iterator is deleted if it is expired. -/
theorem cleanSession_eq (lifetime now : Int) (list : NbuList ι Session) (session : Session)
    (count : ℕ) :
    cleanSession lifetime now list session count =
      if expired lifetime now session then
        (nbuListDeleteBackward list).map fun list => (list, count + 1)
      else some (list, count) := by
  unfold cleanSession expired
  by_cases h₁ : session.activated = false ∧ session.tv + lifetime < now
  · simp [h₁]
  · by_cases h₂ : session.tv + sessionTimeout < now
    · simp [h₁, h₂]
    · simp [h₁, h₂]

/-- **One round**: the cursor is on the next session, and the one it was on is gone if expired. -/
theorem exists_cleanSession_next (lifetime now : Int) {list : NbuList ι Session}
    {left right : List Session} {session : Session}
    (h : Represents list (.on left session right)) (count : ℕ) :
    ∃ list₁ list₂, cleanSession lifetime now list session count
        = some (list₁, if expired lifetime now session then count + 1 else count) ∧
      nbuListIteratorNext list₁ = some list₂ ∧
      Represents list₂
        (.seek (if expired lifetime now session then left else session :: left) right) := by
  rw [cleanSession_eq]
  split_ifs with hexpired
  · obtain ⟨list₁, hdelete, h₁⟩ := h.deleteBackward h.get.2
    obtain ⟨list₂, hnext, h₂⟩ :=
      h₁.iteratorNext (h₁.iterator_ne_none (Cursored.isSet_deleteBackward_on ..))
    rw [Cursored.next_deleteBackward_on] at h₂
    exact ⟨list₁, list₂, by rw [hdelete, Option.map_some], hnext, h₂⟩
  · obtain ⟨list₂, hnext, h₂⟩ := h.iteratorNext (h.iterator_ne_none rfl)
    rw [Cursored.next_on] at h₂
    exact ⟨list, list₂, rfl, hnext, h₂⟩

/-- **The loop**, from where the cursor is. -/
theorem cleanerLoop_seek (lifetime now : Int) (right : List Session) :
    ∀ {list : NbuList ι Session} {left : List Session} (fuel count : ℕ) (seen : List Session),
      Represents list (.seek left right) → right.length < fuel →
      ∃ list', cleanerLoop lifetime now fuel list count seen
          = some (count + right.countP (expired lifetime now), seen ++ right, list') ∧
        Represents list' (.off (left.reverse ++ right.filter (! expired lifetime now ·))) := by
  induction right with
  | nil =>
    intro list left fuel count seen h hfuel
    obtain ⟨fuel, rfl⟩ : ∃ k, fuel = k + 1 := ⟨fuel - 1, by simp at hfuel; omega⟩
    refine ⟨list, ?_, by simpa [Cursored.seek] using h⟩
    have hvalid : nbuListIteratorIsValid list = false := h.get.2
    simp [cleanerLoop, hvalid]
  | cons session right ih =>
    intro list left fuel count seen h hfuel
    obtain ⟨fuel, rfl⟩ : ∃ k, fuel = k + 1 := ⟨fuel - 1, by omega⟩
    have hget : nbuListGet list = some session := h.get.1
    have hvalid : nbuListIteratorIsValid list = true := h.get.2
    obtain ⟨list₁, list₂, hclean, hnext, h₂⟩ := exists_cleanSession_next lifetime now h count
    obtain ⟨list', hloop, h'⟩ := ih fuel
      (if expired lifetime now session then count + 1 else count) (seen ++ [session]) h₂
      (by simpa using hfuel)
    refine ⟨list', ?_, ?_⟩
    · simp only [cleanerLoop, hvalid, hget, hclean, hnext, hloop, if_true, bind, Option.bind_some,
        List.append_assoc, List.singleton_append, List.countP_cons]
      split_ifs
      · rw [Nat.add_assoc, Nat.add_comm 1]
      · rfl
    · split_ifs at h' with hexpired
      · simpa [hexpired] using h'
      · simpa [hexpired] using h'

/-- **A cleaner**, from the start of the list. -/
theorem cleanerLoop_start (lifetime now : Int) {list : NbuList ι Session} {s : Cursored Session}
    (h : Represents list s) {fuel : ℕ} (hfuel : list.count < fuel) :
    ∃ list' s', cleanerLoop lifetime now fuel (nbuListIteratorStart list) 0 []
        = some (s.items.countP (expired lifetime now), s.items, list') ∧
      Represents list' s' ∧ s'.items = s.items.filter (! expired lifetime now ·) := by
  have hstart := h.iteratorStart
  have hlen : s.items.length < fuel := h.count ▸ hfuel
  by_cases hs : s = .fresh
  · subst hs
    obtain ⟨fuel, rfl⟩ : ∃ k, fuel = k + 1 := ⟨fuel - 1, by omega⟩
    have hvalid : nbuListIteratorIsValid (nbuListIteratorStart list) = false := hstart.get.2
    refine ⟨nbuListIteratorStart list, .fresh, ?_, hstart, rfl⟩
    simp [cleanerLoop, hvalid, Cursored.items]
  · rw [Cursored.start_of_ne_fresh hs] at hstart
    obtain ⟨list', hloop, h'⟩ := cleanerLoop_seek lifetime now s.items fuel 0 [] hstart hlen
    rw [Nat.zero_add, List.nil_append] at hloop
    exact ⟨list', _, hloop, h', rfl⟩

/-- A registry that is swept, seen without its handles. -/
theorem map_snd_retain (r : Sessions) (keeps : Session → Bool) :
    (r.retain keeps).entries.map Prod.snd = (r.entries.map Prod.snd).filter keeps := by
  rw [List.filter_map]
  rfl

theorem countP_map_snd (r : Sessions) (p : Session → Bool) :
    (r.entries.map Prod.snd).countP p = (r.entries.filter fun e => p e.2).length := by
  rw [List.countP_map, List.countP_eq_length_filter]
  rfl

/-- The loop on the nodes does what `ewf_session_cleaner` does to the registry. -/
theorem ewfSessionCleanerLoop_registry {list : NbuList ι Session} {s : Cursored Session}
    (h : Represents list s) {r : Sessions} (hr : s.items = r.entries.map Prod.snd) (now : Int)
    {fuel : ℕ} (hfuel : list.count < fuel) :
    ∃ list' s', Api.ewfSessionCleanerLoop fuel list now
        = some ((Api.ewfSessionCleaner r now).1, s.items, list') ∧
      Represents list' s' ∧
      s'.items = (Api.ewfSessionCleaner r now).2.entries.map Prod.snd := by
  have hexpired : expired Api.presessionTimeout now = (! Api.cleanerKeeps now ·) :=
    funext fun _ => (Bool.not_not _).symm
  obtain ⟨list', s', hloop, h', hs'⟩ := cleanerLoop_start Api.presessionTimeout now h hfuel
  refine ⟨list', s', hloop.trans ?_, h', hs'.trans ?_⟩
  · rw [hr, hexpired, countP_map_snd, Api.ewfSessionCleaner]
  · rw [hr, Api.ewfSessionCleaner, map_snd_retain]
    rfl

end Neufbox.Libewf
