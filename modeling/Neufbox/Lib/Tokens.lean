import Mathlib.Data.List.Basic
import Mathlib.Tactic.Common

/-!
# Splitting a string in memory

`tokens stop sep [] mem` are the pieces between separators of the string at `mem`, and whether the
string ends in `mem`, at `stop`: a piece that nothing ends is not among them, it is `pending`.  What
the memory goes on with matters from there on only (`tokens_append`), or not at all
(`tokens_append_of_mem`).
-/

namespace Neufbox.Tokens

variable {α : Type*}

/-- A token, unless it is empty, before others. -/
def emit (token : List α) (rest : List (List α)) : List (List α) :=
  if token = [] then rest else token :: rest

theorem emit_append (token : List α) (xs ys : List (List α)) :
    emit token (xs ++ ys) = emit token xs ++ ys := by
  unfold emit
  split_ifs <;> rfl

/-- What was read of the token after the last separator, when `token` was read already. -/
def pending (sep : α → Bool) (token : List α) : List α → List α
  | [] => token
  | c :: mem => if sep c then pending sep [] mem else pending sep (token ++ [c]) mem

theorem not_sep_of_mem_pending {sep : α → Bool} {token d : List α}
    (h : ∀ c ∈ token, sep c = false) : ∀ c ∈ pending sep token d, sep c = false := by
  induction d generalizing token with
  | nil => exact h
  | cons c d ih =>
    rw [pending]
    split_ifs with hsep
    · exact ih (by simp)
    · refine ih fun c' hc' => ?_
      rcases List.mem_append.mp hc' with hc' | hc'
      · exact h c' hc'
      · rw [List.mem_singleton.mp hc']
        simpa using hsep

/-- The tokens, when `token` was read already, and whether the string ends. -/
def tokens [DecidableEq α] (stop : α) (sep : α → Bool) (token : List α) :
    List α → List (List α) × Bool
  | [] => ([], false)
  | c :: mem =>
    if c = stop then (emit token [], true)
    else if sep c then (emit token (tokens stop sep [] mem).1, (tokens stop sep [] mem).2)
    else tokens stop sep (token ++ [c]) mem

variable [DecidableEq α] {stop : α} {sep : α → Bool} {d : List α}

theorem tokens_append (h : stop ∉ d) (token mem : List α) :
    tokens stop sep token (d ++ mem)
      = ((tokens stop sep token d).1 ++ (tokens stop sep (pending sep token d) mem).1,
        (tokens stop sep (pending sep token d) mem).2) := by
  induction d generalizing token with
  | nil => rfl
  | cons c d ih =>
    rw [List.mem_cons, not_or] at h
    rw [List.cons_append, tokens, tokens, pending, if_neg (Ne.symm h.1), if_neg (Ne.symm h.1)]
    split_ifs
    · rw [ih h.2, emit_append]
    · exact ih h.2 _

theorem tokens_append_of_mem (h : stop ∈ d) (token mem : List α) :
    tokens stop sep token (d ++ mem) = tokens stop sep token d := by
  induction d generalizing token with
  | nil => exact absurd h List.not_mem_nil
  | cons c d ih =>
    rw [List.cons_append, tokens, tokens]
    split_ifs with hstop hsep
    · rfl
    · rw [ih ((List.mem_cons.mp h).resolve_left (Ne.symm hstop))]
    · exact ih ((List.mem_cons.mp h).resolve_left (Ne.symm hstop)) _

theorem tokens_snd (token d : List α) : (tokens stop sep token d).2 = decide (stop ∈ d) := by
  induction d generalizing token with
  | nil => rfl
  | cons c d ih =>
    rw [tokens]
    split_ifs with hstop hsep
    · simp [hstop]
    · simp [ih, Ne.symm hstop]
    · simp [ih, Ne.symm hstop]

/-- A word is read to its end. -/
theorem tokens_word {word : List α} (h : ∀ c ∈ word, c ≠ stop ∧ sep c = false)
    (token mem : List α) :
    tokens stop sep token (word ++ mem) = tokens stop sep (token ++ word) mem := by
  induction word generalizing token with
  | nil => rw [List.nil_append, List.append_nil]
  | cons c word ih =>
    obtain ⟨hstop, hsep⟩ := h c (List.mem_cons_self ..)
    rw [List.cons_append, tokens, if_neg hstop, if_neg (by simp [hsep]),
      ih fun c' hc' => h c' (List.mem_cons_of_mem c hc'), List.append_assoc, List.singleton_append]

end Neufbox.Tokens
