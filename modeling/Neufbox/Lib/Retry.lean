import Mathlib.Data.List.Basic
import Mathlib.Tactic.Common

/-!
# Loops that try again

`attempts stop results n k` are the results that a loop looks at which makes at most `n` attempts,
the first of them with the result `results k`, and ends after one that `stop` holds of.

`RetriesExactly ok n made` says what such a loop should do: one attempt and one more for every
failed one, up to `n`, and none after a success.  A loop that stops at what counts as a success does
so (`retriesExactly_attempts`); one that never stops does so only if all attempts but the last fail
(`retriesExactly_iff_of_length`).
-/

namespace Neufbox.Retry

variable {ρ : Type*}

/-- The results of the attempts. -/
def attempts (stop : ρ → Bool) (results : ℕ → ρ) : ℕ → ℕ → List ρ
  | 0, _ => []
  | n + 1, k => results k :: if stop (results k) then [] else attempts stop results n (k + 1)

/-- The attempts of a loop that tries again after a failure, up to `n` times in all. -/
structure RetriesExactly (ok : ρ → Bool) (n : ℕ) (made : List ρ) : Prop where
  ne_nil : made ≠ []
  length_le : made.length ≤ n
  failed : ∀ r ∈ made.dropLast, ok r = false
  succeeded : made.length < n → ∃ r ∈ made.getLast?, ok r = true

variable {stop ok : ρ → Bool} {results : ℕ → ρ}

theorem attempts_succ (n k : ℕ) :
    attempts stop results (n + 1) k
      = results k :: if stop (results k) then [] else attempts stop results n (k + 1) := rfl

/-- The attempts end with one that stops the loop, or there are as many as there may be. -/
theorem attempts_cases (stop : ρ → Bool) (results : ℕ → ρ) (n k : ℕ) :
    (∃ before r, attempts stop results n k = before ++ [r] ∧ stop r = true ∧
        before.length < n ∧ ∀ r ∈ before, stop r = false) ∨
      ((attempts stop results n k).length = n ∧
        ∀ r ∈ attempts stop results n k, stop r = false) := by
  induction n generalizing k with
  | zero => exact .inr ⟨rfl, nofun⟩
  | succ n ih =>
    rw [attempts_succ]
    by_cases hstop : stop (results k) = true
    · rw [if_pos hstop]
      exact .inl ⟨[], results k, rfl, hstop, Nat.succ_pos n, nofun⟩
    · rw [if_neg hstop]
      have hfalse : stop (results k) = false := Bool.eq_false_iff.mpr hstop
      rcases ih (k + 1) with ⟨before, r, heq, hr, hlength, hbefore⟩ | ⟨hlength, hall⟩
      · refine .inl ⟨results k :: before, r, by rw [heq, List.cons_append], hr, ?_, ?_⟩
        · rw [List.length_cons]
          omega
        · exact List.forall_mem_cons.mpr ⟨hfalse, hbefore⟩
      · refine .inr ⟨by rw [List.length_cons, hlength], ?_⟩
        exact List.forall_mem_cons.mpr ⟨hfalse, hall⟩

theorem retriesExactly_attempts {n : ℕ} (hn : 0 < n) (results : ℕ → ρ) (k : ℕ) :
    RetriesExactly ok n (attempts ok results n k) := by
  rcases attempts_cases ok results n k with ⟨before, r, heq, hr, hlength, hbefore⟩ | ⟨hlength, hall⟩
  · rw [heq]
    refine ⟨by simp, ?_, ?_, fun _ => ⟨r, by simp, hr⟩⟩
    · rw [List.length_append, List.length_singleton]
      omega
    · rwa [List.dropLast_concat]
  · refine ⟨?_, Nat.le_of_eq hlength, fun r hr => hall r (List.dropLast_subset _ hr), ?_⟩
    · apply List.ne_nil_of_length_pos
      omega
    · intro hlt
      omega

/-- The attempts have the results from `k` on. -/
theorem attempts_eq (stop : ρ → Bool) (results : ℕ → ρ) (n k : ℕ) :
    attempts stop results n k
      = (List.range (attempts stop results n k).length).map fun i => results (k + i) := by
  induction n generalizing k with
  | zero => rfl
  | succ n ih =>
    rw [attempts_succ]
    by_cases hstop : stop (results k) = true
    · rw [if_pos hstop]
      rfl
    · rw [if_neg hstop, List.length_cons, List.range_succ_eq_map, List.map_cons, List.map_map]
      have hshift : ((fun i => results (k + i)) ∘ Nat.succ) = fun i => results (k + 1 + i) := by
        funext i
        show results (k + (i + 1)) = results (k + 1 + i)
        rw [Nat.add_right_comm, Nat.add_assoc]
      rw [hshift, ← ih (k + 1)]
      rfl

/-- A loop that never stops. -/
theorem length_attempts_of_forall (h : ∀ r, stop r = false) (results : ℕ → ρ) (n k : ℕ) :
    (attempts stop results n k).length = n := by
  rcases attempts_cases stop results n k with ⟨_, r, -, hr, -⟩ | ⟨hlength, -⟩
  · exact absurd ((h r).symm.trans hr) Bool.false_ne_true
  · exact hlength

/-- As many attempts as there may be are right exactly if none but the last succeeded. -/
theorem retriesExactly_iff_of_length {made : List ρ} {n : ℕ} (hn : 0 < n)
    (hlength : made.length = n) :
    RetriesExactly ok n made ↔ ∀ r ∈ made.dropLast, ok r = false := by
  refine ⟨fun h => h.failed, fun hfailed => ⟨?_, Nat.le_of_eq hlength, hfailed, ?_⟩⟩
  · apply List.ne_nil_of_length_pos
    omega
  · intro hlt
    omega

end Neufbox.Retry
