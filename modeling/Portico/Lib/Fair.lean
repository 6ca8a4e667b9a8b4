/-
  Infinite runs under a fair schedule.

  A schedule names the label that is tried at each moment; one that is not possible where it
  stands leaves the state as it is. `trace` is the state at each moment.

  The rules: what every step preserves holds at every moment; and the progress rule
  `leads_to_of_rank`: if, as long as the goal is not reached, every step keeps a condition and
  does not raise a rank, and the steps at infinitely many moments lower it, the goal is reached.
  `served_of_grows` is the rule for queues: what is served again and again serves everybody.
-/
import Portico.Lib.Machine
import Mathlib.Data.List.Infix

namespace Portico.Lib

universe u v

variable {σ : Type u} {α : Type v}

/-- The state at each moment of an infinite schedule. -/
def trace (step : σ → α → Option σ) (s : σ) (sched : Nat → α) : Nat → σ
  | 0 => s
  | n + 1 => (step (trace step s sched n) (sched n)).getD (trace step s sched n)

def InfinitelyOften (p : Nat → Prop) : Prop := ∀ n, ∃ m, n ≤ m ∧ p m

/-- What happens once in every round of `k` moments happens infinitely often. -/
theorem infinitelyOften_of_mod {p : Nat → Prop} {k r : Nat} (hr : r < k)
    (h : ∀ n, n % k = r → p n) : InfinitelyOften p := by
  intro n
  refine ⟨k * n + r, ?_, h _ ?_⟩
  · calc n ≤ k * n := Nat.le_mul_of_pos_left n (by omega)
      _ ≤ k * n + r := Nat.le_add_right _ _
  · rw [Nat.mul_add_mod, Nat.mod_eq_of_lt hr]

/-- A moment is a step, or leaves the state as it is because no step is possible. -/
theorem trace_succ (step : σ → α → Option σ) (s : σ) (sched : Nat → α) (n : Nat) :
    (step (trace step s sched n) (sched n) = none ∧
        trace step s sched (n + 1) = trace step s sched n) ∨
      step (trace step s sched n) (sched n) = some (trace step s sched (n + 1)) := by
  cases h : step (trace step s sched n) (sched n) with
  | none =>
    left
    rw [trace, h, Option.getD_none]
    exact ⟨rfl, rfl⟩
  | some =>
    right
    rw [trace, h, Option.getD_some]

variable {step : σ → α → Option σ} {s : σ} {sched : Nat → α}

theorem trace_invariant {I : σ → Prop} (hinit : I s)
    (hstep : ∀ n t t', I t → step t (sched n) = some t' → I t') (n : Nat) :
    I (trace step s sched n) := by
  induction n with
  | zero => exact hinit
  | succ n ih =>
    rcases trace_succ step s sched n with ⟨-, h⟩ | h
    · rw [h]
      exact ih
    · exact hstep n _ _ ih h

section Progress

variable {path : Nat → σ} {P Q : σ → Prop} {rank : σ → Nat} {helps : Nat → Prop}

/-- As long as the goal is not reached, the condition stays and the rank does not rise. -/
theorem reached_or_rank_le
    (hstep : ∀ n, P (path n) → Q (path (n + 1)) ∨
      (P (path (n + 1)) ∧ rank (path (n + 1)) ≤ rank (path n))) {n : Nat} (hP : P (path n))
    (k : Nat) :
    (∃ m, n ≤ m ∧ Q (path m)) ∨ (P (path (n + k)) ∧ rank (path (n + k)) ≤ rank (path n)) := by
  induction k with
  | zero => exact .inr ⟨hP, Nat.le_refl _⟩
  | succ k ih =>
    rcases ih with h | ⟨hPk, hle⟩
    · exact .inl h
    · rcases hstep (n + k) hPk with hQ | ⟨hP', hle'⟩
      · exact .inl ⟨n + k + 1, by omega, hQ⟩
      · exact .inr ⟨hP', Nat.le_trans hle' hle⟩

theorem leads_to_of_rank (P Q : σ → Prop) (rank : σ → Nat) (hfair : InfinitelyOften helps)
    (hstep : ∀ n, P (path n) → Q (path (n + 1)) ∨
      (P (path (n + 1)) ∧ rank (path (n + 1)) ≤ rank (path n) ∧
        (helps n → rank (path (n + 1)) < rank (path n)))) :
    ∀ n, P (path n) → ∃ m, n ≤ m ∧ Q (path m) := by
  intro n
  -- by induction on the rank: the next moment that helps lowers it, or the goal is reached before
  induction hr : rank (path n) using Nat.strongRecOn generalizing n with
  | ind r ih =>
    intro hP
    obtain ⟨m, hnm, hm⟩ := hfair n
    obtain ⟨k, rfl⟩ : ∃ k, m = n + k := ⟨m - n, by omega⟩
    have hkeeps : ∀ n, P (path n) → Q (path (n + 1)) ∨
        (P (path (n + 1)) ∧ rank (path (n + 1)) ≤ rank (path n)) := fun n hn =>
      (hstep n hn).imp id fun h => ⟨h.1, h.2.1⟩
    rcases reached_or_rank_le hkeeps hP k with h | ⟨hPk, hle⟩
    · exact h
    · rcases hstep (n + k) hPk with hQ | ⟨hP', -, hlt⟩
      · exact ⟨n + k + 1, by omega, hQ⟩
      · have hless := hlt hm
        obtain ⟨j, hj, hQ⟩ := ih (rank (path (n + k + 1))) (by omega) (n + k + 1) rfl
          hP'
        exact ⟨j, by omega, hQ⟩

/-- A counter that grows again and again while it is below a bound reaches the bound. -/
theorem reaches_of_grows (count : σ → Nat) (bound : Nat) {start : Nat}
    (hgrow : ∀ n, start ≤ n → count (path n) < bound →
      ∃ m, n ≤ m ∧ count (path n) < count (path m)) :
    ∀ n, start ≤ n → ∃ m, n ≤ m ∧ bound ≤ count (path m) := by
  intro n
  induction hd : bound - count (path n) using Nat.strongRecOn generalizing n with
  | ind d ih =>
    intro hn
    by_cases h : count (path n) < bound
    · obtain ⟨m, hm, hlt⟩ := hgrow n hn h
      obtain ⟨j, hj, hb⟩ := ih (bound - count (path m)) (by omega) m rfl (by omega)
      exact ⟨j, by omega, hb⟩
    · exact ⟨n, Nat.le_refl n, by omega⟩

theorem prefix_of_le {β : Type*} {A : σ → List β}
    (hmono : ∀ n, A (path n) <+: A (path (n + 1))) {n m : Nat} (h : n ≤ m) :
    A (path n) <+: A (path m) := by
  induction m, h using Nat.le_induction with
  | base => exact List.prefix_refl _
  | succ m _ ih => exact ih.trans (hmono m)

/-- First come, first served: if arrivals are only appended, the served ones are the first of them,
    and one more is served again and again while somebody waits, everybody is served. -/
theorem served_of_grows {β : Type*} {A B : σ → List β}
    (hmono : ∀ n, A (path n) <+: A (path (n + 1))) (hserved : ∀ n, B (path n) <+: A (path n))
    (hgrow : ∀ n, (B (path n)).length < (A (path n)).length →
      ∃ m, n ≤ m ∧ (B (path n)).length < (B (path m)).length) (n : Nat) {x : β}
    (hx : x ∈ A (path n)) : ∃ m, n ≤ m ∧ x ∈ B (path m) := by
  have hlater : ∀ j, n ≤ j → (B (path j)).length < (A (path n)).length →
      ∃ m, j ≤ m ∧ (B (path j)).length < (B (path m)).length := fun j hj hlt =>
    hgrow j (Nat.lt_of_lt_of_le hlt (prefix_of_le hmono hj).length_le)
  obtain ⟨m, hm, hlen⟩ :=
    reaches_of_grows (fun s => (B s).length) (A (path n)).length hlater n (Nat.le_refl n)
  have hprefix := List.prefix_of_prefix_length_le (prefix_of_le hmono hm) (hserved m) hlen
  exact ⟨m, hm, hprefix.subset hx⟩

end Progress

end Portico.Lib
