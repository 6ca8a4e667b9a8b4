/-
  A list cut into segments after each element that ends one.

  `splitAfter ends l` is the finished segments of `l`, each of them with the element that ends
  it, and the unfinished rest. The equations say how the cut changes when the list grows at its
  end, which is how a stream is read.
-/
import Mathlib.Tactic.Common
import Mathlib.Data.List.Basic

namespace Portico.Lib

universe u

variable {α : Type u} (ends : α → Bool)

/-- The segments of a list that end with an element of `ends`, and the rest. -/
def splitAfter : List α → List (List α) × List α
  | [] => ([], [])
  | a :: l =>
    if ends a then ([a] :: (splitAfter l).1, (splitAfter l).2)
    else match splitAfter l with
      | ([], rest) => ([], a :: rest)
      | (g :: gs, rest) => ((a :: g) :: gs, rest)

variable {ends}

theorem splitAfter_append_end {a : α} (ha : ends a = true) (l : List α) :
    splitAfter ends (l ++ [a]) = ((splitAfter ends l).1 ++ [(splitAfter ends l).2 ++ [a]], []) := by
  induction l with
  | nil => simp [splitAfter, ha]
  | cons b l ih =>
    simp only [List.cons_append, splitAfter, ih]
    by_cases hb : ends b = true
    · simp [hb]
    · simp only [hb]
      rcases splitAfter ends l with ⟨_ | ⟨g, gs⟩, rest⟩ <;> rfl

theorem splitAfter_append_open {a : α} (ha : ends a = false) (l : List α) :
    splitAfter ends (l ++ [a]) = ((splitAfter ends l).1, (splitAfter ends l).2 ++ [a]) := by
  induction l with
  | nil => simp [splitAfter, ha]
  | cons b l ih =>
    simp only [List.cons_append, splitAfter, ih]
    by_cases hb : ends b = true
    · simp [hb]
    · simp only [hb]
      rcases splitAfter ends l with ⟨_ | ⟨g, gs⟩, rest⟩ <;> rfl

end Portico.Lib
