/-
  Publishing with one generation of grace.

  One writer publishes objects through a pointer that any number of readers load. It keeps the
  object it has just replaced (`retired`) and frees the one it kept before that. An object is the
  number of its allocation, `none` is a null pointer, and `published` records what the pointer
  has held, with an entry in front for the empty `retired` at the start; a reader that loads the
  pointer loads the last entry.

  The rule: an entry behind which at most one other was published is not freed
  (`Publisher.Inv.not_freed`). Nothing is said about older ones: the writer counts generations,
  not readers.
-/
import Mathlib.Tactic.Common

namespace Portico.Lib

/-- Between the calls; with a new object; after the exchange, with what it returned; after the
    free of the object retired before. -/
inductive WriterPc where
  | idle
  | made (new : Nat)
  | swapped (old : Option Nat)
  | cleared (old : Option Nat)
  deriving DecidableEq, Repr

structure Publisher where
  current : Option Nat
  retired : Option Nat
  freed : List Nat
  next : Nat
  pc : WriterPc
  published : List (Option Nat)
  deriving DecidableEq, Repr

inductive PublishStep where
  | make
  | swap
  | free
  | retire
  deriving DecidableEq, Repr

namespace Publisher

/-- With a first object, or with a null pointer. -/
def init (first : Bool) : Publisher :=
  { current := if first then some 0 else none, retired := none, freed := [],
    next := if first then 1 else 0, pc := .idle,
    published := [none, if first then some 0 else none] }

def step (s : Publisher) : PublishStep → Option Publisher
  | .make =>
    match s.pc with
    | .idle => some { s with pc := .made s.next, next := s.next + 1 }
    | _ => none
  | .swap =>
    match s.pc with
    | .made new =>
      some { s with
        current := some new, pc := .swapped s.current, published := s.published ++ [some new] }
    | _ => none
  | .free =>
    match s.pc with
    | .swapped old => some { s with freed := s.freed ++ s.retired.toList, pc := .cleared old }
    | _ => none
  | .retire =>
    match s.pc with
    | .cleared old => some { s with retired := old, pc := .idle }
    | _ => none

/-- How many entries of `published` may have been freed. -/
def past (s : Publisher) : Nat :=
  match s.pc with
  | .swapped _ => s.published.length - 3
  | _ => s.published.length - 2

/-- The pointer that is the next to be freed. -/
def kept (s : Publisher) : Option Nat :=
  match s.pc with
  | .cleared old => old
  | _ => s.retired

structure Inv (s : Publisher) : Prop where
  current : s.published.getLast? = some s.current
  keeps : s.published[s.past]? = some s.kept
  old : ∀ o, s.pc = .swapped o → s.published[s.past + 1]? = some o
  two : 2 ≤ s.published.length
  three : ∀ o, s.pc = .swapped o → 3 ≤ s.published.length
  bound : ∀ g, some g ∈ s.published → g < s.next
  made : ∀ g, s.pc = .made g → g < s.next ∧ some g ∉ s.published
  unique : ∀ (i j : Nat) g,
    s.published[i]? = some (some g) → s.published[j]? = some (some g) → i = j
  freed : ∀ g ∈ s.freed, ∃ i < s.past, s.published[i]? = some (some g)

theorem Inv.init (first : Bool) : Inv (init first) := by
  cases first with
  | true =>
    refine ⟨rfl, rfl, by simp [Publisher.init], by simp [Publisher.init],
      by simp [Publisher.init], by simp [Publisher.init], by simp [Publisher.init],
      fun i j g hi hj => ?_, by simp [Publisher.init]⟩
    have hone : ∀ i : Nat, (Publisher.init true).published[i]? = some (some g) → i = 1 := by
      intro i hi
      match i, hi with
      | 0, hi => simp [Publisher.init] at hi
      | 1, _ => rfl
      | i + 2, hi => simp [Publisher.init] at hi
    rw [hone i hi, hone j hj]
  | false =>
    refine ⟨rfl, rfl, by simp [Publisher.init], by simp [Publisher.init],
      by simp [Publisher.init], by simp [Publisher.init], by simp [Publisher.init],
      fun i j g hi hj => ?_, by simp [Publisher.init]⟩
    match i, hi with
    | 0, hi => simp [Publisher.init] at hi
    | 1, hi => simp [Publisher.init] at hi
    | i + 2, hi => simp [Publisher.init] at hi

variable {s s' : Publisher}

/-- An entry stays where it is, and the new one is not one of those before. -/
theorem unique_concat {l : List (Option Nat)} {new : Nat} (hnew : some new ∉ l)
    (h : ∀ (i j : Nat) g, l[i]? = some (some g) → l[j]? = some (some g) → i = j) :
    ∀ (i j : Nat) g, (l ++ [some new])[i]? = some (some g) →
      (l ++ [some new])[j]? = some (some g) → i = j := by
  have hcase : ∀ (i : Nat) g, (l ++ [some new])[i]? = some (some g) →
      l[i]? = some (some g) ∨ (i = l.length ∧ g = new) := by
    intro i g hi
    rcases Nat.lt_trichotomy i l.length with hlt | rfl | hgt
    · exact .inl (by rwa [List.getElem?_append_left hlt] at hi)
    · rw [List.getElem?_concat_length, Option.some.injEq, Option.some.injEq] at hi
      exact .inr ⟨rfl, hi.symm⟩
    · rw [List.getElem?_eq_none (by simp; omega)] at hi
      cases hi
  intro i j g hi hj
  rcases hcase i g hi with hi | ⟨rfl, rfl⟩ <;> rcases hcase j g hj with hj | ⟨rfl, hg⟩
  · exact h i j g hi hj
  · exact absurd (List.mem_of_getElem? (hg ▸ hi)) hnew
  · exact absurd (List.mem_of_getElem? hj) hnew
  · rfl

theorem Inv.step (h : Inv s) {a : PublishStep} (hstep : s.step a = some s') : Inv s' := by
  obtain ⟨hcur, hkeeps, hold, htwo, hthree, hbound, hmade, huniq, hfreed⟩ := h
  unfold Publisher.step at hstep
  cases a <;> cases hpc : s.pc <;> simp only [hpc] at hstep <;> cases hstep
  case make.idle =>
    simp only [past, kept, hpc] at hkeeps hfreed
    refine ⟨hcur, hkeeps, by simp, htwo, by simp, fun g hg => ?_, fun g hg => ?_, huniq, hfreed⟩
    · exact Nat.lt_succ_of_lt (hbound g hg)
    · obtain rfl : s.next = g := by simpa using hg
      exact ⟨Nat.lt_succ_self _, fun hmem => Nat.lt_irrefl _ (hbound _ hmem)⟩
  case swap.made new =>
    simp only [past, kept, hpc] at hkeeps hfreed
    obtain ⟨hlt, hnew⟩ := hmade new hpc
    have hlen : (s.published ++ [some new]).length = s.published.length + 1 := by simp
    have hleft : ∀ {i : Nat} {x}, s.published[i]? = some x →
        (s.published ++ [some new])[i]? = some x := by
      intro i x hi
      rw [List.getElem?_append_left (List.getElem?_eq_some_iff.mp hi).1, hi]
    refine ⟨by simp, ?_, fun o ho => ?_, by simp; omega, fun o _ => by simp; omega,
      fun g hg => ?_, by simp, unique_concat hnew huniq, fun g hg => ?_⟩
    · simp only [past, kept, hlen]
      exact hleft hkeeps
    · simp only [WriterPc.swapped.injEq] at ho
      subst ho
      simp only [past, hlen]
      apply hleft
      rw [← hcur, List.getLast?_eq_getElem?]
      congr 1
      omega
    · rcases List.mem_append.mp hg with hg | hg
      · exact hbound g hg
      · obtain rfl : g = new := by simpa using hg
        exact hlt
    · obtain ⟨i, hi, hget⟩ := hfreed g hg
      refine ⟨i, ?_, hleft hget⟩
      simp only [past, hlen]
      exact hi
  case free.swapped old =>
    have hlen := hthree old hpc
    have hnext := hold old hpc
    simp only [past, kept, hpc] at hkeeps hfreed hnext
    refine ⟨hcur, ?_, by simp, htwo, by simp, hbound, by simp, huniq, fun g hg => ?_⟩
    · simp only [past, kept]
      rw [← hnext]
      congr 1
      omega
    · simp only [past]
      rcases List.mem_append.mp hg with hg | hg
      · obtain ⟨i, hi, hget⟩ := hfreed g hg
        exact ⟨i, by omega, hget⟩
      · refine ⟨s.published.length - 3, by omega, ?_⟩
        rw [hkeeps]
        exact congrArg some (by simpa using hg)
  case retire.cleared old =>
    simp only [past, kept, hpc] at hkeeps hfreed
    exact ⟨hcur, hkeeps, by simp, htwo, by simp, hbound, by simp, huniq, hfreed⟩

/-- An object that was published last or last but one is not freed. -/
theorem Inv.not_freed (h : Inv s) {n g : Nat} (hget : s.published[n]? = some (some g))
    (hn : s.published.length ≤ n + 2) : g ∉ s.freed := by
  intro hg
  obtain ⟨i, hi, hi'⟩ := h.freed g hg
  have hin : i = n := h.unique i n g hi' hget
  have hpast : s.past ≤ s.published.length - 2 := by
    unfold past
    split <;> omega
  omega

/-- Nothing that was published is forgotten. -/
theorem step_published {a : PublishStep} (hstep : s.step a = some s') :
    s.published <+: s'.published := by
  unfold Publisher.step at hstep
  cases a <;> cases hpc : s.pc <;> simp only [hpc] at hstep <;> cases hstep
  case make.idle => exact List.prefix_refl _
  case swap.made new => exact List.prefix_append _ _
  case free.swapped old => exact List.prefix_refl _
  case retire.cleared old => exact List.prefix_refl _

end Publisher

end Portico.Lib
