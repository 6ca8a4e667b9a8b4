/-
  Singly linked lists in a store of nodes.

  `Links next p l`: following `next` from the pointer `p` visits exactly the nodes of `l` and
  then ends. `Building next due l`: a list whose links are written by several parties, each
  behind the node it appends; the link from a node to its successor is there, or it is still
  empty and `due` says that somebody is about to write it. The last node's link is empty.

  A node's successor in `l` is written `[a, b] <:+: l`.
-/
import Mathlib.Data.List.Infix
import Mathlib.Data.List.Nodup
import Mathlib.Logic.Function.Basic
import Mathlib.Logic.Relation

namespace Portico.Lib

open List

universe u

variable {α : Type u}

def Links (next : α → Option α) : Option α → List α → Prop
  | p, [] => p = none
  | p, a :: l => p = some a ∧ Links next (next a) l

def Building (next : α → Option α) (due : α → α → Prop) : List α → Prop
  | [] => True
  | [a] => next a = none
  | a :: b :: l => (next a = some b ∨ next a = none ∧ due a b) ∧ Building next due (b :: l)

variable {next next' : α → Option α} {due due' : α → α → Prop} {l : List α} {a : α}

/-! ## Finished lists -/

theorem Links.congr : ∀ {l : List α} {p : Option α}, (∀ a ∈ l, next' a = next a) →
    Links next p l → Links next' p l
  | [], _, _, h => h
  | a :: l, _, heq, h => by
    refine ⟨h.1, ?_⟩
    rw [heq a (by simp)]
    exact Links.congr (fun b hb => heq b (mem_cons_of_mem a hb)) h.2

theorem Links.some_mem (h : Links next (some a) l) : a ∈ l := by
  cases l with
  | nil => simp [Links] at h
  | cons =>
    rw [Option.some.inj h.1]
    exact mem_cons_self

theorem Links.cons_of_some (h : Links next (some a) l) :
    ∃ l', l = a :: l' ∧ Links next (next a) l' := by
  cases l with
  | nil => simp [Links] at h
  | cons b l =>
    obtain ⟨hb, hl⟩ := h
    obtain rfl := Option.some.inj hb
    exact ⟨l, rfl, hl⟩

theorem Links.unique : ∀ {l l' : List α} {p : Option α}, Links next p l → Links next p l' → l = l'
  | [], [], _, _, _ => rfl
  | [], _ :: _, _, h, h' => nomatch h.symm.trans h'.1
  | _ :: _, [], _, h, h' => nomatch h'.symm.trans h.1
  | a :: l, b :: l', _, h, h' => by
    obtain rfl := Option.some.inj (h.1.symm.trans h'.1)
    rw [Links.unique h.2 h'.2]

/-- Nodes with numbers, each linked to the next one up to the last. -/
theorem links_range' {f : Nat → α} {n : Nat} : ∀ {k i : Nat}, i + k + 1 = n →
    (∀ j, i ≤ j → j < n → next (f j) = if j + 1 < n then some (f (j + 1)) else none) →
    Links next (some (f i)) ((range' i (k + 1)).map f)
  | 0, i, hn, hnext => by
    refine ⟨rfl, ?_⟩
    rw [hnext i (Nat.le_refl i) (by omega), if_neg (by omega)]
    rfl
  | k + 1, i, hn, hnext => by
    refine ⟨rfl, ?_⟩
    rw [hnext i (Nat.le_refl i) (by omega), if_pos (by omega)]
    exact links_range' (by omega) fun j hj => hnext j (by omega)

/-- Every node of a linked list can be reached from its first one. -/
theorem Links.reaches : ∀ {l : List α} {a : α}, Links next (some a) l →
    ∀ x ∈ l, Relation.ReflTransGen (fun b c => next b = some c) a x
  | [], a, h, x, hx => absurd hx (by simp)
  | b :: l, a, h, x, hx => by
    obtain ⟨hb, hl⟩ := h
    obtain rfl := Option.some.inj hb
    rcases mem_cons.mp hx with rfl | hx
    · exact .refl
    cases hn : next a with
    | none =>
      rw [hn] at hl
      cases l with
      | nil => cases hx
      | cons => exact absurd hl.1 (by simp)
    | some =>
      rw [hn] at hl
      exact .head hn (Links.reaches hl x hx)

/-! ## Successors -/

theorem mem_of_infix_left {b : α} (h : [a, b] <:+: l) : a ∈ l :=
  h.subset (by simp)

theorem mem_of_infix_right {b : α} (h : [a, b] <:+: l) : b ∈ l :=
  h.subset (by simp)

theorem infix_pair_cons {x b : α} (h : [a, b] <:+: x :: l) :
    (a = x ∧ l.head? = some b) ∨ [a, b] <:+: l := by
  rcases infix_cons_iff.mp h with hp | hi
  · left
    obtain ⟨rfl, hb⟩ := cons_prefix_cons.mp hp
    cases l with
    | nil => exact absurd hb (by simp)
    | cons =>
      obtain ⟨rfl, _⟩ := cons_prefix_cons.mp hb
      exact ⟨rfl, rfl⟩
  · exact .inr hi

/-- In a list without repetition a node has one successor. -/
theorem infix_pair_unique : ∀ {l : List α} {a b c : α}, l.Nodup → [a, b] <:+: l →
    [a, c] <:+: l → b = c
  | [], _, _, _, _, h, _ => absurd (infix_nil.mp h) (by simp)
  | x :: l, a, b, c, hnd, hb, hc => by
    obtain ⟨hx, hnd⟩ := nodup_cons.mp hnd
    rcases infix_pair_cons hb with ⟨rfl, hb1⟩ | hb1
    · rcases infix_pair_cons hc with ⟨_, hc1⟩ | hc1
      · exact Option.some.inj (hb1.symm.trans hc1)
      · exact absurd (mem_of_infix_left hc1) hx
    · rcases infix_pair_cons hc with ⟨rfl, _⟩ | hc1
      · exact absurd (mem_of_infix_left hb1) hx
      · exact infix_pair_unique hnd hb1 hc1

theorem infix_pair_last {x : α} (h : l.getLast? = some a) : [a, x] <:+: l ++ [x] := by
  obtain ⟨l', rfl⟩ := getLast?_eq_some_iff.mp h
  exact ⟨l', [], by simp⟩

/-! ## Lists under construction -/

theorem Building.congr : ∀ {l : List α}, (∀ a ∈ l, next' a = next a) →
    (∀ a b, [a, b] <:+: l → due a b → due' a b) → Building next due l → Building next' due' l
  | [], _, _, _ => trivial
  | [a], hn, _, h => (hn a (by simp)).trans h
  | a :: b :: l, hn, hd, h => by
    refine ⟨?_, Building.congr (fun c hc => hn c (mem_cons_of_mem a hc))
      (fun c d hcd => hd c d (infix_cons hcd)) h.2⟩
    rw [hn a (by simp)]
    exact h.1.imp id fun h => ⟨h.1, hd a b ⟨[], l, rfl⟩ h.2⟩

theorem Building.tail (h : Building next due (a :: l)) : Building next due l := by
  cases l with
  | nil => trivial
  | cons => exact h.2

/-- A link that is there leads to the successor. -/
theorem Building.next_eq {b : α} (h : Building next due (a :: l)) (hn : next a = some b) :
    ∃ l', l = b :: l' := by
  cases l with
  | nil => exact absurd (hn.symm.trans h) (by simp)
  | cons c l =>
    rcases h.1 with hc | ⟨hc, _⟩
    · exact ⟨l, by rw [Option.some.inj (hn.symm.trans hc)]⟩
    · simp [hn] at hc

theorem Building.last : ∀ {l : List α} {a : α}, Building next due l → l.getLast? = some a →
    next a = none
  | [b], a, h, hl => by
    obtain rfl : b = a := by simpa using hl
    exact h
  | b :: c :: l, a, h, hl => Building.last h.2 (by rw [← hl]; simp [getLast?_cons_cons])

theorem Building.concat : ∀ {l : List α} {x : α}, Building next due l → next x = none →
    (∀ a, l.getLast? = some a → due a x) → Building next due (l ++ [x])
  | [], _, _, hx, _ => hx
  | [a], _, h, hx, hd => ⟨.inr ⟨h, hd a rfl⟩, hx⟩
  | _ :: _ :: _, _, h, hx, hd => ⟨h.1, Building.concat h.2 hx fun a ha => hd a (by simpa using ha)⟩

/-- The missing link from `a` to its successor is written. -/
theorem Building.link [DecidableEq α] {b : α} (hd : ∀ c d, c ≠ a → due c d → due' c d) :
    ∀ {l : List α}, l.Nodup → [a, b] <:+: l → Building next due l →
      Building (Function.update next a (some b)) due' l
  | [], _, hin, _ => absurd (infix_nil.mp hin) (by simp)
  | [x], _, hin, _ => by
    rcases infix_pair_cons hin with ⟨_, h⟩ | h
    · cases h
    · exact absurd (infix_nil.mp h) (by simp)
  | x :: y :: l, hnd, hin, h => by
    obtain ⟨hx, hnd⟩ := nodup_cons.mp hnd
    rcases infix_pair_cons hin with ⟨rfl, hb⟩ | hin1
    · -- the link of the first node: the rest of the list does not contain it
      obtain rfl : y = b := Option.some.inj hb
      refine ⟨.inl (Function.update_self _ _ _), h.2.congr (fun c hc => ?_) (fun c d hcd => ?_)⟩
      · exact Function.update_of_ne (fun e : c = a => hx (e ▸ hc)) _ _
      · exact hd c d fun e : c = a => hx (e ▸ mem_of_infix_left hcd)
    · have hxa : x ≠ a := by
        rintro rfl
        exact hx (mem_of_infix_left hin1)
      refine ⟨?_, Building.link hd hnd hin1 h.2⟩
      rw [Function.update_of_ne hxa]
      exact h.1.imp id fun h => ⟨h.1, hd x y hxa h.2⟩

/-- With no link due, a list under construction is finished. -/
theorem Building.links : ∀ {l : List α} {a : α}, (∀ b c, ¬ due b c) →
    Building next due (a :: l) → Links next (some a) (a :: l)
  | [], _, _, h => ⟨rfl, h⟩
  | b :: l, a, hd, h => by
    refine ⟨rfl, ?_⟩
    rcases h.1 with hn | ⟨_, hdue⟩
    · rw [hn]
      exact Building.links hd h.2
    · exact absurd hdue (hd a b)

end Portico.Lib
