/-
  A linked FIFO with a head and a tail pointer.

  Nodes are numbered in the order of their allocation; `item` holds what an allocated node
  carries and `next` its link. `push` appends behind `tail` (or sets `head` in an empty queue),
  `pop` takes the node at `head`, resets `tail` when it was the last one, and frees it.

  A `Fifo` carries the list of its nodes with what ties it to the pointers: following `next`
  from `head` visits exactly these nodes, `tail` is the last of them, and each is allocated. So
  a queue whose tail dangles cannot be built, and the two operations keep all of it.

  Proved: on the list of what the nodes carry, `push` appends and `pop` takes the first.
-/
import Portico.Lib.Linked

namespace Portico.Lib

open List

open Function (update update_of_ne update_self)

universe u

section Links

variable {ι : Type u} [DecidableEq ι] {next : ι → Option ι}

/-- A node that is not in the list is linked behind its last node. -/
theorem Links.concat : ∀ {l : List ι} {p : Option ι} {t x : ι}, Links next p l → l.Nodup → x ∉ l →
    l.getLast? = some t →
    Links (update (update next x none) t (some x)) p (l ++ [x])
  | [a], p, t, x, h, _, hx, hlast => by
    obtain rfl : a = t := by simpa using hlast
    have hne : x ≠ a := by simpa using hx
    refine ⟨h.1, ?_⟩
    rw [update_self]
    exact ⟨rfl, by rw [update_of_ne hne, update_self]; rfl⟩
  | a :: b :: l, p, t, x, h, hnd, hx, hlast => by
    have hlast : (b :: l).getLast? = some t := by rw [← hlast, getLast?_cons_cons]
    have hat : a ≠ t := fun e =>
      (nodup_cons.mp hnd).1 (e ▸ mem_of_getLast? hlast)
    have hax : a ≠ x := fun e => hx (e ▸ mem_cons_self)
    refine ⟨h.1, ?_⟩
    rw [update_of_ne hat, update_of_ne hax]
    exact Links.concat h.2 (nodup_cons.mp hnd).2 (fun hm => hx (mem_cons_of_mem a hm))
      hlast

end Links

structure Fifo (α : Type u) where
  head : Option Nat
  tail : Option Nat
  next : Nat → Option Nat
  item : Nat → Option α
  fresh : Nat
  nodes : List Nat
  linked : Links next head nodes
  ends : tail = nodes.getLast?
  distinct : nodes.Nodup
  below : ∀ n ∈ nodes, n < fresh
  held : ∀ n ∈ nodes, (item n).isSome = true

namespace Fifo

variable {α : Type u} {q : Fifo α} {c : Nat}

def empty : Fifo α where
  head := none
  tail := none
  next := fun _ => none
  item := fun _ => none
  fresh := 0
  nodes := []
  linked := rfl
  ends := rfl
  distinct := nodup_nil
  below := by simp
  held := by simp

theorem fresh_not_mem (q : Fifo α) : q.fresh ∉ q.nodes := fun h =>
  absurd (q.below _ h) (Nat.lt_irrefl _)

theorem nodes_eq_nil_of_tail (h : q.tail = none) : q.nodes = [] :=
  getLast?_eq_none_iff.mp (q.ends.symm.trans h)

/-- The node's link is cleared; the tail's link, or the head, is set to it. -/
def pushLinks (q : Fifo α) : Option Nat × (Nat → Option Nat) :=
  match q.tail with
  | some t => (q.head, update (update q.next q.fresh none) t (some q.fresh))
  | none => (some q.fresh, update q.next q.fresh none)

theorem pushLinks_links (q : Fifo α) :
    Links q.pushLinks.2 q.pushLinks.1 (q.nodes ++ [q.fresh]) := by
  unfold pushLinks
  cases ht : q.tail with
  | some => exact q.linked.concat q.distinct q.fresh_not_mem (q.ends.symm.trans ht)
  | none =>
    rw [nodes_eq_nil_of_tail ht]
    have hlink : update q.next q.fresh none q.fresh = none := update_self _ _ _
    exact ⟨rfl, hlink⟩

def push (q : Fifo α) (a : α) : Fifo α where
  head := q.pushLinks.1
  tail := some q.fresh
  next := q.pushLinks.2
  item := update q.item q.fresh (some a)
  fresh := q.fresh + 1
  nodes := q.nodes ++ [q.fresh]
  linked := q.pushLinks_links
  ends := by simp
  distinct := q.distinct.append (nodup_singleton _) (by simpa using q.fresh_not_mem)
  below := by
    intro n hn
    rcases mem_append.mp hn with hn | hn
    · exact Nat.lt_succ_of_lt (q.below n hn)
    · rw [mem_singleton.mp hn]
      exact Nat.lt_succ_self _
  held := by
    intro n hn
    by_cases he : n = q.fresh
    · rw [he, update_self]
      rfl
    · rw [update_of_ne he]
      exact q.held n (by simpa [he] using hn)

theorem nodes_of_head (h : q.head = some c) :
    q.nodes = c :: q.nodes.tail ∧ Links q.next (q.next c) q.nodes.tail := by
  obtain ⟨l, hl, hrest⟩ := Links.cons_of_some (h ▸ q.linked)
  rw [hl]
  exact ⟨rfl, hrest⟩

/-- Past the last node the link is empty, and the tail goes with it. -/
theorem ends_tail (h : q.head = some c) :
    (if (q.next c).isNone then none else q.tail) = q.nodes.tail.getLast? := by
  obtain ⟨hcons, hrest⟩ := nodes_of_head h
  have hends := q.ends
  rw [hcons] at hends
  cases hl : q.nodes.tail with
  | nil =>
    rw [hl] at hrest
    rw [show q.next c = none from hrest]
    rfl
  | cons b =>
    rw [hl] at hrest hends
    rw [show q.next c = some b from hrest.1, hends]
    exact getLast?_cons_cons

/-- The queue without the node at its head, which is freed. -/
def unlink (q : Fifo α) (c : Nat) (h : q.head = some c) : Fifo α where
  head := q.next c
  tail := if (q.next c).isNone then none else q.tail
  next := q.next
  item := update q.item c none
  fresh := q.fresh
  nodes := q.nodes.tail
  linked := (nodes_of_head h).2
  ends := ends_tail h
  distinct := q.distinct.tail
  below := fun n hn => q.below n (mem_of_mem_tail hn)
  held := by
    intro n hn
    have hne : n ≠ c := by
      rintro rfl
      have hnd := q.distinct
      rw [(nodes_of_head h).1] at hnd
      exact (nodup_cons.mp hnd).1 hn
    rw [update_of_ne hne]
    exact q.held n (mem_of_mem_tail hn)

def pop (q : Fifo α) : Option α × Fifo α :=
  match h : q.head with
  | none => (none, q)
  | some c => (q.item c, q.unlink c h)

/-- What the queue carries, first in first. -/
def toList (q : Fifo α) : List α := q.nodes.filterMap q.item

@[simp] theorem toList_empty : (empty : Fifo α).toList = [] := rfl

theorem filterMap_update_of_not_mem {f : Nat → Option α} {l : List Nat} {n : Nat} (x : Option α)
    (h : n ∉ l) : l.filterMap (update f n x) = l.filterMap f := by
  apply filterMap_congr
  intro m hm
  exact update_of_ne (fun e : m = n => h (e ▸ hm)) _ _

@[simp] theorem toList_push (q : Fifo α) (a : α) : (q.push a).toList = q.toList ++ [a] := by
  unfold toList push
  rw [filterMap_append, filterMap_update_of_not_mem _ q.fresh_not_mem]
  simp

theorem toList_of_head (h : q.head = some c) :
    ∃ a, q.item c = some a ∧ q.toList = a :: (q.unlink c h).toList := by
  have hcons := (nodes_of_head h).1
  have hmem : c ∈ q.nodes := by
    rw [hcons]
    exact mem_cons_self
  obtain ⟨a, ha⟩ := Option.isSome_iff_exists.mp (q.held c hmem)
  have hnot : c ∉ q.nodes.tail := by
    have hnd := q.distinct
    rw [hcons] at hnd
    exact (nodup_cons.mp hnd).1
  refine ⟨a, ha, ?_⟩
  unfold toList unlink
  rw [filterMap_update_of_not_mem _ hnot, hcons, filterMap_cons_some ha]
  rfl

theorem toList_eq_nil_of_head (h : q.head = none) : q.toList = [] := by
  have hlinks := q.linked
  rw [h] at hlinks
  unfold toList
  cases hn : q.nodes with
  | nil => rfl
  | cons =>
    rw [hn] at hlinks
    exact absurd hlinks.1 (by simp)

theorem pop_of_toList_nil (h : q.toList = []) : q.pop = (none, q) := by
  unfold pop
  split
  · rfl
  · rename_i c hc
    obtain ⟨a, -, hl⟩ := toList_of_head hc
    simp [h] at hl

theorem pop_of_toList_cons {a : α} {l : List α} (h : q.toList = a :: l) :
    q.pop.1 = some a ∧ q.pop.2.toList = l := by
  unfold pop
  split
  · rename_i hc
    exact absurd (h.symm.trans (toList_eq_nil_of_head hc)) (by simp)
  · rename_i c hc
    obtain ⟨b, hb, hl⟩ := toList_of_head hc
    obtain ⟨rfl, hrest⟩ := cons.inj (h.symm.trans hl)
    exact ⟨hb, hrest.symm⟩

/-- What `pop` returns tells what the queue held. -/
theorem toList_of_pop (q : Fifo α) :
    (q.pop.1 = none ∧ q.toList = [] ∧ q.pop.2 = q) ∨
      ∃ a, q.pop.1 = some a ∧ q.toList = a :: q.pop.2.toList := by
  cases h : q.toList with
  | nil =>
    rw [pop_of_toList_nil h]
    exact .inl ⟨rfl, rfl, rfl⟩
  | cons a =>
    obtain ⟨ha, hl⟩ := pop_of_toList_cons h
    exact .inr ⟨a, ha, by rw [hl]⟩

end Fifo

end Portico.Lib
