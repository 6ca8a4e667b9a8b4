/-
  Expanding the node pool of the message queue: `ws_mpsc_queue_expand_pool_safe` and
  `expand_node_pool` of src/ws/ws_mpsc.c, with no concurrent operation.

  Model. The address of a node is the array it is in and its index there. `allocated` says which
  arrays are; freeing one leaves the pointers into it, and what they lead to, as they are. The
  answer of `calloc` is a fresh array or none. Times and statistics are left out.

  `Holding q queue held free`: the nodes of the pool are queued, held by a thread or on the free
  list, each once. `Preserved` is what an expansion is meant to keep.

  Proved: `pool_preserved_iff`. The queue is preserved exactly if the call is `Refused`. Otherwise
  the queued nodes and those that are held are in the array that is freed, and the nodes that take
  their place in the new one are on no list. Only the count of the free list is right.
-/
import Portico.Lib.Linked

namespace Portico.Mpsc

open Portico.Lib List

variable {μ : Type}

abbrev Addr := Nat × Nat

structure PoolQueue (μ : Type) where
  nodePool : Nat
  nodePoolSize : Nat
  maxPoolSize : Nat
  head : Option Addr
  tail : Option Addr
  freeHead : Option Addr
  freeNodes : Nat
  expanding : Bool
  next : Addr → Option Addr
  data : Addr → Option μ
  allocated : Nat → Bool

namespace PoolQueue

/-- The old nodes are copied, the new ones linked to a free list, and the old array is freed. -/
def moved (q : PoolQueue μ) (newSize newPool : Nat) : PoolQueue μ :=
  { q with
    nodePool := newPool
    nodePoolSize := newSize
    freeHead := some (newPool, q.nodePoolSize)
    freeNodes := newSize - q.nodePoolSize
    next := fun n =>
      if n.1 = newPool then
        if n.2 < q.nodePoolSize then q.next (q.nodePool, n.2)
        else if n.2 + 1 < newSize then some (newPool, n.2 + 1) else none
      else q.next n
    data := fun n =>
      if n.1 = newPool then if n.2 < q.nodePoolSize then q.data (q.nodePool, n.2) else none
      else q.data n
    allocated := fun a =>
      if a = q.nodePool then false else if a = newPool then true else q.allocated a }

def expandNodePool (q : PoolQueue μ) (newSize : Nat) (calloc : Option Nat) : Int × PoolQueue μ :=
  if newSize ≤ q.nodePoolSize ∨ newSize > q.maxPoolSize then (-1, q)
  else if q.expanding then (0, q)
  else match calloc with
    | none => (-1, q)
    | some newPool => (0, q.moved newSize newPool)

def expandPoolSafe (q : PoolQueue μ) (newSize : Nat) (calloc : Option Nat) : Int × PoolQueue μ :=
  if newSize ≤ q.nodePoolSize ∨ newSize > q.maxPoolSize then (-1, q)
  else if q.freeNodes < q.nodePoolSize / 2 then (-2, q)
  else q.expandNodePool newSize calloc

/-- `ws_mpsc_queue_dequeue`, where no producer is about to write a link. -/
def dequeue (q : PoolQueue μ) : Option (Addr × PoolQueue μ) :=
  match q.head with
  | none => none
  | some head =>
    match q.next head with
    | some next => some (head, { q with head := some next })
    | none =>
      if q.tail = some head then some (head, { q with head := none, tail := none }) else none

/-- These nodes are dequeued, and then the queue is empty. -/
def Dequeues : PoolQueue μ → List Addr → Prop
  | q, [] => q.head = none
  | q, n :: l => ∃ q', q.dequeue = some (n, q') ∧ Dequeues q' l

structure Holding (q : PoolQueue μ) (queue held free : List Addr) : Prop where
  live : q.allocated q.nodePool = true
  nodes : 0 < q.nodePoolSize
  queued : q.Dequeues queue
  links : Links q.next q.freeHead free
  each : (queue ++ held ++ free).Perm ((range q.nodePoolSize).map (q.nodePool, ·))
  count : q.freeNodes = free.length

/-- The messages of `q` are dequeued from nodes that are allocated, in the same order, and the free
    list holds every other node of the pool that is not held, in number `freeNodes`. -/
def Preserved (q : PoolQueue μ) (queue held : List Addr) (q' : PoolQueue μ) : Prop :=
  ∃ queue' free', q'.Dequeues queue' ∧ queue'.map q'.data = queue.map q.data ∧
    (∀ n ∈ queue', q'.allocated n.1 = true) ∧ Links q'.next q'.freeHead free' ∧
    (∀ i < q'.nodePoolSize, (q'.nodePool, i) ∉ queue' → (q'.nodePool, i) ∉ held →
      (q'.nodePool, i) ∈ free') ∧
    q'.freeNodes = free'.length

variable {q q' : PoolQueue μ} {queue held free : List Addr} {newSize newPool : Nat}
  {calloc : Option Nat} {n : Addr}

/-- The new size is not larger or over the maximum, fewer than half of the nodes are free, an
    expansion is going on, or there is no memory. -/
def Refused (q : PoolQueue μ) (newSize : Nat) (calloc : Option Nat) : Prop :=
  newSize ≤ q.nodePoolSize ∨ q.maxPoolSize < newSize ∨ q.freeNodes < q.nodePoolSize / 2 ∨
    q.expanding = true ∨ calloc = none

theorem expandPoolSafe_cases (q : PoolQueue μ) (newSize : Nat) (calloc : Option Nat) :
    q.Refused newSize calloc ∧ (q.expandPoolSafe newSize calloc).2 = q ∨
      ¬q.Refused newSize calloc ∧ ∃ newPool, calloc = some newPool ∧ q.nodePoolSize < newSize ∧
        (q.expandPoolSafe newSize calloc).2 = q.moved newSize newPool := by
  unfold expandPoolSafe Refused
  split
  · next hsize => exact .inl ⟨by omega, rfl⟩
  · next hsize =>
    split
    · next hbusy => exact .inl ⟨.inr (.inr (.inl hbusy)), rfl⟩
    · unfold expandNodePool
      rw [if_neg hsize]
      split
      · next hexp => exact .inl ⟨.inr (.inr (.inr (.inl hexp))), rfl⟩
      · cases calloc with
        | none => exact .inl ⟨by simp, rfl⟩
        | some newPool => exact .inr ⟨by simp_all, newPool, rfl, by omega, rfl⟩

theorem dequeue_head (h : q.dequeue = some (n, q')) : q.head = some n := by
  unfold dequeue at h
  split at h
  · cases h
  · next head hhead =>
    split at h
    · cases h
      exact hhead
    · split at h
      · cases h
        exact hhead
      · cases h

theorem Dequeues.unique {l l' : List Addr} (h : q.Dequeues l) (h' : q.Dequeues l') : l = l' := by
  induction l generalizing q l' with
  | nil =>
    cases l' with
    | nil => rfl
    | cons =>
      obtain ⟨_, hn, -⟩ := h'
      exact nomatch h.symm.trans (dequeue_head hn)
  | cons n l ih =>
    obtain ⟨q1, hn, hrest⟩ := h
    cases l' with
    | nil => exact nomatch h'.symm.trans (dequeue_head hn)
    | cons n' l' =>
      obtain ⟨q2, hn', hrest'⟩ := h'
      cases hn.symm.trans hn'
      rw [ih hrest hrest']

/-- Nothing is written to the nodes of other arrays. -/
theorem dequeue_moved (h : q.dequeue = some (n, q')) (hn : n.1 ≠ newPool) :
    (q.moved newSize newPool).dequeue = some (n, q'.moved newSize newPool) := by
  have hhead := dequeue_head h
  have hnext : (q.moved newSize newPool).next n = q.next n := if_neg hn
  unfold dequeue at h ⊢
  rw [show (q.moved newSize newPool).head = some n from hhead]
  rw [hhead] at h
  dsimp only at h ⊢
  rw [hnext]
  split at h
  · cases h
    rfl
  · split at h
    · next htail =>
      cases h
      exact if_pos htail
    · cases h

theorem Dequeues.moved {l : List Addr} (h : q.Dequeues l) (hl : ∀ n ∈ l, n.1 ≠ newPool) :
    (q.moved newSize newPool).Dequeues l := by
  induction l generalizing q with
  | nil => exact h
  | cons n l ih =>
    obtain ⟨q', hn, hrest⟩ := h
    exact ⟨_, dequeue_moved hn (hl n mem_cons_self),
      ih hrest fun m hm => hl m (mem_cons_of_mem n hm)⟩

/-- The free list of a moved pool. -/
def newNodes (q : PoolQueue μ) (newSize newPool : Nat) : List Addr :=
  (range' q.nodePoolSize (newSize - q.nodePoolSize)).map (newPool, ·)

theorem moved_links (hsize : q.nodePoolSize < newSize) :
    Links (q.moved newSize newPool).next (q.moved newSize newPool).freeHead
      (q.newNodes newSize newPool) := by
  obtain ⟨k, hk⟩ := Nat.exists_eq_add_of_lt hsize
  rw [newNodes, show newSize - q.nodePoolSize = k + 1 by omega]
  refine links_range' hk.symm fun j hle _ => ?_
  rw [PoolQueue.moved]
  dsimp only
  rw [if_pos rfl, if_neg (Nat.not_lt_of_le hle)]

theorem Holding.in_pool (h : q.Holding queue held free) (hn : n ∈ queue ++ held) :
    n.1 = q.nodePool := by
  have hmem := h.each.mem_iff.mp (mem_append_left free hn)
  obtain ⟨i, -, rfl⟩ := mem_map.mp hmem
  rfl

/-- A pool that moved has not preserved its queue. -/
theorem not_preserved_moved (h : q.Holding queue held free) (hfresh : q.nodePool ≠ newPool)
    (hsize : q.nodePoolSize < newSize) :
    ¬q.Preserved queue held (q.moved newSize newPool) := by
  rintro ⟨queue', free', hqueue', -, -, hlinks, hall, -⟩
  have hmoved {n : Addr} (hn : n ∈ queue ++ held) : n.1 ≠ newPool := h.in_pool hn ▸ hfresh
  have hsame : queue' = queue :=
    hqueue'.unique (h.queued.moved fun n hn => hmoved (mem_append_left held hn))
  subst hsame
  -- the copy of node 0 is not queued or held, and so would have to be free
  have hnode : ((newPool, 0) : Addr) ∈ free' := by
    refine hall 0 (Nat.zero_lt_of_lt hsize) (fun hn => ?_) fun hn => ?_
    · exact hmoved (mem_append_left held hn) rfl
    · exact hmoved (mem_append_right _ hn) rfl
  rw [hlinks.unique (moved_links hsize), newNodes] at hnode
  have hpos := h.nodes
  simp at hnode
  omega

theorem Holding.preserved (h : q.Holding queue held free) : q.Preserved queue held q := by
  refine ⟨queue, free, h.queued, rfl, fun n hn => ?_, h.links, fun i hi hqueue hheld => ?_, h.count⟩
  · rw [h.in_pool (mem_append_left held hn)]
    exact h.live
  · have hmem := h.each.mem_iff.mpr (mem_map.mpr ⟨i, mem_range.mpr hi, rfl⟩)
    simpa [hqueue, hheld] using hmem

/-- For every queue whose nodes are all accounted for: a call preserves it exactly if it is
    refused. Otherwise the queued and held nodes, which are what is dequeued, are no longer
    allocated, and the free list has the new nodes only, which are counted. -/
theorem pool_preserved_iff (h : q.Holding queue held free) (newSize : Nat) (calloc : Option Nat)
    (hfresh : ∀ a, calloc = some a → q.allocated a = false) :
    let q' := (q.expandPoolSafe newSize calloc).2
    (q.Preserved queue held q' ↔ q.Refused newSize calloc) ∧
      (¬q.Refused newSize calloc →
        q'.Dequeues queue ∧ (∀ n ∈ queue ++ held, q'.allocated n.1 = false) ∧
        ∃ new, Links q'.next q'.freeHead new ∧ q'.freeNodes = new.length ∧
          ∀ n, n ∈ new ↔ n.1 = q'.nodePool ∧ q.nodePoolSize ≤ n.2 ∧ n.2 < newSize) := by
  intro q'
  rcases expandPoolSafe_cases q newSize calloc with
    ⟨href, hsame⟩ | ⟨href, newPool, hcalloc, hsize, hmoved⟩
  · have hq : q' = q := hsame
    exact ⟨iff_of_true (hq ▸ h.preserved) href, fun hne => absurd href hne⟩
  · have hne : q.nodePool ≠ newPool := by
      rintro rfl
      exact nomatch h.live.symm.trans (hfresh _ hcalloc)
    have hq : q' = q.moved newSize newPool := hmoved
    clear_value q'
    subst hq
    refine ⟨iff_of_false (not_preserved_moved h hne hsize) href, fun _ => ⟨?_, ?_, ?_⟩⟩
    · exact h.queued.moved fun n hn => h.in_pool (mem_append_left held hn) ▸ hne
    · intro n hn
      exact if_pos (h.in_pool hn)
    · refine ⟨_, moved_links hsize, by simp [PoolQueue.moved, newNodes], fun n => ?_⟩
      obtain ⟨a, i⟩ := n
      simp only [newNodes, mem_map, mem_range'_1, Prod.mk.injEq]
      constructor
      · rintro ⟨j, hj, rfl, rfl⟩
        exact ⟨rfl, hj.1, by omega⟩
      · rintro ⟨rfl, hle, hlt⟩
        exact ⟨i, ⟨hle, by omega⟩, rfl, rfl⟩

/-- A pool of two nodes, of which one is queued. -/
def oneQueued : PoolQueue Nat :=
  { nodePool := 0, nodePoolSize := 2, maxPoolSize := 8, head := some (0, 0), tail := some (0, 0),
    freeHead := some (0, 1), freeNodes := 1, expanding := false, next := fun _ => none,
    data := fun n => if n = (0, 0) then some 7 else none, allocated := fun a => a == 0 }

theorem oneQueued_holding : oneQueued.Holding [(0, 0)] [] [(0, 1)] :=
  ⟨rfl, by decide, ⟨_, rfl, rfl⟩, ⟨rfl, rfl⟩, .refl _, rfl⟩

/-- A failed allocation leaves the queue alone. -/
theorem pool_preserved_iff_no_memory :
    oneQueued.Preserved [(0, 0)] [] (oneQueued.expandPoolSafe 4 none).2 :=
  (pool_preserved_iff oneQueued_holding 4 none nofun).1.mpr (by simp [Refused])

/-- The expansion is admitted and succeeds. The message is dequeued from the array that is freed,
    and the free list starts at the third node of the new one. -/
theorem expansion_frees_queued_node :
    let r := oneQueued.expandPoolSafe 4 (some 1)
    r.1 = 0 ∧ (r.2.dequeue.map Prod.fst) = some (0, 0) ∧ r.2.allocated 0 = false ∧
      r.2.freeHead = some (1, 2) ∧ r.2.next (1, 2) = some (1, 3) ∧ r.2.next (1, 3) = none ∧
      r.2.nodePoolSize = 4 := by
  decide

end PoolQueue

end Portico.Mpsc
