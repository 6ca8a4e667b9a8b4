/-
  The links between the queued nodes.

  `QueueInv` is about the nodes between the exchange of `tail` and the return of `dequeue`, in
  the order of the exchanges: `tail` is the last of them, each link to a successor is there or
  some producer is about to write it, and `head` is the first of them unless a producer is
  about to publish the first node or the consumer has cleared `head` and not set it again.
  `DequeueOk` annotates the program counters of `dequeue`.

  Proved: every write of `enqueue` and every step of `dequeue` keeps it (`QueueInv.swap`,
  `linkPrev`, `linkHead`, `dequeue_spec`), and with no link due every node is reached from
  `head` or from the node being dequeued (`QueueInv.reaches`).
-/
import Portico.Lib.Linked
import Portico.Mpsc.Queue

namespace Portico.Mpsc

open Portico.Lib List
open Function (update update_of_ne update_self)

variable {μ : Type}

section Queue

variable {m m' : Mem μ} {qs : List Node} {links : Nat → Option (Node × Option Node)}
  {pc pc' : Option DequeuePc} {p : DequeuePc}

/-- `head` points to the first node. -/
def AtHead (m : Mem μ) (qs : List Node) (h : Node) : Prop :=
  m.head = some h ∧ qs.head? = some h

/-- The consumer has cleared `head`; the first node is the one it dequeues. -/
def Cleared (m : Mem μ) (qs : List Node) (links : Nat → Option (Node × Option Node))
    (h : Node) : Prop :=
  m.head = none ∧ qs.head? = some h ∧ ∀ i b, links i ≠ some (b, none)

/-- What the consumer knows at each point of `dequeue`. -/
def DequeueOk (m : Mem μ) (qs : List Node) (links : Nat → Option (Node × Option Node)) :
    DequeuePc → Prop
  | .loadHead => True
  | .loadNext h => AtHead m qs h
  | .loadTail h => AtHead m qs h
  | .spinNext h => AtHead m qs h
  | .advance h n => AtHead m qs h ∧ m.next h = some n
  | .clearHead h => AtHead m qs h
  | .casTail h => Cleared m qs links h
  | .spinLink h => Cleared m qs links h
  | .republish h n => Cleared m qs links h ∧ m.next h = some n

structure QueueInv (m : Mem μ) (qs : List Node) (links : Nat → Option (Node × Option Node))
    (pc : Option DequeuePc) : Prop where
  nodup : qs.Nodup
  tail : m.tail = qs.getLast?
  built : Building m.next (fun a b => ∃ i, links i = some (b, some a)) qs
  behind : ∀ i b a, links i = some (b, some a) → m.next a = none ∧ [a, b] <:+: qs
  first : ∀ i b, links i = some (b, none) → m.head = none ∧ qs.head? = some b
  once : ∀ i j b p p', links i = some (b, p) → links j = some (b, p') → i = j
  head : pc.bind DequeuePc.hole = none → m.head = qs.head? ∨ ∃ i b, links i = some (b, none)
  known : ∀ p, pc = some p → DequeueOk m qs links p

theorem QueueInv.mem (h : QueueInv m qs links pc) {i : Nat} {b : Node} {p : Option Node}
    (hl : links i = some (b, p)) : b ∈ qs := by
  cases p with
  | none => exact mem_of_mem_head? (h.first i b hl).2
  | some a => exact mem_of_infix_right (h.behind i b a hl).2

/-- The consumer's knowledge survives what keeps `head`, the first node and its link. -/
theorem DequeueOk.mono {qs' : List Node} {links' : Nat → Option (Node × Option Node)}
    (hat : ∀ k, AtHead m qs k → AtHead m' qs' k)
    (hcl : ∀ k, Cleared m qs links k → Cleared m' qs' links' k)
    (hnext : ∀ k n, qs.head? = some k → m.next k = some n → m'.next k = some n)
    (h : DequeueOk m qs links p) : DequeueOk m' qs' links' p := by
  cases p with
  | loadHead => trivial
  | loadNext k | loadTail k | spinNext k | clearHead k => exact hat k h
  | advance k n => exact ⟨hat k h.1, hnext k n h.1.2 h.2⟩
  | casTail k => exact hcl k h
  | spinLink k => exact hcl k h
  | republish k n => exact ⟨hcl k h.1, hnext k n h.1.2.1 h.2⟩

/-- Writes elsewhere in memory. -/
theorem QueueInv.frame (h : QueueInv m qs links pc) (hhead : m'.head = m.head)
    (htail : m'.tail = m.tail) (hnext : ∀ n ∈ qs, m'.next n = m.next n) :
    QueueInv m' qs links pc := by
  refine ⟨h.nodup, htail.trans h.tail, h.built.congr hnext fun _ _ _ => id, ?_, ?_, h.once, ?_, ?_⟩
  · intro i b a hl
    obtain ⟨hnone, hin⟩ := h.behind i b a hl
    exact ⟨(hnext a (mem_of_infix_left hin)).trans hnone, hin⟩
  · intro i b hl
    rw [hhead]
    exact h.first i b hl
  · rw [hhead]
    exact h.head
  · intro p hp
    refine (h.known p hp).mono (fun k hk => ⟨hhead.trans hk.1, hk.2⟩)
      (fun k hk => ⟨hhead.trans hk.1, hk.2⟩) (fun k n hk hn => ?_)
    exact (hnext k (mem_of_mem_head? hk)).trans hn

/-- The consumer moves on without writing. -/
theorem QueueInv.move (h : QueueInv m qs links pc)
    (hhole : pc'.bind DequeuePc.hole = none → pc.bind DequeuePc.hole = none)
    (hknown : ∀ p, pc' = some p → DequeueOk m qs links p) : QueueInv m qs links pc' :=
  ⟨h.nodup, h.tail, h.built, h.behind, h.first, h.once, fun hp => h.head (hhole hp), hknown⟩

/-- An empty queue has an empty `head`. -/
theorem QueueInv.head_of_nil (h : QueueInv m [] links pc) : m.head = none := by
  by_cases hp : pc.bind DequeuePc.hole = none
  · rcases h.head hp with hh | ⟨i, b, hl⟩
    · exact hh
    · exact (h.first i b hl).1
  · -- a cleared head belongs to a node in the queue
    exfalso
    cases pc with
    | none => exact hp rfl
    | some p =>
      have hknown := h.known p rfl
      cases p with
      | casTail | spinLink => exact absurd hknown.2.1 (by simp)
      | republish => exact absurd hknown.1.2.1 (by simp)
      | _ => exact hp rfl

/-! ### A producer's writes -/

section Producer

variable {i j : Nat} {n : Node} {l : Option (Node × Option Node)} {v : Node × Option Node}

theorem update_links_cases (h : update links i l j = some v) :
    (j = i ∧ l = some v) ∨ (j ≠ i ∧ links j = some v) := by
  by_cases hj : j = i
  · rw [hj, update_self] at h
    exact .inl ⟨hj, h⟩
  · rw [update_of_ne hj] at h
    exact .inr ⟨hj, h⟩

theorem update_links_keep (hj : links j = some v) (hi : links i ≠ some v) :
    update links i l j = some v := by
  rw [update_of_ne, hj]
  rintro rfl
  exact hi hj

theorem update_links_none (h : update links i none j = some v) : j ≠ i ∧ links j = some v := by
  rcases update_links_cases h with ⟨_, he⟩ | hj
  · cases he
  · exact hj

/-- The exchange of `tail`. -/
theorem QueueInv.swap (h : QueueInv m qs links pc) (hi : links i = none) (hn : n ∉ qs)
    (hnext : m.next n = none) (htail : m'.tail = some n) (hhead : m'.head = m.head)
    (hsame : m'.next = m.next) :
    QueueInv m' (qs ++ [n]) (update links i (some (n, m.tail))) pc := by
  have hkeep : ∀ {j v}, links j = some v →
      update links i (some (n, m.tail)) j = some v :=
    fun hj => update_links_keep hj (by simp [hi])
  have hfirst : ∀ {k}, qs.head? = some k → (qs ++ [n]).head? = some k := by
    intro k hk
    rw [head?_append, hk]
    rfl
  have hnil : m.tail = none → qs = [] := fun ht => getLast?_eq_none_iff.mp (h.tail ▸ ht)
  refine ⟨concat_eq_append ▸ h.nodup.concat hn, htail.trans (by simp), ?_, ?_, ?_, ?_, ?_, ?_⟩
  · rw [hsame]
    refine (h.built.congr (fun _ _ => rfl) fun a b _ ⟨j, hj⟩ => ⟨j, hkeep hj⟩).concat hnext ?_
    intro a ha
    exact ⟨i, by rw [update_self, h.tail, ha]⟩
  · intro j b a hl
    rw [hsame]
    rcases update_links_cases hl with ⟨_, he⟩ | ⟨_, hj⟩
    · obtain ⟨rfl, ht⟩ := Prod.mk.inj (Option.some.inj he)
      have hlast : qs.getLast? = some a := h.tail.symm.trans ht
      exact ⟨h.built.last hlast, infix_pair_last hlast⟩
    · obtain ⟨hnone, hin⟩ := h.behind j b a hj
      exact ⟨hnone, hin.trans (prefix_append qs [n]).isInfix⟩
  · intro j b hl
    rw [hhead]
    rcases update_links_cases hl with ⟨_, he⟩ | ⟨_, hj⟩
    · -- no tail found: the queue was empty
      obtain ⟨rfl, ht⟩ := Prod.mk.inj (Option.some.inj he)
      obtain rfl := hnil ht
      exact ⟨h.head_of_nil, rfl⟩
    · obtain ⟨hnone, hq⟩ := h.first j b hj
      exact ⟨hnone, hfirst hq⟩
  · intro j k b p p' hj hk
    rcases update_links_cases hj with ⟨rfl, hej⟩ | ⟨_, hj1⟩
    · rcases update_links_cases hk with ⟨rfl, _⟩ | ⟨_, hk1⟩
      · rfl
      · exact absurd ((Prod.mk.inj (Option.some.inj hej)).1 ▸ h.mem hk1) hn
    · rcases update_links_cases hk with ⟨rfl, hek⟩ | ⟨_, hk1⟩
      · exact absurd ((Prod.mk.inj (Option.some.inj hek)).1 ▸ h.mem hj1) hn
      · exact h.once j k b p p' hj1 hk1
  · intro hp
    rcases h.head hp with hh | ⟨j, b, hj⟩
    · cases hq : qs.head? with
      | none =>
        obtain rfl := head?_eq_none_iff.mp hq
        exact .inr ⟨i, n, by rw [update_self, h.tail]; rfl⟩
      | some => exact .inl (by rw [hhead, hh, hfirst hq, hq])
    · exact .inr ⟨j, b, hkeep hj⟩
  · intro p hp
    refine (h.known p hp).mono (fun k hk => ⟨hhead.trans hk.1, hfirst hk.2⟩)
      (fun k hk => ⟨hhead.trans hk.1, hfirst hk.2.1, fun j b hl => ?_⟩)
      (fun k c _ hc => by rw [hsame]; exact hc)
    rcases update_links_cases hl with ⟨_, he⟩ | ⟨_, hj⟩
    · have hempty := hnil (Prod.mk.inj (Option.some.inj he)).2
      exact absurd hk.2.1 (by simp [hempty])
    · exact hk.2.2 j b hj

/-- The link behind the previous tail. -/
theorem QueueInv.linkPrev {a : Node} (h : QueueInv m qs links pc)
    (hl : links i = some (n, some a)) :
    QueueInv (m.setNext a (some n)) qs (update links i none) pc := by
  obtain ⟨ha, hin⟩ := h.behind i n a hl
  refine ⟨h.nodup, h.tail, ?_, ?_, ?_, ?_, ?_, ?_⟩
  · refine Building.link ?_ h.nodup hin h.built
    rintro c d hc ⟨j, hj⟩
    refine ⟨j, update_links_keep hj ?_⟩
    rw [hl]
    simp [hc.symm]
  · intro j b c hj
    obtain ⟨hji, hj⟩ := update_links_none hj
    obtain ⟨hnone, hin1⟩ := h.behind j b c hj
    refine ⟨?_, hin1⟩
    rw [m.setNext_next_of_ne, hnone]
    -- two producers behind one node would have enqueued the same successor
    rintro rfl
    obtain rfl := infix_pair_unique h.nodup hin hin1
    exact hji (h.once j i n _ _ hj hl)
  · intro j b hj
    exact h.first j b (update_links_none hj).2
  · intro j k b p p' hj hk
    exact h.once j k b p p' (update_links_none hj).2 (update_links_none hk).2
  · intro hp
    refine (h.head hp).imp id ?_
    rintro ⟨j, b, hj⟩
    exact ⟨j, b, update_links_keep hj (by simp [hl])⟩
  · intro p hp
    refine DequeueOk.mono (fun k hk => ?_) (fun k hk => ?_) (fun k c _ hc => ?_) (h.known p hp)
    · exact hk
    · exact ⟨hk.1, hk.2.1, fun j b hj => hk.2.2 j b (update_links_none hj).2⟩
    · rw [m.setNext_next_of_ne, hc]
      rintro rfl
      simp [ha] at hc

/-- The first node becomes `head`. -/
theorem QueueInv.linkHead (h : QueueInv m qs links pc) (hl : links i = some (n, none)) :
    QueueInv { m with head := some n } qs (update links i none) pc := by
  obtain ⟨hnone, hq⟩ := h.first i n hl
  -- it was the only one about to
  have hothers : ∀ j b, update links i none j ≠ some (b, none) := by
    intro j b hj
    obtain ⟨hji, hj⟩ := update_links_none hj
    have hb := (h.first j b hj).2
    obtain rfl := Option.some.inj (hq.symm.trans hb)
    exact hji (h.once j i n _ _ hj hl)
  refine ⟨h.nodup, h.tail, ?_, ?_, ?_, ?_, fun _ => .inl hq.symm, ?_⟩
  · refine h.built.congr (fun _ _ => rfl) ?_
    rintro c d _ ⟨j, hj⟩
    exact ⟨j, update_links_keep hj (by simp [hl])⟩
  · intro j b c hj
    exact h.behind j b c (update_links_none hj).2
  · intro j b hj
    exact absurd hj (hothers j b)
  · intro j k b p p' hj hk
    exact h.once j k b p p' (update_links_none hj).2 (update_links_none hk).2
  · intro p hp
    refine DequeueOk.mono (fun k hk => ?_) (fun k hk => ?_) (fun k c _ hc => ?_) (h.known p hp)
    · exact absurd (hnone.symm.trans hk.1) (by simp)
    · exact absurd hl (hk.2.2 i n)
    · exact hc

end Producer

/-! ### The consumer's writes -/

variable (m') in
/-- The consumer makes the successor of the first node the new `head`. -/
theorem QueueInv.take {k n : Node} (h : QueueInv m qs links pc) (hk : qs.head? = some k)
    (hnext : m.next k = some n) (hno : ∀ i b, links i ≠ some (b, none))
    (hhead : m'.head = some n) (htail : m'.tail = m.tail) (hsame : m'.next = m.next) :
    ∃ rest, qs = k :: rest ∧ QueueInv m' rest links none := by
  obtain ⟨t, rfl⟩ := head?_eq_some_iff.mp hk
  obtain ⟨rest, rfl⟩ := h.built.next_eq hnext
  refine ⟨n :: rest, rfl, (nodup_cons.mp h.nodup).2, ?_, ?_, ?_, ?_, h.once,
    fun _ => .inl hhead, fun p hp => absurd hp (by simp)⟩
  · rw [htail, h.tail, getLast?_cons_cons]
  · rw [hsame]
    exact h.built.tail
  · intro i b a hl
    rw [hsame]
    obtain ⟨hnone, hin⟩ := h.behind i b a hl
    rcases infix_pair_cons hin with ⟨rfl, _⟩ | hin
    · simp [hnone] at hnext
    · exact ⟨hnone, hin⟩
  · intro i b hl
    exact absurd hl (hno i b)

/-- With `head` on the first node nobody is about to publish a first node. -/
theorem QueueInv.no_first (h : QueueInv m qs links pc) {k : Node} (hk : AtHead m qs k) :
    ∀ i b, links i ≠ some (b, none) := by
  intro i b hl
  exact absurd ((h.first i b hl).1.symm.trans hk.1) (by simp)

theorem QueueInv.clear {k : Node} (h : QueueInv m qs links pc) (hk : AtHead m qs k) :
    QueueInv { m with head := none } qs links (some (.casTail k)) := by
  refine ⟨h.nodup, h.tail, h.built, h.behind, fun i b hl => ⟨rfl, (h.first i b hl).2⟩, h.once,
    fun hp => absurd hp (by simp [DequeuePc.hole]), ?_⟩
  rintro _ ⟨rfl⟩
  exact ⟨rfl, hk.2, h.no_first hk⟩

variable (m') in
/-- The compare-exchange succeeds on the last node only. -/
theorem QueueInv.casTail {k : Node} (h : QueueInv m qs links pc) (hk : Cleared m qs links k)
    (ht : m.tail = some k) (hhead : m'.head = m.head) (htail : m'.tail = none) :
    qs = [k] ∧ QueueInv m' [] links none := by
  obtain ⟨t, rfl⟩ := head?_eq_some_iff.mp hk.2.1
  have hlast : (k :: t).getLast? = some k := h.tail.symm.trans ht
  obtain rfl : t = [] := by
    cases t with
    | nil => rfl
    | cons =>
      rw [getLast?_cons_cons] at hlast
      exact absurd (mem_of_getLast? hlast) (nodup_cons.mp h.nodup).1
  refine ⟨rfl, nodup_nil, htail, trivial, ?_, ?_, h.once,
    fun _ => .inl (hhead.trans hk.1), fun p hp => absurd hp (by simp)⟩
  · intro i b a hl
    rcases infix_pair_cons (h.behind i b a hl).2 with ⟨_, hb⟩ | hin
    · cases hb
    · exact absurd (infix_nil.mp hin) (by simp)
  · intro i b hl
    exact absurd hl (hk.2.2 i b)

/-- What a step of `dequeue` does: it stays in there, finds no first node, or takes it. -/
def DequeueSpec (m : Mem μ) (qs : List Node) (links : Nat → Option (Node × Option Node)) :
    Mem μ × DequeueOut → Prop
  | (m', .goOn pc) =>
    QueueInv m' qs links (some pc) ∧ (m' = m ∨ m' = { m with head := none })
  | (m', .returns none) =>
    m' = m ∧ QueueInv m qs links none ∧ (qs = [] ∨ ∃ i b, links i = some (b, none))
  | (m', .returns (some k)) =>
    ∃ rest, qs = k :: rest ∧ QueueInv m' rest links none ∧
      ∃ head tail, m' = { m with head := head, tail := tail }.taken k

theorem dequeue_spec (h : QueueInv m qs links (some p)) : DequeueSpec m qs links (dequeue m p) := by
  have hknown := h.known p rfl
  have hnot : ∀ {p'}, (none : Option DequeuePc) = some p' → DequeueOk m qs links p' :=
    fun hp => absurd hp (by simp)
  -- reads: only the program counter moves
  have hmove : ∀ p', (p'.hole = none → p.hole = none) → DequeueOk m qs links p' →
      DequeueSpec m qs links (m, .goOn p') := by
    intro p' hhole hok
    refine ⟨h.move hhole ?_, .inl rfl⟩
    rintro _ ⟨rfl⟩
    exact hok
  cases p with
  | loadHead =>
    simp only [dequeue]
    cases hh : m.head with
    | none =>
      refine ⟨rfl, h.move (fun _ => rfl) fun _ => hnot, ?_⟩
      exact (h.head rfl).imp (fun he => head?_eq_none_iff.mp (he.symm.trans hh)) id
    | some =>
      refine hmove _ (fun _ => rfl) ⟨hh, ?_⟩
      -- a published head is the first node
      rcases h.head rfl with he | ⟨i, k', hl⟩
      · exact he.symm.trans hh
      · exact absurd ((h.first i k' hl).1.symm.trans hh) (by simp)
  | loadNext k | spinNext k =>
    simp only [dequeue]
    cases hn : m.next k with
    | none => exact hmove _ (fun _ => rfl) hknown
    | some => exact hmove _ (fun _ => rfl) ⟨hknown, hn⟩
  | loadTail =>
    simp only [dequeue]
    split
    · exact hmove _ (fun _ => rfl) hknown
    · exact hmove _ (fun _ => rfl) hknown
  | advance k n =>
    obtain ⟨rest, hq, hrest⟩ := h.take ({ m with head := some n }.taken k) hknown.1.2 hknown.2
      (h.no_first hknown.1) rfl rfl rfl
    exact ⟨rest, hq, hrest, _, _, rfl⟩
  | clearHead => exact ⟨h.clear hknown, .inr rfl⟩
  | casTail k =>
    simp only [dequeue]
    by_cases ht : m.tail = some k
    · rw [if_pos ht]
      obtain ⟨hq, hrest⟩ := h.casTail ({ m with tail := none }.taken k) hknown ht rfl rfl
      exact ⟨[], hq, hrest, _, _, rfl⟩
    · rw [if_neg ht]
      exact hmove _ (fun hp => absurd hp (by simp [DequeuePc.hole])) hknown
  | spinLink k =>
    simp only [dequeue]
    cases hn : m.next k with
    | none => exact hmove _ (fun hp => absurd hp (by simp [DequeuePc.hole])) hknown
    | some => exact hmove _ (fun hp => absurd hp (by simp [DequeuePc.hole])) ⟨hknown, hn⟩
  | republish k n =>
    obtain ⟨rest, hq, hrest⟩ := h.take ({ m with head := some n }.taken k) hknown.1.2.1 hknown.2
      hknown.1.2.2 rfl rfl rfl
    exact ⟨rest, hq, hrest, _, _, rfl⟩

/-- With no link due, the pending nodes hang together behind `head`, or behind the node that is
    being dequeued while `head` is cleared. -/
theorem QueueInv.reaches (h : QueueInv m qs links pc) (hno : ∀ i, links i = none) :
    ∀ n ∈ qs, ∃ start, (m.head = some start ∨ pc.bind DequeuePc.hole = some start) ∧
      Relation.ReflTransGen (fun a b => m.next a = some b) start n := by
  intro n hn
  cases qs with
  | nil => cases hn
  | cons k =>
    have hlinks := h.built.links fun b c ⟨i, hi⟩ => absurd ((hno i).symm.trans hi) (by simp)
    refine ⟨k, ?_, hlinks.reaches n hn⟩
    by_cases hp : pc.bind DequeuePc.hole = none
    · rcases h.head hp with hh | ⟨i, b, hi⟩
      · exact .inl hh
      · exact absurd ((hno i).symm.trans hi) (by simp)
    · right
      cases pc with
      | none => exact absurd rfl hp
      | some p =>
        have hknown := h.known p rfl
        cases p with
        | casTail | spinLink => exact congrArg some (Option.some.inj hknown.2.1).symm
        | republish => exact congrArg some (Option.some.inj hknown.1.2.1).symm
        | _ => exact absurd rfl hp

end Queue

end Portico.Mpsc
