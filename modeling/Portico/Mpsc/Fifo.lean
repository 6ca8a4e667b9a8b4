/-
  First in, first out: the invariant of the whole queue, and what it gives for every run.

  `Inv` joins the links between the queued nodes (`Portico.Mpsc.Linking`) with the pool
  (`Portico.Mpsc.Pool`): queued nodes are nobody's to write, and what they carry stays in them.

  Proved: `mpsc_fifo`, in every state that any interleaving reaches, what was dequeued is a
  first part of what was enqueued, and with no enqueue in progress every pending node can be
  reached from `head`, or from the node the consumer is dequeuing while `head` is cleared.
  From `head` alone they cannot always be reached (`head_cleared_with_two_pending`).
-/
import Portico.Mpsc.Linking
import Portico.Mpsc.Pool

namespace Portico.Mpsc

open Portico.Lib List
open Function (update update_eq_self update_of_ne update_self)

variable {μ : Type}

structure Inv (s : State μ) (loc : Node → Loc) (f : List Node) (q : List (Node × Option μ)) :
    Prop where
  pool : PoolInv s.mem loc f
  prods : ∀ i, ProdOk s.mem loc (.producer i) (s.prods i)
  cons : ConsOk s.mem loc s.cons
  queued : ∀ e ∈ q, loc e.1 = .queued ∧ s.mem.data e.1 = e.2
  history : s.mem.enqueued = s.mem.dequeued ++ q
  queue : QueueInv s.mem (q.map Prod.fst) s.links s.cons.dequeuePc

variable {n : Node} {loc' : Node → Loc} {i : Nat} {b : Batch} {stop : Bool} {s : State μ}

section System

variable {s : State μ} {loc : Node → Loc} {f : List Node} {q : List (Node × Option μ)} {m' : Mem μ}
  {pc : ProdPc μ} {f' : List Node} {allocOk : Bool} {p : DequeuePc} {c : ConsPc}

theorem Inv.queued_node (h : Inv s loc f q) (hn : n ∈ q.map Prod.fst) : loc n = .queued := by
  obtain ⟨e, he, rfl⟩ := mem_map.mp hn
  exact (h.queued e he).1

theorem links_update (s : State μ) (m : Mem μ) (i : Nat) (pc : ProdPc μ) :
    State.links { s with mem := m, prods := update s.prods i pc } =
      update s.links i pc.link := by
  funext j
  by_cases hj : j = i
  · simp [State.links, hj]
  · simp [State.links, hj]

theorem prods_update (hpc : ProdOk m' loc' (.producer i) pc)
    (hothers : ∀ j, j ≠ i → ProdOk m' loc' (.producer j) (s.prods j)) (j : Nat) :
    ProdOk m' loc' (.producer j) (update s.prods i pc j) := by
  by_cases hj : j = i
  · rw [hj, update_self]
    exact hpc
  · rw [update_of_ne hj]
    exact hothers j hj

/-- A step of producer `i` that does not touch the queue. -/
theorem Inv.poolProd (h : Inv s loc f q) (hstep : PoolStep (.producer i) s.mem m' loc loc' f')
    (hpc : ProdOk m' loc' (.producer i) pc) (hi : s.links i = none) (hlink : pc.link = none) :
    Inv { s with mem := m', prods := update s.prods i pc } loc' f' q := by
  refine ⟨hstep.pool, ?_, (h.cons).frame (hstep.others _ (by simp)), ?_, ?_, ?_⟩
  · refine prods_update hpc fun j hj => (h.prods j).frame (hstep.others _ ?_)
    simp [hj]
  · intro e he
    obtain ⟨hloc, hdata⟩ := h.queued e he
    obtain ⟨hloc', _, hdata'⟩ := hstep.queued e.1 hloc
    exact ⟨hloc', hdata'.trans hdata⟩
  · rw [hstep.enqueued, hstep.dequeued]
    exact h.history
  · rw [links_update, hlink, ← hi, update_eq_self]
    exact h.queue.frame hstep.head hstep.tail
      fun n hn => (hstep.queued n (h.queued_node hn)).2.1

/-- A step of the consumer that does not touch the queue. -/
theorem Inv.poolCons (h : Inv s loc f q) {pc : ConsPc}
    (hstep : PoolStep .consumer s.mem m' loc loc' f') (hpc : ConsOk m' loc' pc)
    (hold : s.cons.dequeuePc.bind DequeuePc.hole = none)
    (hnew : ∀ p, pc.dequeuePc = some p → p = .loadHead) :
    Inv { s with mem := m', cons := pc } loc' f' q := by
  refine ⟨hstep.pool, fun j => (h.prods j).frame (hstep.others _ (by simp)), hpc, ?_, ?_, ?_⟩
  · intro e he
    obtain ⟨hloc, hdata⟩ := h.queued e he
    obtain ⟨hloc', _, hdata'⟩ := hstep.queued e.1 hloc
    exact ⟨hloc', hdata'.trans hdata⟩
  · rw [hstep.enqueued, hstep.dequeued]
    exact h.history
  · refine QueueInv.move (QueueInv.frame h.queue hstep.head hstep.tail
      fun n hn => (hstep.queued n (h.queued_node hn)).2.1) (fun _ => hold) ?_
    intro p hp
    rw [hnew p hp]
    trivial

/-- The exchange of `tail`: the producer's node becomes a queued one. -/
theorem Inv.swap (h : Inv s loc f q) (hi : s.prods i = .enqSwap n) :
    Inv { s with
      mem := { s.mem with tail := some n, enqueued := s.mem.enqueued ++ [(n, s.mem.data n)] },
      prods := update s.prods i (.enqLink n s.mem.tail) }
      (update loc n .queued) f (q ++ [(n, s.mem.data n)]) := by
  have hok := h.prods i
  rw [hi] at hok
  obtain ⟨hown, hnext⟩ := hok
  have hstay : ∀ k, loc k ≠ .owned (.producer i) →
      update loc n .queued k = loc k := by
    intro k hk
    apply update_of_ne
    rintro rfl
    exact hk hown
  have hothers : ∀ t', t' ≠ .producer i → Undisturbed t' s.mem
      { s.mem with tail := some n, enqueued := s.mem.enqueued ++ [(n, s.mem.data n)] } loc
      (update loc n .queued) := by
    intro t' ht
    refine .of_queue h.pool rfl rfl (fun _ _ => rfl) fun k hk => (hstay k ?_).trans hk
    rw [hk]
    exact fun e => ht (Loc.owned.inj e)
  refine ⟨⟨h.pool.links, h.pool.nodup, fun k hk => ?_⟩, ?_, (h.cons).frame (hothers _ (by simp)),
    ?_, ?_, ?_⟩
  · have hfree := h.pool.free k hk
    exact (hstay k (by simp [hfree])).trans hfree
  · exact prods_update trivial fun j hj => (h.prods j).frame (hothers _ (by simp [hj]))
  · intro e he
    rcases mem_append.mp he with he | he
    · obtain ⟨hloc, hdata⟩ := h.queued e he
      exact ⟨(hstay e.1 (by simp [hloc])).trans hloc, hdata⟩
    · obtain rfl := mem_singleton.mp he
      exact ⟨update_self _ _ _, rfl⟩
  · show s.mem.enqueued ++ _ = s.mem.dequeued ++ (q ++ _)
    rw [h.history, append_assoc]
  · rw [links_update, map_append]
    refine h.queue.swap (by simp [State.links, hi, ProdPc.link]) ?_ hnext rfl rfl rfl
    intro hmem
    exact absurd (hown.symm.trans (h.queued_node hmem)) (by simp)

/-- The link behind the exchange, at the previous tail or at `head`. -/
theorem Inv.link (h : Inv s loc f q) {p : Option Node} (hi : s.prods i = .enqLink n p)
    (hstep : prodStep (.producer i) allocOk s.mem (.enqLink n p) = some (m', pc)) :
    Inv { s with mem := m', prods := update s.prods i pc } loc f q := by
  have hlink : s.links i = some (n, p) := by simp [State.links, hi, ProdPc.link]
  cases p with
  | none =>
    cases hstep
    have hothers : ∀ t', Undisturbed t' s.mem { s.mem with head := some n } loc loc :=
      fun t' => .of_queue h.pool rfl rfl (fun _ _ => rfl) fun _ hk => hk
    refine ⟨⟨h.pool.links, h.pool.nodup, h.pool.free⟩,
      prods_update trivial fun j _ => (h.prods j).frame (hothers _),
      (h.cons).frame (hothers _), h.queued, h.history, ?_⟩
    rw [links_update]
    exact h.queue.linkHead hlink
  | some a =>
    cases hstep
    have ha : loc a = .queued :=
      h.queued_node (mem_of_infix_left (h.queue.behind i n a hlink).2)
    have hkeep : ∀ k, loc k ≠ .queued → (s.mem.setNext a (some n)).next k = s.mem.next k := by
      intro k hk
      apply s.mem.setNext_next_of_ne
      rintro rfl
      exact hk ha
    have hothers : ∀ t', Undisturbed t' s.mem (s.mem.setNext a (some n)) loc loc :=
      fun t' => .of_queue h.pool rfl rfl hkeep fun _ hk => hk
    refine ⟨⟨?_, h.pool.nodup, h.pool.free⟩,
      prods_update trivial fun j _ => (h.prods j).frame (hothers _),
      (h.cons).frame (hothers _), h.queued, h.history, ?_⟩
    · exact Links.congr (fun k hk => hkeep k (by simp [h.pool.free k hk])) h.pool.links
    · rw [links_update]
      exact h.queue.linkPrev hlink

/-- The consumer takes the first node out of the queue and owns it. -/
theorem Inv.taken (h : Inv s loc f q) {k : Node} {rest : List Node}
    (hq : q.map Prod.fst = k :: rest) (hqueue : QueueInv m' rest s.links none)
    (hfree : m'.freeHead = s.mem.freeHead) (hlock : m'.freeLock = s.mem.freeLock)
    (hnext : m'.next = s.mem.next) (hdata : m'.data = s.mem.data)
    (henq : m'.enqueued = s.mem.enqueued)
    (hdeq : m'.dequeued = s.mem.dequeued ++ [(k, s.mem.data k)]) :
    ∃ loc' q', Inv { s with mem := m', cons := .handle b k } loc' f q' := by
  have hloc : loc k = .queued := h.queued_node (by simp [hq])
  obtain ⟨e, q', rfl, rfl, rfl⟩ := map_eq_cons_iff.mp hq
  have hnd : e.1 ∉ q'.map Prod.fst := (nodup_cons.mp h.queue.nodup).1
  have hstay : ∀ k, loc k ≠ .queued →
      update loc e.1 (.owned .consumer) k = loc k := by
    intro k hk
    apply update_of_ne
    rintro rfl
    exact hk hloc
  have hothers : ∀ t', Undisturbed t' s.mem m' loc
      (update loc e.1 (.owned .consumer)) :=
    fun t' => .of_queue h.pool hlock hfree (fun _ _ => by rw [hnext])
      fun k hk => (hstay k (by simp [hk])).trans hk
  refine ⟨update loc e.1 (.owned .consumer), q', ⟨?_, h.pool.nodup, fun k hk => ?_⟩,
    fun j => (h.prods j).frame (hothers _), update_self _ _ _, ?_, ?_, hqueue⟩
  · show Links m'.next m'.freeHead f
    rw [hnext, hfree]
    exact h.pool.links
  · have hk := h.pool.free k hk
    exact (hstay k (by simp [hk])).trans hk
  · intro d hd
    obtain ⟨hd1, hd2⟩ := h.queued d (mem_cons_of_mem e hd)
    refine ⟨?_, by rw [← hd2]; exact congrFun hdata d.1⟩
    rw [update_of_ne, hd1]
    intro he
    exact hnd (he ▸ mem_map_of_mem hd)
  · show m'.enqueued = m'.dequeued ++ q'
    rw [henq, hdeq, h.history, (h.queued e mem_cons_self).2]
    simp

theorem afterBatch_loadHead (h : (afterBatch b).dequeuePc = some p) : p = .loadHead := by
  unfold afterBatch at h
  split at h
  · exact (Option.some.inj h).symm
  · simp [ConsPc.dequeuePc] at h

theorem afterBatch_ok (m : Mem μ) (loc : Node → Loc) (b : Batch) :
    ConsOk m loc (afterBatch b) := by
  unfold afterBatch
  split <;> trivial

theorem afterMessage_loadHead (h : (afterMessage b stop).dequeuePc = some p) : p = .loadHead := by
  simp only [afterMessage] at h
  split at h
  · exact (Option.some.inj h).symm
  · exact afterBatch_loadHead h

theorem afterMessage_ok (m : Mem μ) (loc : Node → Loc) (b : Batch) (stop : Bool) :
    ConsOk m loc (afterMessage b stop) := by
  simp only [afterMessage]
  split
  · trivial
  · exact afterBatch_ok m loc _

/-- A step of the consumer inside `dequeue`. -/
theorem Inv.dequeue (h : Inv s loc f q) {pc : DequeuePc} (hc : s.cons = .dequeue b pc)
    (hstep : consStep stop s.mem (.dequeue b pc) = some (m', c)) :
    ∃ loc' q', Inv { s with mem := m', cons := c } loc' f q' := by
  have hqueue := h.queue
  rw [hc] at hqueue
  have hspec := dequeue_spec hqueue
  simp only [consStep] at hstep
  rcases hd : Mpsc.dequeue s.mem pc with ⟨m1, pc1 | _ | k⟩ <;> rw [hd] at hspec hstep <;>
    cases hstep
  · obtain ⟨hnew, hm⟩ := hspec
    refine ⟨loc, q, ?_⟩
    rcases hm with rfl | rfl
    · exact ⟨h.pool, h.prods, trivial, h.queued, h.history, hnew⟩
    · have hothers : ∀ t', Undisturbed t' s.mem { s.mem with head := none } loc loc :=
        fun t' => .of_queue h.pool rfl rfl (fun _ _ => rfl) fun _ hk => hk
      exact ⟨⟨h.pool.links, h.pool.nodup, h.pool.free⟩, fun j => (h.prods j).frame (hothers _),
        trivial, h.queued, h.history, hnew⟩
  · obtain ⟨rfl, hnew, _⟩ := hspec
    refine ⟨loc, q, h.pool, h.prods, afterBatch_ok _ _ b, h.queued, h.history,
      hnew.move (fun _ => rfl) fun p hp => ?_⟩
    rw [afterBatch_loadHead hp]
    trivial
  · obtain ⟨rest, hq, hnew, head, tail, rfl⟩ := hspec
    exact h.taken hq hnew rfl rfl rfl rfl rfl rfl

/-- A step of the consumer. -/
theorem Inv.consStep (h : Inv s loc f q) (hstep : Mpsc.consStep stop s.mem s.cons = some (m', c)) :
    ∃ loc' f' q', Inv { s with mem := m', cons := c } loc' f' q' := by
  cases hc : s.cons with
  | idle =>
    rw [hc] at hstep
    simp [Mpsc.consStep] at hstep
  | readEventfd =>
    rw [hc] at hstep
    simp only [Mpsc.consStep] at hstep
    have hold : s.cons.dequeuePc.bind DequeuePc.hole = none := by rw [hc]; rfl
    by_cases he : 0 < s.mem.eventfd
    · rw [if_pos he] at hstep
      cases hstep
      exact ⟨loc, f, q, h.poolCons (.setEventfd h.pool 0) trivial hold
        fun p hp => absurd hp (by simp [ConsPc.dequeuePc])⟩
    · rw [if_neg he] at hstep
      cases hstep
      exact ⟨loc, f, q, h.poolCons (.nothing h.pool) trivial hold
        fun p hp => (Option.some.inj hp).symm⟩
  | dequeue =>
    rw [hc] at hstep
    obtain ⟨loc', q', hnew⟩ := h.dequeue hc hstep
    exact ⟨loc', f, q', hnew⟩
  | handle =>
    have hok := h.cons
    rw [hc] at hok hstep
    cases hstep
    refine ⟨loc, f, q, h.poolCons (.nothing h.pool) hok (by rw [hc]; rfl)
      fun p hp => absurd hp (by simp [ConsPc.dequeuePc])⟩
  | giveBack b n stop' pc =>
    have hok := h.cons
    have hold : s.cons.dequeuePc.bind DequeuePc.hole = none := by rw [hc]; rfl
    rw [hc] at hok hstep
    simp only [Mpsc.consStep] at hstep
    rcases hr : returnNode .consumer n s.mem pc with _ | ⟨m1, _ | pc1⟩ <;> rw [hr] at hstep
    · cases hstep
    · cases hstep
      obtain ⟨loc', f', hpool, _⟩ := returnNode_pool h.pool hok hr
      exact ⟨loc', f', q, h.poolCons hpool (afterMessage_ok _ _ b stop') hold
        fun p hp => afterMessage_loadHead hp⟩
    · cases hstep
      obtain ⟨loc', f', hpool, hret⟩ := returnNode_pool h.pool hok hr
      exact ⟨loc', f', q, h.poolCons hpool (hret pc1 rfl) hold
        fun p hp => absurd hp (by simp [ConsPc.dequeuePc])⟩

/-- A step of a producer. -/
theorem Inv.prodStep (h : Inv s loc f q)
    (hstep : Mpsc.prodStep (.producer i) allocOk s.mem (s.prods i) = some (m', pc)) :
    ∃ loc' f' q', Inv { s with mem := m', prods := update s.prods i pc } loc' f' q' := by
  by_cases hswap : ∃ n, s.prods i = .enqSwap n
  · obtain ⟨n, hi⟩ := hswap
    rw [hi] at hstep
    cases hstep
    exact ⟨_, _, _, h.swap hi⟩
  by_cases hlink : ∃ n p, s.prods i = .enqLink n p
  · obtain ⟨n, p, hi⟩ := hlink
    rw [hi] at hstep
    exact ⟨loc, f, q, h.link hi hstep⟩
  · have hnone : s.links i = none := by
      unfold State.links ProdPc.link
      split
      · exact absurd ⟨_, _, ‹_›⟩ hlink
      · rfl
    obtain ⟨hlink', loc', f', hpool, hok⟩ := prodStep_pool h.pool (h.prods i)
      (fun n hn => hswap ⟨n, hn⟩) hnone hstep
    exact ⟨loc', f', q, h.poolProd hpool hok hnone hlink'⟩

end System

theorem step_inv (s : State μ) (a : Label μ) (s' : State μ)
    (h : ∃ loc f q, Inv s loc f q) (hstep : step s a = some s') : ∃ loc f q, Inv s' loc f q := by
  obtain ⟨loc, f, q, h⟩ := h
  cases a with
  | send i =>
    cases hi : s.prods i with
    | idle =>
      simp only [step, hi] at hstep
      cases hstep
      refine ⟨loc, f, q, h.poolProd (.nothing h.pool) trivial ?_ rfl⟩
      simp [State.links, hi, ProdPc.link]
    | _ => simp [step, hi] at hstep
  | prod i allocOk =>
    simp only [step] at hstep
    rcases hp : prodStep (.producer i) allocOk s.mem (s.prods i) with _ | ⟨m, pc⟩ <;>
      rw [hp] at hstep
    · cases hstep
    · cases hstep
      exact h.prodStep hp
  | wakeup =>
    cases hc : s.cons with
    | idle =>
      simp only [step, hc] at hstep
      cases hstep
      exact ⟨loc, f, q, h.poolCons (.nothing h.pool) trivial (by rw [hc]; rfl)
        fun p hp => absurd hp (by simp [ConsPc.dequeuePc])⟩
    | _ => simp [step, hc] at hstep
  | timeout =>
    cases hc : s.cons with
    | idle =>
      simp only [step, hc] at hstep
      cases hstep
      exact ⟨loc, f, q, h.poolCons (.nothing h.pool) trivial (by rw [hc]; rfl)
        fun p hp => (Option.some.inj hp).symm⟩
    | _ => simp [step, hc] at hstep
  | cons stop =>
    simp only [step] at hstep
    rcases hp : consStep stop s.mem s.cons with _ | ⟨m, pc⟩ <;> rw [hp] at hstep
    · cases hstep
    · cases hstep
      exact h.consStep hp

theorem init_inv (nodePoolSize : Nat) : ∃ loc f q, Inv (State.init μ nodePoolSize) loc f q := by
  obtain ⟨f, hpool⟩ := wsMpscQueueCreate_pool (μ := μ) nodePoolSize
  refine ⟨_, f, [], hpool, fun _ => trivial, trivial, by simp, rfl, nodup_nil, rfl, trivial,
    ?_, ?_, ?_, fun _ => .inl rfl, ?_⟩
  · intro i b a hl
    simp [State.links, State.init, ProdPc.link] at hl
  · intro i b hl
    simp [State.links, State.init, ProdPc.link] at hl
  · intro i j b p p' hl
    simp [State.links, State.init, ProdPc.link] at hl
  · intro p hp
    simp [State.init, ConsPc.dequeuePc] at hp

theorem run_inv {nodePoolSize : Nat} {labels : List (Label μ)}
    (hrun : run step (State.init μ nodePoolSize) labels = some s) : ∃ loc f q, Inv s loc f q :=
  run_invariant_all step_inv labels _ s (init_inv nodePoolSize) hrun

theorem Inv.pending {loc : Node → Loc} {f : List Node} {q : List (Node × Option μ)}
    (h : Inv s loc f q) : s.mem.pending = q := by
  unfold Mem.pending
  rw [h.history, drop_left]

theorem links_none_of_not_enqueuing (h : ∀ i, (s.prods i).enqueuing = false) :
    ∀ i, s.links i = none := by
  intro i
  have hi := h i
  unfold State.links
  cases hp : s.prods i with
  | enqLink =>
    rw [hp] at hi
    simp [ProdPc.enqueuing] at hi
  | _ => rfl

/-- For every interleaving of any number of producers with the consumer: what `dequeue` returned
    is a first part of what was enqueued, in the order of the exchanges of `tail`; and in a state
    with no enqueue in progress every node still pending is reached by `next` links from `head`
    or, while the consumer has `head` cleared, from the node it is dequeuing. -/
theorem mpsc_fifo (nodePoolSize : Nat) (labels : List (Label μ)) (s : State μ)
    (hrun : run step (State.init μ nodePoolSize) labels = some s) :
    s.mem.dequeued <+: s.mem.enqueued ∧
      ((∀ i, (s.prods i).enqueuing = false) → ∀ e ∈ s.mem.pending, ∃ start,
        (s.mem.head = some start ∨ s.cons.dequeuePc.bind DequeuePc.hole = some start) ∧
          Relation.ReflTransGen (fun a b => s.mem.next a = some b) start e.1) := by
  obtain ⟨loc, f, q, h⟩ := run_inv hrun
  refine ⟨h.history ▸ prefix_append _ _, fun hquiet e he => ?_⟩
  rw [h.pending] at he
  exact h.queue.reaches (links_none_of_not_enqueuing hquiet) e.1 (mem_map_of_mem he)

/-- Two messages of two producers, one of them dequeued. -/
theorem mpsc_fifo_two_producers :
    let labels : List (Label Nat) :=
      .send 0 7 :: replicate 10 (.prod 0 true) ++ .send 1 8 :: replicate 10 (.prod 1 true)
        ++ .wakeup :: replicate 4 (.cons false)
    (run step (State.init Nat 2) labels).map (fun s => (s.mem.enqueued, s.mem.dequeued)) =
        some ([(0, some 7), (1, some 8)], [(0, some 7)]) ∧
      ∀ s, run step (State.init Nat 2) labels = some s →
        s.mem.dequeued <+: s.mem.enqueued ∧
          ((∀ i, (s.prods i).enqueuing = false) → ∀ e ∈ s.mem.pending, ∃ start,
            (s.mem.head = some start ∨ s.cons.dequeuePc.bind DequeuePc.hole = some start) ∧
              Relation.ReflTransGen (fun a b => s.mem.next a = some b) start e.1) := by
  refine ⟨by decide +kernel, fun s hrun => ?_⟩
  exact mpsc_fifo 2 _ s hrun

/-- The consumer clears `head` to dequeue what was the last node; meanwhile a second send
    completes. No enqueue is in progress, and neither node is reached from `head`. -/
theorem head_cleared_with_two_pending :
    ∃ (labels : List (Label Nat)) (s : State Nat),
      run step (State.init Nat 2) labels = some s ∧ (∀ i, (s.prods i).enqueuing = false) ∧
      s.mem.pending = [(0, some 7), (1, some 8)] ∧
      ∀ e ∈ s.mem.pending, ¬ ∃ start, s.mem.head = some start ∧
        Relation.ReflTransGen (fun a b => s.mem.next a = some b) start e.1 := by
  refine ⟨.send 0 7 :: replicate 11 (.prod 0 true) ++ .wakeup :: replicate 6 (.cons false)
    ++ .send 0 8 :: replicate 11 (.prod 0 true), _, rfl, fun i => ?_, rfl, ?_⟩
  · match i with
    | 0 => rfl
    | _ + 1 => rfl
  · rintro e - ⟨start, hhead, -⟩
    have hnone : (none : Option Node) = some start := hhead
    cases hnone

end Portico.Mpsc
