/-
  No lost wakeups: a message that waits in the queue has a wakeup on its way.

  The invariant (`WakeupDue`): while the event thread is not handling a wakeup, a non-empty
  queue means a non-zero eventfd, or a producer that has exchanged `tail` and not yet written
  the eventfd. The delicate step is the end of a wakeup. `dequeue` then found no `head`; if
  messages are pending all the same, the first of them belongs to a producer that is about to
  publish it and will write the eventfd after that, whatever the producers behind it have
  already spent.

  Proved: `mpsc_no_lost_wakeup`, for every run.
-/
import Portico.Mpsc.Fifo

namespace Portico.Mpsc

open Portico.Lib

variable {μ : Type} {pc : ProdPc μ} {t : Thread} {b : Batch} {stop : Bool}

/-- Behind the exchange of `tail`, with the write to the eventfd still to come. -/
def ProdPc.owesWakeup : ProdPc μ → Bool
  | .enqLink _ _ => true
  | .wake => true
  | _ => false

def WakeupDue (s : State μ) : Prop :=
  s.cons.handlingWakeup = false → s.mem.pending ≠ [] →
    0 < s.mem.eventfd ∨ ∃ i, (s.prods i).owesWakeup = true

theorem ProdPc.notifying_of_owesWakeup (h : pc.owesWakeup = true) : pc.notifying = true := by
  cases pc with
  | enqLink => rfl
  | wake => rfl
  | _ => simp [owesWakeup] at h

/-! ## Steps -/

/-- `return_node` touches neither the queue nor the eventfd. -/
theorem returnNode_same {n : Node} {m m' : Mem μ} {pc : ReturnPc} {r : Option ReturnPc}
    (h : returnNode t n m pc = some (m', r)) :
    m'.enqueued = m.enqueued ∧ m'.dequeued = m.dequeued ∧ m'.eventfd = m.eventfd := by
  cases pc with
  | lock =>
    simp only [returnNode] at h
    split at h
    · obtain ⟨rfl, _⟩ := Prod.mk.inj (Option.some.inj h)
      exact ⟨rfl, rfl, rfl⟩
    · cases h
  | _ =>
    obtain ⟨rfl, _⟩ := Prod.mk.inj (Option.some.inj h)
    exact ⟨rfl, rfl, rfl⟩

theorem writeEventfd_pos (m : Mem μ) : 0 < m.writeEventfd.eventfd := by
  simp only [Mem.writeEventfd]
  split <;> omega

/-- A producer's step leaves a wakeup due, has just written it, or changes nothing here. -/
theorem prodStep_wakeup {allocOk : Bool} {m m' : Mem μ} {pc' : ProdPc μ}
    (h : prodStep t allocOk m pc = some (m', pc')) :
    pc'.owesWakeup = true ∨ 0 < m'.eventfd ∨ (pc.owesWakeup = false ∧
      m'.enqueued = m.enqueued ∧ m'.dequeued = m.dequeued ∧ m'.eventfd = m.eventfd) := by
  cases pc with
  | idle => simp [prodStep] at h
  | enqSwap =>
    obtain ⟨_, rfl⟩ := Prod.mk.inj (Option.some.inj h)
    exact .inl rfl
  | enqLink n p =>
    cases p <;> obtain ⟨_, rfl⟩ := Prod.mk.inj (Option.some.inj h) <;> exact .inl rfl
  | wake =>
    obtain ⟨rfl, _⟩ := Prod.mk.inj (Option.some.inj h)
    exact .inr (.inl (writeEventfd_pos m))
  | getLock =>
    simp only [prodStep] at h
    split at h
    · obtain ⟨rfl, _⟩ := Prod.mk.inj (Option.some.inj h)
      exact .inr (.inr ⟨rfl, rfl, rfl, rfl⟩)
    · cases h
  | getLoadFree | fill =>
    simp only [prodStep] at h
    split at h <;> obtain ⟨rfl, _⟩ := Prod.mk.inj (Option.some.inj h) <;>
      exact .inr (.inr ⟨rfl, rfl, rfl, rfl⟩)
  | giveBack n pc =>
    simp only [prodStep] at h
    rcases hr : returnNode t n m pc with _ | ⟨m1, _ | pc1⟩ <;> rw [hr] at h
    · cases h
    · obtain ⟨rfl, _⟩ := Prod.mk.inj (Option.some.inj h)
      exact .inr (.inr ⟨rfl, returnNode_same hr⟩)
    · obtain ⟨rfl, _⟩ := Prod.mk.inj (Option.some.inj h)
      exact .inr (.inr ⟨rfl, returnNode_same hr⟩)
  | _ =>
    obtain ⟨rfl, _⟩ := Prod.mk.inj (Option.some.inj h)
    exact .inr (.inr ⟨rfl, rfl, rfl, rfl⟩)

theorem afterBatch_handling (h : (afterBatch b).handlingWakeup = false) :
    b.wakeup = false ∨ b.processed = 0 := by
  unfold afterBatch at h
  by_cases hb : b.wakeup = true ∧ 0 < b.processed
  · rw [if_pos hb] at h
    simp [ConsPc.handlingWakeup] at h
  · cases hw : b.wakeup with
    | false => exact .inl rfl
    | true => exact .inr (Nat.eq_zero_of_not_pos fun hp => hb ⟨hw, hp⟩)

/-- After a message a wakeup goes on. -/
theorem afterMessage_handling (h : (afterMessage b stop).handlingWakeup = false) :
    b.wakeup = false := by
  simp only [afterMessage] at h
  split at h
  · exact h
  · rcases afterBatch_handling h with hw | hp
    · exact hw
    · cases hp

theorem dequeue_history (m : Mem μ) (pc : DequeuePc) :
    (dequeue m pc).1.enqueued = m.enqueued ∧ (dequeue m pc).1.eventfd = m.eventfd ∧
      m.dequeued.length ≤ (dequeue m pc).1.dequeued.length := by
  cases pc <;> simp only [dequeue, Mem.taken] <;> (try split) <;> simp

/-- What a step of the event thread does to the histories, and the two ways in which it is not
    handling a wakeup afterwards. -/
theorem consStep_wakeup {m m' : Mem μ} {c c' : ConsPc} (h : consStep stop m c = some (m', c')) :
    m'.enqueued = m.enqueued ∧ m.dequeued.length ≤ m'.dequeued.length ∧
      (c'.handlingWakeup = false →
        (c.handlingWakeup = false ∧ m'.eventfd = m.eventfd) ∨
          ∃ b pc, c = .dequeue b pc ∧ dequeue m pc = (m', .returns none)) := by
  cases c with
  | idle => simp [consStep] at h
  | readEventfd =>
    simp only [consStep] at h
    split at h <;> obtain ⟨rfl, rfl⟩ := Prod.mk.inj (Option.some.inj h) <;>
      exact ⟨rfl, Nat.le_refl _, fun hw => absurd hw (by simp [ConsPc.handlingWakeup])⟩
  | dequeue b pc =>
    obtain ⟨henq, hev, hlen⟩ := dequeue_history m pc
    simp only [consStep] at h
    rcases hd : dequeue m pc with ⟨m1, pc1 | _ | k⟩ <;> rw [hd] at h henq hev hlen <;>
      cases h
    · exact ⟨henq, hlen, fun hw => .inl ⟨hw, hev⟩⟩
    · exact ⟨henq, hlen, fun _ => .inr ⟨b, pc, rfl, hd⟩⟩
    · exact ⟨henq, hlen, fun hw => .inl ⟨hw, hev⟩⟩
  | handle =>
    cases h
    exact ⟨rfl, Nat.le_refl _, fun hw => .inl ⟨hw, rfl⟩⟩
  | giveBack b n stop' pc =>
    simp only [consStep] at h
    rcases hr : returnNode .consumer n m pc with _ | ⟨m1, _ | pc1⟩ <;> rw [hr] at h
    · cases h
    · cases h
      obtain ⟨henq, hdeq, hev⟩ := returnNode_same hr
      exact ⟨henq, by rw [hdeq], fun hw => .inl ⟨afterMessage_handling hw, hev⟩⟩
    · cases h
      obtain ⟨henq, hdeq, hev⟩ := returnNode_same hr
      exact ⟨henq, by rw [hdeq], fun hw => .inl ⟨hw, hev⟩⟩

/-! ## Runs -/

theorem pending_mono {m m' : Mem μ} (henq : m'.enqueued = m.enqueued)
    (hdeq : m.dequeued.length ≤ m'.dequeued.length) (h : m'.pending ≠ []) : m.pending ≠ [] := by
  unfold Mem.pending at h ⊢
  rw [henq, Ne, List.drop_eq_nil_iff] at h
  rw [Ne, List.drop_eq_nil_iff]
  omega

/-- Other producers keep what they owe. -/
theorem owes_update {s : State μ} {i j : Nat} (hi : (s.prods i).owesWakeup = false)
    (hj : (s.prods j).owesWakeup = true) : (Function.update s.prods i pc j).owesWakeup = true := by
  rw [Function.update_of_ne, hj]
  rintro rfl
  simp [hi] at hj

theorem step_wakeupDue (s : State μ) (a : Label μ) (s' : State μ)
    (h : (∃ loc f q, Inv s loc f q) ∧ WakeupDue s) (hstep : step s a = some s') :
    (∃ loc f q, Inv s' loc f q) ∧ WakeupDue s' := by
  obtain ⟨hinv, hdue⟩ := h
  refine ⟨step_inv s a s' hinv hstep, ?_⟩
  cases a with
  | send i =>
    cases hi : s.prods i with
    | idle =>
      simp only [step, hi] at hstep
      cases hstep
      intro hw hp
      refine (hdue hw hp).imp id ?_
      rintro ⟨j, hj⟩
      exact ⟨j, owes_update (by rw [hi]; rfl) hj⟩
    | _ => simp [step, hi] at hstep
  | prod i allocOk =>
    simp only [step] at hstep
    rcases hs : prodStep (.producer i) allocOk s.mem (s.prods i) with _ | ⟨m, pc⟩ <;>
      rw [hs] at hstep
    · cases hstep
    cases hstep
    intro hw hp
    rcases prodStep_wakeup hs with howes | hpos | ⟨hi, henq, hdeq, hev⟩
    · refine .inr ⟨i, ?_⟩
      show (Function.update s.prods i pc i).owesWakeup = true
      rw [Function.update_self]
      exact howes
    · exact .inl hpos
    · rcases hdue hw (pending_mono henq (by rw [hdeq]) hp) with hpos | ⟨j, hj⟩
      · exact .inl (hev ▸ hpos)
      · exact .inr ⟨j, owes_update hi hj⟩
  | wakeup =>
    cases hc : s.cons with
    | idle =>
      simp only [step, hc] at hstep
      cases hstep
      intro hw
      simp [ConsPc.handlingWakeup] at hw
    | _ => simp [step, hc] at hstep
  | timeout =>
    cases hc : s.cons with
    | idle =>
      simp only [step, hc] at hstep
      cases hstep
      exact fun _ hp => hdue (by rw [hc]; rfl) hp
    | _ => simp [step, hc] at hstep
  | cons stop =>
    simp only [step] at hstep
    rcases hs : consStep stop s.mem s.cons with _ | ⟨m, c⟩ <;> rw [hs] at hstep
    · cases hstep
    cases hstep
    intro hw hp
    obtain ⟨henq, hdeq, hend⟩ := consStep_wakeup hs
    have hpend := pending_mono henq hdeq hp
    rcases hend hw with ⟨hold, hev⟩ | ⟨b, pc, hc, hd⟩
    · exact (hdue hold hpend).imp (fun hpos => hev ▸ hpos) id
    · -- `dequeue` saw no head: the first pending node is still to be published
      obtain ⟨loc, f, q, hinv⟩ := hinv
      have hspec := dequeue_spec (p := pc) (hc ▸ hinv.queue)
      rw [hd] at hspec
      rcases hspec.2.2 with hnil | ⟨i, n, hl⟩
      · rw [hinv.pending] at hpend
        exact absurd (List.map_eq_nil_iff.mp hnil) hpend
      · refine .inr ⟨i, ?_⟩
        show (s.prods i).owesWakeup = true
        have hlink : (s.prods i).link = some (n, none) := hl
        cases hi : s.prods i with
        | enqLink => rfl
        | _ => rw [hi] at hlink; exact absurd hlink (by simp [ProdPc.link])

/-- For every interleaving of producers with the event thread: in a state in which no producer is
    between the start of its enqueue and the end of its write to the eventfd, and the event
    thread is not handling a wakeup, pending messages mean a non-zero eventfd. -/
theorem mpsc_no_lost_wakeup (nodePoolSize : Nat) (labels : List (Label μ)) (s : State μ)
    (hrun : run step (State.init μ nodePoolSize) labels = some s)
    (hprods : ∀ i, (s.prods i).notifying = false) (hcons : s.cons.handlingWakeup = false)
    (hpending : s.mem.pending ≠ []) : 0 < s.mem.eventfd := by
  have hinit : WakeupDue (State.init μ nodePoolSize) := fun _ hp => absurd rfl hp
  have hdue := (run_invariant_all step_wakeupDue labels _ s ⟨init_inv nodePoolSize, hinit⟩ hrun).2
  rcases hdue hcons hpending with hpos | ⟨i, hi⟩
  · exact hpos
  · exact absurd ((hprods i).symm.trans (ProdPc.notifying_of_owesWakeup hi)) (by simp)

/-- A second message arrives after the wakeup of the first has been handled. -/
theorem mpsc_no_lost_wakeup_second_message :
    let labels : List (Label Nat) :=
      .send 0 7 :: List.replicate 11 (.prod 0 true) ++ .wakeup :: List.replicate 16 (.cons false) ++
        .send 0 8 :: List.replicate 11 (.prod 0 true)
    ∃ s, run step (State.init Nat 2) labels = some s ∧ s.mem.dequeued = [(0, some 7)] ∧
      s.mem.pending = [(0, some 8)] ∧ s.cons = .idle ∧ 0 < s.mem.eventfd := by
  intro labels
  refine ⟨_, rfl, rfl, rfl, rfl, ?_⟩
  refine mpsc_no_lost_wakeup 2 labels _ rfl (fun i => ?_) rfl (List.cons_ne_nil _ _)
  match i with
  | 0 => rfl
  | _ + 1 => rfl

end Portico.Mpsc
