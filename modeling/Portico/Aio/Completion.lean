/-
  The completion queue of the asynchronous file reads and its coalesced wakeup: the frontend
  `aio.c`.

  Model. `Frontend` is the part of `portico_aio_t` that posters and drains share: the completion
  queue (a linked FIFO under `lock`), `notified` and the counter of the eventfd. A thread in
  `portico_aio_post_completion` goes through `PostPc`, one in `portico_aio_drain` through
  `DrainPc`; each step is one critical section, one atomic access or one system call, as the
  source has them. `portico_aio_enqueue` may fail to allocate, and then fires inline. `reap`
  enqueues any completions, one at a time and without a wakeup.
  Any number of threads post and drain; a callback that posts from inside a drain is one more
  poster. The kernel may bump the counter at any time (the ring backend registers it).

  Proved: `queued_completion_has_wakeup`: whenever nobody posts or drains, a completion in the
  queue has a non-zero counter. What a drain can miss was enqueued by somebody who has still to
  exchange `notified`, and finds it reset.
-/
import Mathlib.Algebra.Group.Nat.Defs
import Portico.Lib.Fifo
import Portico.Lib.Machine

namespace Portico.Aio

open Portico.Lib
open Function (update update_of_ne update_self)

/-- `portico_aio_completion_t`. `op` stands for the callback and its `user`, which identify the
    read. -/
structure Completion where
  op : Nat
  res : Int
deriving DecidableEq, Repr

structure Frontend where
  queue : Fifo Completion
  notified : Bool
  eventfd : Nat
  -- the callbacks that have been fired, first in first
  fired : List Completion

namespace Frontend

def create : Frontend where
  queue := .empty
  notified := false
  eventfd := 0
  fired := []

/-- `portico_aio_enqueue`; `alloc` says whether `malloc` succeeds. -/
def enqueue (a : Frontend) (alloc : Bool) (c : Completion) : Frontend :=
  if alloc then { a with queue := a.queue.push c }
  else { a with fired := a.fired ++ [c] }

/-- `write(wakeup_fd, 1)`: at its largest value the counter stays as it is (EAGAIN). -/
def writeEventfd (a : Frontend) : Frontend :=
  { a with eventfd := if a.eventfd < 2 ^ 64 - 2 then a.eventfd + 1 else a.eventfd }

end Frontend

/-- Where a thread stands in `portico_aio_post_completion`. -/
inductive PostPc where
  | enqueue (c : Completion)
  | exchange
  | write
deriving DecidableEq, Repr

/-- The next step of `portico_aio_post_completion`; `none` when it has returned. -/
def postStep (alloc : Bool) (a : Frontend) : PostPc → Frontend × Option PostPc
  | .enqueue c => (a.enqueue alloc c, some .exchange)
  | .exchange => ({ a with notified := true }, if a.notified then none else some .write)
  | .write => (a.writeEventfd, none)

/-- Where a thread stands in `portico_aio_drain`. -/
inductive DrainPc where
  | read
  | reset
  | reap
  | pop
deriving DecidableEq, Repr

/-- The next step of `portico_aio_drain`; `none` when it has returned. A popped completion's
    callback is fired outside the lock. -/
def drainStep (a : Frontend) : DrainPc → Frontend × Option DrainPc
  | .read => if 0 < a.eventfd then ({ a with eventfd := 0 }, some .read) else (a, some .reset)
  | .reset => ({ a with notified := false }, some .reap)
  | .reap => (a, some .pop)
  | .pop =>
    match a.queue.pop with
    | (none, _) => (a, none)
    | (some c, q) => ({ a with queue := q, fired := a.fired ++ [c] }, some .pop)

theorem enqueue_same (a : Frontend) (alloc : Bool) (c : Completion) :
    (a.enqueue alloc c).notified = a.notified ∧ (a.enqueue alloc c).eventfd = a.eventfd := by
  unfold Frontend.enqueue
  split <;> exact ⟨rfl, rfl⟩

theorem writeEventfd_pos (a : Frontend) : 0 < a.writeEventfd.eventfd := by
  simp only [Frontend.writeEventfd]
  split <;> omega

variable {a : Frontend}

theorem drainStep_read_pos (h : 0 < a.eventfd) :
    drainStep a .read = ({ a with eventfd := 0 }, some .read) := by
  rw [drainStep, if_pos h]

theorem drainStep_read_zero (h : ¬ 0 < a.eventfd) : drainStep a .read = (a, some .reset) := by
  rw [drainStep, if_neg h]

theorem drainStep_pop_nil (h : a.queue.toList = []) : drainStep a .pop = (a, none) := by
  rw [drainStep, Fifo.pop_of_toList_nil h]

variable {c : Completion}

theorem drainStep_pop_cons {l : List Completion} (h : a.queue.toList = c :: l) :
    drainStep a .pop = ({ a with queue := a.queue.pop.2, fired := a.fired ++ [c] }, some .pop) := by
  have hc := (Fifo.pop_of_toList_cons h).1
  rcases hpop : a.queue.pop with ⟨r, q⟩
  rw [hpop] at hc
  subst hc
  rw [drainStep, hpop]

/-- The frontend and its threads. `posters i` is `none` while thread `i` is not posting. -/
structure Threads where
  a : Frontend
  posters : Nat → Option PostPc
  drains : Nat → Option DrainPc

def Threads.init : Threads where
  a := .create
  posters := fun _ => none
  drains := fun _ => none

inductive Label where
  /-- Thread `i` calls `portico_aio_post_completion`. -/
  | post (i : Nat) (c : Completion)
  /-- Poster `i` takes its next step. -/
  | poster (i : Nat) (alloc : Bool)
  /-- Thread `d` calls `portico_aio_drain`. -/
  | drain (d : Nat)
  /-- Drain `d` takes its next step. -/
  | drainer (d : Nat)
  /-- Drain `d`, in `reap`, enqueues a completion that the backend held. -/
  | reaped (d : Nat) (alloc : Bool) (c : Completion)
  /-- The kernel bumps the eventfd. -/
  | signal

def step (s : Threads) : Label → Option Threads
  | .post i c =>
    if s.posters i = none then
      some { s with posters := update s.posters i (some (.enqueue c)) }
    else none
  | .poster i alloc =>
    match s.posters i with
    | none => none
    | some pc =>
      some { s with
        a := (postStep alloc s.a pc).1
        posters := update s.posters i (postStep alloc s.a pc).2 }
  | .drain d =>
    if s.drains d = none then some { s with drains := update s.drains d (some .read) }
    else none
  | .drainer d =>
    match s.drains d with
    | none => none
    | some pc =>
      some { s with
        a := (drainStep s.a pc).1
        drains := update s.drains d (drainStep s.a pc).2 }
  | .reaped d alloc c =>
    if s.drains d = some .reap then some { s with a := s.a.enqueue alloc c } else none
  | .signal => some { s with a := s.a.writeEventfd }

/-- Nobody is posting, and nobody is draining. -/
def Threads.Quiet (s : Threads) : Prop :=
  (∀ i, s.posters i = none) ∧ ∀ d, s.drains d = none

/-! ## The wakeup invariant -/

/-- The drain empties the counter, and has not yet reset `notified`. -/
def DrainPc.clearing : DrainPc → Bool
  | .read => true
  | .reset => true
  | _ => false

/-- The drain has reset `notified`, and has not yet found the queue empty. -/
def DrainPc.scanning : DrainPc → Bool
  | .reap => true
  | .pop => true
  | _ => false

/-- `notified` promises a wakeup: it is in the counter, a poster is about to write it, or a drain
    that is going to scan the queue has taken it. A completion in the queue has that promise, or
    somebody who will still see to it: its poster before the exchange, or a drain that scans. -/
structure WakeupDue (s : Threads) : Prop where
  promised : s.a.notified = true →
    0 < s.a.eventfd ∨ (∃ i, s.posters i = some .write) ∨
      ∃ d pc, s.drains d = some pc ∧ pc.clearing = true
  queued : s.a.queue.toList ≠ [] →
    s.a.notified = true ∨ (∃ i, s.posters i = some .exchange) ∨
      ∃ d pc, s.drains d = some pc ∧ pc.scanning = true

theorem WakeupDue.init : WakeupDue .init :=
  ⟨fun h => absurd h (by simp [Threads.init, Frontend.create]),
    fun h => absurd (Fifo.toList_empty (α := Completion)) h⟩

section Updates

variable {β : Type} {f : Nat → Option β} {i : Nat} {x v : Option β}

/-- Somebody still stands at `x`, unless it was the thread that moved. -/
theorem exists_update_eq (h : ∃ j, f j = x) (hi : f i ≠ x) : ∃ j, update f i v j = x := by
  obtain ⟨j, hj⟩ := h
  refine ⟨j, ?_⟩
  rw [update_of_ne (fun e : j = i => hi (e ▸ hj)), hj]

/-- The same for a place with a property that the thread did not have. -/
theorem exists_update_some {P : β → Bool} (h : ∃ j y, f j = some y ∧ P y = true)
    (hi : ∀ y, f i = some y → P y = false) : ∃ j y, update f i v j = some y ∧ P y = true := by
  obtain ⟨j, y, hj, hy⟩ := h
  refine ⟨j, y, ?_, hy⟩
  rw [update_of_ne, hj]
  rintro rfl
  exact Bool.false_ne_true ((hi y hj).symm.trans hy)

end Updates

/-! ## Steps -/

section Steps

variable {s : Threads} {d : Nat}

/-- The call itself changes no one's promise: the thread was not posting. -/
theorem WakeupDue.post {i : Nat} (h : WakeupDue s) (hi : s.posters i = none) :
    WakeupDue { s with posters := update s.posters i (some (.enqueue c)) } := by
  refine ⟨fun hn => ?_, fun hq => ?_⟩
  · exact (h.promised hn).imp_right (Or.imp_left fun hw => exists_update_eq hw (by simp [hi]))
  · exact (h.queued hq).imp_right (Or.imp_left fun hx => exists_update_eq hx (by simp [hi]))

theorem WakeupDue.poster {i : Nat} {pc : PostPc} (alloc : Bool) (h : WakeupDue s)
    (hi : s.posters i = some pc) :
    WakeupDue { s with
      a := (postStep alloc s.a pc).1
      posters := update s.posters i (postStep alloc s.a pc).2 } := by
  cases pc with
  | enqueue c =>
    -- the poster has still to exchange `notified`
    refine ⟨fun hn => ?_, fun _ => .inr (.inl ⟨i, update_self _ _ _⟩)⟩
    have hsame := enqueue_same s.a alloc c
    refine (h.promised (hsame.1.symm.trans hn)).imp (fun hpos => hsame.2.symm ▸ hpos) ?_
    exact Or.imp_left fun hw => exists_update_eq hw (by simp [hi])
  | exchange =>
    refine ⟨fun _ => ?_, fun _ => .inl rfl⟩
    cases hn : s.a.notified with
    | false =>
      refine .inr (.inl ⟨i, ?_⟩)
      simp [postStep, hn]
    | true =>
      exact (h.promised hn).imp_right (Or.imp_left fun hw => exists_update_eq hw (by simp [hi]))
  | write =>
    refine ⟨fun _ => .inl (writeEventfd_pos s.a), fun hq => ?_⟩
    exact (h.queued hq).imp_right (Or.imp_left fun hx => exists_update_eq hx (by simp [hi]))

/-- A drain that begins takes part in nothing yet. -/
theorem WakeupDue.drain (h : WakeupDue s) (hd : s.drains d = none) :
    WakeupDue { s with drains := update s.drains d (some .read) } := by
  refine ⟨fun _ => .inr (.inr ⟨d, .read, update_self _ _ _, rfl⟩), fun hq => ?_⟩
  exact (h.queued hq).imp_right (Or.imp_right fun hs => exists_update_some hs (by simp [hd]))

/-- A drain that has finished clearing the counter resets `notified` before it goes on; one that
    stops scanning has seen the queue empty. -/
theorem WakeupDue.drainer {pc : DrainPc} (h : WakeupDue s) (hd : s.drains d = some pc) :
    WakeupDue { s with
      a := (drainStep s.a pc).1
      drains := update s.drains d (drainStep s.a pc).2 } := by
  -- a drain that is not clearing is not the one that the others rely on
  have hpromised : pc.clearing = false → s.a.notified = true → ∀ v, 0 < s.a.eventfd ∨
      (∃ i, s.posters i = some .write) ∨
      ∃ e pc, update s.drains d v e = some pc ∧ pc.clearing = true := by
    intro hpc hn v
    refine (h.promised hn).imp_right (Or.imp_right fun hc => exists_update_some hc fun y hy => ?_)
    exact Option.some.inj (hd.symm.trans hy) ▸ hpc
  cases pc with
  | read =>
    refine ⟨fun _ => ?_, fun hq => ?_⟩
    · by_cases hpos : 0 < s.a.eventfd
      · exact .inr (.inr ⟨d, .read, by simp [drainStep_read_pos hpos], rfl⟩)
      · exact .inr (.inr ⟨d, .reset, by simp [drainStep_read_zero hpos], rfl⟩)
    · have hsame : (drainStep s.a .read).1.queue = s.a.queue ∧
          (drainStep s.a .read).1.notified = s.a.notified := by
        by_cases hpos : 0 < s.a.eventfd
        · rw [drainStep_read_pos hpos]
          exact ⟨rfl, rfl⟩
        · rw [drainStep_read_zero hpos]
          exact ⟨rfl, rfl⟩
      refine (h.queued (hsame.1 ▸ hq)).imp hsame.2.trans (Or.imp_right fun hs => ?_)
      exact exists_update_some hs fun y hy => Option.some.inj (hd.symm.trans hy) ▸ rfl
  | reset =>
    exact ⟨fun hn => absurd hn (by simp [drainStep]),
      fun _ => .inr (.inr ⟨d, .reap, update_self _ _ _, rfl⟩)⟩
  | reap =>
    exact ⟨fun hn => hpromised rfl hn _, fun _ => .inr (.inr ⟨d, .pop, update_self _ _ _, rfl⟩)⟩
  | pop =>
    cases hl : s.a.queue.toList with
    | nil =>
      rw [drainStep_pop_nil hl]
      exact ⟨fun hn => hpromised rfl hn none, fun hq => absurd hl hq⟩
    | cons =>
      rw [drainStep_pop_cons hl]
      exact ⟨fun hn => hpromised rfl hn _,
        fun _ => .inr (.inr ⟨d, .pop, update_self _ _ _, rfl⟩)⟩

/-- What `reap` enqueues is scanned by the same drain. -/
theorem WakeupDue.reaped (alloc : Bool) (c : Completion) (h : WakeupDue s)
    (hd : s.drains d = some .reap) : WakeupDue { s with a := s.a.enqueue alloc c } := by
  have hsame := enqueue_same s.a alloc c
  refine ⟨fun hn => ?_, fun _ => .inr (.inr ⟨d, .reap, hd, rfl⟩)⟩
  rw [hsame.2]
  exact h.promised (hsame.1.symm.trans hn)

end Steps

theorem WakeupDue.step {s s' : Threads} {l : Label} (h : WakeupDue s) (hs : step s l = some s') :
    WakeupDue s' := by
  cases l with
  | post =>
    simp only [Aio.step, Option.ite_none_right_eq_some] at hs
    exact Option.some.inj hs.2 ▸ h.post hs.1
  | poster i alloc =>
    simp only [Aio.step] at hs
    split at hs
    · cases hs
    · rename_i pc hi
      exact Option.some.inj hs ▸ h.poster alloc hi
  | drain =>
    simp only [Aio.step, Option.ite_none_right_eq_some] at hs
    exact Option.some.inj hs.2 ▸ h.drain hs.1
  | drainer d =>
    simp only [Aio.step] at hs
    split at hs
    · cases hs
    · rename_i pc hd
      exact Option.some.inj hs ▸ h.drainer hd
  | reaped d alloc c =>
    simp only [Aio.step, Option.ite_none_right_eq_some] at hs
    exact Option.some.inj hs.2 ▸ h.reaped alloc c hs.1
  | signal =>
    exact Option.some.inj hs ▸ ⟨fun _ => .inl (writeEventfd_pos s.a), h.queued⟩

/-- No completion is left in the queue without a pending wakeup. -/
theorem queued_completion_has_wakeup (as : List Label) (s : Threads)
    (hrun : run step .init as = some s) (hquiet : s.Quiet) (hqueued : s.a.queue.toList ≠ []) :
    0 < s.a.eventfd := by
  have hdue : WakeupDue s :=
    run_invariant_all (I := WakeupDue) (fun _ _ _ h hs => h.step hs) as .init s .init hrun
  have hnotified : s.a.notified = true := by
    rcases hdue.queued hqueued with hn | ⟨i, hi⟩ | ⟨d, pc, hd, -⟩
    · exact hn
    · simp [hquiet.1 i] at hi
    · simp [hquiet.2 d] at hd
  rcases hdue.promised hnotified with hpos | ⟨i, hi⟩ | ⟨d, pc, hd, -⟩
  · exact hpos
  · simp [hquiet.1 i] at hi
  · simp [hquiet.2 d] at hd

/-- The second poster exchanges `notified` after the drain has read the counter and before it
    resets the flag; it writes nothing, and the drain pops its completion. A third one, behind
    the reset, wakes the loop again. -/
def rearmedRun : List Label :=
  [.post 0 ⟨0, 1⟩, .poster 0 true, .poster 0 true, .poster 0 true, .drain 0, .drainer 0,
    .post 1 ⟨1, 1⟩, .poster 1 true, .poster 1 true, .drainer 0, .drainer 0, .drainer 0,
    .drainer 0, .drainer 0, .drainer 0, .post 2 ⟨2, 1⟩, .poster 2 true, .poster 2 true,
    .poster 2 true]

theorem queued_completion_has_wakeup_rearmed :
    ∃ s, run step .init rearmedRun = some s ∧ s.a.fired = [⟨0, 1⟩, ⟨1, 1⟩] ∧
      s.a.queue.toList = [⟨2, 1⟩] ∧ 0 < s.a.eventfd := by
  refine ⟨_, rfl, rfl, rfl, queued_completion_has_wakeup rearmedRun _ rfl ⟨?_, ?_⟩ (by decide)⟩
  · intro i
    match i with
    | 0 => rfl
    | 1 => rfl
    | 2 => rfl
    | _ + 3 => rfl
  · intro d
    match d with
    | 0 => rfl
    | _ + 1 => rfl

end Portico.Aio
