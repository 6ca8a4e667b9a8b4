/-
  Every accepted read is served: progress of the threadpool, and its correctness as a whole.

  Progress is proved along the trace of any schedule that is fair: each worker is scheduled again
  and again (and its `pread` is not interrupted for ever), and the consumer drains again and
  again. A read goes through three queues in order of arrival. The task queue is served because
  an awake worker comes back to it (`workerRank`); the worker that holds a read posts it; and the
  completion queue is served because a drain gets through its read of the eventfd: while it
  reads, `notified` is not reset, so that only so many wakeups can still be written
  (`writesLeft`).

  Proved: `threadpool_serves_every_read`.
-/
import Portico.Aio.Threadpool
import Portico.Lib.Fair

namespace Portico.Aio

open Portico.Lib List
open Function (comp_update update update_eq_self update_of_ne)

variable {cfg : Config} {files : Read → Answer} {s s' : Pool} {l : PoolLabel} {i : Nat} {t : Task}
  {as : List PoolLabel}

/-! ## What one worker's step is -/

/-- A worker that does not wait moves only by its own steps. -/
theorem Effect.other (he : Effect cfg files s l s') (hl : l ≠ .worker i)
    (hi : s.workers i ≠ .waiting) : s'.workers i = s.workers i := by
  have hother : ∀ {j : Nat} {pc : WorkerPc}, l = .worker j →
      update s.workers j pc i = s.workers i := by
    intro j pc hj
    exact update_of_ne (fun e : i = j => hl (e ▸ hj)) _ _
  cases he with
  | accept r woken ws hargs hroom hwoken =>
    exact (hwoken i).resolve_right fun h => hi h.1
  | take | sleep | exit | read | enqueue | exchange | write => exact hother rfl
  | wake j hj hpc =>
    exact update_of_ne (fun e : i = j => hi (e ▸ hpc)) _ _
  | destroy => exact (woken_broadcast s.workers i).resolve_right fun h => hi h.1
  | _ => rfl

/-- The steps that a worker has before it looks for a task again. -/
def workerRank : WorkerPc → Nat
  | .reading _ => 4
  | .posting (.enqueue _) => 3
  | .posting .exchange => 2
  | .posting .write => 1
  | _ => 0

def Active (pc : WorkerPc) : Prop := pc ≠ .waiting ∧ pc ≠ .exited

/-- An active worker looks for a task, or comes closer to doing so. -/
theorem Effect.own (he : Effect cfg files s (.worker i) s') :
    (s.workers i = .top ∧ (s.taken.length < s'.taken.length ∨ s.tasks.toList = [])) ∨
      (Active (s'.workers i) ∧ workerRank (s'.workers i) < workerRank (s.workers i)) := by
  cases he with
  | take _ t rest hi hpc =>
    exact .inl ⟨hpc, .inl (by simp [Pool.setWorker])⟩
  | sleep _ _ hpc htasks | exit _ _ hpc htasks => exact .inl ⟨hpc, .inr htasks⟩
  | read _ _ _ hpc | enqueue _ _ _ hpc | write _ _ hpc =>
    exact .inr (by simp [Pool.setWorker, hpc, workerRank, Active])
  | exchange _ hi hpc =>
    right
    cases s.a.notified <;> simp [Pool.setWorker, hpc, workerRank, Active]

theorem worker_enabled (hdestroy : s.destroy = none) (hi : i < cfg.nthreads)
    (hactive : Active (s.workers i)) : poolStep cfg files s (.worker i) ≠ none := by
  unfold poolStep workerStep
  rw [if_neg (by simp [hdestroy])]
  simp only [if_pos hi]
  cases hpc : s.workers i with
  | top => rcases s.tasks.pop with ⟨_ | t, q⟩ <;> simp
  | waiting => exact absurd hpc hactive.1
  | exited => exact absurd hpc hactive.2
  | reading => simp
  | posting => simp

theorem drain_enabled (hdestroy : s.destroy = none) : poolStep cfg files s .drain ≠ none := by
  unfold poolStep
  rw [if_neg (by simp [hdestroy])]
  cases s.drain <;> simp

/-! ## What only grows -/

section

variable (he : Effect cfg files s l s')

include he

theorem Effect.taken_prefix : s.taken <+: s'.taken := by
  cases he with
  | take => exact prefix_append _ _
  | _ => exact prefix_refl _

theorem Effect.accepted_prefix : s.accepted <+: s'.accepted := by
  cases he with
  | accept => exact prefix_append _ _
  | _ => exact prefix_refl _

theorem Effect.posted_prefix : s.posted <+: s'.posted := by
  cases he with
  | enqueue =>
    rw [posted_enqueue]
    exact prefix_append _ _
  | drain pc =>
    rw [show Pool.posted { s with a := (drainStep s.a pc).1, drain := (drainStep s.a pc).2 } =
      s.posted from posted_drain s.a pc]
  | _ => exact prefix_refl _

/-- Tasks leave the queue only by being taken. -/
theorem Effect.tasks_ne_nil (h : s.tasks.toList ≠ [])
    (htaken : ¬ s.taken.length < s'.taken.length) : s'.tasks.toList ≠ [] := by
  cases he with
  | accept => simp [Pool.accept]
  | take => exact absurd (by simp [Pool.setWorker]) htaken
  | _ => exact h

end

/-! ## The drain -/

def WorkerPc.writes : WorkerPc → Option Unit
  | .posting .write => some ()
  | _ => none

/-- The workers about to write a wakeup. -/
def writers (n : Nat) (ws : Nat → WorkerPc) : Nat :=
  ((range n).filterMap fun j => (ws j).writes).length

/-- The wakeups that a drain can still find while it reads the eventfd: the one that is there, the
    one after the next exchange of `notified`, and those about to be written. -/
def writesLeft (n : Nat) (s : Pool) : Nat :=
  (if 0 < s.a.eventfd then 1 else 0) + (if s.a.notified then 0 else 1) + writers n s.workers

def drainRank (n : Nat) (s : Pool) : Nat :=
  match s.drain with
  | some .pop => 0
  | some .reap => 1
  | some .reset => 2
  | some .read => 3 + writesLeft n s
  | none => n + 6

theorem writesLeft_le (n : Nat) (s : Pool) : writesLeft n s ≤ n + 2 := by
  have hlen : writers n s.workers ≤ (range n).length := length_filterMap_le _ _
  rw [length_range] at hlen
  unfold writesLeft
  split <;> split <;> omega

section Writers

variable {n : Nat} {ws ws' : Nat → WorkerPc} {pc : WorkerPc}

theorem writers_update (n : Nat) (ws : Nat → WorkerPc) (i : Nat) (pc : WorkerPc) :
    writers n (update ws i pc) =
      ((range n).filterMap (update (fun j => (ws j).writes) i pc.writes)).length :=
  congrArg (fun f => ((range n).filterMap f).length) (comp_update WorkerPc.writes ws i pc)

/-- A worker that comes to its write is one more of them. -/
theorem writers_update_write (hi : i < n) (h : (ws i).writes = none) :
    writers n (update ws i (.posting .write)) = writers n ws + 1 := by
  have hlen := (perm_filterMap_update (f := fun j => (ws j).writes) hi ()).length_eq
  rw [← h, update_eq_self, length_cons] at hlen
  rw [writers_update]
  exact hlen

theorem writers_update_written (hi : i < n) (h : ws i = .posting .write) :
    writers n (update ws i .top) + 1 = writers n ws := by
  have hw : (ws i).writes = some () := by rw [h]; rfl
  have hlen := (perm_filterMap_update (f := fun j => (ws j).writes) hi ()).length_eq
  rw [← hw, update_eq_self, length_cons] at hlen
  rw [writers_update]
  exact hlen.symm

theorem writers_update_same (h : pc.writes = (ws i).writes) :
    writers n (update ws i pc) = writers n ws := by
  rw [writers_update, h, update_eq_self]
  rfl

theorem Woken.writers_eq (h : Woken ws ws') : writers n ws' = writers n ws := by
  unfold writers
  congr 2
  funext j
  rcases h j with he | ⟨h1, h2⟩
  · rw [he]
  · rw [h1, h2]
    rfl

end Writers

theorem writesLeft_congr {n : Nat} (he : s'.a.eventfd = s.a.eventfd)
    (hn : s'.a.notified = s.a.notified) (hw : writers n s'.workers = writers n s.workers) :
    writesLeft n s' ≤ writesLeft n s := by
  unfold writesLeft
  rw [he, hn, hw]

/-- Nobody but the drain itself makes more wakeups than there were. -/
theorem Effect.writesLeft_le (he : Effect cfg files s l s') (hl : l ≠ .drain) :
    writesLeft cfg.nthreads s' ≤ writesLeft cfg.nthreads s := by
  cases he with
  | accept r woken ws hargs hroom hwoken => exact writesLeft_congr rfl rfl hwoken.writers_eq
  | destroy => exact writesLeft_congr rfl rfl (woken_broadcast s.workers).writers_eq
  | take _ _ _ _ hpc | sleep _ _ hpc | exit _ _ hpc | read _ _ _ hpc | enqueue _ _ _ hpc
  | wake _ _ hpc =>
    exact writesLeft_congr rfl rfl (writers_update_same (by rw [hpc]; rfl))
  | exchange j hj hpc =>
    have hnone : (s.workers j).writes = none := by rw [hpc]; rfl
    cases hn : s.a.notified with
    | true => exact writesLeft_congr rfl hn.symm (writers_update_same hnone.symm)
    | false =>
      -- the promise of a wakeup becomes a worker about to write it
      have hwriters := writers_update_write (n := cfg.nthreads) hj hnone
      simp [writesLeft, Pool.setWorker, hn, hwriters]
      omega
  | write j hj hpc =>
    have hwriters := writers_update_written hj hpc
    unfold writesLeft
    rw [if_pos (show 0 < (Pool.setWorker { s with a := s.a.writeEventfd } j .top).a.eventfd from
      writeEventfd_pos s.a)]
    simp only [Pool.setWorker, show s.a.writeEventfd.notified = s.a.notified from rfl]
    omega
  | startDrain | drain => exact absurd rfl hl
  | _ => exact Nat.le_refl _

/-- The consumer's step: with a completion in the queue it fires one, or comes closer to it. -/
theorem Effect.drains (he : Effect cfg files s .drain s') (hq : s.a.queue.toList ≠ []) :
    s.a.fired.length < s'.a.fired.length ∨
      (s'.a.queue = s.a.queue ∧ s'.a.fired = s.a.fired ∧
        drainRank cfg.nthreads s' < drainRank cfg.nthreads s) := by
  cases he with
  | startDrain hdrain =>
    refine .inr ⟨rfl, rfl, ?_⟩
    have hle := Aio.writesLeft_le cfg.nthreads { s with drain := some .read }
    simp only [drainRank, hdrain]
    omega
  | drain pc hdrain =>
    cases pc with
    | read =>
      right
      by_cases hpos : 0 < s.a.eventfd
      · rw [drainStep_read_pos hpos]
        refine ⟨rfl, rfl, ?_⟩
        simp [drainRank, hdrain, writesLeft, hpos]
      · rw [drainStep_read_zero hpos]
        refine ⟨rfl, rfl, ?_⟩
        simp only [drainRank, hdrain]
        omega
    | reset | reap => exact .inr ⟨rfl, rfl, by simp [drainRank, hdrain, drainStep]⟩
    | pop =>
      left
      obtain ⟨c, rest, hcons⟩ := exists_cons_of_ne_nil hq
      rw [drainStep_pop_cons hcons]
      simp

/-- Any other step leaves what has been fired, and takes nothing off the completion queue. -/
theorem Effect.undrained (he : Effect cfg files s l s') (hl : l ≠ .drain)
    (hq : s.a.queue.toList ≠ []) :
    s'.a.queue.toList ≠ [] ∧ s'.a.fired = s.a.fired ∧
      drainRank cfg.nthreads s' ≤ drainRank cfg.nthreads s := by
  have hrank : s'.drain = s.drain → drainRank cfg.nthreads s' ≤ drainRank cfg.nthreads s := by
    intro hdrain
    have hle := he.writesLeft_le hl
    unfold drainRank
    rw [hdrain]
    split <;> omega
  cases he with
  | enqueue =>
    refine ⟨?_, rfl, hrank rfl⟩
    simp [Pool.setWorker, Frontend.enqueue]
  | startDrain | drain => exact absurd rfl hl
  | _ => exact ⟨hq, rfl, hrank rfl⟩

/-! ## Fair schedules -/

/-- Every worker, and the consumer, is scheduled again and again. -/
structure Fair (cfg : Config) (sched : Nat → PoolLabel) : Prop where
  workers : ∀ i, i < cfg.nthreads → InfinitelyOften fun n => sched n = .worker i
  consumer : InfinitelyOften fun n => sched n = .drain

section Traces

variable {sched : Nat → PoolLabel} {op : Nat}

/-- The pool after `n` moments. -/
def moment (cfg : Config) (files : Read → Answer) (sched : Nat → PoolLabel) : Nat → Pool :=
  trace (poolStep cfg files) .init sched

theorem moment_succ (cfg : Config) (files : Read → Answer) (sched : Nat → PoolLabel) (n : Nat) :
    (poolStep cfg files (moment cfg files sched n) (sched n) = none ∧
        moment cfg files sched (n + 1) = moment cfg files sched n) ∨
      Effect cfg files (moment cfg files sched n) (sched n) (moment cfg files sched (n + 1)) := by
  rcases trace_succ (poolStep cfg files) .init sched n with h | h
  · exact .inl h
  · exact .inr (step_effect h)

theorem moment_inv (n : Nat) : PoolInv cfg files (moment cfg files sched n) :=
  trace_invariant .init (fun _ _ _ h hs => h.step hs) n

theorem moment_running (hnever : ∀ n, sched n ≠ .destroy) (n : Nat) :
    (moment cfg files sched n).destroy = none ∧ (moment cfg files sched n).stop = false := by
  refine trace_invariant (I := fun s : Pool => s.destroy = none ∧ s.stop = false) ⟨rfl, rfl⟩
    (fun n t t' h hs => ?_) n
  have he := step_effect hs
  generalize hl : sched n = l at he
  cases he with
  | destroy => exact absurd hl (hnever n)
  | join k hdestroy => exact absurd (hdestroy.symm.trans h.1) (by simp)
  | _ => exact h

/-- Progress by one party's label: it is possible as long as the condition holds, and lowers the
    rank. -/
theorem moment_leads_to {a : PoolLabel} (P Q : Pool → Prop) (rank : Pool → Nat)
    (hoften : InfinitelyOften fun n => sched n = a)
    (henabled : ∀ n, P (moment cfg files sched n) →
      poolStep cfg files (moment cfg files sched n) a ≠ none)
    (hstep : ∀ n l s', P (moment cfg files sched n) →
      Effect cfg files (moment cfg files sched n) l s' →
      Q s' ∨ (P s' ∧ rank s' ≤ rank (moment cfg files sched n) ∧
        (l = a → rank s' < rank (moment cfg files sched n)))) :
    ∀ n, P (moment cfg files sched n) → ∃ m, n ≤ m ∧ Q (moment cfg files sched m) := by
  refine leads_to_of_rank P Q rank hoften fun n hP => ?_
  rcases moment_succ cfg files sched n with ⟨hnone, hsame⟩ | he
  · rw [hsame]
    exact .inr ⟨hP, Nat.le_refl _, fun ha => absurd (ha ▸ hnone) (henabled n hP)⟩
  · exact hstep n _ _ hP he

/-- While tasks are queued, one is taken again and again. -/
theorem taken_grows (hfair : Fair cfg sched) (hnever : ∀ n, sched n ≠ .destroy) (n : Nat)
    (hq : (moment cfg files sched n).tasks.toList ≠ []) :
    ∃ m, n ≤ m ∧ (moment cfg files sched n).taken.length <
      (moment cfg files sched m).taken.length := by
  obtain ⟨i, hi, hpc⟩ := (moment_inv n).alert.awake (moment_running hnever n).2 hq
  -- the awake worker comes back to the queue, unless another one takes a task before
  let k := (moment cfg files sched n).taken.length
  refine moment_leads_to (fun s => s.tasks.toList ≠ [] ∧ Active (s.workers i) ∧ s.taken.length = k)
    (fun s => k < s.taken.length) (fun s => workerRank (s.workers i)) (hfair.workers i hi)
    (fun m hm => worker_enabled (moment_running hnever m).1 hi hm.2.1) (fun m l s' hm he => ?_) n
    ⟨hq, ⟨hpc, fun hexit => ?_⟩, rfl⟩
  · obtain ⟨hne, hactive, hk⟩ := hm
    by_cases htaken : (moment cfg files sched m).taken.length < s'.taken.length
    · exact .inl (hk ▸ htaken)
    have hne' := he.tasks_ne_nil hne htaken
    have hk' : s'.taken.length = k := by
      have hle := he.taken_prefix.length_le
      omega
    right
    by_cases hl : l = .worker i
    · subst hl
      rcases he.own with ⟨-, hgrow | hnil⟩ | ⟨hactive', hlt⟩
      · exact absurd hgrow htaken
      · exact absurd hnil hne
      · exact ⟨⟨hne', hactive', hk'⟩, Nat.le_of_lt hlt, fun _ => hlt⟩
    · have hsame := he.other hl hactive.1
      rw [hsame]
      exact ⟨⟨hne', hactive, hk'⟩, Nat.le_refl _, fun h => absurd h hl⟩
  · have hstop := (moment_inv n).alert.exited i hexit
    exact absurd (hstop.symm.trans (moment_running hnever n).2) (by simp)

/-- The step of a worker that holds a read posts it, or comes closer to doing so. -/
theorem Effect.own_op (he : Effect cfg files s (.worker i) s') (hop : (s.workers i).op = some op) :
    op ∈ s'.posted.map Completion.op ∨
      ((s'.workers i).op = some op ∧ workerRank (s'.workers i) < workerRank (s.workers i)) := by
  cases he with
  | read _ t hi hpc =>
    right
    rw [hpc] at hop
    simpa [Pool.setWorker, hpc, workerRank, WorkerPc.op] using hop
  | enqueue _ c hi hpc =>
    left
    rw [hpc] at hop
    obtain rfl : c.op = op := Option.some.inj hop
    rw [posted_enqueue, map_append]
    exact mem_append_right _ mem_cons_self
  | take _ _ _ _ hpc | sleep _ _ hpc | exit _ _ hpc | exchange _ _ hpc | write _ _ hpc =>
    simp [hpc, WorkerPc.op] at hop

theorem active_of_op {pc : WorkerPc} (h : pc.op = some op) : Active pc := by
  refine ⟨?_, ?_⟩ <;> rintro rfl <;> exact absurd h (by simp [WorkerPc.op])

/-- What a worker holds is posted. -/
theorem held_posted (hfair : Fair cfg sched) (hnever : ∀ n, sched n ≠ .destroy) (n : Nat)
    (hi : i < cfg.nthreads) (hop : ((moment cfg files sched n).workers i).op = some op) :
    ∃ m, n ≤ m ∧ op ∈ (moment cfg files sched m).posted.map Completion.op := by
  refine moment_leads_to (fun s => (s.workers i).op = some op)
    (fun s => op ∈ s.posted.map Completion.op) (fun s => workerRank (s.workers i))
    (hfair.workers i hi)
    (fun m hm => worker_enabled (moment_running hnever m).1 hi (active_of_op hm))
    (fun m l s' hm he => ?_) n hop
  by_cases hl : l = .worker i
  · subst hl
    exact (he.own_op hm).imp id fun h => ⟨h.1, Nat.le_of_lt h.2, fun _ => h.2⟩
  · rw [he.other hl (active_of_op hm).1]
    exact .inr ⟨hm, Nat.le_refl _, fun h => absurd h hl⟩

/-- While completions are queued, one is fired again and again. -/
theorem fired_grows (hfair : Fair cfg sched) (hnever : ∀ n, sched n ≠ .destroy) (n : Nat)
    (hq : (moment cfg files sched n).a.queue.toList ≠ []) :
    ∃ m, n ≤ m ∧ (moment cfg files sched n).a.fired.length <
      (moment cfg files sched m).a.fired.length := by
  let k := (moment cfg files sched n).a.fired.length
  refine moment_leads_to (fun s => s.a.queue.toList ≠ [] ∧ s.a.fired.length = k)
    (fun s => k < s.a.fired.length) (drainRank cfg.nthreads) hfair.consumer
    (fun m _ => drain_enabled (moment_running hnever m).1) (fun m l s' hm he => ?_) n ⟨hq, rfl⟩
  by_cases hl : l = .drain
  · subst hl
    rcases he.drains hm.1 with hgrow | ⟨hqueue, hfired, hlt⟩
    · exact .inl (hm.2 ▸ hgrow)
    · rw [hqueue, hfired]
      exact .inr ⟨hm, Nat.le_of_lt hlt, fun _ => hlt⟩
  · obtain ⟨hqueue, hfired, hle⟩ := he.undrained hl hm.1
    rw [hfired]
    exact .inr ⟨⟨hqueue, hm.2⟩, hle, fun h => absurd h hl⟩

theorem prefix_of_moment {β : Type} {A : Pool → List β}
    (hmono : ∀ {s l s'}, Effect cfg files s l s' → A s <+: A s') (n : Nat) :
    A (moment cfg files sched n) <+: A (moment cfg files sched (n + 1)) := by
  rcases moment_succ cfg files sched n with ⟨-, hsame⟩ | he
  · rw [hsame]
  · exact hmono he

/-- The task queue serves every accepted read. -/
theorem accepted_taken (hfair : Fair cfg sched) (hnever : ∀ n, sched n ≠ .destroy) (n : Nat)
    (ht : t ∈ (moment cfg files sched n).accepted) :
    ∃ m, n ≤ m ∧ t ∈ (moment cfg files sched m).taken := by
  refine served_of_grows (prefix_of_moment Effect.accepted_prefix) (fun m => ?_)
    (fun m hlt => ?_) n ht
  · rw [(moment_inv m).queue.order]
    exact prefix_append _ _
  · refine taken_grows hfair hnever m fun hnil => ?_
    rw [(moment_inv m).queue.order, hnil, append_nil] at hlt
    exact Nat.lt_irrefl _ hlt

/-- The completion queue serves everything that is posted. -/
theorem posted_fired (hfair : Fair cfg sched) (hnever : ∀ n, sched n ≠ .destroy) (n : Nat)
    {c : Completion} (hc : c ∈ (moment cfg files sched n).posted) :
    ∃ m, n ≤ m ∧ c ∈ (moment cfg files sched m).a.fired := by
  refine served_of_grows (B := fun s => s.a.fired) (prefix_of_moment Effect.posted_prefix)
    (fun m => prefix_append _ _) (fun m hlt => ?_) n hc
  refine fired_grows hfair hnever m fun hnil => ?_
  unfold Pool.posted at hlt
  rw [hnil, append_nil] at hlt
  exact Nat.lt_irrefl _ hlt

end Traces

/-! ## Results -/

/-- A task that was taken is held by a worker, or its completion has been posted. -/
theorem Accounts.held_or_posted (h : Accounts cfg files s) (ht : t ∈ s.taken) :
    (∃ i, i < cfg.nthreads ∧ (s.workers i).op = some t.op) ∨
      t.op ∈ s.posted.map Completion.op := by
  have hmem := h.ledger.mem_iff.mp (mem_map_of_mem (f := Task.op) ht)
  rcases mem_append.mp hmem with hposted | hheld
  · exact .inr hposted
  · obtain ⟨i, hi, hop⟩ := mem_filterMap.mp hheld
    exact .inl ⟨i, mem_range.mp hi, hop⟩

/-- The completion of a read is the one that the blocking backend posts for it. -/
theorem PoolInv.posted_eq (h : PoolInv cfg files s) (ht : t ∈ s.accepted)
    (hop : t.op ∈ s.posted.map Completion.op) :
    (blockingSubmit files t.op t.read none).1 ∈ s.posted := by
  obtain ⟨c, hc, hcop⟩ := mem_map.mp hop
  obtain ⟨u, hu, buf, hbuf⟩ := h.accounts.posted c hc
  have hcu : (blockingSubmit files u.op u.read buf).1 = c := congrArg Prod.fst hbuf
  have hu' : u ∈ s.accepted := by
    rw [h.queue.order]
    exact mem_append_left _ hu
  obtain rfl : u = t :=
    inj_on_of_nodup_map h.queue.distinct hu' ht ((congrArg Completion.op hcu).trans hcop)
  rw [show (blockingSubmit files u.op u.read none).1 = c from hcu]
  exact hc

/-- No completion is posted twice. -/
theorem PoolInv.posted_nodup (h : PoolInv cfg files s) : (s.posted.map Completion.op).Nodup := by
  have hdistinct := h.queue.distinct
  rw [h.queue.order, map_append] at hdistinct
  have htaken := (nodup_append'.mp hdistinct).1
  exact (nodup_append'.mp (h.accounts.ledger.nodup_iff.mp htaken)).1

/-! ## Shutdown -/

/-- The threads that `tp_destroy` has joined have left; before it is called, nobody stops. -/
structure Joined (s : Pool) : Prop where
  joined : ∀ k, s.destroy = some k → ∀ j, j < k → s.workers j = .exited
  running : s.destroy = none → s.stop = false

/-- A worker that has left stays where it is. -/
theorem Effect.exited_stays (he : Effect cfg files s l s') (hi : s.workers i = .exited) :
    s'.workers i = .exited := by
  by_cases hl : l = .worker i
  · subst hl
    cases he with
    | take _ _ _ _ hpc | sleep _ _ hpc | exit _ _ hpc | read _ _ _ hpc | enqueue _ _ _ hpc
    | exchange _ _ hpc | write _ _ hpc => simp [hi] at hpc
  · rw [he.other hl (by simp [hi]), hi]

/-- A worker leaves when it finds the queue empty. -/
theorem Effect.exits (he : Effect cfg files s l s') (hi : s'.workers i = .exited) :
    s.workers i = .exited ∨ (s.tasks.toList = [] ∧ s'.taken = s.taken) := by
  cases he with
  | accept r woken ws hargs hroom hwoken => exact .inl (hwoken.exited hi)
  | take | sleep | read | enqueue | write | wake => exact .inl (of_update (by simp) hi).2
  | exit j hj hpc htasks => exact .inr ⟨htasks, rfl⟩
  | exchange => exact .inl (of_update (by split <;> simp) hi).2
  | destroy => exact .inl ((woken_broadcast s.workers).exited hi)
  | _ => exact .inl hi

theorem Joined.init : Joined .init := ⟨fun _ h => absurd h (by simp [Pool.init]), fun _ => rfl⟩

theorem Joined.step (h : Joined s) (he : Effect cfg files s l s') : Joined s' := by
  have hkept : s'.destroy = s.destroy → s'.stop = s.stop → Joined s' := fun hd hs =>
    ⟨fun k hk j hj => he.exited_stays (h.joined k (hd ▸ hk) j hj),
      fun hn => hs ▸ h.running (hd ▸ hn)⟩
  cases he with
  | destroy =>
    exact ⟨fun k hk j hj => absurd (Option.some.inj hk ▸ hj) (Nat.not_lt_zero j),
      fun hn => absurd hn (by simp)⟩
  | join k hdestroy hexit =>
    refine ⟨fun k' hk' j hj => ?_, fun hn => absurd hn (by simp)⟩
    obtain rfl : k + 1 = k' := Option.some.inj hk'
    rcases Nat.lt_succ_iff_lt_or_eq.mp hj with hj | rfl
    · exact h.joined k hdestroy j hj
    · exact hexit
  | _ => exact hkept rfl rfl

theorem run_joined (hrun : run (poolStep cfg files) .init as = some s) : Joined s :=
  run_invariant_all (I := Joined) (fun _ _ _ h hs => h.step (step_effect hs)) as .init s .init hrun

/-- From the call of `tp_destroy` on, a worker leaves only behind the tasks accepted before. -/
theorem run_destroy_taken (hinv : PoolInv cfg files s) (hjoined : Joined s) (ht : t ∈ s.accepted)
    (hrun : run (poolStep cfg files) s (.destroy :: as) = some s')
    (hexit : s'.workers i = .exited) : t ∈ s'.taken := by
  obtain ⟨s1, hs1, hrest⟩ := run_cons hrun
  have hstart : PoolInv cfg files s1 ∧ t ∈ s1.accepted ∧
      ∀ j, s1.workers j = .exited → t ∈ s1.taken := by
    refine ⟨hinv.step hs1, ?_⟩
    cases step_effect hs1 with
    | destroy hdestroy =>
      refine ⟨ht, fun j hj => ?_⟩
      have hstop := hinv.alert.exited j ((woken_broadcast s.workers).exited hj)
      exact absurd (hstop.symm.trans (hjoined.running hdestroy)) (by simp)
  refine (run_invariant_all (I := fun s => PoolInv cfg files s ∧ t ∈ s.accepted ∧
    ∀ j, s.workers j = .exited → t ∈ s.taken) (fun u l u' h hs => ?_) as s1 s' hstart hrest).2.2 i
    hexit
  obtain ⟨hinv, hmem, hleft⟩ := h
  have he := step_effect hs
  refine ⟨hinv.step hs, he.accepted_prefix.subset hmem, fun j hj => ?_⟩
  rcases he.exits hj with hold | ⟨hnil, htaken⟩
  · exact he.taken_prefix.subset (hleft j hold)
  · rw [htaken]
    rwa [hinv.queue.order, hnil, append_nil] at hmem

/-- When `tp_destroy` has joined every worker, nobody holds a read. -/
theorem Joined.all_exited (h : Joined s) (hdestroy : s.destroy = some cfg.nthreads) :
    ∀ i, i < cfg.nthreads → s.workers i = .exited := fun i hi => h.joined _ hdestroy i hi

/-! ## The threadpool serves every read -/

/-- On the threadpool backend, whatever the interleaving: no callback is fired twice, and each is
    fired for an accepted read with the result and the buffer that the blocking backend gives; a
    refused read is never fired; the queue keeps to a non-zero bound; when `tp_destroy` returns,
    every task accepted before it was called has been run and posted. And if the workers and the
    consumer keep going, every accepted read is fired. -/
theorem threadpool_serves_every_read (cfg : Config) (files : Read → Answer) :
    (∀ (as : List PoolLabel) (s : Pool), run (poolStep cfg files) .init as = some s →
      (s.a.fired.map Completion.op).Nodup ∧
      (∀ c ∈ s.a.fired, ∃ t ∈ s.accepted, ∃ buf,
        blockingSubmit files t.op t.read buf = (c, s.bufs t.op)) ∧
      (∀ x ∈ s.refused, ∀ c ∈ s.a.fired, c.op ≠ x.1) ∧
      (cfg.maxDepth ≠ 0 → (s.tasks.toList.length : Int) ≤ cfg.maxDepth) ∧
      ∀ (bs : List PoolLabel) (s' : Pool),
        run (poolStep cfg files) s (.destroy :: bs) = some s' →
        s'.destroy = some cfg.nthreads → ∀ t ∈ s.accepted,
          (blockingSubmit files t.op t.read none).1 ∈ s'.a.fired ++ s'.a.queue.toList) ∧
    ∀ sched : Nat → PoolLabel, Fair cfg sched → (∀ n, sched n ≠ .destroy) →
      ∀ n, ∀ t ∈ (trace (poolStep cfg files) .init sched n).accepted, ∃ m, n ≤ m ∧
        (blockingSubmit files t.op t.read none).1 ∈
          (trace (poolStep cfg files) .init sched m).a.fired := by
  refine ⟨fun as s hrun => ?_, fun sched hfair hnever n t ht => ?_⟩
  · have hinv := run_poolInv hrun
    have hresult : ∀ c ∈ s.a.fired, Result files s c := fun c hc =>
      hinv.accounts.posted c (mem_append_left _ hc)
    refine ⟨?_, fun c hc => ?_, fun x hx c hc he => ?_, fun hne => ?_,
      fun bs s' hrun' hd t ht => ?_⟩
    · have hnodup := hinv.posted_nodup
      unfold Pool.posted at hnodup
      rw [map_append] at hnodup
      exact (nodup_append'.mp hnodup).1
    · obtain ⟨t, ht, hbuf⟩ := hresult c hc
      refine ⟨t, ?_, hbuf⟩
      rw [hinv.queue.order]
      exact mem_append_left _ ht
    · obtain ⟨t, ht, buf, hbuf⟩ := hresult c hc
      have hop : t.op = c.op := congrArg (fun r => r.1.op) hbuf
      refine (hinv.queue.refused x hx).2 t ?_ (hop.trans he)
      rw [hinv.queue.order]
      exact mem_append_left _ ht
    · rw [← hinv.queue.depth]
      exact hinv.queue.bound hne
    · have hall : run (poolStep cfg files) .init (as ++ .destroy :: bs) = some s' := by
        rw [run_append hrun, hrun']
      have hexited := (run_joined hall).all_exited hd
      have htaken := run_destroy_taken hinv (run_joined hrun) ht hrun'
        (hexited 0 cfg.nthreads_pos)
      have hinv' := run_poolInv hall
      have haccepted : t ∈ s'.accepted := by
        rw [hinv'.queue.order]
        exact mem_append_left _ htaken
      refine hinv'.posted_eq haccepted ?_
      rcases hinv'.accounts.held_or_posted htaken with ⟨i, hi, hop⟩ | hposted
      · simp [hexited i hi, WorkerPc.op] at hop
      · exact hposted
  · -- taken off the task queue, then posted, then fired
    obtain ⟨m1, hm1, htaken⟩ := accepted_taken hfair hnever n ht
    obtain ⟨m2, hm2, hposted⟩ : ∃ m, m1 ≤ m ∧
        t.op ∈ (moment cfg files sched m).posted.map Completion.op := by
      rcases (moment_inv m1).accounts.held_or_posted htaken with ⟨i, hi, hop⟩ | hposted
      · exact held_posted hfair hnever m1 hi hop
      · exact ⟨m1, Nat.le_refl _, hposted⟩
    have haccepted : t ∈ (moment cfg files sched m2).accepted :=
      (prefix_of_le (prefix_of_moment Effect.accepted_prefix) (hm1.trans hm2)).subset ht
    obtain ⟨m3, hm3, hfired⟩ :=
      posted_fired hfair hnever m2 ((moment_inv m2).posted_eq haccepted hposted)
    exact ⟨m3, by omega, hfired⟩

def oneWorker : Config := ⟨1, 2⟩

def letterA : Read → Answer := fun _ => .bytes [65]

def readA : Read := ⟨3, true, 1, 0, true⟩

/-- Submits, the worker and the consumer in turn. -/
def roundRobin (n : Nat) : PoolLabel :=
  if n % 3 = 0 then .pread readA 0 else if n % 3 = 1 then .worker 0 else .drain

theorem fair_roundRobin : Fair oneWorker roundRobin where
  workers := by
    intro i hi
    obtain rfl : i = 0 := Nat.lt_one_iff.mp hi
    exact infinitelyOften_of_mod (k := 3) (r := 1) (by decide) fun n hn => by simp [roundRobin, hn]
  consumer := infinitelyOften_of_mod (k := 3) (r := 2) (by decide) fun n hn => by
    simp [roundRobin, hn]

/-- The worker takes the read, posts it and leaves, and is joined. -/
def lastRead : List PoolLabel := replicate 6 (.worker 0) ++ [.join]

/-- The first read of the round is fired in the end; and a pool that is destroyed with one read in
    its queue has run it when `tp_destroy` returns. -/
theorem threadpool_serves_every_read_roundRobin :
    (∃ m, ⟨0, 1⟩ ∈ (trace (poolStep oneWorker letterA) .init roundRobin m).a.fired) ∧
      ∃ s s', run (poolStep oneWorker letterA) .init [.pread readA 0] = some s ∧
        run (poolStep oneWorker letterA) s (.destroy :: lastRead) = some s' ∧
        s'.destroy = some oneWorker.nthreads ∧ ⟨0, 1⟩ ∈ s'.a.fired ++ s'.a.queue.toList := by
  obtain ⟨hsafe, hlive⟩ := threadpool_serves_every_read oneWorker letterA
  refine ⟨?_, _, _, rfl, rfl, rfl, ?_⟩
  · have hnever : ∀ n, roundRobin n ≠ .destroy := by
      intro n
      unfold roundRobin
      split
      · simp
      · split <;> simp
    obtain ⟨m, -, hm⟩ := hlive roundRobin fair_roundRobin hnever 1 ⟨0, readA⟩ mem_cons_self
    exact ⟨m, hm⟩
  · exact (hsafe [.pread readA 0] _ rfl).2.2.2.2 lastRead _ rfl rfl ⟨0, readA⟩
      mem_cons_self

end Portico.Aio
