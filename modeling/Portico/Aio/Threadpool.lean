/-
  The threadpool backend of the asynchronous file reads: `aio_threadpool.c` over the frontend.

  Model. `Pool` is `tp_state_t` with its threads: the task queue (a linked FIFO under `lock`),
  `depth`, `stop`, where each worker stands in `tp_worker`, the consumer in
  `portico_aio_drain` and the caller of `tp_destroy`. A critical section, a read, and each step
  of `portico_aio_post_completion` and `portico_aio_drain` is one step. A worker in
  `pthread_cond_wait` is woken by the signal of a submit, by the broadcast of `tp_destroy`, or
  spuriously; which waiting worker a signal wakes is part of the label. `pread` may return EINTR
  any number of times. Any number of threads submit, also from inside a callback; allocations
  succeed. `files` is what `pread` answers to a read of files that do not change. The history
  fields record what was accepted, refused and taken off the queue.

  `blockingSubmit` is the other backend: the same read, inline.

  Proved: `step_effect`, what a step can do; and the invariant `PoolInv` from it. Its clause
  `ledger` says that what was taken off the queue is, up to order, what has been posted and what
  the workers hold, so that nothing is lost or posted twice.
-/
import Portico.Aio.Completion
import Portico.Ws.Frame
import Mathlib.Data.List.Range

namespace Portico.Aio

open Portico.Lib List
open Function (comp_update update update_eq_self update_of_ne update_self)
open Portico.Ws (Bytes)

/-! ## Reads -/

/-- The arguments of `portico_aio_pread`; `buf` and `cb` say whether the pointer is set. -/
structure Read where
  fd : Int
  buf : Bool
  len : Nat
  off : Int
  cb : Bool
deriving DecidableEq, Repr

/-- What `pread` returns in the end, EINTR apart. -/
inductive Answer where
  | bytes (data : Bytes)
  | error (errno : Nat)

/-- `n < 0 ? -errno : n`. -/
def Answer.res : Answer → Int
  | .bytes data => data.length
  | .error errno => -errno

/-- The buffer of the read afterwards. -/
def Answer.store (buf : Option Bytes) : Answer → Option Bytes
  | .bytes data => some data
  | .error _ => buf

/-- What a submit reports; `sys` is the errno of a system call. -/
inductive Errno where
  | einval
  | efault
  | eagain
  | enomem
  | sys (errno : Nat)
deriving DecidableEq, Repr

/-- The checks of `portico_aio_pread` before it asks the backend. -/
def argError (r : Read) : Option Errno :=
  if !r.cb || r.fd < 0 || r.off < 0 then some .einval
  else if r.len ≠ 0 && !r.buf then some .efault
  else none

/-- `blocking_submit`: the completion it posts, and the caller's buffer. -/
def blockingSubmit (files : Read → Answer) (op : Nat) (r : Read) (buf : Option Bytes) :
    Completion × Option Bytes :=
  (⟨op, (files r).res⟩, (files r).store buf)

/-! ## The pool -/

structure Config where
  threads : Int
  queueDepth : Int

def Config.nthreads (cfg : Config) : Nat := if 0 < cfg.threads then cfg.threads.toNat else 4

def Config.maxDepth (cfg : Config) : Int := if 0 < cfg.queueDepth then cfg.queueDepth else 0

theorem Config.nthreads_pos (cfg : Config) : 0 < cfg.nthreads := by
  unfold nthreads
  split <;> omega

/-- `tp_task_t`. -/
structure Task where
  op : Nat
  read : Read
deriving DecidableEq, Repr

/-- Where a worker stands in `tp_worker`. -/
inductive WorkerPc where
  /-- Before `pthread_mutex_lock`, or woken and before it has the lock again. -/
  | top
  | waiting
  | reading (t : Task)
  | posting (pc : PostPc)
  | exited
deriving DecidableEq, Repr

structure Pool where
  a : Frontend
  tasks : Fifo Task
  depth : Int
  stop : Bool
  workers : Nat → WorkerPc
  drain : Option DrainPc
  -- the number of threads that `tp_destroy` has joined, once it is called
  destroy : Option Nat
  -- the buffer of each read
  bufs : Nat → Option Bytes
  -- history: the calls of `portico_aio_pread` so far, what became of them, the tasks taken
  calls : Nat
  accepted : List Task
  refused : List (Nat × Errno)
  taken : List Task

def Pool.init : Pool where
  a := .create
  tasks := .empty
  depth := 0
  stop := false
  workers := fun _ => .top
  drain := none
  destroy := none
  bufs := fun _ => none
  calls := 0
  accepted := []
  refused := []
  taken := []

inductive PoolLabel where
  /-- Somebody calls `portico_aio_pread`; if it signals, worker `woken` is the one that wakes. -/
  | pread (r : Read) (woken : Nat)
  | worker (i : Nat)
  /-- The `pread` of worker `i` is interrupted. -/
  | interrupt (i : Nat)
  /-- Worker `i` returns from `pthread_cond_wait` without a signal. -/
  | spurious (i : Nat)
  /-- The consumer calls `portico_aio_drain`, or takes its next step in it. -/
  | drain
  | destroy
  /-- `pthread_join` of the next thread returns. -/
  | join

/-- `pthread_cond_signal`. -/
def signal (n : Nat) (workers : Nat → WorkerPc) (woken : Nat) : Option (Nat → WorkerPc) :=
  if woken < n ∧ workers woken = .waiting then some (update workers woken .top)
  else if ∀ i, i < n → workers i ≠ .waiting then some workers
  else none

/-- `pthread_cond_broadcast`. -/
def broadcast (workers : Nat → WorkerPc) : Nat → WorkerPc := fun i =>
  if workers i = .waiting then .top else workers i

def Pool.refuse (s : Pool) (e : Errno) : Pool :=
  { s with calls := s.calls + 1, refused := s.refused ++ [(s.calls, e)] }

def Pool.accept (s : Pool) (r : Read) (workers : Nat → WorkerPc) : Pool :=
  { s with
    tasks := s.tasks.push ⟨s.calls, r⟩
    depth := s.depth + 1
    workers := workers
    calls := s.calls + 1
    accepted := s.accepted ++ [⟨s.calls, r⟩] }

/-- `portico_aio_pread` on this backend: the checks, then `tp_submit`. -/
def porticoAioPread (cfg : Config) (s : Pool) (r : Read) (woken : Nat) : Option Pool :=
  match argError r with
  | some e => some (s.refuse e)
  | none =>
    if cfg.maxDepth ≠ 0 ∧ cfg.maxDepth ≤ s.depth then some (s.refuse .eagain)
    else (signal cfg.nthreads s.workers woken).map (s.accept r)

def Pool.setWorker (s : Pool) (i : Nat) (pc : WorkerPc) : Pool :=
  { s with workers := update s.workers i pc }

/-- `tp_worker`. -/
def workerStep (files : Read → Answer) (s : Pool) (i : Nat) : Option Pool :=
  match s.workers i with
  | .top =>
    match s.tasks.pop with
    | (some t, q) =>
      some ({ s with tasks := q, depth := s.depth - 1, taken := s.taken ++ [t] }.setWorker i
        (.reading t))
    | (none, _) => some (s.setWorker i (if s.stop then .exited else .waiting))
  | .reading t =>
    some ({ s with
        bufs := update s.bufs t.op ((files t.read).store (s.bufs t.op)) }.setWorker i
      (.posting (.enqueue ⟨t.op, (files t.read).res⟩)))
  | .posting pc =>
    some ({ s with a := (postStep true s.a pc).1 }.setWorker i
      (match (postStep true s.a pc).2 with
        | some pc' => .posting pc'
        | none => .top))
  | .waiting => none
  | .exited => none

/-- A step of the pool. Once `tp_destroy` has returned, the instance is gone. -/
def poolStep (cfg : Config) (files : Read → Answer) (s : Pool) (l : PoolLabel) : Option Pool :=
  if s.destroy = some cfg.nthreads then none
  else
    match l with
    | .pread r woken => porticoAioPread cfg s r woken
    | .worker i => if i < cfg.nthreads then workerStep files s i else none
    | .interrupt i =>
      match s.workers i with
      | .reading _ => some s
      | _ => none
    | .spurious i =>
      if i < cfg.nthreads ∧ s.workers i = .waiting then some (s.setWorker i .top) else none
    | .drain =>
      match s.drain with
      | none => some { s with drain := some .read }
      | some pc => some { s with a := (drainStep s.a pc).1, drain := (drainStep s.a pc).2 }
    | .destroy =>
      if s.destroy = none then
        some { s with stop := true, workers := broadcast s.workers, destroy := some 0 }
      else none
    | .join =>
      match s.destroy with
      | some k => if s.workers k = .exited then some { s with destroy := some (k + 1) } else none
      | none => none

/-! ## What a step does -/

/-- Some waiting workers are woken, and nothing else happens to the workers. -/
def Woken (ws ws' : Nat → WorkerPc) : Prop :=
  ∀ i, ws' i = ws i ∨ ws i = .waiting ∧ ws' i = .top

inductive Effect (cfg : Config) (files : Read → Answer) (s : Pool) : PoolLabel → Pool → Prop where
  | refuse (r : Read) (woken : Nat) (e : Errno) : Effect cfg files s (.pread r woken) (s.refuse e)
  | accept (r : Read) (woken : Nat) (ws : Nat → WorkerPc) (hargs : argError r = none)
      (hroom : cfg.maxDepth = 0 ∨ s.depth < cfg.maxDepth) (hwoken : Woken s.workers ws)
      (hawake : ∃ i, i < cfg.nthreads ∧ ws i ≠ .waiting) :
      Effect cfg files s (.pread r woken) (s.accept r ws)
  | take (i : Nat) (t : Task) (rest : Fifo Task) (hi : i < cfg.nthreads)
      (hpc : s.workers i = .top) (htasks : s.tasks.toList = t :: rest.toList) :
      Effect cfg files s (.worker i)
        ({ s with tasks := rest, depth := s.depth - 1, taken := s.taken ++ [t] }.setWorker i
          (.reading t))
  | sleep (i : Nat) (hi : i < cfg.nthreads) (hpc : s.workers i = .top)
      (htasks : s.tasks.toList = []) (hstop : s.stop = false) :
      Effect cfg files s (.worker i) (s.setWorker i .waiting)
  | exit (i : Nat) (hi : i < cfg.nthreads) (hpc : s.workers i = .top)
      (htasks : s.tasks.toList = []) (hstop : s.stop = true) :
      Effect cfg files s (.worker i) (s.setWorker i .exited)
  | read (i : Nat) (t : Task) (hi : i < cfg.nthreads) (hpc : s.workers i = .reading t) :
      Effect cfg files s (.worker i)
        ({ s with bufs := update s.bufs t.op ((files t.read).store (s.bufs t.op)) }
          |>.setWorker i (.posting (.enqueue ⟨t.op, (files t.read).res⟩)))
  | enqueue (i : Nat) (c : Completion) (hi : i < cfg.nthreads)
      (hpc : s.workers i = .posting (.enqueue c)) :
      Effect cfg files s (.worker i)
        ({ s with a := s.a.enqueue true c }.setWorker i (.posting .exchange))
  | exchange (i : Nat) (hi : i < cfg.nthreads) (hpc : s.workers i = .posting .exchange) :
      Effect cfg files s (.worker i)
        ({ s with a := { s.a with notified := true } }.setWorker i
          (if s.a.notified then .top else .posting .write))
  | write (i : Nat) (hi : i < cfg.nthreads) (hpc : s.workers i = .posting .write) :
      Effect cfg files s (.worker i) ({ s with a := s.a.writeEventfd }.setWorker i .top)
  | interrupt (i : Nat) : Effect cfg files s (.interrupt i) s
  | wake (i : Nat) (hi : i < cfg.nthreads) (hpc : s.workers i = .waiting) :
      Effect cfg files s (.spurious i) (s.setWorker i .top)
  | startDrain (hdrain : s.drain = none) :
      Effect cfg files s .drain { s with drain := some .read }
  | drain (pc : DrainPc) (hdrain : s.drain = some pc) :
      Effect cfg files s .drain
        { s with a := (drainStep s.a pc).1, drain := (drainStep s.a pc).2 }
  | destroy (hdestroy : s.destroy = none) :
      Effect cfg files s .destroy
        { s with stop := true, workers := broadcast s.workers, destroy := some 0 }
  | join (k : Nat) (hdestroy : s.destroy = some k) (hexit : s.workers k = .exited) :
      Effect cfg files s .join { s with destroy := some (k + 1) }

variable {ws ws' : Nat → WorkerPc} {i : Nat} {t : Task} {s s' : Pool} {pc : WorkerPc} {cfg : Config}
  {files : Read → Answer} {rest : Fifo Task} {l : PoolLabel}

theorem woken_update (h : ws i = .waiting) : Woken ws (update ws i .top) := by
  intro j
  by_cases hj : j = i
  · subst hj
    exact .inr ⟨h, update_self _ _ _⟩
  · exact .inl (update_of_ne hj _ _)

theorem woken_broadcast (ws : Nat → WorkerPc) : Woken ws (broadcast ws) := by
  intro j
  unfold broadcast
  split
  · exact .inr ⟨by assumption, rfl⟩
  · exact .inl rfl

/-- A signal wakes a waiting worker, if there is one. -/
theorem signal_spec {n woken : Nat} (hn : 0 < n) (h : signal n ws woken = some ws') :
    Woken ws ws' ∧ ∃ i, i < n ∧ ws' i ≠ .waiting := by
  unfold signal at h
  split at h
  · rename_i hw
    cases h
    exact ⟨woken_update hw.2, woken, hw.1, by rw [update_self]; simp⟩
  · split at h
    · rename_i hnone
      cases h
      exact ⟨fun i => .inl rfl, 0, hn, hnone 0 hn⟩
    · cases h

theorem pread_effect {r : Read} {woken : Nat} (h : porticoAioPread cfg s r woken = some s') :
    Effect cfg files s (.pread r woken) s' := by
  unfold porticoAioPread at h
  split at h
  · rename_i e _
    cases h
    exact .refuse r woken e
  · rename_i hargs
    split at h
    · cases h
      exact .refuse r woken .eagain
    · obtain ⟨ws, hws, rfl⟩ := Option.map_eq_some_iff.mp h
      obtain ⟨hwoken, hawake⟩ := signal_spec cfg.nthreads_pos hws
      exact .accept r woken ws hargs (by omega) hwoken hawake

theorem worker_effect (hi : i < cfg.nthreads) (h : workerStep files s i = some s') :
    Effect cfg files s (.worker i) s' := by
  unfold workerStep at h
  split at h
  · rename_i hpc
    rcases s.tasks.toList_of_pop with ⟨hpop, hnil, hsame⟩ | ⟨t, hpop, hcons⟩
    · rw [show s.tasks.pop = (none, s.tasks) from Prod.ext hpop hsame] at h
      cases h
      cases hstop : s.stop with
      | true => exact .exit i hi hpc hnil hstop
      | false => exact .sleep i hi hpc hnil hstop
    · rw [show s.tasks.pop = (some t, s.tasks.pop.2) from Prod.ext hpop rfl] at h
      cases h
      exact .take i t _ hi hpc hcons
  · rename_i t hpc
    cases h
    exact .read i t hi hpc
  · rename_i pc hpc
    cases h
    cases pc with
    | enqueue c => exact .enqueue i c hi hpc
    | exchange =>
      have heffect : Effect cfg files s (.worker i) _ := .exchange i hi hpc
      cases hn : s.a.notified with
      | true | false => simpa [postStep, hn] using heffect
    | write => exact .write i hi hpc
  · cases h
  · cases h

theorem step_effect (h : poolStep cfg files s l = some s') : Effect cfg files s l s' := by
  unfold poolStep at h
  split at h
  · cases h
  cases l with
  | pread => exact pread_effect h
  | worker =>
    simp only [Option.ite_none_right_eq_some] at h
    exact worker_effect h.1 h.2
  | interrupt i =>
    simp only at h
    split at h <;> cases h
    exact .interrupt i
  | spurious i =>
    simp only [Option.ite_none_right_eq_some] at h
    rw [← Option.some.inj h.2]
    exact .wake i h.1.1 h.1.2
  | drain =>
    simp only at h
    split at h
    · rename_i hdrain
      cases h
      exact .startDrain hdrain
    · rename_i pc hdrain
      cases h
      exact .drain pc hdrain
  | destroy =>
    simp only [Option.ite_none_right_eq_some] at h
    rw [← Option.some.inj h.2]
    exact .destroy h.1
  | join =>
    simp only at h
    split at h
    · rename_i k hk
      simp only [Option.ite_none_right_eq_some] at h
      rw [← Option.some.inj h.2]
      exact .join k hk h.1
    · cases h

/-! ## The task queue -/

/-- `depth` counts the queued tasks, within its bound; the queue holds the accepted tasks that
    have not been taken, in their order. A read that was refused is no accepted one. -/
structure QueueInv (cfg : Config) (s : Pool) : Prop where
  depth : s.depth = s.tasks.toList.length
  bound : cfg.maxDepth ≠ 0 → s.depth ≤ cfg.maxDepth
  order : s.accepted = s.taken ++ s.tasks.toList
  fresh : ∀ t ∈ s.accepted, t.op < s.calls
  distinct : (s.accepted.map Task.op).Nodup
  refused : ∀ x ∈ s.refused, x.1 < s.calls ∧ ∀ t ∈ s.accepted, t.op ≠ x.1

section Queue

theorem Config.maxDepth_nonneg (cfg : Config) : 0 ≤ cfg.maxDepth := by
  unfold maxDepth
  split <;> omega

theorem QueueInv.init : QueueInv cfg .init where
  depth := rfl
  bound := fun _ => cfg.maxDepth_nonneg
  order := rfl
  fresh := by simp [Pool.init]
  distinct := by simp [Pool.init]
  refused := by simp [Pool.init]

variable (h : QueueInv cfg s)

include h

theorem QueueInv.refuse (e : Errno) : QueueInv cfg (s.refuse e) where
  depth := h.depth
  bound := h.bound
  order := h.order
  fresh := fun t ht => Nat.lt_succ_of_lt (h.fresh t ht)
  distinct := h.distinct
  refused := by
    intro x hx
    rcases mem_append.mp hx with hx | hx
    · exact ⟨Nat.lt_succ_of_lt (h.refused x hx).1, (h.refused x hx).2⟩
    · rw [mem_singleton.mp hx]
      exact ⟨Nat.lt_succ_self _, fun t ht => Nat.ne_of_lt (h.fresh t ht)⟩

theorem QueueInv.accept (r : Read) (ws : Nat → WorkerPc)
    (hroom : cfg.maxDepth = 0 ∨ s.depth < cfg.maxDepth) : QueueInv cfg (s.accept r ws) where
  depth := by
    have hdepth := h.depth
    simp only [Pool.accept, Fifo.toList_push, length_append, length_singleton]
    omega
  bound := by
    intro hne
    simp only [Pool.accept]
    omega
  order := by
    simp only [Pool.accept, Fifo.toList_push]
    rw [h.order, append_assoc]
  fresh := by
    intro t ht
    rcases mem_append.mp ht with ht | ht
    · exact Nat.lt_succ_of_lt (h.fresh t ht)
    · rw [mem_singleton.mp ht]
      exact Nat.lt_succ_self _
  distinct := by
    simp only [Pool.accept, map_append, map_singleton]
    refine h.distinct.append (nodup_singleton _) ?_
    intro op hop hnew
    obtain ⟨t, ht, rfl⟩ := mem_map.mp hop
    exact absurd (mem_singleton.mp hnew) (Nat.ne_of_lt (h.fresh t ht))
  refused := by
    intro x hx
    obtain ⟨hlt, hne⟩ := h.refused x hx
    refine ⟨Nat.lt_succ_of_lt hlt, fun t ht => ?_⟩
    rcases mem_append.mp ht with ht | ht
    · exact hne t ht
    · rw [mem_singleton.mp ht]
      exact (Nat.ne_of_lt hlt).symm

theorem QueueInv.take (htasks : s.tasks.toList = t :: rest.toList) :
    QueueInv cfg { s with tasks := rest, depth := s.depth - 1, taken := s.taken ++ [t] } where
  depth := by
    have hdepth := h.depth
    rw [htasks, length_cons] at hdepth
    simp only
    omega
  bound := by
    intro hne
    have hbound := h.bound hne
    simp only
    omega
  order := by
    rw [h.order, htasks, append_assoc]
    rfl
  fresh := h.fresh
  distinct := h.distinct
  refused := h.refused

/-- What else a step changes, the queue does not depend on. -/
theorem QueueInv.frame (htasks : s'.tasks = s.tasks) (hdepth : s'.depth = s.depth)
    (htaken : s'.taken = s.taken) (hcalls : s'.calls = s.calls)
    (haccepted : s'.accepted = s.accepted) (hrefused : s'.refused = s.refused) :
    QueueInv cfg s' where
  depth := by rw [hdepth, htasks]; exact h.depth
  bound := by rw [hdepth]; exact h.bound
  order := by rw [haccepted, htaken, htasks]; exact h.order
  fresh := by rw [haccepted, hcalls]; exact h.fresh
  distinct := by rw [haccepted]; exact h.distinct
  refused := by rw [hrefused, haccepted, hcalls]; exact h.refused

theorem QueueInv.step (he : Effect cfg files s l s') : QueueInv cfg s' := by
  cases he with
  | refuse r woken e => exact h.refuse e
  | accept r woken ws hargs hroom => exact h.accept r ws hroom
  | take i t rest hi hpc htasks => exact (h.take htasks).frame rfl rfl rfl rfl rfl rfl
  | _ => exact h.frame rfl rfl rfl rfl rfl rfl

end Queue

/-! ## The accounts -/

/-- The read that a worker has taken and not yet posted. -/
def WorkerPc.op : WorkerPc → Option Nat
  | .reading t => some t.op
  | .posting (.enqueue c) => some c.op
  | _ => none

def Pool.held (n : Nat) (s : Pool) : List Nat :=
  (range n).filterMap fun i => (s.workers i).op

/-- The completions that have been posted, fired or not. -/
def Pool.posted (s : Pool) : List Completion := s.a.fired ++ s.a.queue.toList

/-- `c` is the blocking backend's completion of a task that was taken, with its buffer filled. -/
def Result (files : Read → Answer) (s : Pool) (c : Completion) : Prop :=
  ∃ t ∈ s.taken, ∃ buf, blockingSubmit files t.op t.read buf = (c, s.bufs t.op)

structure Accounts (cfg : Config) (files : Read → Answer) (s : Pool) : Prop where
  ledger : (s.taken.map Task.op).Perm (s.posted.map Completion.op ++ s.held cfg.nthreads)
  reading : ∀ i t, s.workers i = .reading t → t ∈ s.taken
  posting : ∀ i c, i < cfg.nthreads → s.workers i = .posting (.enqueue c) → Result files s c
  posted : ∀ c ∈ s.posted, Result files s c

section Held

variable {β : Type} {f : Nat → Option β} {n : Nat}

theorem perm_filterMap_update (hi : i < n) (x : β) :
    ((range n).filterMap (update f i (some x))).Perm
      (x :: (range n).filterMap (update f i none)) := by
  have hmem : i ∈ range n := mem_range.mpr hi
  have hperm : (range n).Perm (i :: (range n).erase i) := perm_cons_erase hmem
  have hnot : ∀ v, ((range n).erase i).filterMap (update f i v) =
      ((range n).erase i).filterMap f := fun v =>
    Fifo.filterMap_update_of_not_mem v (nodup_range.not_mem_erase)
  refine (hperm.filterMap _).trans ?_
  rw [filterMap_cons_some (update_self _ _ _), hnot]
  refine List.Perm.cons x ((hperm.filterMap _).trans ?_).symm
  rw [filterMap_cons_none (update_self _ _ _), hnot]

end Held

/-- A worker's read is one of those held, and the others' stand beside it. -/
theorem held_perm {op : Nat} (hi : i < cfg.nthreads) (hop : (s.workers i).op = some op) :
    (s.held cfg.nthreads).Perm (op :: (range cfg.nthreads).filterMap
      (update (fun j => (s.workers j).op) i none)) := by
  have h := perm_filterMap_update (f := fun j => (s.workers j).op) hi op
  rw [← hop, update_eq_self] at h
  exact h

theorem held_setWorker (s : Pool) (n i : Nat) (pc : WorkerPc) :
    (s.setWorker i pc).held n =
      (range n).filterMap (update (fun j => (s.workers j).op) i pc.op) :=
  congrArg (fun f => (range n).filterMap f) (comp_update WorkerPc.op s.workers i pc)

/-- A worker at another place than the one that was just set has been there before. -/
theorem worker_of_setWorker {j : Nat} {q : WorkerPc} (hne : pc ≠ q)
    (h : (s.setWorker i pc).workers j = q) : s.workers j = q := by
  exact (of_update hne h).2

theorem held_setWorker_same {n : Nat} (h : pc.op = (s.workers i).op) :
    (s.setWorker i pc).held n = s.held n := by
  rw [held_setWorker, h, update_eq_self]
  rfl

theorem Accounts.init : Accounts cfg files .init where
  ledger := by
    have hheld : Pool.init.held cfg.nthreads = [] := by
      unfold Pool.held
      rw [filterMap_eq_nil_iff]
      intro i _
      rfl
    rw [hheld]
    exact .nil
  reading := by simp [Pool.init]
  posting := by simp [Pool.init]
  posted := by simp [Pool.init, Pool.posted, Frontend.create]

/-- No read is held by two workers, or held and posted. -/
theorem Accounts.apart (h : Accounts cfg files s) (hq : QueueInv cfg s) {op : Nat}
    (hi : i < cfg.nthreads) (hop : (s.workers i).op = some op) :
    (∀ c ∈ s.posted, c.op ≠ op) ∧
      ∀ j, j < cfg.nthreads → (s.workers j).op = some op → j = i := by
  have hnodup : (s.taken.map Task.op).Nodup := by
    have hdistinct := hq.distinct
    rw [hq.order, map_append] at hdistinct
    exact (nodup_append'.mp hdistinct).1
  have hperm := h.ledger.trans ((held_perm hi hop).append_left _)
  obtain ⟨-, hheld, hdisjoint⟩ := nodup_append'.mp (hperm.nodup_iff.mp hnodup)
  refine ⟨fun c hc he => ?_, fun j hj hjop => ?_⟩
  · exact hdisjoint (mem_map.mpr ⟨c, hc, he⟩) mem_cons_self
  · by_contra hji
    refine (nodup_cons.mp hheld).1 (mem_filterMap.mpr ⟨j, mem_range.mpr hj, ?_⟩)
    rw [update_of_ne hji, hjop]

/-- A worker that neither takes nor posts a read leaves the accounts as they are. -/
theorem Accounts.frame (h : Accounts cfg files s)
    (hworkers : ∀ i, s'.workers i = s.workers i ∨
      (s.workers i).op = none ∧ (s'.workers i).op = none)
    (htaken : s'.taken = s.taken) (hposted : s'.posted = s.posted) (hbufs : s'.bufs = s.bufs) :
    Accounts cfg files s' := by
  have hop : ∀ i, (s'.workers i).op = (s.workers i).op := by
    intro i
    rcases hworkers i with he | ⟨h1, h2⟩
    · rw [he]
    · rw [h1, h2]
  have hsame : ∀ {i pc}, s'.workers i = pc → pc.op ≠ none → s.workers i = pc := by
    intro i pc hpc hne
    rcases hworkers i with he | ⟨-, h2⟩
    · rw [← he, hpc]
    · exact absurd (hpc ▸ h2) hne
  have hresult : ∀ c, Result files s c → Result files s' c := by
    intro c hc
    unfold Result
    rw [htaken, hbufs]
    exact hc
  refine ⟨?_, fun i t hpc => ?_, fun i c hi hpc => ?_, fun c hc => ?_⟩
  · rw [htaken, hposted, show s'.held cfg.nthreads = s.held cfg.nthreads by
      unfold Pool.held; simp only [hop]]
    exact h.ledger
  · rw [htaken]
    exact h.reading i t (hsame hpc (by simp [WorkerPc.op]))
  · exact hresult c (h.posting i c hi (hsame hpc (by simp [WorkerPc.op])))
  · exact hresult c (h.posted c (hposted ▸ hc))

theorem Accounts.setWorker (h : Accounts cfg files s)
    (hworkers : s'.workers = update s.workers i pc) (hold : (s.workers i).op = none)
    (hnew : pc.op = none) (htaken : s'.taken = s.taken) (hposted : s'.posted = s.posted)
    (hbufs : s'.bufs = s.bufs) : Accounts cfg files s' := by
  refine h.frame (fun j => ?_) htaken hposted hbufs
  rw [hworkers]
  by_cases hj : j = i
  · subst hj
    exact .inr ⟨hold, by rw [update_self, hnew]⟩
  · exact .inl (update_of_ne hj _ _)

theorem Woken.calm (h : Woken ws ws') (i : Nat) :
    ws' i = ws i ∨ (ws i).op = none ∧ (ws' i).op = none := by
  rcases h i with he | ⟨h1, h2⟩
  · exact .inl he
  · exact .inr ⟨by rw [h1]; rfl, by rw [h2]; rfl⟩

theorem Accounts.take (h : Accounts cfg files s) {depth : Int} (hi : i < cfg.nthreads)
    (hpc : s.workers i = .top) :
    Accounts cfg files ({ s with tasks := rest, depth := depth, taken := s.taken ++ [t] }.setWorker
      i (.reading t)) := by
  have hresult : ∀ {c}, Result files s c → Result files ({ s with
      tasks := rest, depth := depth, taken := s.taken ++ [t] }.setWorker i (.reading t)) c :=
    fun ⟨u, hu, hbuf⟩ => ⟨u, mem_append_left _ hu, hbuf⟩
  refine ⟨?_, fun j u hj => ?_, fun j c hjn hj => ?_, fun c hc => hresult (h.posted c hc)⟩
  · -- the worker held nothing, and now holds what was taken
    have hheld : s.held cfg.nthreads = (range cfg.nthreads).filterMap
        (update (fun j => (s.workers j).op) i none) := by
      have hnone : none = (s.workers i).op := by rw [hpc]; rfl
      rw [hnone, update_eq_self]
      rfl
    rw [held_setWorker]
    simp only [Pool.setWorker, map_append, map_singleton]
    refine (perm_append_singleton _ _).trans ?_
    refine ((h.ledger.cons t.op).trans ?_).trans
      ((perm_filterMap_update hi t.op).symm.append_left _)
    rw [hheld]
    exact perm_middle.symm
  · by_cases hji : j = i
    · subst hji
      simp only [Pool.setWorker] at hj
      rw [update_self] at hj
      rw [← WorkerPc.reading.inj hj]
      exact mem_append_right _ mem_cons_self
    · simp only [Pool.setWorker] at hj
      rw [update_of_ne hji] at hj
      exact mem_append_left _ (h.reading j u hj)
  · exact hresult (h.posting j c hjn (worker_of_setWorker (by simp) hj))

/-- The read fills the buffer of the task, which is nobody else's. -/
theorem Accounts.read (h : Accounts cfg files s) (hq : QueueInv cfg s) (hi : i < cfg.nthreads)
    (hpc : s.workers i = .reading t) :
    Accounts cfg files (({ s with
        bufs := update s.bufs t.op ((files t.read).store (s.bufs t.op)) } : Pool).setWorker
      i (.posting (.enqueue ⟨t.op, (files t.read).res⟩))) := by
  have hop : (s.workers i).op = some t.op := by rw [hpc]; rfl
  obtain ⟨hposted, hother⟩ := h.apart hq hi hop
  have hresult : ∀ {c}, c.op ≠ t.op → Result files s c → Result files (({ s with
      bufs := update s.bufs t.op ((files t.read).store (s.bufs t.op)) } : Pool).setWorker
        i (.posting (.enqueue ⟨t.op, (files t.read).res⟩))) c := by
    rintro c hne ⟨u, hu, buf, hbuf⟩
    have hcu : c.op = u.op := congrArg (fun r => r.1.op) hbuf.symm
    refine ⟨u, hu, buf, ?_⟩
    simp only [Pool.setWorker]
    rw [update_of_ne (fun e => hne (hcu.trans e)), hbuf]
  refine ⟨?_, fun j u hj => ?_, fun j c hjn hj => ?_, fun c hc => hresult (hposted c hc) ?_⟩
  · rw [held_setWorker_same]
    · exact h.ledger
    · exact hop.symm
  · exact h.reading j u (worker_of_setWorker (by simp) hj)
  · simp only [Pool.setWorker] at hj
    by_cases hji : j = i
    · subst hji
      rw [update_self] at hj
      obtain rfl := PostPc.enqueue.inj (WorkerPc.posting.inj hj)
      refine ⟨t, h.reading j t hpc, s.bufs t.op, ?_⟩
      simp only [Pool.setWorker]
      rw [update_self]
      rfl
    · rw [update_of_ne hji] at hj
      refine hresult (fun e => hji (hother j hjn ?_)) (h.posting j c hjn hj)
      rw [hj, ← e]
      rfl
  · exact h.posted c hc

theorem posted_enqueue (s : Pool) (c : Completion) (i : Nat) (pc : WorkerPc) :
    (({ s with a := s.a.enqueue true c } : Pool).setWorker i pc).posted = s.posted ++ [c] := by
  simp [Pool.posted, Pool.setWorker, Frontend.enqueue]

theorem Accounts.enqueue (h : Accounts cfg files s) {c : Completion} (hi : i < cfg.nthreads)
    (hpc : s.workers i = .posting (.enqueue c)) :
    Accounts cfg files (({ s with a := s.a.enqueue true c } : Pool).setWorker i
      (.posting .exchange)) := by
  have hop : (s.workers i).op = some c.op := by rw [hpc]; rfl
  refine ⟨?_, fun j u hj => ?_, fun j d hjn hj => ?_, fun d hd => ?_⟩
  · -- what the worker held moves to what has been posted
    rw [posted_enqueue, held_setWorker, map_append, append_assoc]
    exact h.ledger.trans ((held_perm hi hop).append_left _)
  · exact h.reading j u (worker_of_setWorker (by simp) hj)
  · exact h.posting j d hjn (worker_of_setWorker (by simp) hj)
  · rw [posted_enqueue] at hd
    rcases mem_append.mp hd with hd | hd
    · exact h.posted d hd
    · rw [mem_singleton.mp hd]
      exact h.posting i c hi hpc

/-- A drain fires what it pops. -/
theorem posted_drain (a : Frontend) (pc : DrainPc) :
    (drainStep a pc).1.fired ++ (drainStep a pc).1.queue.toList = a.fired ++ a.queue.toList := by
  cases pc with
  | read =>
    by_cases h : 0 < a.eventfd
    · rw [drainStep_read_pos h]
    · rw [drainStep_read_zero h]
  | reset => rfl
  | reap => rfl
  | pop =>
    cases hl : a.queue.toList with
    | nil => rw [drainStep_pop_nil hl, hl]
    | cons =>
      rw [drainStep_pop_cons hl, (Fifo.pop_of_toList_cons hl).2, append_assoc]
      rfl

theorem Accounts.step (h : Accounts cfg files s) (hq : QueueInv cfg s)
    (he : Effect cfg files s l s') : Accounts cfg files s' := by
  cases he with
  | accept r woken ws hargs hroom hwoken => exact h.frame hwoken.calm rfl rfl rfl
  | take i t rest hi hpc => exact h.take hi hpc
  | sleep _ _ hpc | exit _ _ hpc | write _ _ hpc | wake _ _ hpc =>
    exact h.setWorker rfl (by rw [hpc]; rfl) rfl rfl rfl rfl
  | read i t hi hpc => exact h.read hq hi hpc
  | enqueue i c hi hpc => exact h.enqueue hi hpc
  | exchange i hi hpc =>
    refine h.setWorker rfl (by rw [hpc]; rfl) ?_ rfl rfl rfl
    split <;> rfl
  | drain pc => exact h.frame (fun _ => .inl rfl) rfl (posted_drain s.a pc) rfl
  | destroy => exact h.frame (woken_broadcast s.workers).calm rfl rfl rfl
  | _ => exact h.frame (fun _ => .inl rfl) rfl rfl rfl

/-! ## Workers that are awake -/

/-- A worker leaves only when the pool is stopped; and as long as it is not, queued tasks have a
    worker that does not wait. -/
structure Alert (cfg : Config) (s : Pool) : Prop where
  exited : ∀ i, s.workers i = .exited → s.stop = true
  awake : s.stop = false → s.tasks.toList ≠ [] → ∃ i, i < cfg.nthreads ∧ s.workers i ≠ .waiting

theorem Alert.init : Alert cfg .init where
  exited := by simp [Pool.init]
  awake := fun _ h => absurd (Fifo.toList_empty (α := Task)) h

theorem Woken.exited (h : Woken ws ws') (hi : ws' i = .exited) : ws i = .exited := by
  rcases h i with he | ⟨-, htop⟩
  · exact he ▸ hi
  · simp [hi] at htop

/-- A worker that moves, and neither waits nor leaves, is awake. -/
theorem Alert.setWorker (h : Alert cfg s) (hstop : s'.stop = s.stop) (hi : i < cfg.nthreads)
    (hworkers : s'.workers = update s.workers i pc) (hexited : pc ≠ .exited)
    (hwaiting : pc ≠ .waiting) : Alert cfg s' where
  exited := by
    intro j hj
    rw [hworkers] at hj
    rw [hstop]
    exact h.exited j (of_update hexited hj).2
  awake := fun _ _ => ⟨i, hi, by rw [hworkers, update_self]; exact hwaiting⟩

theorem Alert.step (h : Alert cfg s) (he : Effect cfg files s l s') : Alert cfg s' := by
  cases he with
  | accept r woken ws hargs hroom hwoken hawake =>
    exact ⟨fun i hi => h.exited i (hwoken.exited hi), fun _ _ => hawake⟩
  | take _ _ _ hi | read _ _ hi | enqueue _ _ hi | write _ hi | wake _ hi =>
    exact h.setWorker rfl hi rfl (by simp) (by simp)
  | sleep i hi hpc htasks =>
    exact ⟨fun j hj => h.exited j (worker_of_setWorker (by simp) hj),
      fun _ hne => absurd htasks hne⟩
  | exit i hi hpc htasks hstop => exact ⟨fun _ _ => hstop, fun _ hne => absurd htasks hne⟩
  | exchange i hi =>
    refine h.setWorker rfl hi rfl ?_ ?_ <;> split <;> simp
  | destroy => exact ⟨fun _ _ => rfl, fun hstop _ => absurd hstop (by simp)⟩
  | _ => exact ⟨h.exited, h.awake⟩

structure PoolInv (cfg : Config) (files : Read → Answer) (s : Pool) : Prop where
  queue : QueueInv cfg s
  accounts : Accounts cfg files s
  alert : Alert cfg s

theorem PoolInv.init : PoolInv cfg files .init :=
  ⟨.init, .init, .init⟩

theorem PoolInv.step {s' : Pool} {l : PoolLabel} (h : PoolInv cfg files s)
    (hs : poolStep cfg files s l = some s') : PoolInv cfg files s' :=
  have he := step_effect hs
  ⟨h.queue.step he, h.accounts.step h.queue he, h.alert.step he⟩

theorem run_poolInv {as : List PoolLabel} (hrun : run (poolStep cfg files) .init as = some s) :
    PoolInv cfg files s :=
  run_invariant_all (I := PoolInv cfg files) (fun _ _ _ h hs => h.step hs) as .init s .init hrun

end Portico.Aio
