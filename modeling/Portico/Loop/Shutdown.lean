/-
  The life of a server and what its shutdown closes: `ws_server_create`, `ws_server_start`,
  `ws_server_stop`, `ws_server_wait` and `ws_server_destroy` of src/ws/ws_server.c,
  `ws_init_event_thread` and `ws_cleanup_event_thread` of src/ws/ws_event_thread.c, and the
  descriptors of `portico_aio_create` (src/aio).

  Model. Between start and stop the event threads and the acceptor run as in
  Portico.Loop.Threads, in any interleaving with each other and with an application that opens
  and closes files of its own. The fields that `ws_cleanup_event_thread` reads are kept as the
  code leaves them: zero in a thread that was never initialised, and the numbers of closed
  descriptors where an initialisation has failed. `shutdown` records every `close(2)` of
  `ws_cleanup_event_thread` and `ws_server_destroy` with what the number denoted then; no
  descriptor stands for -1, and a `close(-1)` closes nothing. A server is started once. Left
  out: memory, the TLS contexts, and the files that responses are read from.

  Proved: `shutdown_closes_own`, if each thread that is cleaned up has been initialised or is
  clean already, and each of its slots has never been used or is registered. Both matter
  (`shutdown_closes_stdin`): a server that is destroyed without a start closes descriptor 0, and
  so does one that has closed a connection, since `fd` of its slot is 0, and `fd >= 0` is true
  of any `uint32_t`.
-/
import Portico.Loop.Threads

namespace Portico.Loop

open Portico.Lib Portico.Ws List
open Function (update update_of_ne update_self)

/-! ## State -/

/-- `thread->connections`: NULL, the slots, or freed and not reset. -/
inductive SlotArray where
  | null
  | live (s : Server)
  | freed

/-- `portico_aio_t`: the io_uring descriptor, if that is the backend, and the eventfd. -/
structure AioFds where
  ring : Option Fd
  wakeup : Fd
  deriving DecidableEq, Repr

structure EventThread where
  epollFd : Option Fd
  wakeupEventfd : Option Fd
  aio : Option AioFds
  slots : SlotArray

/-- From `calloc`. -/
def EventThread.zeroed : EventThread :=
  { epollFd := some 0, wakeupEventfd := some 0, aio := none, slots := .null }

/-- After `ws_cleanup_event_thread`. -/
def EventThread.cleaned : EventThread :=
  { epollFd := none, wakeupEventfd := none, aio := none, slots := .null }

inductive Phase where
  | created
  | running
  | stopped
  | destroyed
  deriving DecidableEq, Repr

structure WsServer where
  shared : Shared
  listenFd : Option Fd
  threads : Nat → EventThread
  phase : Phase
  shutdown : List (Fd × Option Held)

/-- `loop` is the configuration of each event thread, with its share of the connections. -/
structure ServerConfig where
  threadCount : Nat
  loop : Config
  deriving Repr

/-- The application has the descriptors `app` open, and the listening socket gets a number of
    its own. -/
def wsServerCreate (app : List Fd) (listenFd : Fd) : WsServer :=
  { shared :=
      { files := fun fd => if fd = listenFd then some ⟨0, .listen⟩ else
          if fd ∈ app then some ⟨0, .app⟩ else none
        nextSock := 1
        accepted := none }
    listenFd := some listenFd
    threads := fun _ => .zeroed
    phase := .created
    shutdown := [] }

/-! ## Start -/

/-- The outcome of each call in `ws_init_event_thread`: the descriptors the kernel gives, or
    that a call fails. `queuesOk`: the wakeup descriptor joins the epoll set, and message queue
    and buffer pools are made; `tablesOk`: the descriptor map and the free stack. -/
structure InitEnv where
  epoll : Option Fd
  eventsOk : Bool
  wakeup : Option Fd
  queuesOk : Bool
  slotsOk : Bool
  tablesOk : Bool
  aio : Option AioFds
  deriving DecidableEq, Repr

/-- A new descriptor has a number that is not in use. -/
def Shared.openNew (k : Shared) (fd : Fd) (holder : Holder) : Option Shared :=
  if k.files fd = none then some (k.opened fd holder) else none

/-- `portico_aio_create`, tried with io_uring and then with the thread pool; without it static
    files are not served. -/
def porticoAioCreate (aio : Option AioFds) (i : Nat) (k : Shared) : Option Shared :=
  match aio with
  | none => some k
  | some a =>
    match k.openNew a.wakeup (.aio i), a.ring with
    | none, _ => none
    | some k, none => some k
    | some k, some ring => k.openNew ring (.ring i)

/-- Table and thread afterwards, and whether it returned `WS_OK`. -/
def wsInitEventThread (cfg : Config) (env : InitEnv) (i : Nat) (k : Shared) (t : EventThread) :
    Option (Shared × EventThread × Bool) :=
  match env.epoll with
  | none => some (k, { t with epollFd := none }, false)
  | some epoll =>
    match k.openNew epoll (.epoll i) with
    | none => none
    | some k =>
      let t := { t with epollFd := some epoll }
      if !env.eventsOk then some (k.closed epoll, t, false)
      else match env.wakeup with
      | none => some (k.closed epoll, { t with wakeupEventfd := none }, false)
      | some wakeup =>
        match k.openNew wakeup (.wakeup i) with
        | none => none
        | some k =>
          let t := { t with wakeupEventfd := some wakeup }
          let undone := (k.closed wakeup).closed epoll
          if !env.queuesOk then some (undone, t, false)
          else if !env.slotsOk then some (undone, { t with slots := .null }, false)
          else if !env.tablesOk then some (undone, { t with slots := .freed }, false)
          else match porticoAioCreate env.aio i k with
          | none => none
          | some k => some (k, { t with aio := env.aio, slots := .live (.init cfg) }, true)

/-! ## Shutdown -/

/-- `close(2)` by the shutdown code. -/
def WsServer.closeFd (w : WsServer) (fd : Fd) : WsServer :=
  { w with
    shared := w.shared.closed fd
    shutdown := w.shutdown ++ [(fd, w.shared.files fd)] }

def WsServer.closeAll (w : WsServer) (fds : List Fd) : WsServer := fds.foldl WsServer.closeFd w

/-- Every slot's `fd`, which is never below 0. Freed memory is read as it was left, zeroed. -/
def SlotArray.fds (cfg : Config) : SlotArray → List Fd
  | .null => []
  | .live s => (range cfg.maxConnections).filterMap fun x => (s.conns x).fd
  | .freed => replicate cfg.maxConnections 0

/-- The descriptors that `portico_aio_destroy` closes, and what they are for. -/
def aioResources (i : Nat) : Option AioFds → List (Fd × Holder)
  | none => []
  | some a => a.ring.toList.map (·, .ring i) ++ [(a.wakeup, .aio i)]

/-- The thread's descriptors apart from connections, in the order in which they are closed. -/
def EventThread.resources (t : EventThread) (i : Nat) : List (Fd × Holder) :=
  aioResources i t.aio ++ t.wakeupEventfd.toList.map (·, .wakeup i) ++
    t.epollFd.toList.map (·, .epoll i)

def wsCleanupEventThread (cfg : Config) (w : WsServer) (i : Nat) : WsServer :=
  let t := w.threads i
  let w := w.closeAll (t.slots.fds cfg ++ (t.resources i).map Prod.fst)
  { w with threads := update w.threads i .cleaned }

def cleanupThreads (cfg : Config) (w : WsServer) (n : Nat) : WsServer :=
  (range n).foldl (wsCleanupEventThread cfg) w

/-- The threads from `i` on are initialised, until one fails. -/
def initThreads (cfg : Config) : List InitEnv → Nat → WsServer → Option (WsServer × Nat × Bool)
  | [], i, w => some (w, i, true)
  | env :: envs, i, w =>
    match wsInitEventThread cfg env i w.shared (w.threads i) with
    | none => none
    | some (k, t, ok) =>
      let w := { w with shared := k, threads := update w.threads i t }
      if ok then initThreads cfg envs (i + 1) w else some (w, i, false)

/-- With `threadsOk` false a `pthread_create` fails and every thread is cleaned up again. -/
def wsServerStart (cfg : ServerConfig) (w : WsServer) (envs : List InitEnv) (threadsOk : Bool) :
    Option WsServer :=
  if w.phase = .created ∧ envs.length = cfg.threadCount then
    match initThreads cfg.loop envs 0 w with
    | none => none
    | some (w, i, false) => some (cleanupThreads cfg.loop w i)
    | some (w, _, true) =>
      if threadsOk then some { w with phase := .running }
      else some (cleanupThreads cfg.loop w cfg.threadCount)
  else none

/-- Acceptor and event threads have left their loops. -/
def WsServer.joined (cfg : ServerConfig) (w : WsServer) : Bool :=
  w.shared.accepted.isNone && (range cfg.threadCount).all fun i =>
    match (w.threads i).slots with
    | .live s => s.ev = .top
    | _ => true

def wsServerStop (cfg : ServerConfig) (w : WsServer) : Option WsServer :=
  if w.phase = .running ∧ w.joined cfg = true then some { w with phase := .stopped } else none

/-- It returns when the threads have ended, at once if there are none. -/
def wsServerWait (cfg : ServerConfig) (w : WsServer) : Option WsServer :=
  if w.phase = .created ∨ w.phase = .stopped then some (cleanupThreads cfg.loop w cfg.threadCount)
  else none

def wsServerDestroy (cfg : ServerConfig) (w : WsServer) : Option WsServer :=
  if w.phase ≠ .destroyed ∧ (w.phase = .running → w.joined cfg = true) then
    let w := { w.closeAll w.listenFd.toList with listenFd := none }
    some { cleanupThreads cfg.loop w cfg.threadCount with phase := .destroyed }
  else none

/-! ## Steps -/

inductive WsOp where
  | appOpen (fd : Fd)
  | appClose (fd : Fd)
  | start (envs : List InitEnv) (threadsOk : Bool)
  | thread (i : Nat) (a : Label)
  | stop
  | wait
  | destroy
  deriving DecidableEq, Repr

/-- An API call. -/
def Label.call : Label → Bool
  | .find _ _ => true
  | .send _ _ => true
  | _ => false

def WsServer.threadStep (cfg : ServerConfig) (w : WsServer) (i : Nat) (a : Label) :
    Option WsServer :=
  match (w.threads i).slots with
  | .live s =>
    if (w.phase = .running ∨ (w.phase = .stopped ∧ a.call = true)) ∧ i < cfg.threadCount then
      (Loop.threadStep cfg.loop w.shared i s a).map fun (k, s') =>
        { w with
          shared := k
          threads := update w.threads i { w.threads i with slots := .live s' } }
    else none
  | _ => none

def wsStep (cfg : ServerConfig) (w : WsServer) : WsOp → Option WsServer
  | .appOpen fd => (w.shared.openNew fd .app).map fun k => { w with shared := k }
  | .appClose fd =>
    match w.shared.files fd with
    | some ⟨_, .app⟩ => some { w with shared := w.shared.closed fd }
    | _ => none
  | .start envs threadsOk => wsServerStart cfg w envs threadsOk
  | .thread i a => w.threadStep cfg i a
  | .stop => wsServerStop cfg w
  | .wait => wsServerWait cfg w
  | .destroy => wsServerDestroy cfg w

/-- The thread is clean, or it is initialised and its slots have never been used or are
    registered. -/
def EventThread.ready (cfg : Config) (t : EventThread) : Bool :=
  match t.slots with
  | .null => t.epollFd.isNone && t.wakeupEventfd.isNone && t.aio.isNone
  | .live s => (range cfg.maxConnections).all fun x =>
      (s.conns x).fd.all fun fd => s.fdMap fd = some x
  | .freed => false

/-- The condition on a step: what is cleaned up is `ready`, and the event threads close no
    descriptor with an event later in the batch. -/
def shutdownSafe (cfg : ServerConfig) (w : WsServer) : WsOp → Bool
  | .thread i a =>
    match (w.threads i).slots with
    | .live s => closesNoPending (s.within i w.shared) a
    | _ => true
  | .wait => (range cfg.threadCount).all fun i => (w.threads i).ready cfg.loop
  | .destroy => (range cfg.threadCount).all fun i => (w.threads i).ready cfg.loop
  | _ => true

/-! ## Closing a list of descriptors -/

/-- The number denoted a file of the server. -/
def ShutdownOwn (c : Fd × Option Held) : Prop := ∃ held, c.2 = some held ∧ held.holder ≠ .app

variable {fd : Fd} {held : Held} {i : Nat} {t : EventThread} {k k' : Shared} {env : InitEnv}
  {ok : Bool} {w : WsServer}

section CloseAll

variable {cfg : Config}

theorem closeAll_cons (w : WsServer) (fd : Fd) (fds : List Fd) :
    w.closeAll (fd :: fds) = (w.closeFd fd).closeAll fds := rfl

theorem closeAll_threads (fds : List Fd) :
    ∀ w : WsServer, (w.closeAll fds).threads = w.threads ∧ (w.closeAll fds).phase = w.phase ∧
      (w.closeAll fds).listenFd = w.listenFd ∧
      (w.closeAll fds).shared.accepted = w.shared.accepted := by
  induction fds with
  | nil => exact fun w => ⟨rfl, rfl, rfl, rfl⟩
  | cons fd fds ih => exact fun w => ih (w.closeFd fd)

theorem closeFd_shared (w : WsServer) (fd : Fd) : (w.closeFd fd).shared = w.shared.closed fd := rfl

theorem closeAll_files_of_notMem (fds : List Fd) :
    ∀ w : WsServer, fd ∉ fds → (w.closeAll fds).shared.files fd = w.shared.files fd := by
  induction fds with
  | nil => exact fun w _ => rfl
  | cons fd' fds ih =>
    intro w h
    rw [mem_cons, not_or] at h
    rw [closeAll_cons, ih _ h.2, closeFd_shared, closed_files_of_ne h.1]

theorem of_closeAll_files (fds : List Fd) :
    ∀ w : WsServer, (w.closeAll fds).shared.files fd = some held →
      w.shared.files fd = some held := by
  induction fds with
  | nil => exact fun w h => h
  | cons fd' fds ih =>
    exact fun w h => (of_closed_files (ih (w.closeFd fd') h)).2

/-- Closing the first of several descriptors leaves the others open. -/
theorem closeFd_rest {P : Held → Prop} {fds : List Fd} (hnot : fd ∉ fds)
    (h : ∀ fd' ∈ fd :: fds, ∃ held, w.shared.files fd' = some held ∧ P held) :
    ∀ fd' ∈ fds, ∃ held, (w.closeFd fd).shared.files fd' = some held ∧ P held := by
  intro fd' hfd'
  have hne : fd' ≠ fd := by
    rintro rfl
    exact hnot hfd'
  rw [closeFd_shared, closed_files_of_ne hne]
  exact h fd' (mem_cons_of_mem _ hfd')

/-- Descriptors of the server, each closed once. -/
theorem closeAll_own (fds : List Fd) :
    ∀ w : WsServer, fds.Nodup →
      (∀ fd ∈ fds, ∃ held, w.shared.files fd = some held ∧ held.holder ≠ .app) →
      (∀ c ∈ w.shutdown, ShutdownOwn c) → ∀ c ∈ (w.closeAll fds).shutdown, ShutdownOwn c := by
  induction fds with
  | nil => exact fun w _ _ h => h
  | cons fd fds ih =>
    intro w hnodup hfds h
    obtain ⟨hnot, hnodup⟩ := nodup_cons.mp hnodup
    refine ih (w.closeFd fd) hnodup (closeFd_rest hnot hfds) (fun c hc => ?_)
    rcases mem_append.mp hc with hc | hc
    · exact h c hc
    · rw [mem_singleton.mp hc]
      exact hfds fd mem_cons_self

theorem KernelInv.closeAll (hcap : cfg.maxConnections ≤ 2 ^ 16) {s : Server} {j : Nat}
    (fds : List Fd) : ∀ w : WsServer, fds.Nodup →
      (∀ fd ∈ fds, ∃ held, w.shared.files fd = some held ∧ (held.seenBy j).owner = .other) →
      KernelInv cfg (s.within j w.shared) →
      KernelInv cfg (s.within j (w.closeAll fds).shared) := by
  induction fds with
  | nil => exact fun w _ _ h => h
  | cons fd fds ih =>
    intro w hnodup hfds h
    obtain ⟨hnot, hnodup⟩ := nodup_cons.mp hnodup
    obtain ⟨held, hheld, hother⟩ := hfds fd mem_cons_self
    exact ih (w.closeFd fd) hnodup (closeFd_rest hnot hfds) (h.closed hcap hheld hother)

end CloseAll

/-! ## The descriptors of a thread -/

def Holder.thread? : Holder → Option Nat
  | .epoll i => some i
  | .wakeup i => some i
  | .ring i => some i
  | .aio i => some i
  | .conn i _ => some i
  | _ => none

/-- Not an accepted socket. -/
def Holder.outside : Holder → Bool
  | .acceptor => false
  | .conn _ _ => false
  | _ => true

theorem seenBy_other {j : Nat} (h : held.holder.thread? = some i) (hij : i ≠ j) :
    (held.seenBy j).owner = .other := by
  obtain ⟨sock, holder⟩ := held
  cases holder with
  | conn i' =>
    obtain rfl : i' = i := Option.some.inj h
    simp [Held.seenBy, hij]
  | acceptor => simp [Holder.thread?] at h
  | _ => rfl

/-- An initialised thread: its view of the table, and the descriptors in its fields. -/
structure ThreadUp (cfg : Config) (k : Shared) (i : Nat) (t : EventThread) (s : Server) : Prop where
  kernel : KernelInv cfg (s.within i k)
  held : ∀ p ∈ t.resources i, ∃ sock, k.files p.1 = some ⟨sock, p.2⟩

theorem resources_holder {p : Fd × Holder} (h : p ∈ t.resources i) :
    p.2.thread? = some i ∧ p.2.outside = true := by
  obtain ⟨epollFd, wakeup, aio, slots⟩ := t
  simp only [EventThread.resources, mem_append, mem_map, Option.mem_toList] at h
  rcases h with (h | ⟨fd, _, rfl⟩) | ⟨fd, _, rfl⟩
  · cases aio with
    | none => exact absurd h not_mem_nil
    | some =>
      simp only [aioResources, mem_append, mem_map, mem_singleton] at h
      rcases h with ⟨fd, _, rfl⟩ | rfl <;> exact ⟨rfl, rfl⟩
  · exact ⟨rfl, rfl⟩
  · exact ⟨rfl, rfl⟩

theorem resources_nodup (t : EventThread) (i : Nat) : ((t.resources i).map Prod.snd).Nodup := by
  obtain ⟨epollFd, wakeup, aio, slots⟩ := t
  rcases epollFd with _ | _ <;> rcases wakeup with _ | _ <;> rcases aio with _ | ⟨_ | _, _⟩ <;>
    simp [EventThread.resources, aioResources]

section Thread

variable {cfg : Config} {s : Server}

/-- The descriptor of a slot that is ready. -/
theorem ThreadUp.slot_held (h : ThreadUp cfg k i t s) (ht : t.slots = .live s)
    (hready : t.ready cfg = true) {x : Slot} (hx : x < cfg.maxConnections)
    (hfd : (s.conns x).fd = some fd) :
    s.fdMap fd = some x ∧ ∃ sock polled, k.files fd = some ⟨sock, .conn i polled⟩ := by
  unfold EventThread.ready at hready
  rw [ht] at hready
  have hmap := all_eq_true.mp hready x (mem_range.mpr hx)
  rw [hfd] at hmap
  have hmap : s.fdMap fd = some x := by simpa using hmap
  obtain ⟨polled, hfile⟩ := (h.kernel.files.fds fd).map x hmap
  exact ⟨hmap, _, polled, held_of_thread hfile⟩

theorem ThreadUp.fds_held (h : ThreadUp cfg k i t s) (ht : t.slots = .live s)
    (hready : t.ready cfg = true) :
    ∀ fd ∈ t.slots.fds cfg ++ (t.resources i).map Prod.fst,
      ∃ held, k.files fd = some held ∧ held.holder.thread? = some i := by
  intro fd hfd
  rcases mem_append.mp hfd with hfd | hfd
  · rw [ht] at hfd
    obtain ⟨x, hx, hfd⟩ := mem_filterMap.mp hfd
    obtain ⟨_, sock, polled, hfile⟩ := h.slot_held ht hready (mem_range.mp hx) hfd
    exact ⟨_, hfile, rfl⟩
  · obtain ⟨p, hp, rfl⟩ := mem_map.mp hfd
    obtain ⟨sock, hfile⟩ := h.held p hp
    exact ⟨_, hfile, (resources_holder hp).1⟩

theorem ThreadUp.fds_nodup (h : ThreadUp cfg k i t s) (ht : t.slots = .live s)
    (hready : t.ready cfg = true) :
    (t.slots.fds cfg ++ (t.resources i).map Prod.fst).Nodup := by
  refine nodup_append.mpr ⟨?_, ?_, ?_⟩
  · rw [ht]
    refine pairwise_filterMap.mpr (nodup_range.imp_of_mem fun hx hy hne => ?_)
    rintro fd hfd fd' hfd' rfl
    have hmap := (h.slot_held ht hready (mem_range.mp hx) hfd).1
    have hmap' := (h.slot_held ht hready (mem_range.mp hy) hfd').1
    exact hne (Option.some.inj (hmap.symm.trans hmap'))
  · refine pairwise_map.mpr ?_
    refine (pairwise_map.mp (resources_nodup t i)).imp_of_mem fun {p q} hp hq hne he => hne ?_
    obtain ⟨_, hfile⟩ := h.held p hp
    obtain ⟨_, hfile'⟩ := h.held q hq
    rw [he, hfile'] at hfile
    exact (Held.mk.inj (Option.some.inj hfile)).2.symm
  · rintro fd hfd fd' hfd' rfl
    rw [ht] at hfd
    obtain ⟨x, hx, hfd⟩ := mem_filterMap.mp hfd
    obtain ⟨_, _, _, hfile⟩ := h.slot_held ht hready (mem_range.mp hx) hfd
    obtain ⟨p, hp, rfl⟩ := mem_map.mp hfd'
    obtain ⟨_, hfile'⟩ := h.held p hp
    rw [hfile] at hfile'
    have hholder := (Held.mk.inj (Option.some.inj hfile')).2
    have hout := (resources_holder hp).2
    rw [← hholder] at hout
    simp [Holder.outside] at hout

/-- The table changes, and the descriptors in the fields of threads stay. -/
theorem ThreadUp.grow {s' : Server} (h : ThreadUp cfg k i t s)
    (hkept : ∀ fd held, k.files fd = some held → held.holder.outside = true →
      held.holder ≠ .app → held.holder ≠ .listen → k'.files fd = some held)
    (hkernel : KernelInv cfg (s'.within i k')) : ThreadUp cfg k' i t s' := by
  refine ⟨hkernel, fun p hp => ?_⟩
  obtain ⟨sock, hfile⟩ := h.held p hp
  obtain ⟨hthread, hout⟩ := resources_holder hp
  have hne : ∀ holder : Holder, holder.thread? = none → p.2 ≠ holder := by
    rintro holder hnone rfl
    simp [hthread] at hnone
  exact ⟨sock, hkept p.1 _ hfile hout (hne .app rfl) (hne .listen rfl)⟩

end Thread

/-! ## The invariant -/

structure WsInv (cfg : ServerConfig) (w : WsServer) : Prop where
  listen : ∀ fd, w.listenFd = some fd → ∃ sock, w.shared.files fd = some ⟨sock, .listen⟩
  up : ∀ i s, (w.threads i).slots = .live s → ThreadUp cfg.loop w.shared i (w.threads i) s
  own : ∀ c ∈ w.shutdown, ShutdownOwn c

/-- One thread and the table change. -/
theorem up_update {cfg : Config} {threads : Nat → EventThread}
    (hself : ∀ s, t.slots = .live s → ThreadUp cfg k i t s)
    (hother : ∀ j s, j ≠ i → (threads j).slots = .live s → ThreadUp cfg k j (threads j) s)
    (j : Nat) (s : Server) (hj : (update threads i t j).slots = .live s) :
    ThreadUp cfg k j (update threads i t j) s := by
  by_cases hji : j = i
  · rw [hji, update_self] at hj ⊢
    exact hself s hj
  · rw [update_of_ne hji] at hj ⊢
    exact hother j s hji hj

/-- Before the acceptor runs. -/
structure Idle (w : WsServer) : Prop where
  accepted : w.shared.accepted = none
  files : ∀ fd held, w.shared.files fd = some held → held.holder.outside = true

section Cleanup

variable {cfg : ServerConfig}

/-- What `ws_cleanup_event_thread` closes in a thread that is ready. -/
theorem WsInv.ready_fds (h : WsInv cfg w) (hready : (w.threads i).ready cfg.loop = true) :
    ((w.threads i).slots.fds cfg.loop ++ ((w.threads i).resources i).map Prod.fst).Nodup ∧
      ∀ fd ∈ (w.threads i).slots.fds cfg.loop ++ ((w.threads i).resources i).map Prod.fst,
        ∃ held, w.shared.files fd = some held ∧ held.holder.thread? = some i := by
  cases hslots : (w.threads i).slots with
  | live s =>
    have hup := h.up i s hslots
    rw [← hslots]
    exact ⟨hup.fds_nodup hslots hready, hup.fds_held hslots hready⟩
  | null =>
    have hnone : (w.threads i).resources i = [] := by
      unfold EventThread.ready at hready
      rw [hslots] at hready
      simp only [Bool.and_eq_true, Option.isNone_iff_eq_none] at hready
      simp [EventThread.resources, aioResources, hready.1.1, hready.1.2, hready.2]
    rw [hnone]
    exact ⟨nodup_nil, fun fd hfd => absurd hfd (by simp [SlotArray.fds])⟩
  | freed =>
    unfold EventThread.ready at hready
    rw [hslots] at hready
    cases hready

theorem WsInv.cleanup (hcap : cfg.loop.maxConnections ≤ 2 ^ 16) (h : WsInv cfg w)
    (hready : (w.threads i).ready cfg.loop = true) :
    WsInv cfg (wsCleanupEventThread cfg.loop w i) := by
  obtain ⟨hnodup, hheld⟩ := h.ready_fds hready
  generalize hfds : (w.threads i).slots.fds cfg.loop ++ ((w.threads i).resources i).map Prod.fst =
    fds at hnodup hheld
  have hthreads := closeAll_threads fds w
  -- a file that is not this thread's stays open
  have hkeep : ∀ fd held, w.shared.files fd = some held → held.holder.thread? ≠ some i →
      (w.closeAll fds).shared.files fd = some held := by
    intro fd held hfile hne
    rw [closeAll_files_of_notMem fds w (fun hmem => ?_), hfile]
    obtain ⟨held', hfile', hthread⟩ := hheld fd hmem
    rw [hfile] at hfile'
    exact hne (Option.some.inj hfile' ▸ hthread)
  have hclean : wsCleanupEventThread cfg.loop w i =
      { w.closeAll fds with threads := update w.threads i .cleaned } := by
    simp only [wsCleanupEventThread, hfds, hthreads.1]
  rw [hclean]
  refine ⟨fun fd hfd => ?_, up_update (fun s hs => ?_) (fun j s hji hj => ?_), ?_⟩
  · obtain ⟨sock, hfile⟩ := h.listen fd (hthreads.2.2.1 ▸ hfd)
    exact ⟨sock, hkeep fd _ hfile (by simp [Holder.thread?])⟩
  · simp [EventThread.cleaned] at hs
  · have hup := h.up j s hj
    refine ⟨hup.kernel.closeAll hcap fds w hnodup fun fd hfd => ?_, fun p hp => ?_⟩
    · obtain ⟨held, hfile, hthread⟩ := hheld fd hfd
      exact ⟨held, hfile, seenBy_other hthread (Ne.symm hji)⟩
    · obtain ⟨sock, hfile⟩ := hup.held p hp
      refine ⟨sock, hkeep p.1 _ hfile ?_⟩
      rw [(resources_holder hp).1]
      simpa using hji
  · refine closeAll_own fds w hnodup (fun fd hfd => ?_) h.own
    obtain ⟨held, hfile, hthread⟩ := hheld fd hfd
    refine ⟨held, hfile, fun happ => ?_⟩
    rw [happ] at hthread
    simp [Holder.thread?] at hthread

theorem cleanup_threads (w : WsServer) (i : Nat) :
    (wsCleanupEventThread cfg.loop w i).threads = update w.threads i .cleaned := by
  simp only [wsCleanupEventThread, (closeAll_threads _ w).1]

theorem cleanupThreads_succ (cfg : Config) (w : WsServer) (n : Nat) :
    cleanupThreads cfg w (n + 1) = wsCleanupEventThread cfg (cleanupThreads cfg w n) n := by
  simp [cleanupThreads, range_succ]

/-- Every thread below `n` is cleaned, and no other one changes. -/
theorem cleanupThreads_threads (w : WsServer) (n : Nat) :
    (cleanupThreads cfg.loop w n).threads =
      fun j => if j < n then .cleaned else w.threads j := by
  induction n with
  | zero => simp [cleanupThreads]
  | succ n ih =>
    rw [cleanupThreads_succ, cleanup_threads, ih]
    funext j
    by_cases hj : j = n
    · rw [hj, update_self, if_pos (Nat.lt_succ_self n)]
    · rw [update_of_ne hj]
      by_cases hlt : j < n
      · rw [if_pos hlt, if_pos (Nat.lt_succ_of_lt hlt)]
      · rw [if_neg hlt, if_neg (by omega)]

theorem WsInv.cleanupThreads (hcap : cfg.loop.maxConnections ≤ 2 ^ 16) (h : WsInv cfg w) (n : Nat)
    (hready : ∀ i, i < n → (w.threads i).ready cfg.loop = true) :
    WsInv cfg (cleanupThreads cfg.loop w n) := by
  induction n with
  | zero => exact h
  | succ n ih =>
    rw [cleanupThreads_succ]
    refine (ih fun i hi => hready i (by omega)).cleanup hcap ?_
    rw [cleanupThreads_threads]
    simpa using hready n (Nat.lt_succ_self n)

end Cleanup

/-! ## Initialisation of a thread -/

/-- `k'` has more files than `k`, none of them an accepted socket. -/
structure Grows (cfg : Config) (k k' : Shared) : Prop where
  accepted : k'.accepted = k.accepted
  kept : ∀ fd held, k.files fd = some held → k'.files fd = some held
  new : ∀ fd held, k'.files fd = some held → k.files fd = some held ∨ held.holder.outside = true
  views : ∀ (s : Server) (j : Nat), KernelInv cfg (s.within j k) → KernelInv cfg (s.within j k')

theorem seenBy_outside (h : held.holder.outside = true) (j : Nat) :
    held.seenBy j = ⟨held.sock, .other, false⟩ := by
  obtain ⟨sock, holder⟩ := held
  cases holder with
  | acceptor | conn => simp [Holder.outside] at h
  | _ => rfl

section Init

variable {cfg : Config} {k'' : Shared}

theorem Grows.refl (cfg : Config) (k : Shared) : Grows cfg k k :=
  ⟨rfl, fun _ _ h => h, fun _ _ h => .inl h, fun _ _ h => h⟩

theorem Grows.trans (h : Grows cfg k k') (h' : Grows cfg k' k'') : Grows cfg k k'' := by
  refine ⟨h'.accepted.trans h.accepted, fun fd held hf => h'.kept fd held (h.kept fd held hf),
    fun fd held hf => ?_, fun s j hs => h'.views s j (h.views s j hs)⟩
  rcases h'.new fd held hf with hf | hf
  · exact h.new fd held hf
  · exact .inr hf

theorem Grows.files_none (h : Grows cfg k k') (hf : k'.files fd = none) : k.files fd = none := by
  cases hk : k.files fd with
  | none => rfl
  | some held => exact absurd (hf.symm.trans (h.kept fd held hk)) (by simp)

variable (hcap : cfg.maxConnections ≤ 2 ^ 16)

include hcap

theorem Grows.openNew {holder : Holder} (h : k.openNew fd holder = some k')
    (hout : holder.outside = true) :
    Grows cfg k k' ∧ k.files fd = none ∧ ∃ sock, k'.files fd = some ⟨sock, holder⟩ := by
  unfold Shared.openNew at h
  split at h
  · rename_i hnone
    obtain rfl := Option.some.inj h
    refine ⟨⟨rfl, fun fd' held hf => ?_, fun fd' held hf => ?_, fun s j hs => ?_⟩, hnone, _,
      opened_files_self k fd holder⟩
    · have hne : fd' ≠ fd := by
        rintro rfl
        simp [hnone] at hf
      rw [opened_files_of_ne holder hne, hf]
    · by_cases hfd : fd' = fd
      · rw [hfd, opened_files_self] at hf
        obtain rfl := Option.some.inj hf
        exact .inr hout
      · exact .inl ((opened_files_of_ne holder hfd).symm.trans hf)
    · exact hs.opened hcap hnone (seenBy_outside hout j)
  · cases h

/-- A descriptor that was opened since is closed again. -/
theorem Grows.closed (h : Grows cfg k k') (hnone : k.files fd = none)
    (hheld : k'.files fd = some held) : Grows cfg k (k'.closed fd) := by
  refine ⟨h.accepted, fun fd' held' hf => ?_, fun fd' held' hf => ?_, fun s j hs => ?_⟩
  · have hne : fd' ≠ fd := by
      rintro rfl
      simp [hnone] at hf
    rw [closed_files_of_ne hne]
    exact h.kept fd' held' hf
  · exact h.new fd' held' (of_closed_files hf).2
  · rcases h.new fd held hheld with hf | hout
    · simp [hnone] at hf
    · refine (h.views s j hs).closed hcap hheld ?_
      rw [seenBy_outside hout j]

theorem aio_create_spec {aio : Option AioFds} (h : porticoAioCreate aio i k = some k') :
    Grows cfg k k' ∧ ∀ p ∈ aioResources i aio, ∃ sock, k'.files p.1 = some ⟨sock, p.2⟩ := by
  unfold porticoAioCreate at h
  cases aio with
  | none =>
    obtain rfl := Option.some.inj h
    exact ⟨.refl cfg k, fun p hp => absurd hp not_mem_nil⟩
  | some a =>
    obtain ⟨ring, wakeup⟩ := a
    dsimp only at h
    cases hk : k.openNew wakeup (.aio i) with
    | none => exact absurd (hk ▸ h) (by simp)
    | some =>
      obtain ⟨hgrows, _, sock, hfile⟩ := Grows.openNew hcap hk rfl
      rw [hk] at h
      cases ring with
      | none =>
        obtain rfl := Option.some.inj h
        refine ⟨hgrows, fun p hp => ⟨sock, ?_⟩⟩
        obtain rfl : p = (wakeup, .aio i) := by simpa [aioResources] using hp
        exact hfile
      | some ring =>
        obtain ⟨hgrows', _, sock', hfile'⟩ := Grows.openNew hcap h rfl
        refine ⟨hgrows.trans hgrows', fun p hp => ?_⟩
        have hp : p = (ring, .ring i) ∨ p = (wakeup, .aio i) := by simpa [aioResources] using hp
        rcases hp with rfl | rfl
        · exact ⟨sock', hfile'⟩
        · exact ⟨sock, hgrows'.kept _ _ hfile⟩

/-- What `ws_init_event_thread` leaves: an initialised thread with its descriptors open, or, if
    it fails, no slots that were not there before. -/
theorem init_event_thread_spec {t' : EventThread}
    (h : wsInitEventThread cfg env i k t = some (k', t', ok)) :
    Grows cfg k k' ∧
      (ok = true → t'.slots = .live (.init cfg) ∧
        ∀ p ∈ t'.resources i, ∃ sock, k'.files p.1 = some ⟨sock, p.2⟩) ∧
      (ok = false → ∀ s, t'.slots = .live s → t.slots = .live s) := by
  have hfail : ∀ {k1 t1}, Grows cfg k k1 → some (k1, t1, false) = some (k', t', ok) →
      (∀ s, t1.slots = .live s → t.slots = .live s) → Grows cfg k k' ∧
        (ok = true → t'.slots = .live (.init cfg) ∧
          ∀ p ∈ t'.resources i, ∃ sock, k'.files p.1 = some ⟨sock, p.2⟩) ∧
        (ok = false → ∀ s, t'.slots = .live s → t.slots = .live s) := by
    intro k1 t1 hgrows he hslots
    obtain ⟨rfl, rfl, rfl⟩ := he
    exact ⟨hgrows, by simp, fun _ => hslots⟩
  unfold wsInitEventThread at h
  split at h
  · exact hfail (.refl cfg k) h fun s hs => hs
  rename_i epoll _
  split at h
  · cases h
  rename_i k1 hk1
  obtain ⟨hgrows1, hepoll, sock, hheld⟩ := Grows.openNew hcap hk1 rfl
  have hundo1 := hgrows1.closed hcap hepoll hheld
  split at h
  · exact hfail hundo1 h fun s hs => hs
  split at h
  · exact hfail hundo1 h fun s hs => hs
  rename_i wakeup _
  split at h
  · cases h
  rename_i k2 hk2
  obtain ⟨hgrows2, hwakeup, sock', hheld'⟩ := Grows.openNew hcap hk2 rfl
  have hheld2 := hgrows2.kept _ _ hheld
  -- the two numbers differ, since the first was in use when the second was given
  have hne : epoll ≠ wakeup := by
    rintro rfl
    simp [hwakeup] at hheld
  have hopen : (k2.closed wakeup).files epoll = some ⟨sock, .epoll i⟩ := by
    rw [closed_files_of_ne hne, hheld2]
  have hgrows := hgrows1.trans hgrows2
  have hundo2 := (hgrows.closed hcap (hgrows1.files_none hwakeup) hheld').closed hcap hepoll hopen
  split at h
  · exact hfail hundo2 h fun s hs => hs
  split at h
  · exact hfail hundo2 h fun s hs => absurd hs (by simp)
  split at h
  · exact hfail hundo2 h fun s hs => absurd hs (by simp)
  split at h
  · cases h
  rename_i k3 hk3
  obtain ⟨rfl, rfl, rfl⟩ := h
  obtain ⟨hgrows3, haio⟩ := aio_create_spec hcap hk3
  refine ⟨hgrows.trans hgrows3, fun _ => ⟨rfl, fun p hp => ?_⟩, by simp⟩
  simp only [EventThread.resources, Option.toList_some, map_cons, map_nil,
    mem_append, mem_singleton] at hp
  rcases hp with (hp | rfl) | rfl
  · exact haio p hp
  · exact ⟨sock', hgrows3.kept _ _ hheld'⟩
  · exact ⟨sock, hgrows3.kept _ _ hheld2⟩

end Init

/-! ## Start -/

/-- While `ws_server_start` runs, with the threads below `i` initialised. -/
structure Starting (cfg : ServerConfig) (w : WsServer) (i : Nat) : Prop where
  inv : WsInv cfg w
  idle : Idle w
  below : ∀ j, j < i → (w.threads j).slots = .live (.init cfg.loop)
  above : ∀ j s, i ≤ j → (w.threads j).slots ≠ .live s

variable {w' : WsServer}

section Start

variable {cfg : ServerConfig}

theorem Idle.grows (h : Idle w) (hgrows : Grows cfg.loop w.shared k) (threads : Nat → EventThread) :
    Idle { w with shared := k, threads := threads } := by
  refine ⟨hgrows.accepted.trans h.accepted, fun fd held hf => ?_⟩
  rcases hgrows.new fd held hf with hf | hout
  · exact h.files fd held hf
  · exact hout

/-- A thread without connections is ready. -/
theorem init_ready (cfg : Config) (h : t.slots = .live (.init cfg)) : t.ready cfg = true := by
  unfold EventThread.ready
  rw [h]
  simp [Server.init, Conn.unused]

theorem Idle.cleanupThreads (h : Idle w) (n : Nat) : Idle (cleanupThreads cfg.loop w n) := by
  induction n with
  | zero => exact h
  | succ n ih =>
    rw [cleanupThreads_succ]
    exact ⟨(closeAll_threads _ _).2.2.2.trans ih.accepted,
      fun fd held hf => ih.files fd held (of_closeAll_files _ _ hf)⟩

variable (hcap : cfg.loop.maxConnections ≤ 2 ^ 16)

include hcap

theorem Starting.init_thread (h : Starting cfg w i)
    (hi : wsInitEventThread cfg.loop env i w.shared (w.threads i) = some (k, t, ok)) :
    Starting cfg { w with shared := k, threads := update w.threads i t }
      (if ok then i + 1 else i) := by
  obtain ⟨hgrows, hok, hfail⟩ := init_event_thread_spec hcap hi
  have hidle := h.idle.grows hgrows (update w.threads i t)
  have hself : update w.threads i t i = t := update_self _ _ _
  have hother : ∀ j, j ≠ i → update w.threads i t j = w.threads j :=
    fun j hj => update_of_ne hj _ _
  have hnot : ok = false → ∀ s, t.slots ≠ .live s :=
    fun hf s hs => h.above i s (Nat.le_refl i) (hfail hf s hs)
  refine ⟨⟨fun fd hfd => ?_, up_update (fun s hs => ?_) (fun j s hji hj => ?_), h.inv.own⟩, hidle,
    fun j hj => ?_, fun j s hj => ?_⟩
  · obtain ⟨sock, hfile⟩ := h.inv.listen fd hfd
    exact ⟨sock, hgrows.kept fd _ hfile⟩
  · cases ok with
    | false => exact absurd hs (hnot rfl s)
    | true =>
      obtain ⟨hslots, hheld⟩ := hok rfl
      rw [hslots] at hs
      obtain rfl := SlotArray.live.inj hs
      refine ⟨.init_within cfg.loop i hidle.accepted fun fd held hf polled hconn => ?_, hheld⟩
      have hno := hidle.files fd held hf
      rw [hconn] at hno
      simp [Holder.outside] at hno
  · have hup := h.inv.up j s hj
    exact hup.grow (fun fd held hf _ _ _ => hgrows.kept fd held hf) (hgrows.views s j hup.kernel)
  · show (update w.threads i t j).slots = _
    by_cases hji : j = i
    · cases ok with
      | false => simp [hji] at hj
      | true =>
        rw [hji, hself]
        exact (hok rfl).1
    · rw [hother j hji]
      exact h.below j (by split at hj <;> omega)
  · show (update w.threads i t j).slots ≠ _
    by_cases hji : j = i
    · cases ok with
      | false =>
        rw [hji, hself]
        exact hnot rfl s
      | true => simp [hji] at hj
    · rw [hother j hji]
      exact h.above j s (by split at hj <;> omega)

theorem Starting.init_threads (envs : List InitEnv) :
    ∀ {w : WsServer} {i n : Nat} {ok : Bool}, Starting cfg w i →
      initThreads cfg.loop envs i w = some (w', n, ok) →
      Starting cfg w' n ∧ w'.phase = w.phase ∧ (ok = true → n = i + envs.length) := by
  induction envs with
  | nil =>
    intro w i n ok h hrun
    obtain ⟨rfl, rfl, rfl⟩ := hrun
    exact ⟨h, rfl, fun _ => rfl⟩
  | cons env envs ih =>
    intro w i n ok h hrun
    unfold initThreads at hrun
    split at hrun
    · cases hrun
    · rename_i k t ok' hi
      have hstep := h.init_thread hcap hi
      cases ok' with
      | false =>
        obtain ⟨rfl, rfl, rfl⟩ := hrun
        exact ⟨hstep, rfl, by simp⟩
      | true =>
        obtain ⟨h', hphase, hn⟩ := ih hstep hrun
        refine ⟨h', hphase, fun hok => ?_⟩
        rw [hn hok, length_cons]
        simp only [if_true]
        omega

theorem Starting.cleanup (h : Starting cfg w i) {n : Nat} (hn : i ≤ n)
    (hready : ∀ j, j < n → (w.threads j).ready cfg.loop = true) :
    Starting cfg (cleanupThreads cfg.loop w n) 0 := by
  refine ⟨h.inv.cleanupThreads hcap n hready, h.idle.cleanupThreads n,
    fun j hj => absurd hj (Nat.not_lt_zero j), fun j s _ => ?_⟩
  rw [cleanupThreads_threads]
  by_cases hj : j < n
  · simp [hj, EventThread.cleaned]
  · simpa [hj] using h.above j s (by omega)

end Start

/-! ## Runs -/

/-- Until it is started, no thread has slots. -/
structure RunInv (cfg : ServerConfig) (w : WsServer) : Prop where
  inv : WsInv cfg w
  fresh : w.phase = .created → Starting cfg w 0

section Runs

variable {cfg : ServerConfig} {a : Label}

theorem Starting.runInv (h : Starting cfg w 0) : RunInv cfg w := ⟨h.inv, fun _ => h⟩

/-- The table changes, and the files that are not the application's stay. -/
theorem RunInv.table (h : RunInv cfg w)
    (hkept : ∀ fd held, w.shared.files fd = some held → held.holder ≠ .app →
      k.files fd = some held)
    (hviews : ∀ (s : Server) (j : Nat), KernelInv cfg.loop (s.within j w.shared) →
      KernelInv cfg.loop (s.within j k))
    (hidle : Idle w → Idle { w with shared := k }) : RunInv cfg { w with shared := k } := by
  have hinv : WsInv cfg { w with shared := k } := by
    refine ⟨fun fd hfd => ?_, fun j s hj => ?_, h.inv.own⟩
    · obtain ⟨sock, hfile⟩ := h.inv.listen fd hfd
      exact ⟨sock, hkept fd _ hfile (by simp)⟩
    · have hup := h.inv.up j s hj
      exact hup.grow (fun fd held hf _ happ _ => hkept fd held hf happ) (hviews s j hup.kernel)
  refine ⟨hinv, fun hphase => ?_⟩
  have hfresh := h.fresh hphase
  exact ⟨hinv, hidle hfresh.idle, hfresh.below, hfresh.above⟩

/-- A step of a thread leaves every file alone that is not an accepted socket. -/
theorem threadStep_kept {cfg : Config} {s s' : Server} (hi : KernelInv cfg (s.within i k))
    (hok : closesNoPending (s.within i k) a = true) (h : threadStep cfg k i s a = some (k', s'))
    (hfile : k.files fd = some held) (hout : held.holder.outside = true) :
    k'.files fd = some held := by
  obtain ⟨hin, hm, rfl⟩ := threadStep_move h
  -- any other entry of the table is as it was
  have hupdate : ∀ {fd' f}, s'.files = update (s.within i k).files fd' f →
      fd ≠ fd' → (k.after i s').files fd = some held := by
    intro fd' f hfiles hne
    rw [after_files hfiles, update_of_ne hne, hfile]
  have hne : ∀ {fd' held'}, k.files fd' = some held' → held'.holder.outside = false → fd ≠ fd' := by
    rintro fd' held' hfile' hout' rfl
    rw [hfile] at hfile'
    obtain rfl := Option.some.inj hfile'
    simp [hout] at hout'
  cases table_effect hi (Bool.and_eq_true_iff.mp hok).1 hin hm with
  | same hfiles hsock hacc => rw [after_same hfiles hsock hacc, hfile]
  | accept fd' _ hnone _ hfiles =>
    refine hupdate hfiles ?_
    rintro rfl
    exact absurd ((Option.map_eq_none_iff.mp hnone).symm.trans hfile) (by simp)
  | reject fd' hbefore hfiles =>
    obtain ⟨sock, hacc⟩ := (hi.files.fds fd').accepted hbefore
    exact hupdate hfiles (hne (held_of_acceptor hacc) rfl)
  | handOver fd' sock _ hacc hfiles => exact hupdate hfiles (hne (held_of_acceptor hacc) rfl)
  | close _ _ _ hconn hfiles | poll _ _ _ hconn hfiles =>
    exact hupdate hfiles (hne (held_of_thread hconn) rfl)

theorem wsServerStop_inv (h : RunInv cfg w) (hs : wsServerStop cfg w = some w') :
    RunInv cfg w' := by
  unfold wsServerStop at hs
  split at hs
  · obtain rfl := Option.some.inj hs
    exact ⟨⟨h.inv.listen, h.inv.up, h.inv.own⟩, fun hp => absurd hp (by simp)⟩
  · cases hs

theorem cleanupThreads_phase (cfg : Config) (w : WsServer) (n : Nat) :
    (cleanupThreads cfg w n).phase = w.phase := by
  induction n with
  | zero => rfl
  | succ n ih =>
    rw [cleanupThreads_succ]
    exact (closeAll_threads _ _).2.1.trans ih

theorem RunInv.create (cfg : ServerConfig) (app : List Fd) (listenFd : Fd) :
    RunInv cfg (wsServerCreate app listenFd) := by
  refine Starting.runInv ⟨⟨fun fd hfd => ?_, fun i s hs => ?_, fun c hc => ?_⟩,
    ⟨rfl, fun fd held hf => ?_⟩, fun j hj => absurd hj (Nat.not_lt_zero j), fun j s _ => ?_⟩
  · obtain rfl := Option.some.inj hfd
    exact ⟨0, by simp [wsServerCreate]⟩
  · simp [wsServerCreate, EventThread.zeroed] at hs
  · simp [wsServerCreate] at hc
  · simp only [wsServerCreate] at hf
    split at hf
    · exact Option.some.inj hf ▸ rfl
    · split at hf
      · exact Option.some.inj hf ▸ rfl
      · cases hf
  · simp [wsServerCreate, EventThread.zeroed]

variable (hcap : cfg.loop.maxConnections ≤ 2 ^ 16)

include hcap

theorem wsServerStart_inv (h : RunInv cfg w) {envs : List InitEnv} {threadsOk : Bool}
    (hs : wsServerStart cfg w envs threadsOk = some w') : RunInv cfg w' := by
  unfold wsServerStart at hs
  split at hs
  · rename_i hphase
    split at hs
    · cases hs
    · rename_i w1 i hinit
      obtain ⟨hw1, _, _⟩ := (h.fresh hphase.1).init_threads hcap envs hinit
      obtain rfl := Option.some.inj hs
      exact (hw1.cleanup hcap (Nat.le_refl i) fun j hj => init_ready _ (hw1.below j hj)).runInv
    · rename_i w1 i hinit
      obtain ⟨hw1, _, hi⟩ := (h.fresh hphase.1).init_threads hcap envs hinit
      have hi : i = cfg.threadCount := by rw [hi rfl, hphase.2, Nat.zero_add]
      split at hs
      · obtain rfl := Option.some.inj hs
        exact ⟨⟨hw1.inv.listen, hw1.inv.up, hw1.inv.own⟩, fun hp => absurd hp (by simp)⟩
      · obtain rfl := Option.some.inj hs
        rw [← hi]
        exact (hw1.cleanup hcap (Nat.le_refl i) fun j hj => init_ready _ (hw1.below j hj)).runInv
  · cases hs

theorem appOpen_inv (h : RunInv cfg w) (hk : w.shared.openNew fd .app = some k) :
    RunInv cfg { w with shared := k } := by
  obtain ⟨hgrows, _, _⟩ := Grows.openNew hcap hk rfl
  exact h.table (fun fd' held hf _ => hgrows.kept fd' held hf) hgrows.views
    fun hidle => hidle.grows hgrows w.threads

theorem appClose_inv (h : RunInv cfg w) {sock : Nat}
    (happ : w.shared.files fd = some ⟨sock, .app⟩) :
    RunInv cfg { w with shared := w.shared.closed fd } := by
  refine h.table (fun fd' held hf hne => ?_) (fun s j hs => hs.closed hcap happ rfl) fun hidle =>
    ⟨hidle.accepted, fun fd' held hf => hidle.files fd' held (of_closed_files hf).2⟩
  rw [closed_files_of_ne, hf]
  rintro rfl
  rw [happ] at hf
  exact hne (Option.some.inj hf ▸ rfl)

theorem threadStep_inv (h : RunInv cfg w) (hok : shutdownSafe cfg w (.thread i a) = true)
    (hs : w.threadStep cfg i a = some w') : RunInv cfg w' := by
  unfold WsServer.threadStep at hs
  split at hs
  · rename_i s hslots
    have hok : closesNoPending (s.within i w.shared) a = true := by
      simpa only [shutdownSafe, hslots] using hok
    split at hs
    · rename_i hphase
      obtain ⟨⟨k, s'⟩, hstep, rfl⟩ := Option.map_eq_some_iff.mp hs
      have hup := h.inv.up i s hslots
      have hkept := fun fd held (hf : w.shared.files fd = some held) hout =>
        threadStep_kept hup.kernel hok hstep hf hout
      refine ⟨⟨fun fd hfd => ?_, up_update (fun t ht => ?_) (fun j t hji hj => ?_), h.inv.own⟩,
        fun hcreated => ?_⟩
      · obtain ⟨sock, hfile⟩ := h.inv.listen fd hfd
        exact ⟨sock, hkept fd _ hfile rfl⟩
      · obtain rfl := SlotArray.live.inj ht
        have hgrow := hup.grow (fun fd held hf hout _ _ => hkept fd held hf hout)
          (threadStep_own hcap hup.kernel hok hstep)
        exact ⟨hgrow.kernel, hgrow.held⟩
      · have hup' := h.inv.up j t hj
        exact hup'.grow (fun fd held hf hout _ _ => hkept fd held hf hout)
          (threadStep_other hcap hup.kernel hok hstep (Ne.symm hji) hup'.kernel)
      · rw [hcreated] at hphase
        exact absurd hphase.1 (by simp)
    · cases hs
  · cases hs

theorem wsServerWait_inv (h : RunInv cfg w)
    (hready : ∀ i, i < cfg.threadCount → (w.threads i).ready cfg.loop = true)
    (hs : wsServerWait cfg w = some w') : RunInv cfg w' := by
  unfold wsServerWait at hs
  split at hs
  · obtain rfl := Option.some.inj hs
    refine ⟨h.inv.cleanupThreads hcap _ hready, fun hphase => ?_⟩
    rw [cleanupThreads_phase] at hphase
    exact (h.fresh hphase).cleanup hcap (Nat.zero_le _) hready
  · cases hs

/-- `ws_server_destroy` closes the listening socket first. -/
theorem WsInv.close_listen (h : WsInv cfg w) :
    WsInv cfg { w.closeAll w.listenFd.toList with listenFd := none } := by
  cases hfd : w.listenFd with
  | none => exact ⟨fun fd hfd => absurd hfd (by simp), h.up, h.own⟩
  | some fd =>
    obtain ⟨sock, hfile⟩ := h.listen fd hfd
    refine ⟨fun fd' hfd' => absurd hfd' (by simp), fun j s hj => ?_, ?_⟩
    · have hup := h.up j s hj
      refine hup.grow (fun fd' held hf _ _ hne => ?_) (hup.kernel.closed hcap hfile rfl)
      rw [← hf]
      refine closed_files_of_ne ?_
      rintro rfl
      rw [hfile] at hf
      exact hne (Option.some.inj hf ▸ rfl)
    · refine closeAll_own [fd] w (nodup_singleton fd) (fun fd' hfd' => ?_) h.own
      rw [mem_singleton.mp hfd']
      exact ⟨_, hfile, by simp⟩

theorem wsServerDestroy_inv (h : RunInv cfg w)
    (hready : ∀ i, i < cfg.threadCount → (w.threads i).ready cfg.loop = true)
    (hs : wsServerDestroy cfg w = some w') : RunInv cfg w' := by
  unfold wsServerDestroy at hs
  split at hs
  · obtain rfl := Option.some.inj hs
    have hthreads := (closeAll_threads w.listenFd.toList w).1
    have hinv := (h.inv.close_listen hcap).cleanupThreads hcap cfg.threadCount fun i hi => by
      rw [hthreads]
      exact hready i hi
    exact ⟨⟨hinv.listen, hinv.up, hinv.own⟩, fun hp => absurd hp (by simp)⟩
  · cases hs

theorem wsStep_inv (h : RunInv cfg w) {op : WsOp} (hok : shutdownSafe cfg w op = true)
    (hs : wsStep cfg w op = some w') : RunInv cfg w' := by
  cases op with
  | appOpen =>
    obtain ⟨k, hk, rfl⟩ := Option.map_eq_some_iff.mp hs
    exact appOpen_inv hcap h hk
  | appClose fd =>
    unfold wsStep at hs
    dsimp only at hs
    split at hs
    · rename_i sock hfile
      obtain rfl := Option.some.inj hs
      exact appClose_inv hcap h hfile
    · cases hs
  | start => exact wsServerStart_inv hcap h hs
  | thread => exact threadStep_inv hcap h hok hs
  | stop => exact wsServerStop_inv h hs
  | wait => exact wsServerWait_inv hcap h (by simpa [shutdownSafe] using hok) hs
  | destroy => exact wsServerDestroy_inv hcap h (by simpa [shutdownSafe] using hok) hs

end Runs

/-- Every `close(2)` of the shutdown is of a descriptor that the server holds then, so none of
    the application's is closed and none twice: in any interleaving of the threads, if each
    thread that is cleaned up was initialised, or is clean already, each of its slots has never
    been used or is registered, and a thread closes no descriptor with an event later in the
    batch. -/
theorem shutdown_closes_own (cfg : ServerConfig) (hcap : cfg.loop.maxConnections ≤ 2 ^ 16)
    (app : List Fd) (listenFd : Fd) (ops : List WsOp) (w : WsServer)
    (hok : RunMeets (wsStep cfg) (fun w op => shutdownSafe cfg w op = true)
      (wsServerCreate app listenFd) ops)
    (hrun : run (wsStep cfg) (wsServerCreate app listenFd) ops = some w) :
    ∀ c ∈ w.shutdown, ShutdownOwn c := by
  have hstep : ∀ w op w', RunInv cfg w → shutdownSafe cfg w op = true →
      wsStep cfg w op = some w' → RunInv cfg w' := fun _ _ _ h hok hs => wsStep_inv hcap h hok hs
  exact (run_invariant hstep ops _ w (.create cfg app listenFd) hok hrun).inv.own

/-- A server with one thread is destroyed while a connection is open. -/
theorem shutdown_closes_own_connected :
    let env : InitEnv := ⟨some 4, true, some 5, true, true, true, some ⟨some 7, 6⟩⟩
    let labels : List Label := [.accept 8, .handOver, .wait [.wakeup], .next, .message none true,
      .cont true, .cont true, .next, .next]
    let ops : List WsOp := .start [env] true :: labels.map (.thread 0) ++ [.appOpen 9, .stop,
      .destroy]
    (run (wsStep ⟨1, ⟨2, 16⟩⟩) (wsServerCreate [0, 1, 2] 3) ops).map WsServer.shutdown =
        some [(3, some ⟨0, .listen⟩), (8, some ⟨5, .conn 0 true⟩), (7, some ⟨4, .ring 0⟩),
          (6, some ⟨3, .aio 0⟩), (5, some ⟨2, .wakeup 0⟩), (4, some ⟨1, .epoll 0⟩)] ∧
      ∀ w, run (wsStep ⟨1, ⟨2, 16⟩⟩) (wsServerCreate [0, 1, 2] 3) ops = some w →
        ∀ c ∈ w.shutdown, ShutdownOwn c := by
  refine ⟨by decide +kernel, fun w hrun => ?_⟩
  exact shutdown_closes_own ⟨1, ⟨2, 16⟩⟩ (by decide) [0, 1, 2] 3 _ w (by decide +kernel) hrun

/-- Descriptor 0 of the application is closed by a server that is destroyed without a start, and
    by one that has closed a connection. -/
theorem shutdown_closes_stdin :
    let env : InitEnv := ⟨some 4, true, some 5, true, true, true, none⟩
    let labels : List Label := [.accept 6, .handOver, .wait [.wakeup], .next, .message none true,
      .cont true, .cont true, .next, .next, .reap 0, .cont true, .cont true, .cont true]
    (run (wsStep ⟨1, ⟨2, 16⟩⟩) (wsServerCreate [0, 1, 2] 3) [.destroy]).map WsServer.shutdown =
        some [(3, some ⟨0, .listen⟩), (0, some ⟨0, .app⟩), (0, none)] ∧
      (run (wsStep ⟨1, ⟨2, 16⟩⟩) (wsServerCreate [0, 1, 2] 3)
        (.start [env] true :: labels.map (.thread 0) ++ [.stop, .destroy])).map
          WsServer.shutdown =
        some [(3, some ⟨0, .listen⟩), (0, some ⟨0, .app⟩), (5, some ⟨2, .wakeup 0⟩),
          (4, some ⟨1, .epoll 0⟩)] := by
  decide +kernel

end Portico.Loop
