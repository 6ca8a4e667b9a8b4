/-
  Descriptors: what the event thread closes.

  Four parts that hold together in every run whose steps meet `closesNoPending`:
  * `SlotInv`, from Portico.Loop.Slots;
  * `FileInv`: what each descriptor number denotes. It is registered and then an open file of the
    event thread, the one that was accepted for its slot; or it waits in the queue, or in the
    acceptor; and only registered files are in the epoll set;
  * `LiveInv`: a registered slot has its descriptor in `fd`, and every connection that the
    timeout scan or a completed file read may close is registered;
  * `EventInv`: the events still in the batch, and the one being handled, are about the socket
    that is registered under their descriptor.

  Proved: `close_hits_own_connection`: what the event thread closes is then always a connection
  of its own, and for a connection event the one that the event is about. The condition excludes
  close messages and completed reads that close a descriptor with an event later in the batch.
  With one of them the number can be accepted again before the event is reached, and
  `close_connection` closes it although nothing is registered (`stale_event_closes_accepted`).
-/
import Portico.Loop.Slots

namespace Portico.Loop

open Portico.Lib Portico.Ws List
open Function (update update_eq_self update_of_ne update_self)

/-! ## The descriptor table -/

def Msg.newFd? : Msg → Option Fd
  | .newConnection fd => some fd
  | _ => none

/-- What the number `fd` may denote. -/
structure FdOk (s : Server) (fd : Fd) : Prop where
  map : ∀ x, s.fdMap fd = some x → ∃ polled, s.files fd = some ⟨(s.conns x).sock, .thread, polled⟩
  polled : ∀ f, s.files fd = some f → f.polled = true → ∃ x, s.fdMap fd = some x
  queued : Msg.newConnection fd ∈ s.queue →
    s.fdMap fd = none ∧ ∃ k, s.files fd = some ⟨k, .thread, false⟩
  accepted : s.accepted = some fd → ∃ k, s.files fd = some ⟨k, .acceptor, false⟩

structure FileInv (s : Server) : Prop where
  fds : ∀ fd, FdOk s fd
  nodup : (s.queue.filterMap Msg.newFd?).Nodup

/-- A step does not concern the number `fd`. -/
structure SameFd (s s' : Server) (fd : Fd) : Prop where
  files : s'.files fd = s.files fd
  map : s'.fdMap fd = s.fdMap fd
  sock : ∀ x, s.fdMap fd = some x → (s'.conns x).sock = (s.conns x).sock
  queued : Msg.newConnection fd ∈ s'.queue → Msg.newConnection fd ∈ s.queue
  accepted : s'.accepted = some fd → s.accepted = some fd

variable {k : Nat} {polled : Bool} {x : Slot} {m : Msg} {queue : List Msg} {c : Conn} {fd : Fd}
  {s s' : Server} {tls : Option Bool} {cfg : Config} {a : Label}

section Files

variable {pc : EvPc}

theorem FdOk.same (h : FdOk s fd) (hs : SameFd s s' fd) : FdOk s' fd := by
  refine ⟨?_, ?_, ?_, ?_⟩
  · intro x hx
    rw [hs.map] at hx
    rw [hs.files, hs.sock x hx]
    exact h.map x hx
  · rw [hs.files, hs.map]
    exact h.polled
  · intro hq
    rw [hs.files, hs.map]
    exact h.queued (hs.queued hq)
  · intro ha
    rw [hs.files]
    exact h.accepted (hs.accepted ha)

/-- A closed number. -/
theorem FdOk.of_closed (hfile : s.files fd = none) (hmap : s.fdMap fd = none)
    (hq : Msg.newConnection fd ∉ s.queue) (hacc : s.accepted ≠ some fd) : FdOk s fd := by
  refine ⟨?_, ?_, fun h => absurd h hq, fun h => absurd h hacc⟩
  · intro x hx
    simp [hmap] at hx
  · intro f hf
    simp [hfile] at hf

/-- Nobody has the number registered whose file is not the event thread's. -/
theorem FdOk.unregistered (h : FdOk s fd) (hfile : ∀ k p, s.files fd ≠ some ⟨k, .thread, p⟩) :
    s.fdMap fd = none := by
  cases hmap : s.fdMap fd with
  | none => rfl
  | some x =>
    obtain ⟨p, hp⟩ := h.map x hmap
    exact absurd hp (hfile _ p)

theorem FdOk.unqueued (h : FdOk s fd) (hfile : ∀ k p, s.files fd ≠ some ⟨k, .thread, p⟩) :
    Msg.newConnection fd ∉ s.queue := by
  intro hq
  obtain ⟨_, k, hk⟩ := h.queued hq
  exact hfile k _ hk

theorem FdOk.not_accepted (h : FdOk s fd) (hfile : s.files fd = some ⟨k, .thread, polled⟩) :
    s.accepted ≠ some fd := by
  intro ha
  obtain ⟨k', hk⟩ := h.accepted ha
  simp [hfile] at hk

theorem FdOk.not_queued (h : FdOk s fd) (hmap : s.fdMap fd = some x) :
    Msg.newConnection fd ∉ s.queue :=
  fun hq => absurd (hmap.symm.trans (h.queued hq).1) (by simp)

theorem FileInv.keep (h : FileInv s) (hs : ∀ fd, SameFd s s' fd)
    (hq : (s'.queue.filterMap Msg.newFd?).Nodup) : FileInv s' :=
  ⟨fun fd => (h.fds fd).same (hs fd), hq⟩

/-- A step that concerns one number. -/
theorem FileInv.change (h : FileInv s) (fd : Fd) (hs : ∀ fd', fd' ≠ fd → SameFd s s' fd')
    (hq : (s'.queue.filterMap Msg.newFd?).Nodup) (hfd : FdOk s' fd) : FileInv s' := by
  refine ⟨fun fd' => ?_, hq⟩
  by_cases he : fd' = fd
  · exact he ▸ hfd
  · exact (h.fds fd').same (hs fd' he)

/-- The first message has been taken out of the queue. -/
theorem FileInv.nodup_tail (h : FileInv s) (hq : s.queue = m :: queue) :
    (queue.filterMap Msg.newFd?).Nodup :=
  h.nodup.sublist ((hq ▸ sublist_cons_self m queue).filterMap _)

/-- The new connection that comes first in the queue is there once. -/
theorem FileInv.queued_once (h : FileInv s) (hq : s.queue = .newConnection fd :: queue) :
    Msg.newConnection fd ∉ queue := by
  intro hm
  have hnd := h.nodup
  rw [hq] at hnd
  refine (nodup_cons.mp hnd).1 (mem_filterMap.mpr ⟨_, hm, rfl⟩)

theorem mem_tail {m' : Msg} (hq : s.queue = m :: queue) (h : m' ∈ queue) : m' ∈ s.queue := by
  rw [hq]
  exact mem_cons_of_mem m h

variable (h : FileInv s)

include h

/-- A step that changes a connection, but not which socket it has. -/
theorem FileInv.setConn (hfiles : s'.files = s.files) (hmap : s'.fdMap = s.fdMap)
    (hq : s'.queue = s.queue) (hacc : s'.accepted = s.accepted)
    (hconns : s'.conns = (s.setConn x c).conns) (hsock : c.sock = (s.conns x).sock) :
    FileInv s' := by
  refine h.keep (fun fd => ⟨by rw [hfiles], by rw [hmap], fun y _ => ?_, fun hm => hq ▸ hm,
    fun ha => hacc ▸ ha⟩) (hq ▸ h.nodup)
  rw [hconns]
  exact s.setConn_same Conn.sock hsock y

/-- A message about an existing connection is queued. -/
theorem FileInv.append (hm : m.newFd? = none) (hfiles : s'.files = s.files)
    (hmap : s'.fdMap = s.fdMap) (hq : s'.queue = s.queue ++ [m]) (hacc : s'.accepted = s.accepted)
    (hconns : s'.conns = s.conns) : FileInv s' := by
  refine h.keep (fun fd => ⟨by rw [hfiles], by rw [hmap], fun y _ => by rw [hconns], fun hn => ?_,
    fun ha => hacc ▸ ha⟩) ?_
  · rw [hq] at hn
    rcases mem_append.mp hn with hn | hn
    · exact hn
    · rw [← mem_singleton.mp hn] at hm
      simp [Msg.newFd?] at hm
  · rw [hq, filterMap_append, filterMap_cons_none hm, filterMap_nil, append_nil]
    exact h.nodup

/-- The acceptor or the rest of the process changes a file that is not the event thread's. -/
theorem FileInv.outside {f : Option File} (accepted : Option Fd) (nextSock : Nat)
    (hold : ∀ k p, s.files fd ≠ some ⟨k, .thread, p⟩) (hnew : ∀ g, f = some g → g.polled = false)
    (hother : ∀ fd', fd' ≠ fd → accepted = some fd' → s.accepted = some fd')
    (hacc : accepted = some fd → ∃ k, f = some ⟨k, .acceptor, false⟩) :
    FileInv { s.setFile fd f with accepted := accepted, nextSock := nextSock } := by
  refine h.change fd (fun fd' he => ⟨update_of_ne he _ _, rfl, fun _ _ => rfl, id,
    hother fd' he⟩) h.nodup ?_
  have hfile : update s.files fd f fd = f := update_self ..
  refine ⟨?_, ?_, ?_, ?_⟩
  · intro x hx
    exact absurd (((h.fds fd).unregistered hold).symm.trans hx) (by simp)
  · intro g hg hp
    rw [hnew g (hfile.symm.trans hg)] at hp
    cases hp
  · intro hq
    exact absurd hq ((h.fds fd).unqueued hold)
  · intro ha
    obtain ⟨k, hk⟩ := hacc ha
    exact ⟨k, hfile.trans hk⟩

/-- The acceptor queues its descriptor for the event thread. -/
theorem FileInv.handOver (hacc : s.accepted = some fd) :
    FileInv { s.setFile fd ((s.files fd).map fun f => { f with owner := .thread }) with
      accepted := none, queue := s.queue ++ [.newConnection fd] } := by
  obtain ⟨k, hk⟩ := (h.fds fd).accepted hacc
  have hold : ∀ k p, s.files fd ≠ some ⟨k, .thread, p⟩ := by simp [hk]
  have hnot := (h.fds fd).unqueued hold
  have hfile : update s.files fd
      ((s.files fd).map fun f => { f with owner := .thread }) fd = some ⟨k, .thread, false⟩ := by
    rw [update_self, hk]
    rfl
  refine h.change fd (fun fd' he => ⟨update_of_ne he _ _, rfl, fun _ _ => rfl, ?_,
    fun ha => absurd ha (by simp)⟩) ?_ ?_
  · intro hq
    rcases mem_append.mp hq with hq | hq
    · exact hq
    · exact absurd (Msg.newConnection.inj (mem_singleton.mp hq)) he
  · rw [filterMap_append, nodup_append]
    refine ⟨h.nodup, nodup_singleton fd, ?_⟩
    rintro a ha b hb rfl
    obtain ⟨m, hm, hfd⟩ := mem_filterMap.mp ha
    obtain rfl : a = fd := mem_singleton.mp hb
    cases m with
    | newConnection => exact hnot (Option.some.inj hfd ▸ hm)
    | data | control => simp [Msg.newFd?] at hfd
  · refine ⟨?_, ?_, fun _ => ⟨(h.fds fd).unregistered hold, k, hfile⟩,
      fun ha => absurd ha (by simp)⟩
    · intro x hx
      exact absurd (((h.fds fd).unregistered hold).symm.trans hx) (by simp)
    · intro g hg hp
      rw [← Option.some.inj (hfile.symm.trans hg)] at hp
      cases hp

/-- The event thread closes a descriptor of its own. -/
theorem FileInv.close (hfile : s.files fd = some ⟨k, .thread, polled⟩)
    (hfiles : s'.files = update s.files fd none) (hmap : s'.fdMap = update s.fdMap fd none)
    (hsock : ∀ fd' x, s.fdMap fd' = some x → (s'.conns x).sock = (s.conns x).sock)
    (hq : s'.queue.Sublist s.queue) (hnot : Msg.newConnection fd ∉ s'.queue)
    (hacc : s'.accepted = s.accepted) : FileInv s' := by
  refine h.change fd (fun fd' he => ⟨?_, ?_, hsock fd', fun hm => hq.subset hm,
    fun ha => hacc ▸ ha⟩) (h.nodup.sublist (hq.filterMap _)) ?_
  · rw [hfiles, update_of_ne he]
  · rw [hmap, update_of_ne he]
  · refine .of_closed ?_ ?_ hnot ?_
    · rw [hfiles, update_self]
    · rw [hmap, update_self]
    · rw [hacc]
      exact (h.fds fd).not_accepted hfile

/-- A new connection from the queue is registered in a free slot. -/
theorem FileInv.register (hslot : SlotInv cfg s) {rest : List Slot}
    (hq : s.queue = .newConnection fd :: queue) (hfree : s.free = x :: rest) :
    FileInv ((({ s with queue := queue, free := rest }.setConn x (newConn s fd x tls)).setMap fd
      (some x)).goTo pc) := by
  obtain ⟨_, k, hk⟩ := (h.fds fd).queued (by simp [hq])
  have hsock : (newConn s fd x tls).sock = k := by
    rw [newConn_same Conn.sock fun _ _ => rfl]
    simp [wsConnectionInit, hk]
  refine h.change fd (fun fd' he => ⟨rfl, update_of_ne he _ _, ?_, mem_tail hq, id⟩)
    (h.nodup_tail hq) ?_
  · intro y hy
    exact congrArg Conn.sock (Server.setConn_of_ne _ _ (hslot.ne_of_free hy hfree))
  · have hmap : update s.fdMap fd (some x) fd = some x := update_self ..
    refine ⟨?_, fun _ _ _ => ⟨x, hmap⟩, fun hm => absurd hm (h.queued_once hq),
      fun ha => absurd ha ((h.fds fd).not_accepted hk)⟩
    intro y hy
    obtain rfl : x = y := Option.some.inj (hmap.symm.trans hy)
    refine ⟨false, ?_⟩
    show s.files fd = some ⟨(update s.conns x _ x).sock, .thread, false⟩
    rw [update_self, hsock, hk]

/-- A registered file is put into the epoll set. -/
theorem FileInv.poll {f : File} {ok : Bool} (hmap : s.fdMap fd = some x)
    (hadd : s.epollAdd fd ok = some f) : FileInv ((s.setFile fd (some f)).goTo pc) := by
  obtain ⟨p, hp⟩ := (h.fds fd).map x hmap
  have hf : f = ⟨(s.conns x).sock, .thread, true⟩ := by
    simp only [Server.epollAdd, hp] at hadd
    split at hadd
    · exact (Option.some.inj hadd).symm
    · cases hadd
  refine h.change fd (fun fd' he => ⟨update_of_ne he _ _, rfl, fun _ _ => rfl, id, id⟩)
    h.nodup ?_
  refine ⟨?_, fun _ _ _ => ⟨x, hmap⟩, fun hm => absurd hm ((h.fds fd).not_queued hmap),
    fun ha => absurd ha ((h.fds fd).not_accepted hp)⟩
  intro y hy
  obtain rfl : x = y := Option.some.inj (hmap.symm.trans hy)
  refine ⟨true, ?_⟩
  show update s.files fd (some f) fd = _
  rw [update_self, hf]
  rfl

end Files

/-! ## The batch -/

/-- The descriptor that the event thread is about to close or may close next, with the socket of
    the connection event that it handles. -/
def EvPc.focus : EvPc → Option (Fd × Option Nat)
  | .readable e => some (e.fd, some e.sock)
  | .writable e => some (e.fd, some e.sock)
  | .hangup e => some (e.fd, some e.sock)
  | .release fd event _ => some (fd, event)
  | .closeHash fd _ => some (fd, none)
  | .closeRelease fd _ => some (fd, none)
  | _ => none

/-- Outside the loop over the batch. -/
def EvPc.idle : EvPc → Bool
  | .top => true
  | .release _ _ back => back = .top
  | .hashRemove _ _ back => back = .top
  | .unref _ back => back = .top
  | .mark _ back => back = .top
  | _ => false

@[simp] theorem Back.focus_pc (b : Back) : b.pc.focus = none := by cases b <;> rfl

@[simp] theorem Back.idle_pc (b : Back) : b.pc.idle = decide (b = .top) := by cases b <;> rfl

/-- The number is registered, and if it comes from an event, to the socket of the event. -/
def Server.Fresh (s : Server) (fd : Fd) (event : Option Nat) : Prop :=
  ∃ x, s.fdMap fd = some x ∧ ∀ k, event = some k → (s.conns x).sock = k

structure EventInv (s : Server) : Prop where
  distinct : s.pendingFds.Nodup
  fresh : ∀ e, Event.conn e ∈ s.batch → s.Fresh e.fd (some e.sock)
  idle : s.ev.idle = true → s.batch = []
  focus : ∀ fd event, s.ev.focus = some (fd, event) → s.Fresh fd event ∧ fd ∉ s.pendingFds

structure LiveInv (s : Server) : Prop where
  fd : ∀ fd x, s.fdMap fd = some x → (s.conns x).fd = some fd
  live : ∀ x, (s.conns x).reapable = true → (∃ fd, s.fdMap fd = some x) ∨ s.ev.torn = some x

/-- New connections get registered, and neither a close message nor a completed file read closes
    a descriptor that has an event later in the batch. -/
def closesNoPending (s : Server) (a : Label) : Bool :=
  registrationWorks s a &&
    match a with
    | .message _ _ =>
      match s.queue with
      | .control .close fd _ _ :: _ => !(s.pendingFds.contains fd)
      | _ => true
    | .completion k _ true =>
      match s.aio[k]? with
      | some (x, _) => (s.conns x).fd.all fun fd => !(s.pendingFds.contains fd)
      | none => true
    | _ => true

section Steps

variable {e : ConnEvent}

theorem FileInv.move (h : FileInv s) (hslot : SlotInv cfg s) (hevent : EventInv s)
    (hreg : registrationWorks s a = true) (hm : Move cfg s a s') : FileInv s' := by
  cases hm with
  | check | readGeneration | wait | reap | batchEnd | takeWakeup | takeAio | takeConn | loopEnd
  | pass | stale | hangup | complete | completeClose | hashRemove | closeHash | insert
  | insertFail =>
    exact h.keep (fun _ => ⟨rfl, rfl, fun _ _ => rfl, id, id⟩) h.nodup
  | find | dropRef | handle | unrefLast | unrefShared | mark =>
    exact h.setConn rfl rfl rfl rfl rfl rfl
  | accept fd hacc hfile =>
    refine h.outside (some fd) _ (by simp [hfile]) (fun g hg => ?_) (fun fd' he ha => ?_)
      (fun _ => ⟨_, rfl⟩)
    · rw [← Option.some.inj hg]
    · exact absurd (Option.some.inj ha).symm he
  | reject fd hacc =>
    obtain ⟨k, hk⟩ := (h.fds fd).accepted hacc
    exact h.outside none _ (by simp [hk]) (fun g hg => absurd hg (by simp))
      (fun _ _ ha => absurd ha (by simp)) (fun ha => absurd ha (by simp))
  | handOver fd hacc => exact h.handOver hacc
  | handOther fd hacc =>
    obtain ⟨k, hk⟩ := (h.fds fd).accepted hacc
    refine h.outside none _ (by simp [hk]) (fun g hg => ?_)
      (fun _ _ ha => absurd ha (by simp)) (fun ha => absurd ha (by simp))
    rw [hk] at hg
    rw [← Option.some.inj hg]
  | otherOpen fd hfile =>
    refine h.outside s.accepted _ (by simp [hfile]) (fun g hg => ?_) (fun _ _ => id) (fun ha => ?_)
    · rw [← Option.some.inj hg]
    · obtain ⟨k, hk⟩ := (h.fds fd).accepted ha
      simp [hfile] at hk
  | otherClose fd f hfile howner =>
    refine h.outside s.accepted _ ?_ (fun g hg => absurd hg (by simp)) (fun _ _ => id)
      (fun ha => ?_)
    · rintro k p hk
      rw [hfile] at hk
      rw [Option.some.inj hk] at howner
      cases howner
    · obtain ⟨k, hk⟩ := (h.fds fd).accepted ha
      rw [hfile] at hk
      rw [Option.some.inj hk] at howner
      cases howner
  | queueControl | queueData => exact h.append rfl rfl rfl rfl rfl rfl
  | dropData _ _ _ _ _ _ _ _ hq | noTarget _ _ _ _ _ _ _ _ hq | act _ _ _ _ _ _ _ _ _ _ hq =>
    exact h.keep (fun _ => ⟨rfl, rfl, fun _ _ => rfl, mem_tail hq, id⟩) (h.nodup_tail hq)
  | deliver tls sendOk fd x y generation life queue c hev hq hgen hopen hmap hc =>
    have hsock : c.sock = (s.conns y).sock := by rcases hc with rfl | rfl <;> rfl
    exact h.keep (fun _ => ⟨rfl, rfl, fun z _ => s.setConn_same Conn.sock hsock z, mem_tail hq, id⟩)
      (h.nodup_tail hq)
  | noSlot tls sendOk fd queue hev hq =>
    obtain ⟨hmap, k, hk⟩ := (h.fds fd).queued (by simp [hq])
    refine h.close hk rfl ?_ (fun _ _ _ => rfl) (hq ▸ sublist_cons_self _ _)
      (h.queued_once hq) rfl
    rw [← hmap, update_eq_self]
    rfl
  | tlsFail sendOk fd queue x rest hev hq hfree =>
    obtain ⟨hmap, k, hk⟩ := (h.fds fd).queued (by simp [hq])
    refine h.close hk rfl ?_ (fun fd' y hy => ?_) (hq ▸ sublist_cons_self _ _)
      (h.queued_once hq) rfl
    · rw [← hmap, update_eq_self]
      rfl
    · exact congrArg Conn.sock (Server.setConn_of_ne _ _ (hslot.ne_of_free hy hfree))
  | register tls sendOk fd queue x rest hev hq hfree => exact h.register hslot hq hfree
  | releaseUnknown ok fd event back hev hmap =>
    obtain ⟨⟨x, hx, _⟩, _⟩ := hevent.focus fd event (by rw [hev]; rfl)
    simp [hmap] at hx
  | release ok fd event back x hev hmap =>
    obtain ⟨p, hp⟩ := (h.fds fd).map x hmap
    exact h.close hp rfl rfl (fun _ _ _ => rfl) (.refl _) ((h.fds fd).not_queued hmap) rfl
  | closeRelease ok fd x hev =>
    have hmap : s.fdMap fd = some x := hslot.working fd x (by rw [hev]; rfl)
    obtain ⟨p, hp⟩ := (h.fds fd).map x hmap
    exact h.close hp rfl rfl (fun _ _ _ => rfl) (.refl _) ((h.fds fd).not_queued hmap) rfl
  | poll ok fd x f hev hadd =>
    exact h.poll (hslot.working fd x (by rw [hev]; rfl)) hadd
  | pollFail ok fd x hev hadd => simp [registrationWorks, hev, hadd] at hreg

/-! ### Live connections -/

theorem LiveInv.move (h : LiveInv s) (hslot : SlotInv cfg s) (hfile : FileInv s)
    (hreg : registrationWorks s a = true) (hm : Move cfg s a s') : LiveInv s' := by
  refine ⟨hslot.own_move hreg hm h.fd, fun x hr => ?_⟩
  -- a connection whose teardown has ended cannot be closed again
  have hserves : s.Serves x → s'.Serves x := by
    intro hx
    rcases hslot.serves_move hm (fun _ _ fd _ _ hq => ((hfile.fds fd).queued (by simp [hq])).1)
        hx with hx | ⟨_, _, hc, -⟩ | ⟨_, _, hc⟩
    · exact hx
    · rw [hc] at hr
      cases hr
    · rw [hc] at hr
      cases hr
  cases conn_move hm x with
  | same hc | counted _ hc =>
    rw [hc] at hr
    exact hserves (h.live x hr)
  | stated _ fd hx => exact hserves (.inl ⟨fd, hx⟩)
  | marked hx => exact hserves (.inr hx)
  | wiped _ hc =>
    rw [hc] at hr
    cases hr
  | started fd _ _ _ _ _ hc =>
    rcases hc with ⟨-, hx⟩ | hc
    · exact .inl ⟨fd, hx⟩
    · rw [hc] at hr
      cases hr

/-! ### Events -/

theorem mem_pendingFds (h : Event.conn e ∈ s.batch) : e.fd ∈ s.pendingFds :=
  mem_filterMap.mpr ⟨_, h, rfl⟩

section

variable (h : EventInv s)

include h

/-- The batch is as it was or shorter, what the event thread is about to close is what it was
    about to close before, and the numbers of both stay registered as they are. -/
theorem EventInv.keep (hbatch : s'.batch.Sublist s.batch)
    (hidle : s'.ev.idle = true → s'.batch = [])
    (hfocus : ∀ p, s'.ev.focus = some p → s.ev.focus = some p)
    (hstay : ∀ fd x, fd ∈ s.pendingFds ∨ (∃ event, s'.ev.focus = some (fd, event)) →
      s.fdMap fd = some x → s'.fdMap fd = some x ∧ (s'.conns x).sock = (s.conns x).sock) :
    EventInv s' := by
  have hpend : s'.pendingFds.Sublist s.pendingFds := hbatch.filterMap _
  have hfresh : ∀ fd event, fd ∈ s.pendingFds ∨ (∃ event, s'.ev.focus = some (fd, event)) →
      s.Fresh fd event → s'.Fresh fd event := by
    rintro fd event hfd ⟨x, hx, hk⟩
    obtain ⟨hmap, hsock⟩ := hstay fd x hfd hx
    exact ⟨x, hmap, fun k he => hsock.trans (hk k he)⟩
  refine ⟨h.distinct.sublist hpend, ?_, hidle, ?_⟩
  · intro e he
    have hmem := hbatch.subset he
    exact hfresh e.fd _ (.inl (mem_pendingFds hmem)) (h.fresh e hmem)
  · intro fd event hf
    obtain ⟨hfr, hnot⟩ := h.focus fd event (hfocus _ hf)
    exact ⟨hfresh fd event (.inr ⟨event, hf⟩) hfr, fun hm => hnot (hpend.subset hm)⟩

/-- A step inside the loop that does not touch map or connections. -/
theorem EventInv.goOn (hmap : s'.fdMap = s.fdMap) (hconns : s'.conns = s.conns)
    (hbatch : s'.batch = s.batch) (hidle : s'.ev.idle = false) (hfocus : s'.ev.focus = s.ev.focus) :
    EventInv s' :=
  h.keep (hbatch ▸ .refl _) (fun hi => absurd (hidle.symm.trans hi) (by simp))
    (fun _ hp => hfocus ▸ hp) (fun _ _ _ hx => ⟨hmap ▸ hx, by rw [hconns]⟩)

/-- The event thread is inside the loop and about to close nothing. -/
theorem EventInv.leave (hmap : s'.fdMap = s.fdMap) (hconns : s'.conns = s.conns)
    (hbatch : s'.batch.Sublist s.batch) (hidle : s'.ev.idle = false) (hfocus : s'.ev.focus = none) :
    EventInv s' :=
  h.keep hbatch (fun hi => absurd (hidle.symm.trans hi) (by simp))
    (fun _ hp => absurd (hfocus.symm.trans hp) (by simp))
    (fun _ _ _ hx => ⟨hmap ▸ hx, by rw [hconns]⟩)

/-- A step that changes a connection, but not which socket it has. -/
theorem EventInv.setConn (hmap : s'.fdMap = s.fdMap) (hconns : s'.conns = (s.setConn x c).conns)
    (hsock : c.sock = (s.conns x).sock) (hbatch : s'.batch = s.batch)
    (hidle : s'.ev.idle = true → s.ev.idle = true)
    (hfocus : ∀ p, s'.ev.focus = some p → s.ev.focus = some p) : EventInv s' := by
  refine h.keep (hbatch ▸ .refl _) (fun hi => hbatch ▸ h.idle (hidle hi)) hfocus
    (fun _ y _ hy => ⟨hmap ▸ hy, ?_⟩)
  rw [hconns]
  exact s.setConn_same Conn.sock hsock y

/-- The event thread turns to a registered descriptor with no event in the batch. -/
theorem EventInv.turn (hx : s.fdMap fd = some x) (hnot : fd ∉ s.pendingFds)
    (hmap : s'.fdMap = s.fdMap) (hconns : s'.conns = s.conns) (hbatch : s'.batch = s.batch)
    (hidle : s'.ev.idle = true → s.ev.idle = true) (hfocus : s'.ev.focus = some (fd, none)) :
    EventInv s' := by
  have hpend : s'.pendingFds = s.pendingFds := by rw [Server.pendingFds, hbatch]; rfl
  refine ⟨hpend ▸ h.distinct, ?_, fun hi => hbatch ▸ h.idle (hidle hi), ?_⟩
  · rw [hbatch]
    unfold Server.Fresh
    rw [hmap, hconns]
    exact h.fresh
  · intro fd' event hf
    obtain ⟨rfl, rfl⟩ := Prod.mk.inj (Option.some.inj (hfocus.symm.trans hf))
    exact ⟨⟨x, hmap ▸ hx, fun k hk => absurd hk (by simp)⟩, hpend ▸ hnot⟩

/-- A number without an event in the batch is taken out of the map. -/
theorem EventInv.unregister (hnot : fd ∉ s.pendingFds) (hmap : s'.fdMap = update s.fdMap fd none)
    (hconns : s'.conns = s.conns) (hbatch : s'.batch = s.batch)
    (hidle : s'.ev.idle = true → s.ev.idle = true) (hfocus : s'.ev.focus = none) : EventInv s' := by
  refine h.keep (hbatch ▸ .refl _) (fun hi => hbatch ▸ h.idle (hidle hi))
    (fun p hp => absurd (hfocus.symm.trans hp) (by simp)) ?_
  rintro fd' x (hfd | ⟨event, he⟩) hx
  · have hne : fd' ≠ fd := by
      rintro rfl
      exact hnot hfd
    rw [hmap, update_of_ne hne, hconns]
    exact ⟨hx, rfl⟩
  · simp [hfocus] at he

end

/-- `epoll_wait` returns a batch: polled files are registered. -/
theorem EventInv.wait (h : FileInv s) {events : List Event} (hrep : s.reportable events = true) :
    EventInv ({ s with batch := events }.goTo .batch) := by
  obtain ⟨hnd, hall⟩ := Bool.and_eq_true_iff.mp hrep
  refine ⟨of_decide_eq_true hnd, ?_, fun hi => absurd hi (by simp [Server.goTo, EvPc.idle]),
    fun _ _ hf => absurd hf (by simp [Server.goTo, EvPc.focus])⟩
  intro e he
  have hany := all_eq_true.mp hall (.conn e) he
  obtain ⟨f, hf, hsock⟩ := (Option.any_eq_true _ _).mp hany
  obtain ⟨hsock, hpolled⟩ := of_decide_eq_true hsock
  obtain ⟨x, hx⟩ := (h.fds e.fd).polled f hf hpolled
  obtain ⟨p, hp⟩ := (h.fds e.fd).map x hx
  refine ⟨x, hx, fun k hk => ?_⟩
  rw [← Option.some.inj hk, ← hsock, Option.some.inj (hf.symm.trans hp)]
  rfl

/-- The next event of the batch is a connection's. -/
theorem EventInv.takeConn (h : EventInv s) {rest : List Event}
    (hbatch : s.batch = .conn e :: rest) :
    EventInv ({ s with batch := rest }.goTo (.readable e)) := by
  have hd : (e.fd :: rest.filterMap Event.fd?).Nodup := by
    have hd1 := h.distinct
    unfold Server.pendingFds at hd1
    rwa [hbatch] at hd1
  obtain ⟨hnot, hnd⟩ := nodup_cons.mp hd
  refine ⟨hnd, ?_, fun hi => absurd hi (by simp [Server.goTo, EvPc.idle]), ?_⟩
  · intro e' he
    exact h.fresh e' (by rw [hbatch]; exact mem_cons_of_mem _ he)
  · intro fd event hf
    obtain ⟨rfl, rfl⟩ := Prod.mk.inj (Option.some.inj hf)
    exact ⟨h.fresh e (by simp [hbatch]), hnot⟩

/-- A close message for a registered descriptor. -/
theorem EventInv.closeMessage (h : EventInv s) {sendOk : Bool} {y : Slot} {life : Nat}
    (hmap : s.fdMap fd = some y) (hq : s.queue = .control .close fd x life :: queue)
    (hok : closesNoPending s (.message tls sendOk) = true) {acted : List (Life × Life)} :
    EventInv ({ s with queue := queue, acted := acted }.goTo (.closeHash fd y)) := by
  have hnot : fd ∉ s.pendingFds := by
    have hp := (Bool.and_eq_true_iff.mp hok).2
    simp only [hq] at hp
    simpa using hp
  exact h.turn hmap hnot rfl rfl rfl (fun hi => absurd hi (by simp [Server.goTo, EvPc.idle])) rfl

/-- A completed file read that closes its connection. -/
theorem EventInv.completeClose (h : EventInv s) {submit : Bool} {generation : Nat}
    (hmap : s.fdMap fd = some x) (hk : s.aio[k]? = some (x, generation))
    (hfd : (s.conns x).fd = some fd) (hok : closesNoPending s (.completion k submit true) = true)
    {aio : List (Slot × Nat)} : EventInv ({ s with aio := aio }.goTo (.release fd none .aio)) := by
  have hnot : fd ∉ s.pendingFds := by
    have hp := (Bool.and_eq_true_iff.mp hok).2
    simp only [hk, hfd] at hp
    simpa using hp
  exact h.turn hmap hnot rfl rfl rfl (fun hi => absurd hi (by simp [Server.goTo, EvPc.idle])) rfl

theorem EventInv.move (h : EventInv s) (hslot : SlotInv cfg s) (hfile : FileInv s)
    (hlive : LiveInv s) (hok : closesNoPending s a = true) (hm : Move cfg s a s') :
    EventInv s' := by
  have hreg : registrationWorks s a = true := (Bool.and_eq_true_iff.mp hok).1
  -- what may be closed outside the teardowns is registered
  have hlive' : ∀ {x fd}, s.ev.torn = none → (s.conns x).reapable = true →
      (s.conns x).fd = some fd → s.fdMap fd = some x := by
    intro x fd ht hr hfd
    obtain ⟨fd', hx⟩ := (hlive.live x hr).resolve_right
      (fun hx => absurd (ht.symm.trans hx) (by simp))
    rw [Option.some.inj (hfd.symm.trans (hlive.fd fd' x hx))]
    exact hx
  cases hm with
  | accept | reject | handOver | handOther | otherOpen | otherClose | check | readGeneration
  | queueControl | queueData | dropData | noTarget | complete | noSlot =>
    exact ⟨h.distinct, h.fresh, h.idle, h.focus⟩
  | find | dropRef => exact h.setConn rfl rfl rfl rfl id (fun _ => id)
  | wait events hev hrep => exact .wait hfile hrep
  | reap x fd hev hx hreap hfd =>
    have hidle : s.ev.idle = true := by rw [hev]; rfl
    have hnot : fd ∉ s.pendingFds := by simp [Server.pendingFds, h.idle hidle]
    exact h.turn (hlive' (by rw [hev]; rfl) hreap hfd) hnot rfl rfl rfl (fun _ => hidle) rfl
  | batchEnd hev hbatch =>
    exact h.keep (.refl _) (fun _ => hbatch)
      (fun _ hp => absurd hp (by simp [Server.goTo, EvPc.focus])) (fun _ _ _ hx => ⟨hx, rfl⟩)
  | takeWakeup _ _ hbatch | takeAio _ _ hbatch =>
    exact h.leave rfl rfl (hbatch ▸ sublist_cons_self _ _) rfl rfl
  | takeConn e rest hev hbatch => exact h.takeConn hbatch
  | loopEnd | insert | insertFail | poll => exact h.leave rfl rfl (.refl _) rfl rfl
  | pass state submit fail e pc hpc =>
    rcases hpc with ⟨hev, rfl⟩ | ⟨hev, rfl⟩ | ⟨_, rfl⟩
    · exact h.goOn rfl rfl rfl rfl (by rw [hev]; rfl)
    · exact h.goOn rfl rfl rfl rfl (by rw [hev]; rfl)
    · exact h.leave rfl rfl (.refl _) rfl rfl
  | stale _ _ _ _ hev | hangup _ _ _ _ hev | closeHash _ _ _ hev =>
    exact h.goOn rfl rfl rfl rfl (by rw [hev]; rfl)
  | handle state submit fail e x pc hmap hpc =>
    refine h.setConn rfl rfl rfl rfl (fun hi => ?_) (fun p hp => ?_)
    · rcases hpc with ⟨_, rfl⟩ | ⟨_, rfl⟩ | ⟨_, rfl⟩ <;>
        simp [Server.goTo, EvPc.idle] at hi
    · rcases hpc with ⟨hev | hev, rfl⟩ | ⟨hev, rfl⟩ | ⟨hev, rfl⟩ <;> rw [hev] <;> exact hp
  | tlsFail sendOk fd queue x rest hev hq hfree =>
    refine h.keep (.refl _) h.idle (fun _ => id) (fun fd' y _ hy => ⟨hy, ?_⟩)
    exact congrArg Conn.sock (Server.setConn_of_ne _ _ (hslot.ne_of_free hy hfree))
  | register tls sendOk fd queue x rest hev hq hfree =>
    have hfd : s.fdMap fd = none := ((hfile.fds fd).queued (by simp [hq])).1
    refine h.keep (.refl _) (fun hi => absurd hi (by simp [Server.goTo, EvPc.idle]))
      (fun _ hp => absurd hp (by simp [Server.goTo, EvPc.focus])) (fun fd' y _ hy => ⟨?_, ?_⟩)
    · exact (update_of_ne (ne_of_unregistered hfd hy) _ _).trans hy
    · exact congrArg Conn.sock (Server.setConn_of_ne _ _ (hslot.ne_of_free hy hfree))
  | deliver tls sendOk fd x y generation life queue c hev hq hgen hopen hmap hc =>
    refine h.setConn rfl rfl ?_ rfl id (fun _ => id)
    rcases hc with rfl | rfl <;> rfl
  | act tls sendOk kind fd x y life queue pc hev hq hmap hpc =>
    rcases hpc with ⟨rfl, rfl⟩ | ⟨_, rfl⟩
    · exact h.closeMessage hmap hq hok
    · exact h.leave rfl rfl (.refl _) rfl rfl
  | completeClose k submit x generation fd aio hev hk hhttp hfd =>
    have hr : (s.conns x).reapable = true := by simp [Conn.reapable, hhttp]
    exact h.completeClose (hlive' (by rw [hev]; rfl) hr hfd) hk hfd hok
  | releaseUnknown ok fd event back hev hmap =>
    obtain ⟨⟨x, hx, _⟩, _⟩ := h.focus fd event (by rw [hev]; rfl)
    simp [hmap] at hx
  | release ok fd event back x hev =>
    refine h.unregister (h.focus fd event (by rw [hev]; rfl)).2 rfl rfl rfl (fun hi => ?_) rfl
    rw [hev]
    exact hi
  | closeRelease ok fd x hev =>
    exact h.unregister (h.focus fd none (by rw [hev]; rfl)).2 rfl rfl rfl
      (fun hi => absurd hi (by simp [Server.goTo, EvPc.idle])) rfl
  | hashRemove ok fd x back hev =>
    refine h.keep (.refl _) (fun hi => h.idle ?_)
      (fun _ hp => absurd hp (by simp [Server.goTo, EvPc.focus])) (fun _ _ _ hx => ⟨hx, rfl⟩)
    rw [hev]
    exact hi
  | unrefLast _ _ back _ hev | mark _ _ back hev =>
    refine h.setConn rfl rfl rfl rfl (fun hi => ?_) (fun _ hp => absurd hp (by simp [Server.goTo]))
    rw [hev]
    exact (Back.idle_pc back).symm.trans hi
  | unrefShared ok x back hev =>
    refine h.setConn rfl rfl rfl rfl (fun hi => ?_)
      (fun _ hp => absurd hp (by simp [Server.goTo, EvPc.focus]))
    rw [hev]
    exact hi
  | pollFail ok fd x hev hadd => simp [registrationWorks, hev, hadd] at hreg

end Steps

/-! ## What is closed -/

structure KernelInv (cfg : Config) (s : Server) : Prop where
  slots : SlotInv cfg s
  files : FileInv s
  live : LiveInv s
  events : EventInv s

theorem KernelInv.move (h : KernelInv cfg s) (hcap : cfg.maxConnections ≤ 2 ^ 16)
    (hok : closesNoPending s a = true) (hm : Move cfg s a s') : KernelInv cfg s' := by
  have hreg : registrationWorks s a = true := (Bool.and_eq_true_iff.mp hok).1
  exact ⟨h.slots.move hcap hreg hm, h.files.move h.slots h.events hreg hm,
    h.live.move h.slots h.files hreg hm, h.events.move h.slots h.files h.live hok hm⟩

theorem KernelInv.init (cfg : Config) : KernelInv cfg (.init cfg) := by
  refine ⟨.init cfg, ⟨fun fd => .of_closed rfl rfl not_mem_nil (by simp [Server.init]), .nil⟩,
    ⟨?_, ?_⟩, ⟨.nil, ?_, fun _ => rfl, ?_⟩⟩
  · intro fd x hx
    simp [Server.init] at hx
  · intro x hr
    simp [Server.init, Conn.unused, Conn.reapable] at hr
  · intro e he
    exact absurd he not_mem_nil
  · intro fd event hf
    simp [Server.init, EvPc.focus] at hf

/-- The number denoted an open file of the event thread, and if it was closed for a connection
    event, the socket that the event was about. -/
def ClosedFd.Own (c : ClosedFd) : Prop :=
  ∃ f, c.found = some f ∧ f.owner = .thread ∧ ∀ k, c.event = some k → f.sock = k

/-- One more descriptor is closed. -/
theorem own_append {event : Option Nat} (h : ∀ c ∈ s.closed, c.Own)
    (hfile : s.files fd = some ⟨k, .thread, polled⟩) (hevent : ∀ j, event = some j → k = j) :
    ∀ c ∈ s.closed ++ [⟨fd, s.files fd, event⟩], c.Own := by
  intro c hc
  rcases mem_append.mp hc with hc | hc
  · exact h c hc
  · rw [mem_singleton.mp hc]
    exact ⟨_, hfile, rfl, hevent⟩

theorem closed_own_move (hk : KernelInv cfg s) (hreg : registrationWorks s a = true)
    (h : ∀ c ∈ s.closed, c.Own) (hm : Move cfg s a s') : ∀ c ∈ s'.closed, c.Own := by
  cases hm with
  | noSlot _ _ fd _ _ hq | tlsFail _ fd _ _ _ _ hq =>
    obtain ⟨_, k, hfile⟩ := (hk.files.fds fd).queued (by simp [hq])
    exact own_append h hfile (fun j hj => absurd hj (by simp))
  | releaseUnknown ok fd event back hev hmap =>
    obtain ⟨⟨x, hx, _⟩, _⟩ := hk.events.focus fd event (by rw [hev]; rfl)
    simp [hmap] at hx
  | release ok fd event back x hev =>
    obtain ⟨⟨y, hy, hsock⟩, _⟩ := hk.events.focus fd event (by rw [hev]; rfl)
    obtain ⟨p, hfile⟩ := (hk.files.fds fd).map y hy
    exact own_append h hfile hsock
  | closeRelease ok fd x hev =>
    obtain ⟨p, hfile⟩ := (hk.files.fds fd).map x (hk.slots.working fd x (by rw [hev]; rfl))
    exact own_append h hfile (fun j hj => absurd hj (by simp))
  | pollFail ok fd x hev hadd => simp [registrationWorks, hev, hadd] at hreg
  | _ => exact h

/-- In every run whose steps meet `closesNoPending`, with at most 2^16 slots: whenever the event
    thread calls `close(2)`, the number denotes a connection of that thread, and when it closes
    for a connection event, the connection that the event was reported for. -/
theorem close_hits_own_connection (cfg : Config) (hcap : cfg.maxConnections ≤ 2 ^ 16)
    (labels : List Label) (s : Server)
    (hok : RunMeets (Server.step cfg) (closesNoPending · ·) (.init cfg) labels)
    (hrun : run (Server.step cfg) (.init cfg) labels = some s) : ∀ c ∈ s.closed, c.Own := by
  have h : KernelInv cfg s ∧ ∀ c ∈ s.closed, c.Own := by
    refine run_invariant (I := fun s => KernelInv cfg s ∧ ∀ c ∈ s.closed, c.Own) ?_ labels _ s
      ⟨.init cfg, fun c hc => absurd hc not_mem_nil⟩ hok hrun
    rintro s a s' ⟨hk, hc⟩ hok hstep
    have hm := step_move hstep
    exact ⟨hk.move hcap hok hm, closed_own_move hk (Bool.and_eq_true_iff.mp hok).1 hc hm⟩
  exact h.2

/-- Two connections, one closed for its hangup event and one by a close message behind it in the
    batch. -/
theorem close_hits_own_connection_hangup_message :
    let labels : List Label := [.accept 3, .handOver, .accept 4, .handOver, .wait [.wakeup], .next,
      .message none true, .cont true, .cont true, .message none true, .cont true, .cont true,
      .next, .next, .find (.control .close) 4, .send 0 true, .send 0 true, .send 0 true,
      .wait [.conn ⟨3, 0, true, false, true⟩, .wakeup], .next, .io .open false false,
      .io .open false false, .io .open false false, .cont true, .cont true, .cont true,
      .next, .message none true, .cont true, .cont true]
    (run (Server.step ⟨2, 8⟩) (.init ⟨2, 8⟩) labels).map Server.closed =
        some [⟨3, some ⟨0, .thread, true⟩, some 0⟩, ⟨4, some ⟨1, .thread, true⟩, none⟩] ∧
      ∀ s, run (Server.step ⟨2, 8⟩) (.init ⟨2, 8⟩) labels = some s → ∀ c ∈ s.closed, c.Own := by
  refine ⟨by decide +kernel, fun s hrun => ?_⟩
  exact close_hits_own_connection ⟨2, 8⟩ (by decide) _ s (by decide +kernel) hrun

/-- A batch has the wakeup first and then a read event of descriptor 3. The close message closes
    3, the acceptor gets the number for a new connection (socket 1), and the event of socket 0
    makes the event thread close that one. -/
theorem stale_event_closes_accepted :
    (run (Server.step ⟨2, 8⟩) (.init ⟨2, 8⟩) [.accept 3, .handOver, .wait [.wakeup], .next,
      .message none true, .cont true, .cont true, .next, .next,
      .find (.control .close) 3, .send 0 true, .send 0 true, .send 0 true,
      .wait [.wakeup, .conn ⟨3, 0, true, false, false⟩], .next, .message none true,
      .cont true, .cont true, .cont true, .accept 3, .next, .next, .io .open false false,
      .cont true]).map Server.closed =
      some [⟨3, some ⟨0, .thread, true⟩, none⟩, ⟨3, some ⟨1, .acceptor, false⟩, some 0⟩] := by
  decide +kernel

end Portico.Loop
