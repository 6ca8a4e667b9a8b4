/-
  `process_new_connection` of src/ws/ws_message_processor.c as one call, with its exits.

  Model. `ThreadTables` is what the call touches of an event thread and of its server: the slots,
  the stack of free ones, the descriptor map with its bounds check, the hash as the arrays of
  `Portico.Loop.Hash` (none if the server has no hash), the count of active connections, and the
  epoll set. `closes` is history: every `close(2)` of the thread. What the calls of the function
  answer is a `NewConnEnv`. Left out: the log, the client's address, and the server's count of
  accepted connections.

  The call is what `Portico.Loop.Model` has as up to three steps, between which other threads may
  look at the hash (`processNewConnection_runs`).

  Proved: `failed_new_connection`, a call that returns -1 has closed its descriptor once and left
  the count of active connections alone, and it has left stack, map and hash as they were exactly
  if there was no free slot. The two later exits keep what they took:
  `failed_new_connection_leaks`.
-/
import Portico.Loop.Hash

namespace Portico.Loop

open Portico.Lib Portico.Ws

structure ThreadTables where
  conns : Slot → Conn
  free : List Slot
  fdMap : Fd → Option Slot
  hash : Option ConnectionHash
  active : Nat
  polled : List Fd
  closes : List Fd

/-- The accepted socket, what `ws_tls_conn_new` gives (`none`: the server has no TLS), whether
    the hash can allocate and what its new memory holds, and what `epoll_ctl` says. -/
structure NewConnEnv where
  sock : Nat
  tls : Option Bool
  hashAlloc : Bool
  fresh : Nat → HashEntry
  epollOk : Bool

namespace ThreadTables

def setConn (t : ThreadTables) (x : Slot) (c : Conn) : ThreadTables :=
  { t with conns := Function.update t.conns x c }

/-- `close(2)`. -/
def close (t : ThreadTables) (fd : Fd) : ThreadTables := { t with closes := t.closes ++ [fd] }

/-- A descriptor behind the end of the map is not registered. -/
def wsRegisterFd (bound : Nat) (t : ThreadTables) (fd : Fd) (x : Slot) : ThreadTables :=
  if fd < bound then { t with fdMap := Function.update t.fdMap fd (some x) } else t

/-- The result of the insertion is only logged. -/
def hashInsert (env : NewConnEnv) (t : ThreadTables) (fd : Fd) (x : Slot) : ThreadTables :=
  { t with
    hash := t.hash.map fun h => (wsConnectionHashInsert env.hashAlloc env.fresh h fd x).1 }

/-- The part behind the TLS object: register, insert, and add to the epoll set. -/
def addConnection (bound : Nat) (t : ThreadTables) (fd : Fd) (x : Slot) (env : NewConnEnv) :
    ThreadTables × Int :=
  let t := (t.wsRegisterFd bound fd x).hashInsert env fd x
  if env.epollOk then
    ({ t with polled := t.polled ++ [fd], active := (t.active + 1) % 2 ^ 32 }, 0)
  else ((t.setConn x (wsConnectionCleanup (t.conns x))).close fd, -1)

def processNewConnection (bound : Nat) (t : ThreadTables) (fd : Int) (env : NewConnEnv) :
    ThreadTables × Int :=
  if fd < 0 then (t, -1)
  else
    let fd := fd.toNat
    match t.free with
    | [] => (t.close fd, -1)
    | x :: rest =>
      let c := wsConnectionInit (t.conns x) fd x env.sock
      let t := { t with free := rest }
      match env.tls with
      | some false => ((t.setConn x (wsConnectionCleanup c)).close fd, -1)
      | some true => (t.setConn x { c with state := .tlsHandshake }).addConnection bound fd x env
      | none => (t.setConn x c).addConnection bound fd x env

end ThreadTables

open ThreadTables

/-! ## The steps of the call -/

/-- The thread has the slots, the stack, the map, the hash and the closes of the server's state. -/
structure Represents (t : ThreadTables) (s : Server) : Prop where
  conns : t.conns = s.conns
  free : t.free = s.free
  fdMap : t.fdMap = s.fdMap
  hash : ∃ h, t.hash = some h ∧ HashTable h s.hash
  closes : t.closes = s.closed.map ClosedFd.fd

/-- Without memory an insertion that has to grow its bucket changes none, and any other is as with
    memory. -/
theorem wsConnectionHashInsert_cases (allocOk : Bool) (fresh : Nat → HashEntry)
    (h : ConnectionHash) (fd : Fd) (x : Slot) :
    (wsConnectionHashInsert allocOk fresh h fd x).1 = (wsConnectionHashInsert true fresh h fd x).1 ∨
      (wsConnectionHashInsert allocOk fresh h fd x).1.buckets = h.buckets := by
  cases allocOk with
  | true => exact .inl rfl
  | false =>
    unfold wsConnectionHashInsert
    dsimp only
    split
    · exact .inr rfl
    · split
      · exact .inr rfl
      · exact .inl rfl

variable {t : ThreadTables} {s : Server} {fd : Fd} {bound : Nat}

/-- Registration, insertion and the epoll set are two steps of the server. The first puts into its
    hash what the insertion has put into the table, which may be nothing. -/
theorem addConnection_runs (cfg : Config) (x : Slot) (env : NewConnEnv) {f : File}
    (hrep : Represents t s) (hbound : fd < bound) (hfile : s.files fd = some f)
    (hpolled : f.polled = false) (habs : s.hash.find bucketOf fd = none)
    (hfew : (s.hash (bucketOf fd)).length < 2 ^ 31) :
    ∃ conts s', run (Server.step cfg) ((s.setMap fd (some x)).goTo (.newHash fd x)) conts =
        some s' ∧ s'.ev = .msgs ∧ Represents (t.addConnection bound fd x env).1 s' := by
  obtain ⟨conns, free, fdMap, hash, active, polled, closes⟩ := t
  obtain ⟨rfl, rfl, rfl, ⟨h, rfl, htable⟩, rfl⟩ := hrep
  obtain ⟨ok, htable'⟩ : ∃ ok, HashTable (wsConnectionHashInsert env.hashAlloc env.fresh h fd x).1
      (if ok = true then s.hash.insert bucketOf fd x else s.hash) := by
    rcases wsConnectionHashInsert_cases env.hashAlloc env.fresh h fd x with hdone | hsame
    · exact ⟨true, by rw [hdone]; exact htable.insert habs hfew env.fresh x⟩
    · exact ⟨false, fun i => by rw [hsame]; exact htable.holds i, htable.unique, htable.placed⟩
  refine ⟨[.cont ok, .cont env.epollOk], ?_⟩
  rw [addConnection, wsRegisterFd, if_pos hbound]
  cases ok <;> cases env.epollOk <;>
    simp only [run, Server.step, Server.contStep, Server.goTo, Server.setMap, Server.epollAdd,
      hfile, hpolled, and_self, Bool.false_eq_true, false_and, if_true, if_false] <;>
    refine ⟨_, rfl, rfl, rfl, rfl, rfl, ⟨_, rfl, htable'⟩, ?_⟩ <;>
    simp [ThreadTables.close, Server.closeFd, hashInsert, ThreadTables.setConn, Server.setConn,
      Server.setFile]

/-- On a server state that the thread represents, the call is the step that takes its message off
    the queue, followed, unless that step fails, by two more. -/
theorem processNewConnection_runs {cfg : Config} {env : NewConnEnv} {f : File} {queue : List Msg}
    (hrep : Represents t s) (hev : s.ev = .msgs) (hqueue : s.queue = .newConnection fd :: queue)
    (hbound : fd < bound) (hfile : s.files fd = some f) (hpolled : f.polled = false)
    (hsock : env.sock = f.sock) (habs : s.hash.find bucketOf fd = none)
    (hfew : (s.hash (bucketOf fd)).length < 2 ^ 31) :
    ∃ conts s', run (Server.step cfg) s (.message env.tls true :: conts) = some s' ∧
      s'.ev = .msgs ∧ Represents (t.processNewConnection bound fd env).1 s' := by
  have hmessage : s.step cfg (.message env.tls true) =
      some ({ s with queue := queue }.processNewConnection fd env.tls) := by
    simp only [Server.step, hev, hqueue]
    rfl
  have hnat : ¬ (fd : Int) < 0 := by omega
  have hsock' : ((s.files fd).map File.sock).getD 0 = env.sock := by simp [hfile, hsock]
  obtain ⟨conns, free, fdMap, hash, active, polled, closes⟩ := t
  obtain ⟨rfl, rfl, rfl, hhash, rfl⟩ := hrep
  have hclosed : s.closed.map ClosedFd.fd ++ [fd] =
      (s.closed ++ [ClosedFd.mk fd (s.files fd) none]).map ClosedFd.fd := by simp
  unfold processNewConnection
  rw [if_neg hnat, Int.toNat_natCast]
  unfold Server.processNewConnection at hmessage
  dsimp only at hmessage
  rw [hsock'] at hmessage
  cases hfree : s.free with
  | nil =>
    rw [hfree] at hmessage
    exact ⟨[], _, run_step hmessage [], hev, rfl, rfl, rfl, hhash, hclosed⟩
  | cons x rest =>
    rw [hfree] at hmessage
    dsimp only at hmessage
    -- the slot is taken, whatever becomes of the connection
    have htaken (c : Conn) : Represents ((ThreadTables.mk s.conns rest s.fdMap hash active polled
        (s.closed.map ClosedFd.fd)).setConn x c) ({ s with queue, free := rest }.setConn x c) :=
      ⟨rfl, rfl, rfl, hhash, rfl⟩
    have hadd (c : Conn) :=
      addConnection_runs cfg x env (htaken c) hbound hfile hpolled habs hfew
    cases htls : env.tls with
    | none =>
      rw [htls] at hmessage
      obtain ⟨conts, s', hrun, hev', hrep'⟩ := hadd (wsConnectionInit (s.conns x) fd x env.sock)
      exact ⟨_, s', (run_step hmessage _).trans hrun, hev', hrep'⟩
    | some made =>
      rw [htls] at hmessage
      cases made with
      | false =>
        exact ⟨[], _, run_step hmessage [], hev, rfl, rfl, rfl, hhash, hclosed⟩
      | true =>
        obtain ⟨conts, s', hrun, hev', hrep'⟩ :=
          hadd { wsConnectionInit (s.conns x) fd x env.sock with state := .tlsHandshake }
        exact ⟨_, s', (run_step hmessage _).trans hrun, hev', hrep'⟩

namespace ThreadTables

/-! ## What a failed call leaves behind -/

/-- The resources that a failed call has to give back are as they were. -/
structure Restored (t t' : ThreadTables) : Prop where
  free : t'.free = t.free
  fdMap : t'.fdMap = t.fdMap
  hash : t'.hash = t.hash

variable {bound : Nat} {t t' : ThreadTables} {env : NewConnEnv}

theorem addConnection_failed {x : Slot} (h : t.addConnection bound fd x env = (t', -1)) :
    t'.free = t.free ∧ t'.active = t.active ∧ t'.closes = t.closes ++ [fd] := by
  have hreg : (t.wsRegisterFd bound fd x).free = t.free ∧
      (t.wsRegisterFd bound fd x).active = t.active ∧
      (t.wsRegisterFd bound fd x).closes = t.closes := by
    unfold wsRegisterFd
    split <;> exact ⟨rfl, rfl, rfl⟩
  unfold addConnection at h
  dsimp only at h
  split at h
  · cases h
  · cases h
    exact ⟨hreg.1, hreg.2.1, congrArg (· ++ [fd]) hreg.2.2⟩

/-- Behind the first check every exit closes the descriptor, and with a slot taken every exit has
    one slot less. -/
theorem processNewConnection_failed {fd : Int} (hfd : 0 ≤ fd)
    (h : t.processNewConnection bound fd env = (t', -1)) :
    t'.active = t.active ∧ t'.closes = t.closes ++ [fd.toNat] ∧
      (t.free = [] ∧ t' = t.close fd.toNat ∨ ∃ x, t.free = x :: t'.free) := by
  unfold processNewConnection at h
  rw [if_neg (Int.not_lt.mpr hfd)] at h
  cases hfree : t.free with
  | nil =>
    rw [hfree] at h
    cases h
    exact ⟨rfl, rfl, .inl ⟨rfl, rfl⟩⟩
  | cons x =>
    rw [hfree] at h
    dsimp only at h
    split at h
    · cases h
      exact ⟨rfl, rfl, .inr ⟨x, rfl⟩⟩
    · obtain ⟨hrest, hactive, hcloses⟩ := addConnection_failed h
      exact ⟨hactive, hcloses, .inr ⟨x, congrArg (x :: ·) hrest.symm⟩⟩
    · obtain ⟨hrest, hactive, hcloses⟩ := addConnection_failed h
      exact ⟨hactive, hcloses, .inr ⟨x, congrArg (x :: ·) hrest.symm⟩⟩

end ThreadTables

open ThreadTables

/-- For every state of the event thread and every call that returns -1 for a descriptor: the
    count of active connections is what it was and the descriptor has been closed once; the
    stack of free slots, the descriptor map and the hash are what they were exactly if no slot
    was free. -/
theorem failed_new_connection (bound : Nat) (t t' : ThreadTables) (fd : Int) (env : NewConnEnv)
    (hfd : 0 ≤ fd) (h : t.processNewConnection bound fd env = (t', -1)) :
    t'.active = t.active ∧ t'.closes = t.closes ++ [fd.toNat] ∧
      (Restored t t' ↔ t.free = []) := by
  obtain ⟨hactive, hcloses, hexit⟩ := processNewConnection_failed hfd h
  refine ⟨hactive, hcloses, ?_⟩
  rcases hexit with ⟨hnone, rfl⟩ | ⟨x, htaken⟩
  · exact ⟨fun _ => hnone, fun _ => ⟨rfl, rfl, rfl⟩⟩
  · constructor
    · intro hrestored
      have hlen := congrArg List.length htaken
      rw [hrestored.free, List.length_cons] at hlen
      omega
    · intro hnone
      rw [hnone] at htaken
      cases htaken

/-- A thread with those free slots, nothing registered, and an empty hash. -/
def ThreadTables.idle (free : List Slot) : ThreadTables :=
  { conns := .unused, free := free, fdMap := fun _ => none
    hash := some (wsConnectionHashCreate fun _ => 0), active := 0, polled := [], closes := [] }

/-- A connection on descriptor 5 takes the only slot. -/
theorem processNewConnection_runs_idle :
    let env : NewConnEnv := ⟨0, none, true, fun _ => ⟨0, none⟩, true⟩
    let s : Server := { Server.init ⟨1, 16⟩ with
      ev := .msgs, queue := [.newConnection 5], files := fun _ => some ⟨0, .other, false⟩ }
    ∃ conts s', run (Server.step ⟨1, 16⟩) s (.message env.tls true :: conts) = some s' ∧
      s'.ev = .msgs ∧
      Represents ((ThreadTables.idle [0]).processNewConnection 8 (5 : Nat) env).1 s' := by
  intro env s
  exact processNewConnection_runs ⟨rfl, rfl, rfl, ⟨_, rfl, .create _⟩, rfl⟩ rfl rfl (by decide) rfl
    rfl rfl rfl (by decide)

/-- Descriptor 5 has taken the only slot, and 6 arrives. -/
theorem failed_new_connection_full :
    let env : NewConnEnv := ⟨0, none, true, fun _ => ⟨0, none⟩, true⟩
    let t := ((ThreadTables.idle [0]).processNewConnection 8 5 env).1
    t.fdMap 5 = some 0 ∧ t.processNewConnection 8 6 env = (t.close 6, -1) ∧
      Restored t (t.close 6) ∧ (t.close 6).closes = [6] := by
  intro env t
  have h : t.processNewConnection 8 6 env = (t.close 6, -1) := rfl
  obtain ⟨_, hcloses, hrestored⟩ := failed_new_connection 8 _ _ 6 _ (by decide) h
  exact ⟨rfl, h, hrestored.mpr rfl, hcloses⟩

/-- One free slot. If no TLS object can be made the slot is lost; if the descriptor cannot be
    added to the epoll set the slot is lost, and map and hash still lead from the closed
    descriptor to it. -/
theorem failed_new_connection_leaks :
    (∃ t, (ThreadTables.idle [0]).processNewConnection 8 5
        ⟨0, some false, true, fun _ => ⟨0, none⟩, true⟩ = (t, -1) ∧ t.free = [] ∧
      t.closes = [5] ∧ ¬ Restored (.idle [0]) t) ∧
    ∃ t, (ThreadTables.idle [0]).processNewConnection 8 5
        ⟨0, none, true, fun _ => ⟨0, none⟩, false⟩ = (t, -1) ∧ t.free = [] ∧ t.closes = [5] ∧
      t.fdMap 5 = some 0 ∧ t.hash.bind (wsConnectionHashFind · 5) = some 0 ∧
      ¬ Restored (.idle [0]) t := by
  refine ⟨⟨_, rfl, rfl, rfl, ?_⟩, ⟨_, rfl, rfl, rfl, rfl, ?_, ?_⟩⟩
  · intro hrestored
    cases hrestored.free
  · rfl
  · intro hrestored
    cases hrestored.free

end Portico.Loop
