/-
  One event thread of the server with the threads around it: the acceptor, the API callers, and
  the kernel's descriptor table (src/ws/ws_event_thread.c, ws_message_processor.c,
  ws_connection_handler.c, ws_connection.c, ws_server.c, src/http/connection.c).

  Model. A step is what one thread does up to its next operation that another thread can see:
  `close(2)`, `accept(2)`, an operation on the global hash, an atomic on a reference count, a
  read of a slot's state or generation, an enqueue or dequeue. The message queue is a list
  (`Portico.Mpsc.Fifo` shows that it hands messages over in the order in which they were put
  in). What a handler decides by itself (the state a read leaves a connection in, whether a call
  fails) is part of the label. Descriptors are below RLIMIT_NOFILE, the size of the descriptor
  map, so its linear fallback is not reached. Other event threads appear as owners of
  descriptors (`handOther`). The hash is the server's and `Server.hash` has this thread's entries
  only, so that where another thread's entry under the same number would matter, a condition on
  the run excludes `handOther`.

  History. `Conn.life` counts the connections a slot has had, `Conn.sock` names the accepted
  socket of the current one, and messages carry the slot and life their sender looked up.
  `closed` records every `close(2)` of the event thread with what the number denoted then,
  `delivered` and `acted` on which connection a message was carried out.
-/
import Portico.Lib.Buckets
import Portico.Lib.Machine
import Portico.Ws.Message

namespace Portico.Loop

open Portico.Lib Portico.Ws

abbrev Fd := Nat

abbrev Slot := Nat

/-- A slot and one of its connections. -/
abbrev Life := Slot × Nat

/-! ## Connections -/

/-- The fields of `ws_connection_t` that say whose connection it is; no descriptor stands for
    -1, and `stamped` for a `connect_time` other than 0. -/
structure Conn where
  fd : Option Fd
  state : WsState
  refCount : Int
  generation : Nat
  poolIndex : Nat
  stamped : Bool
  life : Nat
  sock : Nat
  deriving DecidableEq, Repr

/-- A slot as `ws_init_event_thread` leaves it. -/
def Conn.unused (slot : Slot) : Conn :=
  { fd := none, state := .closed, refCount := 0, generation := 0, poolIndex := slot % 2 ^ 16,
    stamped := false, life := 0, sock := 0 }

/-- `pool_index` is a 16-bit parameter. -/
def wsConnectionInit (c : Conn) (fd : Fd) (poolIndex : Nat) (sock : Nat) : Conn :=
  { fd := some fd, state := .connecting, refCount := 1, generation := (c.generation + 1) % 2 ^ 32,
    poolIndex := poolIndex % 2 ^ 16, stamped := true, life := c.life + 1, sock := sock }

/-- All fields become 0 except the generation; 0 is CONNECTING. -/
def wsConnectionCleanup (c : Conn) : Conn :=
  { c with fd := some 0, state := .connecting, refCount := 0, poolIndex := 0, stamped := false }

/-- What `reap_stale_connections` may close: a stalled handshake, an open or an HTTP
    connection. -/
def Conn.reapable (c : Conn) : Bool :=
  match c.state with
  | .connecting => c.stamped
  | .tlsHandshake => c.stamped
  | .open => true
  | .http => true
  | .closing => false
  | .closed => false

def wsFnv1aHash (bytes : List Nat) : Nat :=
  bytes.foldl (fun hash b => (hash ^^^ b) * 1099511628211 % 2 ^ 64) 14695981039346656037

/-- The four bytes of the value, the lowest first. -/
def wsFnv1aHashUint32 (value : Nat) : Nat :=
  wsFnv1aHash [value % 256, value / 2 ^ 8 % 256, value / 2 ^ 16 % 256, value / 2 ^ 24 % 256]

/-- The bucket of a descriptor in the global hash. -/
def bucketOf (fd : Fd) : Nat := wsFnv1aHashUint32 fd / 2 ^ 24 % 256

/-! ## Descriptors, messages, events -/

/-- Who is to close a descriptor: the acceptor, the event thread (from the moment its message is
    queued there), or somebody else in the process. -/
inductive Owner where
  | acceptor
  | thread
  | other
  deriving DecidableEq, Repr

/-- An open file; `polled`: it is in the event thread's epoll set. -/
structure File where
  sock : Nat
  owner : Owner
  polled : Bool
  deriving DecidableEq, Repr

/-- A `close(2)` by the event thread: what the number denoted, and for the closes of a
    connection event the socket that the event was about. -/
structure ClosedFd where
  fd : Fd
  found : Option File
  event : Option Nat
  deriving DecidableEq, Repr

inductive Control where
  | ping
  | pong
  | close
  deriving DecidableEq, Repr

/-- The messages of the queue. A text or binary message carries slot and generation; a ping,
    pong or close only the descriptor (slot and life in it are history). -/
inductive Msg where
  | newConnection (fd : Fd)
  | data (fd : Fd) (slot : Slot) (generation : Nat) (life : Nat)
  | control (kind : Control) (fd : Fd) (slot : Slot) (life : Nat)
  deriving DecidableEq, Repr

structure ConnEvent where
  fd : Fd
  sock : Nat
  readable : Bool
  writable : Bool
  hangup : Bool
  deriving DecidableEq, Repr

/-- An entry of the epoll batch. -/
inductive Event where
  | wakeup
  | aio
  | conn (e : ConnEvent)
  deriving DecidableEq, Repr

def Event.fd? : Event → Option Fd
  | .conn e => some e.fd
  | _ => none

/-! ## Threads -/

/-- Where the event thread goes on after a procedure. -/
inductive Back where
  | top
  | batch
  | msgs
  | aio
  deriving DecidableEq, Repr

/-- The event thread: waiting or reaping (`top`), in the loop over the batch, between messages,
    between aio completions, at one of the three checks of a connection event, or inside
    `close_connection`, `process_close_message` or `process_new_connection`. -/
inductive EvPc where
  | top
  | batch
  | msgs
  | aio
  | readable (e : ConnEvent)
  | writable (e : ConnEvent)
  | hangup (e : ConnEvent)
  | release (fd : Fd) (event : Option Nat) (back : Back)
  | hashRemove (fd : Fd) (slot : Slot) (back : Back)
  | unref (slot : Slot) (back : Back)
  | mark (slot : Slot) (back : Back)
  | closeHash (fd : Fd) (slot : Slot)
  | closeRelease (fd : Fd) (slot : Slot)
  | newHash (fd : Fd) (slot : Slot)
  | newEpoll (fd : Fd) (slot : Slot)
  deriving DecidableEq, Repr

def Back.pc : Back → EvPc
  | .top => .top
  | .batch => .batch
  | .msgs => .msgs
  | .aio => .aio

inductive SendKind where
  | data
  | control (c : Control)
  deriving DecidableEq, Repr

/-- After the lookup, after the check of the state, with the generation read, and with nothing
    left but to drop the reference. -/
inductive SendStage where
  | found
  | checked
  | ready (generation : Nat)
  | done
  deriving DecidableEq, Repr

/-- An API call that has found its connection and holds a reference to it. -/
structure Send where
  kind : SendKind
  fd : Fd
  slot : Slot
  life : Nat
  stage : SendStage
  deriving DecidableEq, Repr

structure Config where
  maxConnections : Nat
  fdMapSize : Nat
  deriving Repr

structure Server where
  conns : Slot → Conn
  fdMap : Fd → Option Slot
  free : List Slot
  hash : Table Fd Slot
  queue : List Msg
  aio : List (Slot × Nat)
  ev : EvPc
  batch : List Event
  files : Fd → Option File
  nextSock : Nat
  accepted : Option Fd
  sends : List Send
  closed : List ClosedFd
  delivered : List (Life × Life)
  acted : List (Life × Life)

/-- After `ws_init_event_thread`: `free` is `free_connection_stack` from the top down. -/
def Server.init (cfg : Config) : Server :=
  { conns := .unused, fdMap := fun _ => none, free := List.range cfg.maxConnections,
    hash := .empty, queue := [], aio := [], ev := .top, batch := [], files := fun _ => none,
    nextSock := 0, accepted := none, sends := [], closed := [], delivered := [], acted := [] }

namespace Server

def setConn (s : Server) (x : Slot) (c : Conn) : Server :=
  { s with conns := Function.update s.conns x c }

theorem setConn_self (s : Server) (x : Slot) (c : Conn) : (s.setConn x c).conns x = c := by
  simp [setConn]

theorem setConn_of_ne (s : Server) {x y : Slot} (c : Conn) (h : y ≠ x) :
    (s.setConn x c).conns y = s.conns y := by
  simp [setConn, h]

/-- A part of the connections that an update does not change. -/
theorem setConn_same (s : Server) {x : Slot} {c : Conn} {β : Type} (part : Conn → β)
    (hc : part c = part (s.conns x)) (y : Slot) :
    part ((s.setConn x c).conns y) = part (s.conns y) := by
  by_cases hy : y = x
  · rw [hy, setConn_self, hc]
  · rw [setConn_of_ne s c hy]

def setMap (s : Server) (fd : Fd) (x : Option Slot) : Server :=
  { s with fdMap := Function.update s.fdMap fd x }

def setFile (s : Server) (fd : Fd) (f : Option File) : Server :=
  { s with files := Function.update s.files fd f }

def goTo (s : Server) (pc : EvPc) : Server := { s with ev := pc }

/-- The life of a slot's current connection. -/
def lifeOf (s : Server) (x : Slot) : Life := (x, (s.conns x).life)

/-- `close(2)` by the event thread. -/
def closeFd (s : Server) (fd : Fd) (event : Option Nat) : Server :=
  { s.setFile fd none with closed := s.closed ++ [⟨fd, s.files fd, event⟩] }

/-- The descriptors with an event still to come in the batch. -/
def pendingFds (s : Server) : List Fd := s.batch.filterMap Event.fd?

/-! ## The event thread's procedures -/

/-- `close_connection` up to `close(2)`: the number is closed whether or not it is registered. -/
def release (s : Server) (fd : Fd) (event : Option Nat) (back : Back) : Server :=
  let s' := (s.setMap fd none).closeFd fd event
  match s.fdMap fd with
  | none => s'.goTo back.pc
  | some x => s'.goTo (.hashRemove fd x back)

/-- The end of both teardowns: `ws_connection_unref`, and with the last reference
    `ws_connection_cleanup` and the push onto the free stack. -/
def dropReference (cfg : Config) (s : Server) (x : Slot) (back : Back) : Server :=
  let c := s.conns x
  if c.refCount = 1 then
    { s.setConn x (wsConnectionCleanup c) with
      free := if s.free.length < cfg.maxConnections then c.poolIndex :: s.free else s.free,
      ev := back.pc }
  else (s.setConn x { c with refCount := c.refCount - 1 }).goTo (.mark x back)

/-- `tls`: no TLS listener, or whether the TLS object could be made. -/
def processNewConnection (s : Server) (fd : Fd) (tls : Option Bool) : Server :=
  match s.free with
  | [] => s.closeFd fd none
  | x :: rest =>
    let s := { s with free := rest }
    let c := wsConnectionInit (s.conns x) fd x (((s.files fd).map File.sock).getD 0)
    match tls with
    | some false => (s.setConn x (wsConnectionCleanup c)).closeFd fd none
    | some true =>
      ((s.setConn x { c with state := .tlsHandshake }).setMap fd (some x)).goTo (.newHash fd x)
    | none => ((s.setConn x c).setMap fd (some x)).goTo (.newHash fd x)

/-- `epoll_ctl(EPOLL_CTL_ADD)`: it needs an open file that is not in the set yet. -/
def epollAdd (s : Server) (fd : Fd) (ok : Bool) : Option File :=
  match s.files fd with
  | none => none
  | some f => if ok = true ∧ f.polled = false then some { f with polled := true } else none

/-- `ws_buffered_data_send`; with `sendOk` false the connection is marked closing. -/
def wsBufferedDataSend (s : Server) (fd : Fd) (sender : Life) (sendOk : Bool) : Server :=
  match s.fdMap fd with
  | none => s
  | some y =>
    if (s.conns y).state = .open then
      let s := { s with delivered := s.delivered ++ [(sender, s.lifeOf y)] }
      if sendOk then s else s.setConn y { s.conns y with state := .closing }
    else s

/-- A case of the switch of `ws_mpsc_process_messages`. -/
def processMessage (s : Server) (tls : Option Bool) (sendOk : Bool) : Msg → Server
  | .newConnection fd => s.processNewConnection fd tls
  | .data fd x generation life =>
    if (s.conns x).generation = generation ∧ (s.conns x).state = .open then
      s.wsBufferedDataSend fd (x, life) sendOk
    else s
  | .control kind fd x life =>
    match s.fdMap fd with
    | none => s
    | some y =>
      let s := { s with acted := s.acted ++ [((x, life), s.lifeOf y)] }
      match kind with
      | .close => s.goTo (.closeHash fd y)
      | .ping => s
      | .pong => s

/-- A handler of the connection leaves it in a state and may have started a file read. -/
def handled (s : Server) (x : Slot) (state : WsState) (submit : Bool) : Server :=
  { s.setConn x { s.conns x with state := state } with
    aio := if submit then s.aio ++ [(x, (s.conns x).generation)] else s.aio }

/-- `file_read_complete` and `stream_chunk_complete`. -/
def readComplete (s : Server) (x : Slot) (generation : Nat) (submit close : Bool) : Server :=
  let c := s.conns x
  if c.generation = generation ∧ c.state = .http then
    match c.fd with
    | none => s
    | some fd =>
      let s := { s with aio := if submit then s.aio ++ [(x, generation)] else s.aio }
      if close then s.goTo (.release fd none .aio) else s
  else s

/-- Events that `epoll_wait` can report: of polled files, each once. -/
def reportable (s : Server) (events : List Event) : Bool :=
  decide (events.filterMap Event.fd?).Nodup && events.all fun ev =>
    match ev with
    | .conn e => (s.files e.fd).any fun f => f.sock = e.sock ∧ f.polled = true
    | .wakeup => true
    | .aio => true

end Server

/-! ## Steps -/

/-- Acceptor: `accept`, `reject` (close the descriptor), `handOver` (queue it for the event
    thread), `handOther` (another event thread's). The rest of the process: `otherOpen`,
    `otherClose`. API callers: `find` (lookup with reference), `send` (the next step of the
    `k`-th call in progress). Event thread: `wait` (epoll returns a batch), `reap`, `next` (the
    next event, or the end of messages, completions or batch), `io` (a check of a connection
    event, with what its handler does), `message`, `completion`, and `cont` (the next step of
    a teardown or a registration). -/
inductive Label where
  | accept (fd : Fd)
  | reject
  | handOver
  | handOther
  | otherOpen (fd : Fd)
  | otherClose (fd : Fd)
  | find (kind : SendKind) (fd : Fd)
  | send (k : Nat) (queueOk : Bool)
  | wait (events : List Event)
  | reap (slot : Slot)
  | next
  | io (state : WsState) (submit fail : Bool)
  | message (tls : Option Bool) (sendOk : Bool)
  | completion (k : Nat) (submit close : Bool)
  | cont (ok : Bool)
  deriving DecidableEq, Repr

namespace Server

/-- The acceptor and the rest of the process. -/
def acceptStep (cfg : Config) (s : Server) (fd : Fd) : Option Server :=
  match s.accepted, s.files fd with
  | none, none =>
    if fd < cfg.fdMapSize then
      some { s.setFile fd (some ⟨s.nextSock, .acceptor, false⟩) with
        accepted := some fd, nextSock := s.nextSock + 1 }
    else none
  | _, _ => none

def rejectStep (s : Server) : Option Server :=
  match s.accepted with
  | none => none
  | some fd => some { s.setFile fd none with accepted := none }

/-- `ws_mpsc_send_new_connection` to the event thread. -/
def handOverStep (s : Server) : Option Server :=
  match s.accepted with
  | none => none
  | some fd =>
    some { s.setFile fd ((s.files fd).map fun f => { f with owner := .thread }) with
      accepted := none, queue := s.queue ++ [.newConnection fd] }

def handOtherStep (s : Server) : Option Server :=
  match s.accepted with
  | none => none
  | some fd =>
    some { s.setFile fd ((s.files fd).map fun f => { f with owner := .other }) with
      accepted := none }

def otherOpenStep (s : Server) (fd : Fd) : Option Server :=
  match s.files fd with
  | none => some { s.setFile fd (some ⟨s.nextSock, .other, false⟩) with nextSock := s.nextSock + 1 }
  | some _ => none

def otherCloseStep (s : Server) (fd : Fd) : Option Server :=
  match s.files fd with
  | none => none
  | some f => if f.owner = .other then some (s.setFile fd none) else none

/-- `ws_connection_hash_find_and_ref`. -/
def findStep (s : Server) (kind : SendKind) (fd : Fd) : Option Server :=
  match s.hash.find bucketOf fd with
  | none => none
  | some x =>
    let c := s.conns x
    some { s.setConn x { c with refCount := c.refCount + 1 } with
      sends := s.sends ++ [⟨kind, fd, x, c.life, .found⟩] }

/-- What follows the lookup: the state is checked (not by `ws_close_connection`), a text or
    binary send reads the generation, the message is queued if that works, and the reference is
    dropped. -/
def sendStep (s : Server) (k : Nat) (queueOk : Bool) : Option Server :=
  match s.sends[k]? with
  | none => none
  | some d =>
    let put (stage : SendStage) : List Send := s.sends.set k { d with stage := stage }
    match d.stage, d.kind with
    | .found, .control .close => some { s with sends := put .checked }
    | .found, _ =>
      if (s.conns d.slot).state = .open then some { s with sends := put .checked }
      else some { s with sends := put .done }
    | .checked, .data => some { s with sends := put (.ready (s.conns d.slot).generation) }
    | .checked, .control c =>
      if queueOk then
        some { s with sends := put .done, queue := s.queue ++ [.control c d.fd d.slot d.life] }
      else some { s with sends := put .done }
    | .ready generation, _ =>
      if queueOk then
        some { s with
          sends := put .done, queue := s.queue ++ [.data d.fd d.slot generation d.life] }
      else some { s with sends := put .done }
    | .done, _ =>
      let c := s.conns d.slot
      some { s.setConn d.slot { c with refCount := c.refCount - 1 } with
        sends := s.sends.eraseIdx k }

/-- The loop over the batch, and the ends of the loops inside it. -/
def nextStep (s : Server) : Option Server :=
  match s.ev with
  | .batch =>
    match s.batch with
    | [] => some (s.goTo .top)
    | .wakeup :: rest => some ({ s with batch := rest }.goTo .msgs)
    | .aio :: rest => some ({ s with batch := rest }.goTo .aio)
    | .conn e :: rest => some ({ s with batch := rest }.goTo (.readable e))
  | .msgs => some (s.goTo .batch)
  | .aio => some (s.goTo .batch)
  | _ => none

/-- The three checks of a connection event; a close skips the rest of them. -/
def ioStep (s : Server) (state : WsState) (submit fail : Bool) : Option Server :=
  match s.ev with
  | .readable e =>
    if e.readable then
      match s.fdMap e.fd with
      | none => some (s.goTo (.release e.fd (some e.sock) .batch))
      | some x =>
        if fail then some ((s.handled x state submit).goTo (.release e.fd (some e.sock) .batch))
        else some ((s.handled x state submit).goTo (.writable e))
    else some (s.goTo (.writable e))
  | .writable e =>
    if e.writable then
      match s.fdMap e.fd with
      | none => some (s.goTo .batch)
      | some x =>
        if fail then some ((s.handled x state submit).goTo (.release e.fd (some e.sock) .batch))
        else some ((s.handled x state submit).goTo (.hangup e))
    else some (s.goTo (.hangup e))
  | .hangup e =>
    if e.hangup then some (s.goTo (.release e.fd (some e.sock) .batch)) else some (s.goTo .batch)
  | _ => none

/-- The next step inside a procedure; `ok`: the allocation in the hash or the registration with
    epoll works. -/
def contStep (cfg : Config) (s : Server) (ok : Bool) : Option Server :=
  match s.ev with
  | .release fd event back => some (s.release fd event back)
  | .hashRemove fd x back =>
    some ({ s with hash := s.hash.remove bucketOf fd }.goTo (.unref x back))
  | .unref x back => some (s.dropReference cfg x back)
  | .mark x back => some ((s.setConn x { s.conns x with state := .closed }).goTo back.pc)
  | .closeHash fd x =>
    some ({ s with hash := s.hash.remove bucketOf fd }.goTo (.closeRelease fd x))
  | .closeRelease fd x => some (((s.setMap fd none).closeFd fd none).goTo (.unref x .msgs))
  | .newHash fd x =>
    if ok then some ({ s with hash := s.hash.insert bucketOf fd x }.goTo (.newEpoll fd x))
    else some (s.goTo (.newEpoll fd x))
  | .newEpoll fd x =>
    match s.epollAdd fd ok with
    | some f => some ((s.setFile fd (some f)).goTo .msgs)
    | none => some (((s.setConn x (wsConnectionCleanup (s.conns x))).closeFd fd none).goTo .msgs)
  | _ => none

def step (cfg : Config) (s : Server) : Label → Option Server
  | .accept fd => s.acceptStep cfg fd
  | .reject => s.rejectStep
  | .handOver => s.handOverStep
  | .handOther => s.handOtherStep
  | .otherOpen fd => s.otherOpenStep fd
  | .otherClose fd => s.otherCloseStep fd
  | .find kind fd => s.findStep kind fd
  | .send k queueOk => s.sendStep k queueOk
  | .wait events =>
    if s.ev = .top ∧ s.reportable events = true then some ({ s with batch := events }.goTo .batch)
    else none
  | .reap x =>
    if s.ev = .top ∧ x < cfg.maxConnections ∧ (s.conns x).reapable = true then
      match (s.conns x).fd with
      | none => none
      | some fd => some (s.goTo (.release fd none .top))
    else none
  | .next => s.nextStep
  | .io state submit fail => s.ioStep state submit fail
  | .message tls sendOk =>
    match s.ev, s.queue with
    | .msgs, m :: queue => some ({ s with queue := queue }.processMessage tls sendOk m)
    | _, _ => none
  | .completion k submit close =>
    match s.ev, s.aio[k]? with
    | .aio, some (x, generation) =>
      some ({ s with aio := s.aio.eraseIdx k }.readComplete x generation submit close)
    | _, _ => none
  | .cont ok => s.contStep cfg ok

end Server

end Portico.Loop
