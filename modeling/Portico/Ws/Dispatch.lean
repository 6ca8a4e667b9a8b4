/-
  From accept to open: `read_into_recv` and `portico_initial_dispatch` of
  src/http/connection.c, and `handle_connection_read` of src/ws/ws_connection_handler.c, for a
  client that sends an upgrade request and then frames.

  Model. `Served` is the connection with the bytes the client has sent and the server has not
  read. Each readability event gives the turns of one call of `handleConnectionRead`; bytes
  that a call leaves unread have not arrived yet. The handshake itself is a parameter, so the
  results hold for `wsProcessHandshake` and for any other. A connection that turns out to be
  plain HTTP, or is still in its TLS handshake, leaves this model (`Fate.otherHandler`).

  Proved: `upgrade_any_split_iff`, exactly when an upgrade followed by client bytes, cut into
  reads and events in any way, ends as if the handshake had arrived alone.
-/
import Portico.Ws.Handshake
import Portico.Ws.Receive

namespace Portico.Ws

open Portico.Lib List

/-- `PORTICO_MAX_HEADER_SIZE`. -/
def maxHeaderSize : Nat := 32768

/-- `PORTICO_MAX_BODY`. -/
def maxBody : Nat := 16 * 1024 * 1024

/-! ## Reading the request -/

/-- The read of a round of `read_into_recv`: go on with a fuller buffer (`none`), or return
    (`some true`: 0, `some false`: -1). -/
def recvChunk (answer : ReadAnswer) (buf : RecvBuffer) (pending : Bytes) :
    RecvBuffer × Bytes × Option Bool :=
  match answer with
  | .again => (buf, pending, some true)
  | .eof => (buf, pending, some false)
  | .error => (buf, pending, some false)
  | .bytes n =>
    if pending = [] then (buf, pending, some true)
    else
      let bytesRead := min (n + 1) (buf.capacity - buf.bytes.length)
      ({ buf with bytes := buf.bytes ++ pending.take bytesRead }, pending.drop bytesRead, none)

def recvTurn (t : Turn) (buf : RecvBuffer) (pending : Bytes) :
    RecvBuffer × Bytes × Option Bool :=
  let hardMax := maxHeaderSize + maxBody
  if buf.bytes.length = buf.capacity then
    -- a buffer that may not grow is left to the caller
    if hardMax ≤ buf.capacity then (buf, pending, some true)
    else if !t.reallocOk then (buf, pending, some false)
    else
      let grown := if buf.capacity = 0 then 16384 else sizeMul buf.capacity 2
      recvChunk t.answer { buf with capacity := min grown hardMax } pending
  else recvChunk t.answer buf pending

def readIntoRecv : List Turn → RecvBuffer → Bytes → RecvBuffer × Bytes × Bool
  | [], buf, pending =>
    let (buf, pending, done) := recvTurn ⟨true, .again⟩ buf pending
    (buf, pending, done.getD true)
  | t :: ts, buf, pending =>
    match recvTurn t buf pending with
    | (buf, pending, some ok) => (buf, pending, ok)
    | (buf, pending, none) => readIntoRecv ts buf pending

/-- `memmem(.., "\r\n\r\n", 4)`: where the header block's end begins. -/
def findTerm : Bytes → Option Nat
  | [] => none
  | b :: bs =>
    if (b :: bs).take 4 = [13, 10, 13, 10] then some 0 else (findTerm bs).map (· + 1)

def ciContains (hay needle : Bytes) : Bool :=
  match hay with
  | [] => false
  | h :: rest => startsWithCi needle (h :: rest) || ciContains rest needle

/-! ## The connection -/

/-- How the server goes on with a connection after an event. -/
inductive Fate where
  | keepOpen
  | cleanClose
  | error
  | headerTooLarge
  | otherHandler
  deriving DecidableEq, Repr

structure Served where
  msg : MsgConn
  buf : RecvBuffer
  pending : Bytes
  fate : Fate
  deriving DecidableEq, Repr

def Verdict.fate : Verdict → Fate
  | .keepOpen => .keepOpen
  | .cleanClose => .cleanClose
  | .error => .error

section Dispatch

variable (cfg : WsConfig) (handshake : MsgConn → Bytes → MsgConn × Bool)

/-- The state of a connection whose handshake was accepted. -/
def openConn (c : MsgConn) : MsgConn := (c.setState .open).callback cfg.hasOnConnect .onConnect

def porticoInitialDispatch (turns : List Turn) (s : Served) : Served :=
  match readIntoRecv turns s.buf s.pending with
  | (buf, pending, false) => { s with buf := buf, pending := pending, fate := .error }
  | (buf, pending, true) =>
    let s := { s with buf := buf, pending := pending }
    match findTerm buf.bytes with
    | none =>
      if maxHeaderSize < buf.bytes.length then { s with fate := .headerTooLarge } else s
    | some term =>
      let headersLen := term + 4
      if ciContains (buf.bytes.take headersLen) (ascii "sec-websocket-key") then
        match s.msg.alloc with
        | (false, c) => { s with msg := c, fate := .error }
        | (true, c) =>
          match handshake c (cString (buf.bytes.take headersLen)) with
          | (c, false) => { s with msg := c, fate := .error }
          | (c, true) =>
            -- what came behind the request stays in the buffer; nothing looks at it here
            { s with msg := openConn cfg c
                     buf := { buf with bytes := buf.bytes.drop headersLen } }
      else { s with msg := s.msg.setState .http, fate := .otherHandler }

/-- One readability event. -/
def handleConnectionRead (turns : List Turn) (s : Served) : Served :=
  match s.msg.state with
  | .connecting => porticoInitialDispatch cfg handshake turns s
  | .open =>
    let r := handleWebsocketFrames cfg (processWebsocketFrame cfg) turns s.msg s.buf s.pending
    ⟨r.conn, r.buf, r.pending, r.outcome.verdict.fate⟩
  | .http => { s with fate := .otherHandler }
  | .tlsHandshake => { s with fate := .otherHandler }
  | .closing => { s with fate := .error }
  | .closed => { s with fate := .error }

/-- Successive readability events, until the connection is given up or leaves the model. -/
def serveEvents : List (List Turn) → Served → Served
  | [], s => s
  | turns :: events, s =>
    if s.fate = .keepOpen then serveEvents events (handleConnectionRead cfg handshake turns s)
    else s

end Dispatch

/-! ## Reading while bytes arrive -/

/-- The bytes a round has read, and that it has not failed. -/
def Received (buf : RecvBuffer) (pending : Bytes) (r : RecvBuffer × Bytes × Option Bool) : Prop :=
  ∃ T, pending = T ++ r.2.1 ∧ r.1.bytes = buf.bytes ++ T ∧
    r.1.bytes.length ≤ r.1.capacity ∧ r.2.2 ≠ some false

variable {buf : RecvBuffer}

theorem recvChunk_spec {t : Turn} (ht : t.arriving = true) (pending : Bytes)
    (hb : buf.bytes.length ≤ buf.capacity) :
    Received buf pending (recvChunk t.answer buf pending) := by
  obtain ⟨reallocOk, answer⟩ := t
  simp only [Turn.arriving, Bool.and_eq_true] at ht
  cases answer with
  | again => exact ⟨[], rfl, by simp [recvChunk], hb, by simp [recvChunk]⟩
  | eof => cases ht.2
  | error => cases ht.2
  | bytes =>
    by_cases hp : pending = []
    · simp only [recvChunk, if_pos hp]
      exact ⟨[], rfl, by simp, hb, by simp⟩
    · simp only [recvChunk, if_neg hp]
      refine ⟨_, (take_append_drop _ _).symm, rfl, ?_, by simp⟩
      simp only [length_append, length_take]
      omega

theorem recvTurn_spec {t : Turn} (ht : t.arriving = true) (pending : Bytes)
    (hb : buf.bytes.length ≤ buf.capacity) : Received buf pending (recvTurn t buf pending) := by
  by_cases hfull : buf.bytes.length = buf.capacity
  swap
  · simp only [recvTurn, if_neg hfull]
    exact recvChunk_spec ht pending hb
  by_cases hhard : maxHeaderSize + maxBody ≤ buf.capacity
  · simp only [recvTurn, if_pos hfull, if_pos hhard]
    exact ⟨[], rfl, by simp, hb, by simp⟩
  have hre : t.reallocOk = true := by
    simp only [Turn.arriving, Bool.and_eq_true] at ht
    exact ht.1
  have hgrown : buf.bytes.length ≤
      min (if buf.capacity = 0 then 16384 else sizeMul buf.capacity 2)
        (maxHeaderSize + maxBody) := by
    unfold maxHeaderSize maxBody at hhard ⊢
    unfold sizeMul
    split <;> omega
  simp only [recvTurn, if_pos hfull, if_neg hhard, hre, Bool.not_true, Bool.false_eq_true,
    if_false]
  exact recvChunk_spec ht pending hgrown

/-- `read_into_recv` appends what it reads and does not fail while bytes arrive. -/
theorem readIntoRecv_spec :
    ∀ (turns : List Turn), (∀ t ∈ turns, t.arriving = true) →
      ∀ (buf : RecvBuffer) (pending : Bytes), buf.bytes.length ≤ buf.capacity →
      ∃ T, pending = T ++ (readIntoRecv turns buf pending).2.1 ∧
        (readIntoRecv turns buf pending).1.bytes = buf.bytes ++ T ∧
        (readIntoRecv turns buf pending).1.bytes.length ≤
          (readIntoRecv turns buf pending).1.capacity ∧
        (readIntoRecv turns buf pending).2.2 = true := by
  intro turns
  induction turns with
  | nil =>
    intro _ buf pending hb
    have hidle : (⟨true, .again⟩ : Turn).arriving = true := rfl
    obtain ⟨T, h1, h2, h3, h4⟩ := recvTurn_spec hidle pending hb
    simp only [readIntoRecv]
    refine ⟨T, h1, h2, h3, ?_⟩
    rcases hr : (recvTurn ⟨true, .again⟩ buf pending).2.2 with _ | _ | _
    · rfl
    · exact absurd hr h4
    · rfl
  | cons t ts ih =>
    intro hts buf pending hb
    obtain ⟨T, h1, h2, h3, h4⟩ :=
      recvTurn_spec (hts t (mem_cons_self ..)) pending hb
    simp only [readIntoRecv]
    rcases hr : recvTurn t buf pending with ⟨buf', pending', _ | _ | _⟩ <;>
      rw [hr] at h1 h2 h3 h4 <;> simp only at h1 h2 h3 h4 ⊢
    · obtain ⟨T', g1, g2, g3, g4⟩ :=
        ih (fun t' ht' => hts t' (mem_cons_of_mem _ ht')) buf' pending' h3
      refine ⟨T ++ T', ?_, ?_, g3, g4⟩
      · rw [h1, append_assoc, ← g1]
      · rw [g2, h2, append_assoc]
    · exact absurd rfl h4
    · exact ⟨T, h1, h2, h3, trivial⟩

/-! ## The end of the header block -/

variable {l : Bytes}

theorem findTerm_bound : ∀ {i : Nat}, findTerm l = some i → i + 4 ≤ l.length := by
  induction l with
  | nil => intro i h; cases h
  | cons b bs ih =>
    intro i h
    simp only [findTerm] at h
    split at h
    · rename_i hm
      cases h
      have hlen := congrArg length hm
      rw [length_take] at hlen
      simp only [length_cons, length_nil] at hlen ⊢
      omega
    · obtain ⟨j, hj, rfl⟩ := Option.map_eq_some_iff.mp h
      have := ih hj
      rw [length_cons]
      omega

/-- The first end of a header block stays the first when bytes are appended. -/
theorem findTerm_append (y : Bytes) :
    ∀ {i : Nat}, findTerm l = some i → findTerm (l ++ y) = some i := by
  induction l with
  | nil => intro i h; cases h
  | cons b bs ih =>
    intro i h
    have hlen := findTerm_bound h
    have htake : (b :: bs ++ y).take 4 = (b :: bs).take 4 :=
      take_append_of_le_length (by omega)
    rw [cons_append] at htake ⊢
    simp only [findTerm, htake] at h ⊢
    split at h
    · rwa [if_pos ‹_›]
    · obtain ⟨j, hj, rfl⟩ := Option.map_eq_some_iff.mp h
      rw [if_neg ‹_›, ih hj]
      rfl

/-- A request that ends with its first header block's end has none before that. -/
theorem findTerm_none {request p rest : Bytes} (h : findTerm request = some (request.length - 4))
    (hp : request = p ++ rest) (hlt : p.length < request.length) : findTerm p = none := by
  cases hf : findTerm p with
  | none => rfl
  | some =>
    have hb := findTerm_bound hf
    have := findTerm_append rest hf
    rw [← hp, h] at this
    cases this
    omega

/-! ## The phases of a connection -/

/-- A request that upgrades the connection `c` to `c'`: a header block within the size limit
    that names a key, and that the handshake accepts. -/
structure ValidUpgrade (handshake : MsgConn → Bytes → MsgConn × Bool) (c : MsgConn)
    (request : Bytes) (c' : MsgConn) : Prop where
  short : request.length ≤ maxHeaderSize
  terminated : findTerm request = some (request.length - 4)
  key : ciContains request (ascii "sec-websocket-key") = true
  allocated : c.alloc.1 = true
  accepted : handshake c.alloc.2 (cString request) = (c', true)

/-- Part of the request has been read. -/
structure Waiting (c : MsgConn) (request client : Bytes) (s : Served) : Prop where
  msg : s.msg = c
  fate : s.fate = .keepOpen
  used : s.buf.bytes.length ≤ s.buf.capacity
  stream : s.buf.bytes ++ s.pending = request ++ client
  partly : s.buf.bytes.length < request.length

/-- The request has been answered; what was read behind it is in the buffer. -/
structure Opened (cfg : WsConfig) (c' : MsgConn) (client : Bytes) (s : Served) : Prop where
  msg : s.msg = openConn cfg c'
  fate : s.fate = .keepOpen
  bufOk : BufOk cfg.maxMessageSize s.buf
  stream : s.buf.bytes ++ s.pending = client

variable {data request client : Bytes} {c c' : MsgConn} {s : Served}

section Phases

variable {cfg : WsConfig} {handshake : MsgConn → Bytes → MsgConn × Bool}

variable (cfg) in
/-- An event before the upgrade: still waiting, or the upgrade happens. -/
theorem porticoInitialDispatch_waiting (hv : ValidUpgrade handshake c request c')
    (hw : Waiting c request client s) {turns : List Turn}
    (ht : ∀ t ∈ turns, t.arriving = true) :
    Waiting c request client (porticoInitialDispatch cfg handshake turns s) ∨
      Opened cfg c' client (porticoInitialDispatch cfg handshake turns s) := by
  obtain ⟨T, hpend, hbytes, hused, hok⟩ := readIntoRecv_spec turns ht s.buf s.pending hw.used
  rcases hr : readIntoRecv turns s.buf s.pending with ⟨buf, pending, ok⟩
  rw [hr] at hpend hbytes hused hok
  simp only at hpend hbytes hused hok
  subst hok
  have hstream : buf.bytes ++ pending = request ++ client := by
    rw [hbytes, append_assoc, ← hpend, hw.stream]
  unfold porticoInitialDispatch
  rw [hr]
  simp only
  by_cases hlen : buf.bytes.length < request.length
  · -- the request is not complete: its end has not been seen
    left
    obtain ⟨rest, hrest⟩ : ∃ rest, request = buf.bytes ++ rest :=
      (append_eq_append_iff.mp hstream).elim
        (fun ⟨a, ha, _⟩ => ⟨a, ha⟩)
        (fun ⟨a, ha, _⟩ => by
          have := congrArg length ha
          rw [length_append] at this
          omega)
    have hshort := hv.short
    rw [findTerm_none hv.terminated hrest hlen]
    rw [if_neg (by omega)]
    exact ⟨hw.msg, hw.fate, hused, hstream, hlen⟩
  · right
    obtain ⟨left, hleft⟩ : ∃ left, buf.bytes = request ++ left :=
      (append_eq_append_iff.mp hstream).elim
        (fun ⟨a, ha, _⟩ => ⟨[], by
          have := congrArg length ha
          rw [length_append] at this
          have ha0 : a = [] := length_eq_zero_iff.mp (by omega)
          rw [ha, ha0, append_nil, append_nil]⟩)
        (fun ⟨a, ha, _⟩ => ⟨a, ha⟩)
    have hbound := findTerm_bound hv.terminated
    have hfind : findTerm buf.bytes = some (request.length - 4) := by
      rw [hleft]; exact findTerm_append left hv.terminated
    have hhead : request.length - 4 + 4 = request.length := by omega
    rw [hfind]
    simp only
    rw [hhead, hleft, take_left, drop_left, if_pos hv.key, hw.msg]
    rcases ha : c.alloc with ⟨ok, c1⟩
    have hal := hv.allocated
    have hacc := hv.accepted
    rw [ha] at hal hacc
    subst hal
    simp only [hacc]
    have hl := congrArg length hleft
    rw [length_append] at hl
    refine ⟨rfl, hw.fate, ⟨?_, ?_, .inl ?_⟩, ?_⟩
    · simp only; omega
    · simp only; omega
    · simp only; omega
    · rw [hleft, append_assoc] at hstream
      exact append_cancel_left hstream

/-- The frame handler and the receive loop together, as a drain of frames. -/
abbrev framesOf (cfg : WsConfig) (hmax : cfg.maxMessageSize ≤ 2 ^ 31 - 15) :
    MsgConn → Bytes → MsgConn × Bytes × Option (Stop ProcResult) :=
  drainFrames cfg (processWebsocketFrame cfg) hmax

/-- Frames that neither close the connection nor fail it leave it open. -/
theorem framesOf_open {hmax : cfg.maxMessageSize ≤ 2 ^ 31 - 15} (ho : c.state = .open)
    (hd : (framesOf cfg hmax c data).2.2 = none) : (framesOf cfg hmax c data).1.state = .open := by
  refine drain_invariant _ (consumeFrame (processWebsocketFrame cfg))
    (I := fun c => c.state = .open) ?_ c data ho hd
  intro c1 frame c2 h1 hcons
  unfold consumeFrame at hcons
  rcases hp : processWebsocketFrame cfg c1 frame with ⟨c3, _ | _ | _⟩ <;> rw [hp] at hcons
  · cases hcons
    have hkeep : (processWebsocketFrame cfg c1 frame).1.state = c1.state :=
      processWebsocketFrame_state (by rw [hp])
    rw [hp] at hkeep
    exact hkeep.trans h1
  · cases hcons
  · cases hcons

/-- A call that drained the socket leaves the connection open and its buffer in order. -/
theorem handleWebsocketFrames_open (hmax : cfg.maxMessageSize ≤ 2 ^ 31 - 79) (turns : List Turn)
    (pending : Bytes) (ho : c.state = .open) (hb : BufOk cfg.maxMessageSize buf)
    (hd : (handleWebsocketFrames cfg (processWebsocketFrame cfg) turns c buf pending).outcome =
      .drained) :
    (handleWebsocketFrames cfg (processWebsocketFrame cfg) turns c buf pending).conn.state =
        .open ∧
      BufOk cfg.maxMessageSize
        (handleWebsocketFrames cfg (processWebsocketFrame cfg) turns c buf pending).buf := by
  have hmax15 : cfg.maxMessageSize ≤ 2 ^ 31 - 15 := by omega
  have hcall := handleWebsocketFrames_spec (processWebsocketFrame cfg) hmax15 hmax turns c
    pending hb
  obtain ⟨T, _, ⟨-, hq⟩ | ⟨_, hag, hok⟩⟩ := hcall
  · exact ⟨by rw [hq.conn]; exact ho, hq.bufOk⟩
  · refine ⟨?_, hok hd⟩
    rw [hag.conn]
    apply framesOf_open ho
    rcases hag.outcome with h | ⟨h, _⟩
    · rw [hd] at h
      exact exitOf_done.mp (LoopExit.outcome_drained h.symm)
    · rw [hd] at h; cases h

variable (handshake) in
/-- After the upgrade, events are calls of `handle_websocket_frames`. -/
theorem serveEvents_open (hmax : cfg.maxMessageSize ≤ 2 ^ 31 - 79) :
    ∀ (events : List (List Turn)) (s : Served), s.msg.state = .open → s.fate = .keepOpen →
      BufOk cfg.maxMessageSize s.buf →
      ∃ r, r = receiveEvents cfg (processWebsocketFrame cfg) events s.msg s.buf s.pending ∧
        serveEvents cfg handshake events s =
          ⟨r.conn, r.buf, r.pending, r.outcome.verdict.fate⟩ := by
  intro events
  induction events with
  | nil =>
    intro s _ hf _
    refine ⟨_, rfl, ?_⟩
    cases s
    subst hf
    rfl
  | cons turns events ih =>
    intro s ho hf hb
    refine ⟨_, rfl, ?_⟩
    simp only [serveEvents, if_pos hf, handleConnectionRead, ho, receiveEvents]
    have hopen := handleWebsocketFrames_open hmax turns s.pending ho hb
    generalize handleWebsocketFrames cfg (processWebsocketFrame cfg) turns s.msg s.buf s.pending
      = call at hopen ⊢
    by_cases hd : call.outcome = .drained
    · rw [if_pos hd]
      obtain ⟨ho', hb'⟩ := hopen hd
      obtain ⟨r, rfl, hr⟩ := ih ⟨call.conn, call.buf, call.pending, call.outcome.verdict.fate⟩ ho'
        (by rw [hd]; rfl) hb'
      exact hr
    · -- a call that did not drain ends the connection: no later event is served
      have hfate : call.outcome.verdict.fate ≠ .keepOpen := by
        cases ho' : call.outcome <;> first | exact absurd ho' hd | decide
      rw [if_neg hd]
      cases events with
      | nil => rfl
      | cons => simp only [serveEvents, if_neg hfate]

end Phases

/-! ## Every split of an upgrade and what follows it -/

/-- The connection at the end of the event that opened it, and the events that follow. -/
def serveUntilOpen (cfg : WsConfig) (handshake : MsgConn → Bytes → MsgConn × Bool) :
    List (List Turn) → Served → Option (Served × List (List Turn))
  | [], s => if s.msg.state = .open then some (s, []) else none
  | turns :: events, s =>
    if s.msg.state = .open then some (s, turns :: events)
    else if s.fate = .keepOpen then
      serveUntilOpen cfg handshake events (handleConnectionRead cfg handshake turns s)
    else none

/-- A complete frame stands at the front of the bytes. -/
def StartsWithFrame (cfg : WsConfig) (data : Bytes) : Prop :=
  ∃ n frame, frameFront cfg.simd cfg.maxMessageSize data = .item n frame

/-- A connection that has just been accepted, with the client's bytes on their way. -/
def Served.accepted (c : MsgConn) (capacity : Nat) (stream : Bytes) : Served :=
  ⟨c, ⟨[], capacity⟩, stream, .keepOpen⟩

/-- The connection stands as if the handshake had arrived alone and the frames behind it had
    been parsed as they came: the same callbacks and replies, and no complete frame is left in
    the buffer of a connection that stays open. -/
def AsIfSeparate (cfg : WsConfig) (c' : MsgConn) (client : Bytes) (r : Served) : Prop :=
  let alone := (parseBuffered cfg (processWebsocketFrame cfg) (openConn cfg c') client).1
  r.msg.callbacks = alone.callbacks ∧ r.msg.replies = alone.replies ∧
    (r.fate = .keepOpen → ¬ StartsWithFrame cfg r.buf.bytes)

/-- When the event that completed the handshake ends, some client byte is still to be read, or
    what was read behind the request does not begin with a complete frame. -/
def ReadsOnAfterUpgrade (cfg : WsConfig) (handshake : MsgConn → Bytes → MsgConn × Bool)
    (client : Bytes) (events : List (List Turn)) (s : Served) : Prop :=
  ∀ s' rest, serveUntilOpen cfg handshake events s = some (s', rest) →
    s'.pending ≠ [] ∨
      ¬ StartsWithFrame cfg (client.take (client.length - s'.pending.length))

variable {events : List (List Turn)}

theorem readsOn_of_pending {cfg : WsConfig} {handshake : MsgConn → Bytes → MsgConn × Bool}
    {client p : Bytes} {s : Served}
    (h : (serveUntilOpen cfg handshake events s).map (·.1.pending) = some p) (hp : p ≠ []) :
    ReadsOnAfterUpgrade cfg handshake client events s := by
  intro s' rest hs
  rw [hs, Option.map_some, Option.some.injEq] at h
  exact .inl (h ▸ hp)

section Upgrade

variable {cfg : WsConfig} {handshake : MsgConn → Bytes → MsgConn × Bool}

theorem openConn_state (cfg : WsConfig) (c : MsgConn) : (openConn cfg c).state = .open :=
  MsgConn.callback_state _ _ _

variable (cfg) in
/-- While bytes arrive, a connection is still waiting for its request at the end of the run,
    or was opened by one of the events. -/
theorem serveEvents_waiting (hst : c.state = .connecting)
    (hv : ValidUpgrade handshake c request c') :
    ∀ (events : List (List Turn)), (∀ turns ∈ events, ∀ t ∈ turns, t.arriving = true) →
      ∀ s, Waiting c request client s →
      Waiting c request client (serveEvents cfg handshake events s) ∨
      ∃ s' rest, serveUntilOpen cfg handshake events s = some (s', rest) ∧
        Opened cfg c' client s' ∧ (∀ turns ∈ rest, ∀ t ∈ turns, t.arriving = true) ∧
        serveEvents cfg handshake events s = serveEvents cfg handshake rest s' := by
  intro events
  induction events with
  | nil => intro _ s hw; exact .inl hw
  | cons turns events ih =>
    intro hev s hw
    have hstate : s.msg.state = .connecting := by rw [hw.msg]; exact hst
    have hclosed : ¬ s.msg.state = .open := by rw [hstate]; decide
    have hstep : handleConnectionRead cfg handshake turns s =
        porticoInitialDispatch cfg handshake turns s := by
      simp only [handleConnectionRead, hstate]
    have hrest : ∀ turns ∈ events, ∀ t ∈ turns, t.arriving = true :=
      fun t h => hev t (mem_cons_of_mem _ h)
    simp only [serveEvents, serveUntilOpen, if_pos hw.fate, if_neg hclosed, hstep]
    rcases porticoInitialDispatch_waiting cfg hv hw
      (hev turns (mem_cons_self ..)) with hw' | ho
    · exact ih hrest _ hw'
    · right
      refine ⟨_, events, ?_, ho, hrest, rfl⟩
      have hopen : (porticoInitialDispatch cfg handshake turns s).msg.state = .open := by
        rw [ho.msg]; exact openConn_state cfg c'
      cases events with
      | nil | cons => simp only [serveUntilOpen, if_pos hopen]

/-- Bytes that do not begin with a complete frame are not handed on. -/
theorem framesOf_noFrame (hmax : cfg.maxMessageSize ≤ 2 ^ 31 - 15) (c : MsgConn)
    (h : ¬ StartsWithFrame cfg data) : (framesOf cfg hmax c data).1 = c := by
  cases hf : frameFront cfg.simd cfg.maxMessageSize data with
  | more => rw [framesOf, drainFrames_more hmax hf]
  | bad => rw [framesOf, drainFrames_bad hmax hf]
  | item n frame => exact absurd ⟨n, frame, hf⟩ h

theorem fate_keepOpen {o : ReadOutcome} (h : o.verdict.fate = .keepOpen) : o = .drained := by
  cases o <;> first | rfl | exact absurd h (by decide)

variable {r : RecvResult MsgConn}

/-- A run that agrees with a drain of what it read, and has read everything or ended, agrees
    with a drain of everything. -/
theorem agrees_client (hmax : cfg.maxMessageSize ≤ 2 ^ 31 - 15)
    (hag : Agrees r (framesOf cfg hmax c data)) (hint : r.outcome.interrupted = false)
    (hdata : data ++ r.pending = client)
    (hend : r.pending = [] ∨ r.outcome.verdict.fate ≠ .keepOpen) :
    (framesOf cfg hmax c client).1 = r.conn := by
  rw [hag.conn, ← hdata]
  rcases hend with h | h
  · rw [h, append_nil]
  · have hout : r.outcome = (exitOf (framesOf cfg hmax c data).2.2).outcome := by
      rcases hag.outcome with ho | ⟨ho, _⟩
      · exact ho
      · rw [hint] at ho; cases ho
    cases hst : (framesOf cfg hmax c data).2.2 with
    | none => rw [hout, hst] at h; exact absurd rfl h
    | some => exact (drainFrames_append_of_stop hst r.pending).1

/-- A run that agrees with a drain and stays open has no complete frame in its buffer. -/
theorem agrees_noFrame (hmax : cfg.maxMessageSize ≤ 2 ^ 31 - 15)
    (hag : Agrees r (framesOf cfg hmax c data)) (hdr : r.outcome = .drained) :
    ¬ StartsWithFrame cfg r.buf.bytes := by
  have hnone : (framesOf cfg hmax c data).2.2 = none := by
    rcases hag.outcome with h | ⟨_, h⟩
    · rw [hdr] at h
      exact exitOf_done.mp (LoopExit.outcome_drained h.symm)
    · exact h
  have hmore := drain_rest_more (frameParser cfg.simd cfg.maxMessageSize hmax)
    (consumeFrame (processWebsocketFrame cfg)) c data _ _
    (show _ = ((framesOf cfg hmax c data).1, (framesOf cfg hmax c data).2.1, none) by
      rw [← hnone]; rfl)
  rw [hag.bytes hnone]
  rintro ⟨n, frame, hf⟩
  rw [show frameFront cfg.simd cfg.maxMessageSize _ = .more from hmore] at hf
  cases hf

/-- The run from the upgrade on, when every byte has been read or the connection has ended:
    it stands as if the handshake had come alone, unless everything came with the handshake and
    begins with a complete frame. -/
theorem serveEvents_opened_iff (hmax : cfg.maxMessageSize ≤ 2 ^ 31 - 79)
    (ho : Opened cfg c' client s) (hev : ∀ turns ∈ events, ∀ t ∈ turns, t.arriving = true)
    (hend : (serveEvents cfg handshake events s).pending = [] ∨
      (serveEvents cfg handshake events s).fate ≠ .keepOpen) :
    AsIfSeparate cfg c' client (serveEvents cfg handshake events s) ↔
      s.pending ≠ [] ∨ ¬ StartsWithFrame cfg s.buf.bytes := by
  have hmax15 : cfg.maxMessageSize ≤ 2 ^ 31 - 15 := by omega
  have hopen : s.msg.state = .open := by rw [ho.msg]; exact openConn_state cfg c'
  obtain ⟨r, hr, hserve⟩ := serveEvents_open handshake hmax events s hopen ho.fate ho.bufOk
  have hrun : ReadsAs cfg (processWebsocketFrame cfg) hmax15 s.msg s.buf s.pending _ :=
    receiveEvents_spec hmax events s.msg s.buf s.pending ho.bufOk
  have hint := receiveEvents_arriving cfg (processWebsocketFrame cfg) events hev s.msg s.buf
    s.pending
  rw [← hr] at hrun hint
  rw [hserve] at hend ⊢
  have halone := (parseBuffered_eq cfg (processWebsocketFrame cfg) hmax15 (openConn cfg c')
    client).1
  obtain ⟨T, hT, ⟨rfl, hq⟩ | ⟨hne, hag, _⟩⟩ := hrun
  · -- no byte was read after the handshake's event
    have hdr : r.outcome = .drained := by
      rcases hq.outcome with h | h
      · exact h
      · rw [hint] at h; cases h
    have hkeep : r.outcome.verdict.fate = .keepOpen := by rw [hdr]; rfl
    have hnone : s.pending = [] := by
      rcases hend with h | h
      · rw [← hq.pending]; exact h
      · exact absurd hkeep h
    have hall : s.buf.bytes = client := by
      have := ho.stream
      rwa [hnone, append_nil] at this
    constructor
    · rintro ⟨_, _, hrest⟩
      have := hrest hkeep
      rw [hq.bytes] at this
      exact .inr this
    · rintro (h | h)
      · exact absurd hnone h
      · have hsame := framesOf_noFrame hmax15 (openConn cfg c') (hall ▸ h)
        rw [AsIfSeparate, halone, hsame, hq.conn, ho.msg, hq.bytes]
        exact ⟨rfl, rfl, fun _ => h⟩
  · -- the first read after it parsed everything that was there
    have hpend : s.pending ≠ [] := by
      rw [hT]
      simp [hne]
    refine ⟨fun _ => .inl hpend, fun _ => ?_⟩
    have hclient : s.buf.bytes ++ T ++ r.pending = client := by
      rw [append_assoc, ← hT]
      exact ho.stream
    have hsame := agrees_client hmax15 hag hint hclient hend
    rw [ho.msg] at hsame
    rw [AsIfSeparate, halone, hsame]
    refine ⟨rfl, rfl, fun hkeep => ?_⟩
    exact agrees_noFrame hmax15 hag (fate_keepOpen hkeep)

/-- A valid upgrade followed by any client bytes, cut into reads and readability events in any
    way and read to the end, stands as if the handshake had come alone, exactly if the event
    that completed the handshake left bytes to be read later or nothing complete behind. -/
theorem upgrade_any_split_iff (cfg : WsConfig) (handshake : MsgConn → Bytes → MsgConn × Bool)
    (c c' : MsgConn) (request client : Bytes) (capacity : Nat) (events : List (List Turn))
    (hmax : cfg.maxMessageSize ≤ 2 ^ 31 - 79) (hst : c.state = .connecting)
    (hv : ValidUpgrade handshake c request c')
    (hev : ∀ turns ∈ events, ∀ t ∈ turns, t.arriving = true)
    (hend : let r := serveEvents cfg handshake events (.accepted c capacity (request ++ client))
      r.pending = [] ∨ r.fate ≠ .keepOpen) :
    AsIfSeparate cfg c' client
        (serveEvents cfg handshake events (.accepted c capacity (request ++ client))) ↔
      ReadsOnAfterUpgrade cfg handshake client events
        (.accepted c capacity (request ++ client)) := by
  have hpos := findTerm_bound hv.terminated
  have hw : Waiting c request client (.accepted c capacity (request ++ client)) :=
    ⟨rfl, rfl, Nat.zero_le _, rfl, by simp only [Served.accepted, length_nil]; omega⟩
  rcases serveEvents_waiting cfg hst hv events hev _ hw with hw' | ⟨s, rest, hopen, ho, hrest, heq⟩
  · -- a connection that still waits for its request has bytes to read
    exfalso
    have hstream := congrArg length hw'.stream
    rw [length_append, length_append] at hstream
    have hpart := hw'.partly
    rcases hend with h | h
    · have hnone := congrArg length h
      rw [length_nil] at hnone
      omega
    · exact h hw'.fate
  · simp only [heq] at hend ⊢
    have hlen : client.length - s.pending.length = s.buf.bytes.length := by
      rw [← ho.stream, length_append]
      omega
    have htake : client.take s.buf.bytes.length = s.buf.bytes := by
      rw [← ho.stream, take_left]
    have hiff := serveEvents_opened_iff hmax ho hrest hend
    refine ⟨fun h s' rest' hs => ?_, fun h => hiff.mpr ?_⟩
    · rw [hopen] at hs
      cases hs
      rw [hlen, htake]
      exact hiff.mp h
    · have := h s rest hopen
      rwa [hlen, htake] at this

end Upgrade

/-! ## A frame that comes with the handshake -/

/-- The upgrade request of RFC 6455's example, shortened. -/
def sampleRequest : Bytes :=
  ascii "GET / HTTP/1.1\r\nUpgrade: websocket\r\nConnection: Upgrade\r\n" ++
    ascii "Sec-WebSocket-Key: dGhlIHNhbXBsZSBub25jZQ==\r\nSec-WebSocket-Version: 13\r\n\r\n"

/-- The accept key of that request, and no application callback. -/
def sampleEnv : HandshakeEnv :=
  { generateAcceptKey := fun _ => some (ascii "s3pPLMBiTxaQ9kYGzzhZRbK+xOo="), onHandshake := none }

/-- A masked binary frame with the payload "hi". -/
def sampleFrame : Bytes := [0x82, 0x82, 1, 2, 3, 4, 0x69, 0x6B]

def sampleConn : MsgConn := { MsgConn.fresh with state := .connecting }

/-- The connection after the handshake of that request. -/
def sampleUpgraded : MsgConn := (wsProcessHandshake sampleEnv sampleConn sampleRequest).1

theorem sampleRequest_valid :
    ValidUpgrade (wsProcessHandshake sampleEnv) sampleConn sampleRequest sampleUpgraded :=
  ⟨by decide +kernel, by decide +kernel, by decide +kernel, by decide +kernel, by decide +kernel⟩

/-- The request alone in the first event, then the frame. -/
def separateEvents : List (List Turn) :=
  [[⟨true, .bytes (sampleRequest.length - 1)⟩, ⟨true, .again⟩], [⟨true, .bytes 7⟩]]

/-- Arriving so, the frame reaches the application. -/
theorem upgrade_then_frame :
    AsIfSeparate .small sampleUpgraded sampleFrame
      (serveEvents .small (wsProcessHandshake sampleEnv) separateEvents
        (.accepted sampleConn 16384 (sampleRequest ++ sampleFrame))) := by
  have hread : (serveEvents .small (wsProcessHandshake sampleEnv) separateEvents
      (.accepted sampleConn 16384 (sampleRequest ++ sampleFrame))).pending = [] := by
    decide +kernel
  have hlater : (serveUntilOpen .small (wsProcessHandshake sampleEnv) separateEvents
      (.accepted sampleConn 16384 (sampleRequest ++ sampleFrame))).map (·.1.pending) =
        some sampleFrame := by
    decide +kernel
  have hev : ∀ turns ∈ separateEvents, ∀ t ∈ turns, t.arriving = true := by
    simp [separateEvents, Turn.arriving]
  exact (upgrade_any_split_iff .small (wsProcessHandshake sampleEnv) sampleConn sampleUpgraded
    sampleRequest sampleFrame 16384 separateEvents (by decide) rfl sampleRequest_valid hev
    (.inl hread)).mpr (readsOn_of_pending hlater (by decide))

/-- The request and the frame in one read: everything has been read, and the frame sits in the
    buffer of an open connection with no callback made. -/
theorem upgrade_with_frame_strands_it :
    let r := serveEvents .small (wsProcessHandshake sampleEnv) [[⟨true, .bytes 1000⟩]]
      (.accepted sampleConn 16384 (sampleRequest ++ sampleFrame))
    ValidUpgrade (wsProcessHandshake sampleEnv) sampleConn sampleRequest sampleUpgraded ∧
      (r.pending = [] ∧ r.fate = .keepOpen ∧ r.buf.bytes = sampleFrame ∧
        r.msg.callbacks = [.onConnect]) ∧
      ¬ AsIfSeparate .small sampleUpgraded sampleFrame r := by
  intro r
  have hrun : r.pending = [] ∧ r.fate = .keepOpen ∧ r.buf.bytes = sampleFrame ∧
      r.msg.callbacks = [.onConnect] := by
    decide +kernel
  have halone : (parseBuffered .small (processWebsocketFrame .small)
      (openConn .small sampleUpgraded) sampleFrame).1.callbacks ≠ [.onConnect] := by
    decide +kernel
  refine ⟨sampleRequest_valid, hrun, ?_⟩
  rintro ⟨hcb, _, _⟩
  exact halone (hcb.symm.trans hrun.2.2.2)

end Portico.Ws
