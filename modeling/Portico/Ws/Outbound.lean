/-
  The outbound side of an open WebSocket connection: the buffered path of data frames
  (`portico_conn_send`, `conn_out_append`, `conn_out_drain`, `portico_conn_on_writable` of
  src/http/connection.c, called by `ws_buffered_data_send`) and the control frames, which
  `ws_send_*_frame` writes straight to the socket.

  Model. `OutConn` is the connection's output state. Two fields are history: `wire` is what the
  socket has accepted, `issued` the encoded frames in the order in which they were handed to
  one of the two paths. Every socket write takes its answer from the operation's label: some of
  the bytes, EAGAIN, or an error; after `shutdown(2)` every write fails. A frame that cannot be
  encoded for lack of memory is not issued. Arming EPOLLOUT is only its success or failure.

  Proved: `outbound_wire_prefix`, in every run in which control frames meet an empty backlog
  and application pings and pongs are taken whole, the wire is a prefix of the issued frames.
  Without the first condition a control frame lands inside a data frame
  (`ping_inside_data_frame`).
-/
import Portico.Lib.Machine
import Portico.Ws.Message

namespace Portico.Ws

open Portico.Lib List

/-! ## The output buffer -/

/-- `out_buffer[0 .. out_used)`, `out_sent` and `out_capacity`. -/
structure OutBuffer where
  bytes : Bytes
  sent : Nat
  capacity : Nat
  sent_le : sent ≤ bytes.length
  deriving DecidableEq, Repr

namespace OutBuffer

def empty : OutBuffer := ⟨[], 0, 0, Nat.le_refl 0⟩

/-- What has been queued and not been accepted yet. -/
def unsent (b : OutBuffer) : Bytes := b.bytes.drop b.sent

/-- `out_used > out_sent`. -/
def backlog (b : OutBuffer) : Bool := b.sent < b.bytes.length

/-- The socket has accepted `n` more bytes. -/
def advance (b : OutBuffer) (n : Nat) : OutBuffer :=
  { b with sent := min (b.sent + n) b.bytes.length, sent_le := Nat.min_le_right _ _ }

/-- `out_used = out_sent = 0`. -/
def clear (b : OutBuffer) : OutBuffer := ⟨[], 0, b.capacity, Nat.le_refl 0⟩

/-- Move the unsent bytes to the front. -/
def reclaim (b : OutBuffer) : OutBuffer := ⟨b.unsent, 0, b.capacity, Nat.zero_le _⟩

def push (b : OutBuffer) (data : Bytes) (capacity : Nat) : OutBuffer :=
  { b with
    bytes := b.bytes ++ data
    capacity := capacity
    sent_le := by rw [length_append]; exact Nat.le_add_right_of_le b.sent_le }

theorem backlog_iff (b : OutBuffer) : b.backlog = true ↔ b.unsent ≠ [] := by
  unfold backlog unsent
  rw [decide_eq_true_iff, Ne, drop_eq_nil_iff]
  omega

theorem unsent_of_not_backlog {b : OutBuffer} (h : b.backlog = false) : b.unsent = [] := by
  by_contra hne
  rw [(backlog_iff b).mpr hne] at h
  exact absurd h (by decide)

@[simp] theorem unsent_clear (b : OutBuffer) : b.clear.unsent = [] := rfl

@[simp] theorem unsent_reclaim (b : OutBuffer) : b.reclaim.unsent = b.unsent := rfl

@[simp] theorem unsent_push (b : OutBuffer) (data : Bytes) (capacity : Nat) :
    (b.push data capacity).unsent = b.unsent ++ data :=
  drop_append_of_le_length b.sent_le

theorem unsent_advance (b : OutBuffer) {n : Nat} (h : n ≤ b.unsent.length) :
    (b.advance n).unsent = b.unsent.drop n := by
  have hle := b.sent_le
  have hn : b.sent + n ≤ b.bytes.length := by
    unfold unsent at h
    rw [length_drop] at h
    omega
  show b.bytes.drop (min (b.sent + n) b.bytes.length) = (b.bytes.drop b.sent).drop n
  rw [Nat.min_eq_left hn, drop_drop]

end OutBuffer

/-! ## The connection and its socket -/

structure OutConn where
  state : WsState
  out : OutBuffer
  shut : Bool
  closed : Bool
  wire : Bytes
  issued : List Bytes
  deriving DecidableEq, Repr

/-- A connection that has just been opened. -/
def OutConn.opened : OutConn :=
  { state := .open, out := .empty, shut := false, closed := false, wire := [], issued := [] }

/-- What the socket is ready for: up to `n + 1` bytes, nothing yet, or never again. -/
inductive WriteAnswer where
  | takes (n : Nat)
  | again
  | fail
  deriving DecidableEq, Repr

/-- What a write returned. -/
inductive WriteResult where
  | took (n : Nat)
  | again
  | fail
  deriving DecidableEq, Repr

namespace OutConn

/-- `send(2)` on the connection's socket. -/
def socketWrite (c : OutConn) (data : Bytes) (a : WriteAnswer) : OutConn × WriteResult :=
  if c.shut then (c, .fail)
  else match a with
    | .takes n =>
      ({ c with wire := c.wire ++ data.take (n + 1) }, .took (min (n + 1) data.length))
    | .again => (c, .again)
    | .fail => (c, .fail)

/-- A frame is handed to one of the two write paths. -/
def issue (c : OutConn) (frame : Bytes) : OutConn := { c with issued := c.issued ++ [frame] }

/-- One round of the loop of `conn_out_drain`. -/
def drainOnce (c : OutConn) (a : WriteAnswer) : OutConn × Option Bool :=
  if c.out.backlog then
    match c.socketWrite c.out.unsent a with
    | (c, .took n) => ({ c with out := c.out.advance n }, none)
    | (c, .again) => (c, some true)
    | (c, .fail) => (c, some false)
  else ({ c with out := c.out.clear }, some true)

/-- `true` stands for 0: progress, or the socket would block. -/
def connOutDrain : List WriteAnswer → OutConn → OutConn × Bool
  | [], c =>
    let (c, done) := c.drainOnce .again
    (c, done.getD true)
  | a :: answers, c =>
    match c.drainOnce a with
    | (c, some ok) => (c, ok)
    | (c, none) => connOutDrain answers c

/-- `PORTICO_OUT_MAX`. -/
def outMax : Nat := 4 * 1024 * 1024

/-- Double `nc` until it is at least `need` (`need` rounds are enough). -/
def doubleUntil (need : Nat) : Nat → Nat → Nat
  | 0, nc => nc
  | k + 1, nc => if nc < need then doubleUntil need k (nc * 2) else nc

def connOutAppend (reallocOk : Bool) (c : OutConn) (buf : Bytes) : OutConn × Bool :=
  let out := if 0 < c.out.sent then c.out.reclaim else c.out
  let c := { c with out := out }
  let need := out.bytes.length + buf.length
  if outMax < need then (c, false)
  else if out.capacity < need then
    let nc := doubleUntil need need (if out.capacity = 0 then 8192 else out.capacity)
    if reallocOk then ({ c with out := out.push buf (min nc outMax) }, true) else (c, false)
  else ({ c with out := out.push buf out.capacity }, true)

/-- The EAGAIN branch of `portico_conn_send`: queue the rest and arm EPOLLOUT. -/
def sendBlocked (reallocOk epollOk : Bool) (c : OutConn) (rest : Bytes) : OutConn × Bool :=
  match connOutAppend reallocOk c rest with
  | (c, false) => (c, false)
  | (c, true) => (c, epollOk)

/-- The inline loop of `portico_conn_send`. -/
def sendLoop (reallocOk epollOk : Bool) : List WriteAnswer → OutConn → Bytes → OutConn × Bool
  | [], c, rest =>
    if rest = [] then (c, true)
    else if c.shut then (c, false)
    else sendBlocked reallocOk epollOk c rest
  | a :: answers, c, rest =>
    if rest = [] then (c, true)
    else match c.socketWrite rest a with
      | (c, .took n) => sendLoop reallocOk epollOk answers c (rest.drop n)
      | (c, .again) => sendBlocked reallocOk epollOk c rest
      | (c, .fail) => (c, false)

def porticoConnSend (answers : List WriteAnswer) (reallocOk epollOk : Bool) (c : OutConn)
    (buf : Bytes) : OutConn × Bool :=
  if c.out.backlog then connOutAppend reallocOk c buf
  else sendLoop reallocOk epollOk answers c buf

def wsBufferedDataSend (answers : List WriteAnswer) (reallocOk epollOk : Bool) (c : OutConn)
    (opcode : UInt8) (payload : Bytes) : OutConn :=
  if c.state ≠ .open then c
  else
    let frame := wsEncodeFrame opcode payload
    match porticoConnSend answers reallocOk epollOk (c.issue frame) frame with
    | (c, true) => c
    | (c, false) => { c with state := .closing, shut := true }

/-- The body the control-frame senders share: one write, and whether it took the frame whole. -/
def sendControl (c : OutConn) (frame : Bytes) (a : WriteAnswer) : OutConn × Bool :=
  match (c.issue frame).socketWrite frame a with
  | (c, .took n) => (c, n = frame.length)
  | (c, _) => (c, false)

def wsSendPingFrame (c : OutConn) (data : Bytes) (a : WriteAnswer) : OutConn × Bool :=
  c.sendControl (wsEncodeFrame opPing data) a

def wsSendPongFrame (c : OutConn) (data : Bytes) (a : WriteAnswer) : OutConn × Bool :=
  c.sendControl (wsEncodeFrame opPong data) a

def closePayload (code : Nat) (reason : Bytes) : Bytes :=
  if code = 0 then [] else UInt8.ofNat (code / 256) :: UInt8.ofNat code :: reason

def wsSendCloseFrame (c : OutConn) (code : Nat) (reason : Bytes) (a : WriteAnswer) :
    OutConn × Bool :=
  c.sendControl (wsEncodeFrame opClose (closePayload code reason)) a

/-- `close_connection`. -/
def teardown (c : OutConn) : OutConn := { c with closed := true }

end OutConn

open OutConn

/-- The operations that write to an open connection. -/
inductive OutOp where
  | data (text : Bool) (payload : Bytes) (answers : List WriteAnswer) (reallocOk epollOk : Bool)
  | pongReply (payload : Bytes) (a : WriteAnswer)
  | apiPing (payload : Bytes) (a : WriteAnswer)
  | apiPong (payload : Bytes) (a : WriteAnswer)
  | reaperPing (a : WriteAnswer)
  | closeReply (code : Nat) (a : WriteAnswer)
  | apiClose (code : Nat) (reason : Bytes) (a : WriteAnswer)
  | writable (answers : List WriteAnswer)
  | teardown
  deriving DecidableEq, Repr

/-- One operation on the event thread; none is possible on a closed connection, and replies and
    reaper pings need an open one. -/
def outStep (c : OutConn) (op : OutOp) : Option OutConn :=
  if c.closed then none
  else match op with
    | .data text payload answers reallocOk epollOk =>
      some (wsBufferedDataSend answers reallocOk epollOk c (if text then opText else opBinary)
        payload)
    | .pongReply payload a =>
      if c.state = .open then
        match c.wsSendPongFrame payload a with
        | (c, true) => some c
        | (c, false) => some c.teardown
      else none
    | .apiPing payload a => some (c.wsSendPingFrame payload a).1
    | .apiPong payload a => some (c.wsSendPongFrame payload a).1
    | .reaperPing a =>
      if c.state = .open then
        match c.wsSendPingFrame [] a with
        | (c, true) => some c
        | (c, false) => some c.teardown
      else none
    | .closeReply code a =>
      if c.state = .open then
        some (wsSendCloseFrame { c with state := .closing } code [] a).1.teardown
      else none
    | .apiClose code reason a => some (c.wsSendCloseFrame code reason a).1.teardown
    | .writable answers =>
      match connOutDrain answers c with
      | (c, true) => some c
      | (c, false) => some c.teardown
    | .teardown => some c.teardown

/-! ## What each write does to wire and queue -/

/-- The parts of a connection that a write leaves alone. -/
structure SameRest (c c' : OutConn) : Prop where
  state : c'.state = c.state
  shut : c'.shut = c.shut
  closed : c'.closed = c.closed
  issued : c'.issued = c.issued

theorem SameRest.refl (c : OutConn) : SameRest c c := ⟨rfl, rfl, rfl, rfl⟩

variable {c c' : OutConn} {part frame : Bytes} {ok : Bool} {a : WriteAnswer}

theorem SameRest.trans {a b : OutConn} (h : SameRest a b) (h' : SameRest b c) : SameRest a c :=
  ⟨h'.state.trans h.state, h'.shut.trans h.shut, h'.closed.trans h.closed,
    h'.issued.trans h.issued⟩

/-- A write appends to the wire what it reports as taken, and nothing on a shut socket. -/
theorem socketWrite_spec (c : OutConn) (data : Bytes) (a : WriteAnswer) :
    SameRest c (c.socketWrite data a).1 ∧ (c.socketWrite data a).1.out = c.out ∧
      match (c.socketWrite data a).2 with
      | .took n => c.shut = false ∧ n ≤ data.length ∧
          (c.socketWrite data a).1.wire = c.wire ++ data.take n
      | .again => c.shut = false ∧ (c.socketWrite data a).1.wire = c.wire
      | .fail => (c.socketWrite data a).1.wire = c.wire := by
  unfold socketWrite
  cases hs : c.shut with
  | true => exact ⟨.refl c, rfl, rfl⟩
  | false =>
    cases a with
    | takes n =>
      refine ⟨⟨rfl, hs.symm ▸ rfl, rfl, rfl⟩, rfl, rfl, Nat.min_le_right _ _, ?_⟩
      show c.wire ++ data.take (n + 1) = c.wire ++ data.take (min (n + 1) data.length)
      rw [take_eq_take_min]
    | again => exact ⟨.refl c, rfl, rfl, rfl⟩
    | fail => exact ⟨.refl c, rfl, rfl⟩

/-- Appending queues the bytes behind the backlog, or changes nothing but the buffer's layout. -/
theorem connOutAppend_spec (reallocOk : Bool) (c : OutConn) (buf : Bytes) :
    SameRest c (connOutAppend reallocOk c buf).1 ∧
      (connOutAppend reallocOk c buf).1.wire = c.wire ∧
      (connOutAppend reallocOk c buf).1.out.unsent =
        if (connOutAppend reallocOk c buf).2 then c.out.unsent ++ buf else c.out.unsent := by
  have hout : (if 0 < c.out.sent then c.out.reclaim else c.out).unsent = c.out.unsent := by
    split
    · exact OutBuffer.unsent_reclaim _
    · rfl
  simp only [connOutAppend]
  generalize (if 0 < c.out.sent then c.out.reclaim else c.out) = out at hout ⊢
  have hpush : ∀ capacity, (out.push buf capacity).unsent = c.out.unsent ++ buf := by
    intro capacity
    rw [OutBuffer.unsent_push, hout]
  by_cases hmax : outMax < out.bytes.length + buf.length
  · rw [if_pos hmax]
    exact ⟨⟨rfl, rfl, rfl, rfl⟩, rfl, hout⟩
  rw [if_neg hmax]
  by_cases hgrow : out.capacity < out.bytes.length + buf.length
  · rw [if_pos hgrow]
    cases reallocOk with
    | true => exact ⟨⟨rfl, rfl, rfl, rfl⟩, rfl, hpush _⟩
    | false => exact ⟨⟨rfl, rfl, rfl, rfl⟩, rfl, hout⟩
  · rw [if_neg hgrow]
    exact ⟨⟨rfl, rfl, rfl, rfl⟩, rfl, hpush _⟩

/-- The operation adds `part` to the stream, which is the wire with the queue behind it, and
    changes nothing else; nothing is written to a shut socket. -/
structure Adds (c c' : OutConn) (part : Bytes) : Prop where
  same : SameRest c c'
  grows : ∃ written, c'.wire = c.wire ++ written ∧ written ++ c'.out.unsent = c.out.unsent ++ part
  quiet : c.shut = true → c'.wire = c.wire

theorem Adds.trans {c1 c2 : OutConn} {part' : Bytes} (h : Adds c c1 part) (h' : Adds c1 c2 part') :
    Adds c c2 (part ++ part') := by
  obtain ⟨w, hw, hout⟩ := h.grows
  obtain ⟨w', hw', hout'⟩ := h'.grows
  refine ⟨h.same.trans h'.same, ⟨w ++ w', by rw [hw', hw, append_assoc], ?_⟩,
    fun hs => (h'.quiet (h.same.shut.trans hs)).trans (h.quiet hs)⟩
  rw [append_assoc, hout', ← append_assoc, hout, append_assoc]

/-- Nothing was written. -/
theorem Adds.unwritten (hsame : SameRest c c') (hwire : c'.wire = c.wire)
    (hout : c'.out.unsent = c.out.unsent ++ part) : Adds c c' part :=
  ⟨hsame, ⟨[], by rw [hwire, append_nil], hout⟩, fun _ => hwire⟩

theorem Adds.refl (c : OutConn) : Adds c c [] :=
  .unwritten (.refl c) rfl (append_nil _).symm

theorem drainOnce_adds (c : OutConn) (a : WriteAnswer) : Adds c (c.drainOnce a).1 [] := by
  unfold drainOnce
  cases hb : c.out.backlog with
  | false =>
    refine .unwritten ⟨rfl, rfl, rfl, rfl⟩ rfl ?_
    show c.out.clear.unsent = c.out.unsent ++ []
    rw [OutBuffer.unsent_clear, OutBuffer.unsent_of_not_backlog hb]
    rfl
  | true =>
    obtain ⟨hsame, hout, hw⟩ := socketWrite_spec c c.out.unsent a
    rw [if_pos rfl]
    rcases hr : c.socketWrite c.out.unsent a with ⟨c1, n | _ | _⟩ <;>
      rw [hr] at hsame hout hw <;> simp only at hsame hout hw
    · obtain ⟨hshut, hle, hwire⟩ := hw
      refine ⟨⟨hsame.state, hsame.shut, hsame.closed, hsame.issued⟩,
        ⟨c.out.unsent.take n, hwire, ?_⟩, fun h => ?_⟩
      · show _ ++ (c1.out.advance n).unsent = _
        rw [hout, OutBuffer.unsent_advance c.out hle, take_append_drop, append_nil]
      · exact absurd (hshut.symm.trans h) (by decide)
    · exact .unwritten hsame hw.2 (by rw [hout, append_nil])
    · exact .unwritten hsame hw (by rw [hout, append_nil])

theorem connOutDrain_adds :
    ∀ (answers : List WriteAnswer) (c : OutConn), Adds c (connOutDrain answers c).1 [] := by
  intro answers
  induction answers with
  | nil => intro c; exact drainOnce_adds c .again
  | cons a answers ih =>
    intro c
    have hone := drainOnce_adds c a
    unfold connOutDrain
    rcases hr : c.drainOnce a with ⟨c1, _ | ok⟩ <;> rw [hr] at hone
    · exact hone.trans (ih c1)
    · exact hone

/-- A send adds a first part of the bytes, and on success all of them. -/
def AddsPart (c c' : OutConn) (rest : Bytes) (ok : Bool) : Prop :=
  ∃ part, Adds c c' part ∧ part <+: rest ∧ (ok = true → part = rest)

theorem AddsPart.nothing (hsame : SameRest c c') (hwire : c'.wire = c.wire)
    (hout : c'.out.unsent = c.out.unsent) (rest : Bytes) : AddsPart c c' rest false :=
  ⟨[], .unwritten hsame hwire (by rw [hout, append_nil]), nil_prefix,
    fun h => absurd h (by decide)⟩

/-- A write in front of a send whose bytes, with what is left, are the bytes to send. -/
theorem AddsPart.after {c1 : OutConn} {first rest : Bytes} (h : Adds c c1 first)
    (h' : AddsPart c1 c' rest ok) : AddsPart c c' (first ++ rest) ok := by
  obtain ⟨part, hadds, hpre, hok⟩ := h'
  exact ⟨first ++ part, h.trans hadds, (prefix_append_right_inj first).mpr hpre,
    fun h => by rw [hok h]⟩

theorem connOutAppend_adds (reallocOk : Bool) (c : OutConn) (buf : Bytes) :
    AddsPart c (connOutAppend reallocOk c buf).1 buf (connOutAppend reallocOk c buf).2 := by
  obtain ⟨hsame, hwire, hout⟩ := connOutAppend_spec reallocOk c buf
  cases hok : (connOutAppend reallocOk c buf).2 with
  | true =>
    rw [hok, if_pos rfl] at hout
    exact ⟨buf, .unwritten hsame hwire hout, prefix_rfl, fun _ => rfl⟩
  | false =>
    rw [hok, if_neg (by decide)] at hout
    exact .nothing hsame hwire hout buf

theorem sendBlocked_adds (reallocOk epollOk : Bool) (c : OutConn) (rest : Bytes) :
    AddsPart c (sendBlocked reallocOk epollOk c rest).1 rest
      (sendBlocked reallocOk epollOk c rest).2 := by
  have h := connOutAppend_adds reallocOk c rest
  unfold sendBlocked
  rcases hr : connOutAppend reallocOk c rest with ⟨c1, _ | _⟩ <;> rw [hr] at h
  · exact h
  · -- queued whole, whether or not EPOLLOUT could be armed
    obtain ⟨part, hadds, hpre, hok⟩ := h
    exact ⟨part, hadds, hpre, fun _ => hok rfl⟩

theorem sendLoop_adds (reallocOk epollOk : Bool) :
    ∀ (answers : List WriteAnswer) (c : OutConn) (rest : Bytes), c.out.unsent = [] →
      AddsPart c (sendLoop reallocOk epollOk answers c rest).1 rest
        (sendLoop reallocOk epollOk answers c rest).2 := by
  -- everything has been written: nothing left to send
  have hdone : ∀ c : OutConn, AddsPart c c [] true := fun c =>
    ⟨[], .refl c, prefix_rfl, fun _ => rfl⟩
  intro answers
  induction answers with
  | nil =>
    intro c rest _
    unfold sendLoop
    by_cases hr : rest = []
    · subst hr
      exact hdone c
    rw [if_neg hr]
    cases c.shut with
    | true => exact .nothing (.refl c) rfl rfl rest
    | false => exact sendBlocked_adds reallocOk epollOk c rest
  | cons a answers ih =>
    intro c rest hq
    unfold sendLoop
    by_cases hr : rest = []
    · subst hr
      exact hdone c
    rw [if_neg hr]
    obtain ⟨hsame, hout, hw⟩ := socketWrite_spec c rest a
    rcases hres : c.socketWrite rest a with ⟨c1, n | _ | _⟩ <;>
      rw [hres] at hsame hout hw <;> simp only at hsame hout hw ⊢
    · -- part of it went out: the loop goes on with the remainder
      obtain ⟨hshut, _, hwire⟩ := hw
      have hq1 : c1.out.unsent = [] := hout ▸ hq
      have hfirst : Adds c c1 (rest.take n) :=
        ⟨hsame, ⟨rest.take n, hwire, by rw [hq, hq1, append_nil, nil_append]⟩,
          fun h => absurd (hshut.symm.trans h) (by decide)⟩
      have hsend := AddsPart.after hfirst (ih c1 (rest.drop n) hq1)
      rwa [take_append_drop] at hsend
    · have hsend : Adds c c1 [] := .unwritten hsame hw.2 (by rw [hout, append_nil])
      exact .after hsend (sendBlocked_adds reallocOk epollOk c1 rest)
    · exact .nothing hsame hw (by rw [hout]) rest

theorem porticoConnSend_adds (answers : List WriteAnswer) (reallocOk epollOk : Bool)
    (c : OutConn) (buf : Bytes) :
    AddsPart c (porticoConnSend answers reallocOk epollOk c buf).1 buf
      (porticoConnSend answers reallocOk epollOk c buf).2 := by
  unfold porticoConnSend
  cases hb : c.out.backlog with
  | true => exact connOutAppend_adds reallocOk c buf
  | false =>
    exact sendLoop_adds reallocOk epollOk answers c buf (OutBuffer.unsent_of_not_backlog hb)

theorem Adds.stream_eq (h : Adds c c' part) :
    c'.wire ++ c'.out.unsent = c.wire ++ c.out.unsent ++ part := by
  obtain ⟨w, hw, hout⟩ := h.grows
  rw [hw, append_assoc, hout, append_assoc]

/-! ## The invariant -/

/-- While the connection can still write, wire and queue together are the issued frames; the
    wire alone is always a first part of them. -/
structure OutInv (c : OutConn) : Prop where
  live : c.closed = false → c.shut = false → c.wire ++ c.out.unsent = c.issued.flatten
  wire : c.wire <+: c.issued.flatten

theorem OutInv.teardown (h : c.wire <+: c.issued.flatten) : OutInv c.teardown :=
  ⟨fun hc => absurd hc (by simp [OutConn.teardown]), h⟩

theorem OutInv.issue_wire (h : OutInv c) (frame : Bytes) :
    c.wire <+: (c.issued ++ [frame]).flatten := by
  rw [flatten_append]
  exact h.wire.trans (prefix_append _ _)

/-- An operation that adds a first part of the last frame keeps the wire a first part of what was
    issued; if it adds the whole frame, it keeps the invariant. -/
theorem Adds.outInv (h : Adds c c' part) (hpre : part <+: frame)
    (hlive : c.shut = false → c.issued.flatten = c.wire ++ c.out.unsent ++ frame)
    (hwire : c.wire <+: c.issued.flatten) :
    c'.wire <+: c'.issued.flatten ∧ (c.shut = true ∨ part = frame → OutInv c') := by
  have hfirst : c'.wire <+: c'.issued.flatten := by
    rw [h.same.issued]
    cases hs : c.shut with
    | true =>
      rw [h.quiet hs]
      exact hwire
    | false =>
      have hstream := prefix_append c'.wire c'.out.unsent
      rw [h.stream_eq] at hstream
      rw [hlive hs]
      exact hstream.trans ((prefix_append_right_inj _).mpr hpre)
  refine ⟨hfirst, fun hor => ⟨fun _ hs => ?_, hfirst⟩⟩
  rw [h.same.shut] at hs
  rcases hor with hs' | rfl
  · exact absurd (hs.symm.trans hs') (by decide)
  · rw [h.stream_eq, h.same.issued, hlive hs]

theorem OutInv.issue (h : OutInv c) (hc : c.closed = false) (hadds : Adds (c.issue frame) c' part)
    (hpre : part <+: frame) :
    c'.wire <+: c'.issued.flatten ∧ (c.shut = true ∨ part = frame → OutInv c') := by
  refine hadds.outInv hpre (fun hs => ?_) (h.issue_wire frame)
  show (c.issued ++ [frame]).flatten = c.wire ++ c.out.unsent ++ frame
  rw [flatten_append, ← h.live hc hs]
  simp

theorem OutInv.data (h : OutInv c) (hc : c.closed = false) (answers : List WriteAnswer)
    (reallocOk epollOk : Bool) (opcode : UInt8) (payload : Bytes) :
    OutInv (wsBufferedDataSend answers reallocOk epollOk c opcode payload) := by
  unfold wsBufferedDataSend
  by_cases hst : c.state = .open
  swap
  · rw [if_pos hst]
    exact h
  rw [if_neg (fun hne => hne hst)]
  simp only
  generalize wsEncodeFrame opcode payload = frame
  obtain ⟨part, hadds, hpre, hok⟩ :=
    porticoConnSend_adds answers reallocOk epollOk (c.issue frame) frame
  obtain ⟨hwire, hinv⟩ := h.issue hc hadds hpre
  rcases hr : porticoConnSend answers reallocOk epollOk (c.issue frame) frame with ⟨c1, _ | _⟩ <;>
    rw [hr] at hwire hinv hok
  · exact ⟨fun _ hshut => absurd hshut (by simp), hwire⟩
  · exact hinv (.inr (hok rfl))

/-- A control frame written to an empty queue, to a shut socket, or taken by no byte. -/
theorem sendControl_adds (frame : Bytes) (a : WriteAnswer)
    (hclean : c.shut = true ∨ c.out.backlog = false ∨ ∀ n, a ≠ .takes n) :
    AddsPart (c.issue frame) (c.sendControl frame a).1 frame (c.sendControl frame a).2 := by
  obtain ⟨hsame, hout, hw⟩ := socketWrite_spec (c.issue frame) frame a
  unfold sendControl
  rcases hr : (c.issue frame).socketWrite frame a with ⟨c1, n | _ | _⟩ <;>
    rw [hr] at hsame hout hw <;> simp only at hsame hout hw ⊢
  · obtain ⟨hshut, -, hwire⟩ := hw
    have hq : (c.issue frame).out.unsent = [] := by
      rcases hclean with hs | hb | hn
      · exact absurd (hshut.symm.trans hs) (by decide)
      · exact OutBuffer.unsent_of_not_backlog hb
      · -- a write that took bytes was ready to take some
        exfalso
        cases a with
        | takes m => exact hn m rfl
        | again | fail => simp [socketWrite, hshut] at hr
    refine ⟨frame.take n, ⟨hsame, ⟨_, hwire, ?_⟩, fun hs => ?_⟩, List.take_prefix _ _, fun hn => ?_⟩
    · rw [hout, hq, append_nil, nil_append]
    · exact absurd (hshut.symm.trans hs) (by decide)
    · rw [of_decide_eq_true hn, take_length]
  · exact .nothing hsame hw.2 (by rw [hout]) frame
  · exact .nothing hsame hw (by rw [hout]) frame

theorem OutInv.control (h : OutInv c) (hc : c.closed = false) (frame : Bytes) (a : WriteAnswer)
    (hclean : c.shut = true ∨ c.out.backlog = false ∨ ∀ n, a ≠ .takes n) :
    (c.sendControl frame a).1.wire <+: (c.sendControl frame a).1.issued.flatten ∧
      (c.shut = true ∨ (c.sendControl frame a).2 = true → OutInv (c.sendControl frame a).1) := by
  obtain ⟨part, hadds, hpre, hok⟩ := sendControl_adds frame a hclean
  exact (h.issue hc hadds hpre).imp id fun hinv hor => hinv (hor.imp id hok)

/-! ## Runs -/

/-- The socket is ready to take the whole frame. -/
def WriteAnswer.takesWhole (a : WriteAnswer) (frame : Bytes) : Prop :=
  match a with
  | .takes n => frame.length ≤ n + 1
  | .again => False
  | .fail => False

/-- The condition on a step: a control frame is written with no backlog, or to a socket that is
    shut; where the connection is torn down unless the frame is taken whole, also by a write
    that takes no byte. An application's ping or pong is taken whole. -/
def CleanOut (c : OutConn) : OutOp → Prop
  | .data _ _ _ _ _ => True
  | .writable _ => True
  | .teardown => True
  | .pongReply _ a => c.shut = true ∨ c.out.backlog = false ∨ ∀ n, a ≠ .takes n
  | .reaperPing a => c.shut = true ∨ c.out.backlog = false ∨ ∀ n, a ≠ .takes n
  | .closeReply _ a => c.shut = true ∨ c.out.backlog = false ∨ ∀ n, a ≠ .takes n
  | .apiClose _ _ a => c.shut = true ∨ c.out.backlog = false ∨ ∀ n, a ≠ .takes n
  | .apiPing payload a =>
    c.shut = true ∨ c.out.backlog = false ∧ a.takesWhole (wsEncodeFrame opPing payload)
  | .apiPong payload a =>
    c.shut = true ∨ c.out.backlog = false ∧ a.takesWhole (wsEncodeFrame opPong payload)

theorem sendControl_whole (hs : c.shut = false) (h : a.takesWhole frame) :
    (c.sendControl frame a).2 = true := by
  cases a with
  | takes n =>
    have hle : frame.length ≤ n + 1 := h
    simp [sendControl, socketWrite, OutConn.issue, hs, Nat.min_eq_right hle]
  | again => exact absurd h id
  | fail => exact absurd h id

/-- A control frame after which the connection is torn down unless it was taken whole. -/
theorem OutInv.control_or_teardown (h : OutInv c) (hc : c.closed = false) (frame : Bytes)
    (a : WriteAnswer) (hclean : c.shut = true ∨ c.out.backlog = false ∨ ∀ n, a ≠ .takes n) :
    OutInv (match c.sendControl frame a with
      | (c, true) => c
      | (c, false) => c.teardown) := by
  obtain ⟨hpre, hinv⟩ := h.control hc frame a hclean
  rcases hr : c.sendControl frame a with ⟨c1, _ | _⟩ <;> rw [hr] at hpre hinv
  · exact .teardown hpre
  · exact hinv (.inr rfl)

/-- An application's ping or pong, which is taken whole or meets a shut socket. -/
theorem OutInv.control_whole (h : OutInv c) (hc : c.closed = false)
    (hclean : c.shut = true ∨ c.out.backlog = false ∧ a.takesWhole frame) :
    OutInv (c.sendControl frame a).1 := by
  rcases hclean with hs | ⟨hb, hw⟩
  · exact (h.control hc frame a (.inl hs)).2 (.inl hs)
  · cases hs : c.shut with
    | true => exact (h.control hc frame a (.inl hs)).2 (.inl hs)
    | false => exact (h.control hc frame a (.inr (.inl hb))).2 (.inr (sendControl_whole hs hw))

theorem outStep_inv (c : OutConn) (op : OutOp) (c' : OutConn) (h : OutInv c)
    (hclean : CleanOut c op) (hstep : outStep c op = some c') : OutInv c' := by
  unfold outStep at hstep
  by_cases hclosed : c.closed = true
  · rw [if_pos hclosed] at hstep
    cases hstep
  rw [if_neg hclosed] at hstep
  have hc : c.closed = false := Bool.eq_false_iff.mpr hclosed
  cases op with
  | data text payload answers reallocOk epollOk =>
    cases hstep
    exact h.data hc answers reallocOk epollOk _ payload
  | pongReply payload a =>
    have hinv := h.control_or_teardown hc (wsEncodeFrame opPong payload) a hclean
    simp only [OutConn.wsSendPongFrame] at hstep
    split at hstep
    · rcases hr : c.sendControl (wsEncodeFrame opPong payload) a with ⟨c1, _ | _⟩ <;>
        rw [hr] at hinv hstep <;> rw [← Option.some.inj hstep] <;> exact hinv
    · cases hstep
  | apiPing | apiPong =>
    cases hstep
    exact h.control_whole hc hclean
  | reaperPing a =>
    have hinv := h.control_or_teardown hc (wsEncodeFrame opPing []) a hclean
    simp only [OutConn.wsSendPingFrame] at hstep
    split at hstep
    · rcases hr : c.sendControl (wsEncodeFrame opPing []) a with ⟨c1, _ | _⟩ <;>
        rw [hr] at hinv hstep <;> rw [← Option.some.inj hstep] <;> exact hinv
    · cases hstep
  | closeReply code a =>
    have hopen : OutInv { c with state := .closing } := ⟨h.live, h.wire⟩
    simp only at hstep
    split at hstep <;> cases hstep
    exact .teardown (hopen.control hc _ a hclean).1
  | apiClose code reason a =>
    cases hstep
    exact .teardown (h.control hc _ a hclean).1
  | writable answers =>
    obtain ⟨hpre, hinv⟩ := (connOutDrain_adds answers c).outInv nil_prefix
      (fun hs => by rw [append_nil, h.live hc hs]) h.wire
    simp only at hstep
    rcases hr : connOutDrain answers c with ⟨c1, _ | _⟩ <;> rw [hr] at hpre hinv hstep <;>
      cases hstep
    · exact .teardown hpre
    · exact hinv (.inr rfl)
  | teardown =>
    cases hstep
    exact .teardown h.wire

/-- In every run of outbound operations in which control frames meet no backlog and the
    application's pings and pongs are taken whole, whatever the socket accepts of every other
    write, the bytes it has accepted are a first part of the issued frames. -/
theorem outbound_wire_prefix (ops : List OutOp) (c : OutConn)
    (hclean : RunMeets outStep CleanOut .opened ops) (hrun : run outStep .opened ops = some c) :
    c.wire <+: c.issued.flatten := by
  have hinit : OutInv .opened := ⟨fun _ _ => rfl, prefix_refl _⟩
  exact (run_invariant outStep_inv ops .opened c hinit hclean hrun).wire

/-- A data frame in two writes with the rest of it queued, a drain, and a ping behind it. -/
theorem outbound_wire_prefix_ping_after_drain :
    let ops : List OutOp := [.data false [7] [.takes 0, .again] true true,
      .writable [.takes 5], .apiPing [] (.takes 9)]
    (run outStep .opened ops).map (·.wire) = some [0x82, 0x01, 0x07, 0x89, 0x00] ∧
      ∀ c, run outStep .opened ops = some c → c.wire <+: c.issued.flatten := by
  refine ⟨by decide, fun c hrun => outbound_wire_prefix _ c ?_ hrun⟩
  refine ⟨trivial, fun c1 h1 => ⟨trivial, fun c2 h2 => ⟨.inr ⟨?_, ?_⟩, fun _ _ => trivial⟩⟩⟩
  · obtain rfl := Option.some.inj h1
    obtain rfl := Option.some.inj h2
    rfl
  · show (wsEncodeFrame opPing []).length ≤ 10
    decide

/-- The socket takes one byte of a data frame, then a whole ping: the ping stands inside the
    data frame. -/
theorem ping_inside_data_frame :
    (run outStep .opened
        [.data false [7] [.takes 0, .again] true true, .apiPing [] (.takes 9)]).map
      (fun c => (c.wire, c.issued, decide (c.wire <+: c.issued.flatten))) =
    some ([0x82, 0x89, 0x00], [[0x82, 0x01, 0x07], [0x89, 0x00]], false) := by
  decide

end Portico.Ws
