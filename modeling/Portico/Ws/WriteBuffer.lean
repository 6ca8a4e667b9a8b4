/-
  The write buffer of a connection: `ws_connection_buffered_send` and
  `ws_connection_flush_write_buffer` of src/ws/ws_connection.c.

  Model. `held` is `write_buffer[0 .. write_buffer_used)`; a buffer that has not been allocated
  yet is empty, and its allocation succeeds. `wire` is history: what the socket has accepted. The
  answer of every socket write is part of the call. The results are `int`, so the count of a
  direct write is cut to 32 bits.

  Proved: `buffered_order_iff`. As long as every send returns its full length, what was passed in
  is on the wire and in the buffer, in order, exactly if the socket takes all that is held in front
  of each message larger than the buffer. Nothing checks that the flush emptied the buffer
  (`large_message_overtakes`).
-/
import Portico.Lib.Machine
import Portico.Ws.Message

namespace Portico.Ws

open Portico.Lib List

/-- `WS_DEFAULT_WRITE_BUFFER_SIZE`. -/
def writeBufferSize : Nat := 65536

structure BufferedConn where
  held : Bytes
  wire : Bytes
  deriving DecidableEq, Repr

namespace BufferedConn

def fresh : BufferedConn := ⟨[], []⟩

/-- What `ws_conn_socket_write` does: it accepts so many bytes at most, or none for now, or it
    fails. -/
inductive SocketAnswer where
  | accepts (n : Nat)
  | again
  | error
  deriving DecidableEq, Repr

/-- How many bytes it takes at most. -/
def SocketAnswer.taken : SocketAnswer → Nat
  | .accepts n => n
  | .again => 0
  | .error => 0

def flushWriteBuffer (c : BufferedConn) (answer : SocketAnswer) : Int × BufferedConn :=
  if c.held = [] then (0, c)
  else match answer with
    | .accepts n => ((min n c.held.length : Nat), ⟨c.held.drop n, c.wire ++ c.held.take n⟩)
    | .again => (0, c)
    | .error => (-1, c)

/-- The message is larger than the buffer. -/
def sendDirect (c : BufferedConn) (data : Bytes) (answer : SocketAnswer) : Int × BufferedConn :=
  match answer with
  | .accepts n =>
    (toInt32 (min n data.length), { c with wire := c.wire ++ data.take n })
  | .again => (-1, c)
  | .error => (-1, c)

def bufferedSend (c : BufferedConn) (data : Bytes) (flushed direct : SocketAnswer) :
    Int × BufferedConn :=
  if data = [] then (-1, c)
  else if data.length > writeBufferSize then sendDirect (c.flushWriteBuffer flushed).2 data direct
  else if c.held.length + data.length ≤ writeBufferSize then
    (data.length, { c with held := c.held ++ data })
  else
    let f := c.flushWriteBuffer flushed
    if f.1 < 0 then (-1, f.2)
    else if f.2.held.length + data.length > writeBufferSize then (-1, f.2)
    else (data.length, { f.2 with held := f.2.held ++ data })

/-! ## Runs -/

/-- A call, with what the socket answers: a send to its flush and to its direct write. -/
inductive Call where
  | send (data : Bytes) (flushed direct : SocketAnswer)
  | flush (answer : SocketAnswer)
  deriving DecidableEq, Repr

def Call.data : Call → Bytes
  | .send data _ _ => data
  | .flush _ => []

/-- A call, unless it is a send that did not return its full length. -/
def step (c : BufferedConn) : Call → Option BufferedConn
  | .send data flushed direct =>
    let r := c.bufferedSend data flushed direct
    if r.1 = data.length then some r.2 else none
  | .flush answer => some (c.flushWriteBuffer answer).2

/-- What a connection stands for. -/
def bytes (c : BufferedConn) : Bytes := c.wire ++ c.held

/-- In front of a message that is larger than the buffer the socket takes all that is held, or
    what it leaves commutes with the message. -/
def InOrder (c : BufferedConn) : Call → Prop
  | .send data flushed _ => writeBufferSize < data.length → c.held.length ≤ flushed.taken ∨
    c.held.drop flushed.taken ++ data = data ++ c.held.drop flushed.taken
  | .flush _ => True

theorem flushWriteBuffer_bytes (c : BufferedConn) (answer : SocketAnswer) :
    (c.flushWriteBuffer answer).2.bytes = c.bytes := by
  unfold flushWriteBuffer
  split
  · rfl
  · cases answer with
    | accepts n => simp [bytes]
    | again => rfl
    | error => rfl

theorem flushWriteBuffer_held (c : BufferedConn) (answer : SocketAnswer) :
    (c.flushWriteBuffer answer).2.held = c.held.drop answer.taken := by
  unfold flushWriteBuffer
  split
  · next hnil => simp [hnil]
  · cases answer <;> rfl

variable {c : BufferedConn} {data : Bytes}

/-- A direct write that returned the full length has written all of it. -/
theorem sendDirect_full {answer : SocketAnswer} (h : (c.sendDirect data answer).1 = data.length) :
    (c.sendDirect data answer).2 = { c with wire := c.wire ++ data } := by
  cases answer with
  | again | error =>
    dsimp only [sendDirect] at h
    omega
  | accepts n =>
    rw [sendDirect] at h
    dsimp only at h
    have hlt : toInt32 (min n data.length) < 2 ^ 31 := Int.bmod_lt (by decide)
    rw [h] at hlt
    have hall : data.length ≤ n := by
      rw [toInt32_of_lt (by omega)] at h
      omega
    rw [sendDirect, take_of_length_le hall]

/-- A send that returned its full length has written the message behind a flush, or buffered it. -/
theorem bufferedSend_full {flushed direct : SocketAnswer}
    (h : (c.bufferedSend data flushed direct).1 = data.length) :
    (writeBufferSize < data.length ∧ (c.bufferedSend data flushed direct).2 =
        { (c.flushWriteBuffer flushed).2 with
          wire := (c.flushWriteBuffer flushed).2.wire ++ data }) ∨
      (¬writeBufferSize < data.length ∧
        (c.bufferedSend data flushed direct).2.bytes = c.bytes ++ data) := by
  have hneg : ¬(-1 : Int) = data.length := by omega
  have hpush (c : BufferedConn) : c.wire ++ (c.held ++ data) = c.bytes ++ data :=
    (append_assoc _ _ _).symm
  unfold bufferedSend at h ⊢
  split at h
  · exact absurd h hneg
  rw [if_neg ‹_›]
  split at h
  · next hlarge =>
    rw [if_pos hlarge]
    exact .inl ⟨hlarge, sendDirect_full h⟩
  · next hsmall =>
    rw [if_neg hsmall]
    refine .inr ⟨hsmall, ?_⟩
    split at h
    · next hfits =>
      rw [if_pos hfits]
      exact hpush c
    · next hfull =>
      rw [if_neg hfull]
      dsimp only at h ⊢
      split at h
      · exact absurd h hneg
      split at h
      · exact absurd h hneg
      rw [if_neg ‹_›, if_neg ‹_›, ← flushWriteBuffer_bytes c flushed]
      exact hpush (c.flushWriteBuffer flushed).2

/-- A call that goes on appends its data, exactly if it is in order. -/
theorem step_bytes {c' : BufferedConn} {call : Call} (h : c.step call = some c') :
    c'.bytes = c.bytes ++ call.data ↔ c.InOrder call := by
  cases call with
  | flush answer =>
    cases h
    simp [flushWriteBuffer_bytes, Call.data, InOrder]
  | send data flushed direct =>
    rw [step] at h
    split at h
    · next hfull =>
      cases h
      rw [InOrder, Call.data]
      rcases bufferedSend_full hfull with ⟨hlarge, hsent⟩ | ⟨hsmall, hbytes⟩
      · rw [hsent, ← flushWriteBuffer_bytes c flushed, bytes, bytes, append_assoc,
          append_assoc, append_cancel_left_eq, flushWriteBuffer_held]
        refine ⟨fun heq _ => .inr heq.symm, fun horder => ?_⟩
        rcases horder hlarge with hall | heq
        · simp [drop_of_length_le hall]
        · exact heq.symm
      · exact iff_of_true hbytes fun hlarge => absurd hlarge hsmall
    · cases h

/-! ## The order of the bytes -/

/-- A run is in order as far as it goes, exactly if each of its calls is. -/
theorem run_bytes {calls : List Call} {last : BufferedConn} (h : run step c calls = some last) :
    (∀ pre c', pre <+: calls → run step c pre = some c' →
        c'.bytes = c.bytes ++ pre.flatMap Call.data) ↔
      RunMeets step InOrder c calls := by
  induction calls generalizing c with
  | nil =>
    refine iff_of_true (fun pre c' hpre hrun => ?_) trivial
    cases prefix_nil.mp hpre
    cases hrun
    simp
  | cons call calls ih =>
    obtain ⟨c1, hstep, hrun⟩ := run_cons h
    rw [RunMeets, ← step_bytes hstep]
    constructor
    · intro hall
      have hone : c1.bytes = c.bytes ++ call.data := by
        simpa using hall [call] c1 (by simp) (by rw [run_step hstep]; rfl)
      refine ⟨hone, fun c2 hc2 => ?_⟩
      cases hstep.symm.trans hc2
      refine (ih hrun).mp fun pre c' hpre hpath => ?_
      rw [hall (call :: pre) c' (by simpa using hpre) (by rwa [run_step hstep]), hone]
      simp
    · rintro ⟨hone, hrest⟩ pre c' hpre hpath
      cases pre with
      | nil =>
        cases hpath
        simp
      | cons first pre =>
        obtain ⟨rfl, htail⟩ := cons_prefix_cons.mp hpre
        rw [run_step hstep] at hpath
        rw [(ih hrun).mpr (hrest c1 hstep) pre c' htail hpath, hone]
        simp

/-- For every run in which each send returned its full length: after each of its calls, the bytes
    that the socket accepted and those in the buffer are what was passed in, in order, exactly if
    in front of each message larger than the buffer the socket takes all that is held, or leaves
    bytes that commute with the message. -/
theorem buffered_order_iff (calls : List Call) (last : BufferedConn)
    (h : run step fresh calls = some last) :
    (∀ pre c, pre <+: calls → run step fresh pre = some c →
        c.wire ++ c.held = pre.flatMap Call.data) ↔
      RunMeets step InOrder fresh calls :=
  run_bytes h

/-- A message of 65537 bytes that the socket takes at once. -/
theorem step_large (hlen : data.length = 65537) (flushed : SocketAnswer) :
    c.step (.send data flushed (.accepts 65537)) = some { (c.flushWriteBuffer flushed).2 with
      wire := (c.flushWriteBuffer flushed).2.wire ++ data } := by
  have hne : data ≠ [] := by
    rintro rfl
    cases hlen
  have htake : data.take 65537 = data := take_of_length_le (Nat.le_of_eq hlen)
  have hint : toInt32 65537 = 65537 := toInt32_of_lt (by decide)
  simp [step, bufferedSend, sendDirect, writeBufferSize, hlen, hne, htake, hint]

/-- Two bytes are held and one of them is flushed; a large message follows the other one. -/
theorem buffered_order_iff_flushed :
    let calls : List Call := [.send [1, 2] .again .again, .flush (.accepts 1),
      .send (replicate 65537 3) (.accepts 1) (.accepts 65537)]
    run step fresh calls = some ⟨[], [1, 2] ++ replicate 65537 3⟩ ∧
      ∀ pre c, pre <+: calls → run step fresh pre = some c →
        c.wire ++ c.held = pre.flatMap Call.data := by
  have hheld : run step fresh [.send [1, 2] .again .again, .flush (.accepts 1)] =
      some ⟨[2], [1]⟩ := by decide
  have hrun := (run_append hheld [.send (replicate 65537 3) (.accepts 1) (.accepts 65537)]).trans
    (run_step (step_large length_replicate (.accepts 1)) [])
  refine ⟨hrun, (buffered_order_iff _ _ hrun).mpr ⟨fun hlarge => absurd hlarge (by decide), ?_⟩⟩
  intro c1 h1
  cases h1
  refine ⟨trivial, fun c2 h2 => ?_⟩
  cases h2
  exact ⟨fun _ => .inl (by decide), fun _ _ => trivial⟩

/-- One byte is held; the flush is refused, and then the socket takes a message that is larger
    than the buffer. -/
theorem large_message_overtakes :
    run step fresh [.send [1] .again .again,
        .send (replicate 65537 2) .again (.accepts 65537)] =
      some ⟨[1], replicate 65537 2⟩ ∧
    replicate 65537 (2 : UInt8) ++ [1] ≠ [1] ++ replicate 65537 2 := by
  have hne (n : Nat) :
      replicate (n + 1) (2 : UInt8) ++ [1] ≠ [1] ++ replicate (n + 1) 2 := by
    simp [replicate_succ]
  have hfirst : step fresh (.send [1] .again .again) = some ⟨[1], []⟩ := by decide
  refine ⟨?_, hne 65536⟩
  rw [run_step hfirst, run_step (step_large length_replicate .again)]
  rfl

end BufferedConn

end Portico.Ws
