/-
  The receive loop of an open WebSocket connection: `handle_websocket_frames` of
  src/ws/ws_connection_handler.c.

  Model. The client's byte stream waits in `pending`; a `Turn` is one round of the read loop,
  with the answers the environment gives there: whether a `realloc` succeeds if one is needed,
  and what the socket's read returns. A read of some bytes takes at least one and at most the
  free space of the buffer; the choice of turns is the choice of how the stream is cut. The
  frame handler is a parameter `proc` on an arbitrary state, so the results hold for
  `process_websocket_frame` and for any other handler. The loop over the buffer keeps the
  source's `offset`, the in-place unmasking, and the two places where leftovers are moved.

  Proved: `parseBuffered_eq`, the loop over one buffer is the library's `drain`;
  `receiveLoop_spec` and `receiveEvents_spec`, any number of readability events amount to one
  drain of the bytes they read, and never find the buffer full.
-/
import Portico.Ws.Message

namespace Portico.Ws

open Portico.Lib List

variable {σ : Type}

/-- What a socket read returns; `bytes n` is a read of up to `n + 1` bytes. -/
inductive ReadAnswer where
  | bytes (n : Nat)
  | again
  | eof
  | error
  deriving DecidableEq, Repr

/-- The environment's answers in one round of a read loop. -/
structure Turn where
  reallocOk : Bool
  answer : ReadAnswer
  deriving DecidableEq, Repr

/-- `recv_buffer[0 .. recv_buffer_used)` and `recv_buffer_capacity`. -/
structure RecvBuffer where
  bytes : Bytes
  capacity : Nat
  deriving DecidableEq, Repr

/-- Every way in which `handle_websocket_frames` returns. -/
inductive ReadOutcome where
  | drained
  | closeRequested
  | parseError
  | procError
  | bufferFull
  | noMemory
  | eof
  | readError
  | noBuffer
  deriving DecidableEq, Repr

/-- The value returned: 0 keeps the connection, -2 is the clean close, -1 an error. -/
def ReadOutcome.code : ReadOutcome → Int
  | .drained => 0
  | .closeRequested => -2
  | _ => -1

/-- How the loop over the buffered frames ends: `done` when what is left is no whole frame. -/
inductive LoopExit where
  | done
  | parseError
  | procError
  | closeRequested
  deriving DecidableEq, Repr

/-! ## The loop over one buffer -/

variable {d : σ × Bytes × Option (Stop ProcResult)} {st : Stop ProcResult} {data : Bytes}

section Loop

variable (cfg : WsConfig) (proc : σ → WsFrame → σ × ProcResult)

/-- `while (offset < recv_buffer_used)`: the state, the buffer, the offset, the exit. A frame
    takes at least one byte, so `buf.length` rounds are enough. -/
def frameLoop : Nat → σ → Bytes → Nat → σ × Bytes × Nat × LoopExit
  | 0, s, buf, offset => (s, buf, offset, .done)
  | fuel + 1, s, buf, offset =>
    if offset < buf.length then
      let (code, frame, tail) := wsParseFrame cfg.simd (buf.drop offset) cfg.maxMessageSize
      let buf := buf.take offset ++ tail
      if code < 0 then (s, [], offset, .parseError)
      else if code = 0 then (s, if 0 < offset then buf.drop offset else buf, 0, .done)
      else match proc s frame with
        | (s, .closeRequested) => (s, buf, offset, .closeRequested)
        | (s, .error) => (s, [], offset, .procError)
        | (s, .ok) => frameLoop fuel s buf (offset + code.toNat)
    else (s, buf, offset, .done)

/-- Parse and process every complete frame of the buffer, then drop what was consumed. -/
def parseBuffered (s : σ) (buf : Bytes) : σ × Bytes × LoopExit :=
  let (s, buf, offset, exit) := frameLoop cfg proc buf.length s buf 0
  (s, if 0 < offset then (if offset < buf.length then buf.drop offset else []) else buf, exit)

/-- The handler as a consumer of parsed items. -/
def consumeFrame (s : σ) (frame : WsFrame) : σ × Option ProcResult :=
  match proc s frame with
  | (s, .ok) => (s, none)
  | (s, r) => (s, some r)

/-- The exit that belongs to the library's reason to stop. -/
def exitOf : Option (Stop ProcResult) → LoopExit
  | none => .done
  | some .malformed => .parseError
  | some (.consumer .closeRequested) => .closeRequested
  | some (.consumer _) => .procError

theorem exitOf_done {st : Option (Stop ProcResult)} : exitOf st = .done ↔ st = none := by
  match st with
  | none => simp [exitOf]
  | some .malformed => simp [exitOf]
  | some (.consumer .ok) => simp [exitOf]
  | some (.consumer .error) => simp [exitOf]
  | some (.consumer .closeRequested) => simp [exitOf]

variable (hmax : cfg.maxMessageSize ≤ 2 ^ 31 - 15)

/-- The frames of a whole byte string, handed to the handler one after the other. -/
def drainFrames (s : σ) (stream : Bytes) : σ × Bytes × Option (Stop ProcResult) :=
  drain (frameParser cfg.simd cfg.maxMessageSize hmax) (consumeFrame proc) s stream

section DrainEquations

variable {cfg proc} {s s' : σ} {n : Nat} {frame : WsFrame} {r : ProcResult}

theorem drainFrames_more (h : frameFront cfg.simd cfg.maxMessageSize data = .more) :
    drainFrames cfg proc hmax s data = (s, data, none) :=
  drain_more (frameParser cfg.simd cfg.maxMessageSize hmax) _ h

theorem drainFrames_bad (h : frameFront cfg.simd cfg.maxMessageSize data = .bad) :
    drainFrames cfg proc hmax s data = (s, data, some .malformed) :=
  drain_bad (frameParser cfg.simd cfg.maxMessageSize hmax) _ h

theorem drainFrames_item (h : frameFront cfg.simd cfg.maxMessageSize data = .item n frame)
    (hc : consumeFrame proc s frame = (s', none)) :
    drainFrames cfg proc hmax s data = drainFrames cfg proc hmax s' (data.drop n) :=
  drain_item (frameParser cfg.simd cfg.maxMessageSize hmax) _ h hc

theorem drainFrames_stop (h : frameFront cfg.simd cfg.maxMessageSize data = .item n frame)
    (hc : consumeFrame proc s frame = (s', some r)) :
    drainFrames cfg proc hmax s data = (s', data.drop n, some (.consumer r)) :=
  drain_stop (frameParser cfg.simd cfg.maxMessageSize hmax) _ h hc

end DrainEquations

theorem ite_drop_pos (offset : Nat) (buf : Bytes) :
    (if 0 < offset then buf.drop offset else buf) = buf.drop offset := by
  split
  · rfl
  · rw [show offset = 0 by omega, drop_zero]

/-- A result of the frame loop (state, buffer, offset, exit) that is that of a drain: when it is
    done, the bytes behind the final offset are the unparsed rest. -/
structure LoopAs (r : σ × Bytes × Nat × LoopExit) (d : σ × Bytes × Option (Stop ProcResult)) :
    Prop where
  conn : r.1 = d.1
  exit : r.2.2.2 = exitOf d.2.2
  rest : d.2.2 = none → r.2.2.1 ≤ r.2.1.length ∧ r.2.1.drop r.2.2.1 = d.2.1

/-- Of a drain that stops, only the state and the exit count. -/
theorem LoopAs.of_stop {r : σ × Bytes × Nat × LoopExit} (hstop : d.2.2 = some st)
    (hconn : r.1 = d.1) (hexit : r.2.2.2 = exitOf d.2.2) : LoopAs r d :=
  ⟨hconn, hexit, fun hnone => absurd (hstop.symm.trans hnone) (Option.some_ne_none st)⟩

variable {buf : Bytes} {offset : Nat}

/-- No byte is left at the offset. -/
theorem frameLoop_end (fuel : Nat) (s : σ) (hoff : offset = buf.length) :
    LoopAs (frameLoop cfg proc fuel s buf offset)
      (drainFrames cfg proc hmax s (buf.drop offset)) := by
  have hnil : buf.drop offset = [] := drop_eq_nil_of_le (by omega)
  have hloop : frameLoop cfg proc fuel s buf offset = (s, buf, offset, .done) := by
    cases fuel with
    | zero => rfl
    | succ => rw [frameLoop, if_neg (by omega)]
  rw [hloop, hnil]
  exact ⟨rfl, rfl, fun _ => ⟨Nat.le_of_eq hoff, hnil⟩⟩

/-- Unmasking a frame in place leaves the bytes behind it as they are. -/
theorem drop_unmasked (hle : offset ≤ buf.length) (frame : WsFrame)
    (hl : frame.headerLen + frame.payloadLen ≤ (buf.drop offset).length) :
    (buf.take offset ++ unmaskedBuffer frame (buf.drop offset)).drop
        (offset + (frame.headerLen + frame.payloadLen)) =
      (buf.drop offset).drop (frame.headerLen + frame.payloadLen) := by
  have htake : (buf.take offset).length = offset := length_take_of_le hle
  rw [drop_append, htake, Nat.add_sub_cancel_left, unmaskedBuffer_drop frame hl,
    drop_eq_nil_of_le (by omega), nil_append]

/-- What the frame loop computes at `offset` is what `drain` computes on the bytes there. -/
theorem frameLoop_eq :
    ∀ (fuel : Nat) (s : σ) (buf : Bytes) (offset : Nat), offset ≤ buf.length →
      buf.length - offset ≤ fuel →
      LoopAs (frameLoop cfg proc fuel s buf offset)
        (drainFrames cfg proc hmax s (buf.drop offset)) := by
  intro fuel
  induction fuel with
  | zero =>
    intro s buf offset hle hfuel
    exact frameLoop_end cfg proc hmax 0 s (by omega)
  | succ fuel ih =>
    intro s buf offset hle hfuel
    by_cases hlt : offset < buf.length
    swap
    · exact frameLoop_end cfg proc hmax (fuel + 1) s (by omega)
    have hne : buf.drop offset ≠ [] := by
      intro h
      have := drop_eq_nil_iff.mp h
      omega
    have hfront := frameFront_eq cfg.simd hmax hne
    have hback : buf.take offset ++ buf.drop offset = buf := take_append_drop _ _
    simp only [frameLoop, if_pos hlt, wsParseFrame_eq cfg.simd hmax hne]
    cases hh : wsParseFrameHeader (buf.drop offset) cfg.maxMessageSize with
    | incomplete =>
      rw [hh] at hfront
      rw [drainFrames_more hmax hfront]
      simp only [Int.lt_irrefl, if_true, if_false, hback, ite_drop_pos]
      exact ⟨rfl, rfl, fun _ => ⟨Nat.zero_le _, rfl⟩⟩
    | malformed =>
      rw [hh] at hfront
      rw [drainFrames_bad hmax hfront]
      exact .of_stop rfl rfl rfl
    | parsed frame =>
      rw [hh] at hfront
      have h6 := (wsParseFrameHeader_parsed hh).1
      by_cases hl : (buf.drop offset).length < frame.headerLen + frame.payloadLen
      · simp only [if_pos hl] at hfront ⊢
        rw [drainFrames_more hmax hfront]
        simp only [Int.lt_irrefl, if_true, if_false, hback, ite_drop_pos]
        exact ⟨rfl, rfl, fun _ => ⟨Nat.zero_le _, rfl⟩⟩
      · simp only [if_neg hl] at hfront ⊢
        have hcode : ¬ ((frame.headerLen + frame.payloadLen : Nat) : Int) < 0 := by omega
        have hcode' : ¬ ((frame.headerLen + frame.payloadLen : Nat) : Int) = 0 := by omega
        rw [if_neg hcode, if_neg hcode', Int.toNat_natCast]
        rcases hproc : proc s (frame.unmasked (buf.drop offset)) with ⟨s', _ | _ | _⟩
        · -- the frame is handled; the loop goes on behind it
          have hcons : consumeFrame proc s (frame.unmasked (buf.drop offset)) = (s', none) := by
            simp only [consumeFrame, hproc]
          have hlen := unmaskedBuffer_length frame (Nat.le_of_not_lt hl)
          have htake : (buf.take offset).length = offset := length_take_of_le hle
          rw [drainFrames_item hmax hfront hcons, ← drop_unmasked hle frame (Nat.le_of_not_lt hl)]
          apply ih
          · rw [length_append, htake, hlen]; omega
          · rw [length_append, htake, hlen, length_drop]; omega
        · have hcons : consumeFrame proc s (frame.unmasked (buf.drop offset)) =
              (s', some .error) := by
            simp only [consumeFrame, hproc]
          rw [drainFrames_stop hmax hfront hcons]
          exact .of_stop rfl rfl rfl
        · have hcons : consumeFrame proc s (frame.unmasked (buf.drop offset)) =
              (s', some .closeRequested) := by
            simp only [consumeFrame, hproc]
          rw [drainFrames_stop hmax hfront hcons]
          exact .of_stop rfl rfl rfl

/-- The loop over one buffer is a drain of its bytes: same state, same exit, and when it is
    done the same rest stays in the buffer. -/
theorem parseBuffered_eq (s : σ) (buf : Bytes) :
    (parseBuffered cfg proc s buf).1 = (drainFrames cfg proc hmax s buf).1 ∧
    (parseBuffered cfg proc s buf).2.2 = exitOf (drainFrames cfg proc hmax s buf).2.2 ∧
    ((parseBuffered cfg proc s buf).2.2 = .done →
      (parseBuffered cfg proc s buf).2.1 = (drainFrames cfg proc hmax s buf).2.1) := by
  have h := frameLoop_eq cfg proc hmax buf.length s buf 0 (Nat.zero_le _) (by omega)
  rw [drop_zero] at h
  unfold parseBuffered
  rcases hloop : frameLoop cfg proc buf.length s buf 0 with ⟨s', buf', offset', exit⟩
  rw [hloop] at h
  refine ⟨h.conn, h.exit, fun hexit => ?_⟩
  obtain ⟨hle, hrest⟩ := h.rest (exitOf_done.mp (h.exit.symm.trans hexit))
  rw [← hrest]
  simp only
  split
  · split
    · rfl
    · rw [drop_eq_nil_of_le (by omega)]
  · rw [show offset' = 0 by omega, drop_zero]

end Loop

/-! ## The read loop -/

/-- Where a call returns: the handler's state, the buffer, what is still unread, and why. -/
structure RecvResult (σ : Type) where
  conn : σ
  buf : RecvBuffer
  pending : Bytes
  outcome : ReadOutcome
  deriving DecidableEq, Repr

/-- One round of the loop either goes on or returns. -/
inductive TurnResult (σ : Type) where
  | goOn (conn : σ) (buf : RecvBuffer) (pending : Bytes)
  | stop (r : RecvResult σ)

def LoopExit.outcome : LoopExit → ReadOutcome
  | .done => .drained
  | .parseError => .parseError
  | .procError => .procError
  | .closeRequested => .closeRequested

variable {hardMax capacity : Nat} {buf : RecvBuffer} {rest : Bytes}

section Read

variable (cfg : WsConfig) (proc : σ → WsFrame → σ × ProcResult)

/-- The part of a round behind the room check: read, then parse what is buffered. -/
def readChunk (answer : ReadAnswer) (s : σ) (buf : RecvBuffer) (pending : Bytes) :
    TurnResult σ :=
  match answer with
  | .again => .stop ⟨s, buf, pending, .drained⟩
  | .eof => .stop ⟨s, buf, pending, .eof⟩
  | .error => .stop ⟨s, buf, pending, .readError⟩
  | .bytes n =>
    -- nothing has arrived: the read would block
    if pending = [] then .stop ⟨s, buf, pending, .drained⟩
    else
      let bytesRead := min (n + 1) (buf.capacity - buf.bytes.length)
      match parseBuffered cfg proc s (buf.bytes ++ pending.take bytesRead) with
      | (s, bytes, .done) => .goOn s { buf with bytes := bytes } (pending.drop bytesRead)
      | (s, bytes, exit) =>
        .stop ⟨s, { buf with bytes := bytes }, pending.drop bytesRead, exit.outcome⟩

def readTurn (hardMax : Nat) (t : Turn) (s : σ) (buf : RecvBuffer) (pending : Bytes) :
    TurnResult σ :=
  if buf.bytes.length = buf.capacity then
    if hardMax ≤ buf.capacity then .stop ⟨s, { buf with bytes := [] }, pending, .bufferFull⟩
    else if !t.reallocOk then .stop ⟨s, buf, pending, .noMemory⟩
    else
      readChunk cfg proc t.answer s
        { buf with capacity := min (sizeMul buf.capacity 2) hardMax } pending
  else readChunk cfg proc t.answer s buf pending

/-- The loop over the rounds; behind the last given one the read would block. -/
def receiveLoop (hardMax : Nat) : List Turn → σ → RecvBuffer → Bytes → RecvResult σ
  | [], s, buf, pending =>
    match readTurn cfg proc hardMax ⟨true, .again⟩ s buf pending with
    | .stop r => r
    | .goOn s buf pending => ⟨s, buf, pending, .drained⟩
  | t :: ts, s, buf, pending =>
    match readTurn cfg proc hardMax t s buf pending with
    | .stop r => r
    | .goOn s buf pending => receiveLoop hardMax ts s buf pending

def handleWebsocketFrames (turns : List Turn) (s : σ) (buf : RecvBuffer) (pending : Bytes) :
    RecvResult σ :=
  if buf.capacity = 0 then ⟨s, buf, pending, .noBuffer⟩
  else receiveLoop cfg proc (max ((cfg.maxMessageSize + 64) % 2 ^ 64) buf.capacity)
    turns s buf pending

/-- Successive readability events: one call for each, until a call returns a negative value
    and the connection is closed. -/
def receiveEvents : List (List Turn) → σ → RecvBuffer → Bytes → RecvResult σ
  | [], s, buf, pending => ⟨s, buf, pending, .drained⟩
  | turns :: events, s, buf, pending =>
    let r := handleWebsocketFrames cfg proc turns s buf pending
    if r.outcome = .drained then receiveEvents events r.conn r.buf r.pending else r

/-! ## What a run of the loop reads and hands on -/

/-- Outcomes that say nothing about the bytes: the read or the allocation itself failed. -/
def ReadOutcome.interrupted : ReadOutcome → Bool
  | .noMemory => true
  | .eof => true
  | .readError => true
  | _ => false

/-- The buffer exists, holds no more than its capacity, and is not full of bytes that the next
    parse could not shorten. -/
structure BufOk (maxLen : Nat) (buf : RecvBuffer) : Prop where
  pos : 0 < buf.capacity
  used : buf.bytes.length ≤ buf.capacity
  room : buf.bytes.length < buf.capacity ∨ buf.bytes.length < maxLen + 64

/-- What `hard_max` is to the capacity during a call. -/
structure HardOk (maxLen hardMax capacity : Nat) : Prop where
  framing : maxLen + 64 ≤ hardMax
  eq_of_lt : capacity < hardMax → hardMax = maxLen + 64

/-- A call or a round that read nothing and changed nothing but, perhaps, the capacity. -/
structure Quiet (maxLen : Nat) (s : σ) (buf : RecvBuffer) (pending : Bytes)
    (r : RecvResult σ) : Prop where
  conn : r.conn = s
  bytes : r.buf.bytes = buf.bytes
  pending : r.pending = pending
  outcome : r.outcome = .drained ∨ r.outcome.interrupted = true
  bufOk : BufOk maxLen r.buf

/-- A call whose state, verdict and leftover are those of a drain. -/
structure Agrees (r : RecvResult σ) (d : σ × Bytes × Option (Stop ProcResult)) : Prop where
  conn : r.conn = d.1
  outcome : r.outcome = (exitOf d.2.2).outcome ∨ r.outcome.interrupted = true ∧ d.2.2 = none
  bytes : d.2.2 = none → r.buf.bytes = d.2.1

theorem LoopExit.outcome_drained {e : LoopExit} (h : e.outcome = .drained) : e = .done := by
  cases e with
  | done => rfl
  | parseError | procError | closeRequested => cases h

/-- A run from `s` and `buf` that read the bytes `T`: it changed nothing if there were none, and
    otherwise did what draining the buffered bytes and `T` does. -/
def ReadsAs (hmax : cfg.maxMessageSize ≤ 2 ^ 31 - 15) (s : σ) (buf : RecvBuffer)
    (pending : Bytes) (r : RecvResult σ) : Prop :=
  ∃ T, pending = T ++ r.pending ∧
    (T = [] ∧ Quiet cfg.maxMessageSize s buf pending r ∨
      T ≠ [] ∧ Agrees r (drainFrames cfg proc hmax s (buf.bytes ++ T)) ∧
        (r.outcome = .drained → BufOk cfg.maxMessageSize r.buf))

variable {cfg proc}

theorem HardOk.mono {maxLen capacity' : Nat} (h : HardOk maxLen hardMax capacity)
    (hle : capacity ≤ capacity') : HardOk maxLen hardMax capacity' :=
  ⟨h.framing, fun hlt => h.eq_of_lt (Nat.lt_of_le_of_lt hle hlt)⟩

/-- The read of a round, with room in the buffer: nothing happens, or at least one byte is
    appended and the buffer is parsed. -/
theorem readChunk_cases (answer : ReadAnswer) (s : σ) (pending : Bytes)
    (hb : BufOk cfg.maxMessageSize buf) (hroom : buf.bytes.length < buf.capacity) :
    (∃ r, readChunk cfg proc answer s buf pending = .stop r ∧
      Quiet cfg.maxMessageSize s buf pending r) ∨
    ∃ chunk rest, chunk ≠ [] ∧ pending = chunk ++ rest ∧
      (buf.bytes ++ chunk).length ≤ buf.capacity ∧
      readChunk cfg proc answer s buf pending =
        match parseBuffered cfg proc s (buf.bytes ++ chunk) with
        | (s, bytes, .done) => .goOn s ⟨bytes, buf.capacity⟩ rest
        | (s, bytes, exit) => .stop ⟨s, ⟨bytes, buf.capacity⟩, rest, exit.outcome⟩ := by
  cases answer with
  | again => exact .inl ⟨_, rfl, rfl, rfl, rfl, .inl rfl, hb⟩
  | eof | error => exact .inl ⟨_, rfl, rfl, rfl, rfl, .inr rfl, hb⟩
  | bytes n =>
    by_cases hp : pending = []
    · refine .inl ⟨⟨s, buf, pending, .drained⟩, ?_, rfl, rfl, rfl, .inl rfl, hb⟩
      simp only [readChunk, if_pos hp]
    · refine .inr ⟨pending.take (min (n + 1) (buf.capacity - buf.bytes.length)),
        pending.drop (min (n + 1) (buf.capacity - buf.bytes.length)), ?_,
        (take_append_drop _ _).symm, ?_, ?_⟩
      · intro h
        rw [take_eq_nil_iff] at h
        rcases h with h | h
        · omega
        · exact hp h
      · rw [length_append, length_take]; omega
      · simp only [readChunk, if_neg hp]

variable (proc) in
/-- A round: nothing happens, or at least one byte is appended to a buffer with room for it and
    the buffer is parsed. The buffer is never found full. -/
theorem readTurn_cases (t : Turn) (s : σ) (pending : Bytes)
    (hmax : cfg.maxMessageSize ≤ 2 ^ 31 - 79) (hb : BufOk cfg.maxMessageSize buf)
    (hh : HardOk cfg.maxMessageSize hardMax buf.capacity) :
    (∃ r, readTurn cfg proc hardMax t s buf pending = .stop r ∧
      Quiet cfg.maxMessageSize s buf pending r) ∨
    ∃ chunk rest capacity, chunk ≠ [] ∧ pending = chunk ++ rest ∧ buf.capacity ≤ capacity ∧
      (buf.bytes ++ chunk).length ≤ capacity ∧
      readTurn cfg proc hardMax t s buf pending =
        match parseBuffered cfg proc s (buf.bytes ++ chunk) with
        | (s, bytes, .done) => .goOn s ⟨bytes, capacity⟩ rest
        | (s, bytes, exit) => .stop ⟨s, ⟨bytes, capacity⟩, rest, exit.outcome⟩ := by
  have hframing := hh.framing
  by_cases hfull : buf.bytes.length = buf.capacity
  swap
  · have hroom : buf.bytes.length < buf.capacity := Nat.lt_of_le_of_ne hb.used hfull
    simp only [readTurn, if_neg hfull]
    rcases readChunk_cases t.answer s pending hb hroom with hq | ⟨chunk, rest, h1, h2, h3, h4⟩
    · exact .inl hq
    · exact .inr ⟨chunk, rest, buf.capacity, h1, h2, Nat.le_refl _, h3, h4⟩
  -- a full buffer holds less than the limit, so it may grow
  have hlt : buf.bytes.length < cfg.maxMessageSize + 64 := by
    rcases hb.room with h | h
    · omega
    · exact h
  have hhard : ¬ hardMax ≤ buf.capacity := by omega
  simp only [readTurn, if_pos hfull, if_neg hhard]
  by_cases hre : t.reallocOk
  swap
  · refine .inl ⟨⟨s, buf, pending, .noMemory⟩, ?_, rfl, rfl, rfl, .inr rfl, hb⟩
    simp [hre]
  have hgrown : buf.capacity < min (sizeMul buf.capacity 2) hardMax := by
    have := hh.eq_of_lt (by omega)
    have hpos := hb.pos
    unfold sizeMul
    omega
  have hb' : BufOk cfg.maxMessageSize
      { buf with capacity := min (sizeMul buf.capacity 2) hardMax } :=
    ⟨Nat.lt_of_le_of_lt (Nat.zero_le _) hgrown, by simp only; omega, .inr hlt⟩
  simp only [hre, Bool.not_true, Bool.false_eq_true, if_false]
  rcases readChunk_cases t.answer s pending hb' (by simp only; omega) with
    ⟨r, hr, hq⟩ | ⟨chunk, rest, h1, h2, h3, h4⟩
  · exact .inl ⟨r, hr, hq.conn, hq.bytes, hq.pending, hq.outcome, hq.bufOk⟩
  · exact .inr ⟨chunk, rest, _, h1, h2, Nat.le_of_lt hgrown, h3, h4⟩

variable {hmax : cfg.maxMessageSize ≤ 2 ^ 31 - 15} {s s' : σ} {buf buf' : RecvBuffer}
  {pending : Bytes} {r : RecvResult σ}

/-- What is left of a drain fits where the bytes were, and is short enough to be read on. -/
theorem bufOk_of_drain (hlen : data.length ≤ capacity) (hpos : 0 < capacity)
    (hd : drainFrames cfg proc hmax s data = (s', rest, none)) :
    BufOk cfg.maxMessageSize ⟨rest, capacity⟩ := by
  have hmore := drain_rest_more (frameParser cfg.simd cfg.maxMessageSize hmax)
    (consumeFrame proc) s data s' rest hd
  have hshort := frameFront_more_length cfg.simd hmax hmore
  have hsuf := drain_rest_suffix (frameParser cfg.simd cfg.maxMessageSize hmax)
    (consumeFrame proc) s data
  have hrest : rest.length ≤ data.length := by
    have := hsuf.length_le
    rwa [show drain _ _ s data = (s', rest, none) from hd] at this
  exact ⟨hpos, Nat.le_trans hrest hlen, .inr (by simp only; omega)⟩

theorem ReadsAs.of_quiet (hq : Quiet cfg.maxMessageSize s buf pending r) :
    ReadsAs cfg proc hmax s buf pending r :=
  ⟨[], by rw [hq.pending, nil_append], .inl ⟨rfl, hq⟩⟩

variable {c : Bytes}

/-- A run that goes on from where a drain of `buf` and some new bytes ended. -/
theorem ReadsAs.after_drain (hc : c ≠ [])
    (hd : drainFrames cfg proc hmax s (buf.bytes ++ c) = (s', buf'.bytes, none))
    (h : ReadsAs cfg proc hmax s' buf' rest r) : ReadsAs cfg proc hmax s buf (c ++ rest) r := by
  obtain ⟨T, hT, ⟨rfl, hq⟩ | ⟨hne, hag, hok⟩⟩ := h
  · refine ⟨c, by rw [hq.pending], .inr ⟨hc, ⟨?_, ?_, ?_⟩, fun _ => hq.bufOk⟩⟩
    · rw [hd]; exact hq.conn
    · rw [hd]
      rcases hq.outcome with ho | ho
      · exact .inl ho
      · exact .inr ⟨ho, rfl⟩
    · intro _
      rw [hd]
      exact hq.bytes
  · refine ⟨c ++ T, by rw [hT, append_assoc], .inr ⟨by simp [hc], ?_, hok⟩⟩
    have happ := drain_append (frameParser cfg.simd cfg.maxMessageSize hmax)
      (consumeFrame proc) s (buf.bytes ++ c) T
    rw [show drain _ _ s (buf.bytes ++ c) = (s', buf'.bytes, none) from hd] at happ
    unfold drainFrames at hag ⊢
    rwa [← append_assoc, happ]

theorem ReadsAs.after_quiet {r' : RecvResult σ}
    (hq : Quiet cfg.maxMessageSize s buf pending r')
    (h : ReadsAs cfg proc hmax r'.conn r'.buf r'.pending r) :
    ReadsAs cfg proc hmax s buf pending r := by
  obtain ⟨T, hT, ⟨rfl, hq'⟩ | ⟨hne, hag, hok⟩⟩ := h
  · exact .of_quiet ⟨hq'.conn.trans hq.conn, hq'.bytes.trans hq.bytes,
      hq'.pending.trans hq.pending, hq'.outcome, hq'.bufOk⟩
  · rw [hq.conn, hq.bytes] at hag
    exact ⟨T, by rw [← hq.pending, hT], .inr ⟨hne, hag, hok⟩⟩

/-- A run that stops in the drain of `buf` and the new bytes. -/
theorem ReadsAs.of_stop {buf' : RecvBuffer} (hc : c ≠ []) {exit : LoopExit} (hne : exit ≠ .done)
    (hs : s' = (drainFrames cfg proc hmax s (buf.bytes ++ c)).1)
    (he : exit = exitOf (drainFrames cfg proc hmax s (buf.bytes ++ c)).2.2) :
    ReadsAs cfg proc hmax s buf (c ++ rest) ⟨s', buf', rest, exit.outcome⟩ := by
  have hst : (drainFrames cfg proc hmax s (buf.bytes ++ c)).2.2 ≠ none := by
    intro h
    rw [h] at he
    exact hne he
  refine ⟨c, rfl, .inr ⟨hc, ⟨hs, .inl (by rw [he]), fun h => absurd h hst⟩, ?_⟩⟩
  intro ho
  cases exit with
  | done => exact absurd rfl hne
  | parseError | procError | closeRequested => cases ho

variable (proc hmax) in
/-- What one round amounts to, in terms of drains. -/
theorem readTurn_reads (hmax79 : cfg.maxMessageSize ≤ 2 ^ 31 - 79) (t : Turn) (s : σ)
    (pending : Bytes) (hb : BufOk cfg.maxMessageSize buf)
    (hh : HardOk cfg.maxMessageSize hardMax buf.capacity) :
    match readTurn cfg proc hardMax t s buf pending with
    | .stop r => ReadsAs cfg proc hmax s buf pending r
    | .goOn s' buf' rest => ∃ c, c ≠ [] ∧ pending = c ++ rest ∧
        drainFrames cfg proc hmax s (buf.bytes ++ c) = (s', buf'.bytes, none) ∧
        BufOk cfg.maxMessageSize buf' ∧ buf.capacity ≤ buf'.capacity := by
  rcases readTurn_cases proc t s pending hmax79 hb hh with
    ⟨r, hr, hq⟩ | ⟨c, rest, capacity, hc, rfl, hcap, hlen, hr⟩
  · rw [hr]
    exact .of_quiet hq
  obtain ⟨hconn, hexit, hrest⟩ := parseBuffered_eq cfg proc hmax s (buf.bytes ++ c)
  rw [hr]
  rcases hpb : parseBuffered cfg proc s (buf.bytes ++ c) with ⟨s', bytes, exit⟩
  rw [hpb] at hconn hexit hrest
  simp only at hconn hexit hrest
  cases exit with
  | done =>
    have hnone := exitOf_done.mp hexit.symm
    have hd : drainFrames cfg proc hmax s (buf.bytes ++ c) = (s', bytes, none) := by
      rw [hconn, hrest rfl, ← hnone]
    exact ⟨c, hc, rfl, hd, bufOk_of_drain hlen (Nat.lt_of_lt_of_le hb.pos hcap) hd, hcap⟩
  | parseError | procError | closeRequested => exact .of_stop hc (by simp) hconn hexit

theorem receiveLoop_spec (hmax79 : cfg.maxMessageSize ≤ 2 ^ 31 - 79) :
    ∀ (turns : List Turn) (s : σ) (buf : RecvBuffer) (pending : Bytes),
      BufOk cfg.maxMessageSize buf → HardOk cfg.maxMessageSize hardMax buf.capacity →
      ReadsAs cfg proc hmax s buf pending (receiveLoop cfg proc hardMax turns s buf pending) := by
  intro turns
  induction turns with
  | nil =>
    intro s buf pending hb hh
    have hturn := readTurn_reads proc hmax hmax79 ⟨true, .again⟩ s pending hb hh
    simp only [receiveLoop]
    cases hr : readTurn cfg proc hardMax ⟨true, .again⟩ s buf pending with
    | stop => rw [hr] at hturn; exact hturn
    | goOn =>
      rw [hr] at hturn
      obtain ⟨c, hc, rfl, hd, hb', _⟩ := hturn
      exact .after_drain hc hd (.of_quiet ⟨rfl, rfl, rfl, .inl rfl, hb'⟩)
  | cons t ts ih =>
    intro s buf pending hb hh
    have hturn := readTurn_reads proc hmax hmax79 t s pending hb hh
    simp only [receiveLoop]
    cases hr : readTurn cfg proc hardMax t s buf pending with
    | stop => rw [hr] at hturn; exact hturn
    | goOn s' buf' rest =>
      rw [hr] at hturn
      obtain ⟨c, hc, rfl, hd, hb', hcap⟩ := hturn
      exact .after_drain hc hd (ih s' buf' rest hb' (hh.mono hcap))

variable (proc hmax) in
theorem handleWebsocketFrames_spec (hmax79 : cfg.maxMessageSize ≤ 2 ^ 31 - 79) (turns : List Turn)
    (s : σ) (pending : Bytes) (hb : BufOk cfg.maxMessageSize buf) :
    ReadsAs cfg proc hmax s buf pending
      (handleWebsocketFrames cfg proc turns s buf pending) := by
  have hpos := hb.pos
  unfold handleWebsocketFrames
  rw [if_neg (by omega), Nat.mod_eq_of_lt (by omega)]
  refine receiveLoop_spec hmax79 turns s buf pending hb ⟨Nat.le_max_left _ _, ?_⟩
  omega

/-- Any number of readability events amount to one drain of the bytes they read. -/
theorem receiveEvents_spec (hmax79 : cfg.maxMessageSize ≤ 2 ^ 31 - 79) :
    ∀ (events : List (List Turn)) (s : σ) (buf : RecvBuffer) (pending : Bytes),
      BufOk cfg.maxMessageSize buf →
      ReadsAs cfg proc hmax s buf pending (receiveEvents cfg proc events s buf pending) := by
  intro events
  induction events with
  | nil =>
    intro s buf pending hb
    exact .of_quiet ⟨rfl, rfl, rfl, .inl rfl, hb⟩
  | cons turns events ih =>
    intro s buf pending hb
    have hcall := handleWebsocketFrames_spec proc hmax hmax79 turns s pending hb
    simp only [receiveEvents]
    generalize handleWebsocketFrames cfg proc turns s buf pending = call at hcall ⊢
    split
    · rename_i hdr
      obtain ⟨T, hT, ⟨-, hq⟩ | ⟨hne, hag, hok⟩⟩ := hcall
      · exact .after_quiet hq (ih _ _ _ hq.bufOk)
      · -- the call drained the socket: it stands where the drain of its bytes ended
        have hnone : (drainFrames cfg proc hmax s (buf.bytes ++ T)).2.2 = none := by
          rcases hag.outcome with ho | ⟨_, hnone⟩
          · rw [hdr] at ho
            exact exitOf_done.mp (LoopExit.outcome_drained ho.symm)
          · exact hnone
        rw [hT]
        refine .after_drain hne ?_ (ih _ _ _ (hok hdr))
        rw [hag.conn, hag.bytes hnone, ← hnone]
    · exact hcall

/-! ## Rounds without failures -/

/-- A round in which nothing but the arrival of bytes decides: the allocation succeeds and the
    read returns some bytes or would block. -/
def Turn.arriving (t : Turn) : Bool :=
  t.reallocOk && match t.answer with
    | .bytes _ => true
    | .again => true
    | .eof => false
    | .error => false

variable {r : RecvResult σ}

theorem readChunk_arriving {t : Turn} (ht : t.arriving = true) (s : σ) (buf : RecvBuffer)
    (pending : Bytes) (h : readChunk cfg proc t.answer s buf pending = .stop r) :
    r.outcome.interrupted = false := by
  obtain ⟨reallocOk, answer⟩ := t
  simp only [Turn.arriving, Bool.and_eq_true] at ht
  cases answer with
  | again => cases h; rfl
  | eof => cases ht.2
  | error => cases ht.2
  | bytes =>
    simp only [readChunk] at h
    split at h
    · cases h; rfl
    · generalize parseBuffered cfg proc s _ = parsed at h
      obtain ⟨s', bytes, exit⟩ := parsed
      cases exit with
      | done => cases h
      | parseError | procError | closeRequested => cases h; rfl

theorem readTurn_arriving {t : Turn} (ht : t.arriving = true) (s : σ) (buf : RecvBuffer)
    (pending : Bytes) (h : readTurn cfg proc hardMax t s buf pending = .stop r) :
    r.outcome.interrupted = false := by
  have hre : t.reallocOk = true := by
    simp only [Turn.arriving, Bool.and_eq_true] at ht
    exact ht.1
  simp only [readTurn, hre, Bool.not_true, Bool.false_eq_true, if_false] at h
  split at h
  · split at h
    · cases h; rfl
    · exact readChunk_arriving ht s _ pending h
  · exact readChunk_arriving ht s _ pending h

theorem receiveLoop_arriving :
    ∀ (turns : List Turn), (∀ t ∈ turns, t.arriving = true) →
      ∀ (s : σ) (buf : RecvBuffer) (pending : Bytes),
        (receiveLoop cfg proc hardMax turns s buf pending).outcome.interrupted = false := by
  intro turns
  induction turns with
  | nil =>
    intro _ s buf pending
    have hidle : (⟨true, .again⟩ : Turn).arriving = true := rfl
    simp only [receiveLoop]
    cases hr : readTurn cfg proc hardMax ⟨true, .again⟩ s buf pending with
    | stop => exact readTurn_arriving hidle s buf pending hr
    | goOn => rfl
  | cons t ts ih =>
    intro hts s buf pending
    simp only [receiveLoop]
    cases hr : readTurn cfg proc hardMax t s buf pending with
    | stop => exact readTurn_arriving (hts t (mem_cons_self ..)) s buf pending hr
    | goOn s' buf' rest => exact ih (fun t' h => hts t' (mem_cons_of_mem _ h)) s' buf' rest

variable (cfg proc) in
/-- While bytes arrive and memory lasts, no call fails for another reason than the bytes. -/
theorem receiveEvents_arriving :
    ∀ (events : List (List Turn)), (∀ turns ∈ events, ∀ t ∈ turns, t.arriving = true) →
      ∀ (s : σ) (buf : RecvBuffer) (pending : Bytes),
        (receiveEvents cfg proc events s buf pending).outcome.interrupted = false := by
  intro events
  induction events with
  | nil => intro _ s buf pending; rfl
  | cons turns events ih =>
    intro hev s buf pending
    simp only [receiveEvents]
    split
    · exact ih (fun t h => hev t (mem_cons_of_mem _ h)) _ _ _
    · unfold handleWebsocketFrames
      split
      · rfl
      · exact receiveLoop_arriving turns (hev turns (mem_cons_self ..)) s buf pending

/-! ## Every split of the stream -/

/-- What a caller makes of the value returned. -/
inductive Verdict where
  | keepOpen
  | cleanClose
  | error
  deriving DecidableEq, Repr

def LoopExit.verdict : LoopExit → Verdict
  | .done => .keepOpen
  | .closeRequested => .cleanClose
  | .parseError => .error
  | .procError => .error

def ReadOutcome.verdict (o : ReadOutcome) : Verdict :=
  if o.code = 0 then .keepOpen else if o.code = -2 then .cleanClose else .error

theorem LoopExit.verdict_outcome (e : LoopExit) : e.outcome.verdict = e.verdict := by
  cases e <;> rfl

/-- The handler with a record of the frames it was handed. -/
def logged (proc : σ → WsFrame → σ × ProcResult) (s : σ × List WsFrame) (frame : WsFrame) :
    (σ × List WsFrame) × ProcResult :=
  (((proc s.1 frame).1, s.2 ++ [frame]), (proc s.1 frame).2)

/-- Once a byte string is decided, more bytes behind it change nothing. -/
theorem drainFrames_append_of_stop (h : (drainFrames cfg proc hmax s data).2.2 = some st)
    (more : Bytes) :
    (drainFrames cfg proc hmax s (data ++ more)).1 = (drainFrames cfg proc hmax s data).1 ∧
      (drainFrames cfg proc hmax s (data ++ more)).2.2 = some st := by
  have happ := drain_append (frameParser cfg.simd cfg.maxMessageSize hmax) (consumeFrame proc)
    s data more
  unfold drainFrames at h ⊢
  rcases hd : drain _ (consumeFrame proc) s data with ⟨s', rest, st'⟩
  rw [hd] at h happ
  subst h
  rw [happ]
  exact ⟨rfl, rfl⟩

theorem Agrees.outcome_eq (h : Agrees r d) (hi : r.outcome.interrupted = false) :
    r.outcome = (exitOf d.2.2).outcome := by
  rcases h.outcome with ho | ⟨ho, _⟩
  · exact ho
  · simp [hi] at ho

theorem Agrees.not_bufferFull (h : Agrees r d) : r.outcome ≠ .bufferFull := by
  intro hr
  have ho := h.outcome_eq (by rw [hr]; rfl)
  rw [hr] at ho
  generalize exitOf d.2.2 = e at ho
  cases e <;> exact absurd ho (by simp [LoopExit.outcome])

/-- From an empty buffer, reading nothing is draining nothing. -/
theorem ReadsAs.agrees {pending : Bytes} (h : ReadsAs cfg proc hmax s ⟨[], capacity⟩ pending r) :
    ∃ T, pending = T ++ r.pending ∧ Agrees r (drainFrames cfg proc hmax s T) := by
  obtain ⟨T, hT, ⟨rfl, hq⟩ | ⟨_, hag, _⟩⟩ := h
  · have hnil : drainFrames cfg proc hmax s [] = (s, [], none) := rfl
    refine ⟨[], hT, ?_⟩
    rw [hnil]
    exact ⟨hq.conn, hq.outcome.imp id fun hi => ⟨hi, rfl⟩, fun _ => hq.bytes⟩
  · exact ⟨T, hT, hag⟩

/-- A stream cut into reads and events in any way, against the whole stream parsed in one
    buffer by the same frame loop. `logged` records the frames handed to the handler. -/
def SplitInvariant (cfg : WsConfig) (proc : σ → WsFrame → σ × ProcResult) (s : σ)
    (capacity : Nat) (stream : Bytes) (events : List (List Turn)) : Prop :=
  let r := receiveEvents cfg (logged proc) events (s, []) ⟨[], capacity⟩ stream
  let whole := parseBuffered cfg (logged proc) (s, [])
  r.outcome ≠ .bufferFull ∧
  -- what has been handed on is what the bytes read so far hold
  (∃ read, stream = read ++ r.pending ∧ r.conn = (whole read).1 ∧
    (r.outcome.interrupted = false → r.outcome.verdict = (whole read).2.2.verdict)) ∧
  -- and at the end of the stream, or of the connection, what the whole stream holds
  (r.outcome.interrupted = false → r.pending = [] ∨ r.outcome ≠ .drained →
    r.conn = (whole stream).1 ∧ r.outcome.verdict = (whole stream).2.2.verdict)

/-- However a client's stream is cut, an open connection hands on the frames of the whole
    stream, in order and unmasked, and stops where and as that does; the buffer-full branch is
    never taken. (An open connection has a buffer: `read_into_recv` has allocated it.) -/
theorem receiveEvents_any_split (cfg : WsConfig) (proc : σ → WsFrame → σ × ProcResult) (s : σ)
    (capacity : Nat) (stream : Bytes) (events : List (List Turn))
    (hmax : cfg.maxMessageSize ≤ 2 ^ 31 - 79) (hcap : 0 < capacity) :
    SplitInvariant cfg proc s capacity stream events := by
  have hmax15 : cfg.maxMessageSize ≤ 2 ^ 31 - 15 := by omega
  have hb : BufOk cfg.maxMessageSize ⟨[], capacity⟩ := ⟨hcap, Nat.zero_le _, .inl hcap⟩
  have hrun : ReadsAs cfg (logged proc) hmax15 (s, []) ⟨[], capacity⟩ stream _ :=
    receiveEvents_spec hmax events (s, []) ⟨[], capacity⟩ stream hb
  unfold SplitInvariant
  generalize receiveEvents cfg (logged proc) events (s, []) ⟨[], capacity⟩ stream = r at hrun ⊢
  obtain ⟨T, hT, hag⟩ := hrun.agrees
  obtain ⟨hconn, hexit, _⟩ := parseBuffered_eq cfg (logged proc) hmax15 (s, []) T
  obtain ⟨hconn', hexit', _⟩ := parseBuffered_eq cfg (logged proc) hmax15 (s, []) stream
  refine ⟨hag.not_bufferFull, ⟨T, hT, hag.conn.trans hconn.symm, ?_⟩, ?_⟩
  · intro hi
    rw [hag.outcome_eq hi, LoopExit.verdict_outcome, hexit]
  · intro hi hend
    rw [hconn', hexit', hag.outcome_eq hi, LoopExit.verdict_outcome, hag.conn]
    rcases hend with hp | hne
    · rw [hT, hp, append_nil]
      exact ⟨rfl, rfl⟩
    · -- the connection ended, so the bytes read decide what the whole stream does
      cases hst : (drainFrames cfg (logged proc) hmax15 (s, []) T).2.2 with
      | none =>
        rw [hag.outcome_eq hi, hst] at hne
        exact absurd rfl hne
      | some =>
        obtain ⟨h1, h2⟩ := drainFrames_append_of_stop hst r.pending
        rw [hT, h1, h2]
        exact ⟨rfl, rfl⟩

/-- A binary frame that arrives one byte and four bytes at a time, over two events, with the
    payload unmasked in place. -/
theorem receiveEvents_any_split_two_events :
    (receiveEvents .small (logged (processWebsocketFrame .small))
        [[⟨true, .bytes 0⟩, ⟨true, .bytes 3⟩], [⟨true, .bytes 8⟩]] (.fresh, []) ⟨[], 16384⟩
        [0x82, 0x82, 1, 2, 3, 4, 0x69, 0x6B]).conn.1.callbacks = [.onBinary [0x68, 0x69]] ∧
      SplitInvariant .small (processWebsocketFrame .small) .fresh 16384
        [0x82, 0x82, 1, 2, 3, 4, 0x69, 0x6B]
        [[⟨true, .bytes 0⟩, ⟨true, .bytes 3⟩], [⟨true, .bytes 8⟩]] :=
  ⟨by decide, receiveEvents_any_split _ _ _ _ _ _ (by decide) (by decide)⟩

end Read

end Portico.Ws
