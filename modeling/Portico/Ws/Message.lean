/-
  What the server does with one received frame: `process_websocket_frame` and the fragment
  reassembly of src/ws/ws_connection_handler.c, with the control-frame senders of
  src/ws/ws_frame.c that it calls.

  Model. `MsgConn` is the part of a connection these functions read and write, together with
  what they show to the outside: the application callbacks, and the frames handed to the
  socket as replies. The environment's answers are part of the state and are used up in
  order: `allocs` says which of the coming `malloc`/`realloc` calls succeed, `writes` which of
  the coming control-frame writes are taken whole (an exhausted list answers yes). `size_t`
  arithmetic that the source leaves unchecked wraps here too. Left out: logs, message
  statistics, and the `user_data` and `fd` arguments of the callbacks, which are the
  connection's own.
-/
import Portico.Ws.Utf8

namespace Portico.Ws

/-- `ws_state_t`, in the order of the source's numbering. -/
inductive WsState where
  | connecting
  | open
  | closing
  | closed
  | http
  | tlsHandshake
  deriving DecidableEq, Repr

/-- The opcodes of `ws_opcode_t`. -/
def opContinuation : UInt8 := 0x0
def opText : UInt8 := 0x1
def opBinary : UInt8 := 0x2
def opClose : UInt8 := 0x8
def opPing : UInt8 := 0x9
def opPong : UInt8 := 0xA

/-- The close codes of `ws_close_code_t` that the server itself sends. -/
def closeNormal : Nat := 1000
def closeProtocolError : Nat := 1002
def closeInvalidUtf8 : Nat := 1007
def closeMessageTooBig : Nat := 1009

/-- An application callback and the data it is given. -/
inductive Callback where
  | onConnect
  | onText (text : Bytes)
  | onBinary (data : Bytes)
  | onPong (data : Bytes)
  | onClose (code : Nat) (reason : Bytes)
  deriving DecidableEq, Repr

/-- The parts of the configuration that frame handling reads. -/
structure WsConfig where
  maxMessageSize : Nat
  simd : SimdPath
  hasOnConnect : Bool
  hasOnText : Bool
  hasOnBinary : Bool
  hasOnPong : Bool
  hasOnClose : Bool
  deriving DecidableEq, Repr

/-- A server with every callback set and messages of up to 125 bytes. -/
def WsConfig.small : WsConfig :=
  { maxMessageSize := 125, simd := .scalar, hasOnConnect := true, hasOnText := true,
    hasOnBinary := true, hasOnPong := true, hasOnClose := true }

/-- `ws_frame_parser_t`; the buffer's contents are its first `fragmentTotalSize` bytes. -/
structure FrameParser where
  inFragmentedMessage : Bool
  fragmentOpcode : UInt8
  fragmentBuffer : Option Bytes
  fragmentBufferSize : Nat
  fragmentTotalSize : Nat
  deriving DecidableEq, Repr

/-- The zeroed parser of a fresh connection. -/
def FrameParser.init : FrameParser :=
  { inFragmentedMessage := false, fragmentOpcode := 0, fragmentBuffer := none,
    fragmentBufferSize := 0, fragmentTotalSize := 0 }

structure MsgConn where
  state : WsState
  parser : FrameParser
  allocs : List Bool
  writes : List Bool
  callbacks : List Callback
  replies : List Bytes
  deriving DecidableEq, Repr

/-- A connection that has just been opened, in an environment where every allocation succeeds
    and every control frame is taken whole. -/
def MsgConn.fresh : MsgConn :=
  { state := .open, parser := .init, allocs := [], writes := [], callbacks := [], replies := [] }

/-- What `process_websocket_frame` returns: 0, -1, or `WS_FRAME_CLOSE_REQUESTED` (-2). -/
inductive ProcResult where
  | ok
  | error
  | closeRequested
  deriving DecidableEq, Repr

namespace MsgConn

/-- The next allocation: whether it succeeds. -/
def alloc (c : MsgConn) : Bool × MsgConn :=
  match c.allocs with
  | [] => (true, c)
  | a :: as => (a, { c with allocs := as })

/-- Hand a whole frame to the socket in one write: whether it was taken whole. -/
def write (c : MsgConn) (frame : Bytes) : Bool × MsgConn :=
  let c := { c with replies := c.replies ++ [frame] }
  match c.writes with
  | [] => (true, c)
  | w :: ws => (w, { c with writes := ws })

def callback (c : MsgConn) (present : Bool) (cb : Callback) : MsgConn :=
  if present then { c with callbacks := c.callbacks ++ [cb] } else c

def setState (c : MsgConn) (state : WsState) : MsgConn := { c with state := state }

/-- The senders' common shape: encode (one allocation), one write, 0 if it was taken whole. -/
def sendFrame (c : MsgConn) (opcode : UInt8) (payload : Bytes) : Bool × MsgConn :=
  match c.alloc with
  | (false, c) => (false, c)
  | (true, c) => c.write (wsEncodeFrame opcode payload)

def wsSendPongFrame (c : MsgConn) (data : Bytes) : Bool × MsgConn := c.sendFrame opPong data

/-- A code of 0 is the empty close frame; any other code is put before the reason, in a buffer
    of its own. -/
def wsSendCloseFrame (c : MsgConn) (code : Nat) (reason : Bytes) : Bool × MsgConn :=
  if code = 0 then c.sendFrame opClose []
  else match c.alloc with
    | (false, c) => (false, c)
    | (true, c) =>
      c.sendFrame opClose (UInt8.ofNat (code / 256) :: UInt8.ofNat code :: reason)

def wsFailConnection (c : MsgConn) (code : Nat) : MsgConn × ProcResult :=
  ((wsSendCloseFrame (c.setState .closing) code []).2, .closeRequested)

def cleanupFragmentationState (c : MsgConn) : MsgConn := { c with parser := .init }

end MsgConn

open MsgConn

def wsCloseCodeValid (code : Nat) : Bool :=
  (3000 ≤ code && code ≤ 4999) ||
    [1000, 1001, 1002, 1003, 1007, 1008, 1009, 1010, 1011].contains code

/-- Subtraction and multiplication of `size_t`. -/
def sizeSub (a b : Nat) : Nat := (a + 2 ^ 64 - b) % 2 ^ 64
def sizeMul (a b : Nat) : Nat := a * b % 2 ^ 64

/-- The payload bytes a `memcpy(.., frame->payload, frame->payload_len)` copies. -/
def WsFrame.data (frame : WsFrame) : Bytes := frame.payload.take frame.payloadLen

/-- A text or binary frame: a whole message, or the first fragment of one. -/
def processFragmentedFrame (cfg : WsConfig) (c : MsgConn) (frame : WsFrame) :
    MsgConn × ProcResult :=
  if c.parser.inFragmentedMessage then (c, .error)
  else if !frame.fin then
    let initialSize :=
      if 65536 < frame.payloadLen then sizeMul frame.payloadLen 2 else 65536
    -- opcode and total size are written before the allocation is known to succeed
    let parser := { c.parser with
      fragmentOpcode := frame.opcode, fragmentTotalSize := frame.payloadLen }
    match c.alloc with
    | (false, c) =>
      ({ c with parser := { parser with inFragmentedMessage := false, fragmentBuffer := none } },
        .error)
    | (true, c) =>
      ({ c with parser := { parser with inFragmentedMessage := true,
                                        fragmentBuffer := some frame.data,
                                        fragmentBufferSize := initialSize } }, .ok)
  else if frame.opcode = opText && !wsUtf8Valid frame.data then
    c.wsFailConnection closeInvalidUtf8
  else if frame.opcode = opText && cfg.hasOnText then
    match c.alloc with
    | (false, c) => (c, .error)
    | (true, c) => (c.callback true (.onText frame.data), .ok)
  else if frame.opcode = opBinary && cfg.hasOnBinary then
    (c.callback true (.onBinary frame.data), .ok)
  else (c, .ok)

/-- Hand a reassembled message to the application. A text message whose null-terminated copy
    cannot be allocated is dropped. -/
def deliverFragments (cfg : WsConfig) (c : MsgConn) (opcode : UInt8) (message : Bytes) :
    MsgConn :=
  if opcode = opText && cfg.hasOnText then
    match c.alloc with
    | (false, c) => c
    | (true, c) => c.callback true (.onText message)
  else if opcode = opBinary && cfg.hasOnBinary then c.callback true (.onBinary message)
  else c

/-- The end of `process_continuation_frame`, with the fragment appended. -/
def finishContinuation (cfg : WsConfig) (c : MsgConn) (fin : Bool) : MsgConn × ProcResult :=
  let message := c.parser.fragmentBuffer.getD []
  if fin then
    if c.parser.fragmentOpcode = opText && !wsUtf8Valid message then
      c.cleanupFragmentationState.wsFailConnection closeInvalidUtf8
    else
      ((deliverFragments cfg c c.parser.fragmentOpcode message).cleanupFragmentationState, .ok)
  else (c, .ok)

def processContinuationFrame (cfg : WsConfig) (c : MsgConn) (frame : WsFrame) :
    MsgConn × ProcResult :=
  if !c.parser.inFragmentedMessage then (c, .error)
  else if sizeSub cfg.maxMessageSize c.parser.fragmentTotalSize < frame.payloadLen then
    c.cleanupFragmentationState.wsFailConnection closeMessageTooBig
  else
    let neededSize := (c.parser.fragmentTotalSize + frame.payloadLen) % 2 ^ 64
    let append (c : MsgConn) (size : Nat) : MsgConn :=
      { c with parser := { c.parser with
          fragmentBuffer := some (c.parser.fragmentBuffer.getD [] ++ frame.data)
          fragmentBufferSize := size
          fragmentTotalSize := neededSize } }
    if c.parser.fragmentBufferSize < neededSize then
      match c.alloc with
      | (false, c) => (c.cleanupFragmentationState, .error)
      | (true, c) => finishContinuation cfg (append c (sizeMul neededSize 2)) frame.fin
    else finishContinuation cfg (append c c.parser.fragmentBufferSize) frame.fin

/-- The close code of a Close frame's payload. -/
def closeCodeOf (payload : Bytes) : Nat := (payload.getD 0 0).toNat * 256 + (payload.getD 1 0).toNat

/-- The `WS_OPCODE_CLOSE` case. -/
def processCloseFrame (cfg : WsConfig) (c : MsgConn) (frame : WsFrame) : MsgConn × ProcResult :=
  if frame.payloadLen = 1 then c.wsFailConnection closeProtocolError
  else if 2 ≤ frame.payloadLen then
    let closeCode := closeCodeOf frame.payload
    let reason := frame.data.drop 2
    if !wsCloseCodeValid closeCode then c.wsFailConnection closeProtocolError
    else if 0 < frame.payloadLen - 2 && !wsUtf8Valid reason then
      c.wsFailConnection closeInvalidUtf8
    else
      let c := (wsSendCloseFrame (c.setState .closing) closeCode []).2
      (c.callback cfg.hasOnClose (.onClose closeCode []), .closeRequested)
  else
    let c := (wsSendCloseFrame (c.setState .closing) 0 []).2
    (c.callback cfg.hasOnClose (.onClose closeNormal []), .closeRequested)

def processWebsocketFrame (cfg : WsConfig) (c : MsgConn) (frame : WsFrame) :
    MsgConn × ProcResult :=
  if 0x8 ≤ frame.opcode && (!frame.fin || 125 < frame.payloadLen) then
    c.wsFailConnection closeProtocolError
  else if frame.opcode = opText then processFragmentedFrame cfg c frame
  else if frame.opcode = opBinary then processFragmentedFrame cfg c frame
  else if frame.opcode = opPing then
    match c.wsSendPongFrame frame.data with
    | (false, c) => (c, .error)
    | (true, c) => (c, .ok)
  else if frame.opcode = opPong then
    (c.callback cfg.hasOnPong (.onPong frame.data), .ok)
  else if frame.opcode = opClose then processCloseFrame cfg c frame
  else if frame.opcode = opContinuation then processContinuationFrame cfg c frame
  else (c, .error)

/-! ## What a handled frame leaves alone -/

@[simp] theorem MsgConn.alloc_state (c : MsgConn) : c.alloc.2.state = c.state := by
  unfold MsgConn.alloc
  split <;> rfl

@[simp] theorem MsgConn.write_state (c : MsgConn) (frame : Bytes) :
    (c.write frame).2.state = c.state := by
  simp only [MsgConn.write]
  split <;> rfl

@[simp] theorem MsgConn.callback_state (c : MsgConn) (present : Bool) (cb : Callback) :
    (c.callback present cb).state = c.state := by
  unfold MsgConn.callback
  split <;> rfl

@[simp] theorem MsgConn.sendFrame_state (c : MsgConn) (opcode : UInt8) (payload : Bytes) :
    (c.sendFrame opcode payload).2.state = c.state := by
  unfold MsgConn.sendFrame
  have h := c.alloc_state
  rcases hc : c.alloc with ⟨_ | _, c'⟩ <;> rw [hc] at h
  · exact h
  · exact (MsgConn.write_state _ _).trans h

/-- A Close frame always ends the connection. -/
theorem processCloseFrame_ne_ok (cfg : WsConfig) (c : MsgConn) (frame : WsFrame) :
    (processCloseFrame cfg c frame).2 ≠ .ok := by
  simp only [processCloseFrame, MsgConn.wsFailConnection]
  split_ifs <;> simp

theorem deliverFragments_state (cfg : WsConfig) (c : MsgConn) (opcode : UInt8)
    (message : Bytes) : (deliverFragments cfg c opcode message).state = c.state := by
  unfold deliverFragments
  have h := c.alloc_state
  split
  · rcases hc : c.alloc with ⟨_ | _, c'⟩ <;> rw [hc] at h
    · exact h
    · exact (MsgConn.callback_state _ _ _).trans h
  · split
    · exact MsgConn.callback_state _ _ _
    · rfl

variable {cfg : WsConfig} {c : MsgConn} {frame : WsFrame}

theorem finishContinuation_state {fin : Bool} (h : (finishContinuation cfg c fin).2 = .ok) :
    (finishContinuation cfg c fin).1.state = c.state := by
  simp only [finishContinuation] at h ⊢
  split
  · rename_i hfin
    rw [if_pos hfin] at h
    split
    · rename_i hbad
      rw [if_pos hbad] at h
      cases h
    · exact deliverFragments_state _ _ _ _
  · rfl

theorem processContinuationFrame_state (h : (processContinuationFrame cfg c frame).2 = .ok) :
    (processContinuationFrame cfg c frame).1.state = c.state := by
  have ha := c.alloc_state
  simp only [processContinuationFrame] at h ⊢
  split at h
  · cases h
  rename_i hfrag
  rw [if_neg hfrag]
  split at h
  · cases h
  rename_i hbig
  rw [if_neg hbig]
  split at h
  · rename_i hgrow
    rw [if_pos hgrow]
    rcases hc : c.alloc with ⟨_ | _, c'⟩
    · rw [hc] at h; cases h
    · rw [hc] at h ha
      simp only at h ⊢
      rw [finishContinuation_state h]
      exact ha
  · rename_i hfits
    rw [if_neg hfits, finishContinuation_state h]

theorem processFragmentedFrame_state (h : (processFragmentedFrame cfg c frame).2 = .ok) :
    (processFragmentedFrame cfg c frame).1.state = c.state := by
  have ha := c.alloc_state
  simp only [processFragmentedFrame] at h ⊢
  split at h
  · cases h
  rename_i hfrag
  rw [if_neg hfrag]
  split at h
  · rename_i hfirst
    rw [if_pos hfirst]
    rcases hc : c.alloc with ⟨_ | _, c'⟩
    · rw [hc] at h; cases h
    · rw [hc] at ha; exact ha
  rename_i hwhole
  rw [if_neg hwhole]
  split at h
  · cases h
  rename_i hutf8
  rw [if_neg hutf8]
  split at h
  · rename_i htext
    rw [if_pos htext]
    rcases hc : c.alloc with ⟨_ | _, c'⟩
    · rw [hc] at h; cases h
    · rw [hc] at ha
      exact (MsgConn.callback_state _ _ _).trans ha
  · rename_i htext
    rw [if_neg htext]
    split
    · exact MsgConn.callback_state _ _ _
    · rfl

/-- A frame that is handled without a close or an error leaves the connection's state. -/
theorem processWebsocketFrame_state (h : (processWebsocketFrame cfg c frame).2 = .ok) :
    (processWebsocketFrame cfg c frame).1.state = c.state := by
  simp only [processWebsocketFrame] at h ⊢
  split at h
  · cases h
  rename_i hctl
  rw [if_neg hctl]
  split_ifs at h ⊢ with h1 h2 h3 h4 h5 h6
  · exact processFragmentedFrame_state h
  · exact processFragmentedFrame_state h
  · have hs := c.sendFrame_state opPong frame.data
    unfold MsgConn.wsSendPongFrame at h ⊢
    rcases hc : c.sendFrame opPong frame.data with ⟨_ | _, c'⟩
    · rw [hc] at h; cases h
    · rw [hc] at hs; exact hs
  · exact MsgConn.callback_state _ _ _
  · exact absurd h (processCloseFrame_ne_ok cfg c frame)
  · exact processContinuationFrame_state h

end Portico.Ws
