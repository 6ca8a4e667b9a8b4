/-
  From frames to messages: what a sequence of frames given to `process_websocket_frame` makes
  the application see.

  The abstract side is RFC 6455, section 5.4, in its own terms: the data frames of a sequence
  are cut after each frame with FIN (`splitAfter`), a finished group is one message with the
  opcode of its first frame and the payloads in order (`rfcMessages`), and `MayFollow` says
  which frame a server that keeps the connection open may be given next: a Ping or a Pong at any
  place, a continuation inside of a message, a text or binary frame outside of one, within the
  size limit, and a finished text only as well-formed UTF-8.

  The code's side is `processFrames`, the calls of `process_websocket_frame` up to the first one
  that returns a negative value. `Tracks` says how the parser's fields hold the unfinished
  message; `processWebsocketFrame_handled` is the step, `processFrames_reassembled` the run, and
  `messages_reassembled` what follows for a fresh connection.
-/
import Portico.Lib.Segments
import Portico.Ws.Message

namespace Portico.Ws

open Portico.Lib List

/-! ## Messages of a frame sequence -/

structure WsMessage where
  opcode : UInt8
  payload : Bytes
  deriving DecidableEq, Repr

/-- Opcodes from 8 on are those of control frames. -/
def WsFrame.control (frame : WsFrame) : Bool := 0x8 ≤ frame.opcode

/-- The message that a group of fragments makes. -/
def messageOf (fragments : List WsFrame) : WsMessage :=
  { opcode := (fragments.head?.map WsFrame.opcode).getD opContinuation
    payload := fragments.flatMap WsFrame.data }

/-- The data frames, cut after each frame with FIN. -/
def fragmentGroups (frames : List WsFrame) : List (List WsFrame) × List WsFrame :=
  splitAfter WsFrame.fin (frames.filter fun frame => !frame.control)

/-- The messages of a sequence of frames, in the order of their final frames. -/
def rfcMessages (frames : List WsFrame) : List WsMessage := (fragmentGroups frames).1.map messageOf

/-- The fragments of the message that is not finished yet. -/
def unfinished (frames : List WsFrame) : List WsFrame := (fragmentGroups frames).2

variable {frame : WsFrame} {fragments frames : List WsFrame} {max : Nat} {c' : MsgConn}
  {p : FrameParser}

theorem fragmentGroups_control (h : frame.control = true) (before : List WsFrame) :
    fragmentGroups (before ++ [frame]) = fragmentGroups before := by
  simp [fragmentGroups, filter_append, h]

theorem fragmentGroups_final (h : frame.control = false) (hfin : frame.fin = true)
    (before : List WsFrame) :
    fragmentGroups (before ++ [frame]) =
      ((fragmentGroups before).1 ++ [unfinished before ++ [frame]], []) := by
  rw [fragmentGroups, filter_append, filter_cons_of_pos (by simp [h]), filter_nil,
    splitAfter_append_end hfin]
  rfl

theorem fragmentGroups_fragment (h : frame.control = false) (hfin : frame.fin = false)
    (before : List WsFrame) :
    fragmentGroups (before ++ [frame]) =
      ((fragmentGroups before).1, unfinished before ++ [frame]) := by
  rw [fragmentGroups, filter_append, filter_cons_of_pos (by simp [h]), filter_nil,
    splitAfter_append_open hfin]
  rfl

/-- The message with one more fragment. -/
theorem messageOf_append (h : fragments ≠ []) (frame : WsFrame) :
    messageOf (fragments ++ [frame]) =
      { opcode := (messageOf fragments).opcode
        payload := (messageOf fragments).payload ++ frame.data } := by
  obtain ⟨first, rest, rfl⟩ := exists_cons_of_ne_nil h
  simp [messageOf]

theorem messageOf_singleton (frame : WsFrame) :
    messageOf [frame] = { opcode := frame.opcode, payload := frame.data } := by
  simp [messageOf]

/-- The frame may come after `before` on a connection that stays open. -/
structure MayFollow (max : Nat) (before : List WsFrame) (frame : WsFrame) : Prop where
  control : frame.control = true →
    frame.fin = true ∧ frame.payloadLen ≤ 125 ∧ (frame.opcode = opPing ∨ frame.opcode = opPong)
  place : frame.control = false →
    if unfinished before = [] then frame.opcode = opText ∨ frame.opcode = opBinary
    else frame.opcode = opContinuation
  size : frame.control = false →
    (messageOf (unfinished before ++ [frame])).payload.length ≤ max
  text : frame.control = false → frame.fin = true →
    (messageOf (unfinished before ++ [frame])).opcode = opText →
    Utf8Text (messageOf (unfinished before ++ [frame])).payload

/-- Every frame may follow the ones before it. -/
inductive Legal (max : Nat) : List WsFrame → Prop
  | nil : Legal max []
  | snoc {before : List WsFrame} {frame : WsFrame} (hbefore : Legal max before)
      (hframe : MayFollow max before frame) : Legal max (before ++ [frame])

/-- A text message of well-formed UTF-8, or a binary message. -/
def WsMessage.Proper (m : WsMessage) : Prop :=
  m.opcode = opText ∧ Utf8Text m.payload ∨ m.opcode = opBinary

theorem MayFollow.opcode_of {before : List WsFrame} (h : MayFollow max before frame)
    (hctl : frame.control = false)
    (hbefore : unfinished before ≠ [] → (messageOf (unfinished before)).opcode = opText ∨
      (messageOf (unfinished before)).opcode = opBinary) :
    (messageOf (unfinished before ++ [frame])).opcode = opText ∨
      (messageOf (unfinished before ++ [frame])).opcode = opBinary := by
  have hplace := h.place hctl
  by_cases hopen : unfinished before = []
  · rw [if_pos hopen] at hplace
    rw [hopen, nil_append, messageOf_singleton]
    exact hplace
  · rw [messageOf_append hopen]
    exact hbefore hopen

theorem Legal.unfinished_opcode (h : Legal max frames) :
    unfinished frames ≠ [] → (messageOf (unfinished frames)).opcode = opText ∨
      (messageOf (unfinished frames)).opcode = opBinary := by
  induction h with
  | nil => exact fun hne => absurd rfl hne
  | @snoc before frame hbefore hframe ih =>
    intro hne
    by_cases hctl : frame.control = true
    · rw [unfinished, fragmentGroups_control hctl] at hne ⊢
      exact ih hne
    rw [Bool.not_eq_true] at hctl
    cases hfin : frame.fin with
    | true => exact absurd (by rw [unfinished, fragmentGroups_final hctl hfin]) hne
    | false =>
      rw [unfinished, fragmentGroups_fragment hctl hfin]
      exact hframe.opcode_of hctl ih

/-- The messages of a legal sequence are of the two kinds, and its texts are well-formed. -/
theorem Legal.proper (h : Legal max frames) : ∀ m ∈ rfcMessages frames, m.Proper := by
  induction h with
  | nil => exact fun m hm => absurd hm (by simp [rfcMessages, fragmentGroups, splitAfter])
  | @snoc before frame hbefore hframe ih =>
    intro m hm
    by_cases hctl : frame.control = true
    · rw [rfcMessages, fragmentGroups_control hctl] at hm
      exact ih m hm
    rw [Bool.not_eq_true] at hctl
    cases hfin : frame.fin with
    | false =>
      rw [rfcMessages, fragmentGroups_fragment hctl hfin] at hm
      exact ih m hm
    | true =>
      rw [rfcMessages, fragmentGroups_final hctl hfin, map_append, mem_append] at hm
      rcases hm with hm | hm
      · exact ih m hm
      · obtain rfl := mem_singleton.mp hm
        rcases hframe.opcode_of hctl hbefore.unfinished_opcode with htext | hbinary
        · exact .inl ⟨htext, hframe.text hctl hfin htext⟩
        · exact .inr hbinary

/-! ## What the server holds and hands on -/

/-- The message a callback hands to the application. -/
def Callback.message : Callback → Option WsMessage
  | .onText text => some { opcode := opText, payload := text }
  | .onBinary data => some { opcode := opBinary, payload := data }
  | _ => none

/-- The messages handed to `on_text_message` and `on_binary_message`, in order. -/
def handedOn (callbacks : List Callback) : List WsMessage := callbacks.filterMap Callback.message

/-- The application has set the callback for the message. -/
def WsConfig.wants (cfg : WsConfig) (m : WsMessage) : Bool :=
  m.opcode = opText && cfg.hasOnText || m.opcode = opBinary && cfg.hasOnBinary

/-- The calls of `process_websocket_frame` up to the first one that does not return 0: the
    connection then, the frames handled with 0, and the last answer. -/
def processFrames (cfg : WsConfig) :
    MsgConn → List WsFrame → MsgConn × List WsFrame × ProcResult
  | c, [] => (c, [], .ok)
  | c, frame :: frames =>
    match processWebsocketFrame cfg c frame with
    | (c', .ok) =>
      let (c'', accepted, result) := processFrames cfg c' frames
      (c'', frame :: accepted, result)
    | (c', result) => (c', [], result)

/-- The parser's buffer is there exactly inside a fragmented message, and large enough. -/
structure FrameParser.Sound (max : Nat) (p : FrameParser) : Prop where
  buffer : p.fragmentBuffer.isSome = p.inFragmentedMessage
  limit : p.fragmentTotalSize ≤ max
  room : p.fragmentTotalSize ≤ p.fragmentBufferSize

/-- The parser holds the fragments: it is zeroed if there are none. -/
structure Holds (max : Nat) (p : FrameParser) (fragments : List WsFrame) : Prop where
  none : fragments = [] → p = .init
  some : fragments ≠ [] → p.inFragmentedMessage = true ∧
    p.fragmentOpcode = (messageOf fragments).opcode ∧
    p.fragmentBuffer = some (messageOf fragments).payload ∧
    p.fragmentTotalSize = (messageOf fragments).payload.length ∧
    (messageOf fragments).payload.length ≤ max ∧
    (messageOf fragments).payload.length ≤ p.fragmentBufferSize

/-- The connection after the frames `before`, none of which was refused. -/
structure Tracks (cfg : WsConfig) (before : List WsFrame) (c : MsgConn) : Prop where
  allocs : c.allocs = []
  writes : c.writes = []
  parser : Holds cfg.maxMessageSize c.parser (unfinished before)
  handed : handedOn c.callbacks = (rfcMessages before).filter cfg.wants

/-- The connection after a refused frame. -/
structure Refused (cfg : WsConfig) (before : List WsFrame) (c : MsgConn) : Prop where
  parser : c.parser.Sound cfg.maxMessageSize
  handed : handedOn c.callbacks = (rfcMessages before).filter cfg.wants

/-- What handling one frame after `before` comes to. -/
def Handled (cfg : WsConfig) (before : List WsFrame) (frame : WsFrame)
    (out : MsgConn × ProcResult) : Prop :=
  MayFollow cfg.maxMessageSize before frame ∧ out.2 = .ok ∧ Tracks cfg (before ++ [frame]) out.1 ∨
    ¬ MayFollow cfg.maxMessageSize before frame ∧ out.2 ≠ .ok ∧ Refused cfg before out.1

theorem FrameParser.init_sound (max : Nat) : FrameParser.init.Sound max :=
  ⟨rfl, Nat.zero_le _, Nat.zero_le _⟩

theorem Holds.sound (h : Holds max p fragments) : p.Sound max := by
  by_cases hnil : fragments = []
  · rw [h.none hnil]
    exact FrameParser.init_sound max
  · obtain ⟨hin, _, hbuf, htotal, hlimit, hroom⟩ := h.some hnil
    exact ⟨by rw [hbuf, hin]; rfl, htotal ▸ hlimit, htotal ▸ hroom⟩

theorem Holds.inFragmentedMessage_iff (h : Holds max p fragments) :
    p.inFragmentedMessage = true ↔ fragments ≠ [] := by
  constructor
  · intro hin hnil
    rw [h.none hnil] at hin
    exact absurd hin (by decide)
  · exact fun hne => (h.some hne).1

theorem handedOn_append (callbacks : List Callback) (cb : Callback) :
    handedOn (callbacks ++ [cb]) = handedOn callbacks ++ cb.message.toList := by
  rw [handedOn, filterMap_append]
  cases hm : cb.message <;> simp [handedOn, hm]

theorem handedOn_other {cb : Callback} (h : cb.message = none) (callbacks : List Callback) :
    handedOn (callbacks ++ [cb]) = handedOn callbacks := by
  rw [handedOn_append, h, Option.toList_none, append_nil]

/-- The same parser and the same callbacks. -/
structure SameReport (c c' : MsgConn) : Prop where
  parser : c'.parser = c.parser
  callbacks : c'.callbacks = c.callbacks

theorem SameReport.trans {c1 c2 c3 : MsgConn} (h : SameReport c1 c2) (h' : SameReport c2 c3) :
    SameReport c1 c3 := ⟨h'.parser.trans h.parser, h'.callbacks.trans h.callbacks⟩

theorem alloc_sameReport (c : MsgConn) : SameReport c c.alloc.2 := by
  unfold MsgConn.alloc
  split <;> exact ⟨rfl, rfl⟩

theorem write_sameReport (c : MsgConn) (frame : Bytes) : SameReport c (c.write frame).2 := by
  simp only [MsgConn.write]
  split <;> exact ⟨rfl, rfl⟩

theorem sendFrame_sameReport (c : MsgConn) (opcode : UInt8) (payload : Bytes) :
    SameReport c (c.sendFrame opcode payload).2 := by
  unfold MsgConn.sendFrame
  have h := alloc_sameReport c
  rcases hc : c.alloc with ⟨_ | _, c'⟩ <;> rw [hc] at h
  · exact h
  · exact h.trans (write_sameReport _ _)

theorem wsSendCloseFrame_sameReport (c : MsgConn) (code : Nat) (reason : Bytes) :
    SameReport c (c.wsSendCloseFrame code reason).2 := by
  unfold MsgConn.wsSendCloseFrame
  split
  · exact sendFrame_sameReport _ _ _
  · have h := alloc_sameReport c
    rcases hc : c.alloc with ⟨_ | _, c'⟩ <;> rw [hc] at h
    · exact h
    · exact h.trans (sendFrame_sameReport _ _ _)

theorem wsFailConnection_sameReport (c : MsgConn) (code : Nat) :
    SameReport c (c.wsFailConnection code).1 :=
  have h : SameReport c (c.setState .closing) := ⟨rfl, rfl⟩
  h.trans (wsSendCloseFrame_sameReport _ _ _)

/-- With no failure ahead an allocation changes nothing. -/
theorem alloc_of_nil {c : MsgConn} (h : c.allocs = []) : c.alloc = (true, c) := by
  unfold MsgConn.alloc
  rw [h]

section Step

variable {cfg : WsConfig} {before : List WsFrame} {c : MsgConn} {frame : WsFrame} {size : Nat}
  {m : WsMessage}

section

variable (h : Tracks cfg before c)

include h

theorem Tracks.refused (hsame : SameReport c c') : Refused cfg before c' :=
  ⟨hsame.parser ▸ h.parser.sound, hsame.callbacks ▸ h.handed⟩

/-- Any close by `ws_fail_connection` is a refusal, also after the buffer is released. -/
theorem Tracks.failed (code : Nat) : Refused cfg before (c.wsFailConnection code).1 :=
  h.refused (wsFailConnection_sameReport c code)

theorem Tracks.failed_cleanup (hcb : c'.callbacks = c.callbacks) (code : Nat) :
    Refused cfg before (c'.cleanupFragmentationState.wsFailConnection code).1 := by
  have hsame := wsFailConnection_sameReport c'.cleanupFragmentationState code
  refine ⟨?_, ?_⟩
  · rw [hsame.parser]
    exact FrameParser.init_sound _
  · rw [hsame.callbacks]
    exact hcb ▸ h.handed

/-- A Close frame hands on no message. -/
theorem Tracks.closed : Refused cfg before (processCloseFrame cfg c frame).1 := by
  have hclose : ∀ code cb, Callback.message cb = none →
      Refused cfg before ((((c.setState .closing).wsSendCloseFrame code []).2).callback
        cfg.hasOnClose cb) := by
    intro code cb hcb
    have hset : SameReport c (c.setState .closing) := ⟨rfl, rfl⟩
    have hr := h.refused (hset.trans (wsSendCloseFrame_sameReport _ code []))
    unfold MsgConn.callback
    split
    · exact ⟨hr.parser, (handedOn_other hcb _).trans hr.handed⟩
    · exact hr
  simp only [processCloseFrame]
  split_ifs
  · exact h.failed _
  · exact h.failed _
  · exact h.failed _
  · exact hclose _ _ rfl
  · exact hclose _ _ rfl

/-- A control frame changes nothing of the messages. -/
theorem Tracks.control (hctl : frame.control = true) : Tracks cfg (before ++ [frame]) c := by
  refine ⟨h.allocs, h.writes, ?_, ?_⟩
  · rw [unfinished, fragmentGroups_control hctl]
    exact h.parser
  · rw [rfcMessages, fragmentGroups_control hctl]
    exact h.handed

end

theorem mayFollow_control (hctl : frame.control = true) (hfin : frame.fin = true)
    (hlen : frame.payloadLen ≤ 125) (hop : frame.opcode = opPing ∨ frame.opcode = opPong) :
    MayFollow cfg.maxMessageSize before frame :=
  have hno : frame.control ≠ false := by simp [hctl]
  ⟨fun _ => ⟨hfin, hlen, hop⟩, fun h => absurd h hno, fun h => absurd h hno,
    fun h => absurd h hno⟩

theorem Tracks.pong (h : Tracks cfg before c) :
    c.wsSendPongFrame frame.data = (true,
      { c with replies := c.replies ++ [wsEncodeFrame opPong frame.data] }) := by
  rw [MsgConn.wsSendPongFrame, MsgConn.sendFrame, alloc_of_nil h.allocs]
  simp only [MsgConn.write, h.writes]

theorem processWebsocketFrame_control (h : Tracks cfg before c) (hctl : frame.control = true) :
    Handled cfg before frame (processWebsocketFrame cfg c frame) := by
  have hop8 : 0x8 ≤ frame.opcode := of_decide_eq_true hctl
  simp only [processWebsocketFrame]
  by_cases hbad : (0x8 ≤ frame.opcode && (!frame.fin || 125 < frame.payloadLen)) = true
  · rw [if_pos hbad]
    refine .inr ⟨fun hmay => ?_, by simp [MsgConn.wsFailConnection], h.failed _⟩
    obtain ⟨hfin, hlen, _⟩ := hmay.control hctl
    simp [hfin] at hbad
    omega
  rw [if_neg hbad]
  have hok : frame.fin = true ∧ frame.payloadLen ≤ 125 := by
    simpa [hop8] using hbad
  have hnot : ∀ op, op < 0x8 → frame.opcode ≠ op := by
    rintro op hop rfl
    exact absurd hop8 (UInt8.not_le.mpr hop)
  rw [if_neg (hnot opText (by decide)), if_neg (hnot opBinary (by decide))]
  by_cases hping : frame.opcode = opPing
  · rw [if_pos hping, h.pong]
    have htracks : Tracks cfg before
        { c with replies := c.replies ++ [wsEncodeFrame opPong frame.data] } :=
      ⟨h.allocs, h.writes, h.parser, h.handed⟩
    exact .inl ⟨mayFollow_control hctl hok.1 hok.2 (.inl hping), rfl, htracks.control hctl⟩
  rw [if_neg hping]
  by_cases hpong : frame.opcode = opPong
  · rw [if_pos hpong]
    refine .inl ⟨mayFollow_control hctl hok.1 hok.2 (.inr hpong), rfl, Tracks.control ?_ hctl⟩
    unfold MsgConn.callback
    split
    · exact ⟨h.allocs, h.writes, h.parser, (handedOn_other rfl _).trans h.handed⟩
    · exact h
  rw [if_neg hpong]
  have hno : ¬ MayFollow cfg.maxMessageSize before frame := fun hmay =>
    (hmay.control hctl).2.2.elim hping hpong
  by_cases hclose : frame.opcode = opClose
  · rw [if_pos hclose]
    exact .inr ⟨hno, processCloseFrame_ne_ok cfg c frame, h.closed⟩
  · rw [if_neg hclose, if_neg (hnot opContinuation (by decide))]
    exact .inr ⟨hno, by simp, h.refused ⟨rfl, rfl⟩⟩

/-- Delivery hands on the message if the application wants it, and nothing else. -/
theorem deliverFragments_handed (cfg : WsConfig) (halloc : c.allocs = []) (opcode : UInt8)
    (message : Bytes) :
    ∃ callbacks, deliverFragments cfg c opcode message = { c with callbacks := callbacks } ∧
      handedOn callbacks = handedOn c.callbacks ++
        [({ opcode := opcode, payload := message } : WsMessage)].filter cfg.wants := by
  simp only [deliverFragments, alloc_of_nil halloc, MsgConn.callback, if_true]
  by_cases htext : opcode = opText
  · have hbin : opText ≠ opBinary := by decide
    subst htext
    cases hcb : cfg.hasOnText with
    | true =>
      refine ⟨c.callbacks ++ [.onText message], by simp, ?_⟩
      rw [handedOn_append]
      simp [WsConfig.wants, hcb, Callback.message]
    | false => exact ⟨c.callbacks, by simp [hbin], by simp [WsConfig.wants, hcb, hbin]⟩
  · by_cases hbin : opcode = opBinary
    · subst hbin
      cases hcb : cfg.hasOnBinary with
      | true =>
        refine ⟨c.callbacks ++ [.onBinary message], by simp [htext], ?_⟩
        rw [handedOn_append]
        simp [WsConfig.wants, hcb, Callback.message]
      | false => exact ⟨c.callbacks, by simp [htext], by simp [WsConfig.wants, hcb, htext]⟩
    · exact ⟨c.callbacks, by simp [htext, hbin], by simp [WsConfig.wants, htext, hbin]⟩

/-- After the final frame of a message the parser is zeroed again and the message handed on. -/
theorem Tracks.finish (h : Tracks cfg before c) (hctl : frame.control = false)
    (hfin : frame.fin = true) (halloc : c'.allocs = []) (hwrite : c'.writes = [])
    (hparser : c'.parser = .init)
    (hcb : handedOn c'.callbacks = handedOn c.callbacks ++
      [messageOf (unfinished before ++ [frame])].filter cfg.wants) :
    Tracks cfg (before ++ [frame]) c' := by
  refine ⟨halloc, hwrite, ?_, ?_⟩
  · rw [unfinished, fragmentGroups_final hctl hfin]
    exact ⟨fun _ => hparser, fun hne => absurd rfl hne⟩
  · rw [hcb, h.handed, rfcMessages, rfcMessages, fragmentGroups_final hctl hfin, map_append,
      filter_append]
    rfl

/-- After a frame without FIN the parser holds one fragment more. -/
theorem Tracks.fragment (h : Tracks cfg before c) (hctl : frame.control = false)
    (hfin : frame.fin = false) (halloc : c'.allocs = []) (hwrite : c'.writes = [])
    (hparser : Holds cfg.maxMessageSize c'.parser (unfinished before ++ [frame]))
    (hcb : c'.callbacks = c.callbacks) : Tracks cfg (before ++ [frame]) c' := by
  refine ⟨halloc, hwrite, ?_, ?_⟩
  · rw [unfinished, fragmentGroups_fragment hctl hfin]
    exact hparser
  · rw [hcb, h.handed, rfcMessages, rfcMessages, fragmentGroups_fragment hctl hfin]

theorem length_data (hlen : frame.payloadLen ≤ frame.payload.length) :
    frame.data.length = frame.payloadLen := by
  rw [WsFrame.data, length_take, Nat.min_eq_left hlen]

/-- A frame that is a whole message is delivered as it is. -/
theorem processFragmentedFrame_whole (halloc : c.allocs = [])
    (hidle : c.parser.inFragmentedMessage = false) (hfin : frame.fin = true)
    (hutf8 : frame.opcode = opText → wsUtf8Valid frame.data = true) :
    processFragmentedFrame cfg c frame =
      (deliverFragments cfg c frame.opcode frame.data, .ok) := by
  have hok : ¬ (frame.opcode = opText && !wsUtf8Valid frame.data) = true := by
    simpa using hutf8
  simp only [processFragmentedFrame, deliverFragments, hidle, hfin, hok, alloc_of_nil halloc]
  simp only [Bool.false_eq_true, if_false, Bool.not_true]
  split_ifs <;> rfl

theorem MayFollow.data (hctl : frame.control = false)
    (hplace : if unfinished before = [] then frame.opcode = opText ∨ frame.opcode = opBinary
      else frame.opcode = opContinuation)
    (hsize : (messageOf (unfinished before ++ [frame])).payload.length ≤ cfg.maxMessageSize)
    (htext : frame.fin = true → (messageOf (unfinished before ++ [frame])).opcode = opText →
      Utf8Text (messageOf (unfinished before ++ [frame])).payload) :
    MayFollow cfg.maxMessageSize before frame :=
  ⟨fun h => absurd hctl (by simp [h]), fun _ => hplace, fun _ => hsize, fun _ => htext⟩

/-- A text or binary frame. -/
theorem processFragmentedFrame_handled (hmax : cfg.maxMessageSize < 2 ^ 62)
    (h : Tracks cfg before c) (hlen : frame.payloadLen ≤ frame.payload.length)
    (hsize : frame.payloadLen ≤ cfg.maxMessageSize) (hctl : frame.control = false)
    (hop : frame.opcode = opText ∨ frame.opcode = opBinary) :
    Handled cfg before frame (processFragmentedFrame cfg c frame) := by
  by_cases hopen : unfinished before = []
  swap
  · -- a new message inside of one
    rw [processFragmentedFrame, if_pos (h.parser.inFragmentedMessage_iff.mpr hopen)]
    refine .inr ⟨fun hmay => ?_, by simp, h.refused ⟨rfl, rfl⟩⟩
    have hplace := hmay.place hctl
    rw [if_neg hopen] at hplace
    rw [hplace] at hop
    exact absurd hop (by decide)
  have hidle : c.parser = .init := h.parser.none hopen
  have hmsg : messageOf (unfinished before ++ [frame]) =
      { opcode := frame.opcode, payload := frame.data } := by
    rw [hopen, nil_append, messageOf_singleton]
  have hdata := length_data hlen
  have hmay : (frame.fin = true → frame.opcode = opText → Utf8Text frame.data) →
      MayFollow cfg.maxMessageSize before frame := fun htext =>
    MayFollow.data hctl (by rw [if_pos hopen]; exact hop) (by rw [hmsg]; exact hdata ▸ hsize)
      (by rw [hmsg]; exact htext)
  cases hfin : frame.fin with
  | false =>
    simp only [processFragmentedFrame, alloc_of_nil h.allocs, hidle, hfin]
    refine .inl ⟨hmay fun hf => absurd hf (by simp [hfin]), rfl, ?_⟩
    refine h.fragment hctl hfin h.allocs h.writes ⟨fun hnil => absurd hnil (by simp), fun _ => ?_⟩
      rfl
    rw [hmsg, hdata]
    refine ⟨rfl, rfl, rfl, rfl, hsize, ?_⟩
    simp only [FrameParser.init, Bool.false_eq_true, Bool.not_false, if_true, if_false, sizeMul]
    split <;> omega
  | true =>
    by_cases hutf8 : frame.opcode = opText → wsUtf8Valid frame.data = true
    · rw [processFragmentedFrame_whole h.allocs (by rw [hidle]; rfl) hfin hutf8]
      obtain ⟨callbacks, heq, hcb⟩ := deliverFragments_handed cfg h.allocs frame.opcode frame.data
      rw [heq]
      refine .inl ⟨hmay fun _ ht => (wsUtf8Valid_iff _).mp (hutf8 ht), rfl, ?_⟩
      exact h.finish hctl hfin h.allocs h.writes hidle (by rw [hmsg]; exact hcb)
    · obtain ⟨htext, hbad⟩ := Classical.not_imp.mp hutf8
      simp only [processFragmentedFrame, hidle, hfin, htext, hbad]
      refine .inr ⟨fun hmay => hbad ?_, by simp [FrameParser.init, MsgConn.wsFailConnection],
        h.failed _⟩
      have hword := hmay.text hctl hfin
      rw [hmsg] at hword
      exact (wsUtf8Valid_iff _).mpr (hword htext)

/-- The parser after a further fragment. -/
def extendedParser (size : Nat) (m : WsMessage) : FrameParser :=
  { inFragmentedMessage := true, fragmentOpcode := m.opcode, fragmentBuffer := some m.payload,
    fragmentBufferSize := size, fragmentTotalSize := m.payload.length }

/-- Inside a message and within the limit, a continuation is appended, whether or not the
    buffer has to grow. -/
theorem processContinuationFrame_append (hmax : cfg.maxMessageSize < 2 ^ 62)
    (h : Tracks cfg before c) (hlen : frame.payloadLen ≤ frame.payload.length)
    (hopen : unfinished before ≠ [])
    (hfits : (messageOf (unfinished before ++ [frame])).payload.length ≤ cfg.maxMessageSize) :
    ∃ size, (messageOf (unfinished before ++ [frame])).payload.length ≤ size ∧
      processContinuationFrame cfg c frame = finishContinuation cfg
        { c with parser := extendedParser size (messageOf (unfinished before ++ [frame])) }
        frame.fin := by
  obtain ⟨hin, hop, hbuf, htotal, hlimit, hroom⟩ := h.parser.some hopen
  have hmsg := messageOf_append hopen frame
  have hnext : (messageOf (unfinished before ++ [frame])).payload.length =
      (messageOf (unfinished before)).payload.length + frame.payloadLen := by
    rw [hmsg, length_append, length_data hlen]
  rw [hnext] at hfits ⊢
  have hsub : ¬ sizeSub cfg.maxMessageSize (messageOf (unfinished before)).payload.length <
      frame.payloadLen := by
    simp only [sizeSub]
    omega
  have hneeded : ((messageOf (unfinished before)).payload.length + frame.payloadLen) % 2 ^ 64 =
      (messageOf (unfinished before)).payload.length + frame.payloadLen := by
    omega
  simp only [processContinuationFrame, hin, htotal, hsub, hneeded, alloc_of_nil h.allocs]
  by_cases hgrow : c.parser.fragmentBufferSize <
      (messageOf (unfinished before)).payload.length + frame.payloadLen
  · refine ⟨sizeMul ((messageOf (unfinished before)).payload.length + frame.payloadLen) 2, ?_, ?_⟩
    · simp only [sizeMul]
      omega
    · simp [hgrow, extendedParser, hmsg, hbuf, hop, length_data hlen]
  · refine ⟨c.parser.fragmentBufferSize, by omega, ?_⟩
    simp [hgrow, extendedParser, hmsg, hbuf, hop, length_data hlen]

/-- The final fragment delivers the message and zeroes the parser. -/
theorem finishContinuation_delivers (cfg : WsConfig) (halloc : c.allocs = [])
    (hparser : c.parser = extendedParser size m)
    (hutf8 : m.opcode = opText → wsUtf8Valid m.payload = true) :
    ∃ callbacks, finishContinuation cfg c true =
        ({ c with parser := .init, callbacks := callbacks }, .ok) ∧
      handedOn callbacks = handedOn c.callbacks ++ [m].filter cfg.wants := by
  have hok : ¬ (m.opcode = opText && !wsUtf8Valid m.payload) = true := by
    simpa using hutf8
  obtain ⟨callbacks, hdeliver, hcb⟩ := deliverFragments_handed cfg halloc m.opcode m.payload
  refine ⟨callbacks, ?_, hcb⟩
  simp only [finishContinuation, hparser, extendedParser, Option.getD_some, if_true, if_neg hok]
  rw [hdeliver]
  rfl

theorem finishContinuation_fails (hparser : c.parser = extendedParser size m)
    (htext : m.opcode = opText) (hbad : ¬ wsUtf8Valid m.payload = true) :
    finishContinuation cfg c true =
      c.cleanupFragmentationState.wsFailConnection closeInvalidUtf8 := by
  simp [finishContinuation, hparser, extendedParser, htext, hbad]

/-- A continuation frame. -/
theorem processContinuationFrame_handled (hmax : cfg.maxMessageSize < 2 ^ 62)
    (h : Tracks cfg before c) (hlen : frame.payloadLen ≤ frame.payload.length)
    (hctl : frame.control = false) (hop : frame.opcode = opContinuation) :
    Handled cfg before frame (processContinuationFrame cfg c frame) := by
  by_cases hopen : unfinished before = []
  · -- nothing to continue
    rw [processContinuationFrame, h.parser.none hopen]
    refine .inr ⟨fun hmay => ?_, by simp [FrameParser.init], h.refused ⟨rfl, rfl⟩⟩
    have hplace := hmay.place hctl
    rw [if_pos hopen, hop] at hplace
    exact absurd hplace (by decide)
  by_cases hfits : (messageOf (unfinished before ++ [frame])).payload.length ≤ cfg.maxMessageSize
  swap
  · -- the message would be too big
    obtain ⟨hin, _, _, htotal, hlimit, _⟩ := h.parser.some hopen
    have hbig : sizeSub cfg.maxMessageSize c.parser.fragmentTotalSize < frame.payloadLen := by
      rw [messageOf_append hopen, length_append, length_data hlen] at hfits
      rw [htotal]
      simp only [sizeSub]
      omega
    rw [processContinuationFrame, hin]
    simp only [Bool.not_true, Bool.false_eq_true, if_false, hbig, if_true]
    exact .inr ⟨fun hmay => hfits (hmay.size hctl), by simp [MsgConn.wsFailConnection],
      h.failed_cleanup rfl _⟩
  obtain ⟨size, hroom, heq⟩ := processContinuationFrame_append hmax h hlen hopen hfits
  have hmay := fun htext => MayFollow.data hctl (by rw [if_neg hopen]; exact hop) hfits htext
  rw [heq]
  cases hfin : frame.fin with
  | false =>
    refine .inl ⟨hmay fun hf => absurd hf (by simp [hfin]), rfl, ?_⟩
    exact h.fragment hctl hfin h.allocs h.writes ⟨fun hnil => absurd hnil (by simp),
      fun _ => ⟨rfl, rfl, rfl, rfl, hfits, hroom⟩⟩ rfl
  | true =>
    by_cases hutf8 : (messageOf (unfinished before ++ [frame])).opcode = opText →
        wsUtf8Valid (messageOf (unfinished before ++ [frame])).payload = true
    · obtain ⟨callbacks, hfinish, hcb⟩ := finishContinuation_delivers cfg
        (c := { c with parser := extendedParser size (messageOf (unfinished before ++ [frame])) })
        h.allocs rfl hutf8
      rw [hfinish]
      refine .inl ⟨hmay fun _ ht => (wsUtf8Valid_iff _).mp (hutf8 ht), rfl, ?_⟩
      exact h.finish hctl hfin h.allocs h.writes rfl hcb
    · obtain ⟨htext, hbad⟩ := Classical.not_imp.mp hutf8
      rw [finishContinuation_fails rfl htext hbad]
      refine .inr ⟨fun hmay => hbad ?_, by simp [MsgConn.wsFailConnection],
        h.failed_cleanup rfl _⟩
      exact (wsUtf8Valid_iff _).mpr (hmay.text hctl hfin htext)

/-- One frame: it is handled if and only if it may follow, and the parser and the messages handed
    on are then those of the longer sequence. -/
theorem processWebsocketFrame_handled (hmax : cfg.maxMessageSize < 2 ^ 62)
    (h : Tracks cfg before c) (hlen : frame.payloadLen ≤ frame.payload.length)
    (hsize : frame.payloadLen ≤ cfg.maxMessageSize) :
    Handled cfg before frame (processWebsocketFrame cfg c frame) := by
  cases hctl : frame.control with
  | true => exact processWebsocketFrame_control h hctl
  | false =>
    have hop8 : ¬ 0x8 ≤ frame.opcode := of_decide_eq_false hctl
    have hnot : ∀ op, 0x8 ≤ op → frame.opcode ≠ op := by
      rintro op hop rfl
      exact hop8 hop
    simp only [processWebsocketFrame, hop8, decide_false, Bool.false_and, Bool.false_eq_true,
      if_false, if_neg (hnot opPing (by decide)), if_neg (hnot opPong (by decide)),
      if_neg (hnot opClose (by decide))]
    by_cases htext : frame.opcode = opText
    · rw [if_pos htext]
      exact processFragmentedFrame_handled hmax h hlen hsize hctl (.inl htext)
    rw [if_neg htext]
    by_cases hbinary : frame.opcode = opBinary
    · rw [if_pos hbinary]
      exact processFragmentedFrame_handled hmax h hlen hsize hctl (.inr hbinary)
    rw [if_neg hbinary]
    by_cases hcont : frame.opcode = opContinuation
    · rw [if_pos hcont]
      exact processContinuationFrame_handled hmax h hlen hctl hcont
    · rw [if_neg hcont]
      refine .inr ⟨fun hmay => ?_, by simp, h.refused ⟨rfl, rfl⟩⟩
      have hplace := hmay.place hctl
      split at hplace
      · exact hplace.elim htext hbinary
      · exact hcont hplace

end Step

/-! ## Whole sequences -/

/-- What a sequence of frames has come to when `process_websocket_frame` has returned a negative
    value or all frames are handled. -/
structure Reassembled (cfg : WsConfig) (frames : List WsFrame)
    (out : MsgConn × List WsFrame × ProcResult) : Prop where
  /-- The frames handled with 0 are a legal beginning of the sequence, -/
  accepted : out.2.1 <+: frames
  legal : Legal cfg.maxMessageSize out.2.1
  /-- and they are all frames up to the first one that is not legal. -/
  stops : ∀ frame, out.2.1 ++ [frame] <+: frames →
    ¬ MayFollow cfg.maxMessageSize out.2.1 frame ∧ out.2.2 ≠ .ok
  goesOn : out.2.1 = frames → out.2.2 = .ok
  /-- The messages handed on are those of the accepted frames, without any for which no callback
      is set; -/
  handed : handedOn out.1.callbacks = (rfcMessages out.2.1).filter cfg.wants
  /-- all of them are binary, or text in well-formed UTF-8. -/
  proper : ∀ m ∈ rfcMessages out.2.1, m.Proper
  /-- The fragment buffer is there exactly inside of a fragmented message and holds it, also
      after a refused frame. -/
  parser : out.1.parser.Sound cfg.maxMessageSize
  /-- As long as no frame is refused, that is when the frames leave a message open. -/
  inProgress : out.2.2 = .ok →
    (out.1.parser.inFragmentedMessage = true ↔ unfinished out.2.1 ≠ [])

theorem Tracks.fresh (cfg : WsConfig) : Tracks cfg [] MsgConn.fresh :=
  ⟨rfl, rfl, ⟨fun _ => rfl, fun hne => absurd rfl hne⟩, rfl⟩

/-- From a connection that has handled `before`: the induction is over the frames still to come,
    and each handled frame moves from these to `before`. -/
theorem processFrames_reassembled {cfg : WsConfig} (hmax : cfg.maxMessageSize < 2 ^ 62) :
    ∀ (frames before : List WsFrame) (c : MsgConn), Legal cfg.maxMessageSize before →
      Tracks cfg before c →
      (∀ frame ∈ frames, frame.payloadLen ≤ frame.payload.length ∧
        frame.payloadLen ≤ cfg.maxMessageSize) →
      Reassembled cfg (before ++ frames) ((processFrames cfg c frames).1,
        before ++ (processFrames cfg c frames).2.1, (processFrames cfg c frames).2.2) := by
  intro frames
  induction frames with
  | nil =>
    intro before c hlegal h _
    simp only [processFrames, append_nil]
    exact
      { accepted := prefix_rfl
        legal := hlegal
        stops := fun frame hle => absurd hle.length_le (by simp)
        goesOn := fun _ => rfl
        handed := h.handed
        proper := hlegal.proper
        parser := h.parser.sound
        inProgress := fun _ => h.parser.inFragmentedMessage_iff }
  | cons frame frames ih =>
    intro before c hlegal h hframes
    obtain ⟨hlen, hsize⟩ := hframes frame mem_cons_self
    rcases hout : processWebsocketFrame cfg c frame with ⟨c', result⟩
    have hstep := processWebsocketFrame_handled hmax h hlen hsize
    rw [hout] at hstep
    rcases hstep with ⟨hmay, hok, htracks⟩ | ⟨hmay, hbad, hrefused⟩
    · obtain rfl : result = .ok := hok
      have hrest := ih (before ++ [frame]) c' (hlegal.snoc hmay) htracks
        fun f hf => hframes f (mem_cons_of_mem _ hf)
      simp only [processFrames, hout]
      simpa only [append_assoc, singleton_append] using hrest
    · have hprocess : processFrames cfg c (frame :: frames) = (c', [], result) := by
        cases result with
        | ok => exact absurd rfl hbad
        | error | closeRequested => simp only [processFrames, hout]
      rw [hprocess]
      simp only [append_nil]
      exact
        { accepted := prefix_append _ _
          legal := hlegal
          stops := by
            intro next hle
            rw [prefix_append_right_inj, cons_prefix_cons] at hle
            exact hle.1 ▸ ⟨hmay, hbad⟩
          goesOn := fun hall => absurd hall (by simp)
          handed := hrefused.handed
          proper := hlegal.proper
          parser := hrefused.parser
          inProgress := fun hok => absurd hok hbad }

/-- On a fresh connection, with allocations and writes that succeed, the application is handed
    exactly the messages of the frames, in order, up to the first frame that is not legal where
    it stands. -/
theorem messages_reassembled (cfg : WsConfig) (hmax : cfg.maxMessageSize < 2 ^ 62)
    (frames : List WsFrame)
    (hframes : ∀ frame ∈ frames, frame.payloadLen ≤ frame.payload.length ∧
      frame.payloadLen ≤ cfg.maxMessageSize) :
    Reassembled cfg frames (processFrames cfg .fresh frames) :=
  processFrames_reassembled hmax frames [] .fresh .nil (Tracks.fresh cfg) hframes

/-- A masked data or control frame as the parser delivers it. -/
def WsFrame.received (fin : Bool) (opcode : UInt8) (payload : Bytes) : WsFrame :=
  { WsFrame.zero with
    fin := fin, opcode := opcode, masked := true, payloadLen := payload.length, payload := payload }

/-- A text in two fragments with a Ping between them. -/
def pingedFragments : List WsFrame :=
  [.received false opText [0x68], .received true opPing [], .received true opContinuation [0x69]]

theorem messages_reassembled_pinged :
    Reassembled .small pingedFragments (processFrames .small .fresh pingedFragments) ∧
      handedOn (processFrames .small .fresh pingedFragments).1.callbacks =
        [{ opcode := opText, payload := [0x68, 0x69] }] :=
  ⟨messages_reassembled .small (by decide) pingedFragments (by decide), by decide⟩

end Portico.Ws
