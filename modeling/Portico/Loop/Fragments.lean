/-
  Fragment buffers: `process_fragmented_frame`, `process_continuation_frame` and
  `cleanup_fragmentation_state` of src/ws/ws_connection_handler.c, with the two teardowns and
  `ws_connection_cleanup` of src/ws/ws_connection.c.

  Model. `frameHeap` is what a frame does with `parser->fragment_buffer`: the calls of `malloc`,
  `realloc` and `free` in the branches of `processWebsocketFrame`. `fragStep` is a step of the
  server with a parser and a pointer in each slot and a heap (`Portico.Lib.Ledger`) whose owners
  are lives. A read handler of an open connection handles a list of frames until one of them
  ends the connection. `close_connection` frees the buffer; a new connection and
  `ws_connection_cleanup` zero the parser and with it the pointer.

  Proved: `fragments_freed`, for a connection that no close message takes in the middle of a
  fragmented message. `process_close_message` does not call `cleanup_fragmentation_state`, so
  that the buffer of such a connection is lost (`fragment_leaked`).
-/
import Portico.Lib.Ledger
import Portico.Loop.SlotEvents
import Portico.Ws.Reassembly

namespace Portico.Ws

open Portico.Lib

universe u

variable {ω : Type u}

/-! ## The buffer of one connection -/

/-- The allocation of a first fragment; the pointer is set whether or not it succeeds. -/
def fragmentedFrameHeap (owner : ω) (c : MsgConn) (frame : WsFrame) (m : Ptr ω) : Ptr ω :=
  if c.parser.inFragmentedMessage then m
  else if !frame.fin then
    match c.alloc with
    | (false, _) => { m with block := none }
    | (true, _) => m.malloc owner
  else m

/-- A continuation grows the buffer if it has to, and frees it at the end of the message and on
    every error. -/
def continuationFrameHeap (owner : ω) (cfg : WsConfig) (c : MsgConn) (frame : WsFrame)
    (m : Ptr ω) : Ptr ω :=
  if !c.parser.inFragmentedMessage then m
  else if sizeSub cfg.maxMessageSize c.parser.fragmentTotalSize < frame.payloadLen then m.free
  else
    let neededSize := (c.parser.fragmentTotalSize + frame.payloadLen) % 2 ^ 64
    if c.parser.fragmentBufferSize < neededSize then
      match c.alloc with
      | (false, _) => m.free
      | (true, _) => if frame.fin then (m.realloc owner).free else m.realloc owner
    else if frame.fin then m.free else m

def frameHeap (owner : ω) (cfg : WsConfig) (c : MsgConn) (frame : WsFrame) (m : Ptr ω) : Ptr ω :=
  if 0x8 ≤ frame.opcode && (!frame.fin || 125 < frame.payloadLen) then m
  else if frame.opcode = opText then fragmentedFrameHeap owner c frame m
  else if frame.opcode = opBinary then fragmentedFrameHeap owner c frame m
  else if frame.opcode = opPing then m
  else if frame.opcode = opPong then m
  else if frame.opcode = opClose then m
  else if frame.opcode = opContinuation then continuationFrameHeap owner cfg c frame m
  else m

/-- The frame loop of one read: connection, buffer, and whether a frame has ended it. -/
def receiveFrames (owner : ω) (cfg : WsConfig) :
    List WsFrame → MsgConn → Ptr ω → MsgConn × Ptr ω × Bool
  | [], c, m => (c, m, false)
  | frame :: rest, c, m =>
    match processWebsocketFrame cfg c frame with
    | (c', .ok) => receiveFrames owner cfg rest c' (frameHeap owner cfg c frame m)
    | (c', _) => (c', frameHeap owner cfg c frame m, true)

/-- The parser has a buffer exactly inside a fragmented message. -/
def HasBuffer (parser : FrameParser) (m : Ptr ω) : Prop :=
  parser.inFragmentedMessage = m.block.isSome

/-- The next state of parser and pointer: the heap evolves, and the two still go together. -/
structure Buffered (owner : ω) (m : Ptr ω) (parser' : FrameParser) (m' : Ptr ω) : Prop where
  evolves : m.Evolves owner m'
  has : HasBuffer parser' m'

section Frame

variable {owner : ω} {cfg : WsConfig} {c c' : MsgConn} {frame : WsFrame} {m : Ptr ω}

theorem Buffered.keep (hgood : m.Good owner) (h : HasBuffer c.parser m)
    (hparser : c'.parser = c.parser) : Buffered owner m c'.parser m :=
  ⟨.refl hgood, hparser ▸ h⟩

theorem Buffered.free (hgood : m.Good owner) (hparser : c'.parser = .init) :
    Buffered owner m c'.parser m.free := by
  refine ⟨Ptr.free_evolves hgood, ?_⟩
  unfold HasBuffer
  rw [hparser, Ptr.free_block]
  rfl

theorem parser_callback (c : MsgConn) (present : Bool) (cb : Callback) :
    (c.callback present cb).parser = c.parser := by
  unfold MsgConn.callback
  split <;> rfl

theorem parser_processCloseFrame (cfg : WsConfig) (c : MsgConn) (frame : WsFrame) :
    (processCloseFrame cfg c frame).1.parser = c.parser := by
  have hsend : ∀ code, ((c.setState .closing).wsSendCloseFrame code []).2.parser = c.parser :=
    fun code => (wsSendCloseFrame_sameReport _ _ _).parser
  have hfail : ∀ code, (c.wsFailConnection code).1.parser = c.parser :=
    fun code => (wsFailConnection_sameReport _ _).parser
  unfold processCloseFrame
  split
  · exact hfail _
  split
  · dsimp only
    split
    · exact hfail _
    split
    · exact hfail _
    · exact (parser_callback _ _ _).trans (hsend _)
  · exact (parser_callback _ _ _).trans (hsend _)

theorem fragmentedFrame_buffered (hgood : m.Good owner) (h : HasBuffer c.parser m) :
    Buffered owner m (processFragmentedFrame cfg c frame).1.parser
      (fragmentedFrameHeap owner c frame m) := by
  have halloc := (alloc_sameReport c).parser
  unfold processFragmentedFrame fragmentedFrameHeap
  by_cases hin : c.parser.inFragmentedMessage = true
  · simp only [if_pos hin]
    exact .keep hgood h rfl
  simp only [if_neg hin]
  by_cases hfin : (!frame.fin) = true
  · have hnull : m.block = none := by
      unfold HasBuffer at h
      cases hb : m.block with
      | none => rfl
      | some => exact absurd (h.trans (by rw [hb]; rfl)) hin
    simp only [if_pos hfin]
    rcases c.alloc with ⟨_ | _, c'⟩
    · refine ⟨?_, rfl⟩
      have hsame : ({ m with block := none } : Ptr ω) = m := by rw [← hnull]
      rw [hsame]
      exact .refl hgood
    · exact ⟨Ptr.malloc_evolves hgood hnull, rfl⟩
  · simp only [if_neg hfin]
    split
    · exact .keep hgood h (wsFailConnection_sameReport c _).parser
    · split
      · rcases hc : c.alloc with ⟨_ | _, c'⟩ <;> rw [hc] at halloc
        · exact .keep hgood h halloc
        · exact .keep hgood h ((parser_callback _ _ _).trans halloc)
      · split
        · exact .keep hgood h (parser_callback _ _ _)
        · exact .keep hgood h rfl

theorem parser_finishContinuation (cfg : WsConfig) (c : MsgConn) (fin : Bool) :
    (finishContinuation cfg c fin).1.parser = if fin then .init else c.parser := by
  cases fin with
  | false => rfl
  | true =>
    simp only [finishContinuation, if_true]
    split
    · exact (wsFailConnection_sameReport _ _).parser
    · rfl

/-- The end of a continuation, after a step that leaves a buffer. -/
theorem Buffered.finish {m' : Ptr ω} (hev : m.Evolves owner m') (hsome : m'.block.isSome = true)
    (hin : c.parser.inFragmentedMessage = true) (fin : Bool) :
    Buffered owner m (finishContinuation cfg c fin).1.parser (if fin then m'.free else m') := by
  rw [parser_finishContinuation]
  cases fin with
  | false => exact ⟨hev, hin.trans hsome.symm⟩
  | true =>
    refine ⟨hev.trans (Ptr.free_evolves hev.good), ?_⟩
    show false = m'.free.block.isSome
    rw [Ptr.free_block]
    rfl

theorem continuationFrame_buffered (hgood : m.Good owner) (h : HasBuffer c.parser m) :
    Buffered owner m (processContinuationFrame cfg c frame).1.parser
      (continuationFrameHeap owner cfg c frame m) := by
  have halloc := (alloc_sameReport c).parser
  unfold processContinuationFrame continuationFrameHeap
  cases hin : c.parser.inFragmentedMessage with
  | false => exact .keep hgood h rfl
  | true =>
    have hsome : m.block.isSome = true := h.symm.trans hin
    simp only [Bool.not_true, Bool.false_eq_true, if_false]
    split
    · exact .free hgood (wsFailConnection_sameReport _ _).parser
    split
    · rcases hc : c.alloc with ⟨_ | _, c'⟩ <;> rw [hc] at halloc
      · exact .free hgood rfl
      · have halloc : c'.parser = c.parser := halloc
        exact .finish (Ptr.realloc_evolves hgood) rfl (by rw [← hin, ← halloc]) _
    · refine .finish (.refl hgood) hsome ?_ _
      exact hin

/-- A frame, of any kind and in any environment. -/
theorem frame_buffered (hgood : m.Good owner) (h : HasBuffer c.parser m) :
    Buffered owner m (processWebsocketFrame cfg c frame).1.parser
      (frameHeap owner cfg c frame m) := by
  unfold processWebsocketFrame frameHeap
  split
  · exact .keep hgood h (wsFailConnection_sameReport c _).parser
  split
  · exact fragmentedFrame_buffered hgood h
  split
  · exact fragmentedFrame_buffered hgood h
  split
  · have hpong := (sendFrame_sameReport c opPong frame.data).parser
    unfold MsgConn.wsSendPongFrame
    rcases hc : c.sendFrame opPong frame.data with ⟨_ | _, c'⟩ <;> rw [hc] at hpong <;>
      exact .keep hgood h hpong
  split
  · exact .keep hgood h (parser_callback _ _ _)
  split
  · exact .keep hgood h (parser_processCloseFrame cfg c frame)
  split
  · exact continuationFrame_buffered hgood h
  · exact .keep hgood h rfl

theorem receiveFrames_buffered (frames : List WsFrame) :
    ∀ {c : MsgConn} {m : Ptr ω}, m.Good owner → HasBuffer c.parser m →
      Buffered owner m (receiveFrames owner cfg frames c m).1.parser
        (receiveFrames owner cfg frames c m).2.1 := by
  induction frames with
  | nil => exact fun hgood h => ⟨.refl hgood, h⟩
  | cons frame rest ih =>
    intro c m hgood h
    have hframe : Buffered owner m (processWebsocketFrame cfg c frame).1.parser
      (frameHeap owner cfg c frame m) := frame_buffered hgood h
    unfold receiveFrames
    rcases hp : processWebsocketFrame cfg c frame with ⟨c', result⟩
    rw [hp] at hframe
    cases result with
    | ok =>
      have hrest := ih hframe.evolves.good hframe.has
      exact ⟨hframe.evolves.trans hrest.evolves, hrest.has⟩
    | error => exact hframe
    | closeRequested => exact hframe

end Frame

end Portico.Ws

namespace Portico.Loop

open Portico.Lib Portico.Ws
open Function (update update_of_ne update_self)

/-! ## The slots of the event thread -/

structure Fragments where
  server : Server
  parsers : Slot → FrameParser
  buffers : Slot → Option Nat
  heap : Ledger Life

def Fragments.init (cfg : Config) : Fragments :=
  ⟨.init cfg, fun _ => .init, fun _ => none, .empty⟩

/-- A step of the server. If it is a read of an open connection: the frames that arrive, and
    which allocations and writes succeed meanwhile. -/
structure FragOp where
  label : Label
  frames : List WsFrame
  allocs : List Bool
  writes : List Bool
  deriving DecidableEq, Repr

namespace Fragments

def ptr (w : Fragments) (x : Slot) : Ptr Life := ⟨w.buffers x, w.heap⟩

def setSlot (w : Fragments) (x : Slot) (parser : FrameParser) (m : Ptr Life) : Fragments :=
  { w with
    parsers := update w.parsers x parser
    buffers := update w.buffers x m.block
    heap := m.heap }

def msgConn (w : Fragments) (x : Slot) (op : FragOp) : MsgConn :=
  { state := (w.server.conns x).state, parser := w.parsers x, allocs := op.allocs,
    writes := op.writes, callbacks := [], replies := [] }

/-- `handle_websocket_frames`: the handler's state and result are those of the frame loop; a read
    can also fail after it. -/
def readFrames (wcfg : WsConfig) (w : Fragments) (op : FragOp) (x : Slot) (state : WsState)
    (fail : Bool) : Option Fragments :=
  let (c, m, stopped) :=
    receiveFrames (w.server.lifeOf x) wcfg op.frames (w.msgConn x op) (w.ptr x)
  if c.state = state ∧ (stopped = true → fail = true) then some (w.setSlot x c.parser m) else none

/-- What the step does to the slot's parser. -/
def slotStep (wcfg : WsConfig) (w : Fragments) (op : FragOp) : Option SlotEvent → Option Fragments
  | some (.handle x writing state fail) =>
    if (w.server.conns x).state = .open ∧ writing = false then w.readFrames wcfg op x state fail
    else if handlerLeaves writing (w.server.conns x).state state then some w else none
  | some (.start x) => some (w.setSlot x .init ⟨none, w.heap⟩)
  | some (.close x) => some (w.setSlot x .init (w.ptr x).free)
  | some (.drop _) => some w
  | some (.wipe x) => some (w.setSlot x .init ⟨none, w.heap⟩)
  | none => some w

end Fragments

def fragStep (cfg : Config) (wcfg : WsConfig) (w : Fragments) (op : FragOp) : Option Fragments :=
  match w.server.step cfg op.label, w.slotStep wcfg op (slotEvent w.server op.label) with
  | some s', some w' => some { w' with server := s' }
  | _, _ => none

/-- The condition on one connection: no close message takes it while it has a buffer. -/
def droppedWhole (l : Life) (w : Fragments) (op : FragOp) : Bool :=
  match slotEvent w.server op.label with
  | some (.drop x) => w.server.lifeOf x ≠ l || (w.buffers x).isNone
  | _ => true

/-- No block is freed twice, what a slot points to is live and its own connection's, and blocks
    belong to lives up to the current one. `kept` is about the connection `l`: its blocks are
    freed but for the one it holds. -/
structure FragInv (l : Life) (w : Fragments) : Prop where
  good : ∀ x, (w.ptr x).Good (w.server.lifeOf x)
  has : ∀ x, HasBuffer (w.parsers x) (w.ptr x)
  past : ∀ (b : Nat) k, w.heap.allocated[b]? = some k → k.2 ≤ (w.server.conns k.1).life
  kept : ∀ b : Nat, w.heap.allocated[b]? = some l →
    b ∈ w.heap.freed ∨ (w.buffers l.1 = some b ∧ w.server.Current l)

theorem FragInv.init (l : Life) (cfg : Config) : FragInv l (.init cfg) := by
  refine ⟨fun x => ⟨.empty, fun b hb => ?_⟩, fun x => rfl, fun b k hb => ?_, fun b hb => ?_⟩
  · simp [Fragments.init, Fragments.ptr] at hb
  · simp [Fragments.init, Ledger.empty] at hb
  · simp [Fragments.init, Ledger.empty] at hb

section Step

variable {l : Life} {w : Fragments} {s' : Server} {x : Slot}

/-- The pointers and the heap are left alone. -/
theorem FragInv.quiet (h : FragInv l w) (hlife : ∀ x, (s'.conns x).life = (w.server.conns x).life)
    (hcurrent : ∀ b, w.buffers l.1 = some b → w.server.Current l → s'.Current l) :
    FragInv l { w with server := s' } := by
  refine ⟨fun x => ?_, h.has, fun b k hb => ?_, fun b hb => ?_⟩
  · show (w.ptr x).Good (s'.lifeOf x)
    rw [lifeOf_eq (hlife x)]
    exact h.good x
  · show k.2 ≤ (s'.conns k.1).life
    rw [hlife]
    exact h.past b k hb
  · exact (h.kept b hb).imp id fun hkept => ⟨hkept.1, hcurrent b hkept.1 hkept.2⟩

theorem current_slot_ne {s : Server} (hcur : s.Current l) (hne : l ≠ s.lifeOf x) : l.1 ≠ x := by
  rintro rfl
  exact hne (Prod.ext rfl hcur.1.symm)

/-- A current connection's pointer changes as its heap evolves. -/
theorem FragInv.evolve (h : FragInv l w) {parser : FrameParser} {m : Ptr Life}
    (hb : Buffered (w.server.lifeOf x) (w.ptr x) parser m)
    (hx : w.server.Current (w.server.lifeOf x))
    (hlife : ∀ y, (s'.conns y).life = (w.server.conns y).life)
    (hcurrent : l = w.server.lifeOf x → m.block.isSome → w.server.Current l → s'.Current l)
    (hcurrent' : l ≠ w.server.lifeOf x → w.server.Current l → s'.Current l) :
    FragInv l { w.setSlot x parser m with server := s' } := by
  have hev := hb.evolves
  refine ⟨fun y => ?_, fun y => ?_, fun b k hk => ?_, fun b hk => ?_⟩
  · show Ptr.Good (s'.lifeOf y) ⟨update w.buffers x m.block y, m.heap⟩
    rw [lifeOf_eq (hlife y)]
    by_cases hyx : y = x
    · rw [hyx, update_self]
      exact hev.good
    · rw [update_of_ne hyx]
      exact ⟨hev.good.ok, fun b hb => hev.live_other (lifeOf_ne hyx) ((h.good y).live b hb)⟩
  · show HasBuffer (update w.parsers x parser y)
      ⟨update w.buffers x m.block y, m.heap⟩
    by_cases hyx : y = x
    · rw [hyx, update_self, update_self]
      exact hb.has
    · rw [update_of_ne hyx, update_of_ne hyx]
      exact h.has y
  · show k.2 ≤ (s'.conns k.1).life
    rw [hlife]
    rcases hev.adds b k hk with hk | rfl
    · exact h.past b k hk
    · exact Nat.le_refl _
  · show b ∈ m.heap.freed ∨ (update w.buffers x m.block l.1 = some b ∧ _)
    by_cases hlx : l = w.server.lifeOf x
    · have hrest : (w.ptr x).HoldsRest (w.server.lifeOf x) := fun b hk =>
        (h.kept b (hlx ▸ hk)).imp id fun hkept => by
          have hkept := hkept.1
          rw [hlx] at hkept
          exact hkept
      refine (hev.rest hrest b (hlx ▸ hk)).imp id fun hblock => ?_
      refine ⟨?_, hcurrent hlx (by rw [hblock]; rfl) (hlx ▸ hx)⟩
      rw [hlx]
      exact (update_self x m.block w.buffers).trans hblock
    · have hold := (hev.adds b l hk).resolve_right hlx
      refine (h.kept b hold).imp (hev.mono b) fun hkept => ⟨?_, hcurrent' hlx hkept.2⟩
      rw [update_of_ne (current_slot_ne hkept.2 hlx)]
      exact hkept.1

/-- The parser of a slot without a current connection is zeroed. -/
theorem FragInv.reset (h : FragInv l w) (hself : (w.server.conns x).life ≤ (s'.conns x).life)
    (hother : ∀ y, y ≠ x → (s'.conns y).life = (w.server.conns y).life)
    (hcurrent : w.server.Current l → l.1 ≠ x ∧ s'.Current l) :
    FragInv l { w.setSlot x .init ⟨none, w.heap⟩ with server := s' } := by
  refine ⟨fun y => ?_, fun y => ?_, fun b k hk => ?_, fun b hk => ?_⟩
  · show Ptr.Good (s'.lifeOf y) ⟨update w.buffers x none y, w.heap⟩
    by_cases hyx : y = x
    · rw [hyx, update_self]
      exact ⟨(h.good y).ok, fun b hb => absurd hb (by simp)⟩
    · rw [update_of_ne hyx, lifeOf_eq (hother y hyx)]
      exact h.good y
  · show HasBuffer (update w.parsers x .init y)
      ⟨update w.buffers x none y, w.heap⟩
    by_cases hyx : y = x
    · rw [hyx, update_self, update_self]
      rfl
    · rw [update_of_ne hyx, update_of_ne hyx]
      exact h.has y
  · have hle := h.past b k hk
    show k.2 ≤ (s'.conns k.1).life
    by_cases hkx : k.1 = x
    · rw [hkx] at hle ⊢
      omega
    · rw [hother _ hkx]
      exact hle
  · refine (h.kept b hk).imp id fun hkept => ?_
    obtain ⟨hlx, hcur⟩ := hcurrent hkept.2
    refine ⟨?_, hcur⟩
    show update w.buffers x none l.1 = some b
    rw [update_of_ne hlx]
    exact hkept.1

variable {cfg : Config} {wcfg : WsConfig} {op : FragOp} {w' : Fragments}

/-- A handler: frames on an open connection, nothing to the parser on any other. -/
theorem FragInv.handle (h : FragInv l w) {writing fail : Bool} {state : WsState}
    (hx : w.server.Current (w.server.lifeOf x))
    (hlife : ∀ y, (s'.conns y).life = (w.server.conns y).life)
    (hcurrent : w.server.Current l → s'.Current l)
    (hslot : w.slotStep wcfg op (some (.handle x writing state fail)) = some w') :
    FragInv l { w' with server := s' } := by
  simp only [Fragments.slotStep, Fragments.readFrames] at hslot
  split at hslot
  · split at hslot <;> cases hslot
    exact h.evolve (receiveFrames_buffered _ (h.good x) (h.has x)) hx hlife
      (fun _ _ => hcurrent) (fun _ => hcurrent)
  · split at hslot <;> cases hslot
    exact h.quiet hlife (fun _ _ => hcurrent)

theorem FragInv.step (h : FragInv l w) (hinv : SlotInv cfg w.server)
    (hreg : registrationWorks w.server op.label = true) (hok : droppedWhole l w op = true)
    (hstep : fragStep cfg wcfg w op = some w') : FragInv l w' := by
  unfold fragStep at hstep
  split at hstep
  · rename_i s' w1 hs hslot
    cases hstep
    have heffect := step_effect hinv hreg hs
    have hcurrent := heffect.current (l := l)
    unfold droppedWhole at hok
    generalize slotEvent w.server op.label = event at heffect hcurrent hslot hok
    cases heffect with
    | quiet _ hlife =>
      cases hslot
      exact h.quiet hlife fun _ _ hcur => hcurrent hcur (by simp) (by simp)
    | handle x writing state fail fd hx _ hlife =>
      exact h.handle (hinv.current hx) hlife (fun hcur => hcurrent hcur (by simp) (by simp)) hslot
    | start x hlife _ hother _ hfree =>
      cases hslot
      refine h.reset (by omega) (fun y hy => by rw [hother y hy]) fun hcur => ?_
      exact ⟨fun hlx => hcur.2.1 (by simp [hfree, hlx]), hcurrent hcur (by simp) (by simp)⟩
    | close x fd hx _ hconns =>
      cases hslot
      have hb : Buffered (w.server.lifeOf x) (w.ptr x) .init (w.ptr x).free :=
        ⟨Ptr.free_evolves (h.good x), by unfold HasBuffer; rw [Ptr.free_block]; rfl⟩
      refine h.evolve hb (hinv.current hx) (fun y => by rw [hconns]) ?_ ?_
      · intro _ hsome
        rw [Ptr.free_block] at hsome
        cases hsome
      · exact fun hne hcur => hcurrent hcur (by simpa using Ne.symm hne) (by simp)
    | drop x fd hx _ hconns =>
      cases hslot
      refine h.quiet (fun y => by rw [hconns]) fun b hb hcur => hcurrent hcur (by simp) ?_
      rintro y ⟨⟩ he
      -- a connection that holds a buffer is not one a close message may take
      have hbuf : w.buffers x = some b := by
        rw [← he] at hb
        exact hb
      simp [he, hbuf] at hok
    | wipe x hx _ hlife =>
      cases hslot
      refine h.reset (Nat.le_of_eq (hlife x).symm) (fun y _ => hlife y) fun hcur => ?_
      exact ⟨fun hlx => hcur.2.2 (hlx ▸ hx), hcurrent hcur (by simp) (by simp)⟩
  · cases hstep

theorem fragStep_server (h : fragStep cfg wcfg w op = some w') :
    w.server.step cfg op.label = some w'.server := by
  unfold fragStep at h
  split at h
  · rename_i s' w1 hs _
    cases h
    exact hs
  · cases h

end Step

/-- At most 2^16 slots, no failing registration, and a connection `l` that no close message takes
    in the middle of a fragmented message: once its slot is free, every fragment buffer that was
    allocated for it has been freed exactly once. -/
theorem fragments_freed (cfg : Config) (hcap : cfg.maxConnections ≤ 2 ^ 16) (wcfg : WsConfig)
    (l : Life) (ops : List FragOp) (w : Fragments)
    (hok : RunMeets (fragStep cfg wcfg)
      (fun w op => registrationWorks w.server op.label && droppedWhole l w op) (.init cfg) ops)
    (hrun : run (fragStep cfg wcfg) (.init cfg) ops = some w) (hfree : l.1 ∈ w.server.free)
    (b : Nat) (hb : w.heap.allocated[b]? = some l) : w.heap.freed.count b = 1 := by
  obtain ⟨hslot, h⟩ : SlotInv cfg w.server ∧ FragInv l w := by
    refine run_invariant (I := fun w => SlotInv cfg w.server ∧ FragInv l w)
      (fun w op w' h hok hstep => ?_) ops _ w ⟨.init cfg, .init l cfg⟩ hok hrun
    obtain ⟨hreg, hdropped⟩ := Bool.and_eq_true_iff.mp hok
    exact ⟨h.1.move hcap hreg (step_move (fragStep_server hstep)),
      h.2.step h.1 hreg hdropped hstep⟩
  rcases h.kept b hb with hfreed | hkept
  · exact List.count_eq_one_of_mem (h.good l.1).ok.nodup hfreed
  · exact absurd hfree hkept.2.2.1

def FragOp.plain (label : Label) : FragOp := ⟨label, [], [], []⟩

/-- The text frame "hi" without FIN. -/
def firstFragment : WsFrame :=
  { fin := false, opcode := opText, masked := true, payloadLen := 2, maskKey := [1, 2, 3, 4],
    payload := [0x68, 0x69], headerLen := 6 }

/-- A connection on descriptor 3 becomes a WebSocket and receives a first fragment. -/
def openedMidMessage : List FragOp :=
  ([.accept 3, .handOver, .wait [.wakeup], .next, .message none true, .cont true, .cont true, .next,
    .next, .wait [.conn ⟨3, 0, true, false, false⟩], .next, .io .open false false,
    .io .open false false, .io .open false false, .next,
    .wait [.conn ⟨3, 0, true, false, false⟩], .next] : List Label).map .plain ++
  [⟨.io .open false false, [firstFragment], [], []⟩] ++
  ([.io .open false false, .io .open false false, .next] : List Label).map .plain

/-- The reaper closes it: its buffer is freed. -/
theorem fragments_freed_reaped :
    let ops := openedMidMessage ++
      ([.reap 0, .cont true, .cont true, .cont true] : List Label).map .plain
    (run (fragStep ⟨2, 8⟩ .small) (.init ⟨2, 8⟩) ops).map (fun w =>
        (w.heap.allocated, w.heap.freed, w.server.free)) = some ([(0, 1)], [0], [0, 1]) ∧
      ∀ w, run (fragStep ⟨2, 8⟩ .small) (.init ⟨2, 8⟩) ops = some w → 0 ∈ w.server.free →
        ∀ b : Nat, w.heap.allocated[b]? = some (0, 1) → w.heap.freed.count b = 1 := by
  refine ⟨by decide +kernel, fun w hrun hfree b hb => ?_⟩
  exact fragments_freed ⟨2, 8⟩ (by decide) .small (0, 1) _ w (by decide +kernel) hrun hfree b hb

/-- `ws_close_connection` closes it: its slot is free and its buffer is not freed. -/
theorem fragment_leaked :
    let ops := openedMidMessage ++ ([.find (.control .close) 3, .send 0 true, .send 0 true,
      .send 0 true, .wait [.wakeup], .next, .message none true, .cont true, .cont true,
      .cont true] : List Label).map .plain
    (run (fragStep ⟨2, 8⟩ .small) (.init ⟨2, 8⟩) ops).map (fun w =>
      (w.heap.allocated, w.heap.freed, w.server.free, w.buffers 0)) =
        some ([(0, 1)], [], [0, 1], none) := by
  decide +kernel

end Portico.Loop
