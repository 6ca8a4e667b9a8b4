/-
  The feed of one connection: text and binary messages that senders queue for it and that the
  event thread takes from the queue (`ws_mpsc_process_messages`, `ws_buffered_data_send`).

  Model. `Feed` is the connection's output (`OutConn`) with the messages that are queued for its
  life and not taken yet. A step is a sender's enqueue, the event thread taking one message, or
  any other operation on the connection: control frames, drains, teardown. A taken message
  passes the two checks of the state in the source, the one before the dispatch and the one of
  `ws_buffered_data_send`; a torn-down connection fails the first, since its slot is then
  marked closed, wiped, or of another generation. History: `queued` is every message in queue
  order, `taken` how many of them have been taken, `data` what the socket has accepted of data
  frames, and `refused` the index of the first message that was not sent.

  Proved: `feed_without_gaps`, in every run the bytes of data frames that were written or are
  buffered are those of the messages before the first refused one, with at most a first part of
  the refused one behind them.
-/
import Portico.Ws.Outbound

namespace Portico.Ws

open Portico.Lib OutConn List

/-! ## The model -/

/-- A `WS_MSG_SEND_TEXT` or `WS_MSG_SEND_BINARY` message. -/
structure FeedMessage where
  text : Bool
  payload : Bytes
  deriving DecidableEq, Repr

def FeedMessage.opcode (m : FeedMessage) : UInt8 := if m.text then opText else opBinary

def FeedMessage.frame (m : FeedMessage) : Bytes := wsEncodeFrame m.opcode m.payload

structure Feed where
  conn : OutConn
  queue : List FeedMessage
  queued : List FeedMessage
  taken : Nat
  data : Bytes
  refused : Option Nat
  deriving DecidableEq, Repr

/-- A connection that has just been opened. Senders queue only for a connection that they have
    seen open. -/
def Feed.opened : Feed :=
  { conn := .opened, queue := [], queued := [], taken := 0, data := [], refused := none }

/-- The data bytes behind `c.wire`, when a data frame or a drain has written to the wire. -/
def wireGrowth (c c' : OutConn) : Bytes := c'.wire.drop c.wire.length

/-- The event thread takes one message: `ws_mpsc_process_messages` up to the next dequeue. -/
def Feed.takeOne (f : Feed) (answers : List WriteAnswer) (reallocOk epollOk : Bool) :
    Option Feed :=
  match f.queue with
  | [] => none
  | m :: queue =>
    if !f.conn.closed && f.conn.state = .open then
      let c := wsBufferedDataSend answers reallocOk epollOk f.conn m.opcode m.payload
      some { f with
        conn := c
        queue := queue
        taken := f.taken + 1
        data := f.data ++ wireGrowth f.conn c
        refused := if c.state = .open then f.refused else f.refused.or (some f.taken) }
    else
      some { f with queue := queue, taken := f.taken + 1, refused := f.refused.or (some f.taken) }

/-- What happens on the connection apart from data frames of the queue. -/
def Feed.other (f : Feed) (op : OutOp) : Option Feed :=
  match op with
  | .data _ _ _ _ _ => none
  | .writable answers =>
    (outStep f.conn (.writable answers)).map fun c =>
      { f with conn := c, data := f.data ++ wireGrowth f.conn c }
  | op => (outStep f.conn op).map fun c => { f with conn := c }

inductive FeedOp where
  | enqueue (m : FeedMessage)
  | take (answers : List WriteAnswer) (reallocOk epollOk : Bool)
  | other (op : OutOp)
  deriving DecidableEq, Repr

def feedStep (f : Feed) : FeedOp → Option Feed
  | .enqueue m => some { f with queue := f.queue ++ [m], queued := f.queued ++ [m] }
  | .take answers reallocOk epollOk => f.takeOne answers reallocOk epollOk
  | .other op => f.other op

/-! ## What an operation adds to the stream -/

variable {c c' : OutConn} {op : OutOp} {f f' : Feed} {part frame : Bytes} {a : WriteAnswer}
  {m : FeedMessage} {queue : List FeedMessage}

/-- The data bytes and the backlog grow by what the operation adds. -/
theorem Adds.data_stream (h : Adds c c' part) (data : Bytes) :
    data ++ wireGrowth c c' ++ c'.out.unsent = data ++ c.out.unsent ++ part := by
  obtain ⟨w, hw, hout⟩ := h.grows
  rw [wireGrowth, hw, drop_left, append_assoc, hout, append_assoc]

/-- A data frame on an open connection: it is sent, or the connection is no longer open and a
    first part of the frame may have been written. -/
theorem wsBufferedDataSend_stream (hst : c.state = .open) (answers : List WriteAnswer)
    (reallocOk epollOk : Bool) (opcode : UInt8) (payload : Bytes) (data : Bytes) :
    ∃ part, data ++ wireGrowth c (wsBufferedDataSend answers reallocOk epollOk c opcode payload) ++
        (wsBufferedDataSend answers reallocOk epollOk c opcode payload).out.unsent =
          data ++ c.out.unsent ++ part ∧
      part <+: wsEncodeFrame opcode payload ∧
      ((wsBufferedDataSend answers reallocOk epollOk c opcode payload).state = .open →
        part = wsEncodeFrame opcode payload) := by
  unfold wsBufferedDataSend
  rw [if_neg (fun hne => hne hst)]
  simp only
  generalize wsEncodeFrame opcode payload = frame
  obtain ⟨part, hadds, hpre, hok⟩ :=
    porticoConnSend_adds answers reallocOk epollOk (c.issue frame) frame
  have hstream := hadds.data_stream data
  rcases hr : porticoConnSend answers reallocOk epollOk (c.issue frame) frame with ⟨c1, _ | _⟩ <;>
    rw [hr] at hstream hok
  · exact ⟨part, hstream, hpre, fun h => absurd h (by simp)⟩
  · exact ⟨part, hstream, hpre, fun _ => hok rfl⟩

theorem sendControl_same (c : OutConn) (frame : Bytes) (a : WriteAnswer) :
    (c.sendControl frame a).1.out = c.out ∧ (c.sendControl frame a).1.state = c.state := by
  obtain ⟨hsame, hout, _⟩ := socketWrite_spec (c.issue frame) frame a
  unfold sendControl
  rcases hr : (c.issue frame).socketWrite frame a with ⟨c1, n | _ | _⟩ <;>
    rw [hr] at hsame hout <;> exact ⟨hout, hsame.state⟩

/-- What an operation without data leaves: no backlog changes, and nothing is opened again. -/
structure NoData (c c' : OutConn) : Prop where
  out : c'.out = c.out
  state : c'.state = .open → c.state = .open

theorem NoData.control
    (h : c' = (c.sendControl frame a).1 ∨ c' = (c.sendControl frame a).1.teardown) :
    NoData c c' := by
  obtain ⟨hout, hstate⟩ := sendControl_same c frame a
  rcases h with rfl | rfl
  · exact ⟨hout, fun h => hstate.symm.trans h⟩
  · exact ⟨hout, fun h => hstate.symm.trans h⟩

/-- A frame after which the connection is torn down unless it was taken whole. -/
theorem NoData.of_reply (h : (match c.sendControl frame a with
      | (c, true) => some c
      | (c, false) => some c.teardown) = some c') : NoData c c' := by
  have hkeep : NoData c (c.sendControl frame a).1 := .control (.inl rfl)
  have hdown : NoData c (c.sendControl frame a).1.teardown := .control (.inr rfl)
  rcases hr : c.sendControl frame a with ⟨c1, _ | _⟩ <;> rw [hr] at h hkeep hdown <;>
    obtain rfl := Option.some.inj h
  · exact hdown
  · exact hkeep

theorem outStep_open (h : outStep c op = some c') : c.closed = false := by
  unfold outStep at h
  cases hc : c.closed with
  | false => rfl
  | true => rw [hc, if_pos rfl] at h; exact absurd h (by simp)

theorem outStep_noData (h : outStep c op = some c')
    (hdata : ∀ text payload answers reallocOk epollOk,
      op ≠ .data text payload answers reallocOk epollOk)
    (hwritable : ∀ answers, op ≠ .writable answers) : NoData c c' := by
  have hclosed := outStep_open h
  unfold outStep at h
  rw [if_neg (by simp [hclosed])] at h
  cases op with
  | data => exact absurd rfl (hdata _ _ _ _ _)
  | writable => exact absurd rfl (hwritable _)
  | pongReply | reaperPing =>
    simp only at h
    split at h
    · exact .of_reply h
    · cases h
  | apiPing | apiPong => exact .control (.inl (Option.some.inj h).symm)
  | closeReply code a =>
    simp only at h
    split at h
    · rename_i hst
      have hno : NoData { c with state := .closing } c' := .control (.inr (Option.some.inj h).symm)
      exact ⟨hno.out, fun _ => hst⟩
    · cases h
  | apiClose => exact .control (.inr (Option.some.inj h).symm)
  | teardown =>
    obtain rfl := Option.some.inj h
    exact ⟨rfl, id⟩

/-! ## The invariant -/

/-- Data bytes on the wire and in the buffer. -/
def Feed.stream (f : Feed) : Bytes := f.data ++ f.conn.out.unsent

/-- The frames of the first `n` queued messages. -/
def Feed.frames (f : Feed) (n : Nat) : Bytes := ((f.queued.take n).map FeedMessage.frame).flatten

structure FeedInv (f : Feed) : Prop where
  taken_le : f.taken ≤ f.queued.length
  queue : f.queued.drop f.taken = f.queue
  sent : f.refused = none → f.stream = f.frames f.taken
  stopped : ∀ k, f.refused = some k → k < f.taken ∧ f.frames k <+: f.stream ∧
    f.stream <+: f.frames (k + 1) ∧ (f.conn.closed = true ∨ f.conn.state ≠ .open)

theorem FeedInv.opened : FeedInv .opened :=
  ⟨Nat.le_refl _, rfl, fun _ => rfl, fun _ h => absurd h (by simp [Feed.opened])⟩

theorem frames_enqueue {n : Nat} (m : FeedMessage) (hn : n ≤ f.queued.length) :
    Feed.frames { f with queue := f.queue ++ [m], queued := f.queued ++ [m] } n = f.frames n := by
  simp only [Feed.frames, take_append_of_le_length hn]

section

variable (h : FeedInv f)

include h

theorem FeedInv.enqueue (m : FeedMessage) :
    FeedInv { f with queue := f.queue ++ [m], queued := f.queued ++ [m] } := by
  refine ⟨?_, ?_, fun hn => ?_, fun k hk => ?_⟩
  · exact h.taken_le.trans (by simp)
  · rw [drop_append_of_le_length h.taken_le, h.queue]
  · rw [frames_enqueue m h.taken_le]
    exact h.sent hn
  · obtain ⟨hlt, hlow, hhigh, hstop⟩ := h.stopped k hk
    have hle := h.taken_le
    rw [frames_enqueue m (by omega), frames_enqueue m (by omega)]
    exact ⟨hlt, hlow, hhigh, hstop⟩

/-- The frames of one message more. -/
theorem FeedInv.frames_succ (hq : f.queue = m :: queue) :
    f.frames (f.taken + 1) = f.frames f.taken ++ m.frame ∧ f.taken < f.queued.length ∧
      f.queued.drop (f.taken + 1) = queue := by
  have hdrop := h.queue.trans hq
  have hlt : f.taken < f.queued.length := by
    by_contra hge
    rw [drop_eq_nil_of_le (by omega)] at hdrop
    cases hdrop
  rw [drop_eq_getElem_cons hlt] at hdrop
  obtain ⟨hm, hrest⟩ := cons.inj hdrop
  refine ⟨?_, hlt, hrest⟩
  rw [Feed.frames, take_add_one, getElem?_eq_getElem hlt, hm]
  simp [Feed.frames]

/-- A message that is taken after the first refused one, or that is refused itself. -/
theorem FeedInv.take_refused (hq : f.queue = m :: queue) (hqueued : f'.queued = f.queued)
    (hqueue : f'.queue = queue) (htaken : f'.taken = f.taken + 1)
    (hrefused : f'.refused = f.refused.or (some f.taken))
    (hstop : f'.conn.closed = true ∨ f'.conn.state ≠ .open) (hstream : f'.stream = f.stream ++ part)
    (hpre : part <+: m.frame) (hnone : f.refused ≠ none → part = []) : FeedInv f' := by
  obtain ⟨hsucc, hlt, hdrop⟩ := h.frames_succ hq
  have hframes : ∀ n, f'.frames n = f.frames n := fun n => by rw [Feed.frames, hqueued]; rfl
  refine ⟨by rw [htaken, hqueued]; exact hlt, by rw [htaken, hqueued, hqueue]; exact hdrop,
    fun hn => ?_, fun k hk => ?_⟩
  · rw [hrefused] at hn
    cases hr : f.refused <;> simp [hr] at hn
  · rw [hframes, hframes, hstream, htaken]
    cases hr : f.refused with
    | none =>
      rw [hrefused, hr] at hk
      obtain rfl : f.taken = k := Option.some.inj hk
      rw [h.sent hr, hsucc]
      exact ⟨Nat.lt_succ_self _, prefix_append _ _,
        (prefix_append_right_inj _).mpr hpre, hstop⟩
    | some j =>
      rw [hrefused, hr] at hk
      obtain rfl : j = k := Option.some.inj hk
      obtain ⟨hj, hlow, hhigh, _⟩ := h.stopped j hr
      rw [hnone (by simp [hr]), append_nil]
      exact ⟨Nat.lt_succ_of_lt hj, hlow, hhigh, hstop⟩

theorem FeedInv.take {answers : List WriteAnswer} {reallocOk epollOk : Bool}
    (hstep : f.takeOne answers reallocOk epollOk = some f') : FeedInv f' := by
  unfold Feed.takeOne at hstep
  cases hq : f.queue with
  | nil => rw [hq] at hstep; exact absurd hstep (by simp)
  | cons m =>
    rw [hq] at hstep
    simp only at hstep
    by_cases hopen : (!f.conn.closed && f.conn.state = .open) = true
    · rw [if_pos hopen] at hstep
      simp only [Bool.and_eq_true, Bool.not_eq_true', decide_eq_true_eq] at hopen
      obtain rfl := Option.some.inj hstep
      have hnone : f.refused = none := by
        cases hr : f.refused with
        | none => rfl
        | some k =>
          rcases (h.stopped k hr).2.2.2 with hc | hs
          · exact absurd (hopen.1.symm.trans hc) (by decide)
          · exact absurd hopen.2 hs
      obtain ⟨part, hstream, hpre, hok⟩ := wsBufferedDataSend_stream hopen.2 answers reallocOk
        epollOk m.opcode m.payload f.data
      by_cases hst : (wsBufferedDataSend answers reallocOk epollOk f.conn m.opcode
          m.payload).state = .open
      · -- sent: written or buffered whole
        obtain ⟨hsucc, hlt, hdrop⟩ := h.frames_succ hq
        refine ⟨hlt, hdrop, fun _ => ?_, fun k hk => ?_⟩
        · refine hstream.trans ?_
          rw [hok hst]
          show f.stream ++ m.frame = f.frames (f.taken + 1)
          rw [hsucc, h.sent hnone]
        · simp only [if_pos hst, hnone] at hk
          cases hk
      · refine h.take_refused hq rfl rfl rfl (if_neg hst) (.inr hst) hstream hpre
          fun hne => absurd hnone hne
    · -- dropped by the check before the dispatch
      rw [if_neg hopen] at hstep
      obtain rfl := Option.some.inj hstep
      refine h.take_refused hq rfl rfl rfl rfl ?_ (append_nil _).symm nil_prefix
        fun _ => rfl
      cases hc : f.conn.closed with
      | true => exact .inl rfl
      | false =>
        refine .inr fun hs => hopen ?_
        have hs : f.conn.state = .open := hs
        simp [hc, hs]

/-- An operation that leaves stream and queue alone and does not reopen the connection. -/
theorem FeedInv.keep {data : Bytes} (hstream : data ++ c.out.unsent = f.stream)
    (hstop : f.conn.closed = true ∨ f.conn.state ≠ .open → c.closed = true ∨ c.state ≠ .open) :
    FeedInv { f with conn := c, data := data } := by
  refine ⟨h.taken_le, h.queue, fun hn => hstream.trans (h.sent hn), fun k hk => ?_⟩
  obtain ⟨hlt, hlow, hhigh, hs⟩ := h.stopped k hk
  show k < f.taken ∧ f.frames k <+: data ++ c.out.unsent ∧
    data ++ c.out.unsent <+: f.frames (k + 1) ∧ _
  rw [hstream]
  exact ⟨hlt, hlow, hhigh, hstop hs⟩

theorem FeedInv.noData (hclosed : f.conn.closed = false) (hno : NoData f.conn c) :
    FeedInv { f with conn := c } := by
  refine h.keep (by rw [hno.out]; rfl) fun hs => .inr fun hst => ?_
  rcases hs with hc | hs
  · exact absurd (hclosed.symm.trans hc) (by decide)
  · exact hs (hno.state hst)

theorem FeedInv.other (hstep : f.other op = some f') : FeedInv f' := by
  cases op with
  | data => simp [Feed.other] at hstep
  | writable answers =>
    obtain ⟨c, hc, rfl⟩ := Option.map_eq_some_iff.mp hstep
    have hclosed := outStep_open hc
    unfold outStep at hc
    rw [if_neg (by simp [hclosed])] at hc
    have hadds := connOutDrain_adds answers f.conn
    have hsame := hadds.same
    have hstop : f.conn.closed = true ∨ f.conn.state ≠ .open →
        (connOutDrain answers f.conn).1.closed = true ∨
          (connOutDrain answers f.conn).1.state ≠ .open := by
      rw [hsame.closed, hsame.state]
      exact id
    have hstream := hadds.data_stream f.data
    rw [append_nil] at hstream
    simp only at hc
    rcases hr : connOutDrain answers f.conn with ⟨c1, _ | _⟩ <;> rw [hr] at hc hstream hstop <;>
      obtain rfl := Option.some.inj hc
    · exact h.keep hstream fun _ => .inl rfl
    · exact h.keep hstream hstop
  | _ =>
    obtain ⟨c, hc, rfl⟩ := Option.map_eq_some_iff.mp hstep
    exact h.noData (outStep_open hc) (outStep_noData hc (by simp) (by simp))

end

theorem feedStep_inv (f : Feed) (op : FeedOp) (f' : Feed) (h : FeedInv f)
    (hstep : feedStep f op = some f') : FeedInv f' := by
  cases op with
  | enqueue m =>
    obtain rfl := Option.some.inj hstep
    exact h.enqueue m
  | take => exact h.take hstep
  | other => exact h.other hstep

theorem Feed.frames_prefix (f : Feed) (n : Nat) : f.frames n <+: f.frames f.queued.length := by
  rw [Feed.frames, Feed.frames, take_length]
  conv => rhs; rw [← take_append_drop n f.queued, map_append, flatten_append]
  exact prefix_append _ _

/-- In every run, whatever the socket accepts at each write, the data frames that were written or
    are buffered are a first part of the frames of all queued messages. Until a message is
    refused they are the frames of the messages taken so far; from then on they are those of the
    messages before it, with no more than a first part of its own behind them. -/
theorem feed_without_gaps (ops : List FeedOp) (f : Feed)
    (hrun : run feedStep .opened ops = some f) :
    f.stream <+: f.frames f.queued.length ∧
      (f.refused = none → f.stream = f.frames f.taken) ∧
      ∀ k, f.refused = some k → f.frames k <+: f.stream ∧ f.stream <+: f.frames (k + 1) := by
  have h := run_invariant_all feedStep_inv ops .opened f .opened hrun
  refine ⟨?_, h.sent, fun k hk => ⟨(h.stopped k hk).2.1, (h.stopped k hk).2.2.1⟩⟩
  cases hr : f.refused with
  | none => exact h.sent hr ▸ f.frames_prefix _
  | some k => exact (h.stopped k hr).2.2.1.trans (f.frames_prefix _)

/-- Three messages: one is sent in two writes, the socket fails inside the second one, and the
    third is dropped. -/
def brokenFeed : List FeedOp :=
  [.enqueue ⟨false, [7]⟩, .enqueue ⟨false, [8]⟩, .take [.takes 0, .again] true true,
    .other (.writable [.takes 5]), .take [.takes 0, .fail] true true, .enqueue ⟨false, [9]⟩,
    .take [.takes 9] true true]

theorem feed_without_gaps_broken :
    (run feedStep .opened brokenFeed).map (fun f => (f.data, f.refused)) =
        some ([0x82, 0x01, 0x07, 0x82], some 1) ∧
      ∀ f, run feedStep .opened brokenFeed = some f → f.stream <+: f.frames f.queued.length :=
  ⟨by decide, fun f hrun => (feed_without_gaps brokenFeed f hrun).1⟩

end Portico.Ws
