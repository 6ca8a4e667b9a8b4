/-
  File responses over the lives of the slots: who holds the contexts of src/http/connection.c, and
  on which connection they are used.

  Model. A step of the server (`Portico.Loop.Model`) with, in each slot, `conn->file_stream` and
  `conn->http_async_inflight`, the contexts `http_stream_t` and `http_file_ctx_t` as blocks of two
  ledgers whose owners are lives, and for each read in flight (`Server.aio`) the context it is
  for. `httpTurns` follows the loops of `process_http_buffer` and `stream_advance` and the calls
  between them; which branch a turn takes, what the bytes are and whether a call fails is part of
  the label. A pointer variable of the C code stays what it is after a `free`, so that a use of a
  freed context would show up in `faults`.

  Completions run on the event thread (`portico_aio_drain`). Where `portico_aio_enqueue` finds no
  memory for the node of a completion it calls the callback at once, on the worker that has read
  the file and beside the event thread, which uses the connection and the context without a lock.
  What such a race leaves behind is not determined, so the label `inline` carries it: any state.

  History. `wrote` has a stream and the life of the connection for every piece of the stream that
  is handed to `portico_conn_send`, `answers` the request's life and the connection for every
  response of `file_read_complete`.
-/
import Portico.Lib.Ledger
import Portico.Loop.SlotEvents

namespace Portico.Loop

open Portico.Lib Portico.Ws

/-! ## Contexts -/

/-- A read in flight, for the next chunk of a stream or for a whole file. -/
inductive Flight where
  | chunk (b : Nat)
  | file (f : Nat)
  deriving DecidableEq, Repr

/-- A response that `file_read_complete` queues: the life that asked for the file, the life and
    the state of the connection that gets it, and whether its slot is on the free stack. -/
structure FileAnswer where
  asked : Option Life
  got : Life
  state : WsState
  slotFree : Bool
  deriving DecidableEq, Repr

structure Transfers where
  server : Server
  fileStream : Slot → Option Nat
  asyncInflight : Slot → Bool
  streams : Ledger Life
  reading : Nat → Bool
  contexts : Ledger Life
  flights : List Flight
  faults : List Nat
  wrote : List (Nat × Life)
  answers : List FileAnswer

def Transfers.init (cfg : Config) : Transfers :=
  { server := .init cfg, fileStream := fun _ => none, asyncInflight := fun _ => false,
    streams := .empty, reading := fun _ => false, contexts := .empty, flights := [], faults := [],
    wrote := [], answers := [] }

namespace Transfers

/-- An access to a stream's context. -/
def touch (w : Transfers) (b : Nat) : Transfers :=
  { w with faults := if b ∈ w.streams.freed then w.faults ++ [b] else w.faults }

/-- `s->reading = v` -/
def setReading (w : Transfers) (b : Nat) (v : Bool) : Transfers :=
  { w.touch b with reading := Function.update w.reading b v }

/-- `portico_conn_send` on the connection in a slot, for a stream. -/
def send (w : Transfers) (x : Slot) (b : Nat) : Transfers :=
  { w.touch b with wrote := w.wrote ++ [(b, w.server.lifeOf x)] }

def streamFree (w : Transfers) (b : Nat) : Transfers :=
  { w.touch b with streams := w.streams.free b }

/-- `conn->file_stream = s; conn->http_async_inflight = 1` -/
def attach (w : Transfers) (x : Slot) (b : Nat) : Transfers :=
  { w with
    fileStream := Function.update w.fileStream x (some b),
    asyncInflight := Function.update w.asyncInflight x true }

/-- `conn->file_stream = NULL; conn->http_async_inflight = 0`; a `memset` of the connection does
    this as well. -/
def detach (w : Transfers) (x : Slot) : Transfers :=
  { w with
    fileStream := Function.update w.fileStream x none,
    asyncInflight := Function.update w.asyncInflight x false }

/-- `stream_fail`, and `stream_finish` up to its `process_http_buffer`. -/
def streamDetach (w : Transfers) (x : Slot) (b : Nat) : Transfers :=
  ((w.touch b).detach x).streamFree b

/-- The allocation at the start of `stream_start`, with `s->reading = 0`; the block is
    `w.streams.allocated.length`. -/
def streamMalloc (w : Transfers) (x : Slot) : Transfers :=
  { w with
    streams := w.streams.malloc (w.server.lifeOf x),
    reading := Function.update w.reading w.streams.allocated.length false }

/-- The allocation in `http_serve_file`; the block is `w.contexts.allocated.length`. -/
def fileMalloc (w : Transfers) (x : Slot) : Transfers :=
  { w with contexts := w.contexts.malloc (w.server.lifeOf x) }

/-- `close(ctx->file_fd); free(ctx->buf); free(ctx)` -/
def fileFree (w : Transfers) (f : Nat) : Transfers := { w with contexts := w.contexts.free f }

def setInflight (w : Transfers) (x : Slot) (v : Bool) : Transfers :=
  { w with asyncInflight := Function.update w.asyncInflight x v }

/-- `portico_http_stream_abort`, and the wipe of the connection after it. -/
def cleanup (w : Transfers) (x : Slot) : Transfers :=
  match w.fileStream x with
  | none => w.detach x
  | some b =>
    let w := w.touch b
    if w.reading b then w.detach x else (w.streamFree b).detach x

end Transfers

/-! ## The loops -/

/-- A turn of `process_http_buffer`: it returns (nothing to serve, an error, no keep-alive),
    answers from memory and goes on, serves a small file by a read of its own (`on`: and goes on)
    or by a read in flight, or starts a stream: the head is too long for the buffer, cannot be
    sent, or goes out and `stream_advance` follows.

    A turn of `stream_advance`: the socket is backed up, the next read is in flight, a chunk was
    read at once and sent, the read (or with `sent` the send) failed, or the stream is complete. -/
inductive HttpTurn where
  | stop
  | answer
  | fileRead (on : Bool)
  | fileSubmit
  | streamCut
  | streamUnsent
  | streamStart
  | blocked
  | submit
  | chunk
  | lost (sent : Bool)
  | finish (keepAlive : Bool)
  deriving DecidableEq, Repr

namespace Transfers

/-- The turns on the connection in a slot, in `process_http_buffer` or in `stream_advance` for a
    stream; whether a read is in flight at the end. -/
def httpTurns (x : Slot) : Option Nat → List HttpTurn → Transfers → Option (Transfers × Bool)
  | none, [], w => some (w, false)
  | none, .stop :: _, w => some (w, false)
  | none, .answer :: rest, w => httpTurns x none rest w
  | none, .fileRead on :: rest, w =>
    let w := (w.fileMalloc x).fileFree w.contexts.allocated.length
    if on then httpTurns x none rest w else some (w, false)
  | none, .fileSubmit :: _, w =>
    let f := w.contexts.allocated.length
    let w := (w.fileMalloc x).setInflight x true
    some ({ w with flights := w.flights ++ [.file f] }, true)
  | none, .streamCut :: _, w =>
    some ((w.streamMalloc x).streamFree w.streams.allocated.length, false)
  | none, .streamUnsent :: _, w =>
    let b := w.streams.allocated.length
    some ((((w.streamMalloc x).attach x b).send x b).streamDetach x b, false)
  | none, .streamStart :: rest, w =>
    let b := w.streams.allocated.length
    httpTurns x (some b) rest (((w.streamMalloc x).attach x b).send x b)
  | some b, [], w => some (w.touch b, false)
  | some b, turn :: rest, w =>
    let w := w.touch b
    -- `if (s->reading) return 0`
    if w.reading b then some (w, false)
    else
      match turn with
      | .blocked => some (w, false)
      | .submit =>
        let w := w.setReading b true
        some ({ w with flights := w.flights ++ [.chunk b] }, true)
      | .chunk => httpTurns x (some b) rest (w.send x b)
      | .lost sent => some ((if sent then w.send x b else w).streamDetach x b, false)
      | .finish keepAlive =>
        let w := w.streamDetach x b
        if keepAlive then httpTurns x none rest w else some (w, false)
      | _ => none
  | none, _, _ => none

/-! ## Steps -/

/-- Which loop a handler enters if it serves requests: a write event goes on with the stream, a
    read event of an HTTP connection with the requests unless a file response is in progress, and
    a connection that has just become HTTP starts with its first request. -/
def handlerLoop (w : Transfers) (x : Slot) (writing : Bool) (state : WsState) :
    Option (Option Nat) :=
  match writing, (w.server.conns x).state with
  | _, .tlsHandshake => if state = .http then some none else none
  | true, _ => (w.fileStream x).map some
  | false, .connecting => if state = .http then some none else none
  | false, .http => if w.asyncInflight x then none else some none
  | false, _ => none

def handle (w : Transfers) (x : Slot) (writing : Bool) (state : WsState) (turns : List HttpTurn) :
    Option (Transfers × Bool) :=
  if handlerLeaves writing (w.server.conns x).state state = false then none
  else if turns = [] then some (w, false)
  else
    match w.handlerLoop x writing state with
    | none => none
    | some loop => httpTurns x loop turns w

/-- The generation and the state that both completions check; a connection in state HTTP has a
    descriptor. -/
def requested (w : Transfers) (x : Slot) (generation : Nat) : Bool :=
  (w.server.conns x).generation = generation ∧ (w.server.conns x).state = .http ∧
    (w.server.conns x).fd.isSome = true

/-- `stream_chunk_complete` after its check: the read failed, the chunk cannot be sent, it was the
    last one, or `stream_advance` follows. -/
def chunkComplete (w : Transfers) (x : Slot) (b : Nat) : List HttpTurn → Option (Transfers × Bool)
  | .lost sent :: _ => some ((if sent then w.send x b else w).streamDetach x b, false)
  | .finish keepAlive :: rest =>
    let w := (w.send x b).streamDetach x b
    if keepAlive then httpTurns x none rest w else some (w, false)
  | .chunk :: rest => httpTurns x (some b) rest (w.send x b)
  | _ => none

/-- A completed read is no longer in flight. -/
def landed (w : Transfers) (k : Nat) : Transfers := { w with flights := w.flights.eraseIdx k }

def answerTo (w : Transfers) (x : Slot) (f : Nat) : FileAnswer :=
  { asked := w.contexts.allocated[f]?, got := w.server.lifeOf x,
    state := (w.server.conns x).state, slotFree := decide (x ∈ w.server.free) }

/-- `file_read_complete` after its check: the flag is cleared and the response is queued. -/
def fileAnswer (w : Transfers) (x : Slot) (f : Nat) : Transfers :=
  { w.setInflight x false with answers := w.answers ++ [w.answerTo x f] }

/-- A completion for the slot and generation of its read: the next state, whether another read is
    in flight, and whether the connection was still the one that asked. -/
def complete (w : Transfers) (k : Nat) (x : Slot) (generation : Nat) (turns : List HttpTurn) :
    Option (Transfers × Bool × Bool) :=
  match w.flights[k]? with
  | none => none
  | some (.chunk b) =>
    let w := (w.landed k).setReading b false
    if w.requested x generation = true ∧ w.fileStream x = some b then
      (w.chunkComplete x b turns).map fun (w, submitted) => (w, submitted, true)
    else some (w.streamFree b, false, false)
  | some (.file f) =>
    let w := w.landed k
    if w.requested x generation then
      (httpTurns x none turns (w.fileAnswer x f)).map fun (w, submitted) =>
        (w.fileFree f, submitted, true)
    else some (w.fileFree f, false, false)

end Transfers

/-- A step of the server with the turns of the loops that run in it; completions are run by
    `portico_aio_drain`. -/
structure EventOp where
  label : Label
  turns : List HttpTurn
  deriving Repr

/-- What a step does to the contexts, before the server's part of it. The label says whether a read
    was started and whether the connection is closed. -/
def Transfers.contextStep (w : Transfers) (op : EventOp) : Option Transfers :=
  match op.label with
  | .completion k submit close =>
    match w.server.aio[k]? with
    | none => none
    | some (x, generation) =>
      match w.complete k x generation op.turns with
      | some (w', submitted, asked) =>
        if submit = submitted ∧ (close = true → asked = true) then some w' else none
      | none => none
  | .io _ submit _ =>
    match slotEvent w.server op.label with
    | some (.handle x writing state _) =>
      match w.handle x writing state op.turns with
      | some (w', submitted) => if submit = submitted then some w' else none
      | none => none
    | _ => some w
  | _ =>
    match slotEvent w.server op.label with
    | some (.start x) => some (w.detach x)
    | some (.wipe x) => some (w.cleanup x)
    | _ => some w

def eventStep (cfg : Config) (w : Transfers) (op : EventOp) : Option Transfers :=
  match w.server.step cfg op.label, w.contextStep op with
  | some s', some w' => some { w' with server := s' }
  | _, _ => none

/-- `inline`: `portico_aio_enqueue` runs the callback of a read on the worker. -/
inductive TransferOp where
  | event (op : EventOp)
  | inline (after : Transfers)

def transferStep (cfg : Config) (w : Transfers) : TransferOp → Option Transfers
  | .event op => eventStep cfg w op
  | .inline after => if w.flights = [] then none else some after

/-- The step is not a callback on a worker, and meets a condition. -/
def onEventThread (ok : Transfers → EventOp → Bool) (w : Transfers) : TransferOp → Bool
  | .event op => ok w op
  | .inline _ => false

theorem transferStep_onEventThread {cfg : Config} {ok : Transfers → EventOp → Bool}
    {w w' : Transfers} {op : TransferOp} (hok : onEventThread ok w op = true)
    (hstep : transferStep cfg w op = some w') :
    ∃ op, ok w op = true ∧ eventStep cfg w op = some w' := by
  cases op with
  | event op => exact ⟨op, hok, hstep⟩
  | inline => cases hok

/-! ## What a step does -/

variable {x : Slot} {writing submitted : Bool} {state : WsState} {turns : List HttpTurn} {k : Nat}

section Effect

variable {cfg : Config} {w w1 w' : Transfers} {s' : Server} {op : EventOp} {generation : Nat}

/-- The loop that a handler enters: for the connection's stream, or for its requests if it becomes
    HTTP or has no file response in progress. -/
theorem handlerLoop_cases {loop : Option Nat} (h : w.handlerLoop x writing state = some loop) :
    (∃ b, loop = some b ∧ w.fileStream x = some b) ∨
      (loop = none ∧ ((w.server.conns x).state = .tlsHandshake ∧ state = .http ∨
        (w.server.conns x).state = .connecting ∧ state = .http ∨
        (w.server.conns x).state = .http ∧ w.asyncInflight x = false)) := by
  unfold Transfers.handlerLoop at h
  split at h
  · rename_i hbefore
    split at h
    · exact .inr ⟨(Option.some.inj h).symm, .inl ⟨hbefore, ‹_›⟩⟩
    · cases h
  · obtain ⟨b, hb, rfl⟩ := Option.map_eq_some_iff.mp h
    exact .inl ⟨b, rfl, hb⟩
  · rename_i hbefore
    split at h
    · exact .inr ⟨(Option.some.inj h).symm, .inr (.inl ⟨hbefore, ‹_›⟩)⟩
    · cases h
  · rename_i hbefore
    split at h
    · cases h
    · rename_i hidle
      exact .inr ⟨(Option.some.inj h).symm, .inr (.inr ⟨hbefore, Bool.eq_false_iff.mpr hidle⟩)⟩
  · cases h

/-- A handler leaves the connection in a state that it can leave it in, and serves nothing or runs
    its loop. -/
theorem handle_cases (h : w.handle x writing state turns = some (w1, submitted)) :
    handlerLeaves writing (w.server.conns x).state state = true ∧
      ((w1 = w ∧ submitted = false) ∨ ∃ loop, w.handlerLoop x writing state = some loop ∧
        w.httpTurns x loop turns = some (w1, submitted)) := by
  unfold Transfers.handle at h
  split at h
  · cases h
  rename_i hleaves
  refine ⟨Bool.eq_true_of_not_eq_false hleaves, ?_⟩
  split at h
  · cases h
    exact .inl ⟨rfl, rfl⟩
  split at h
  · cases h
  · rename_i loop hloop
    exact .inr ⟨loop, hloop, h⟩

/-- The four ends of a completion. -/
inductive Completed (w : Transfers) (k : Nat) (x : Slot) (generation : Nat) (turns : List HttpTurn)
    (w1 : Transfers) (submitted : Bool) : Prop
  | stream (b : Nat) (hb : w.flights[k]? = some (.chunk b))
      (hreq : w.requested x generation = true) (hptr : w.fileStream x = some b)
      (hw : ((w.landed k).setReading b false).chunkComplete x b turns = some (w1, submitted))
  | streamDropped (b : Nat) (hb : w.flights[k]? = some (.chunk b))
      (hgone : w.requested x generation = true → w.fileStream x ≠ some b)
      (hw : w1 = ((w.landed k).setReading b false).streamFree b) (hsub : submitted = false)
  | file (f : Nat) (hf : w.flights[k]? = some (.file f)) (hreq : w.requested x generation = true)
      (w2 : Transfers)
      (hw : ((w.landed k).fileAnswer x f).httpTurns x none turns = some (w2, submitted))
      (hfree : w1 = w2.fileFree f)
  | fileDropped (f : Nat) (hf : w.flights[k]? = some (.file f))
      (hgone : w.requested x generation = false)
      (hw : w1 = (w.landed k).fileFree f) (hsub : submitted = false)

theorem complete_completed {asked : Bool}
    (hw : w.complete k x generation turns = some (w1, submitted, asked)) :
    Completed w k x generation turns w1 submitted := by
  unfold Transfers.complete at hw
  dsimp only at hw
  split at hw
  · cases hw
  · rename_i b hb
    split at hw
    · rename_i hok
      obtain ⟨⟨w2, sub⟩, hw2, heq⟩ := Option.map_eq_some_iff.mp hw
      obtain ⟨rfl, rfl, _⟩ := heq
      exact .stream b hb hok.1 hok.2 hw2
    · rename_i hno
      obtain ⟨rfl, rfl, _⟩ := Option.some.inj hw
      exact .streamDropped b hb (fun hreq hptr => hno ⟨hreq, hptr⟩) rfl rfl
  · rename_i f hf
    split at hw
    · rename_i hreq
      obtain ⟨⟨w2, sub⟩, hw2, heq⟩ := Option.map_eq_some_iff.mp hw
      obtain ⟨rfl, rfl, _⟩ := heq
      exact .file f hf hreq w2 hw2 rfl
    · rename_i hno
      obtain ⟨rfl, rfl, _⟩ := Option.some.inj hw
      exact .fileDropped f hf (Bool.eq_false_iff.mpr hno) rfl rfl

/-- A completion starts another read only if the connection is still the one that asked. -/
theorem Completed.requested (h : Completed w k x generation turns w1 submitted)
    (hsub : submitted = true) : w.requested x generation = true := by
  cases h with
  | stream _ _ hreq => exact hreq
  | file _ _ hreq => exact hreq
  | streamDropped _ _ _ _ hno | fileDropped _ _ _ _ hno =>
    simp [hno] at hsub

/-- A step's part in the contexts, with what the server's part does to the reads in flight. -/
inductive ContextEffect (w : Transfers) (s' : Server) (op : EventOp) : Transfers → Prop
  | quiet (hevent : (slotEvent w.server op.label).bind SlotEvent.sets = none)
      (haio : s'.aio = w.server.aio) : ContextEffect w s' op w
  | complete (k : Nat) (submitted close : Bool) (x : Slot) (generation : Nat) (w1 : Transfers)
      (hlabel : op.label = .completion k submitted close)
      (hk : w.server.aio[k]? = some (x, generation))
      (hw : Completed w k x generation op.turns w1 submitted)
      (haio : s'.aio =
        if submitted then w.server.aio.eraseIdx k ++ [(x, generation)]
        else w.server.aio.eraseIdx k) : ContextEffect w s' op w1
  | handle (x : Slot) (writing : Bool) (state : WsState) (fail submitted : Bool) (w1 : Transfers)
      (hevent : slotEvent w.server op.label = some (.handle x writing state fail))
      (hw : w.handle x writing state op.turns = some (w1, submitted))
      (haio : s'.aio =
        if submitted then w.server.aio ++ [(x, (w.server.conns x).generation)]
        else w.server.aio) : ContextEffect w s' op w1
  | start (x : Slot) (hevent : slotEvent w.server op.label = some (.start x))
      (haio : s'.aio = w.server.aio) : ContextEffect w s' op (w.detach x)
  | wipe (x : Slot) (hevent : slotEvent w.server op.label = some (.wipe x))
      (haio : s'.aio = w.server.aio) : ContextEffect w s' op (w.cleanup x)

theorem completion_effect {submit close : Bool} (hlabel : op.label = .completion k submit close)
    (hs : w.server.step cfg op.label = some s') (hw : w.contextStep op = some w1) :
    ContextEffect w s' op w1 := by
  unfold Transfers.contextStep at hw
  rw [hlabel] at hw hs
  dsimp only at hw
  split at hw
  · cases hw
  rename_i x generation hk
  split at hw
  · rename_i w2 submitted asked hcomplete
    split at hw
    · rename_i hok
      obtain ⟨rfl, _⟩ := hok
      cases hw
      have hcompleted := complete_completed hcomplete
      refine .complete k submit close x generation _ hlabel hk hcompleted ?_
      simp only [Server.step] at hs
      split at hs
      · rename_i hk'
        obtain ⟨rfl, rfl⟩ := Prod.mk.inj (Option.some.inj (hk'.symm.trans hk))
        cases hs
        cases submit with
        | false =>
          unfold Server.readComplete
          dsimp only
          split
          · split
            · rfl
            · split <;> rfl
          · rfl
        | true =>
          have hreq := of_decide_eq_true (hcompleted.requested rfl)
          obtain ⟨fd, hfd⟩ := Option.isSome_iff_exists.mp hreq.2.2
          unfold Server.readComplete
          dsimp only
          rw [if_pos ⟨hreq.1, hreq.2.1⟩, hfd]
          dsimp only
          split <;> rfl
      · cases hs
    · cases hw
  · cases hw

theorem io_effect {submit fail : Bool} (hlabel : op.label = .io state submit fail)
    (hs : w.server.step cfg op.label = some s') (hw : w.contextStep op = some w1) :
    ContextEffect w s' op w1 := by
  have hio : w.server.ioStep state submit fail = some s' := by rwa [hlabel] at hs
  unfold Transfers.contextStep at hw
  have hevent : slotEvent w.server op.label =
      w.server.handling.map fun h => .handle h.1 h.2 state fail := by
    rw [hlabel]
    rfl
  rw [hevent, hlabel] at hw
  dsimp only at hw
  obtain ⟨pc, -, ⟨hhandling, rfl⟩ | ⟨x, writing, fd, hhandling, -, rfl⟩⟩ := ioStep_cases hio
  · rw [hhandling] at hw hevent
    cases hw
    exact .quiet (by rw [hevent]; rfl) rfl
  · rw [hhandling] at hw hevent
    dsimp only [Option.map_some] at hw
    split at hw
    · rename_i w2 submitted hhandle
      split at hw
      · rename_i hsub
        subst hsub
        cases hw
        exact .handle x writing state fail submit _ hevent hhandle rfl
      · cases hw
    · cases hw

/-- Handlers run in the checks of a connection event. -/
theorem handle_label {s : Server} {a : Label} {fail : Bool}
    (h : slotEvent s a = some (.handle x writing state fail)) :
    ∃ state submit fail, a = .io state submit fail := by
  cases a with
  | io state submit fail => exact ⟨state, submit, fail, rfl⟩
  | message | cont =>
    simp only [slotEvent] at h
    split at h <;> simp at h
  | _ => simp [slotEvent] at h

/-- A step of the server with its effect on the contexts. -/
theorem eventStep_effect (hstep : eventStep cfg w op = some w') :
    ∃ w1 s', w.server.step cfg op.label = some s' ∧ w' = { w1 with server := s' } ∧
      ContextEffect w s' op w1 := by
  unfold eventStep at hstep
  split at hstep
  · rename_i s' w1 hs hw
    refine ⟨w1, s', hs, (Option.some.inj hstep).symm, ?_⟩
    by_cases hio : ∃ state submit fail, op.label = .io state submit fail
    · obtain ⟨state, submit, fail, hlabel⟩ := hio
      exact io_effect hlabel hs hw
    by_cases hcompletion : ∃ k submit close, op.label = .completion k submit close
    · obtain ⟨k, submit, close, hlabel⟩ := hcompletion
      exact completion_effect hlabel hs hw
    have haio : s'.aio = w.server.aio :=
      step_aio (fun state submit fail h => hio ⟨state, submit, fail, h⟩)
        (fun k submit close h => hcompletion ⟨k, submit, close, h⟩) hs
    unfold Transfers.contextStep at hw
    split at hw
    · rename_i hlabel
      exact absurd ⟨_, _, _, hlabel⟩ hcompletion
    · rename_i hlabel
      exact absurd ⟨_, _, _, hlabel⟩ hio
    · split at hw
      · rename_i x hevent
        cases hw
        exact .start x hevent haio
      · rename_i x hevent
        cases hw
        exact .wipe x hevent haio
      · rename_i hstart hwipe
        cases hw
        refine .quiet ?_ haio
        cases hevent : slotEvent w.server op.label with
        | none => rfl
        | some event =>
          cases event with
          | handle => exact absurd (handle_label hevent) hio
          | start x => exact absurd hevent (hstart x)
          | wipe x => exact absurd hevent (hwipe x)
          | close => rfl
          | drop => rfl
  · cases hstep

end Effect

end Portico.Loop
