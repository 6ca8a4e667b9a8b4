/-
  What an event can do to a connection.

  `Entry` lists what an event handler does before its first round, and with which round it goes
  on; `Drops` is an event that closes the connection without one.

  Proved: `webStep_handled`, every event is one of the two; `webStep_rule`, from which the
  invariants of whole runs follow: it is enough to look at entries and rounds.
-/
import Portico.Http.Rounds

namespace Portico.Http

open Portico.Lib Portico.Ws Portico.Ws.OutConn WebConn List

/-! ## Entries -/

/-- Some of the bytes that the client has sent have been read. -/
def Reads (c c' : WebConn) : Prop :=
  ∃ bytes capacity pending, c.pending = bytes ++ pending ∧
    c' = { c with
      recv := ⟨c.recv.bytes ++ bytes, capacity⟩
      pending := pending
      received := c.received ++ bytes }

/-- The event has closed the connection without a round. -/
structure Drops (c c' : WebConn) : Prop where
  closed : c'.out.closed = true
  trace : c'.trace = c.trace
  current : c'.stream = c.stream
  streamActs : c'.streamActs = c.streamActs
  stream : c.out.state = .http → c'.out.state = .http ∧
    c'.out.wire ++ c'.out.out.unsent = c.out.wire ++ c.out.out.unsent

/-- The connection is not classified yet. -/
def Begins (c : WebConn) : Prop := c.out.state = .tlsHandshake ∨ c.out.state = .connecting

def WebConn.withState (c : WebConn) (state : WsState) : WebConn :=
  { c with out := { c.out with state := state } }

/-- What an event does before the first round, and with which round its handler goes on. -/
inductive Entry (srv : WebServer) (silent : Prop) (c : WebConn) : WebConn → Next → Prop
  | ignore : c.out.state = .http → c.closeWhenDrained = true → Entry srv silent c c (.ret true)
  | hold {c'} : c.out.state = .http → c.closeWhenDrained = false → c.asyncInflight = true →
    Reads c c' → Entry srv silent c c' (.ret true)
  | serve {c'} : c.out.state = .http → c.closeWhenDrained = false → c.asyncInflight = false →
    Reads c c' → Entry srv silent c c' .serve
  | drained {out} : OutGrows silent c.out out [] →
    out.out.backlog = true ∨ (c.stream = none ∧ c.closeWhenDrained = false) →
    Entry srv silent c { c with out := out } (.ret true)
  | resume {out s reading} : c.stream = some s → OutGrows silent c.out out [] →
    Entry srv silent c { c with out := out, stream := some { s with reading := reading } } .pump
  | fileAnswer {c' ctx b} : c.file = some ctx → ctx.keepAlive = true →
    Goes silent { c with asyncInflight := false, file := none } c'
      [.queue (.whole (.request ctx.request) b)] →
    ctx.Answer b → Entry srv silent c c' .serve
  | fileGiveUp {c' ctx acts b} : c.file = some ctx →
    acts = [] ∨ acts = [.queue (.whole (.request ctx.request) b)] →
    Ends silent { c with asyncInflight := false, file := none } c' acts false →
    ctx.Answer b → Entry srv silent c c' (.ret false)
  | round {c1 c2 next next'} : Entry srv silent c c1 next → RoundTo srv silent c1 next c2 next' →
    Entry srv silent c c2 next'
  | begin {c' state} : Begins c → state = .tlsHandshake ∨ state = .connecting →
    Reads (c.withState state) c' → Entry srv silent c c' (.ret true)
  | beginRefuse {c1 c' acts status b ok} : Begins c → Reads (c.withState .connecting) c1 →
    acts = [] ∨ acts = [.queue (.whole (.refusal status) b)] → Ends silent c1 c' acts ok →
    (status = 431 → findTerm c1.recv.bytes = none ∧ maxHeaderSize < c1.recv.bytes.length) →
    Entry srv silent c c' (.ret ok)
  | upgrade {c1 wire recv} : Begins c → Reads (c.withState .open) c1 →
    Entry srv silent c { c1 with out := { c1.out with wire := wire }, recv := recv } (.ret true)
  | enter {c'} : Begins c → Reads (c.withState .http) c' → Entry srv silent c c' .serve

theorem recvTurn_takes (t : Turn) (buf : RecvBuffer) (pending : Bytes) :
    ∃ bytes, pending = bytes ++ (recvTurn t buf pending).2.1 ∧
      (recvTurn t buf pending).1.bytes = buf.bytes ++ bytes := by
  have hchunk : ∀ buf' : RecvBuffer, buf'.bytes = buf.bytes →
      ∃ bytes, pending = bytes ++ (recvChunk t.answer buf' pending).2.1 ∧
        (recvChunk t.answer buf' pending).1.bytes = buf.bytes ++ bytes := by
    intro buf' hbuf
    have hsame : ∃ bytes, pending = bytes ++ pending ∧ buf'.bytes = buf.bytes ++ bytes :=
      ⟨[], rfl, by rw [hbuf, append_nil]⟩
    unfold recvChunk
    cases t.answer with
    | again | eof | error => exact hsame
    | bytes =>
      dsimp only
      split
      · exact hsame
      · exact ⟨_, (take_append_drop _ _).symm, by rw [hbuf]⟩
  have hkeep : ∃ bytes, pending = bytes ++ pending ∧ buf.bytes = buf.bytes ++ bytes :=
    ⟨[], rfl, (append_nil _).symm⟩
  unfold recvTurn
  dsimp only
  split
  · split
    · exact hkeep
    split
    · exact hkeep
    · exact hchunk _ rfl
  · exact hchunk buf rfl

theorem readIntoRecv_takes :
    ∀ (turns : List Turn) (buf : RecvBuffer) (pending : Bytes),
      ∃ bytes, pending = bytes ++ (readIntoRecv turns buf pending).2.1 ∧
        (readIntoRecv turns buf pending).1.bytes = buf.bytes ++ bytes := by
  intro turns
  induction turns with
  | nil =>
    intro buf pending
    exact recvTurn_takes ⟨true, .again⟩ buf pending
  | cons t ts ih =>
    intro buf pending
    obtain ⟨bytes, hpend, hbytes⟩ := recvTurn_takes t buf pending
    unfold readIntoRecv
    rcases hr : recvTurn t buf pending with ⟨buf1, pending1, _ | ok⟩ <;>
      rw [hr] at hpend hbytes <;> dsimp only at hpend hbytes ⊢
    · obtain ⟨bytes', hpend', hbytes'⟩ := ih buf1 pending1
      exact ⟨bytes ++ bytes', by rw [append_assoc, ← hpend', ← hpend],
        by rw [hbytes', hbytes, append_assoc]⟩
    · exact ⟨bytes, hpend, hbytes⟩

/-- `read_into_recv` reads, whether or not it fails. -/
theorem afterRead_reads (turns : List Turn) (c : WebConn) :
    Reads c (c.afterRead (readIntoRecv turns c.recv c.pending).1
      (readIntoRecv turns c.recv c.pending).2.1) := by
  obtain ⟨bytes, hpend, hbytes⟩ := readIntoRecv_takes turns c.recv c.pending
  generalize readIntoRecv turns c.recv c.pending = r at hpend hbytes
  obtain ⟨⟨recvd, capacity⟩, pending, ok⟩ := r
  dsimp only at hpend hbytes
  refine ⟨bytes, capacity, pending, hpend, ?_⟩
  subst hbytes
  simp only [afterRead, drop_left]

/-- The connection has received `bytes`, and the socket has taken nothing if it is silent. -/
def Does (silent : Prop) (c c' : WebConn) (bytes : Bytes) : Prop :=
  c'.received = c.received ++ bytes ∧ (silent → c'.out.wire = c.out.wire)

/-- The handler goes on from an entry and runs to its end. -/
def Runs (srv : WebServer) (silent : Prop) (bytes : Bytes) (c c' c1 : WebConn) (next : Next)
    (script : List Env) : Prop :=
  Does silent c c1 bytes ∧ Entry srv silent c c1 next ∧ (silent → ∀ e ∈ script, e.TakesNone) ∧
    ∃ deferring, c' = settle (c1.goOn srv script deferring next)

/-- What an event comes to: the connection is closed, or a handler runs to its end. -/
def Handled (srv : WebServer) (silent : Prop) (bytes : Bytes) (c c' : WebConn) : Prop :=
  (Does silent c c' bytes ∧ Drops c c') ∨
    ∃ c1 next script, Runs srv silent bytes c c' c1 next script

theorem goOn_ret (srv : WebServer) (script : List Env) (deferring ok : Bool) (c : WebConn) :
    c.goOn srv script deferring (.ret ok) = c.leave deferring ok := by
  unfold goOn runLoop
  rfl

variable {srv : WebServer} {c c' c1 : WebConn} {ok : Bool} {next : Next} {state : WsState}
  {acts : List WebAct} {silent : Prop} {bytes : Bytes} {script : List Env}

theorem Does.refl (c : WebConn) : Does silent c c [] := ⟨(append_nil _).symm, fun _ => rfl⟩

theorem Does.trans (h : Does silent c c1 bytes) (h' : Does silent c1 c' []) :
    Does silent c c' bytes :=
  ⟨by rw [h'.1, append_nil, h.1], fun hs => (h'.2 hs).trans (h.2 hs)⟩

theorem Goes.does (h : Goes silent c c' acts) : Does silent c c' [] := by
  obtain ⟨out, hg, rfl⟩ := h
  exact ⟨(append_nil _).symm, hg.wire⟩

theorem Ends.does (h : Ends silent c c' acts ok) : Does silent c c' [] := by
  obtain ⟨out, part, hg, rfl⟩ := h
  exact ⟨(append_nil _).symm, hg.wire⟩

theorem RoundTo.does {next' : Next} (h : RoundTo srv silent c next c' next') :
    Does silent c c' [] := by
  cases h with
  | wait | blocked | submit | finish => exact .refl c
  | refuse _ _ hends | giveUp _ _ _ hends | stop _ hends => exact hends.does
  | answer _ _ _ hgoes | park _ _ hgoes | start _ _ _ hgoes | chunk _ _ _ hgoes => exact hgoes.does

/-- A handler that returns without a round. -/
theorem Entry.handled (h : Entry srv silent c c1 (.ret ok)) (hdoes : Does silent c c1 bytes)
    (deferring : Bool) : Handled srv silent bytes c (settle (c1.leave deferring ok)) :=
  .inr ⟨c1, .ret ok, [], hdoes, h, fun _ _ he => absurd he not_mem_nil, deferring, by rw [goOn_ret]⟩

theorem leave_false (ok : Bool) (c : WebConn) : c.leave false ok = (c, ok) := by
  unfold leave
  rw [Bool.and_false, if_neg Bool.false_ne_true]

theorem Entry.handled_now (h : Entry srv silent c c1 (.ret ok)) (hdoes : Does silent c c1 bytes) :
    Handled srv silent bytes c (settle (c1, ok)) := by
  have := h.handled hdoes false
  rwa [leave_false] at this

theorem porticoHttpEvent_handled (hstate : c.out.state = .http) (turns : List Turn)
    (hs : silent → ∀ e ∈ script, e.TakesNone) :
    Handled srv silent
      (if !c.closeWhenDrained then (c.drained turns).drop c.recv.bytes.length else []) c
      (settle (c.porticoHttpEvent srv turns script)) := by
  have hreads := afterRead_reads turns c
  unfold porticoHttpEvent drained
  cases hflag : c.closeWhenDrained with
  | true => exact Entry.handled_now (.ignore hstate hflag) (.refl c)
  | false =>
    rcases hr : readIntoRecv turns c.recv c.pending with ⟨recv, pending, _ | _⟩ <;>
      rw [hr] at hreads
    · -- a read that fails closes the connection
      exact .inl ⟨⟨rfl, fun _ => rfl⟩, rfl, rfl, rfl, rfl, fun h => ⟨h, rfl⟩⟩
    have hdoes : Does silent c (c.afterRead recv pending)
        (recv.bytes.drop c.recv.bytes.length) := ⟨rfl, fun _ => rfl⟩
    cases hin : c.asyncInflight with
    | true =>
      have hin' : (c.afterRead recv pending).asyncInflight = true := hin
      simp only [hin', if_true]
      exact Entry.handled_now (.hold hstate hflag hin hreads) hdoes
    | false =>
      have hin' : (c.afterRead recv pending).asyncInflight = false := hin
      simp only [hin', Bool.false_eq_true, if_false]
      exact .inr ⟨_, .serve, script, hdoes, .serve hstate hflag hin hreads, hs, false, rfl⟩

theorem Reads.withState (h : Reads c c') (state : WsState) :
    Reads (c.withState state) (c'.withState state) := by
  obtain ⟨bytes, capacity, pending, hpend, rfl⟩ := h
  exact ⟨bytes, capacity, pending, hpend, rfl⟩

theorem porticoInitialDispatch_handled (hbegins : Begins c) (turns : List Turn)
    (hs : silent → ∀ e ∈ script, e.TakesNone) :
    Handled srv silent ((c.drained turns).drop c.recv.bytes.length) c
      (settle ((c.withState .connecting).porticoInitialDispatch srv turns script)) := by
  have hreads := afterRead_reads turns (c.withState .connecting)
  have hnot : c.out.state ≠ .http := by
    rcases hbegins with h | h <;> rw [h] <;> decide
  have hhead : silent → (script.headD .quiet).TakesNone := fun h => headD_takesNone (hs h)
  show Handled srv silent (((c.withState .connecting).drained turns).drop c.recv.bytes.length) c _
  unfold WebConn.porticoInitialDispatch drained
  rcases hr : readIntoRecv turns (c.withState .connecting).recv (c.withState .connecting).pending
    with ⟨recv, pending, _ | _⟩ <;> rw [hr] at hreads <;> dsimp only at hreads ⊢
  · exact .inl ⟨⟨rfl, fun _ => rfl⟩, rfl, rfl, rfl, rfl, fun h => absurd h hnot⟩
  have hdoes : Does silent c ((c.withState .connecting).afterRead recv pending)
      (recv.bytes.drop c.recv.bytes.length) := ⟨rfl, fun _ => rfl⟩
  generalize hc1 : (c.withState .connecting).afterRead recv pending = c1 at hreads hdoes
  generalize recv.bytes.drop c.recv.bytes.length = bytes at hdoes
  have hdrop : ∀ wire, (silent → wire = c1.out.wire) →
      Handled srv silent bytes c ({ c1 with out := { c1.out with wire := wire } }).close := by
    intro wire hwire
    refine .inl ⟨⟨hdoes.1, fun h => (hwire h).trans (hdoes.2 h)⟩, ?_⟩
    subst hc1
    exact ⟨rfl, rfl, rfl, rfl, fun h => absurd h hnot⟩
  have hrefuse : ∀ status,
      (status = 431 → findTerm c1.recv.bytes = none ∧ maxHeaderSize < c1.recv.bytes.length) →
      Handled srv silent bytes c (settle (c1.httpRefuse (script.headD .quiet) status)) := by
    intro status hwhy
    obtain ⟨acts, hacts, hends⟩ := httpErrorClose_ends hhead c1 (.refusal status) status
    rw [← httpRefuse] at hends
    generalize c1.httpRefuse (script.headD .quiet) status = r at hends
    exact Entry.handled_now (.beginRefuse hbegins hreads hacts hends hwhy)
      (hdoes.trans hends.does)
  cases hterm : findTerm c1.recv.bytes with
  | none =>
    dsimp only
    split
    · exact hrefuse 431 fun _ => ⟨hterm, ‹_›⟩
    · exact Entry.handled_now (.begin hbegins (.inr rfl) hreads) hdoes
  | some term =>
    dsimp only
    by_cases hup : ciContains (c1.recv.bytes.take (term + 4)) (ascii "sec-websocket-key") = true
    · -- the handshake writes to the socket itself
      rw [if_pos hup]
      unfold upgrade
      split
      · exact hdrop c1.out.wire fun _ => rfl
      have hreply : ∀ request, silent →
          c1.out.wire ++ ((script.headD .quiet).handshake request).1 = c1.out.wire := by
        intro request h
        rw [(hhead h).2 request, append_nil]
      generalize cString (c1.recv.bytes.take (term + 4)) = request
      rcases hsaid : (script.headD .quiet).handshake request with ⟨reply, _ | _⟩ <;>
        have hwire := hreply request <;> rw [hsaid] at hwire
      · exact hdrop _ hwire
      · exact Entry.handled_now (.upgrade hbegins (hreads.withState .open))
          ⟨hdoes.1, fun h => (hwire h).trans (hdoes.2 h)⟩
    · rw [if_neg hup]
      cases srv.handle with
      | none => exact hrefuse 501 (by simp)
      | some =>
        have henter : Reads (c.withState .http) (c1.withState .http) := hreads.withState .http
        exact .inr ⟨c1.withState .http, .serve, script, hdoes, .enter hbegins henter, hs, false,
          rfl⟩

theorem handleTlsHandshake_handled (hstate : c.out.state = .tlsHandshake) (tls : TlsStep)
    (turns : List Turn) (hs : silent → ∀ e ∈ script, e.TakesNone) :
    Handled srv silent (if tls == .done then (c.drained turns).drop c.recv.bytes.length else []) c
      (settle (c.handleTlsHandshake srv tls turns script)) := by
  cases tls with
  | done => exact porticoInitialDispatch_handled (.inl hstate) turns hs
  | wants =>
    refine Entry.handled_now (.begin (.inl hstate) (.inl rfl)
      ⟨[], c.recv.capacity, c.pending, rfl, ?_⟩) (.refl c)
    rw [append_nil, append_nil, WebConn.withState, ← hstate]
  | failed => exact .inl ⟨.refl c, rfl, rfl, rfl, rfl, fun h => ⟨h, rfl⟩⟩

theorem porticoConnOnWritable_handled (srv : WebServer) (c : WebConn)
    {answers : List WriteAnswer} (hanswers : silent → ∀ n, .takes n ∉ answers)
    (hs : silent → ∀ e ∈ script, e.TakesNone) :
    Handled srv silent [] c (settle (c.porticoConnOnWritable srv answers script)) := by
  have hout : OutGrows silent c.out (connOutDrain answers c.out).1 [] :=
    outGrows_of_adds (connOutDrain_adds answers c.out)
      fun h => connOutDrain_silent (hanswers h) c.out
  unfold porticoConnOnWritable
  rcases hr : connOutDrain answers c.out with ⟨out, ok⟩
  rw [hr] at hout
  have hdoes : Does silent c { c with out := out } [] := ⟨(append_nil _).symm, hout.wire⟩
  have hdrop : Handled srv silent [] c { c with out := out }.close :=
    .inl ⟨hdoes, rfl, rfl, rfl, rfl,
      fun h => ⟨hout.state.trans h, hout.stream.trans (append_nil _)⟩⟩
  cases ok with
  | false => exact hdrop
  | true =>
    dsimp only
    cases hback : out.out.backlog with
    | true => exact Entry.handled_now (.drained hout (.inl hback)) hdoes
    | false =>
      cases hstream : c.stream with
      | some s =>
        exact .inr ⟨{ c with out := out, stream := some s }, .pump, script, hdoes,
          .resume hstream hout, hs, false, rfl⟩
      | none =>
        have hsame : ({ c with out := out, stream := none } : WebConn) = { c with out := out } := by
          rw [← hstream]
        show Handled srv silent [] c
          (settle (({ c with out := out, stream := none } : WebConn), !c.closeWhenDrained))
        rw [hsame]
        cases hflag : !c.closeWhenDrained with
        | false => exact hdrop
        | true =>
          exact Entry.handled_now (.drained hout (.inr ⟨hstream, Bool.not_eq_true' _ ▸ hflag⟩))
            hdoes

theorem fileReadComplete_handled {ctx : FileCtx} (hfile : c.file = some ctx) (read : Option Bytes)
    (hs : silent → ∀ e ∈ script, e.TakesNone) :
    Handled srv silent [] c (c.fileReadComplete srv ctx read script) := by
  unfold fileReadComplete
  dsimp only
  obtain ⟨b, hb, ⟨c', hemit, hka, hgoes⟩ | ⟨c', acts, hemit, hacts, hends⟩⟩ :=
    fileEmit_cases (fun h => headD_takesNone (hs h)) { c with asyncInflight := false, file := none }
      ctx read
  · rw [hemit]
    exact .inr ⟨c', .serve, script.tail, hgoes.does, .fileAnswer hfile hka hgoes hb,
      fun h e he => hs h e (mem_of_mem_tail he), true, rfl⟩
  · rw [hemit]
    exact Entry.handled (.fileGiveUp hfile hacts hends hb) hends.does true

theorem streamChunkComplete_handled {s : StreamCtx} (hstream : c.stream = some s)
    (read : Option Bytes) (hs : silent → ∀ e ∈ script, e.TakesNone) :
    Handled srv silent [] c (c.streamChunkComplete srv s read script) := by
  have htail : silent → ∀ e ∈ script.tail, e.TakesNone :=
    fun h e he => hs h e (mem_of_mem_tail he)
  have hlanded : Entry srv silent c { c with stream := some { s with reading := false } } .pump :=
    .resume hstream (.refl c.out)
  unfold streamChunkComplete
  dsimp only
  generalize hc1 : ({ c with stream := some { s with reading := false } } : WebConn) = c1 at hlanded
  have hdoes : Does silent c c1 [] := hc1 ▸ .refl c
  have hs1 : c1.stream = some { s with reading := false } := hc1 ▸ rfl
  rcases streamSend_cases (fun h => headD_takesNone (hs h)) c1 { s with reading := false } read with
    ⟨c', data, hsend, hne, hlen, hgoes⟩ | ⟨c', acts, hsend, hends, hstops⟩
  · rw [hsend]
    have hround : RoundTo srv silent c1 .pump _ .pump := .chunk hs1 hne hlen hgoes
    dsimp only
    split
    · refine .inr ⟨_, _, script.tail, ?_, .round (.round hlanded hround)
        (streamFinish_round rfl ‹_›), htail, true, rfl⟩
      exact (hdoes.trans hround.does).trans
        (@RoundTo.does srv _ _ _ _ _ (streamFinish_round rfl ‹_›))
    · exact .inr ⟨_, .pump, script.tail, hdoes.trans hround.does, .round hlanded hround, htail,
        true, rfl⟩
  · rw [hsend]
    have hround : RoundTo srv silent c1 .pump _ (.ret false) := .stop hs1 hends hstops
    exact Entry.handled (.round hlanded hround) (hdoes.trans hround.does) true

/-! ## Events -/

/-- Whether a readability event gets to `read_into_recv`. -/
def WebConn.drains (c : WebConn) (tls : TlsStep) : Bool :=
  match c.out.state with
  | .tlsHandshake => tls == .done
  | .connecting => true
  | .http => !c.closeWhenDrained
  | .open | .closing | .closed => false

/-- The bytes that an event reads. -/
def WebConn.newBytes (c : WebConn) : WebEvent → Bytes
  | .readable tls turns _ =>
    if c.drains tls then (c.drained turns).drop c.recv.bytes.length else []
  | .writable tls _ turns _ =>
    if c.out.state = .tlsHandshake ∧ c.drains tls then
      (c.drained turns).drop c.recv.bytes.length
    else []
  | .fileDone _ _ | .chunkDone _ _ | .hangup => []

def WebEvent.TakesNone : WebEvent → Prop
  | .readable _ _ script => ∀ e ∈ script, e.TakesNone
  | .writable _ answers _ script => (∀ n, .takes n ∉ answers) ∧ ∀ e ∈ script, e.TakesNone
  | .fileDone _ script => ∀ e ∈ script, e.TakesNone
  | .chunkDone _ script => ∀ e ∈ script, e.TakesNone
  | .hangup => True

/-- Every event that can happen is handled. -/
theorem webStep_handled {ev : WebEvent} (h : webStep srv c ev = some c') :
    c.out.closed = false ∧ Handled srv ev.TakesNone (c.newBytes ev) c c' := by
  unfold webStep at h
  split at h
  · cases h
  refine ⟨Bool.eq_false_iff.mpr ‹_›, ?_⟩
  have hgone : ∀ {silent}, Handled srv silent [] c c.close :=
    .inl ⟨.refl c, rfl, rfl, rfl, rfl, fun h => ⟨h, rfl⟩⟩
  cases ev with
  | readable tls turns script =>
    obtain ⟨r, hr, rfl⟩ := Option.map_eq_some_iff.mp h
    unfold WebConn.handleConnectionRead at hr
    dsimp only [newBytes]
    unfold drains
    split at hr
    all_goals
      rename_i hstate
      rw [hstate]
      cases hr
    · exact handleTlsHandshake_handled hstate tls turns id
    · have hsame : c.withState .connecting = c := by
        rw [WebConn.withState, ← hstate]
      have := @porticoInitialDispatch_handled srv c _ script (.inr hstate) turns id
      rwa [hsame] at this
    · exact porticoHttpEvent_handled hstate turns id
    · exact hgone
    · exact hgone
  | writable tls answers turns script =>
    dsimp only [newBytes] at h ⊢
    by_cases hstate : c.out.state = .tlsHandshake
    · rw [if_pos hstate] at h
      cases h
      have hhandled := @handleTlsHandshake_handled srv c _ script hstate tls turns
        (show WebEvent.TakesNone (.writable tls answers turns script) → _ from And.right)
      simpa only [drains, hstate, true_and] using hhandled
    · rw [if_neg hstate] at h
      cases h
      rw [if_neg fun hb => hstate hb.1]
      exact porticoConnOnWritable_handled srv c And.left And.right
  | fileDone read script =>
    dsimp only at h
    cases hfile : c.file with
    | none => rw [hfile] at h; cases h
    | some =>
      rw [hfile] at h
      cases h
      exact fileReadComplete_handled hfile read id
  | chunkDone read script =>
    dsimp only at h
    cases hstream : c.stream with
    | none => rw [hstream] at h; cases h
    | some s =>
      rw [hstream] at h
      dsimp only at h
      by_cases hreading : s.reading = true
      · rw [if_pos hreading] at h
        cases h
        exact streamChunkComplete_handled hstream read id
      · rw [if_neg hreading] at h
        cases h
  | hangup =>
    cases h
    exact hgone

/-- An event closes the connection, or its handler returns with what entries give and rounds
    preserve. -/
theorem webStep_reaches {ev : WebEvent} {J : Next → WebConn → Prop}
    (h : webStep srv c ev = some c')
    (hentry : ∀ {c1 next}, Does ev.TakesNone c c1 (c.newBytes ev) →
      Entry srv ev.TakesNone c c1 next → J next c1)
    (hround : ∀ {next next' c c'}, RoundTo srv ev.TakesNone c next c' next' → J next c →
      J next' c') :
    (Does ev.TakesNone c c' (c.newBytes ev) ∧ Drops c c') ∨
      ∃ d ok c2, J (.ret ok) c2 ∧ c' = settle (c2.leave d ok) := by
  obtain ⟨-, hdrop | ⟨c1, next, script, hdoes, he, hs, deferring, rfl⟩⟩ := webStep_handled h
  · exact .inl hdrop
  · obtain ⟨d, ok, c2, hc2, -, hrun⟩ := goOn_reaches hround hs deferring (hentry hdoes he)
    exact .inr ⟨d, ok, c2, hc2, by rw [hrun]⟩

/-- The rule for what events preserve: `I` between them, `J` inside their handlers. -/
theorem webStep_rule {I : WebConn → Prop} {J : Next → WebConn → Prop}
    (hdrop : ∀ {c c'}, I c → Drops c c' → I c')
    (hentry : ∀ {silent c c' next}, c.out.closed = false → I c → Entry srv silent c c' next →
      J next c')
    (hround : ∀ {silent next next' c c'}, RoundTo srv silent c next c' next' → J next c →
      J next' c')
    (hleave : ∀ {c} ok deferring, J (.ret ok) c → I (settle (c.leave deferring ok))) (c : WebConn)
    (ev : WebEvent) (c' : WebConn) (hc : I c) (h : webStep srv c ev = some c') : I c' := by
  rcases webStep_reaches h (fun _ he => hentry (webStep_handled h).1 hc he) hround with
    ⟨-, hd⟩ | ⟨d, ok, c2, hc2, rfl⟩
  · exact hdrop hc hd
  · exact hleave ok d hc2

/-- An event adds what it reads to what has been received, and the wire stays if the socket takes
    nothing. -/
theorem webStep_does {ev : WebEvent} (h : webStep srv c ev = some c') :
    Does ev.TakesNone c c' (c.newBytes ev) := by
  rcases webStep_reaches (J := fun _ c2 => Does ev.TakesNone c c2 (c.newBytes ev)) h
      (fun hdoes _ => hdoes) (fun hround hc => Does.trans hc hround.does) with
    ⟨hdoes, -⟩ | ⟨d, ok, c2, hc2, rfl⟩
  · exact hdoes
  · exact settle_leave (P := fun c2 => Does ev.TakesNone c c2 _) c2 d ok (fun _ => hc2)
      (fun _ => hc2) fun _ => hc2

/-! ## What events keep -/

/-- A plain-HTTP connection stays one, the flag that makes it ignore input stays set, and the
    histories only grow. -/
def Keeps (c c' : WebConn) : Prop :=
  (c.out.state = .http → c'.out.state = .http) ∧
    (c.closeWhenDrained = true → c'.closeWhenDrained = true) ∧
    c.trace <+: c'.trace ∧ c.streamActs <+: c'.streamActs

theorem Keeps.refl (c : WebConn) : Keeps c c := ⟨id, id, prefix_rfl, prefix_rfl⟩

theorem Keeps.flag (h : Keeps c c') (hset : c.closeWhenDrained = true) :
    c'.closeWhenDrained = true :=
  h.2.1 hset

theorem Keeps.streamActs (h : Keeps c c') : c.streamActs <+: c'.streamActs := h.2.2.2

theorem Keeps.trans {a b : WebConn} (h : Keeps a b) (h' : Keeps b c) : Keeps a c :=
  ⟨fun hs => h'.1 (h.1 hs), fun hset => h'.flag (h.flag hset), h.2.2.1.trans h'.2.2.1,
    h.streamActs.trans h'.streamActs⟩

theorem Goes.keeps (h : Goes silent c c' acts) : Keeps c c' := by
  obtain ⟨out, hg, rfl⟩ := h
  exact ⟨fun hs => hg.state.trans hs, id, prefix_append _ _, prefix_rfl⟩

theorem Ends.keeps (h : Ends silent c c' acts ok) : Keeps c c' := by
  obtain ⟨out, part, hg, rfl⟩ := h
  exact ⟨fun hs => hg.state.trans hs, fun hset => by simp [hset], prefix_append _ _, prefix_rfl⟩

theorem Reads.keeps (h : Reads c c') : Keeps c c' := by
  obtain ⟨bytes, capacity, pending, -, rfl⟩ := h
  exact .refl c

theorem Begins.keeps (h : Begins c) (hr : Keeps (c.withState state) c') : Keeps c c' := by
  refine ⟨fun hs => ?_, hr.2⟩
  rcases h with hb | hb <;> rw [hs] at hb <;> cases hb

theorem keeps_detached (c : WebConn) (acts : List StreamAct) : Keeps c (c.detached acts) :=
  ⟨id, id, prefix_rfl, prefix_append _ _⟩

theorem RoundTo.keeps {next' : Next} (h : RoundTo srv silent c next c' next') : Keeps c c' := by
  cases h with
  | wait | blocked | submit => exact .refl c
  | finish => exact keeps_detached c _
  | refuse _ _ hends | giveUp _ _ _ hends => exact hends.keeps
  | stop _ hends => exact (keeps_detached c _).trans hends.keeps
  | answer _ _ _ hgoes | park _ _ hgoes | start _ _ _ hgoes => exact hgoes.keeps
  | chunk _ _ _ hgoes =>
    obtain ⟨hstate, hflag, htrace, -⟩ := hgoes.keeps
    exact ⟨hstate, hflag, htrace, prefix_append _ _⟩

theorem Entry.keeps (h : Entry srv silent c c' next) : Keeps c c' := by
  induction h with
  | ignore => exact .refl c
  | hold _ _ _ hreads | serve _ _ _ hreads => exact hreads.keeps
  | drained hout | resume _ hout =>
    exact ⟨fun hs => hout.state.trans hs, id, prefix_rfl, prefix_rfl⟩
  | fileAnswer _ _ hgoes => exact hgoes.keeps
  | fileGiveUp _ _ hends => exact hends.keeps
  | round _ hround ih => exact ih.trans hround.keeps
  | begin hb _ hreads | upgrade hb hreads | enter hb hreads => exact hb.keeps hreads.keeps
  | beginRefuse hb hreads _ hends => exact hb.keeps (hreads.keeps.trans hends.keeps)

theorem leave_keeps (c : WebConn) (deferring ok : Bool) : Keeps c (settle (c.leave deferring ok)) :=
  settle_leave c deferring ok (fun _ => .refl c) (fun _ => .refl c)
    fun _ => ⟨id, fun _ => rfl, prefix_rfl, prefix_rfl⟩

end Portico.Http
