/-
  How a stream is cut into reads does not matter.

  `WebServer.outcome` is what a byte stream is answered with, as a function of its bytes alone:
  nothing while its first header block is incomplete, and then the handshake's reply, a refusal
  by a server without a handler, or the answers to its requests in their order (`respondAll`).

  Proved: `splits_irrelevant`, for a handler that answers in memory and a socket that takes all
  output. However the stream arrives, in reads and in readability events, a connection that was
  not answered 431 has done what the outcome of the stream says, once the stream has been read
  or the connection has left plain HTTP. So two ways to cut it give the same requests and the
  same bytes.
-/
import Portico.Http.Requests

namespace Portico.Http

open Portico.Lib Portico.Ws Portico.Ws.OutConn WebConn List

/-! ## A socket that takes everything -/

/-- How many bytes the socket takes before it blocks or fails. -/
def writeRoom : List WriteAnswer → Nat
  | .takes n :: answers => n + 1 + writeRoom answers
  | _ => 0

/-- The socket takes what it is given, in one write or in several, and there is memory. -/
structure Env.Accepting (handshake : Bytes → Bytes × Bool) (e : Env) : Prop where
  room : ∀ b, b.length ≤ writeRoom (e.writes b)
  build : e.buildOk = true
  alloc : e.allocOk = true
  shakes : e.handshake = handshake

/-- Nothing waits in the output. -/
structure Clear (c : WebConn) : Prop where
  shut : c.out.shut = false
  sent : c.out.out.backlog = false

theorem sendLoop_taken (reallocOk epollOk : Bool) :
    ∀ (answers : List WriteAnswer) (c : OutConn) (rest : Bytes), c.shut = false →
      rest.length ≤ writeRoom answers →
      sendLoop reallocOk epollOk answers c rest = ({ c with wire := c.wire ++ rest }, true) := by
  intro answers
  have hdone : ∀ c : OutConn, (c, true) = ({ c with wire := c.wire ++ [] }, true) := by
    intro c
    rw [append_nil]
  induction answers with
  | nil =>
    intro c rest _ hroom
    obtain rfl := eq_nil_of_length_eq_zero (Nat.le_zero.mp hroom)
    exact hdone c
  | cons a answers ih =>
    intro c rest hshut hroom
    unfold sendLoop
    by_cases hnil : rest = []
    · subst hnil
      exact hdone c
    have hpos := length_pos_of_ne_nil hnil
    rw [if_neg hnil]
    cases a with
    | takes n =>
      have hdrop : rest.drop (min (n + 1) rest.length) = rest.drop (n + 1) := by
        rcases Nat.le_total (n + 1) rest.length with hle | hle
        · rw [Nat.min_eq_left hle]
        · rw [Nat.min_eq_right hle, drop_length, drop_eq_nil_of_le hle]
      have hroom' : (rest.drop (n + 1)).length ≤ writeRoom answers := by
        rw [length_drop]
        unfold writeRoom at hroom
        omega
      have hwrite : c.socketWrite rest (.takes n) =
          ({ c with wire := c.wire ++ rest.take (n + 1) }, .took (min (n + 1) rest.length)) := by
        unfold socketWrite
        rw [hshut]
        rfl
      have hrest := ih { c with wire := c.wire ++ rest.take (n + 1) } _ hshut hroom'
      rw [hwrite]
      dsimp only
      rw [hdrop, hrest, append_assoc, take_append_drop]
    | again | fail => exact absurd (Nat.le_zero.mp hroom) (by omega)

/-- The connection after a buffer that the socket took. -/
def WebConn.sent (c : WebConn) (p : Piece) : WebConn :=
  { c with
    out := { c.out with wire := c.out.wire ++ p.bytes, issued := c.out.issued ++ [p.bytes] }
    trace := c.trace ++ [.queue p] }

variable {handshake : Bytes → Bytes × Bool} {e : Env} {c : WebConn}

theorem send_taken (he : e.Accepting handshake) (hc : Clear c) (p : Piece) :
    c.send e p = (c.sent p, true) := by
  have hblock : ¬(c.out.issue p.bytes).out.backlog = true := Bool.eq_false_iff.mp hc.sent
  have hloop := sendLoop_taken e.reallocOk e.epollOk (e.writes p.bytes) (c.out.issue p.bytes)
    p.bytes hc.shut (he.room p.bytes)
  unfold send porticoConnSend
  rw [if_neg hblock, hloop]
  rfl

theorem wire_sent (h : c.out.wire = queuedBytes c.trace) (p : Piece) :
    (c.sent p).out.wire = queuedBytes (c.sent p).trace := by
  show c.out.wire ++ p.bytes = queuedBytes (c.trace ++ [.queue p])
  rw [h, queuedBytes_append]
  simp [queuedBytes]

theorem httpFinishClose_clear (hc : Clear c) : c.httpFinishClose = (c, false) :=
  if_neg (Bool.eq_false_iff.mp hc.sent)

theorem Clear.after_sent (hc : Clear c) (p : Piece) : Clear (c.sent p) := ⟨hc.shut, hc.sent⟩

/-- The status that refuses input. -/
def refusal (status : Int) : Piece := .whole (.refusal status) (responseHead status [] 0 false)

theorem httpRefuse_taken (he : e.Accepting handshake) (hc : Clear c) {status : Int}
    (hshort : (responseHead status [] 0 false).length < 160) :
    c.httpRefuse e status = (c.sent (refusal status), false) := by
  have hbuild : porticoHttpBuildStatus e.buildOk status false =
      some (responseHead status [] 0 false) := by
    unfold porticoHttpBuildStatus
    rw [if_neg (Nat.not_le.mpr hshort), he.build]
    rfl
  unfold httpRefuse httpErrorClose httpReplyStatus
  rw [hbuild]
  dsimp only
  rw [← refusal, send_taken he hc]
  exact httpFinishClose_clear (hc.after_sent _)

/-! ## What a stream is answered with -/

/-- The handler never answers with a file. -/
def AnswersInMemory (srv : WebServer) : Prop :=
  ∀ history req, (handled srv history req).isFile = false

/-- What follows a trace when a request, or input that is refused, comes next. -/
def respond (srv : WebServer) (trace : List WebAct) :
    Except Int Request → List WebAct × Option Unit
  | .error status => (trace ++ [.queue (refusal status)], some ())
  | .ok req =>
    let history := dispatches trace
    match porticoHttpBuildResponse true (handled srv history req) req.keepAlive with
    | none => (trace ++ [.dispatch req], some ())
    | some resp =>
      (trace ++ [.dispatch req, .queue (.whole (.request history.length) resp)],
        if req.keepAlive then none else some ())

variable {req : Request} {c1 c' : WebConn} {script : List Env} {bytes : Bytes} {term : Nat}
  {turns : List Turn}

variable {srv : WebServer} {trace : List WebAct}

theorem respond_unbuilt
    (h : porticoHttpBuildResponse true (handled srv (dispatches trace) req) req.keepAlive = none) :
    respond srv trace (.ok req) = (trace ++ [.dispatch req], some ()) := by
  simp only [respond, h]

theorem respond_built {resp : Bytes}
    (h : porticoHttpBuildResponse true (handled srv (dispatches trace) req) req.keepAlive =
      some resp) :
    respond srv trace (.ok req) =
      (trace ++ [.dispatch req, .queue (.whole (.request (dispatches trace).length) resp)],
        if req.keepAlive then none else some ()) := by
  simp only [respond, h]

/-- What follows a trace on the requests of a buffer. -/
def WebServer.respondAll (srv : WebServer) (trace : List WebAct) (bytes : Bytes) :
    List WebAct × Bytes × Option (Stop Unit) :=
  drain (requestParser srv) (respond srv) trace bytes

/-- What a connection does whose client sends `bytes`, and what it sends back. -/
def WebServer.outcome (srv : WebServer) (handshake : Bytes → Bytes × Bool) (bytes : Bytes) :
    List WebAct × Bytes :=
  match findTerm bytes with
  | none => ([], [])
  | some term =>
    let block := bytes.take (term + 4)
    if ciContains block (ascii "sec-websocket-key") then ([], (handshake (cString block)).1)
    else
      let trace :=
        match srv.handle with
        | none => [.queue (refusal 501)]
        | some _ => (srv.respondAll [] bytes).1
      (trace, queuedBytes trace)

/-! ### Rounds -/

/-- A plain-HTTP connection between two requests. -/
structure Standing (c : WebConn) : Prop extends Clear c where
  opened : c.out.closed = false
  state : c.out.state = .http
  flag : c.closeWhenDrained = false
  inflight : c.asyncInflight = false
  fits : c.recv.bytes.length ≤ c.recv.capacity
  wire : c.out.wire = queuedBytes c.trace

/-- The connection has been answered 431. -/
def Refused431 (c : WebConn) : Prop := .queue (refusal 431) ∈ c.trace

instance : DecidablePred Refused431 :=
  fun c => inferInstanceAs (Decidable (.queue (refusal 431) ∈ c.trace))

/-- What has arrived and what is to come are as before. -/
def SameInput (c c' : WebConn) : Prop := c'.received = c.received ∧ c'.pending = c.pending

/-- How a round of `process_http_buffer` goes on. -/
def ServesTo (srv : WebServer) (c : WebConn) : WebConn × Next → Prop
  | (c', .serve) => Standing c' ∧ SameInput c c' ∧ ∃ total v,
      srv.front c.recv.bytes = .item total v ∧ respond srv c.trace v = (c'.trace, none) ∧
      c'.recv.bytes = c.recv.bytes.drop total
  | (c', .ret true) => c' = c ∧ srv.front c.recv.bytes = .more
  | (c', .ret false) => SameInput c c' ∧ c'.out.wire = queuedBytes c'.trace ∧
      (Refused431 c' ∨ ∃ total v, srv.front c.recv.bytes = .item total v ∧
        respond srv c.trace v = (c'.trace, some ()))
  | (_, .pump) => False

variable {r : WebConn × Bool}

section Rounds

variable {total : Nat}

/-- A request is handed to the application and answered from memory. -/
theorem dispatch_accepting (hmem : AnswersInMemory srv) (he : e.Accepting handshake)
    (hc : Standing c) (hfront : srv.front c.recv.bytes = .item total (.ok req)) :
    ServesTo srv c (c.dispatch srv e req total) := by
  let c1 : WebConn := { c with trace := c.trace ++ [.dispatch req] }
  have hc1 : Clear c1 := ⟨hc.shut, hc.sent⟩
  have hwire1 : c1.out.wire = queuedBytes c1.trace := by
    rw [hc.wire, queuedBytes_append]
    simp [queuedBytes]
  unfold dispatch
  rw [if_neg (by rw [hmem]; simp), answer, he.build]
  cases hbuild : porticoHttpBuildResponse true (handled srv (dispatches c.trace) req)
      req.keepAlive with
  | none => exact ⟨⟨rfl, rfl⟩, hwire1, .inr ⟨total, _, hfront, respond_unbuilt hbuild⟩⟩
  | some resp =>
    have hrespond := respond_built hbuild
    dsimp only
    rw [send_taken he hc1]
    generalize Piece.whole (.request (dispatches c.trace).length) resp = p at hrespond ⊢
    have hwire2 := wire_sent hwire1 p
    have htrace : (c1.sent p).trace = c.trace ++ [.dispatch req, .queue p] :=
      append_assoc _ _ _
    rw [← htrace] at hrespond
    cases hka : req.keepAlive with
    | true =>
      rw [hka] at hrespond
      have hfits : (c.recv.bytes.drop total).length ≤ c.recv.capacity := by
        have := hc.fits
        rw [length_drop]
        omega
      exact ⟨⟨⟨hc.shut, hc.sent⟩, hc.opened, hc.state, hc.flag, hc.inflight, hfits, hwire2⟩,
        ⟨rfl, rfl⟩, total, _, hfront, hrespond, rfl⟩
    | false =>
      rw [hka] at hrespond
      have hclear : Clear ((c1.sent p).consume total) := ⟨hc.shut, hc.sent⟩
      show ServesTo srv c (returns ((c1.sent p).consume total).httpFinishClose)
      rw [httpFinishClose_clear hclear]
      exact ⟨⟨rfl, rfl⟩, hwire2, .inr ⟨total, _, hfront, hrespond⟩⟩

theorem serveRound_accepting (hmem : AnswersInMemory srv) (he : e.Accepting handshake)
    (hc : Standing c) : ServesTo srv c (c.serveRound srv e) := by
  obtain ⟨hmore, hround⟩ | ⟨n, status, hfront, hround⟩ | ⟨total, req, hfront, hround⟩ :=
    serveRound_front srv e c <;> rw [hround]
  · split
    · rw [httpRefuse_taken he hc.toClear (by decide)]
      exact ⟨⟨rfl, rfl⟩, wire_sent hc.wire _,
        .inl (mem_append_right _ (mem_singleton_self _))⟩
    · exact ⟨rfl, hmore⟩
  · have hshort : (responseHead status [] 0 false).length < 160 := by
      rcases WebServer.front_error hfront with rfl | rfl | rfl <;> decide
    rw [httpRefuse_taken he hc.toClear hshort]
    exact ⟨⟨rfl, rfl⟩, wire_sent hc.wire _, .inr ⟨n, _, hfront, rfl⟩⟩
  · exact dispatch_accepting hmem he hc hfront

/-- How `process_http_buffer` ends: with what the buffer's requests are answered with. -/
def Answered (srv : WebServer) (c : WebConn) : WebConn × Bool → Prop
  | (c', true) => Standing c' ∧ SameInput c c' ∧
      srv.respondAll c.trace c.recv.bytes = (c'.trace, c'.recv.bytes, none)
  | (c', false) => SameInput c c' ∧ c'.out.wire = queuedBytes c'.trace ∧
      (Refused431 c' ∨ ∃ rest stop,
        srv.respondAll c.trace c.recv.bytes = (c'.trace, rest, some stop))

theorem Answered.after {v : Except Int Request} (hin : SameInput c c1)
    (hfront : srv.front c.recv.bytes = .item total v)
    (hrespond : respond srv c.trace v = (c1.trace, none))
    (hrecv : c1.recv.bytes = c.recv.bytes.drop total) (h : Answered srv c1 r) :
    Answered srv c r := by
  have hdrain : srv.respondAll c.trace c.recv.bytes = srv.respondAll c1.trace c1.recv.bytes := by
    rw [hrecv]
    exact drain_item (requestParser srv) (respond srv) hfront hrespond
  obtain ⟨c', ok⟩ := r
  have hsame : SameInput c1 c' → SameInput c c' :=
    fun hs => ⟨hs.1.trans hin.1, hs.2.trans hin.2⟩
  cases ok with
  | true => exact ⟨h.1, hsame h.2.1, hdrain.trans h.2.2⟩
  | false =>
    obtain ⟨hs, hwire, hend⟩ := h
    exact ⟨hsame hs, hwire, by rwa [hdrain]⟩

/-- A round for every request, and one that finds no other. -/
theorem runLoop_accepting (hmem : AnswersInMemory srv) :
    ∀ (k : Nat) (script : List Env) (c : WebConn), (∀ e ∈ script, e.Accepting handshake) →
      c.recv.bytes.length < k → c.recv.bytes.length < script.length → Standing c →
      Answered srv c (c.runLoop srv k script false .serve) := by
  intro k
  induction k with
  | zero => intro _ _ _ hk; exact absurd hk (Nat.not_lt_zero _)
  | succ k ih =>
    intro script c hscript hk hlen hc
    match script with
    | [] => exact absurd hlen (Nat.not_lt_zero _)
    | e :: script =>
      have hround := serveRound_accepting hmem (hscript e mem_cons_self) hc
      rw [runLoop_serve, headD_cons, tail_cons]
      generalize c.serveRound srv e = r at hround ⊢
      obtain ⟨c1, next⟩ := r
      match next with
      | .ret true =>
        obtain ⟨rfl, hmore⟩ := hround
        rw [runLoop_ret]
        exact ⟨hc, ⟨rfl, rfl⟩, drain_more (requestParser srv) (respond srv) hmore⟩
      | .ret false =>
        obtain ⟨hin, hwire, hend⟩ := hround
        rw [runLoop_ret]
        refine ⟨hin, hwire, hend.imp_right ?_⟩
        rintro ⟨total, v, hfront, hrespond⟩
        exact ⟨_, _, drain_stop (requestParser srv) (respond srv) hfront hrespond⟩
      | .serve =>
        obtain ⟨hc1, hin, total, v, hfront, hrespond, hrecv⟩ := hround
        have hbounds := WebServer.front_bounds hfront
        have hless : c1.recv.bytes.length < c.recv.bytes.length := by
          rw [hrecv, length_drop]
          omega
        rw [length_cons] at hlen
        exact .after hin hfront hrespond hrecv (ih script c1
          (fun e he => hscript e (mem_cons_of_mem _ he)) (by omega) (by omega) hc1)
      | .pump => exact hround.elim

theorem processHttpBuffer_accepting (hmem : AnswersInMemory srv)
    (hscript : ∀ e ∈ script, e.Accepting handshake) (hlen : c.recv.bytes.length < script.length)
    (hc : Standing c) : Answered srv c (c.processHttpBuffer srv script) :=
  runLoop_accepting hmem _ script c hscript (by unfold loopBound; omega) hlen hc

end Rounds

/-! ## The connection tracks the stream -/

/-- The bytes make the connection plain HTTP. -/
def Plain (srv : WebServer) (bytes : Bytes) : Prop :=
  ∃ term, findTerm bytes = some term ∧
    ciContains (bytes.take (term + 4)) (ascii "sec-websocket-key") = false ∧ srv.handle ≠ none

/-- A connection that has not been classified: it has only read. -/
structure Fresh (c : WebConn) : Prop extends Clear c where
  opened : c.out.closed = false
  begins : Begins c
  flag : c.closeWhenDrained = false
  inflight : c.asyncInflight = false
  fits : c.recv.bytes.length ≤ c.recv.capacity
  trace : c.trace = []
  wire : c.out.wire = []
  recv : c.recv.bytes = c.received

/-- The connection is closed or upgraded, and no further byte would have made a difference. -/
def Final (srv : WebServer) (handshake : Bytes → Bytes × Bool) (c : WebConn) : Prop :=
  (c.out.closed = true ∨ c.out.state = .open) ∧
    ∀ more, srv.outcome handshake (c.received ++ more) = (c.trace, c.out.wire)

def Tracks (srv : WebServer) (handshake : Bytes → Bytes × Bool) (c : WebConn) : Prop :=
  (Refused431 c ∧ c.out.closed = true) ∨ (Fresh c ∧ findTerm c.received = none) ∨
    (Standing c ∧ Plain srv c.received ∧
      srv.respondAll [] c.received = (c.trace, c.recv.bytes, none)) ∨
    Final srv handshake c

/-- The socket is readable and bytes arrive; there is an entry of the script for every round. -/
def Arrives (handshake : Bytes → Bytes × Bool) (bound : Nat) : WebEvent → Prop
  | .readable step turns script => step ≠ .failed ∧ (∀ t ∈ turns, t.arriving = true) ∧
      (∀ e ∈ script, e.Accepting handshake) ∧ bound < script.length
  | _ => False

section Stream

theorem take_headers_append (h : findTerm bytes = some term) (more : Bytes) :
    (bytes ++ more).take (term + 4) = bytes.take (term + 4) :=
  take_append_of_le_length (findTerm_bound h)

theorem Plain.append (h : Plain srv bytes) (more : Bytes) : Plain srv (bytes ++ more) := by
  obtain ⟨term, hterm, hkey, hhandle⟩ := h
  exact ⟨term, findTerm_append more hterm, by rwa [take_headers_append hterm], hhandle⟩

theorem Plain.outcome (h : Plain srv bytes) :
    srv.outcome handshake bytes =
      ((srv.respondAll [] bytes).1, queuedBytes (srv.respondAll [] bytes).1) := by
  obtain ⟨term, hterm, hkey, hhandle⟩ := h
  obtain ⟨handle, hsome⟩ := Option.ne_none_iff_exists'.mp hhandle
  unfold WebServer.outcome
  rw [hterm]
  dsimp only
  rw [hkey, hsome, if_neg Bool.false_ne_true]

/-- A plain-HTTP connection serves what it has read. -/
theorem tracks_served (hmem : AnswersInMemory srv) (hscript : ∀ e ∈ script, e.Accepting handshake)
    (hlen : c.recv.bytes.length < script.length) (hc : Standing c) (hplain : Plain srv c.received)
    (hall : srv.respondAll [] c.received = srv.respondAll c.trace c.recv.bytes) :
    Tracks srv handshake (settle (c.processHttpBuffer srv script)) ∧
      SameInput c (settle (c.processHttpBuffer srv script)) := by
  have hserved := processHttpBuffer_accepting hmem hscript hlen hc
  generalize c.processHttpBuffer srv script = r at hserved ⊢
  obtain ⟨c', ok⟩ := r
  cases ok with
  | true =>
    obtain ⟨hc', hin, hdrain⟩ := hserved
    refine ⟨.inr (.inr (.inl ⟨hc', ?_, ?_⟩)), hin⟩
    · show Plain srv c'.received
      rwa [hin.1]
    · show srv.respondAll [] c'.received = _
      rw [hin.1, hall, hdrain]
      rfl
  | false =>
    obtain ⟨hin, hwire, h431 | ⟨rest, stop, hdrain⟩⟩ := hserved
    · exact ⟨.inl ⟨h431, rfl⟩, hin⟩
    refine ⟨.inr (.inr (.inr ⟨.inl rfl, fun more => ?_⟩)), hin⟩
    have hmore : srv.respondAll [] (c.received ++ more) = (c'.trace, rest ++ more, some stop) := by
      have := drain_append (requestParser srv) (respond srv) [] c.received more
      rwa [← WebServer.respondAll, ← WebServer.respondAll, hall, hdrain] at this
    show srv.outcome handshake (c'.received ++ more) = (c'.trace, c'.out.wire)
    rw [hin.1, (hplain.append more).outcome, hmore, hwire]

/-- A read of bytes that arrive. -/
theorem readIntoRecv_arriving (hturns : ∀ t ∈ turns, t.arriving = true)
    (hfits : c.recv.bytes.length ≤ c.recv.capacity) :
    ∃ recv pending, readIntoRecv turns c.recv c.pending = (recv, pending, true) ∧
      recv.bytes.length ≤ recv.capacity ∧ Reads c (c.afterRead recv pending) := by
  obtain ⟨bytes, -, -, hroom, hok⟩ := readIntoRecv_spec turns hturns c.recv c.pending hfits
  have hreads := afterRead_reads turns c
  generalize readIntoRecv turns c.recv c.pending = r at hroom hok hreads ⊢
  obtain ⟨recv, pending, ok⟩ := r
  cases (show ok = true from hok)
  exact ⟨recv, pending, rfl, hroom, hreads⟩

theorem Reads.input (h : Reads c c1) : c1.received ++ c1.pending = c.received ++ c.pending := by
  obtain ⟨bytes, capacity, pending, hpend, rfl⟩ := h
  rw [hpend]
  exact append_assoc _ _ _

/-- The part of `portico_initial_dispatch` behind the read. -/
def WebConn.gate (srv : WebServer) (script : List Env) (c : WebConn) : WebConn × Bool :=
  match findTerm c.recv.bytes with
  | none =>
    if maxHeaderSize < c.recv.bytes.length then c.httpRefuse (script.headD .quiet) 431
    else (c, true)
  | some term =>
    if ciContains (c.recv.bytes.take (term + 4)) (ascii "sec-websocket-key") then
      c.upgrade (script.headD .quiet) (term + 4)
    else match srv.handle with
      | none => c.httpRefuse (script.headD .quiet) 501
      | some _ => (c.withState .http).processHttpBuffer srv script

variable {recv : RecvBuffer} {pending : Bytes}

theorem porticoInitialDispatch_gate
    (hr : readIntoRecv turns c.recv c.pending = (recv, pending, true)) (script : List Env) :
    WebConn.porticoInitialDispatch srv turns script c =
      (c.afterRead recv pending).gate srv script := by
  unfold WebConn.porticoInitialDispatch
  rw [hr]
  rfl

theorem porticoHttpEvent_read (hflag : c.closeWhenDrained = false)
    (hinflight : c.asyncInflight = false)
    (hr : readIntoRecv turns c.recv c.pending = (recv, pending, true)) (script : List Env) :
    c.porticoHttpEvent srv turns script =
      (c.afterRead recv pending).processHttpBuffer srv script := by
  unfold porticoHttpEvent
  rw [hflag, hr, if_neg Bool.false_ne_true]
  exact if_neg (Bool.eq_false_iff.mp hinflight)

theorem Fresh.reads (h : Fresh c) (hr : Reads c c1)
    (hfits : c1.recv.bytes.length ≤ c1.recv.capacity) : Fresh c1 := by
  obtain ⟨bytes, capacity, pending, -, rfl⟩ := hr
  exact ⟨⟨h.shut, h.sent⟩, h.opened, h.begins, h.flag, h.inflight, hfits, h.trace, h.wire,
    congrArg (· ++ bytes) h.recv⟩

theorem Fresh.connecting (h : Fresh c) : Fresh (c.withState .connecting) :=
  ⟨⟨h.shut, h.sent⟩, h.opened, .inr rfl, h.flag, h.inflight, h.fits, h.trace, h.wire, h.recv⟩

theorem headD_accepting (hscript : ∀ e ∈ script, e.Accepting handshake) {n : Nat}
    (hlen : n < script.length) : (script.headD .quiet).Accepting handshake := by
  match script with
  | [] => exact absurd hlen (Nat.not_lt_zero _)
  | e :: script => exact hscript e mem_cons_self

/-- An upgrade is accepted or refused by its header block alone. -/
theorem final_upgrade {e : Env} (he : e.Accepting handshake) (hc : Fresh c)
    (hterm : findTerm c.received = some term)
    (hkey : ciContains (c.received.take (term + 4)) (ascii "sec-websocket-key") = true) :
    Final srv handshake (settle (c.upgrade e (term + 4))) ∧
      SameInput c (settle (c.upgrade e (term + 4))) := by
  have houtcome : ∀ more, srv.outcome handshake (c.received ++ more) =
      ([], (handshake (cString (c.received.take (term + 4)))).1) := by
    intro more
    unfold WebServer.outcome
    rw [findTerm_append more hterm]
    dsimp only
    rw [take_headers_append hterm, hkey, if_pos rfl]
  unfold upgrade
  rw [he.alloc, he.shakes, hc.recv]
  rcases hshake : handshake (cString (c.received.take (term + 4))) with ⟨reply, _ | _⟩
  · refine ⟨⟨.inl rfl, fun more => ?_⟩, rfl, rfl⟩
    show srv.outcome handshake (c.received ++ more) = (c.trace, c.out.wire ++ reply)
    rw [houtcome, hshake, hc.trace, hc.wire, nil_append]
  · refine ⟨⟨.inr rfl, fun more => ?_⟩, rfl, rfl⟩
    show srv.outcome handshake (c.received ++ more) = (c.trace, c.out.wire ++ reply)
    rw [houtcome, hshake, hc.trace, hc.wire, nil_append]

/-- A server without a handler refuses the first request. -/
theorem final_refused (hc : Fresh c) (hterm : findTerm c.received = some term)
    (hkey : ciContains (c.received.take (term + 4)) (ascii "sec-websocket-key") = false)
    (hhandle : srv.handle = none) : Final srv handshake (settle (c.sent (refusal 501), false)) := by
  refine ⟨.inl rfl, fun more => ?_⟩
  show srv.outcome handshake (c.received ++ more) =
    (c.trace ++ [.queue (refusal 501)], c.out.wire ++ (refusal 501).bytes)
  unfold WebServer.outcome
  rw [findTerm_append more hterm]
  dsimp only
  rw [take_headers_append hterm, hkey, hhandle, hc.trace, hc.wire]
  simp [queuedBytes]

theorem tracks_gate (hmem : AnswersInMemory srv) (hscript : ∀ e ∈ script, e.Accepting handshake)
    (hlen : c.received.length < script.length) (hc : Fresh c) :
    Tracks srv handshake (settle (c.gate srv script)) ∧
      SameInput c (settle (c.gate srv script)) := by
  have he := headD_accepting hscript hlen
  unfold WebConn.gate
  cases hterm : findTerm c.recv.bytes with
  | none =>
    dsimp only
    split
    · rw [httpRefuse_taken he hc.toClear (by decide)]
      exact ⟨.inl ⟨mem_append_right _ (mem_singleton_self _), rfl⟩, rfl, rfl⟩
    · exact ⟨.inr (.inl ⟨hc, by rwa [hc.recv] at hterm⟩), rfl, rfl⟩
  | some term =>
    rw [hc.recv] at hterm
    dsimp only
    rw [hc.recv]
    cases hkey : ciContains (c.received.take (term + 4)) (ascii "sec-websocket-key") with
    | true =>
      rw [if_pos rfl]
      obtain ⟨hfinal, hin⟩ := final_upgrade he hc hterm hkey
      exact ⟨.inr (.inr (.inr hfinal)), hin⟩
    | false =>
      rw [if_neg Bool.false_ne_true]
      cases hhandle : srv.handle with
      | none =>
        rw [httpRefuse_taken he hc.toClear (by decide)]
        exact ⟨.inr (.inr (.inr (final_refused hc hterm hkey hhandle))), rfl, rfl⟩
      | some =>
        have hstand : Standing (c.withState .http) :=
          ⟨⟨hc.shut, hc.sent⟩, hc.opened, rfl, hc.flag, hc.inflight, hc.fits,
            hc.wire.trans (congrArg queuedBytes hc.trace).symm⟩
        have hall : srv.respondAll [] c.received = srv.respondAll c.trace c.recv.bytes := by
          rw [hc.trace, hc.recv]
        exact tracks_served hmem hscript (by rw [← hc.recv] at hlen; exact hlen) hstand
          ⟨term, hterm, hkey, by rw [hhandle]; simp⟩ hall

/-- An event of an unclassified connection. -/
theorem tracks_dispatch (hmem : AnswersInMemory srv) (hc : Fresh c)
    (hturns : ∀ t ∈ turns, t.arriving = true) (hscript : ∀ e ∈ script, e.Accepting handshake)
    (hlen : (c.received ++ c.pending).length < script.length)
    (h : c' = settle (WebConn.porticoInitialDispatch srv turns script c)) :
    Tracks srv handshake c' ∧ c'.received ++ c'.pending = c.received ++ c.pending := by
  obtain ⟨recv, pending, hr, hfits, hreads⟩ := readIntoRecv_arriving hturns hc.fits
  have hin := hreads.input
  have hlen' : (c.afterRead recv pending).received.length < script.length := by
    rw [← hin, length_append] at hlen
    omega
  obtain ⟨htracks, hsame⟩ := tracks_gate hmem hscript hlen' (hc.reads hreads hfits)
  rw [h, porticoInitialDispatch_gate hr, hsame.1, hsame.2]
  exact ⟨htracks, hin⟩

/-- An event of a plain-HTTP connection. -/
theorem tracks_event (hmem : AnswersInMemory srv) (hc : Standing c)
    (hplain : Plain srv c.received)
    (hall : srv.respondAll [] c.received = (c.trace, c.recv.bytes, none))
    (hturns : ∀ t ∈ turns, t.arriving = true) (hscript : ∀ e ∈ script, e.Accepting handshake)
    (hlen : (c.received ++ c.pending).length < script.length)
    (h : c' = settle (c.porticoHttpEvent srv turns script)) :
    Tracks srv handshake c' ∧ c'.received ++ c'.pending = c.received ++ c.pending := by
  obtain ⟨recv, pending, hr, hfits, hreads⟩ := readIntoRecv_arriving hturns hc.fits
  have hin := hreads.input
  have hstand : Standing (c.afterRead recv pending) :=
    ⟨⟨hc.shut, hc.sent⟩, hc.opened, hc.state, hc.flag, hc.inflight, hfits, hc.wire⟩
  have hsuffix : c.recv.bytes.length ≤ c.received.length := by
    have := (drain_rest_suffix (requestParser srv) (respond srv) [] c.received).length_le
    rwa [← WebServer.respondAll, hall] at this
  rw [h, porticoHttpEvent_read hc.flag hc.inflight hr]
  generalize c.afterRead recv pending = c1 at hreads hin hstand ⊢
  obtain ⟨bytes, capacity, pending', hpend, rfl⟩ := hreads
  have hlen' : (c.recv.bytes ++ bytes).length < script.length := by
    rw [hpend] at hlen
    simp only [length_append] at hlen ⊢
    omega
  have hall' : srv.respondAll [] (c.received ++ bytes) =
      srv.respondAll c.trace (c.recv.bytes ++ bytes) := by
    have := drain_append (requestParser srv) (respond srv) [] c.received bytes
    rwa [← WebServer.respondAll, ← WebServer.respondAll, hall] at this
  obtain ⟨htracks, hsame⟩ := tracks_served hmem hscript hlen' hstand (hplain.append bytes) hall'
  rw [hsame.1, hsame.2]
  exact ⟨htracks, hin⟩

/-- An event of an arriving stream is a read of an open connection. -/
theorem Arrives.reads {bound : Nat} {ev : WebEvent} (hev : Arrives handshake bound ev)
    (h : webStep srv c ev = some c') :
    c.out.closed = false ∧ ∃ step turns script r, step ≠ .failed ∧
      (∀ t ∈ turns, t.arriving = true) ∧ (∀ e ∈ script, e.Accepting handshake) ∧
      bound < script.length ∧ c.handleConnectionRead srv step turns script = some r ∧
      c' = settle r := by
  have hopen : c.out.closed = false := (webStep_handled h).1
  cases ev with
  | readable step turns script =>
    obtain ⟨hstep, hturns, hscript, hlen⟩ := hev
    unfold webStep at h
    rw [hopen, if_neg Bool.false_ne_true] at h
    obtain ⟨r, hr, rfl⟩ := Option.map_eq_some_iff.mp h
    exact ⟨hopen, step, turns, script, r, hstep, hturns, hscript, hlen, hr, rfl⟩
  | writable | fileDone | chunkDone | hangup => exact hev.elim

/-- A read of an unclassified connection waits for the TLS handshake or classifies. -/
theorem Begins.reads (h : Begins c) {step : TlsStep} (hstep : step ≠ .failed)
    (hr : c.handleConnectionRead srv step turns script = some r) :
    settle r = c ∨ r = (c.withState .connecting).porticoInitialDispatch srv turns script := by
  unfold WebConn.handleConnectionRead at hr
  rcases h with hstate | hstate <;> rw [hstate] at hr <;> cases hr
  · cases step with
    | done => exact .inr rfl
    | wants => exact .inl rfl
    | failed => exact absurd rfl hstep
  · rw [WebConn.withState, ← hstate]
    exact .inr rfl

variable {input : Bytes}

theorem tracks_step (hmem : AnswersInMemory srv) (c : WebConn) (ev : WebEvent) (c' : WebConn)
    (hc : Tracks srv handshake c ∧ c.received ++ c.pending = input)
    (hev : Arrives handshake input.length ev) (h : webStep srv c ev = some c') :
    Tracks srv handshake c' ∧ c'.received ++ c'.pending = input := by
  obtain ⟨htracks, rfl⟩ := hc
  obtain ⟨hopen, step, turns, script, r, hstep, hturns, hscript, hlen, hr, rfl⟩ := hev.reads h
  rcases htracks with ⟨-, hclosed⟩ | ⟨hfresh, hterm⟩ | ⟨hstand, hplain, hall⟩ | ⟨hend, -⟩
  · rw [hopen] at hclosed; cases hclosed
  · rcases hfresh.begins.reads hstep hr with hsame | rfl
    · rw [hsame]
      exact ⟨.inr (.inl ⟨hfresh, hterm⟩), rfl⟩
    · exact tracks_dispatch (c := c.withState .connecting) hmem hfresh.connecting hturns hscript
        hlen rfl
  · unfold WebConn.handleConnectionRead at hr
    rw [hstand.state] at hr
    cases hr
    exact tracks_event hmem hstand hplain hall hturns hscript hlen rfl
  · rcases hend with hclosed | hstate
    · rw [hopen] at hclosed; cases hclosed
    · unfold WebConn.handleConnectionRead at hr
      rw [hstate] at hr
      cases hr

/-- What a connection has done that has read its stream, or that no longer reads. -/
theorem Tracks.outcome (h : Tracks srv handshake c) (hin : c.received ++ c.pending = input)
    (h431 : ¬Refused431 c) (hall : c.pending = [] ∨ c.out.closed = true ∨ c.out.state = .open) :
    srv.outcome handshake input = (c.trace, c.out.wire) := by
  have hread : c.out.closed = false → c.out.state ≠ .open → input = c.received := by
    intro hopen hstate
    rcases hall with hpend | hclosed | hup
    · rw [← hin, hpend, append_nil]
    · rw [hopen] at hclosed; cases hclosed
    · exact absurd hup hstate
  rcases h with ⟨hrefused, -⟩ | ⟨hfresh, hterm⟩ | ⟨hstand, hplain, hserved⟩ | ⟨-, hfinal⟩
  · exact absurd hrefused h431
  · have hstate : c.out.state ≠ .open := by
      rcases hfresh.begins with hb | hb <;> rw [hb] <;> decide
    rw [hread hfresh.opened hstate, WebServer.outcome, hterm, hfresh.trace, hfresh.wire]
  · have hstate : c.out.state ≠ .open := by rw [hstand.state]; decide
    rw [hread hstand.opened hstate, hplain.outcome, hserved, hstand.wire]
  · rw [← hin, hfinal]

end Stream

/-- For a handler that answers in memory, and a socket that takes all output, two runs over the
    same stream hand the same requests to the application, queue the same buffers and send the
    same bytes, in whatever reads and readability events the stream arrives, unless one of them
    answers 431. Both have read the stream to its end, or no longer read it. -/
theorem splits_irrelevant (srv : WebServer) (hmem : AnswersInMemory srv)
    (handshake : Bytes → Bytes × Bool) (tls : Bool) (input : Bytes)
    (events events' : List WebEvent) (c c' : WebConn)
    (harr : ∀ ev ∈ events, Arrives handshake input.length ev)
    (harr' : ∀ ev ∈ events', Arrives handshake input.length ev)
    (hrun : run (webStep srv) (WebConn.accepted tls input) events = some c)
    (hrun' : run (webStep srv) (WebConn.accepted tls input) events' = some c')
    (hall : c.pending = [] ∨ c.out.closed = true ∨ c.out.state = .open)
    (hall' : c'.pending = [] ∨ c'.out.closed = true ∨ c'.out.state = .open)
    (h431 : ¬Refused431 c) (h431' : ¬Refused431 c') :
    c.trace = c'.trace ∧ c.out.wire = c'.out.wire := by
  have hstart : Tracks srv handshake (WebConn.accepted tls input) := by
    refine .inr (.inl ⟨⟨⟨rfl, rfl⟩, rfl, ?_, rfl, rfl, Nat.zero_le _, rfl, rfl, rfl⟩, rfl⟩)
    cases tls with
    | true => exact .inl rfl
    | false => exact .inr rfl
  have houtcome : ∀ {events : List WebEvent} {c : WebConn},
      (∀ ev ∈ events, Arrives handshake input.length ev) →
      run (webStep srv) (WebConn.accepted tls input) events = some c →
      (c.pending = [] ∨ c.out.closed = true ∨ c.out.state = .open) → ¬Refused431 c →
      srv.outcome handshake input = (c.trace, c.out.wire) := by
    intro events c harr hrun hall h431
    obtain ⟨htracks, hin⟩ := run_invariant (tracks_step hmem) events _ c ⟨hstart, rfl⟩
      (RunMeets.of_forall _ harr) hrun
    exact htracks.outcome hin h431 hall
  have hsame := (houtcome harr hrun hall h431).symm.trans (houtcome harr' hrun' hall' h431')
  exact Prod.ext_iff.mp hsame

/-- A server that answers every path with that path. -/
def echoServer : WebServer :=
  { pathServer false with
    handle := some fun _ req => (0, { Reply.empty with body := req.path }) }

theorem taking_accepting : Env.taking.Accepting Env.quiet.handshake :=
  ⟨fun b => by simp [Env.taking, writeRoom], rfl, rfl, rfl⟩

/-- A read of `n + 1` bytes, with a socket that takes everything. -/
def echoRead (n : Nat) : WebEvent :=
  .readable .wants [⟨true, .bytes n⟩, ⟨true, .again⟩] (List.replicate 39 .taking)

theorem echoRead_arrives (n : Nat) : Arrives Env.quiet.handshake 38 (echoRead n) := by
  refine ⟨by decide, fun t ht => ?_, fun e he => ?_, by decide⟩
  · simp only [mem_cons, not_mem_nil, or_false] at ht
    rcases ht with rfl | rfl <;> rfl
  · rw [eq_of_mem_replicate he]
    exact taking_accepting

/-- Two requests in one read, and in three of which the first ends inside a request line and the
    second inside a header block. -/
theorem splits_irrelevant_pipelined :
    ∃ c c', run (webStep echoServer)
        (WebConn.accepted false (ascii "GET /a HTTP/1.1\r\n\r\nGET /b HTTP/1.1\r\n\r\n"))
        [echoRead 99] = some c ∧
      run (webStep echoServer)
        (WebConn.accepted false (ascii "GET /a HTTP/1.1\r\n\r\nGET /b HTTP/1.1\r\n\r\n"))
        [echoRead 4, echoRead 30, echoRead 99] = some c' ∧
      (dispatches c.trace).length = 2 ∧ c.trace = c'.trace ∧ c.out.wire = c'.out.wire := by
  refine ⟨_, _, rfl, rfl, by decide, splits_irrelevant echoServer (fun _ _ => rfl)
    Env.quiet.handshake false (ascii "GET /a HTTP/1.1\r\n\r\nGET /b HTTP/1.1\r\n\r\n")
    [echoRead 99] [echoRead 4, echoRead 30, echoRead 99] _ _ ?_ ?_ rfl rfl (.inl rfl) (.inl rfl)
    (by decide) (by decide)⟩
  · simp only [forall_mem_singleton]
    exact echoRead_arrives 99
  · simp only [forall_mem_cons, not_mem_nil, false_implies, implies_true, and_true]
    exact ⟨echoRead_arrives 4, echoRead_arrives 30, echoRead_arrives 99⟩

end Portico.Http
