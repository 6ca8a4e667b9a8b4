/-
  What one round of `process_http_buffer` and of `stream_advance` can do to a connection.

  `RoundTo` lists the outcomes: what is added to the trace and to the output, what becomes of the
  request and of the file, and how the handler goes on. What only the socket or the file system
  decides is left open.

  Proved: `round_spec`, every round has one of the outcomes; `goOn_reaches`, a handler returns,
  and keeps what every outcome preserves.
-/
import Portico.Http.Serve

namespace Portico.Http

open Portico.Lib Portico.Ws Portico.Ws.OutConn WebConn List

/-! ## Output -/

variable {bytes : Bytes} {c c' c1 c2 : WebConn} {acts : List WebAct} {ok : Bool} {srv : WebServer}
  {next : Next} {acts' : List WebAct} {J : Next → WebConn → Prop} {e : Env} {script : List Env}
  {silent : Prop}

/-- No write takes a byte. -/
def Env.TakesNone (e : Env) : Prop :=
  (∀ b n, .takes n ∉ e.writes b) ∧ ∀ b, (e.handshake b).1 = []

theorem headD_takesNone (h : ∀ e ∈ script, e.TakesNone) : (script.headD .quiet).TakesNone := by
  cases script with
  | nil => exact ⟨fun _ _ => not_mem_nil, fun _ => rfl⟩
  | cons e script => exact h e mem_cons_self

/-- The output has grown by `bytes`; some of it may have gone out, unless the socket is silent. -/
structure OutGrows (silent : Prop) (o o' : OutConn) (bytes : Bytes) : Prop where
  state : o'.state = o.state
  closed : o'.closed = o.closed
  stream : o'.wire ++ o'.out.unsent = o.wire ++ o.out.unsent ++ bytes
  wire : silent → o'.wire = o.wire

theorem OutGrows.refl (o : OutConn) : OutGrows silent o o [] :=
  ⟨rfl, rfl, (append_nil _).symm, fun _ => rfl⟩

theorem OutGrows.trans {o o1 o2 : OutConn} {bytes' : Bytes} (h : OutGrows silent o o1 bytes)
    (h' : OutGrows silent o1 o2 bytes') : OutGrows silent o o2 (bytes ++ bytes') :=
  ⟨h'.state.trans h.state, h'.closed.trans h.closed,
    by rw [h'.stream, h.stream, append_assoc], fun hs => (h'.wire hs).trans (h.wire hs)⟩

theorem outGrows_of_adds {o o' : OutConn} (h : Adds o o' bytes)
    (hwire : silent → o'.wire = o.wire) : OutGrows silent o o' bytes :=
  ⟨h.same.state, h.same.closed, h.stream_eq, hwire⟩

theorem sendBlocked_wire (reallocOk epollOk : Bool) (o : OutConn) (rest : Bytes) :
    (sendBlocked reallocOk epollOk o rest).1.wire = o.wire := by
  have h := (connOutAppend_spec reallocOk o rest).2.1
  unfold sendBlocked
  rcases hs : connOutAppend reallocOk o rest with ⟨o1, _ | _⟩ <;> rw [hs] at h <;> exact h

theorem socketWrite_silent {a : WriteAnswer} (h : ∀ n, a ≠ .takes n) (o : OutConn)
    (data : Bytes) : o.socketWrite data a = (o, .again) ∨ o.socketWrite data a = (o, .fail) := by
  unfold socketWrite
  split
  · exact .inr rfl
  · cases a with
    | takes n => exact absurd rfl (h n)
    | again => exact .inl rfl
    | fail => exact .inr rfl

theorem porticoConnSend_silent {answers : List WriteAnswer} (h : ∀ n, .takes n ∉ answers)
    (reallocOk epollOk : Bool) (o : OutConn) (buf : Bytes) :
    (porticoConnSend answers reallocOk epollOk o buf).1.wire = o.wire := by
  unfold porticoConnSend
  split
  · exact (connOutAppend_spec reallocOk o buf).2.1
  cases answers with
  | nil =>
    unfold sendLoop
    split
    · rfl
    split
    · rfl
    · exact sendBlocked_wire reallocOk epollOk o buf
  | cons a answers =>
    unfold sendLoop
    split
    · rfl
    rcases socketWrite_silent (fun n ha => h n (ha ▸ mem_cons_self)) o buf with hw | hw <;> rw [hw]
    exact sendBlocked_wire reallocOk epollOk o buf

theorem connOutDrain_silent {answers : List WriteAnswer} (h : ∀ n, .takes n ∉ answers)
    (o : OutConn) : (connOutDrain answers o).1.wire = o.wire := by
  have honce : ∀ a, (∀ n, a ≠ .takes n) →
      (o.drainOnce a).1.wire = o.wire ∧ (o.drainOnce a).2 ≠ none := by
    intro a ha
    unfold drainOnce
    split
    · rcases socketWrite_silent ha o o.out.unsent with hw | hw <;> rw [hw] <;> simp
    · simp
  cases answers with
  | nil =>
    unfold connOutDrain
    exact (honce .again (by simp)).1
  | cons a answers =>
    obtain ⟨hwire, hdone⟩ := honce a fun n ha => h n (ha ▸ mem_cons_self)
    unfold connOutDrain
    generalize o.drainOnce a = r at hwire hdone ⊢
    obtain ⟨o1, _ | ok⟩ := r
    · exact absurd rfl hdone
    · exact hwire

@[simp] theorem queuedBytes_append (t t' : List WebAct) :
    queuedBytes (t ++ t') = queuedBytes t ++ queuedBytes t' :=
  flatMap_append

@[simp] theorem dispatches_append (t t' : List WebAct) :
    dispatches (t ++ t') = dispatches t ++ dispatches t' :=
  filterMap_append

theorem dispatches_cons (req : Request) (t : List WebAct) :
    dispatches (.dispatch req :: t) = req :: dispatches t :=
  rfl

/-- The connection has done `acts`, and nothing else has changed. -/
def Goes (silent : Prop) (c c' : WebConn) (acts : List WebAct) : Prop :=
  ∃ out, OutGrows silent c.out out (queuedBytes acts) ∧
    c' = { c with out := out, trace := c.trace ++ acts }

/-- The connection has done `acts` and is given up: now (-1), or when its output has drained. A
    failed send may have left a part of what it was given. -/
def Ends (silent : Prop) (c c' : WebConn) (acts : List WebAct) (ok : Bool) : Prop :=
  ∃ out part, OutGrows silent c.out out (queuedBytes acts ++ part) ∧
    c' = { c with
      out := out
      trace := c.trace ++ acts
      closeWhenDrained := c.closeWhenDrained || ok }

theorem Goes.trace (h : Goes silent c c' acts) : c'.trace = c.trace ++ acts := by
  obtain ⟨out, -, rfl⟩ := h
  rfl

theorem Ends.trace (h : Ends silent c c' acts ok) : c'.trace = c.trace ++ acts := by
  obtain ⟨out, part, -, rfl⟩ := h
  rfl

theorem Goes.trans (h : Goes silent c c1 acts) (h' : Goes silent c1 c2 acts') :
    Goes silent c c2 (acts ++ acts') := by
  obtain ⟨o1, hg, rfl⟩ := h
  obtain ⟨o2, hg', rfl⟩ := h'
  exact ⟨o2, by rw [queuedBytes_append]; exact hg.trans hg', by simp only [append_assoc]⟩

theorem Goes.ends (h : Goes silent c c1 acts) (h' : Ends silent c1 c2 acts' ok) :
    Ends silent c c2 (acts ++ acts') ok := by
  obtain ⟨o1, hg, rfl⟩ := h
  obtain ⟨o2, part, hg', rfl⟩ := h'
  exact ⟨o2, part, by rw [queuedBytes_append, append_assoc]; exact hg.trans hg',
    by simp only [append_assoc]⟩

theorem Ends.refl (c : WebConn) : Ends silent c c [] false :=
  ⟨c.out, [], .refl _, by rw [append_nil, Bool.or_false]⟩

theorem Goes.gives_up (h : Goes silent c c' acts) : Ends silent c c' acts false := by
  have := h.ends (.refl c')
  rwa [append_nil] at this

theorem Goes.consume (h : Goes silent c c' acts) (total : Nat) :
    Goes silent (c.consume total) (c'.consume total) acts := by
  obtain ⟨out, hg, rfl⟩ := h
  exact ⟨out, hg, rfl⟩

theorem Ends.finishClose (h : Ends silent c c1 acts false) :
    Ends silent c c1.httpFinishClose.1 acts c1.httpFinishClose.2 := by
  unfold httpFinishClose
  split
  · obtain ⟨out, part, hg, rfl⟩ := h
    exact ⟨out, part, hg, by simp only [Bool.or_true]⟩
  · exact h

/-- A connection is given up after a send that failed. -/
theorem OutGrows.ends {out : OutConn} {part : Bytes} (h : OutGrows silent c.out out part) :
    Ends silent c { c with out := out } [] false :=
  ⟨out, part, h, by rw [append_nil, Bool.or_false]⟩

theorem queuedBytes_one (p : Piece) : queuedBytes [.queue p] = p.bytes := by
  simp [queuedBytes]

/-- A send queues all of a piece, or fails with a part of it in the output. -/
theorem send_spec (he : silent → e.TakesNone) (c : WebConn) (p : Piece) :
    (∃ c', c.send e p = (c', true) ∧ Goes silent c c' [.queue p]) ∨
      ∃ out part, c.send e p = ({ c with out := out }, false) ∧ part <+: p.bytes ∧
        OutGrows silent c.out out part := by
  have h := porticoConnSend_adds (e.writes p.bytes) e.reallocOk e.epollOk (c.out.issue p.bytes)
    p.bytes
  have hwire := fun hs => porticoConnSend_silent ((he hs).1 p.bytes) e.reallocOk e.epollOk
    (c.out.issue p.bytes) p.bytes
  unfold send
  rcases hr : porticoConnSend (e.writes p.bytes) e.reallocOk e.epollOk (c.out.issue p.bytes)
      p.bytes with ⟨out, ok⟩
  rw [hr] at h hwire
  obtain ⟨part, hadds, hpre, hall⟩ := h
  -- `issue` is history of its own
  have hg : OutGrows silent c.out out part :=
    ⟨hadds.same.state, hadds.same.closed, hadds.stream_eq, hwire⟩
  cases ok with
  | true =>
    refine .inl ⟨_, rfl, out, ?_, rfl⟩
    rw [queuedBytes_one, ← hall rfl]
    exact hg
  | false => exact .inr ⟨out, part, rfl, hpre, hg⟩

theorem send_cases (he : silent → e.TakesNone) (c : WebConn) (p : Piece) :
    (∃ c', c.send e p = (c', true) ∧ Goes silent c c' [.queue p]) ∨
      ∃ c', c.send e p = (c', false) ∧ Ends silent c c' [] false :=
  (send_spec he c p).imp id fun ⟨_, _, hs, _, hg⟩ => ⟨_, hs, hg.ends⟩

theorem httpErrorClose_ends (he : silent → e.TakesNone) (c : WebConn) (whom : ReplyTo)
    (status : Int) :
    ∃ acts, (acts = [] ∨ acts = [.queue (.whole whom (responseHead status [] 0 false))]) ∧
      Ends silent c (c.httpErrorClose e whom status).1 acts (c.httpErrorClose e whom status).2 := by
  unfold httpErrorClose httpReplyStatus
  cases hb : porticoHttpBuildStatus e.buildOk status false with
  | none => exact ⟨[], .inl rfl, .refl c⟩
  | some =>
    rw [porticoHttpBuildStatus_eq hb]
    dsimp only
    rcases send_cases he c (.whole whom (responseHead status [] 0 false)) with
      ⟨c', hs, hgoes⟩ | ⟨c', hs, hends⟩
    · rw [hs]
      exact ⟨_, .inr rfl, hgoes.gives_up.finishClose⟩
    · rw [hs]
      exact ⟨[], .inl rfl, hends⟩

/-! ## Rounds -/

/-- What stands at the front of a buffer: a complete request, as it is handed to the application,
    or input that is refused with a status. -/
def WebServer.front (srv : WebServer) (bytes : Bytes) : Front (Except Int Request) :=
  if bytes = [] then .more
  else match porticoHttpParse srv.phr maxBody bytes with
    | .incomplete => .more
    | .malformed => .item 1 (.error 400)
    | .tooLarge => .item 1 (.error 413)
    | .unsupported => .item 1 (.error 501)
    | .complete total req =>
      .item total (.ok { req with clientIp := resolveClientIp srv.clientIp req.headers })

/-- A round of `process_http_buffer` looks at the front of the buffer. -/
theorem serveRound_front (srv : WebServer) (e : Env) (c : WebConn) :
    (srv.front c.recv.bytes = .more ∧ c.serveRound srv e =
        if findTerm c.recv.bytes = none ∧ maxHeaderSize < c.recv.bytes.length then
          returns (c.httpRefuse e 431)
        else (c, .ret true)) ∨
      (∃ n status, srv.front c.recv.bytes = .item n (.error status) ∧
        c.serveRound srv e = returns (c.httpRefuse e status)) ∨
      ∃ total req, srv.front c.recv.bytes = .item total (.ok req) ∧
        c.serveRound srv e = c.dispatch srv e req total := by
  unfold serveRound WebServer.front
  by_cases hnil : c.recv.bytes = []
  · simp [hnil]
  · rw [if_neg hnil, if_neg hnil]
    cases porticoHttpParse srv.phr maxBody c.recv.bytes with
    | incomplete => exact .inl ⟨rfl, rfl⟩
    | malformed | tooLarge | unsupported => exact .inr (.inl ⟨1, _, rfl, rfl⟩)
    | complete => exact .inr (.inr ⟨_, _, rfl, rfl⟩)

theorem WebServer.front_error {n : Nat} {status : Int}
    (h : srv.front bytes = .item n (.error status)) :
    status = 400 ∨ status = 413 ∨ status = 501 := by
  unfold WebServer.front at h
  split at h
  · cases h
  · split at h <;> cases h <;> simp

/-- Why a round refuses its input. -/
def Refuses (srv : WebServer) (bytes : Bytes) (status : Int) : Prop :=
  (∃ total, srv.front bytes = .item total (.error status)) ∨
    (srv.front bytes = .more ∧ findTerm bytes = none ∧ maxHeaderSize < bytes.length)

theorem WebServer.front_bounds {n : Nat} {v : Except Int Request}
    (h : srv.front bytes = .item n v) : 0 < n ∧ n ≤ bytes.length := by
  unfold WebServer.front at h
  split at h
  · cases h
  rename_i hne
  have hpos := length_pos_of_ne_nil hne
  split at h
  · cases h
  · cases h; omega
  · cases h; omega
  · cases h; omega
  · rename_i hparse
    cases h
    obtain ⟨pret, head, clen, hphr, -, -, rfl, hle, -⟩ := porticoHttpParse_complete hparse
    have := (srv.phr_local.item hphr).1
    omega

/-- What a request can be answered with, and the body bytes in it: the handler's reply, a bare
    status, or the file of the reply, read whole or streamed. -/
inductive Answers (res : Reply) (keepAlive : Bool) : Piece → (body : Bytes) → Prop
  | reply {i} : res.isFile = false →
    Answers res keepAlive (.whole (.request i) (res.head keepAlive ++ res.payload)) res.payload
  | status {i} (status : Int) :
    Answers res keepAlive (.whole (.request i) (responseHead status [] 0 false)) []
  | file {i data} : res.isFile = true → data.length ≤ res.fileSize →
    Answers res keepAlive
      (.whole (.request i) (((fileCtx res keepAlive i).reply data).head keepAlive ++ data)) data
  | head {i} : res.isFile = true → 0 < res.fileSize →
    Answers res keepAlive (.head i (res.streamHead keepAlive) res.fileSize) []
  | chunk {i data} : res.isFile = true → 0 < res.fileSize → data ≠ [] →
    Answers res keepAlive (.chunk i data) data

/-- The answer to a file that was to be read whole. -/
def FileCtx.Answer (ctx : FileCtx) (b : Bytes) : Prop :=
  b = responseHead 500 [] 0 false ∨
    ∃ data, data.length ≤ ctx.size ∧ b = (ctx.reply data).head ctx.keepAlive ++ data

/-- The stream ends: it has been sent, or what was read for it was not queued, and a part of that
    may be in the output. -/
def StreamStops (silent : Prop) (c : WebConn) (s : StreamCtx) (acts : List StreamAct)
    (c' : WebConn) (ok : Bool) : Prop :=
  (s.finish ≤ s.offset ∧ acts = [.finish s c.trace]) ∨
    ∃ read part, ok = false ∧ acts = [.read s read, .fail s] ∧ part <+: read.getD [] ∧
      (read.getD []).length ≤ s.finish - s.offset ∧ OutGrows silent c.out c'.out part

/-- The connection without its stream, to which `acts` were done. -/
def WebConn.detached (c : WebConn) (acts : List StreamAct) : WebConn :=
  { c with stream := none, asyncInflight := false, streamActs := c.streamActs ++ acts }

/-- The answer of request `req` to the connection's history. -/
def WebConn.reply (srv : WebServer) (c : WebConn) (req : Request) : Reply :=
  handled srv (dispatches c.trace) req

/-- The number that the next request gets. -/
def WebConn.count (c : WebConn) : Nat := (dispatches c.trace).length

/-- `RoundTo srv silent c next c' next'`: the round `next` on `c` ends with `c'` and goes on with
    `next'`. -/
inductive RoundTo (srv : WebServer) (silent : Prop) (c : WebConn) : Next → WebConn → Next → Prop
  | wait : srv.front c.recv.bytes = .more → RoundTo srv silent c .serve c (.ret true)
  | refuse {c' acts status b ok} : Refuses srv c.recv.bytes status →
    acts = [] ∨ acts = [.queue (.whole (.refusal status) b)] → Ends silent c c' acts ok →
    RoundTo srv silent c .serve c' (.ret ok)
  | giveUp {c' total taken req acts b body ok} : srv.front c.recv.bytes = .item total (.ok req) →
    acts = [] ∨ acts = [.queue (.whole (.request c.count) b)] →
    Answers (c.reply srv req) req.keepAlive (.whole (.request c.count) b) body →
    Ends silent (c.consume taken) c' (.dispatch req :: acts) ok →
    RoundTo srv silent c .serve c' (.ret ok)
  | answer {c' total req b body} : srv.front c.recv.bytes = .item total (.ok req) →
    req.keepAlive = true →
    Answers (c.reply srv req) req.keepAlive (.whole (.request c.count) b) body →
    Goes silent (c.consume total) c' [.dispatch req, .queue (.whole (.request c.count) b)] →
    RoundTo srv silent c .serve c' .serve
  | park {c' total req} : srv.front c.recv.bytes = .item total (.ok req) →
    (c.reply srv req).isFile = true → Goes silent (c.consume total) c' [.dispatch req] →
    RoundTo srv silent c .serve
      { c' with
        file := some (fileCtx (c.reply srv req) req.keepAlive c.count), asyncInflight := true }
      (.ret true)
  | start {c' total req} : srv.front c.recv.bytes = .item total (.ok req) →
    (c.reply srv req).isFile = true → 0 < (c.reply srv req).fileSize →
    Goes silent (c.consume total) c'
      [.dispatch req, .queue (.head c.count ((c.reply srv req).streamHead req.keepAlive)
        (c.reply srv req).fileSize)] →
    RoundTo srv silent c .serve
      { c' with
        stream := some (streamCtx (c.reply srv req) req.keepAlive c.count), asyncInflight := true }
      .pump
  | blocked : RoundTo srv silent c .pump c (.ret true)
  | submit {s} : c.stream = some s →
    RoundTo srv silent c .pump { c with stream := some { s with reading := true } } (.ret true)
  | chunk {c' s data} : c.stream = some s → data ≠ [] → data.length ≤ s.finish - s.offset →
    Goes silent c c' [.queue (.chunk s.request data)] →
    RoundTo srv silent c .pump
      { c' with
        stream := some { s with offset := s.offset + data.length }
        streamActs := c.streamActs ++ [.read s (some data)] }
      .pump
  | finish {s} : c.stream = some s → s.finish ≤ s.offset → s.keepAlive = true →
    RoundTo srv silent c .pump (c.detached [.finish s c.trace]) .serve
  | stop {c' s acts ok} : c.stream = some s → Ends silent (c.detached acts) c' [] ok →
    StreamStops silent c s acts c' ok → RoundTo srv silent c .pump c' (.ret ok)

/-- A file that was read whole is answered, or the connection is given up. -/
theorem fileEmit_cases (he : silent → e.TakesNone) (c : WebConn) (ctx : FileCtx)
    (read : Option Bytes) :
    ∃ b, ctx.Answer b ∧
      ((∃ c', c.fileEmit e ctx (read.map (·.take ctx.size)) = (c', false) ∧ ctx.keepAlive = true ∧
          Goes silent c c' [.queue (.whole (.request ctx.request) b)]) ∨
        ∃ c' acts, c.fileEmit e ctx (read.map (·.take ctx.size)) = (c', true) ∧
          (acts = [] ∨ acts = [.queue (.whole (.request ctx.request) b)]) ∧
          Ends silent c c' acts false) := by
  unfold fileEmit
  cases read with
  | none =>
    rw [Option.map_none]
    dsimp only
    cases hb : porticoHttpBuildStatus e.buildOk 500 false with
    | none => exact ⟨_, .inl rfl, .inr ⟨c, [], rfl, .inl rfl, .refl c⟩⟩
    | some b =>
      refine ⟨b, .inl (porticoHttpBuildStatus_eq hb), .inr ?_⟩
      rcases send_cases he c (.whole (.request ctx.request) b) with
        ⟨c', hs, hgoes⟩ | ⟨c', hs, hends⟩
      · exact ⟨c', _, congrArg (·.1, true) hs, .inr rfl, hgoes.gives_up⟩
      · exact ⟨c', [], congrArg (·.1, true) hs, .inl rfl, hends⟩
  | some data =>
    rw [Option.map_some]
    dsimp only
    cases hb : porticoHttpBuildResponse e.buildOk (ctx.reply (data.take ctx.size))
        ctx.keepAlive with
    | none => exact ⟨_, .inl rfl, .inr ⟨c, [], rfl, .inl rfl, .refl c⟩⟩
    | some resp =>
      refine ⟨resp, .inr ⟨_, length_take_le _ _, porticoHttpBuildResponse_eq hb⟩, ?_⟩
      dsimp only
      rcases send_cases he c (.whole (.request ctx.request) resp) with
        ⟨c', hs, hgoes⟩ | ⟨c', hs, hends⟩
      · rw [hs]
        cases hka : ctx.keepAlive with
        | true => exact .inl ⟨c', rfl, rfl, hgoes⟩
        | false => exact .inr ⟨c', _, rfl, .inr rfl, hgoes.gives_up⟩
      · rw [hs]
        exact .inr ⟨c', [], rfl, .inl rfl, hends⟩

theorem FileCtx.Answer.answers {res : Reply} {keepAlive : Bool} {i : Nat} {b : Bytes}
    (hfile : res.isFile = true) (h : (fileCtx res keepAlive i).Answer b) :
    ∃ body, Answers res keepAlive (.whole (.request i) b) body := by
  rcases h with rfl | ⟨data, hlen, rfl⟩
  · exact ⟨[], .status 500⟩
  · exact ⟨data, .file hfile hlen⟩

section Serve

variable {total : Nat} {req : Request}

/-- The connection when the request has been handed to the application. -/
def WebConn.asked (c : WebConn) (req : Request) : WebConn :=
  { c with trace := c.trace ++ [.dispatch req] }

theorem Goes.asked_consume (c : WebConn) (req : Request) (total : Nat) :
    Goes silent (c.consume total) ((c.asked req).consume total) [.dispatch req] :=
  ⟨c.out, .refl _, rfl⟩

section

variable (h : srv.front c.recv.bytes = .item total (.ok req))

include h

/-- The connection is given up with an answer to the request, or without one. -/
theorem RoundTo.of_ends {b body : Bytes} (taken : Nat)
    (hacts : acts = [] ∨ acts = [.queue (.whole (.request c.count) b)])
    (hb : Answers (c.reply srv req) req.keepAlive (.whole (.request c.count) b) body)
    (hends : Ends silent ((c.asked req).consume taken) c' acts ok) :
    RoundTo srv silent c .serve c' (.ret ok) :=
  .giveUp h hacts hb ((Goes.asked_consume c req taken).ends hends)

/-- An error answers the request before it is taken from the buffer, or behind that. -/
theorem httpErrorClose_round (he : silent → e.TakesNone) (taken : Nat) (status : Int) :
    RoundTo srv silent c .serve
      (((c.asked req).consume taken).httpErrorClose e (.request c.count) status).1
      (.ret (((c.asked req).consume taken).httpErrorClose e (.request c.count) status).2) := by
  obtain ⟨acts, hacts, hends⟩ :=
    httpErrorClose_ends he ((c.asked req).consume taken) (.request c.count) status
  exact .of_ends h taken hacts (.status status) hends

theorem answer_round (he : silent → e.TakesNone) (hmem : (c.reply srv req).isFile = false) :
    RoundTo srv silent c .serve
      ((c.asked req).answer e (c.reply srv req) req.keepAlive total c.count).1
      ((c.asked req).answer e (c.reply srv req) req.keepAlive total c.count).2 := by
  unfold answer
  cases hb : porticoHttpBuildResponse e.buildOk (c.reply srv req) req.keepAlive with
  | none => exact .of_ends h 0 (.inl rfl) (.reply hmem) (.refl _)
  | some =>
    rw [porticoHttpBuildResponse_eq hb]
    have hans : Answers (c.reply srv req) req.keepAlive (.whole (.request c.count) _) _ :=
      .reply hmem
    dsimp only
    rcases send_cases he (c.asked req) (.whole (.request c.count) _) with
      ⟨c', hs, hgoes⟩ | ⟨c', hs, hends⟩
    · rw [hs]
      dsimp only
      cases hka : req.keepAlive with
      | true =>
        refine .answer h hka hans ?_
        exact (Goes.asked_consume c req total).trans (hgoes.consume total)
      | false =>
        exact .of_ends h total (.inr rfl) hans (hgoes.consume total).gives_up.finishClose
    · rw [hs]
      exact .of_ends h 0 (.inl rfl) hans hends

theorem streamStart_round (he : silent → e.TakesNone) (hfile : (c.reply srv req).isFile = true)
    (hsize : 0 < (c.reply srv req).fileSize) :
    RoundTo srv silent c .serve
      ((c.asked req).streamStart e (c.reply srv req) req.keepAlive total c.count).1
      ((c.asked req).streamStart e (c.reply srv req) req.keepAlive total c.count).2 := by
  unfold streamStart
  split
  · exact httpErrorClose_round h he 0 500
  dsimp only
  split
  · exact httpErrorClose_round h he total 500
  rcases send_cases he ((c.asked req).consume total)
      (.head c.count ((c.reply srv req).streamHead req.keepAlive) (c.reply srv req).fileSize) with
    ⟨c', hs, hgoes⟩ | ⟨c', hs, hends⟩
  · rw [hs]
    exact .start h hfile hsize ((Goes.asked_consume c req total).trans hgoes)
  · rw [hs]
    exact .of_ends h total (.inl rfl) (.status 500) hends

theorem httpServeFile_round (he : silent → e.TakesNone)
    (hfile : (c.reply srv req).isFile = true) :
    RoundTo srv silent c .serve
      ((c.asked req).httpServeFile srv e (c.reply srv req) req.keepAlive total c.count).1
      ((c.asked req).httpServeFile srv e (c.reply srv req) req.keepAlive total c.count).2 := by
  unfold httpServeFile
  split
  · rename_i hlarge
    simp only [Bool.and_eq_true, decide_eq_true_eq] at hlarge
    exact streamStart_round h he hfile (Nat.zero_lt_of_lt hlarge.2)
  split
  · exact httpErrorClose_round h he total 503
  split
  · exact httpErrorClose_round h he 0 500
  dsimp only
  split
  · exact .park h hfile (Goes.asked_consume c req total)
  obtain ⟨b, hb, hemit⟩ := fileEmit_cases he ((c.asked req).consume total)
    (fileCtx (c.reply srv req) req.keepAlive c.count) e.read
  obtain ⟨body, hans⟩ := hb.answers hfile
  rcases hemit with ⟨c', hs, hka, hgoes⟩ | ⟨c', acts, hs, hacts, hends⟩
  · dsimp only [fileCtx] at hs ⊢
    rw [hs]
    exact .answer h hka hans ((Goes.asked_consume c req total).trans hgoes)
  · dsimp only [fileCtx] at hs ⊢
    rw [hs]
    exact .of_ends h total hacts hans hends.finishClose

end

theorem serveRound_spec (srv : WebServer) (he : silent → e.TakesNone) (c : WebConn) :
    RoundTo srv silent c .serve (c.serveRound srv e).1 (c.serveRound srv e).2 := by
  have hrefuse : ∀ status, Refuses srv c.recv.bytes status →
      RoundTo srv silent c .serve (returns (c.httpRefuse e status)).1
        (returns (c.httpRefuse e status)).2 := by
    intro status hwhy
    obtain ⟨acts, hacts, hends⟩ := httpErrorClose_ends he c (.refusal status) status
    rw [← httpRefuse] at hends
    generalize c.httpRefuse e status = r at hends
    exact .refuse hwhy hacts hends
  obtain ⟨hmore, hround⟩ | ⟨n, status, hfront, hround⟩ | ⟨total, req, hfront, hround⟩ :=
    serveRound_front srv e c <;> rw [hround]
  · split
    · exact hrefuse 431 (.inr ⟨hmore, ‹_›⟩)
    · exact .wait hmore
  · exact hrefuse status (.inl ⟨n, hfront⟩)
  · dsimp only [dispatch]
    split
    · exact httpServeFile_round hfront he ‹_›
    · exact answer_round hfront he (Bool.eq_false_iff.mpr ‹_›)

end Serve

/-- What was read for a stream is queued, or the stream fails with a part of it in the output. -/
theorem streamSend_cases (he : silent → e.TakesNone) (c : WebConn) (s : StreamCtx)
    (read : Option Bytes) :
    (∃ c' data, c.streamSend e s (read.map (·.take s.want)) =
        ({ c' with
           stream := some { s with offset := s.offset + data.length }
           streamActs := c.streamActs ++ [.read s (some data)] },
          some { s with offset := s.offset + data.length }) ∧
        data ≠ [] ∧ data.length ≤ s.finish - s.offset ∧
        Goes silent c c' [.queue (.chunk s.request data)]) ∨
      ∃ c' acts, c.streamSend e s (read.map (·.take s.want)) = (c', none) ∧
        Ends silent (c.detached acts) (c'.streamFail s).1 [] false ∧
        StreamStops silent c s acts (c'.streamFail s).1 false := by
  have hfails : ∀ {read : Option Bytes} {out part}, part <+: read.getD [] →
      (read.getD []).length ≤ s.finish - s.offset → OutGrows silent c.out out part →
      ∃ c' acts, (({ c with out := out, streamActs := c.streamActs ++ [.read s read] } : WebConn),
          (none : Option StreamCtx)) = (c', none) ∧
        Ends silent (c.detached acts) (c'.streamFail s).1 [] false ∧
        StreamStops silent c s acts (c'.streamFail s).1 false := by
    intro read out part hpart hlen hg
    refine ⟨_, [.read s read, .fail s], rfl, ⟨out, part, hg, ?_⟩,
      .inr ⟨read, part, rfl, rfl, hpart, hlen, hg⟩⟩
    simp [streamFail, detached]
  cases read with
  | none => exact .inr (hfails nil_prefix (Nat.zero_le _) (.refl c.out))
  | some data =>
    have hlen : (data.take s.want).length ≤ s.finish - s.offset := by
      rw [length_take]
      unfold StreamCtx.want
      omega
    rw [Option.map_some]
    cases htake : data.take s.want with
    | nil => exact .inr (hfails nil_prefix (Nat.zero_le _) (.refl c.out))
    | cons b rest =>
      rw [htake] at hlen
      dsimp only [streamSend]
      rcases send_spec he { c with streamActs := c.streamActs ++ [.read s (some (b :: rest))] }
          (.chunk s.request (b :: rest)) with ⟨c', hs, hgoes⟩ | ⟨out, part, hs, hpart, hg⟩
      · rw [hs]
        obtain ⟨out, hg, rfl⟩ := hgoes
        exact .inl ⟨{ c with out := out, trace := c.trace ++ _ }, b :: rest, rfl, cons_ne_nil _ _,
          hlen, out, hg, rfl⟩
      · rw [hs]
        exact .inr (hfails hpart hlen hg)

theorem streamFinish_round {s : StreamCtx} (hs : c.stream = some s) (hdone : s.finish ≤ s.offset) :
    RoundTo srv silent c .pump (c.streamFinish s).1 (c.streamFinish s).2 := by
  unfold streamFinish
  dsimp only
  cases hka : s.keepAlive with
  | true => exact .finish hs hdone hka
  | false => exact .stop hs (Ends.refl _).finishClose (.inl ⟨hdone, rfl⟩)

theorem streamRound_spec (srv : WebServer) (he : silent → e.TakesNone) (c : WebConn) :
    RoundTo srv silent c .pump (c.streamRound srv e).1 (c.streamRound srv e).2 := by
  unfold streamRound
  cases hstream : c.stream with
  | none => exact .blocked
  | some s =>
    dsimp only
    split
    · exact .blocked
    unfold pumpRound
    split
    · exact .blocked
    split
    · exact streamFinish_round hstream ‹_›
    split
    · exact .submit hstream
    rcases streamSend_cases he c s e.read with
      ⟨c', data, hsend, hne, hlen, hgoes⟩ | ⟨c', acts, hsend, hends, hstops⟩
    · rw [hsend]
      exact .chunk hstream hne hlen hgoes
    · rw [hsend]
      exact .stop hstream hends hstops

/-! ## Handlers -/

/-- What a handler has left to do: two for each byte and each entry of the script, and one for
    the stream it is in. -/
def weight (script : List Env) (next : Next) (c : WebConn) : Nat :=
  2 * (c.recv.bytes.length + script.length) + if next = .pump then 1 else 0

/-- Behind the end of the script no chunk can be read. -/
theorem streamRound_quiet (srv : WebServer) (c : WebConn) :
    (c.streamRound srv .quiet).2 ≠ .pump := by
  unfold streamRound
  cases c.stream with
  | none => simp
  | some =>
    dsimp only
    split
    · simp
    unfold pumpRound
    split
    · simp
    split
    · unfold streamFinish returns
      dsimp only
      split <;> simp
    split
    · simp
    · simp [Env.quiet, streamSend, returns]

theorem round_spec (srv : WebServer) (he : silent → e.TakesNone) (c : WebConn)
    (hnext : ∀ ok, next ≠ .ret ok) :
    RoundTo srv silent c next (c.round srv e next).1 (c.round srv e next).2 := by
  cases next with
  | ret ok => exact absurd rfl (hnext ok)
  | serve => exact serveRound_spec srv he c
  | pump => exact streamRound_spec srv he c

theorem Goes.recv (h : Goes silent c c' acts) : c'.recv = c.recv := by
  obtain ⟨_, _, rfl⟩ := h
  rfl

theorem round_weight (srv : WebServer) (script : List Env) (c : WebConn)
    (hnext : ∀ ok, next ≠ .ret ok)
    (hnext' : ∀ ok, (c.round srv (script.headD .quiet) next).2 ≠ .ret ok) :
    weight script.tail (c.round srv (script.headD .quiet) next).2
      (c.round srv (script.headD .quiet) next).1 < weight script next c := by
  have hspec := @round_spec _ (script.headD .quiet) False srv False.elim c hnext
  have hquiet : next = .pump → (c.round srv (script.headD .quiet) next).2 = .pump →
      script ≠ [] := by
    rintro rfl hp rfl
    exact streamRound_quiet srv c hp
  generalize c.round srv (script.headD .quiet) next = r at *
  obtain ⟨c', next'⟩ := r
  dsimp only at *
  -- a request that was consumed, or an entry of the script that was used
  have hlen : script.tail.length ≤ script.length := by rw [length_tail]; omega
  have hconsume : ∀ {total req}, srv.front c.recv.bytes = .item total (.ok req) →
      (c.consume total).recv.bytes.length < c.recv.bytes.length := by
    intro total req hreq
    have := WebServer.front_bounds hreq
    rw [consume, length_drop]
    omega
  unfold weight
  cases hspec with
  | wait | refuse | giveUp | park | blocked | submit | stop => exact absurd rfl (hnext' _)
  | answer hreq _ _ hgoes =>
    have := hconsume hreq
    rw [hgoes.recv, if_neg (by decide)]
    omega
  | start hreq _ _ hgoes =>
    have := hconsume hreq
    rw [hgoes.recv, if_pos rfl, if_neg (by decide)]
    omega
  | chunk _ _ _ hgoes =>
    have hne := length_pos_of_ne_nil (hquiet rfl rfl)
    rw [hgoes.recv, length_tail]
    omega
  | finish =>
    rw [if_neg (by decide), if_pos rfl]
    dsimp only [detached]
    omega

theorem runLoop_ret (srv : WebServer) (k : Nat) (script : List Env) (deferring ok : Bool)
    (c : WebConn) : c.runLoop srv k script deferring (.ret ok) = c.leave deferring ok := by
  unfold runLoop
  rfl

theorem runLoop_serve (srv : WebServer) (k : Nat) (script : List Env) (c : WebConn) :
    c.runLoop srv (k + 1) script false .serve =
      (c.serveRound srv (script.headD .quiet)).1.runLoop srv k script.tail
        ((c.serveRound srv (script.headD .quiet)).2 == .pump)
        (c.serveRound srv (script.headD .quiet)).2 :=
  rfl

/-- A handler comes to its end, with what its rounds preserve. -/
theorem runLoop_reaches
    (hJ : ∀ {next next' c c'}, RoundTo srv silent c next c' next' → J next c → J next' c') :
    ∀ (k : Nat) (script : List Env) (deferring : Bool) (next : Next) (c : WebConn),
      (silent → ∀ e ∈ script, e.TakesNone) → weight script next c < k → J next c →
      ∃ d ok c', J (.ret ok) c' ∧ (deferring = true → d = true) ∧
        c.runLoop srv k script deferring next = c'.leave d ok := by
  intro k
  induction k with
  | zero => intro _ _ _ _ _ hk; exact absurd hk (Nat.not_lt_zero _)
  | succ k ih =>
    intro script deferring next c hs hk hc
    by_cases hret : ∃ ok, next = .ret ok
    · obtain ⟨ok, rfl⟩ := hret
      exact ⟨deferring, ok, c, hc, id, rfl⟩
    have hnext : ∀ ok, next ≠ .ret ok := fun ok h => hret ⟨ok, h⟩
    have hspec := round_spec srv (fun h => headD_takesNone (hs h)) c hnext
    have hstep : ∀ k', c.runLoop srv (k' + 1) script deferring next =
        (c.round srv (script.headD .quiet) next).1.runLoop srv k' script.tail
          (deferring || (next == .serve && (c.round srv (script.headD .quiet) next).2 == .pump))
          (c.round srv (script.headD .quiet) next).2 := by
      intro k'
      cases next with
      | ret ok => exact absurd rfl (hnext ok)
      | serve => rfl
      | pump => rfl
    have hweight := round_weight srv script c hnext
    rw [hstep]
    generalize c.round srv (script.headD .quiet) next = r at *
    obtain ⟨c1, next1⟩ := r
    dsimp only at *
    by_cases hret1 : ∃ ok, next1 = .ret ok
    · obtain ⟨ok, rfl⟩ := hret1
      refine ⟨_, ok, c1, hJ hspec hc, fun h => ?_, runLoop_ret ..⟩
      rw [h, Bool.true_or]
    · obtain ⟨d, ok, c', hc', hd, hrun⟩ := ih script.tail _ next1 c1
        (fun h e he => hs h e (mem_of_mem_tail he))
        (by have := hweight fun ok h => hret1 ⟨ok, h⟩; omega) (hJ hspec hc)
      exact ⟨d, ok, c', hc', fun h => hd (by rw [h, Bool.true_or]), hrun⟩

theorem goOn_reaches
    (hJ : ∀ {next next' c c'}, RoundTo srv silent c next c' next' → J next c → J next' c')
    (hs : silent → ∀ e ∈ script, e.TakesNone) (deferring : Bool) (hc : J next c) :
    ∃ d ok c', J (.ret ok) c' ∧ (deferring = true → d = true) ∧
      c.goOn srv script deferring next = c'.leave d ok := by
  refine runLoop_reaches hJ _ script deferring next c hs ?_ hc
  unfold weight loopBound
  split <;> omega

/-- The rule for how a handler leaves a connection: it goes on, is closed, or is closed when its
    output has drained. -/
theorem settle_leave {P : WebConn → Prop} (c : WebConn) (deferring ok : Bool)
    (hkeep : ok = true → P c) (hclose : ok = false → P c.close)
    (hdrain : ok = false → P { c with closeWhenDrained := true }) :
    P (settle (c.leave deferring ok)) := by
  cases ok with
  | true => exact hkeep rfl
  | false =>
    cases deferring with
    | false => exact hclose rfl
    | true =>
      show P (settle c.httpFinishClose)
      unfold httpFinishClose
      split
      · exact hdrain rfl
      · exact hclose rfl

end Portico.Http
