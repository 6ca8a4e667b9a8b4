/-
  The requests of a byte stream, and what becomes of them when the client stops sending.

  `requestParser` is the front of the receive buffer as a parser that can be run on a stream that
  arrives in pieces, and `WebServer.requests` the requests that a stream holds, up to the first
  one that ends the connection. `WebServer.taken` is the first requests of a stream and what stands
  behind them, and `Follows` the invariant: behind the requests that have been handed to the
  application stands what the connection has left to serve.

  Proved: `half_close_after_answers`, when the end of the stream is read on its own, from a
  plain-HTTP connection with nothing in flight and nothing left to send, every complete request
  of the stream has been dispatched and answered in full. A drain that meets the end of the
  stream behind a request drops the request (`half_close_drops_request`).
-/
import Portico.Http.Input
import Portico.Http.Order

namespace Portico.Http

open Portico.Lib Portico.Ws Portico.Ws.OutConn WebConn List

/-! ## Requests of a stream -/

variable {bytes input : Bytes} {srv : WebServer} {acts : List WebAct} {reqs : List Request}
  {total : Nat} {req : Request}

theorem WebServer.front_append (srv : WebServer) (h : srv.front bytes ≠ .more) (more : Bytes) :
    srv.front (bytes ++ more) = srv.front bytes := by
  have hne : bytes ≠ [] := by
    rintro rfl
    exact h rfl
  unfold WebServer.front at h ⊢
  rw [if_neg hne] at h ⊢
  rw [if_neg (by simp [hne]), porticoHttpParse_append srv.phr_local]
  intro hinc
  rw [hinc] at h
  exact h rfl

def requestParser (srv : WebServer) : IncParser UInt8 (Except Int Request) where
  parse := srv.front
  nil_more := if_pos rfl
  item_bounds := WebServer.front_bounds
  stable := fun h cs => srv.front_append h cs

/-- A request is counted; without keep-alive it is the last. What is refused ends the stream. -/
def takeRequest (reqs : List Request) : Except Int Request → List Request × Option Unit
  | .ok req => (reqs ++ [req], if req.keepAlive then none else some ())
  | .error _ => (reqs, some ())

/-- The requests behind `reqs` that stand at the front of a buffer, with what they leave. -/
def WebServer.takeAll (srv : WebServer) (reqs : List Request) (bytes : Bytes) :
    List Request × Bytes × Option (Stop Unit) :=
  drain (requestParser srv) takeRequest reqs bytes

/-- The complete requests of a stream, up to the first that ends the connection. -/
def WebServer.requests (srv : WebServer) (bytes : Bytes) : List Request := (srv.takeAll [] bytes).1

theorem WebServer.takeAll_more (h : srv.front bytes = .more) :
    srv.takeAll reqs bytes = (reqs, bytes, none) :=
  drain_more (requestParser srv) takeRequest h

theorem WebServer.takeAll_request (h : srv.front bytes = .item total (.ok req))
    (hka : req.keepAlive = true) :
    srv.takeAll reqs bytes = srv.takeAll (reqs ++ [req]) (bytes.drop total) :=
  drain_item (requestParser srv) takeRequest h (by simp [takeRequest, hka])

/-- The first `n` requests of a stream, and what stands behind them. -/
def WebServer.taken (srv : WebServer) (input : Bytes) : Nat → Option (List Request × Bytes)
  | 0 => some ([], input)
  | n + 1 =>
    match srv.taken input n with
    | none => none
    | some (reqs, bytes) =>
      match srv.front bytes with
      | .item total (.ok req) => some (reqs ++ [req], bytes.drop total)
      | _ => none

theorem WebServer.taken_succ {n : Nat} (h : srv.taken input n = some (reqs, bytes))
    (hfront : srv.front bytes = .item total (.ok req)) :
    srv.taken input (n + 1) = some (reqs ++ [req], bytes.drop total) := by
  rw [WebServer.taken, h]
  dsimp only
  rw [hfront]

/-- The requests of a stream go on behind those that keep the connection. -/
theorem WebServer.takeAll_taken :
    ∀ {n : Nat} {reqs : List Request} {bytes : Bytes}, srv.taken input n = some (reqs, bytes) →
      (∀ req ∈ reqs, req.keepAlive = true) → srv.takeAll [] input = srv.takeAll reqs bytes := by
  intro n
  induction n with
  | zero => intro reqs bytes h _; cases h; rfl
  | succ n ih =>
    intro reqs bytes h hka
    rw [WebServer.taken] at h
    split at h
    · cases h
    rename_i hbefore
    split at h
    · rename_i hfront
      cases h
      rw [ih hbefore fun r hr => hka r (mem_append_left _ hr),
        WebServer.takeAll_request hfront (hka _ (mem_append_right _ mem_cons_self))]
    · cases h

/-! ## The connection follows the stream -/

/-- The requests that have been dispatched are the first of the stream, and behind them stands
    what is in the buffer and what has not been read. -/
def Follows (srv : WebServer) (input : Bytes) (c : WebConn) : Prop :=
  c.received ++ c.pending = input ∧
    srv.taken input (dispatches c.trace).length =
      some (dispatches c.trace, c.recv.bytes ++ c.pending)

/-- The connection has been given up with a request that it has taken. -/
def GaveUp (next : Next) (c : WebConn) : Prop :=
  c.out.state = .http ∧ c.file = none ∧ c.stream = none ∧
    (next = .ret false ∨ (next = .ret true ∧ c.closeWhenDrained = true))

/-- What a round finds and leaves, unless the connection has been upgraded or given up. A handler
    that returns 0 has left no complete request to a plain-HTTP connection that has nothing in
    flight and goes on. -/
def FollowsAt (srv : WebServer) (input : Bytes) (next : Next) (c : WebConn) : Prop :=
  c.out.state = .open ∨ GaveUp next c ∨ (Follows srv input c ∧
    (next = .ret true → c.closeWhenDrained = false → c.asyncInflight = false →
      c.out.state = .http → srv.front c.recv.bytes = .more))

section Follows

variable {c c' : WebConn} {silent : Prop} {next next' : Next} {ok : Bool}

theorem Follows.reads (h : Follows srv input c) (hr : Reads c c') : Follows srv input c' := by
  obtain ⟨bytes, capacity, pending, hpend, rfl⟩ := hr
  unfold Follows at h ⊢
  rwa [hpend, ← append_assoc, ← append_assoc] at h

/-- Something is queued. -/
theorem Follows.trace (h : Follows srv input c) (hnone : dispatches acts = []) :
    Follows srv input { c with trace := c.trace ++ acts } := by
  unfold Follows
  rwa [dispatches_append, hnone, append_nil]

theorem Follows.goes (h : Follows srv input c) (hg : Goes silent c c' acts)
    (hnone : dispatches acts = []) : Follows srv input c' := by
  obtain ⟨out, -, rfl⟩ := hg
  exact h.trace hnone

/-- The connection is given up with the buffer as it is. -/
theorem Follows.ends (h : Follows srv input c) (he : Ends silent c c' acts ok)
    (hnone : dispatches acts = []) : FollowsAt srv input (.ret ok) c' := by
  obtain ⟨out, part, -, rfl⟩ := he
  refine .inr (.inr ⟨h.trace hnone, fun hret hflag => ?_⟩)
  cases hret
  rw [Bool.or_true] at hflag
  cases hflag

/-- A request is dispatched and taken from the buffer. -/
theorem Follows.dispatch (h : Follows srv input c)
    (hfront : srv.front c.recv.bytes = .item total (.ok req)) (hnone : dispatches acts = [])
    (hg : Goes silent (c.consume total) c' (.dispatch req :: acts)) : Follows srv input c' := by
  have hall : srv.front (c.recv.bytes ++ c.pending) = .item total (.ok req) := by
    rw [srv.front_append (by rw [hfront]; simp), hfront]
  have htaken := WebServer.taken_succ h.2 hall
  rw [drop_append_of_le_length (WebServer.front_bounds hfront).2] at htaken
  obtain ⟨out, -, rfl⟩ := hg
  refine ⟨h.1, ?_⟩
  rw [dispatches_append, dispatches_cons, hnone, length_append]
  exact htaken

theorem FollowsAt.follows (h : FollowsAt srv input next c) (hstate : c.out.state ≠ .open)
    (hgave : ¬GaveUp next c) : Follows srv input c :=
  ((h.resolve_left hstate).resolve_left hgave).1

/-- A round starts where the connection stands in the stream. -/
theorem RoundTo.follows (hround : RoundTo srv silent c next c' next') (hphase : PhaseAt next c)
    (h : FollowsAt srv input next c) : Follows srv input c := by
  have hnext : ∀ ok, next ≠ .ret ok := by
    rintro ok rfl
    cases hround
  refine h.follows (by rw [hphase.http hnext]; decide) ?_
  rintro ⟨-, -, -, hret | ⟨hret, -⟩⟩
  · exact hnext _ hret
  · exact hnext _ hret

theorem followsAt_round (hround : RoundTo srv silent c next c' next') (hphase : PhaseAt next c)
    (h : FollowsAt srv input next c) : FollowsAt srv input next' c' := by
  have hfol := hround.follows hphase h
  cases hround with
  | wait hmore => exact .inr (.inr ⟨hfol, fun _ _ _ _ => hmore⟩)
  | refuse _ hacts hends => exact hfol.ends hends (by rcases hacts with rfl | rfl <;> rfl)
  | @giveUp _ _ _ _ _ _ _ ok _ _ _ hends =>
    obtain ⟨hstate, hfile, hstream⟩ := hphase.serving
    obtain ⟨out, part, hout, rfl⟩ := hends
    refine .inr (.inl ⟨hout.state.trans hstate, hfile, hstream, ?_⟩)
    cases ok with
    | false => exact .inl rfl
    | true => exact .inr ⟨rfl, Bool.or_true _⟩
  | answer hfront _ _ hgoes | start hfront _ _ hgoes =>
    have hnew := hfol.dispatch hfront rfl hgoes
    exact .inr (.inr ⟨hnew, nofun⟩)
  | park hfront _ hgoes =>
    have hnew := hfol.dispatch hfront rfl hgoes
    exact .inr (.inr ⟨hnew, fun _ _ hidle => by cases hidle⟩)
  | blocked | submit =>
    refine .inr (.inr ⟨hfol, fun _ _ hidle => ?_⟩)
    rw [show c.asyncInflight = true from hphase.streaming] at hidle
    cases hidle
  | chunk _ _ _ hgoes =>
    have hnew := hfol.goes hgoes rfl
    exact .inr (.inr ⟨hnew, nofun⟩)
  | finish => exact .inr (.inr ⟨hfol, nofun⟩)
  | @stop _ _ acts _ _ hends =>
    have hdetached : Follows srv input (c.detached acts) := hfol
    exact hdetached.ends hends rfl

/-- An unclassified connection has kept everything. -/
theorem FollowsAt.begins (h : FollowsAt srv input (.ret true) c) (hb : Begins c)
    {state : WsState} (hr : Reads (c.withState state) c') : Follows srv input c' := by
  have hfol : Follows srv input (c.withState state) := by
    refine h.follows (fun hs => ?_) fun hg => ?_
    · rcases hb with hb | hb <;> rw [hb] at hs <;> cases hs
    · rcases hb with hb | hb <;> rw [GaveUp, hb] at hg <;> cases hg.1
  exact hfol.reads hr

/-- A connection that is neither upgraded nor ending. -/
theorem FollowsAt.unless (h : FollowsAt srv input (.ret true) c) (hstate : c.out.state ≠ .open)
    (hflag : c.closeWhenDrained = false) :
    Follows srv input c ∧ (c.asyncInflight = false → c.out.state = .http →
      srv.front c.recv.bytes = .more) := by
  rcases h with hup | ⟨-, -, -, hret | ⟨-, hset⟩⟩ | ⟨hfol, hmore⟩
  · exact absurd hup hstate
  · cases hret
  · rw [hflag] at hset; cases hset
  · exact ⟨hfol, hmore rfl hflag⟩

theorem followsAt_entry (hopen : c.out.closed = false) (hphase : Phase c)
    (h : FollowsAt srv input (.ret true) c) (hentry : Entry srv silent c c' next) :
    FollowsAt srv input next c' := by
  have hkept : c.out.state = .http → c.closeWhenDrained = false → Follows srv input c :=
    fun hstate hflag => (h.unless (by rw [hstate]; decide) hflag).1
  -- something in flight belongs to a connection that is not given up
  have hbusy : c.stream ≠ none ∨ c.file ≠ none → Follows srv input c := by
    intro hb
    refine h.follows (by rw [hphase.http hopen hb]; decide) fun hg => ?_
    exact hb.elim (· hg.2.2.1) (· hg.2.1)
  induction hentry with
  | ignore => exact h
  | hold hstate hflag hin hreads =>
    refine .inr (.inr ⟨(hkept hstate hflag).reads hreads, fun _ _ hidle => ?_⟩)
    obtain ⟨bytes, capacity, pending, -, rfl⟩ := hreads
    rw [hin] at hidle
    cases hidle
  | serve hstate hflag _ hreads => exact .inr (.inr ⟨(hkept hstate hflag).reads hreads, nofun⟩)
  | drained hout =>
    rcases h with hup | hg | ⟨hfol, hmore⟩
    · exact .inl (hout.state.trans hup)
    · exact .inr (.inl ⟨hout.state.trans hg.1, hg.2⟩)
    · exact .inr (.inr ⟨hfol, fun hret hflag hin hst =>
        hmore hret hflag hin (hout.state.symm.trans hst)⟩)
  | resume hs => exact .inr (.inr ⟨hbusy (.inl (by rw [hs]; simp)), nofun⟩)
  | fileAnswer hf _ hgoes =>
    have hfol : Follows srv input { c with asyncInflight := false, file := none } :=
      hbusy (.inr (by rw [hf]; simp))
    exact .inr (.inr ⟨hfol.goes hgoes rfl, nofun⟩)
  | fileGiveUp hf hacts hends =>
    have hfol : Follows srv input { c with asyncInflight := false, file := none } :=
      hbusy (.inr (by rw [hf]; simp))
    exact hfol.ends hends (by rcases hacts with rfl | rfl <;> rfl)
  | round he hround ih => exact followsAt_round hround (phaseAt_entry hopen hphase he) ih
  | begin hb hstate hreads =>
    refine .inr (.inr ⟨h.begins hb hreads, fun _ _ _ hst => ?_⟩)
    obtain ⟨bytes, capacity, pending, -, rfl⟩ := hreads
    rcases hstate with rfl | rfl <;> cases hst
  | beginRefuse hb hreads hacts hends =>
    exact (h.begins hb hreads).ends hends (by rcases hacts with rfl | rfl <;> rfl)
  | upgrade _ hreads =>
    obtain ⟨bytes, capacity, pending, -, rfl⟩ := hreads
    exact .inl rfl
  | enter hb hreads => exact .inr (.inr ⟨h.begins hb hreads, nofun⟩)

theorem followsAt_leave (ok deferring : Bool) (h : FollowsAt srv input (.ret ok) c) :
    (settle (c.leave deferring ok)).out.closed = true ∨
      FollowsAt srv input (.ret true) (settle (c.leave deferring ok)) := by
  refine settle_leave (P := fun c' => c'.out.closed = true ∨ FollowsAt srv input (.ret true) c') c
    deferring ok (fun hok => ?_) (fun _ => .inl rfl) fun _ => .inr ?_
  · subst hok
    exact .inr h
  · rcases h with hup | hg | ⟨hfol, -⟩
    · exact .inl hup
    · exact .inr (.inl ⟨hg.1, hg.2.1, hg.2.2.1, .inr ⟨rfl, rfl⟩⟩)
    · exact .inr (.inr ⟨hfol, fun _ hflag => by cases hflag⟩)

end Follows

/-- The invariant between events. -/
def InStep (srv : WebServer) (input : Bytes) (c : WebConn) : Prop :=
  Phase c ∧ (c.out.closed = true ∨ FollowsAt srv input (.ret true) c)

theorem inStep_accepted (srv : WebServer) (tls : Bool) (input : Bytes) :
    InStep srv input (WebConn.accepted tls input) := by
  refine ⟨phase_accepted tls input, .inr (.inr (.inr ⟨⟨rfl, rfl⟩, fun _ _ _ hstate => ?_⟩))⟩
  cases tls <;> cases hstate

/-- The invariant inside a handler. -/
def StepAt (srv : WebServer) (input : Bytes) (next : Next) (c : WebConn) : Prop :=
  PhaseAt next c ∧ FollowsAt srv input next c

section Step

variable {c c' : WebConn} {silent : Prop} {next next' : Next}

theorem InStep.unless (h : InStep srv input c) (hopen : c.out.closed = false)
    (hstate : c.out.state ≠ .open) (hflag : c.closeWhenDrained = false) :
    Follows srv input c ∧ (c.asyncInflight = false → c.out.state = .http →
      srv.front c.recv.bytes = .more) :=
  (h.2.resolve_left (by rw [hopen]; decide)).unless hstate hflag

theorem inStep_drops (hdrop : Drops c c') : InStep srv input c' :=
  ⟨.inl hdrop.closed, .inl hdrop.closed⟩

theorem inStep_entry (hopen : c.out.closed = false) (h : InStep srv input c)
    (hentry : Entry srv silent c c' next) : StepAt srv input next c' := by
  obtain ⟨hphase, hclosed | hfollows⟩ := h
  · rw [hopen] at hclosed; cases hclosed
  · exact ⟨phaseAt_entry hopen hphase hentry, followsAt_entry hopen hphase hfollows hentry⟩

theorem inStep_round (hround : RoundTo srv silent c next c' next') (h : StepAt srv input next c) :
    StepAt srv input next' c' :=
  ⟨phaseAt_round hround h.1, followsAt_round hround h.1 h.2⟩

theorem inStep_leave (ok deferring : Bool) (h : StepAt srv input (.ret ok) c) :
    InStep srv input (settle (c.leave deferring ok)) :=
  ⟨phaseAt_leave ok deferring h.1, followsAt_leave ok deferring h.2⟩

theorem inStep_step (c : WebConn) (ev : WebEvent) (c' : WebConn) :
    InStep srv input c → webStep srv c ev = some c' → InStep srv input c' :=
  webStep_rule (fun _ => inStep_drops) inStep_entry inStep_round inStep_leave c ev c'

end Step

/-- A plain-HTTP connection that is not ending and has nothing in flight has handed every request
    of the bytes it has received to the application, and has answered them. -/
theorem InStep.requests {c : WebConn} (h : InStep srv input c) (hopen : c.out.closed = false)
    (hstate : c.out.state = .http) (hflag : c.closeWhenDrained = false)
    (hidle : c.asyncInflight = false) (hread : c.pending = []) :
    dispatches c.trace = srv.requests c.received ∧
      run Serial.step (.idle 0) c.trace = some (.idle (srv.requests c.received).length) ∧
      c.out.wire ++ c.out.out.unsent = queuedBytes c.trace := by
  obtain ⟨⟨hinput, htaken⟩, hmore⟩ := h.unless hopen (by rw [hstate]; decide) hflag
  obtain ⟨st, hserial, hst, hout⟩ := h.1.serial hopen hstate hflag
  obtain ⟨hfile, hstream⟩ := hst.nothing hidle
  obtain ⟨-, n, rfl⟩ := hst.idle hfile hstream
  rw [hread, append_nil] at hinput htaken
  have hreqs : srv.requests c.received = dispatches c.trace := by
    rw [WebServer.requests, hinput,
      WebServer.takeAll_taken htaken ((Serial.run_counts hserial).2 rfl).2,
      WebServer.takeAll_more (hmore hidle hstate)]
  have hn : n = (dispatches c.trace).length := by
    simpa [Serial.asked] using (Serial.run_counts hserial).1
  rw [hreqs, ← hn]
  exact ⟨rfl, hserial, hout⟩

/-! ## The client stops sending -/

/-- The end of the stream is read on its own, when a plain-HTTP connection has nothing in flight
    and nothing to send: every complete request has been handed to the application, and the
    client has been sent an answer to each. -/
theorem half_close_after_answers (srv : WebServer) (tls : Bool) (input : Bytes)
    (events : List WebEvent) (c : WebConn)
    (hrun : run (webStep srv) (WebConn.accepted tls input) events = some c)
    (hstate : c.out.state = .http) (hflag : c.closeWhenDrained = false)
    (hidle : c.asyncInflight = false) (hsent : c.out.out.backlog = false)
    (step : TlsStep) (turns : List Turn) (script : List Env) (hread : c.pending = [])
    (heof : recvEnd turns c.recv c.pending = .eof) (c' : WebConn)
    (h : webStep srv c (.readable step turns script) = some c') :
    dispatches c'.trace = srv.requests c'.received ∧
      run Serial.step (.idle 0) c'.trace = some (.idle (srv.requests c'.received).length) ∧
      c'.out.wire = queuedBytes c'.trace := by
  have hin : InStep srv input c :=
    run_invariant_all inStep_step events _ c (inStep_accepted srv tls input) hrun
  have hopen : c.out.closed = false := (webStep_handled h).1
  obtain ⟨hreqs, hserial, hout⟩ := hin.requests hopen hstate hflag hidle hread
  have hend := readIntoRecv_end turns c.recv c.pending
  have hreads := afterRead_reads turns c
  rcases hr : readIntoRecv turns c.recv c.pending with ⟨recv, pending, ok⟩
  rw [hr, heof] at hend
  rw [hr] at hreads
  cases hend
  -- nothing is read, and the connection is closed as it stands
  have hc' : c' = (c.afterRead recv pending).close := by
    simp only [webStep, hopen, WebConn.handleConnectionRead, hstate, porticoHttpEvent, hflag, hr,
      Bool.false_eq_true, if_false, Option.map_some, Option.some.injEq] at h
    exact h.symm
  obtain ⟨bytes, capacity, pending', hpend, heq⟩ := hreads
  obtain ⟨rfl, -⟩ := List.append_eq_nil_iff.mp (hpend.symm.trans hread)
  have hreceived : c'.received = c.received := by
    rw [hc', heq]
    exact List.append_nil _
  have htrace : c'.trace = c.trace := by rw [hc']; rfl
  have hwire : c'.out.wire = c.out.wire := by rw [hc']; rfl
  rw [OutBuffer.unsent_of_not_backlog hsent, List.append_nil] at hout
  rw [hreceived, htrace, hwire]
  exact ⟨hreqs, hserial, hout⟩

/-- Two requests are answered, and then the client stops sending. -/
theorem half_close_after_answers_pipelined :
    ∃ c c', run (webStep (pathServer false))
        (WebConn.accepted false (ascii "GET /a HTTP/1.1\r\n\r\nGET /b HTTP/1.1\r\n\r\n"))
        [.readable .wants [⟨true, .bytes 99⟩, ⟨true, .again⟩] [.taking, .taking]] = some c ∧
      webStep (pathServer false) c (.readable .wants [⟨true, .eof⟩] []) = some c' ∧
      (dispatches c'.trace).length = 2 ∧
      dispatches c'.trace = (pathServer false).requests c'.received ∧
      run Serial.step (.idle 0) c'.trace =
        some (.idle ((pathServer false).requests c'.received).length) ∧
      c'.out.wire = queuedBytes c'.trace :=
  ⟨_, _, rfl, rfl, by decide, half_close_after_answers (pathServer false) false
    (ascii "GET /a HTTP/1.1\r\n\r\nGET /b HTTP/1.1\r\n\r\n")
    [.readable .wants [⟨true, .bytes 99⟩, ⟨true, .again⟩] [.taking, .taking]] _ rfl rfl rfl rfl rfl
    .wants [⟨true, .eof⟩] [] rfl rfl _ rfl⟩

/-- A request and the end of the stream are met by one drain: the request is not answered. -/
theorem half_close_drops_request :
    ∃ c', run (webStep (pathServer false))
        (WebConn.accepted false (ascii "GET / HTTP/1.1\r\n\r\n"))
        [.readable .wants [⟨true, .bytes 99⟩, ⟨true, .eof⟩] [.taking]] = some c' ∧
      c'.received = ascii "GET / HTTP/1.1\r\n\r\n" ∧
      ((pathServer false).requests c'.received).length = 1 ∧
      dispatches c'.trace = [] ∧ c'.out.wire = [] ∧ c'.out.closed = true :=
  ⟨_, rfl, by decide, by decide, rfl, rfl, rfl⟩

end Portico.Http
