/-
  What each response consists of.

  `FitsIn` says what a queued buffer has to do with the request it answers: it is the handler's
  reply for that request, a bare status, or a part of the file that the reply names.

  Proved: `bodyless_responses`, in every run what is queued for a request has the body that the
  handler's reply to it has, whatever the method and the status. So the response to a HEAD request,
  and one with status 204 or 304, is a header block and nothing else exactly if the handler leaves
  the body out: the server's own answer while no site is configured has one also for HEAD
  (`head_answered_with_body`).
-/
import Portico.Http.Events

namespace Portico.Http

open Portico.Lib Portico.Ws Portico.Ws.OutConn WebConn List

/-- The request that a buffer answers. -/
def Piece.request : Piece → Option Nat
  | .whole (.request i) _ => some i
  | .whole (.refusal _) _ => none
  | .head i _ _ => some i
  | .chunk i _ => some i

/-- Request `i` is `req`, and `res` is what the handler made of it. -/
def RepliedTo (srv : WebServer) (reqs : List Request) (i : Nat) (req : Request) (res : Reply) :
    Prop :=
  reqs[i]? = some req ∧ res = handled srv (reqs.take i) req

/-- What a buffer is to the request it answers. -/
def FitsIn (srv : WebServer) (reqs : List Request) (p : Piece) : Prop :=
  ∀ i, p.request = some i → ∃ req res body, RepliedTo srv reqs i req res ∧
    Answers res req.keepAlive p body

/-- The file of a reply is being read whole. -/
def FileFor (srv : WebServer) (reqs : List Request) (ctx : FileCtx) : Prop :=
  ∃ req res, RepliedTo srv reqs ctx.request req res ∧ res.isFile = true ∧
    ctx = fileCtx res req.keepAlive ctx.request

/-- The file of a reply is being streamed. -/
def StreamFor (srv : WebServer) (reqs : List Request) (i : Nat) : Prop :=
  ∃ req res, RepliedTo srv reqs i req res ∧ res.isFile = true ∧ 0 < res.fileSize

/-- Everything that was queued fits, and what is in flight is the file of its request. -/
structure Fitting (srv : WebServer) (c : WebConn) : Prop where
  queued : ∀ p, .queue p ∈ c.trace → FitsIn srv (dispatches c.trace) p
  file : ∀ ctx, c.file = some ctx → FileFor srv (dispatches c.trace) ctx
  stream : ∀ s, c.stream = some s → StreamFor srv (dispatches c.trace) s.request

variable {req : Request} {acts : List WebAct} {P : Piece → Prop}

section Fitting

variable {srv : WebServer} {c c' : WebConn} {reqs : List Request} {silent : Prop}

theorem RepliedTo.append {i : Nat} {res : Reply} (h : RepliedTo srv reqs i req res)
    (more : List Request) : RepliedTo srv (reqs ++ more) i req res := by
  obtain ⟨hlt, -⟩ := List.getElem?_eq_some_iff.mp h.1
  refine ⟨by rw [List.getElem?_append_left hlt, h.1], ?_⟩
  rw [take_append_of_le_length (Nat.le_of_lt hlt), h.2]

theorem FileFor.append {ctx : FileCtx} (h : FileFor srv reqs ctx) (more : List Request) :
    FileFor srv (reqs ++ more) ctx := by
  obtain ⟨req, res, hrep, hfile⟩ := h
  exact ⟨req, res, hrep.append more, hfile⟩

theorem StreamFor.append {i : Nat} (h : StreamFor srv reqs i) (more : List Request) :
    StreamFor srv (reqs ++ more) i := by
  obtain ⟨req, res, hrep, hfile⟩ := h
  exact ⟨req, res, hrep.append more, hfile⟩

theorem FitsIn.append {p : Piece} (h : FitsIn srv reqs p) (more : List Request) :
    FitsIn srv (reqs ++ more) p := by
  intro i hi
  obtain ⟨req, res, body, hrep, hans⟩ := h i hi
  exact ⟨req, res, body, hrep.append more, hans⟩

theorem fitsIn_refusal (status : Int) (b : Bytes) : FitsIn srv reqs (.whole (.refusal status) b) :=
  fun _ hi => by cases hi

/-- A buffer for the file that is being read whole. -/
theorem FileFor.fitsIn {ctx : FileCtx} (h : FileFor srv reqs ctx) {b : Bytes}
    (hb : ctx.Answer b) : FitsIn srv reqs (.whole (.request ctx.request) b) := by
  intro i hi
  cases hi
  obtain ⟨req, res, hrep, hfile, hctx⟩ := h
  rw [hctx] at hb
  obtain ⟨body, hans⟩ := hb.answers hfile
  exact ⟨req, res, body, hrep, hans⟩

theorem StreamFor.fitsIn {i : Nat} (h : StreamFor srv reqs i) {data : Bytes} (hne : data ≠ []) :
    FitsIn srv reqs (.chunk i data) := by
  intro j hj
  cases hj
  obtain ⟨req, res, hrep, hfile, hpos⟩ := h
  exact ⟨req, res, data, hrep, .chunk hfile hpos hne⟩

/-- The request that has just been handed to the application. -/
theorem RepliedTo.last (c : WebConn) (req : Request) :
    RepliedTo srv (dispatches c.trace ++ [req]) c.count req (c.reply srv req) := by
  refine ⟨by rw [WebConn.count, List.getElem?_concat_length], ?_⟩
  rw [WebConn.count, take_left]
  rfl

/-- What is added to the trace fits, and so does what is then in flight. -/
theorem Fitting.extend (h : Fitting srv c) (htrace : c'.trace = c.trace ++ acts)
    (hacts : ∀ p, .queue p ∈ acts → FitsIn srv (dispatches (c.trace ++ acts)) p)
    (hfile : ∀ ctx, c'.file = some ctx →
      c.file = some ctx ∨ FileFor srv (dispatches (c.trace ++ acts)) ctx)
    (hstream : ∀ s, c'.stream = some s → (∃ s', c.stream = some s' ∧ s.request = s'.request) ∨
      StreamFor srv (dispatches (c.trace ++ acts)) s.request) : Fitting srv c' := by
  refine ⟨fun p hp => ?_, fun ctx hctx => ?_, fun s hs => ?_⟩
  · rw [htrace] at hp ⊢
    rcases mem_append.mp hp with hold | hnew
    · rw [dispatches_append]
      exact (h.queued p hold).append _
    · exact hacts p hnew
  · rw [htrace]
    rcases hfile ctx hctx with hold | hnew
    · rw [dispatches_append]
      exact (h.file ctx hold).append _
    · exact hnew
  · rw [htrace]
    rcases hstream s hs with ⟨s', hold, heq⟩ | hnew
    · rw [dispatches_append, heq]
      exact (h.stream s' hold).append _
    · exact hnew

/-- A connection that has only changed in what it reads, writes and waits for. -/
theorem Fitting.same (h : Fitting srv c) (htrace : c'.trace = c.trace)
    (hfile : ∀ ctx, c'.file = some ctx → c.file = some ctx)
    (hstream : ∀ s, c'.stream = some s → ∃ s', c.stream = some s' ∧ s.request = s'.request) :
    Fitting srv c' :=
  h.extend (show c'.trace = c.trace ++ [] by rw [htrace, append_nil])
    (fun p hp => by cases hp) (fun ctx hctx => .inl (hfile ctx hctx))
    (fun s hs => .inl (hstream s hs))

theorem Fitting.goes (h : Fitting srv c) (hg : Goes silent c c' acts)
    (hacts : ∀ p, .queue p ∈ acts → FitsIn srv (dispatches (c.trace ++ acts)) p) :
    Fitting srv c' := by
  obtain ⟨out, -, rfl⟩ := hg
  exact h.extend rfl hacts (fun ctx hctx => .inl hctx) (fun s hs => .inl ⟨s, hs, rfl⟩)

theorem Fitting.ends (h : Fitting srv c) {ok : Bool} (he : Ends silent c c' acts ok)
    (hacts : ∀ p, .queue p ∈ acts → FitsIn srv (dispatches (c.trace ++ acts)) p) :
    Fitting srv c' := by
  obtain ⟨out, part, -, rfl⟩ := he
  exact h.extend rfl hacts (fun ctx hctx => .inl hctx) (fun s hs => .inl ⟨s, hs, rfl⟩)

theorem Fitting.detached (h : Fitting srv c) {acts : List StreamAct} :
    Fitting srv (c.detached acts) :=
  h.same rfl (fun _ hctx => hctx) (fun _ hs => by cases hs)

theorem forall_queue_nil : ∀ p, .queue p ∈ ([] : List WebAct) → P p := by
  intro p hp
  cases hp

theorem forall_queue_one {q : Piece} (h : P q) : ∀ p, .queue p ∈ [WebAct.queue q] → P p := by
  intro p hp
  cases mem_singleton.mp hp
  exact h

theorem forall_queue_dispatch (h : ∀ p, .queue p ∈ acts → P p) :
    ∀ p, .queue p ∈ WebAct.dispatch req :: acts → P p := by
  intro p hp
  rcases mem_cons.mp hp with heq | hp
  · cases heq
  · exact h p hp

/-- The request that has just been handed over, in the trace that follows. -/
theorem repliedTo_last (c : WebConn) (req : Request) {acts : List WebAct}
    (hacts : dispatches acts = []) :
    RepliedTo srv (dispatches (c.trace ++ .dispatch req :: acts)) c.count req
      (c.reply srv req) := by
  rw [dispatches_append, dispatches_cons, hacts]
  exact .last c req

theorem fitsIn_answer {p : Piece} {body : Bytes} (c : WebConn) (hi : p.request = some c.count)
    (hans : Answers (c.reply srv req) req.keepAlive p body) (acts : List WebAct)
    (hacts : dispatches acts = []) :
    FitsIn srv (dispatches (c.trace ++ .dispatch req :: acts)) p := by
  intro j hj
  cases hi.symm.trans hj
  exact ⟨req, _, body, repliedTo_last c req hacts, hans⟩

theorem fitting_round {next next' : Next} (hround : RoundTo srv silent c next c' next')
    (h : Fitting srv c) : Fitting srv c' := by
  cases hround with
  | wait => exact h
  | refuse _ hacts hends =>
    rcases hacts with rfl | rfl
    · exact h.ends hends forall_queue_nil
    · exact h.ends hends (forall_queue_one (fitsIn_refusal _ _))
  | giveUp _ hacts hans hends =>
    have hc : ∀ taken, Fitting srv (c.consume taken) :=
      fun _ => h.same rfl (fun _ hctx => hctx) fun s hs => ⟨s, hs, rfl⟩
    rcases hacts with rfl | rfl
    · exact (hc _).ends hends (forall_queue_dispatch forall_queue_nil)
    · exact (hc _).ends hends
        (forall_queue_dispatch (forall_queue_one (fitsIn_answer c rfl hans _ rfl)))
  | answer _ _ hans hgoes =>
    obtain ⟨out, -, rfl⟩ := hgoes
    exact h.extend rfl (forall_queue_dispatch (forall_queue_one (fitsIn_answer c rfl hans _ rfl)))
      (fun ctx hctx => .inl hctx) (fun s hs => .inl ⟨s, hs, rfl⟩)
  | park _ hfile hgoes =>
    obtain ⟨out, -, rfl⟩ := hgoes
    refine h.extend rfl (forall_queue_dispatch forall_queue_nil) (fun ctx hctx => .inr ?_)
      (fun s hs => .inl ⟨s, hs, rfl⟩)
    cases hctx
    exact ⟨_, _, repliedTo_last c _ rfl, hfile, rfl⟩
  | start _ hfile hpos hgoes =>
    obtain ⟨out, -, rfl⟩ := hgoes
    refine h.extend rfl
      (forall_queue_dispatch (forall_queue_one (fitsIn_answer c rfl (.head hfile hpos) _ rfl)))
      (fun ctx hctx => .inl hctx) (fun s hs => .inr ?_)
    cases hs
    exact ⟨_, _, repliedTo_last c _ rfl, hfile, hpos⟩
  | blocked => exact h
  | submit hs =>
    refine h.same rfl (fun ctx hctx => hctx) (fun s' hs' => ?_)
    cases hs'
    exact ⟨_, hs, rfl⟩
  | chunk hs hne _ hgoes =>
    obtain ⟨out, -, rfl⟩ := hgoes
    refine h.extend rfl (forall_queue_one ?_) (fun ctx hctx => .inl hctx) (fun s' hs' => .inl ?_)
    · rw [dispatches_append]
      exact ((h.stream _ hs).append _).fitsIn hne
    · cases hs'
      exact ⟨_, hs, rfl⟩
  | finish => exact h.detached
  | stop _ hends => exact h.detached.ends hends forall_queue_nil

theorem Fitting.reads (h : Fitting srv c) {state : WsState} (hr : Reads (c.withState state) c') :
    Fitting srv c' := by
  obtain ⟨bytes, capacity, pending, -, rfl⟩ := hr
  exact h.same rfl (fun ctx hctx => hctx) (fun s hs => ⟨s, hs, rfl⟩)

theorem fitting_entry {next : Next} (h : Fitting srv c) (hentry : Entry srv silent c c' next) :
    Fitting srv c' := by
  induction hentry with
  | ignore => exact h
  | hold _ _ _ hreads | serve _ _ _ hreads =>
    exact h.reads (show Reads (c.withState c.out.state) _ from hreads)
  | drained => exact h.same rfl (fun ctx hctx => hctx) (fun s hs => ⟨s, hs, rfl⟩)
  | resume hs =>
    refine h.same rfl (fun ctx hctx => hctx) (fun s' hs' => ?_)
    cases hs'
    exact ⟨_, hs, rfl⟩
  | fileAnswer hf _ hgoes hb =>
    have hdetached : Fitting srv { c with asyncInflight := false, file := none } :=
      h.same rfl (fun ctx hctx => by cases hctx) (fun s hs => ⟨s, hs, rfl⟩)
    refine hdetached.goes hgoes (forall_queue_one ?_)
    rw [dispatches_append]
    exact ((h.file _ hf).append _).fitsIn hb
  | fileGiveUp hf hacts hends hb =>
    have hdetached : Fitting srv { c with asyncInflight := false, file := none } :=
      h.same rfl (fun ctx hctx => by cases hctx) (fun s hs => ⟨s, hs, rfl⟩)
    rcases hacts with rfl | rfl
    · exact hdetached.ends hends forall_queue_nil
    · refine hdetached.ends hends (forall_queue_one ?_)
      rw [dispatches_append]
      exact ((h.file _ hf).append _).fitsIn hb
  | round _ hround ih => exact fitting_round hround ih
  | begin _ _ hreads | enter _ hreads => exact h.reads hreads
  | beginRefuse _ hreads hacts hends =>
    rcases hacts with rfl | rfl
    · exact (h.reads hreads).ends hends forall_queue_nil
    · exact (h.reads hreads).ends hends (forall_queue_one (fitsIn_refusal _ _))
  | upgrade _ hreads =>
    exact (h.reads hreads).same rfl (fun ctx hctx => hctx) (fun s hs => ⟨s, hs, rfl⟩)

theorem fitting_leave (ok deferring : Bool) (h : Fitting srv c) :
    Fitting srv (settle (c.leave deferring ok)) := by
  have hsame : ∀ {c' : WebConn}, c'.trace = c.trace → c'.file = c.file → c'.stream = c.stream →
      Fitting srv c' := fun ht hf hs =>
    h.same ht (fun ctx hctx => hf ▸ hctx) (fun s hs' => ⟨s, hs ▸ hs', rfl⟩)
  exact settle_leave c deferring ok (fun _ => h) (fun _ => hsame rfl rfl rfl)
    fun _ => hsame rfl rfl rfl

/-- Everything that was queued fits; a closed connection may have left something in flight. -/
def AllFit (srv : WebServer) (c : WebConn) : Prop :=
  (∀ p, .queue p ∈ c.trace → FitsIn srv (dispatches c.trace) p) ∧
    (c.out.closed = false → Fitting srv c)

theorem Fitting.allFit (h : Fitting srv c) : AllFit srv c := ⟨h.queued, fun _ => h⟩

theorem allFit_step (c : WebConn) (ev : WebEvent) (c' : WebConn) (hc : AllFit srv c)
    (h : webStep srv c ev = some c') : AllFit srv c' := by
  refine webStep_rule (J := fun _ c => Fitting srv c) (fun hfit hdrop => ?_)
    (fun hopen hfit hentry => fitting_entry (hfit.2 hopen) hentry) fitting_round
    (fun ok deferring hfit => (fitting_leave ok deferring hfit).allFit) c ev c' hc h
  refine ⟨hdrop.trace ▸ hfit.1, fun hopen => ?_⟩
  rw [hdrop.closed] at hopen
  cases hopen

theorem allFit_accepted (tls : Bool) (input : Bytes) :
    AllFit srv (WebConn.accepted tls input) :=
  Fitting.allFit ⟨forall_queue_nil, fun _ hctx => (by cases hctx), fun _ hs => (by cases hs)⟩

end Fitting

/-- A response that must not have a body. -/
def Bodyless (req : Request) (res : Reply) : Prop :=
  porticoReqMethodIs req (ascii "HEAD") = true ∨ res.statusCode = 204 ∨ res.statusCode = 304

/-- The buffer is a bare status, an error in place of the reply. -/
def Piece.Bare (p : Piece) : Prop := ∃ status, p.bytes = responseHead status [] 0 false

/-- In every run, each buffer that is queued for a request is the handler's reply to that request, a
    bare status, or a part of the file that the reply names. If the reply is no file, no body bytes
    are in it exactly if it is a bare status or the reply has no payload; if it is one, its body
    bytes are what was read of the file, and there are none if that is empty. So a reply to HEAD, or
    with status 204 or 304, has a body just if the handler gives it one. -/
theorem bodyless_responses (srv : WebServer) (tls : Bool) (input : Bytes) (events : List WebEvent)
    (c : WebConn) (hrun : run (webStep srv) (WebConn.accepted tls input) events = some c) (i : Nat)
    (req : Request) (res : Reply) (hreply : RepliedTo srv (dispatches c.trace) i req res) :
    ∀ p, .queue p ∈ c.trace → p.request = some i →
      ∃ body, Answers res req.keepAlive p body ∧
        (res.isFile = false → (body = [] ↔ p.Bare ∨ res.payload = [])) ∧
        (res.isFile = true → res.fileSize = 0 → body = []) := by
  obtain ⟨hfits, -⟩ := run_invariant_all allFit_step events _ c (allFit_accepted tls input) hrun
  intro p hp hi
  obtain ⟨req', res', body, hreply', hans⟩ := hfits p hp i hi
  obtain rfl : req = req' := Option.some.inj (hreply.1.symm.trans hreply'.1)
  obtain rfl : res = res' := hreply.2.trans hreply'.2.symm
  have hbare : ∀ {status}, p = .whole (.request i) (responseHead status [] 0 false) →
      ∃ body, Answers res req.keepAlive p body ∧
        (res.isFile = false → (body = [] ↔ p.Bare ∨ res.payload = [])) ∧
        (res.isFile = true → res.fileSize = 0 → body = []) := by
    rintro status rfl
    exact ⟨[], .status status, fun _ => iff_of_true rfl (.inl ⟨status, rfl⟩), fun _ _ => rfl⟩
  cases hans with
  | reply hmem =>
    cases hi
    by_cases hstatus : ∃ status,
        res.head req.keepAlive ++ res.payload = responseHead status [] 0 false
    · obtain ⟨status, heq⟩ := hstatus
      exact hbare (congrArg (Piece.whole (.request i)) heq)
    · refine ⟨res.payload, .reply hmem, fun _ => ⟨.inr, fun h => ?_⟩, fun hfile => ?_⟩
      · exact h.resolve_left hstatus
      · rw [hmem] at hfile
        cases hfile
  | status =>
    cases hi
    exact hbare rfl
  | file hfile hlen =>
    refine ⟨body, .file hfile hlen, fun hmem => ?_, fun _ hsize => ?_⟩
    · rw [hmem] at hfile
      cases hfile
    · exact eq_nil_of_length_eq_zero (by omega)
  | head hfile hpos =>
    refine ⟨[], .head hfile hpos, fun hmem => ?_, fun _ _ => rfl⟩
    rw [hmem] at hfile
    cases hfile
  | chunk hfile hpos hne =>
    refine ⟨body, .chunk hfile hpos hne, fun hmem => ?_, fun _ hsize => by omega⟩
    rw [hmem] at hfile
    cases hfile

/-- A server that answers with a status alone. -/
def statusServer (status : Int) : WebServer :=
  { pathServer false with handle := some fun _ _ => (0, { Reply.empty with status := status }) }

theorem bodyless_responses_not_modified :
    ∃ c req, run (webStep (statusServer 304))
        (WebConn.accepted false (ascii "GET / HTTP/1.1\r\n\r\n"))
        [.readable .wants [⟨true, .bytes 99⟩] [.taking]] = some c ∧
      dispatches c.trace = [req] ∧ c.trace.length = 2 ∧
      Bodyless req (handled (statusServer 304) [] req) ∧
      ∀ p, .queue p ∈ c.trace → p.request = some 0 →
        Answers (handled (statusServer 304) [] req) req.keepAlive p [] := by
  refine ⟨_, _, rfl, rfl, rfl, .inr (.inr rfl), fun p hp hi => ?_⟩
  obtain ⟨body, hans, hempty, -⟩ := bodyless_responses (statusServer 304) false
    (ascii "GET / HTTP/1.1\r\n\r\n") [.readable .wants [⟨true, .bytes 99⟩] [.taking]] _ rfl 0 _ _
    ⟨rfl, rfl⟩ p hp hi
  exact (hempty rfl).mpr (.inr rfl) ▸ hans

/-- A server with no site configured. -/
def emptyRouter : WebServer :=
  { pathServer false with
    handle := some fun _ req =>
      porticoRouterHandle (fun _ (_ : List Unit) => Reply.empty) true none req }

/-- The last two bytes of a header block. -/
theorem responseHead_end (status : Int) (lines : Bytes) (length : Nat) (keepAlive : Bool) :
    (responseHead status lines length keepAlive).reverse.take 2 = [10, 13] := by
  unfold responseHead
  rw [reverse_append]
  rfl

/-- The response to a HEAD request has a body. -/
theorem head_answered_with_body :
    ∃ c req b, run (webStep emptyRouter)
        (WebConn.accepted false (ascii "HEAD / HTTP/1.1\r\n\r\n"))
        [.readable .wants [⟨true, .bytes 99⟩] [.taking]] = some c ∧
      c.trace = [.dispatch req, .queue (.whole (.request 0) b)] ∧
      Bodyless req (handled emptyRouter [] req) ∧
      ¬ ∃ status lines length keepAlive, b = responseHead status lines length keepAlive := by
  refine ⟨_, _, _, rfl, rfl, .inl rfl, ?_⟩
  rintro ⟨status, lines, length, keepAlive, hb⟩
  have hend := responseHead_end status lines length keepAlive
  rw [← hb] at hend
  revert hend
  decide

end Portico.Http
