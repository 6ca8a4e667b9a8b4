/-
  Files that are read whole: does their response fit the output buffer?

  Model. `http_serve_file`, `file_emit` and `portico_conn_send` as they are in Serve and Outbound.
  `Benign` is a round in which nothing fails: memory is there, EPOLLOUT can be armed, and the
  socket takes bytes or blocks, whenever it likes. A read that is accepted by the asynchronous
  input completes later, on the same connection and in a round of its own.

  Proved: `single_read_queued_iff`, the response of a file on this path is queued in every benign
  round exactly if its head and the file together are at most `PORTICO_OUT_MAX`. The two limits
  are equal, so a file of `PORTICO_SINGLE_MAX` bytes on a server without asynchronous input is
  refused by a socket that blocks: `largest_single_read_dropped`.
-/
import Portico.Http.Builders
import Portico.Http.Serve

namespace Portico.Ws.OutConn

variable {c : OutConn} {e : Env} {data buf : Bytes} {res : Reply}

/-- Appending to an empty queue succeeds up to the limit. -/
theorem connOutAppend_ok (hidle : c.out.unsent = []) (buf : Bytes) :
    (connOutAppend true c buf).2 = true ↔ buf.length ≤ outMax := by
  have hlen : (if 0 < c.out.sent then c.out.reclaim else c.out).bytes.length = 0 := by
    split
    · show c.out.unsent.length = 0
      rw [hidle]
      rfl
    · have hall := congrArg List.length hidle
      unfold OutBuffer.unsent at hall
      rw [List.length_drop, List.length_nil] at hall
      omega
  simp only [connOutAppend]
  generalize (if 0 < c.out.sent then c.out.reclaim else c.out) = out at hlen ⊢
  rw [hlen, Nat.zero_add]
  by_cases hmax : outMax < buf.length
  · rw [if_pos hmax]
    exact ⟨fun h => absurd h Bool.false_ne_true, fun h => by omega⟩
  · rw [if_neg hmax]
    refine ⟨fun _ => Nat.le_of_not_lt hmax, fun _ => ?_⟩
    split <;> rfl

theorem sendBlocked_ok (hidle : c.out.unsent = []) (rest : Bytes) :
    (sendBlocked true true c rest).2 = true ↔ rest.length ≤ outMax := by
  have happend := connOutAppend_ok hidle rest
  unfold sendBlocked
  generalize connOutAppend true c rest = r at happend ⊢
  obtain ⟨c', ok⟩ := r
  cases ok with
  | true => exact happend
  | false => exact happend

/-- Whatever the socket takes before it blocks, what is left fits if all of it would. -/
theorem sendLoop_ok (answers : List WriteAnswer) (hfail : .fail ∉ answers) :
    ∀ (c : OutConn) (rest : Bytes), c.out.unsent = [] → c.shut = false → rest.length ≤ outMax →
      (sendLoop true true answers c rest).2 = true := by
  induction answers with
  | nil =>
    intro c rest hidle hopen hfits
    unfold sendLoop
    split
    · rfl
    · rw [hopen]
      exact (sendBlocked_ok hidle rest).mpr hfits
  | cons a answers ih =>
    intro c rest hidle hopen hfits
    unfold sendLoop
    split
    · rfl
    unfold socketWrite
    rw [hopen]
    cases a with
    | takes =>
      apply ih (fun h => hfail (List.mem_cons_of_mem _ h))
      · exact hidle
      · rfl
      · rw [List.length_drop]
        omega
    | again => exact (sendBlocked_ok hidle rest).mpr hfits
    | fail => exact absurd List.mem_cons_self hfail

theorem porticoConnSend_ok (hidle : c.out.backlog = false) (hopen : c.shut = false)
    {answers : List WriteAnswer} (hfail : .fail ∉ answers) (hfits : buf.length ≤ outMax) :
    (porticoConnSend answers true true c buf).2 = true := by
  unfold porticoConnSend
  rw [hidle]
  exact sendLoop_ok answers hfail c buf (OutBuffer.unsent_of_not_backlog hidle) hopen hfits

/-- A socket that takes nothing: all of it would have to be queued, and nothing is. -/
theorem porticoConnSend_blocked (hidle : c.out.backlog = false) (hopen : c.shut = false)
    (hlarge : outMax < buf.length) :
    (porticoConnSend [] true true c buf).2 = false ∧
      (porticoConnSend [] true true c buf).1.out.unsent = [] := by
  have hunsent := OutBuffer.unsent_of_not_backlog hidle
  have hne : buf ≠ [] := by
    intro hnil
    rw [hnil] at hlarge
    exact absurd hlarge (Nat.not_lt_zero _)
  have hno : (connOutAppend true c buf).2 = false := by
    apply Bool.eq_false_of_not_eq_true
    intro hok
    have := (connOutAppend_ok hunsent buf).mp hok
    omega
  have hkeep := (connOutAppend_spec true c buf).2.2
  rw [hno, if_neg Bool.false_ne_true, hunsent] at hkeep
  unfold porticoConnSend sendLoop sendBlocked
  rw [hidle, hopen, if_neg Bool.false_ne_true, if_neg hne, if_neg Bool.false_ne_true]
  generalize connOutAppend true c buf = r at hno hkeep
  obtain ⟨c', ok⟩ := r
  cases hno
  exact ⟨rfl, hkeep⟩

end Portico.Ws.OutConn

namespace Portico.Http

open Portico.Lib Portico.Ws Portico.Ws.OutConn

/-- Nothing fails in the round, but the socket may block at any time. -/
structure Env.Benign (e : Env) : Prop where
  realloc : e.reallocOk = true
  epoll : e.epollOk = true
  build : e.buildOk = true
  alloc : e.allocOk = true
  writes : ∀ b, .fail ∉ e.writes b

/-- Nothing waits to be sent, and the socket has not been shut. -/
structure WebConn.Idle (c : WebConn) : Prop where
  unqueued : c.out.out.backlog = false
  opened : c.out.shut = false

def fileResponse (res : Reply) (keepAlive : Bool) (data : Bytes) : Bytes :=
  (fileReply res.status res.headers data).head keepAlive ++ data

/-- The response is queued: it stands in the trace, and behind what was written before. -/
structure QueuesFile (c c' : WebConn) (i : Nat) (resp : Bytes) : Prop where
  trace : c'.trace = c.trace ++ [.queue (.whole (.request i) resp)]
  stream : c'.out.wire ++ c'.out.out.unsent = c.out.wire ++ resp

/-- The file is served: its response is queued at once, or the read is in flight and the
    response is queued when it completes. -/
def ServesSingle (srv : WebServer) (e : Env) (c : WebConn) (res : Reply) (keepAlive : Bool)
    (total i : Nat) (data : Bytes) : Prop :=
  if srv.aio && e.submitOk then
    (c.httpServeFile srv e res keepAlive total i).1.file = some (fileCtx res keepAlive i) ∧
      ∀ (e' : Env) (c' : WebConn), e'.Benign → c'.Idle →
        QueuesFile c' (c'.fileEmit e' (fileCtx res keepAlive i) (some data)).1 i
          (fileResponse res keepAlive data)
  else
    QueuesFile c (c.httpServeFile srv e res keepAlive total i).1 i
      (fileResponse res keepAlive data)

variable {c : WebConn} {srv : WebServer}

namespace WebConn

variable {p : Piece}

theorem send_ok (he : e.Benign) (hc : c.Idle) (hfits : p.bytes.length ≤ outMax) :
    (c.send e p).2 = true ∧ (c.send e p).1.trace = c.trace ++ [.queue p] ∧
      (c.send e p).1.out.wire ++ (c.send e p).1.out.out.unsent = c.out.wire ++ p.bytes := by
  have hidle : (c.out.issue p.bytes).out.backlog = false := hc.unqueued
  have hok := porticoConnSend_ok hidle hc.opened (he.writes p.bytes) hfits
  obtain ⟨part, hadds, _, hwhole⟩ :=
    porticoConnSend_adds (e.writes p.bytes) true true (c.out.issue p.bytes) p.bytes
  have hstream := hadds.stream_eq
  rw [hwhole hok] at hstream
  rw [OutBuffer.unsent_of_not_backlog hidle, List.append_nil] at hstream
  unfold send
  rw [he.realloc, he.epoll]
  generalize porticoConnSend _ true true _ _ = r at hok hstream
  obtain ⟨out, ok⟩ := r
  cases hok
  exact ⟨rfl, rfl, hstream⟩

theorem send_blocked (he : e.Benign) (hc : c.Idle) (hwrites : e.writes p.bytes = [])
    (hlarge : outMax < p.bytes.length) :
    (c.send e p).2 = false ∧ (c.send e p).1.trace = c.trace ∧
      (c.send e p).1.out.out.unsent = [] := by
  have hidle : (c.out.issue p.bytes).out.backlog = false := hc.unqueued
  obtain ⟨hno, hunsent⟩ := porticoConnSend_blocked hidle hc.opened hlarge
  unfold send
  rw [he.realloc, he.epoll, hwrites]
  generalize porticoConnSend [] true true _ _ = r at hno hunsent
  obtain ⟨out, ok⟩ := r
  cases hno
  exact ⟨rfl, rfl, hunsent⟩

theorem fileReply_head_length {status : Int} (hstatus : IsInt status) (headers : Bytes)
    (hdata : data.length < 2 ^ 64) (keepAlive : Bool) :
    ((fileReply status headers data).head keepAlive).length ≤ 118 + headers.length := by
  have hcode : IsInt (fileReply status headers data).statusCode := by
    unfold Reply.statusCode
    split
    · decide
    · exact hstatus
  exact responseHead_length_le hcode headers hdata keepAlive

variable {keepAlive : Bool}

/-- What `file_emit` builds fits the buffer of its head, so only the send decides. -/
theorem fileEmit_eq (he : e.Benign) (c : WebConn) {i : Nat} (hstatus : IsInt res.status)
    (hheaders : res.headers.length < resHeadersCap) (hdata : data.length < 2 ^ 64) :
    c.fileEmit e (fileCtx res keepAlive i) (some data) =
      if (c.send e (.whole (.request i) (fileResponse res keepAlive data))).2 then
        ((c.send e (.whole (.request i) (fileResponse res keepAlive data))).1, !keepAlive)
      else ((c.send e (.whole (.request i) (fileResponse res keepAlive data))).1, true) := by
  have hroom : ¬ headCap ≤ ((fileReply res.status res.headers data).head keepAlive).length := by
    have := fileReply_head_length hstatus res.headers hdata keepAlive
    unfold headCap resHeadersCap at *
    omega
  have hbuild : porticoHttpBuildResponse e.buildOk (fileReply res.status res.headers data)
      keepAlive = some (fileResponse res keepAlive data) := by
    rw [porticoHttpBuildResponse, if_neg hroom, he.build, fileResponse]
    rfl
  have hreply : (fileCtx res keepAlive i).reply data = fileReply res.status res.headers data := rfl
  unfold fileEmit
  simp only [hreply]
  rw [show (fileCtx res keepAlive i).keepAlive = keepAlive from rfl, hbuild]
  dsimp only [fileCtx]
  generalize c.send e _ = r
  obtain ⟨c', ok⟩ := r
  cases ok with
  | true => rfl
  | false => rfl

theorem fileEmit_queues (he : e.Benign) (hc : c.Idle) (i : Nat) (hstatus : IsInt res.status)
    (hheaders : res.headers.length < resHeadersCap) (hdata : data.length < 2 ^ 64)
    (hfits : (fileResponse res keepAlive data).length ≤ outMax) :
    QueuesFile c (c.fileEmit e (fileCtx res keepAlive i) (some data)).1 i
      (fileResponse res keepAlive data) := by
  obtain ⟨hok, htrace, hstream⟩ := send_ok he hc
    (p := .whole (.request i) (fileResponse res keepAlive data)) hfits
  rw [fileEmit_eq he c hstatus hheaders hdata, hok, if_pos rfl]
  exact ⟨htrace, hstream⟩

/-- The end of `http_serve_file` behind a read that it made itself. -/
def afterEmit : WebConn × Bool → WebConn × Next
  | (c, true) => returns c.httpFinishClose
  | (c, false) => (c, .serve)

theorem afterEmit_same (r : WebConn × Bool) :
    (afterEmit r).1.trace = r.1.trace ∧ (afterEmit r).1.out = r.1.out := by
  obtain ⟨c, close⟩ := r
  cases close with
  | false => exact ⟨rfl, rfl⟩
  | true =>
    show c.httpFinishClose.1.trace = c.trace ∧ c.httpFinishClose.1.out = c.out
    unfold httpFinishClose
    split <;> exact ⟨rfl, rfl⟩

/-- A file on the single-read path: the read is submitted, or made at once. -/
theorem httpServeFile_single (he : e.Benign) (c : WebConn)
    (hstream : (srv.aio && decide (streamChunk < res.fileSize)) = false)
    (hmax : res.fileSize ≤ singleMax) (keepAlive : Bool) (total i : Nat)
    (hread : e.read = some data) (hdata : data.length = res.fileSize) :
    c.httpServeFile srv e res keepAlive total i =
      if srv.aio && e.submitOk then
        ({ c.consume total with asyncInflight := true, file := some (fileCtx res keepAlive i) },
          .ret true)
      else afterEmit ((c.consume total).fileEmit e (fileCtx res keepAlive i) (some data)) := by
  have htake : e.read.map (·.take res.fileSize) = some data := by
    rw [hread, Option.map_some, ← hdata, List.take_length]
  unfold httpServeFile
  rw [hstream, if_neg Bool.false_ne_true, if_neg (Nat.not_lt.mpr hmax), he.alloc, Bool.not_true,
    if_neg Bool.false_ne_true, htake]
  by_cases haio : (srv.aio && e.submitOk) = true
  · rw [if_pos haio, if_pos haio]
  · rw [if_neg haio, if_neg haio]
    generalize (c.consume total).fileEmit e _ (some data) = r
    obtain ⟨c', close⟩ := r
    cases close with
    | true => rfl
    | false => rfl

end WebConn

theorem fileResponse_length (res : Reply) (keepAlive : Bool) (data : Bytes) :
    (fileResponse res keepAlive data).length =
      ((fileReply res.status res.headers data).head keepAlive).length + data.length :=
  List.length_append

/-- A round in which the socket takes nothing, and a read gives those bytes. -/
def Env.blocked (data : Bytes) : Env := { Env.quiet with read := some data }

theorem Env.blocked_benign (data : Bytes) : (Env.blocked data).Benign where
  realloc := rfl
  epoll := rfl
  build := rfl
  alloc := rfl
  writes := fun _ => List.not_mem_nil

/-- With no asynchronous input and a socket that blocks at once, a response that is too long is
    not queued, and the connection is closed with nothing sent. -/
theorem blocked_not_queued (haio : srv.aio = false) (hc : c.Idle) (hmax : res.fileSize ≤ singleMax)
    (keepAlive : Bool) (total i : Nat) (hstatus : IsInt res.status)
    (hheaders : res.headers.length < resHeadersCap) (hdata : data.length = res.fileSize)
    (hlarge : outMax < (fileResponse res keepAlive data).length) :
    (c.httpServeFile srv (.blocked data) res keepAlive total i).1.trace = c.trace ∧
      (c.httpServeFile srv (.blocked data) res keepAlive total i).2 = .ret false := by
  have hc' : (c.consume total).Idle := ⟨hc.unqueued, hc.opened⟩
  have hlen : data.length < 2 ^ 64 := by
    unfold singleMax at hmax
    omega
  obtain ⟨hno, htrace, hunsent⟩ := WebConn.send_blocked (Env.blocked_benign data) hc'
    (p := .whole (.request i) (fileResponse res keepAlive data)) rfl hlarge
  rw [WebConn.httpServeFile_single (Env.blocked_benign data) c (by rw [haio]; rfl) hmax
    keepAlive total i rfl hdata, haio, Bool.false_and, if_neg Bool.false_ne_true,
    WebConn.fileEmit_eq (Env.blocked_benign data) _ hstatus hheaders hlen, hno,
    if_neg Bool.false_ne_true]
  refine ⟨(WebConn.afterEmit_same _).1.trans htrace, ?_⟩
  have hidle : ∀ c' : WebConn, c'.out.out.unsent = [] →
      (WebConn.afterEmit (c', true)).2 = .ret false := by
    intro c' h
    have hback : ¬ c'.out.out.backlog = true := fun hb => (OutBuffer.backlog_iff _).mp hb h
    simp only [WebConn.afterEmit, WebConn.httpFinishClose]
    rw [if_neg hback]
    rfl
  exact hidle _ hunsent

/-- A file of at most `PORTICO_SINGLE_MAX` bytes that is served by the single-read path, on a
    connection with no pending output: its response is queued, whatever the socket takes and
    whenever it blocks, exactly if head and file together are at most `PORTICO_OUT_MAX`. -/
theorem single_read_queued_iff (srv : WebServer) (res : Reply) (keepAlive : Bool) (data : Bytes)
    (hdata : data.length = res.fileSize)
    (hsingle : (srv.aio && decide (streamChunk < res.fileSize)) = false)
    (hmax : res.fileSize ≤ singleMax) (hstatus : IsInt res.status)
    (hheaders : res.headers.length < resHeadersCap) :
    (∀ (e : Env) (c : WebConn) (total i : Nat), e.Benign → c.Idle → e.read = some data →
      ServesSingle srv e c res keepAlive total i data) ↔
    ((fileReply res.status res.headers data).head keepAlive).length + res.fileSize ≤ outMax := by
  have hlen : data.length < 2 ^ 64 := by
    unfold singleMax at hmax
    omega
  rw [← hdata, ← fileResponse_length]
  constructor
  · intro hall
    cases haio : srv.aio with
    | true =>
      -- a file on this path is at most a chunk then, which leaves room for every head
      rw [haio, Bool.true_and, decide_eq_false_iff_not] at hsingle
      have hhead := WebConn.fileReply_head_length hstatus res.headers hlen keepAlive
      rw [fileResponse_length]
      unfold streamChunk at hsingle
      unfold resHeadersCap at hheaders
      unfold outMax
      omega
    | false =>
      apply Nat.le_of_not_lt
      intro hlarge
      have hidle : (WebConn.accepted false []).Idle := ⟨rfl, rfl⟩
      have hserved := hall (.blocked data) (.accepted false []) 0 0 (Env.blocked_benign data) hidle
        rfl
      unfold ServesSingle at hserved
      rw [haio, Bool.false_and, if_neg Bool.false_ne_true] at hserved
      have hnone :=
        (blocked_not_queued haio hidle hmax keepAlive 0 0 hstatus hheaders hdata hlarge).1
      rw [hserved.trace] at hnone
      cases hnone
  · intro hfits e c total i he hc hread
    have hc' : (c.consume total).Idle := ⟨hc.unqueued, hc.opened⟩
    unfold ServesSingle
    rw [WebConn.httpServeFile_single he c hsingle hmax keepAlive total i hread hdata]
    by_cases haio : (srv.aio && e.submitOk) = true
    · rw [if_pos haio, if_pos haio]
      refine ⟨rfl, ?_⟩
      intro e' c' he' hidle
      exact WebConn.fileEmit_queues he' hidle i hstatus hheaders hlen hfits
    · rw [if_neg haio, if_neg haio]
      have hqueued := WebConn.fileEmit_queues he hc' i hstatus hheaders hlen hfits
      obtain ⟨htrace, hout⟩ := WebConn.afterEmit_same
        ((c.consume total).fileEmit e (fileCtx res keepAlive i) (some data))
      refine ⟨htrace.trans hqueued.trace, ?_⟩
      rw [hout]
      exact hqueued.stream

/-- A response with a file of that size. -/
def fileOf (size : Nat) : Reply :=
  { Reply.empty with status := 200, isFile := true, fileSize := size }

/-- A small file on a server with asynchronous input, and a socket that takes nothing. -/
theorem single_read_queued_small :
    ServesSingle (pathServer true) (.blocked (ascii "abc")) (.accepted false []) (fileOf 3) true 0 0
      (ascii "abc") :=
  (single_read_queued_iff (pathServer true) (fileOf 3) true (ascii "abc") rfl rfl
    (by decide) (by decide) (by decide)).mpr (by decide) _ _ 0 0 (Env.blocked_benign _) ⟨rfl, rfl⟩
      rfl

/-- A file of exactly `PORTICO_SINGLE_MAX` bytes, no asynchronous input, and a socket that takes
    nothing: no byte of the response is queued, and the connection is closed. -/
theorem largest_single_read_dropped :
    ∃ data : Bytes, data.length = singleMax ∧ (Env.blocked data).Benign ∧
      (WebConn.accepted false []).Idle ∧
      ((WebConn.accepted false []).httpServeFile (pathServer false) (.blocked data)
        (fileOf singleMax) true 0 0).1.trace = [] ∧
      ((WebConn.accepted false []).httpServeFile (pathServer false) (.blocked data)
        (fileOf singleMax) true 0 0).2 = .ret false ∧
      ¬ ServesSingle (pathServer false) (.blocked data) (.accepted false []) (fileOf singleMax)
        true 0 0 data := by
  obtain ⟨data, hdata⟩ : ∃ data : Bytes, data.length = singleMax :=
    ⟨List.replicate singleMax 0, List.length_replicate⟩
  have haio : (pathServer false).aio = false := rfl
  have hidle : (WebConn.accepted false []).Idle := ⟨rfl, rfl⟩
  have hlarge : outMax < (fileResponse (fileOf singleMax) true data).length := by
    have hhead : 9 ≤ ((fileReply (fileOf singleMax).status (fileOf singleMax).headers data).head
        true).length := by
      have hfix : (ascii "HTTP/1.1 ").length = 9 := by decide
      simp only [Reply.head, responseHead, List.length_append]
      omega
    rw [fileResponse_length, hdata]
    unfold singleMax outMax at *
    omega
  obtain ⟨htrace, hnext⟩ := blocked_not_queued haio hidle (Nat.le_refl _) true 0 0 (by decide)
    (by decide) hdata hlarge
  refine ⟨data, hdata, Env.blocked_benign data, hidle, htrace, hnext, ?_⟩
  intro hserved
  unfold ServesSingle at hserved
  rw [haio, Bool.false_and, if_neg Bool.false_ne_true] at hserved
  rw [hserved.trace] at htrace
  exact List.append_ne_nil_of_right_ne_nil _ (List.cons_ne_nil _ _) htrace

end Portico.Http
