/-
  Serving requests on one connection: the receive buffer, the request loop, the two ways to send
  a file and the event handlers of src/http/connection.c, with `handle_connection_read` and
  `handle_connection_write` of src/ws/ws_connection_handler.c.

  Model. `WebConn` is a connection with the bytes its client has sent and the server has not
  read. A handler returns 0 (`true`) or -1 (`false`); who calls it closes the connection on -1.
  The loops of `process_http_buffer` and of `stream_advance` call each other, so they are the two
  modes of `runLoop`, whose rounds are functions of their own; `goOn_reaches` says that every
  handler returns, and is the induction rule for what it does. What a round meets from outside
  (the socket, memory, the file system) is an `Env`; an event has a list of them, and behind its
  end the socket blocks and reads fail. The application's handler is a function of the requests
  it has handled on this connection and of the new one, so it may keep state. A read returns at
  most what was asked for. An upgraded connection leaves this model, and so does a closed one:
  completions that come late are dropped. History: `received`, every byte that was read,
  `trace`, the requests handed to the application and the buffers that `portico_conn_send` has
  accepted, and `streamActs`, the reads, finishes and failures of streams.
-/
import Portico.Http.Response
import Portico.Ws.Dispatch
import Portico.Ws.Outbound

namespace Portico.Http

open Portico.Lib Portico.Ws Portico.Ws.OutConn

/-! ## The connection -/

/-- What a buffer answers: the request of that number, or input that is refused with a status. -/
inductive ReplyTo where
  | request (i : Nat)
  | refusal (status : Int)
  deriving DecidableEq, Repr

/-- A buffer given to `portico_conn_send`: a response in one piece, or the header block and the
    chunks of a streamed file of that size. -/
inductive Piece where
  | whole (whom : ReplyTo) (bytes : Bytes)
  | head (i : Nat) (bytes : Bytes) (size : Nat)
  | chunk (i : Nat) (bytes : Bytes)
  deriving DecidableEq, Repr

def Piece.bytes : Piece → Bytes
  | .whole _ bytes => bytes
  | .head _ bytes _ => bytes
  | .chunk _ bytes => bytes

/-- A request is handed to the application, or a buffer is queued. -/
inductive WebAct where
  | dispatch (req : Request)
  | queue (p : Piece)
  deriving DecidableEq, Repr

/-- The requests of a trace. -/
def dispatches (trace : List WebAct) : List Request :=
  trace.filterMap fun
    | .dispatch req => some req
    | .queue _ => none

/-- What a trace has queued. -/
def queuedBytes (trace : List WebAct) : Bytes :=
  trace.flatMap fun
    | .dispatch _ => []
    | .queue p => p.bytes

/-- `http_file_ctx_t`, with the number of the request it is for. -/
structure FileCtx where
  size : Nat
  status : Int
  headers : Bytes
  keepAlive : Bool
  request : Nat
  deriving DecidableEq, Repr

/-- The response with a file's bytes, as `file_emit` builds it. -/
def fileReply (status : Int) (headers data : Bytes) : Reply :=
  { Reply.empty with status := status, headers := headers, body := data }

def FileCtx.reply (ctx : FileCtx) (data : Bytes) : Reply :=
  fileReply ctx.status ctx.headers data

/-- The context of a reply whose file is read whole, for request `i`. -/
def fileCtx (res : Reply) (keepAlive : Bool) (i : Nat) : FileCtx :=
  { size := res.fileSize, status := res.status, headers := res.headers, keepAlive := keepAlive
    request := i }

/-- `http_stream_t`, with the number of the request it is for. -/
structure StreamCtx where
  offset : Nat
  finish : Nat
  keepAlive : Bool
  reading : Bool
  request : Nat
  deriving DecidableEq, Repr

/-- The stream of a reply's file, for request `i`. -/
def streamCtx (res : Reply) (keepAlive : Bool) (i : Nat) : StreamCtx :=
  { offset := res.fileOffset, finish := res.fileOffset + res.fileSize, keepAlive := keepAlive
    reading := false, request := i }

/-- The header block in front of it. -/
def Reply.streamHead (res : Reply) (keepAlive : Bool) : Bytes :=
  responseHead res.status res.headers res.fileSize keepAlive

/-- `PORTICO_STREAM_CHUNK` and `PORTICO_SINGLE_MAX`. -/
def streamChunk : Nat := 1024 * 1024
def singleMax : Nat := 4 * 1024 * 1024

/-- How much the next read asks for. -/
def StreamCtx.want (s : StreamCtx) : Nat := min (s.finish - s.offset) streamChunk

/-- What is done to a stream: a read and its result, a call of `stream_finish` with the trace it
    finds, or a call of `stream_fail`. -/
inductive StreamAct where
  | read (s : StreamCtx) (result : Option Bytes)
  | finish (s : StreamCtx) (trace : List WebAct)
  | fail (s : StreamCtx)
  deriving DecidableEq, Repr

structure WebConn where
  out : OutConn
  recv : RecvBuffer
  pending : Bytes
  closeWhenDrained : Bool
  asyncInflight : Bool
  stream : Option StreamCtx
  file : Option FileCtx
  received : Bytes
  trace : List WebAct
  streamActs : List StreamAct
  deriving DecidableEq, Repr

/-- A connection that has just been accepted, over TLS or not, and what its client will send. -/
def WebConn.accepted (tls : Bool) (input : Bytes) : WebConn :=
  { out := { OutConn.opened with state := if tls then .tlsHandshake else .connecting }
    recv := ⟨[], 16384⟩
    pending := input
    closeWhenDrained := false
    asyncInflight := false
    stream := none
    file := none
    received := []
    trace := []
    streamActs := [] }

/-- The server around the connection: `phr_parse_request`, whose answer may depend only on the
    bytes it takes (`phrParseRequest_local`), the application's handler, the address to report for
    the client, and whether there is asynchronous file input. -/
structure WebServer where
  phr : Bytes → Front RequestHead
  phr_local : FrontLocal phr
  handle : Option (List Request → Request → Int × Reply)
  clientIp : ClientIpConfig
  aio : Bool

/-- What one round meets: the socket's answers to the writes of a buffer, whether the output
    buffer can grow and EPOLLOUT be armed, whether there is memory for a serialized response and
    for a file's context and buffer, whether an asynchronous read is accepted, what a read returns
    (`none`: it fails), and what `ws_process_handshake` writes and whether it accepts. -/
structure Env where
  writes : Bytes → List WriteAnswer
  reallocOk : Bool
  epollOk : Bool
  buildOk : Bool
  allocOk : Bool
  submitOk : Bool
  read : Option Bytes
  handshake : Bytes → Bytes × Bool

/-- Behind the end of an event's list. -/
def Env.quiet : Env :=
  { writes := fun _ => [], reallocOk := true, epollOk := true, buildOk := true, allocOk := true
    submitOk := true, read := none, handshake := fun _ => ([], false) }

/-- How a round ends: the handler returns, or goes on with a round of `process_http_buffer` or
    of `stream_advance`. -/
inductive Next where
  | ret (ok : Bool)
  | serve
  | pump
  deriving DecidableEq, Repr

/-- How a step of the TLS handshake ends. -/
inductive TlsStep where
  | done
  | wants
  | failed
  deriving DecidableEq, Repr

namespace WebConn

/-- `close_connection`. -/
def close (c : WebConn) : WebConn := { c with out := c.out.teardown }

/-- The caller of an event handler closes the connection on -1. -/
def settle : WebConn × Bool → WebConn
  | (c, true) => c
  | (c, false) => c.close

/-- `portico_conn_send`. -/
def send (e : Env) (c : WebConn) (p : Piece) : WebConn × Bool :=
  match porticoConnSend (e.writes p.bytes) e.reallocOk e.epollOk (c.out.issue p.bytes) p.bytes with
  | (out, true) => ({ c with out := out, trace := c.trace ++ [.queue p] }, true)
  | (out, false) => ({ c with out := out }, false)

/-- Drop the request at the front of the receive buffer. -/
def consume (c : WebConn) (total : Nat) : WebConn :=
  { c with recv := { c.recv with bytes := c.recv.bytes.drop total } }

def httpReplyStatus (e : Env) (c : WebConn) (whom : ReplyTo) (status : Int) : WebConn × Bool :=
  match porticoHttpBuildStatus e.buildOk status false with
  | none => (c, false)
  | some b => c.send e (.whole whom b)

def httpFinishClose (c : WebConn) : WebConn × Bool :=
  if c.out.out.backlog then ({ c with closeWhenDrained := true }, true) else (c, false)

def httpErrorClose (e : Env) (c : WebConn) (whom : ReplyTo) (status : Int) : WebConn × Bool :=
  match c.httpReplyStatus e whom status with
  | (c, false) => (c, false)
  | (c, true) => c.httpFinishClose

/-- Input that is refused. -/
def httpRefuse (e : Env) (c : WebConn) (status : Int) : WebConn × Bool :=
  c.httpErrorClose e (.refusal status) status

/-- The end of a round that returns. -/
def returns : WebConn × Bool → WebConn × Next
  | (c, ok) => (c, .ret ok)

/-! ### Files -/

/-- Whether the connection is to be closed. A failed read is answered with a status whose send is
    not checked. -/
def fileEmit (e : Env) (c : WebConn) (ctx : FileCtx) (read : Option Bytes) : WebConn × Bool :=
  match read with
  | none =>
    match porticoHttpBuildStatus e.buildOk 500 false with
    | none => (c, true)
    | some b => ((c.send e (.whole (.request ctx.request) b)).1, true)
  | some data =>
    match porticoHttpBuildResponse e.buildOk (ctx.reply data) ctx.keepAlive with
    | none => (c, true)
    | some resp =>
      match c.send e (.whole (.request ctx.request) resp) with
      | (c, false) => (c, true)
      | (c, true) => (c, !ctx.keepAlive)

def streamFail (c : WebConn) (s : StreamCtx) : WebConn × Bool :=
  ({ c with
     stream := none
     asyncInflight := false
     streamActs := c.streamActs ++ [.fail s] },
    false)

def streamFinish (c : WebConn) (s : StreamCtx) : WebConn × Next :=
  let c := { c with
    stream := none
    asyncInflight := false
    streamActs := c.streamActs ++ [.finish s c.trace] }
  if s.keepAlive then (c, .serve) else returns c.httpFinishClose

/-- Send the chunk that was read for the stream. -/
def streamSend (e : Env) (c : WebConn) (s : StreamCtx) (read : Option Bytes) :
    WebConn × Option StreamCtx :=
  let c := { c with streamActs := c.streamActs ++ [.read s read] }
  match read with
  | none => (c, none)
  | some [] => (c, none)
  | some data =>
    match c.send e (.chunk s.request data) with
    | (c, false) => (c, none)
    | (c, true) =>
      let s := { s with offset := s.offset + data.length }
      ({ c with stream := some s }, some s)

/-- A round of the loop of `stream_advance`. -/
def pumpRound (srv : WebServer) (e : Env) (c : WebConn) (s : StreamCtx) : WebConn × Next :=
  if c.out.out.backlog then (c, .ret true)
  else if s.finish ≤ s.offset then c.streamFinish s
  else if srv.aio && e.submitOk then
    ({ c with stream := some { s with reading := true } }, .ret true)
  else
    match c.streamSend e s (e.read.map (·.take s.want)) with
    | (c, none) => returns (c.streamFail s)
    | (c, some _) => (c, .pump)

/-- The part of `stream_start` before its `stream_advance`. -/
def streamStart (e : Env) (c : WebConn) (res : Reply) (keepAlive : Bool) (total i : Nat) :
    WebConn × Next :=
  if !e.allocOk then returns (c.httpErrorClose e (.request i) 500)
  else
    let c := c.consume total
    let header := res.streamHead keepAlive
    if headCap ≤ header.length then returns (c.httpErrorClose e (.request i) 500)
    else match c.send e (.head i header res.fileSize) with
      | (c, false) => (c, .ret false)
      | (c, true) =>
        ({ c with stream := some (streamCtx res keepAlive i), asyncInflight := true }, .pump)

def httpServeFile (srv : WebServer) (e : Env) (c : WebConn) (res : Reply) (keepAlive : Bool)
    (total i : Nat) : WebConn × Next :=
  if srv.aio && streamChunk < res.fileSize then c.streamStart e res keepAlive total i
  else if singleMax < res.fileSize then
    returns ((c.consume total).httpErrorClose e (.request i) 503)
  else if !e.allocOk then returns (c.httpErrorClose e (.request i) 500)
  else
    let ctx := fileCtx res keepAlive i
    let c := c.consume total
    if srv.aio && e.submitOk then
      ({ c with asyncInflight := true, file := some ctx }, .ret true)
    else match c.fileEmit e ctx (e.read.map (·.take res.fileSize)) with
      | (c, true) => returns c.httpFinishClose
      | (c, false) => (c, .serve)

/-! ### Requests -/

/-- The end of a round for a request that is answered from memory. -/
def answer (e : Env) (c : WebConn) (res : Reply) (keepAlive : Bool) (total i : Nat) :
    WebConn × Next :=
  match porticoHttpBuildResponse e.buildOk res keepAlive with
  | none => (c, .ret false)
  | some resp =>
    match c.send e (.whole (.request i) resp) with
    | (c, false) => (c, .ret false)
    | (c, true) =>
      let c := c.consume total
      if keepAlive then (c, .serve) else returns c.httpFinishClose

/-- What the handler makes of the request, with the requests before it. -/
def handled (srv : WebServer) (history : List Request) (req : Request) : Reply :=
  match srv.handle with
  | none => { Reply.empty with status := 501 }
  | some handle =>
    let (hrc, res) := handle history req
    if hrc ≠ 0 then { res with status := 500, body := [], isFile := false } else res

/-- A request is handed to the application, and answered. -/
def dispatch (srv : WebServer) (e : Env) (c : WebConn) (req : Request) (total : Nat) :
    WebConn × Next :=
  let history := dispatches c.trace
  let res := handled srv history req
  let c := { c with trace := c.trace ++ [WebAct.dispatch req] }
  if res.isFile then c.httpServeFile srv e res req.keepAlive total history.length
  else c.answer e res req.keepAlive total history.length

/-- A round of the loop of `process_http_buffer`. -/
def serveRound (srv : WebServer) (e : Env) (c : WebConn) : WebConn × Next :=
  if c.recv.bytes = [] then (c, .ret true)
  else match porticoHttpParse srv.phr maxBody c.recv.bytes with
    | .incomplete =>
      if findTerm c.recv.bytes = none ∧ maxHeaderSize < c.recv.bytes.length then
        returns (c.httpRefuse e 431)
      else (c, .ret true)
    | .malformed => returns (c.httpRefuse e 400)
    | .tooLarge => returns (c.httpRefuse e 413)
    | .unsupported => returns (c.httpRefuse e 501)
    | .complete total req =>
      c.dispatch srv e { req with clientIp := resolveClientIp srv.clientIp req.headers } total

/-- A round of `stream_advance` on the connection's stream, if no read is in flight for it. -/
def streamRound (srv : WebServer) (e : Env) (c : WebConn) : WebConn × Next :=
  match c.stream with
  | none => (c, .ret true)
  | some s => if s.reading then (c, .ret true) else c.pumpRound srv e s

def round (srv : WebServer) (e : Env) (next : Next) (c : WebConn) : WebConn × Next :=
  match next with
  | .ret ok => (c, .ret ok)
  | .serve => c.serveRound srv e
  | .pump => c.streamRound srv e

/-- The end of a handler. A completion, and `stream_start` for what follows the stream it starts,
    let a backlog drain before the connection is closed (`deferring`). -/
def leave (deferring ok : Bool) (c : WebConn) : WebConn × Bool :=
  if !ok && deferring then c.httpFinishClose else (c, ok)

/-- The rounds of a handler, at most as many as the first argument says. -/
def runLoop (srv : WebServer) : Nat → List Env → Bool → Next → WebConn → WebConn × Bool
  | _, _, deferring, .ret ok, c => c.leave deferring ok
  | 0, _, _, _, c => (c, true)
  | k + 1, script, deferring, next, c =>
    match c.round srv (script.headD .quiet) next with
    | (c, next') =>
      -- a stream was started
      let deferring := deferring || (next == .serve && next' == .pump)
      runLoop srv k script.tail deferring next' c

/-- A request takes bytes from the buffer, and a chunk that is read in the loop takes an entry
    of the script. -/
def loopBound (script : List Env) (c : WebConn) : Nat :=
  2 * (c.recv.bytes.length + script.length) + 2

/-- A handler that goes on with `next`. -/
def goOn (srv : WebServer) (script : List Env) (deferring : Bool) (next : Next) (c : WebConn) :
    WebConn × Bool :=
  c.runLoop srv (loopBound script c) script deferring next

def processHttpBuffer (srv : WebServer) (script : List Env) (c : WebConn) : WebConn × Bool :=
  c.goOn srv script false .serve

def streamAdvance (srv : WebServer) (script : List Env) (c : WebConn) : WebConn × Bool :=
  c.goOn srv script false .pump

/-! ### Events -/

/-- The connection after `read_into_recv`. -/
def afterRead (c : WebConn) (recv : RecvBuffer) (pending : Bytes) : WebConn :=
  { c with
    recv := recv
    pending := pending
    received := c.received ++ recv.bytes.drop c.recv.bytes.length }

/-- What the buffer holds when a drain of the socket ends. -/
def drained (c : WebConn) (turns : List Turn) : Bytes :=
  (readIntoRecv turns c.recv c.pending).1.bytes

def porticoHttpEvent (srv : WebServer) (turns : List Turn) (script : List Env) (c : WebConn) :
    WebConn × Bool :=
  if c.closeWhenDrained then (c, true)
  else match readIntoRecv turns c.recv c.pending with
    | (recv, pending, false) => (c.afterRead recv pending, false)
    | (recv, pending, true) =>
      let c := c.afterRead recv pending
      if c.asyncInflight then (c, true) else c.processHttpBuffer srv script

/-- The upgrade branch of `portico_initial_dispatch`. -/
def upgrade (e : Env) (c : WebConn) (headersLen : Nat) : WebConn × Bool :=
  if !e.allocOk then (c, false)
  else match e.handshake (cString (c.recv.bytes.take headersLen)) with
    | (reply, false) => ({ c with out := { c.out with wire := c.out.wire ++ reply } }, false)
    | (reply, true) =>
      ({ c with
         out := { c.out with wire := c.out.wire ++ reply, state := .open }
         recv := { c.recv with bytes := c.recv.bytes.drop headersLen } },
        true)

def porticoInitialDispatch (srv : WebServer) (turns : List Turn) (script : List Env)
    (c : WebConn) : WebConn × Bool :=
  match readIntoRecv turns c.recv c.pending with
  | (recv, pending, false) => (c.afterRead recv pending, false)
  | (recv, pending, true) =>
    let c := c.afterRead recv pending
    let e := script.headD .quiet
    match findTerm c.recv.bytes with
    | none =>
      if maxHeaderSize < c.recv.bytes.length then c.httpRefuse e 431 else (c, true)
    | some term =>
      let headersLen := term + 4
      if ciContains (c.recv.bytes.take headersLen) (ascii "sec-websocket-key") then
        c.upgrade e headersLen
      else match srv.handle with
        | none => c.httpRefuse e 501
        | some _ => { c with out := { c.out with state := .http } }.processHttpBuffer srv script

def handleTlsHandshake (srv : WebServer) (tls : TlsStep) (turns : List Turn) (script : List Env)
    (c : WebConn) : WebConn × Bool :=
  match tls with
  | .done =>
    { c with out := { c.out with state := .connecting } }.porticoInitialDispatch srv turns script
  | .wants => (c, true)
  | .failed => (c, false)

/-- Frames of an open connection are not handled here. -/
def handleConnectionRead (srv : WebServer) (tls : TlsStep) (turns : List Turn)
    (script : List Env) (c : WebConn) : Option (WebConn × Bool) :=
  match c.out.state with
  | .tlsHandshake => some (c.handleTlsHandshake srv tls turns script)
  | .connecting => some (c.porticoInitialDispatch srv turns script)
  | .open => none
  | .http => some (c.porticoHttpEvent srv turns script)
  | .closing => some (c, false)
  | .closed => some (c, false)

def porticoConnOnWritable (srv : WebServer) (answers : List WriteAnswer) (script : List Env)
    (c : WebConn) : WebConn × Bool :=
  match connOutDrain answers c.out with
  | (out, false) => ({ c with out := out }, false)
  | (out, true) =>
    let c := { c with out := out }
    if out.out.backlog then (c, true)
    else match c.stream with
      | some _ => c.streamAdvance srv script
      | none => (c, !c.closeWhenDrained)

def fileReadComplete (srv : WebServer) (ctx : FileCtx) (read : Option Bytes) (script : List Env)
    (c : WebConn) : WebConn :=
  let c := { c with asyncInflight := false, file := none }
  match c.fileEmit (script.headD .quiet) ctx (read.map (·.take ctx.size)) with
  | (c, true) => settle (c.leave true false)
  | (c, false) => settle (c.goOn srv script.tail true .serve)

def streamChunkComplete (srv : WebServer) (s : StreamCtx) (read : Option Bytes)
    (script : List Env) (c : WebConn) : WebConn :=
  let s := { s with reading := false }
  let c := { c with stream := some s }
  match c.streamSend (script.headD .quiet) s (read.map (·.take s.want)) with
  | (c, none) =>
    match c.streamFail s with
    | (c, ok) => settle (c.leave true ok)
  | (c, some s) =>
    if s.finish ≤ s.offset then
      match c.streamFinish s with
      | (c, next) => settle (c.goOn srv script.tail true next)
    else settle (c.goOn srv script.tail true .pump)

end WebConn

/-- What happens to the connection: readiness of its socket, the completion of a file read, or
    EPOLLHUP and what else closes it. -/
inductive WebEvent where
  | readable (tls : TlsStep) (turns : List Turn) (script : List Env)
  | writable (tls : TlsStep) (answers : List WriteAnswer) (turns : List Turn) (script : List Env)
  | fileDone (read : Option Bytes) (script : List Env)
  | chunkDone (read : Option Bytes) (script : List Env)
  | hangup

open WebConn in
def webStep (srv : WebServer) (c : WebConn) (ev : WebEvent) : Option WebConn :=
  if c.out.closed then none
  else match ev with
    | .readable tls turns script => (c.handleConnectionRead srv tls turns script).map settle
    | .writable tls answers turns script =>
      if c.out.state = .tlsHandshake then
        some (settle (c.handleTlsHandshake srv tls turns script))
      else some (settle (c.porticoConnOnWritable srv answers script))
    | .fileDone read script =>
      match c.file with
      | none => none
      | some ctx => some (c.fileReadComplete srv ctx read script)
    | .chunkDone read script =>
      match c.stream with
      | none => none
      | some s => if s.reading then some (c.streamChunkComplete srv s read script) else none
    | .hangup => some c.close

/-! ## Small instances -/

/-- The socket takes everything. -/
def Env.taking : Env := { Env.quiet with writes := fun b => [.takes b.length] }

/-- A server that answers every path with that path, and `/f` with a file of three bytes. -/
def pathServer (aio : Bool) : WebServer :=
  { phr := phrParseRequest
    phr_local := phrParseRequest_local
    handle := some fun _ req =>
      (0, if req.path = ascii "/f" then { Reply.empty with isFile := true, fileSize := 3 }
        else { Reply.empty with body := req.path })
    clientIp := ⟨false, fun _ => false, []⟩
    aio := aio }

end Portico.Http
