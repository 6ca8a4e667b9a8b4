/-
  Responses: the builders and serializers of src/http/response.c, and the handler of
  src/config/portico_router.c.

  Model. `struct portico_response` is opaque to handlers, and no builder writes `keep_alive`, so
  what a handler leaves behind is a `Reply`, and the flag is an argument of the serializer.
  Names and values are C strings. A header block that does not fit the serializer's buffer, or
  the lack of memory for the result, is the result `none`. Left out: `portico_res_json`, and the
  descriptor of a file that is to be served.
-/
import Portico.Http.Request

namespace Portico.Http

open Portico.Ws

/-- `struct portico_response` as a handler fills it. -/
structure Reply where
  status : Int
  headers : Bytes
  body : Bytes
  contentTypeSet : Bool
  isFile : Bool
  fileOffset : Nat
  fileSize : Nat
  headOnly : Bool
  deriving DecidableEq, Repr

/-- The response before the handler is called. -/
def Reply.empty : Reply :=
  { status := 0, headers := [], body := [], contentTypeSet := false, isFile := false
    fileOffset := 0, fileSize := 0, headOnly := false }

/-- `PORTICO_RES_HEADERS_CAP`. -/
def resHeadersCap : Nat := 4096

/-- A line that does not fit is left out. -/
def porticoResHeader (res : Reply) (name value : Bytes) : Reply :=
  let line := name ++ ascii ": " ++ value ++ crlf
  { res with
    headers := if line.length < resHeadersCap - res.headers.length then res.headers ++ line
      else res.headers
    contentTypeSet := res.contentTypeSet || equalsCi name (ascii "Content-Type") }

def porticoResBody (allocOk : Bool) (res : Reply) (data : Bytes) (contentType : Option Bytes) :
    Reply :=
  if !allocOk then { res with body := [] }
  else
    let res := { res with body := data }
    match contentType with
    | none => res
    | some value =>
      if res.contentTypeSet then res else porticoResHeader res (ascii "Content-Type") value

def porticoResText (allocOk : Bool) (res : Reply) (status : Int) (text : Bytes) : Reply :=
  porticoResBody allocOk { res with status := status } text
    (some (ascii "text/plain; charset=utf-8"))

def porticoHttpReason : Int → Bytes
  | 200 => ascii "OK"
  | 201 => ascii "Created"
  | 204 => ascii "No Content"
  | 206 => ascii "Partial Content"
  | 301 => ascii "Moved Permanently"
  | 304 => ascii "Not Modified"
  | 400 => ascii "Bad Request"
  | 401 => ascii "Unauthorized"
  | 403 => ascii "Forbidden"
  | 404 => ascii "Not Found"
  | 405 => ascii "Method Not Allowed"
  | 409 => ascii "Conflict"
  | 413 => ascii "Payload Too Large"
  | 414 => ascii "URI Too Long"
  | 416 => ascii "Range Not Satisfiable"
  | 431 => ascii "Request Header Fields Too Large"
  | 500 => ascii "Internal Server Error"
  | 501 => ascii "Not Implemented"
  | _ => ascii "OK"

/-- `%d`. -/
def decimalInt (n : Int) : Bytes := if n < 0 then 45 :: decimal n.natAbs else decimal n.natAbs

/-- The header block that every response starts with; `lines` are the handler's. -/
def responseHead (status : Int) (lines : Bytes) (contentLength : Nat) (keepAlive : Bool) : Bytes :=
  ascii "HTTP/1.1 " ++ decimalInt status ++ ascii " " ++ porticoHttpReason status ++ crlf ++
    lines ++ ascii "Content-Length: " ++ decimal contentLength ++ crlf ++ ascii "Connection: " ++
    (if keepAlive then ascii "keep-alive" else ascii "close") ++ crlf ++ crlf

/-- A status that was not set is 200. -/
def Reply.statusCode (res : Reply) : Int := if res.status = 0 then 200 else res.status

/-- The header block of a response that is built in memory. -/
def Reply.head (res : Reply) (keepAlive : Bool) : Bytes :=
  responseHead res.statusCode res.headers (if res.headOnly then res.fileSize else res.body.length)
    keepAlive

/-- The bytes that follow it. -/
def Reply.payload (res : Reply) : Bytes := if res.headOnly then [] else res.body

/-- `sizeof head`, also in `stream_start`. -/
def headCap : Nat := resHeadersCap + 256

def porticoHttpBuildResponse (allocOk : Bool) (res : Reply) (keepAlive : Bool) : Option Bytes :=
  if headCap ≤ (res.head keepAlive).length then none
  else if !allocOk then none
  else some (res.head keepAlive ++ res.payload)

def porticoHttpBuildStatus (allocOk : Bool) (status : Int) (keepAlive : Bool) : Option Bytes :=
  if 160 ≤ (responseHead status [] 0 keepAlive).length then none
  else if !allocOk then none
  else some (responseHead status [] 0 keepAlive)

/-- `portico_router_handle` over the installed table of sites; `resVhost` is the
    `portico_res_vhost` it ends in, whose result it does not look at. -/
def porticoRouterHandle {V : Type} (resVhost : Request → List V → Reply) (allocOk : Bool)
    (table : Option (List V)) (req : Request) : Int × Reply :=
  match table with
  | none => (0, porticoResText allocOk .empty 503 (ascii "no sites configured\n"))
  | some [] => (0, porticoResText allocOk .empty 503 (ascii "no sites configured\n"))
  | some (v :: vs) => (0, resVhost req (v :: vs))

/-- Every response is its header block, which ends with an empty line, and its payload. -/
theorem porticoHttpBuildResponse_eq {allocOk keepAlive : Bool} {res : Reply} {resp : Bytes}
    (h : porticoHttpBuildResponse allocOk res keepAlive = some resp) :
    resp = res.head keepAlive ++ res.payload := by
  unfold porticoHttpBuildResponse at h
  split at h
  · cases h
  split at h
  · cases h
  · cases h; rfl

theorem porticoHttpBuildStatus_eq {allocOk keepAlive : Bool} {status : Int} {b : Bytes}
    (h : porticoHttpBuildStatus allocOk status keepAlive = some b) :
    b = responseHead status [] 0 keepAlive := by
  unfold porticoHttpBuildStatus at h
  split at h
  · cases h
  split at h
  · cases h
  · cases h; rfl

end Portico.Http
