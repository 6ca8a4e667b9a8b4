/-
  The upgrade handshake of src/ws/ws_handshake.c: finding header values in the request text,
  checking the headers an upgrade needs, and the 101 or error reply.

  Model. A request is the C string the source passes around: its bytes up to the first NUL.
  `wsProcessHandshake` works on the connection state of the frame handlers, whose `write`
  records the reply and says whether the socket took it whole. Two things come from outside and
  are fields of `HandshakeEnv`: the accept key of a client key (SHA-1 and base64), and the
  application's `on_handshake`. Left out: the failure of the small allocations made while
  reading headers, and the `Host` header kept for the message callbacks.
-/
import Portico.Ws.Message

namespace Portico.Ws

/-- The bytes of a literal of the source. -/
def ascii (s : String) : Bytes := s.toUTF8.data.toList

/-- A C string inside a byte buffer. -/
def cString (bs : Bytes) : Bytes := bs.takeWhile (· != 0)

def toLower (b : UInt8) : UInt8 := if 65 ≤ b && b ≤ 90 then b + 32 else b

/-- `strncasecmp(hay, needle, strlen(needle)) == 0`. -/
def startsWithCi : Bytes → Bytes → Bool
  | [], _ => true
  | _ :: _, [] => false
  | n :: needle, h :: hay => toLower n == toLower h && startsWithCi needle hay

/-- `strcasecmp`. -/
def equalsCi (a b : Bytes) : Bool := a.map toLower == b.map toLower

theorem equalsCi_iff {a b : Bytes} : equalsCi a b = true ↔ a.map toLower = b.map toLower := by
  simp [equalsCi]

theorem toLower_star : ∀ b : UInt8, toLower b = 42 → b = 42 := by decide +kernel

theorem toLower_dot : ∀ b : UInt8, toLower b = 46 → b = 46 := by decide +kernel

/-- A text that equals a wildcard is one with the same start. -/
theorem equalsCi_wildcard {s host : Bytes} (h : equalsCi (42 :: 46 :: s) host = true) :
    ∃ rest, host = 42 :: 46 :: rest ∧ equalsCi s rest = true := by
  rw [equalsCi_iff] at h
  match host, h with
  | [], h => cases h
  | [_], h => exact absurd h (by simp)
  | a :: b :: rest, h =>
    simp only [List.map_cons, List.cons.injEq] at h
    obtain ⟨ha, hb, hrest⟩ := h
    obtain rfl := toLower_star a ha.symm
    obtain rfl := toLower_dot b hb.symm
    exact ⟨rest, rfl, equalsCi_iff.mpr hrest⟩

def isBlank (b : UInt8) : Bool := b == 32 || b == 9

/-- C's `isspace`. -/
def isSpace (b : UInt8) : Bool := b == 32 || (9 ≤ b && b ≤ 13)

/-- The text in front of the first CRLF, or all of it. -/
def untilCrlf : Bytes → Bytes
  | [] => []
  | [b] => [b]
  | b :: c :: rest => if b = 13 && c = 10 then [] else b :: untilCrlf (c :: rest)

def trimEndBy (p : UInt8 → Bool) (bs : Bytes) : Bytes := (bs.reverse.dropWhile p).reverse

/-- The text behind the colon of the first line that starts with `name`. `lineStart` says
    whether the text begins a line; `prev` is the byte before it. -/
def scanHeader (name : Bytes) : Bool → UInt8 → Bytes → Option Bytes
  | _, _, [] => none
  | lineStart, prev, b :: bs =>
    let here := if lineStart && startsWithCi name (b :: bs) then
        match ((b :: bs).drop name.length).dropWhile isBlank with
        | c :: rest => if c = 58 then some rest else none
        | [] => none
      else none
    match here with
    | some rest => some rest
    | none => scanHeader name (prev == 13 && b == 10) b bs

def findHeaderValue (headers name : Bytes) : Option Bytes :=
  (scanHeader name true 0 headers).map fun rest =>
    trimEndBy isBlank (untilCrlf (rest.dropWhile isBlank))

/-- Whether one of the space- or comma-separated tokens of `str` is `token`. -/
def wsStringContainsToken (str token : Bytes) : Bool :=
  (((str.splitOnP fun b => isBlank b || b == 44).filter (· ≠ [])).map fun t =>
    trimEndBy isSpace (t.dropWhile isSpace)).any (equalsCi · token)

def validateWebsocketHeaders (headers : Bytes) : Bool :=
  match findHeaderValue headers (ascii "Upgrade"), findHeaderValue headers (ascii "Connection"),
    findHeaderValue headers (ascii "Sec-WebSocket-Version") with
  | some upgrade, some connection, some version =>
    wsStringContainsToken upgrade (ascii "websocket") &&
      wsStringContainsToken connection (ascii "upgrade") && version == ascii "13"
  | _, _, _ => false

/-- `ws_handshake_info_t` of a request that was accepted. -/
structure HandshakeInfo where
  path : Bytes
  secWebsocketKey : Bytes
  secWebsocketProtocol : Bytes
  origin : Bytes
  deriving DecidableEq, Repr

/-- The info of an acceptable request, or the HTTP error code. -/
def wsParseHandshakeRequest (request : Bytes) : Except Nat HandshakeInfo :=
  if request.take 4 ≠ ascii "GET " then .error 405
  else
    let fromPath := request.drop 4
    let path := fromPath.takeWhile (· != 32)
    if path.length = fromPath.length then .error 400
    else if 256 ≤ path.length then .error 414
    else if !validateWebsocketHeaders request then .error 400
    else match findHeaderValue request (ascii "Sec-WebSocket-Key") with
      | none => .error 400
      | some key => .ok
        { path := path, secWebsocketKey := key.take 31
          secWebsocketProtocol :=
            ((findHeaderValue request (ascii "Sec-WebSocket-Protocol")).getD []).take 255
          origin := ((findHeaderValue request (ascii "Origin")).getD []).take 255 }

/-- What the handshake takes from outside: the accept key, and the application's verdict (it
    may be absent, refuse with `none`, or choose a subprotocol). -/
structure HandshakeEnv where
  generateAcceptKey : Bytes → Option Bytes
  onHandshake : Option (HandshakeInfo → Option (Option Bytes))

def crlf : Bytes := [13, 10]

/-- The 101 response, if it fits the source's 1024-byte buffer. -/
def wsCreateHandshakeResponse (env : HandshakeEnv) (info : HandshakeInfo)
    (selectedProtocol : Option Bytes) : Option Bytes :=
  match env.generateAcceptKey info.secWebsocketKey with
  | none => none
  | some acceptKey =>
    let head := ascii "HTTP/1.1 101 Switching Protocols\r\nUpgrade: websocket\r\n" ++
      ascii "Connection: Upgrade\r\nSec-WebSocket-Accept: " ++ acceptKey ++ crlf
    let protocol := match selectedProtocol with
      | some p => if p = [] then [] else ascii "Sec-WebSocket-Protocol: " ++ p ++ crlf
      | none => []
    if 1024 ≤ head.length then none
    else if protocol ≠ [] && 1024 - head.length ≤ protocol.length then none
    else if 1024 ≤ head.length + protocol.length + 2 then none
    else some (head ++ protocol ++ crlf)

def httpStatusText : Nat → Nat × String
  | 400 => (400, "Bad Request")
  | 403 => (403, "Forbidden")
  | 405 => (405, "Method Not Allowed")
  | 414 => (414, "URI Too Long")
  | 426 => (426, "Upgrade Required")
  | 500 => (500, "Internal Server Error")
  | _ => (400, "Bad Request")

/-- The decimal digits `snprintf` writes for a number. -/
def decimal (n : Nat) : Bytes := (Nat.toDigits 10 n).map fun c => UInt8.ofNat c.toNat

def wsSendHandshakeError (c : MsgConn) (errorCode : Nat) (message : Option String) :
    Bool × MsgConn :=
  let (code, text) := httpStatusText errorCode
  let body := ascii (message.getD text)
  c.write (ascii "HTTP/1.1 " ++ decimal code ++ [32] ++ ascii text ++
    ascii "\r\nContent-Type: text/plain\r\nContent-Length: " ++ decimal body.length ++
    ascii "\r\nConnection: close\r\n\r\n" ++ body)

/-- The connection after the handshake, and whether it was accepted. -/
def wsProcessHandshake (env : HandshakeEnv) (c : MsgConn) (request : Bytes) : MsgConn × Bool :=
  match wsParseHandshakeRequest request with
  | .error code => ((wsSendHandshakeError c code none).2, false)
  | .ok info =>
    match env.onHandshake.map (· info) with
    | some none => ((wsSendHandshakeError c 403 (some "Forbidden")).2, false)
    | verdict =>
      match wsCreateHandshakeResponse env info (verdict.join.join) with
      | none => ((wsSendHandshakeError c 500 (some "Internal Server Error")).2, false)
      | some response =>
        let (whole, c) := c.write response
        (c, whole)

end Portico.Ws
