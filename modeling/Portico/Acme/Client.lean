/-
  The session with an ACME server (src/acme/acme_client.c).

  Model. A `Client` is the session together with its surroundings: the replies the server is
  going to give, one for each request in the order they are sent (`none`, and every request
  after the last reply, is a transport failure), the outcomes of the signatures, and the
  requests sent so far with their replies (`trace`). A signed request stands in the trace with
  what its JWS is made of; `portico_acme_jws` fails rather than cut any of it. Messages on stderr
  and the two seconds between two polls are left out.
-/
import Mathlib.Data.List.Infix
import Portico.Acme.Documents
import Portico.Lib.Fallible

namespace Portico.Acme

open Portico.Lib Portico.Ws

/-- A completed exchange. The headers are the values the server sent, empty if there is none. -/
structure HttpReply where
  status : Int
  body : Option Bytes
  replayNonce : Bytes
  location : Bytes
  deriving DecidableEq, Repr

namespace HttpReply

/-- `resp->nonce`. -/
def nonce (r : HttpReply) : Bytes := fit 256 r.replayNonce

/-- `resp->location`. -/
def locationField (r : HttpReply) : Bytes := fit 2048 r.location

/-- The body as the C string it is read as. -/
def text (r : HttpReply) : Option Bytes := r.body.map cString

def badNonce (r : HttpReply) : Prop :=
  r.status = 400 ∧ ∃ b ∈ r.text, ascii "badNonce" <:+: b

instance (r : HttpReply) : Decidable r.badNonce :=
  inferInstanceAs (Decidable (_ ∧ ∃ b ∈ r.text, _))

end HttpReply

structure Session where
  dirUrl : Bytes
  newNonce : Bytes
  newAccount : Bytes
  newOrder : Bytes
  nonce : Bytes
  kid : Bytes
  deriving DecidableEq, Repr

def porticoAcmeSessionNew (directoryUrl : Bytes) : Session :=
  ⟨fit 1024 directoryUrl, [], [], [], [], []⟩

inductive Exchange where
  | get (url : Bytes) (reply : Option HttpReply)
  | head (url : Bytes) (reply : Option HttpReply)
  | post (url : Bytes) (kid : Option Bytes) (nonce payload : Bytes) (reply : Option HttpReply)
  deriving DecidableEq, Repr

structure Client where
  session : Session
  replies : List (Option HttpReply)
  signatures : List Bool
  trace : List Exchange
  deriving DecidableEq, Repr

abbrev Call := Fallible Client

def porticoHttpsRequest (exchange : Option HttpReply → Exchange) : Call HttpReply := fun c =>
  let reply := c.replies.head?.join
  ({ c with replies := c.replies.tail, trace := c.trace ++ [exchange reply] }, reply)

/-- `portico_acme_jws`, as far as it succeeds. -/
def porticoAcmeJws : Call Unit := fun c =>
  ({ c with signatures := c.signatures.tail },
    if c.signatures.headD true then some () else none)

def session : Call Session := Fallible.read Client.session

def setSession (f : Session → Session) : Call Unit :=
  Fallible.modify fun c => { c with session := f c.session }

def setNonce (n : Bytes) : Call Unit := setSession fun s => { s with nonce := fit 256 n }

def getNonce : Call Unit := do
  let s ← session
  Fallible.require (s.newNonce ≠ [])
  let r ← porticoHttpsRequest (.head s.newNonce)
  Fallible.require (r.nonce ≠ [])
  setNonce r.nonce

/-- `if (!s->nonce[0]) get_nonce(s)`. -/
def ensureNonce : Call Unit := do
  let s ← session
  if s.nonce = [] then getNonce else pure ()

/-- `if (resp->nonce[0]) snprintf(s->nonce, ...)`. -/
def keepNonce (r : HttpReply) : Call Unit :=
  if r.nonce = [] then pure () else setNonce r.nonce

/-- One round of the loop in `acme_post`. -/
def acmePostRound (url payload : Bytes) : Call HttpReply := do
  ensureNonce
  let s ← session
  porticoAcmeJws
  -- the nonce is given up before the request that carries it is sent
  setNonce []
  let r ← porticoHttpsRequest (.post url (if s.kid = [] then none else some s.kid) s.nonce payload)
  keepNonce r
  pure r

def acmePost (url payload : Bytes) : Call HttpReply := do
  let r ← acmePostRound url payload
  if r.badNonce then acmePostRound url payload else pure r

section

variable (parse : Bytes → Option Document)

def accountPayload (email : Option Bytes) : Bytes :=
  match email with
  | some (b :: bs) =>
    fit 512 (ascii "\x7b\"termsOfServiceAgreed\":true,\"contact\":[\"mailto:" ++ (b :: bs) ++
      ascii "\"]\x7d")
  | _ => ascii "\x7b\"termsOfServiceAgreed\":true\x7d"

def porticoAcmeConnect (email : Option Bytes) : Call Unit := do
  let s ← session
  let r ← porticoHttpsRequest (.get s.dirUrl)
  Fallible.require (r.status = 200)
  let body ← Fallible.ofOption r.text
  let dir ← Fallible.ofOption (acmeParseDirectory parse body 1024)
  setSession fun s =>
    { s with newNonce := dir.newNonce, newAccount := dir.newAccount, newOrder := dir.newOrder }
  let r ← acmePost dir.newAccount (accountPayload email)
  Fallible.require ((r.status = 200 ∨ r.status = 201) ∧ r.locationField ≠ [])
  setSession fun s => { s with kid := fit 2048 r.locationField }

/-- `snprintf` behind what a buffer already holds; `none` if it does not fit. -/
def append (cap : Nat) (buf s : Bytes) : Option Bytes :=
  if s.length < cap - buf.length then some (buf ++ s) else none

/-- The loop over the domains; `first` is `i == 0`. -/
def identifiersLoop (first : Bool) (ids : Bytes) : List Bytes → Option Bytes
  | [] => append 4096 ids (ascii "]\x7d")
  | d :: ds =>
    (append 4096 ids ((if first then [] else ascii ",") ++
      ascii "\x7b\"type\":\"dns\",\"value\":\"" ++ d ++ ascii "\"\x7d")).bind
        fun ids => identifiersLoop false ids ds

/-- The order URL and the order. -/
def porticoAcmeOrder (domains : List Bytes) (ocap fcap maxAuthz : Nat) : Call (Bytes × Order) := do
  Fallible.require (domains ≠ [])
  let ids ← Fallible.ofOption (identifiersLoop true (ascii "\x7b\"identifiers\":[") domains)
  let s ← session
  let r ← acmePost s.newOrder ids
  Fallible.require (r.status = 201)
  let body ← Fallible.ofOption r.text
  let order ← Fallible.ofOption (acmeParseOrder parse body 32 fcap 1024 maxAuthz)
  pure (fit ocap r.locationField, order)

def porticoAcmeHttp01 (authzUrl : Bytes) (sc tc uc : Nat) : Call Authz := do
  let r ← acmePost authzUrl []
  Fallible.require (r.status = 200)
  let body ← Fallible.ofOption r.text
  Fallible.ofOption (acmeParseAuthz parse body sc tc uc)

def challengeReady (chalUrl : Bytes) : Call Unit := do
  let r ← acmePost chalUrl (ascii "\x7b\x7d")
  Fallible.require (r.status = 200 ∨ r.status = 202)

/-- `st` after one reply of a poll. -/
def polledStatus (r : HttpReply) : Bytes :=
  if r.status = 200 then (r.text.bind fun b => jsonStatus parse b 32).getD [] else []

def terminal (st : Bytes) : Bool :=
  (["invalid", "deactivated", "revoked", "expired"].map ascii).contains st

/-- One round of the loop in `poll_status`: the body once the status is reached. -/
def pollRound (url want : Bytes) : Call (Option (Option Bytes)) := do
  let r ← acmePost url []
  Fallible.require (polledStatus parse r = want ∨ ¬terminal (polledStatus parse r))
  pure (if polledStatus parse r = want then some r.body else none)

/-- The loop, with the number of waits that are left. -/
def pollLoop (url want : Bytes) : Nat → Call (Option Bytes)
  | 0 => do
    let reached ← pollRound parse url want
    Fallible.ofOption reached
  | waits + 1 => do
    let reached ← pollRound parse url want
    reached.elim (pollLoop url want waits) pure

/-- The loop gives up when `waited`, which grows by 2, has reached `max_secs`. -/
def pollStatus (url want : Bytes) (maxSecs : Nat) : Call (Option Bytes) :=
  pollLoop parse url want ((maxSecs + 1) / 2)

end

def doFinalize (finalizeUrl csr : Bytes) : Call Unit := do
  let payload ← Fallible.ofOption (append 8192 [] (ascii "\x7b\"csr\":\"" ++ csr ++ ascii "\"\x7d"))
  let r ← acmePost finalizeUrl payload
  Fallible.require (r.status = 200)

def downloadCert (certUrl : Bytes) : Call Bytes := do
  let r ← acmePost certUrl []
  Fallible.require (r.status = 200)
  let body ← Fallible.ofOption r.body
  Fallible.require (body ≠ [])
  pure body

/-- A call on a session. -/
inductive SessionCall where
  | connect (email : Option Bytes)
  | order (domains : List Bytes) (ocap fcap maxAuthz : Nat)
  | http01 (authzUrl : Bytes) (sc tc uc : Nat)
  | challengeReady (chalUrl : Bytes)
  | pollStatus (url want : Bytes) (maxSecs : Nat)
  | finalize (finalizeUrl csr : Bytes)
  | downloadCert (certUrl : Bytes)
  | post (url payload : Bytes)

def SessionCall.run (parse : Bytes → Option Document) (c : Client) : SessionCall → Client
  | .connect email => (porticoAcmeConnect parse email c).1
  | .order domains ocap fcap maxAuthz => (porticoAcmeOrder parse domains ocap fcap maxAuthz c).1
  | .http01 authzUrl sc tc uc => (porticoAcmeHttp01 parse authzUrl sc tc uc c).1
  | .challengeReady chalUrl => (Acme.challengeReady chalUrl c).1
  | .pollStatus url want maxSecs => (Acme.pollStatus parse url want maxSecs c).1
  | .finalize finalizeUrl csr => (doFinalize finalizeUrl csr c).1
  | .downloadCert certUrl => (Acme.downloadCert certUrl c).1
  | .post url payload => (acmePost url payload c).1

/-- A session that has not sent anything yet. -/
def startSession (directoryUrl : Bytes) (replies : List (Option HttpReply))
    (signatures : List Bool) : Client :=
  ⟨porticoAcmeSessionNew directoryUrl, replies, signatures, []⟩

/-- Calls made one after the other, whatever each of them returns. -/
def runSession (parse : Bytes → Option Document) (calls : List SessionCall) (c : Client) :
    Client :=
  calls.foldl (SessionCall.run parse) c

end Portico.Acme
