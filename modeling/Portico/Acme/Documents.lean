/-
  The documents of an ACME server, as src/acme/acme_client.c reads them, and the key
  authorization.

  Model. `cJSON_Parse` is a parameter: what it makes of a text is a `Json` or nothing. Strings
  are C strings. A copy into a buffer of a given size cuts what does not fit (`fit`). A buffer
  that a parser leaves alone is a part of the result that is missing.
-/
import Portico.Lib.Json
import Portico.Ws.Handshake

namespace Portico.Acme

open Portico.Lib Portico.Ws

/-- `snprintf(buf, cap, "%s", s)`. -/
def fit (cap : Nat) (s : Bytes) : Bytes := s.take (cap - 1)

variable {cap : Nat}

theorem fit_length (hcap : 0 < cap) (s : Bytes) : (fit cap s).length < cap := by
  rw [fit, List.length_take]
  omega

variable {s : Bytes}

theorem fit_of_short (h : s.length < cap) : fit cap s = s :=
  List.take_of_length_le (by omega)

theorem fit_ne_nil (hcap : 2 ≤ cap) (h : s ≠ []) : fit cap s ≠ [] := by
  intro hfit
  cases List.take_eq_nil_iff.mp hfit with
  | inl => omega
  | inr hs => exact h hs

abbrev Document := Json Bytes

def jstr (key : String) (o : Document) : Option Bytes := o.getString? (ascii key)

structure Directory where
  newNonce : Bytes
  newAccount : Bytes
  newOrder : Bytes
  deriving DecidableEq, Repr

def acmeParseDirectory (parse : Bytes → Option Document) (json : Bytes) (cap : Nat) :
    Option Directory :=
  match parse json with
  | none => none
  | some j =>
    match jstr "newNonce" j, jstr "newAccount" j, jstr "newOrder" j with
    | some a, some b, some c => some ⟨fit cap a, fit cap b, fit cap c⟩
    | _, _, _ => none

structure Order where
  status : Bytes
  finalize : Bytes
  certificate : Bytes
  authz : List Bytes
  deriving DecidableEq, Repr

/-- The three capacities are those of the buffers for status, finalize and certificate URL. -/
def acmeParseOrder (parse : Bytes → Option Document) (json : Bytes) (sc fc cc maxAuthz : Nat) :
    Option Order :=
  match parse json with
  | none => none
  | some j =>
    match jstr "status" j with
    | none => none
    | some st =>
      let auths := (j.get? (ascii "authorizations")).elim [] Json.children
      some
        { status := fit sc st
          finalize := (jstr "finalize" j).elim [] (fit fc)
          certificate := (jstr "certificate" j).elim [] (fit cc)
          authz := ((auths.filterMap Json.string?).take maxAuthz).map (fit 512) }

/-- The http-01 challenge of an authorization: its token and URL as the server wrote them. -/
def http01Challenge (j : Document) : Option (Bytes × Bytes) :=
  let chs := (j.get? (ascii "challenges")).elim [] Json.children
  match chs.find? fun c => jstr "type" c == some (ascii "http-01") with
  | none => none
  | some c =>
    match jstr "token" c, jstr "url" c with
    | some tok, some url => some (tok, url)
    | _, _ => none

/-- `challenge` is the token as the server wrote it; the code keeps `token` only. -/
structure Authz where
  status : Bytes
  token : Bytes
  chalUrl : Bytes
  challenge : Bytes
  deriving DecidableEq, Repr

def acmeParseAuthz (parse : Bytes → Option Document) (json : Bytes) (sc tc uc : Nat) :
    Option Authz :=
  match parse json with
  | none => none
  | some j =>
    match jstr "status" j, http01Challenge j with
    | some st, some (tok, url) => some ⟨fit sc st, fit tc tok, fit uc url, tok⟩
    | _, _ => none

def jsonStatus (parse : Bytes → Option Document) (json : Bytes) (cap : Nat) : Option Bytes :=
  ((parse json).bind (jstr "status")).map (fit cap)

/-- The account key, as far as a challenge needs it: its thumbprint, `none` if it cannot be
    computed; it is written to a buffer of 128 bytes. -/
structure AccountKey where
  thumbprint : Option Bytes
  fits : ∀ tp ∈ thumbprint, tp.length < 128

def porticoAcmeKeyAuthz (k : AccountKey) (token : Bytes) (cap : Nat) : Option Bytes :=
  match k.thumbprint with
  | none => none
  | some tp =>
    let out := token ++ ascii "." ++ tp
    if out.length < cap then some out else none

end Portico.Acme
