/-
  Parsing a request: src/http/request.c, with `resolve_client_ip` of src/http/connection.c.

  Model. `portico_http_parse` runs on the whole receive buffer; its header parser is a parameter
  (`phrParseRequest` is the one the server has). `resolve_body_framing` accumulates a `long`; a
  sum that a `long` cannot hold is an outcome of its own here (`FramingError.overflow`). The
  position a request ends at is not cut to `int`, it is at most the buffer's length. What makes
  an address (`inet_pton`) is a parameter of the client address.

  Proved: `request_framing`, the body length is the one every `Content-Length` element states,
  the first header that spoils this decides the error, no sum overflows, and a complete request
  has exactly that many bytes of body inside the buffer.
-/
import Mathlib.Data.List.Induction
import Mathlib.Data.Nat.Digits.Defs
import Portico.Http.Pico

namespace Portico.Http

open Portico.Lib Portico.Ws List

/-- `portico_request_t`. -/
structure Request where
  method : Bytes
  path : Bytes
  query : Option Bytes
  minorVersion : Nat
  headers : List Header
  body : Bytes
  keepAlive : Bool
  clientIp : Bytes
  deriving DecidableEq, Repr

def porticoReqMethodIs (req : Request) (m : Bytes) : Bool := req.method == m

/-- The value of the first header of that name. -/
def porticoReqHeader (headers : List Header) (name : Bytes) : Option Bytes :=
  (headers.find? fun h => equalsCi h.name name).map Header.value

/-! ## Body framing -/

/-- `LONG_MAX`. -/
def longMax : Nat := 2 ^ 63 - 1

/-- Why there is no body length: -1, -3, or a `long` that would have overflowed. -/
inductive FramingError where
  | malformed
  | unsupported
  | overflow
  deriving DecidableEq, Repr

/-- The loop over the digits of an element. -/
def digitsLoop : Nat → Bytes → Except FramingError Nat
  | val, [] => .ok val
  | val, b :: bs =>
    if b < 48 || 57 < b then .error .malformed
    else
      let digit := b.toNat - 48
      if (longMax - digit) / 10 < val then .error .malformed
      else if longMax < val * 10 + digit then .error .overflow
      else digitsLoop (val * 10 + digit) bs

/-- The length of one element; `agreed` is what the elements before it said. -/
def checkElement (agreed : Option Nat) (element : Bytes) : Except FramingError (Option Nat) :=
  let digits := trimEndBy isBlank (element.dropWhile isBlank)
  if digits = [] then .error .malformed
  else match digitsLoop 0 digits with
    | .error e => .error e
    | .ok val =>
      match agreed with
      | none => .ok (some val)
      | some n => if val = n then .ok (some val) else .error .malformed

/-- The loop over a header's value; `element` is what has been seen since the last comma. -/
def scanValue (agreed : Option Nat) (element : Bytes) : Bytes → Except FramingError (Option Nat)
  | [] => checkElement agreed element
  | b :: bs =>
    if b = 44 then
      match checkElement agreed element with
      | .error e => .error e
      | .ok agreed => scanValue agreed [] bs
    else scanValue agreed (element ++ [b]) bs

def isTransferEncoding (h : Header) : Bool := equalsCi h.name (ascii "Transfer-Encoding")
def isContentLength (h : Header) : Bool := equalsCi h.name (ascii "Content-Length")

def framingLoop (agreed : Option Nat) : List Header → Except FramingError (Option Nat)
  | [] => .ok agreed
  | h :: hs =>
    if isTransferEncoding h then .error .unsupported
    else if !isContentLength h then framingLoop agreed hs
    else match scanValue agreed [] h.value with
      | .error e => .error e
      | .ok agreed => framingLoop agreed hs

def resolveBodyFraming (headers : List Header) : Except FramingError Nat :=
  (framingLoop none headers).map fun agreed => agreed.getD 0

/-! ## The request -/

/-- Whether one of the tokens of the first header of that name is `token`. -/
def headerTokenPresent (headers : List Header) (name token : Bytes) : Bool :=
  match porticoReqHeader headers name with
  | none => false
  | some v => (v.splitOnP fun b => b == 44 || isBlank b).any (equalsCi · token)

/-- The results of `portico_http_parse`: 0, -1, -2, -3, or the bytes of the request. -/
inductive Parsed where
  | incomplete
  | malformed
  | tooLarge
  | unsupported
  | complete (total : Nat) (req : Request)
  deriving DecidableEq, Repr

/-- HTTP/1.1 keeps the connection by default, HTTP/1.0 does not. -/
def keepsAlive (head : RequestHead) : Bool :=
  if 1 ≤ head.minorVersion then
    !headerTokenPresent head.headers (ascii "Connection") (ascii "close")
  else headerTokenPresent head.headers (ascii "Connection") (ascii "keep-alive")

/-- The request with a head and a body; the client address is not known here. -/
def RequestHead.request (head : RequestHead) (body : Bytes) : Request :=
  { method := head.method
    path := head.path.takeWhile (· != 63)
    query := if 63 ∈ head.path then some ((head.path.dropWhile (· != 63)).drop 1) else none
    minorVersion := head.minorVersion
    headers := head.headers
    body := body
    keepAlive := keepsAlive head
    clientIp := [] }

def porticoHttpParse (phr : Bytes → Front RequestHead) (maxBody : Nat) (buf : Bytes) : Parsed :=
  match phr buf with
  | .more => .incomplete
  | .bad => .malformed
  | .item pret head =>
    match resolveBodyFraming head.headers with
    | .error .unsupported => .unsupported
    | .error _ => .malformed
    | .ok clen =>
      if maxBody < clen then .tooLarge
      else if buf.length < pret + clen then .incomplete
      else .complete (pret + clen) (head.request ((buf.drop pret).take clen))

/-- What decides a client's address: whether a proxy is trusted, what an address is, and the
    peer's own. -/
structure ClientIpConfig where
  trustProxy : Bool
  validIp : Bytes → Bool
  peerIp : Bytes

/-- The rightmost element of a comma-separated list, without blanks around it. -/
def lastElement (v : Bytes) : Bytes :=
  ((trimEndBy isBlank v).reverse.takeWhile (· != 44)).reverse.dropWhile isBlank

def resolveClientIp (cfg : ClientIpConfig) (headers : List Header) : Bytes :=
  let forwarded :=
    match porticoReqHeader headers (ascii "X-Forwarded-For") with
    | none => cfg.peerIp
    | some xff =>
      if xff ≠ [] ∧ cfg.validIp (lastElement xff) then lastElement xff else cfg.peerIp
  if cfg.trustProxy then
    match porticoReqHeader headers (ascii "X-Real-IP") with
    | none => forwarded
    | some xr => if cfg.validIp xr then xr else forwarded
  else cfg.peerIp

/-! ## What a body length is -/

/-- The number a run of digits stands for, the first digit the highest. -/
def decimalValue (digits : Bytes) : Nat :=
  Nat.ofDigits 10 (digits.reverse.map fun b => b.toNat - 48)

/-- A non-empty run of ASCII digits. -/
def IsDigits (digits : Bytes) : Prop := digits ≠ [] ∧ ∀ b ∈ digits, 48 ≤ b ∧ b ≤ 57

/-- An element of a `Content-Length` list states the length `n`. -/
def States (n : Nat) (element : Bytes) : Prop :=
  let digits := trimEndBy isBlank (element.dropWhile isBlank)
  IsDigits digits ∧ decimalValue digits = n

/-- The elements of all `Content-Length` headers. -/
def lengthElements (headers : List Header) : List Bytes :=
  (headers.filter isContentLength).flatMap fun h => h.value.splitOnP (· == 44)

/-- The headers give a body of `n` bytes. -/
def Framed (headers : List Header) (n : Nat) : Prop :=
  (∀ h ∈ headers, isTransferEncoding h = false) ∧
    ((∀ h ∈ headers, isContentLength h = false) ∧ n = 0 ∨
      (∃ h ∈ headers, isContentLength h = true) ∧ n ≤ longMax ∧
        ∀ e ∈ lengthElements headers, States n e)

/-! ## Digits -/

/-- The value after more digits have been read. -/
def continueValue (val : Nat) (digits : Bytes) : Nat :=
  digits.foldl (fun v b => v * 10 + (b.toNat - 48)) val

theorem continueValue_concat (val : Nat) (digits : Bytes) (b : UInt8) :
    continueValue val (digits ++ [b]) = continueValue val digits * 10 + (b.toNat - 48) := by
  simp [continueValue]

theorem continueValue_zero (digits : Bytes) : continueValue 0 digits = decimalValue digits := by
  induction digits using reverseRecOn with
  | nil => rfl
  | append_singleton digits b ih =>
    rw [continueValue_concat, ih]
    simp only [decimalValue, reverse_append, reverse_singleton, singleton_append,
      map_cons, Nat.ofDigits_cons]
    omega

theorem le_continueValue (val : Nat) (digits : Bytes) : val ≤ continueValue val digits := by
  induction digits using reverseRecOn with
  | nil => exact Nat.le_refl _
  | append_singleton =>
    rw [continueValue_concat]
    omega

/-- The check in front of a step admits exactly the steps whose result a `long` can hold. -/
theorem step_fits_iff {val digit : Nat} (hd : digit ≤ 9) :
    ¬ (longMax - digit) / 10 < val ↔ val * 10 + digit ≤ longMax := by
  unfold longMax
  omega

theorem digitsLoop_spec :
    ∀ (digits : Bytes) (val : Nat), val ≤ longMax →
      digitsLoop val digits =
        if (∀ b ∈ digits, 48 ≤ b ∧ b ≤ 57) ∧ continueValue val digits ≤ longMax
        then .ok (continueValue val digits) else .error .malformed := by
  intro digits
  induction digits with
  | nil =>
    intro val hval
    rw [if_pos ⟨fun _ h => absurd h not_mem_nil, hval⟩]
    rfl
  | cons b bs ih =>
    intro val hval
    simp only [digitsLoop]
    by_cases hb : 48 ≤ b ∧ b ≤ 57
    swap
    · -- not a digit
      have hbad : (b < 48 || 57 < b) = true := by
        simpa [Classical.or_iff_not_imp_left] using hb
      rw [if_pos hbad, if_neg fun h => hb (h.1 b (mem_cons_self ..))]
    have hgood : ¬ (b < 48 || 57 < b) = true := by
      simpa using hb
    have hdigit : b.toNat - 48 ≤ 9 := by
      have := UInt8.le_iff_toNat_le.mp hb.2
      simp only [UInt8.reduceToNat] at this
      omega
    rw [if_neg hgood]
    by_cases hfits : val * 10 + (b.toNat - 48) ≤ longMax
    · have hall : (∀ c ∈ b :: bs, 48 ≤ c ∧ c ≤ 57) ↔ ∀ c ∈ bs, 48 ≤ c ∧ c ≤ 57 := by
        rw [forall_mem_cons]
        exact ⟨And.right, fun h => ⟨hb, h⟩⟩
      rw [if_neg ((step_fits_iff hdigit).mpr hfits), if_neg (Nat.not_lt.mpr hfits), ih _ hfits]
      simp only [hall]
      rfl
    · -- too large already, and more digits do not make it smaller
      have hbig : ¬ continueValue val (b :: bs) ≤ longMax := fun h =>
        hfits ((le_continueValue _ bs).trans h)
      rw [if_pos (not_not.mp fun h => hfits ((step_fits_iff hdigit).mp h)),
        if_neg fun h => hbig h.2]

/-! ## Elements and headers -/

/-- What the elements before have said allows `n`. -/
def Allows (agreed : Option Nat) (n : Nat) : Prop := agreed = none ∨ agreed = some n

variable {agreed a : Option Nat} {element buf : Bytes} {e : FramingError} {hs : List Header}
  {maxBody total : Nat} {req : Request} {phr : Bytes → Front RequestHead}

theorem checkElement_ok :
    checkElement agreed element = .ok a ↔
      ∃ n, a = some n ∧ n ≤ longMax ∧ Allows agreed n ∧ States n element := by
  simp only [checkElement, States, IsDigits]
  generalize trimEndBy isBlank (element.dropWhile isBlank) = digits
  by_cases hnil : digits = []
  · rw [if_pos hnil]
    constructor
    · intro h
      cases h
    · rintro ⟨_, _, _, _, ⟨hne, _⟩, _⟩
      exact absurd hnil hne
  rw [if_neg hnil, digitsLoop_spec digits 0 (Nat.zero_le _), continueValue_zero]
  by_cases hnum : (∀ b ∈ digits, 48 ≤ b ∧ b ≤ 57) ∧ decimalValue digits ≤ longMax
  swap
  · rw [if_neg hnum]
    constructor
    · intro h
      cases h
    · rintro ⟨n, _, hle, _, ⟨_, hdigits⟩, rfl⟩
      exact absurd ⟨hdigits, hle⟩ hnum
  rw [if_pos hnum]
  have hright : (∃ n, a = some n ∧ n ≤ longMax ∧ Allows agreed n ∧
      (digits ≠ [] ∧ ∀ b ∈ digits, 48 ≤ b ∧ b ≤ 57) ∧ decimalValue digits = n) ↔
      a = some (decimalValue digits) ∧ Allows agreed (decimalValue digits) := by
    constructor
    · rintro ⟨n, rfl, _, hallows, _, rfl⟩
      exact ⟨rfl, hallows⟩
    · rintro ⟨rfl, hallows⟩
      exact ⟨_, rfl, hnum.2, hallows, ⟨hnil, hnum.1⟩, rfl⟩
  rw [hright]
  unfold Allows
  cases agreed with
  | none => simp [eq_comm]
  | some m =>
    by_cases hm : decimalValue digits = m
    · simp [hm, eq_comm]
    · simp [hm, Ne.symm hm]

theorem digitsLoop_error {digits : Bytes} (h : digitsLoop 0 digits = .error e) :
    e = .malformed := by
  rw [digitsLoop_spec _ 0 (Nat.zero_le _)] at h
  split at h
  · cases h
  · cases h; rfl

/-- An element that is refused is malformed. -/
theorem checkElement_error (h : checkElement agreed element = .error e) : e = .malformed := by
  simp only [checkElement] at h
  split at h
  · cases h; rfl
  split at h
  · cases h
    exact digitsLoop_error ‹_›
  split at h
  · cases h
  split at h
  · cases h
  · cases h; rfl

/-- The loop over a value handles the elements between its commas one after the other. -/
theorem scanValue_eq (v : Bytes) :
    ∀ (agreed : Option Nat) (element : Bytes), scanValue agreed element v =
      ((v.splitOnP (· == 44)).modifyHead (element ++ ·)).foldlM checkElement agreed := by
  induction v with
  | nil =>
    intro agreed element
    rw [splitOnP_nil, modifyHead_cons, append_nil, foldlM_cons]
    simp only [scanValue, foldlM_nil, bind_pure]
  | cons b bs ih =>
    intro agreed element
    rw [splitOnP_cons_eq_if_modifyHead]
    simp only [scanValue]
    by_cases hb : b = 44
    · rw [if_pos hb, if_pos (beq_iff_eq.mpr hb), modifyHead_cons, append_nil,
        foldlM_cons]
      cases checkElement agreed element with
      | error => rfl
      | ok =>
        have hid : (fun x : Bytes => [] ++ x) = id := rfl
        simp only [ih, hid, modifyHead_id]
        rfl
    · rw [if_neg hb, if_neg fun h => hb (beq_iff_eq.mp h), ih, modifyHead_modifyHead]
      have hcons : (fun x : Bytes => element ++ [b] ++ x) =
          (fun x => element ++ x) ∘ cons b := by
        funext x
        simp
      rw [hcons]

theorem scanValue_nil (agreed : Option Nat) (v : Bytes) :
    scanValue agreed [] v = (v.splitOnP (· == 44)).foldlM checkElement agreed := by
  have hid : (fun x : Bytes => [] ++ x) = id := rfl
  rw [scanValue_eq, hid, modifyHead_id]
  rfl

theorem lengthElements_cons (h : Header) (hs : List Header) :
    lengthElements (h :: hs) =
      if isContentLength h then h.value.splitOnP (· == 44) ++ lengthElements hs
      else lengthElements hs := by
  unfold lengthElements
  rw [filter_cons]
  split
  · rw [flatMap_cons]
  · rfl

theorem framingLoop_ok (hs : List Header) :
    ∀ (agreed a : Option Nat), framingLoop agreed hs = .ok a ↔
      (∀ h ∈ hs, isTransferEncoding h = false) ∧
        (lengthElements hs).foldlM checkElement agreed = .ok a := by
  induction hs with
  | nil =>
    intro agreed a
    exact ⟨fun h => ⟨fun _ hm => absurd hm not_mem_nil, h⟩, And.right⟩
  | cons h hs ih =>
    intro agreed a
    rw [lengthElements_cons, forall_mem_cons]
    simp only [framingLoop]
    cases hte : isTransferEncoding h with
    | true => simp
    | false =>
      cases hcl : isContentLength h with
      | false => simpa using ih agreed a
      | true =>
        simp only [Bool.not_true, Bool.false_eq_true, if_false, if_true, true_and]
        rw [foldlM_append, ← scanValue_nil]
        cases scanValue agreed [] h.value with
        | error =>
          constructor
          · intro hx; cases hx
          · rintro ⟨_, hx⟩; cases hx
        | ok agreed' => exact ih agreed' a

/-- A list of elements is accepted if they all state one length that goes with the one agreed
    on before. -/
theorem elements_ok (es : List Bytes) :
    ∀ (agreed a : Option Nat), es.foldlM checkElement agreed = .ok a ↔
      (es = [] ∧ a = agreed) ∨
        (es ≠ [] ∧ ∃ n, a = some n ∧ n ≤ longMax ∧ Allows agreed n ∧ ∀ e ∈ es, States n e) := by
  induction es with
  | nil =>
    intro agreed a
    rw [foldlM_nil]
    constructor
    · intro h; cases h; exact .inl ⟨rfl, rfl⟩
    · rintro (⟨_, rfl⟩ | ⟨hne, _⟩)
      · rfl
      · exact absurd rfl hne
  | cons e es ih =>
    intro agreed a
    rw [foldlM_cons]
    have hbind : (checkElement agreed e >>= fun a1 => es.foldlM checkElement a1) = .ok a ↔
        ∃ a1, checkElement agreed e = .ok a1 ∧ es.foldlM checkElement a1 = .ok a := by
      cases checkElement agreed e with
      | error =>
        constructor
        · intro h; cases h
        · rintro ⟨_, h, _⟩; cases h
      | ok a1 =>
        constructor
        · intro h; exact ⟨a1, rfl, h⟩
        · rintro ⟨_, h, hrest⟩; cases h; exact hrest
    rw [hbind]
    constructor
    · rintro ⟨a1, h1, hrest⟩
      obtain ⟨n, rfl, hle, hallows, hstates⟩ := checkElement_ok.mp h1
      refine .inr ⟨cons_ne_nil _ _, n, ?_⟩
      rcases (ih _ _).mp hrest with ⟨rfl, rfl⟩ | ⟨_, m, rfl, _, hm, hall⟩
      · exact ⟨rfl, hle, hallows, by simpa using hstates⟩
      · obtain rfl : n = m := by
          rcases hm with hm | hm
          · cases hm
          · exact Option.some.inj hm
        exact ⟨rfl, hle, hallows, forall_mem_cons.mpr ⟨hstates, hall⟩⟩
    · rintro (⟨h, _⟩ | ⟨_, n, rfl, hle, hallows, hall⟩)
      · cases h
      rw [forall_mem_cons] at hall
      refine ⟨some n, checkElement_ok.mpr ⟨n, rfl, hle, hallows, hall.1⟩, (ih _ _).mpr ?_⟩
      by_cases hes : es = []
      · exact .inl ⟨hes, rfl⟩
      · exact .inr ⟨hes, n, rfl, hle, .inr rfl, hall.2⟩

theorem lengthElements_eq_nil : lengthElements hs = [] ↔ ∀ h ∈ hs, isContentLength h = false := by
  unfold lengthElements
  rw [flatMap_eq_nil_iff]
  constructor
  · intro h x hx
    by_contra hne
    rw [Bool.not_eq_false] at hne
    exact splitOnP_ne_nil _ _ (h x (mem_filter.mpr ⟨hx, hne⟩))
  · intro h x hx
    obtain ⟨hmem, hcl⟩ := mem_filter.mp hx
    rw [h x hmem] at hcl
    cases hcl

theorem resolveBodyFraming_ok {n : Nat} : resolveBodyFraming hs = .ok n ↔ Framed hs n := by
  have hmap : resolveBodyFraming hs = .ok n ↔
      ∃ a, framingLoop none hs = .ok a ∧ a.getD 0 = n := by
    unfold resolveBodyFraming
    cases framingLoop none hs with
    | error =>
      constructor
      · intro h; cases h
      · rintro ⟨_, h, _⟩; cases h
    | ok a =>
      constructor
      · intro h; cases h; exact ⟨a, rfl, rfl⟩
      · rintro ⟨_, h, rfl⟩; cases h; rfl
  have hsome : (∃ h ∈ hs, isContentLength h = true) ↔ lengthElements hs ≠ [] := by
    rw [Ne, lengthElements_eq_nil]
    simp
  rw [hmap]
  unfold Framed
  rw [hsome, ← lengthElements_eq_nil]
  constructor
  · rintro ⟨a, ha, rfl⟩
    obtain ⟨hte, hfold⟩ := (framingLoop_ok hs none a).mp ha
    refine ⟨hte, ?_⟩
    rcases (elements_ok _ _ _).mp hfold with ⟨hnil, rfl⟩ | ⟨hne, n, rfl, hle, _, hall⟩
    · exact .inl ⟨hnil, rfl⟩
    · exact .inr ⟨hne, hle, hall⟩
  · rintro ⟨hte, ⟨hnil, rfl⟩ | ⟨hne, hle, hall⟩⟩
    · refine ⟨none, (framingLoop_ok hs none none).mpr ⟨hte, ?_⟩, rfl⟩
      exact (elements_ok _ _ _).mpr (.inl ⟨hnil, rfl⟩)
    · refine ⟨some n, (framingLoop_ok hs none _).mpr ⟨hte, ?_⟩, rfl⟩
      exact (elements_ok _ _ _).mpr (.inr ⟨hne, n, rfl, hle, .inl rfl, hall⟩)

theorem scanValue_error {v : Bytes} (h : scanValue agreed element v = .error e) :
    e = .malformed := by
  induction v generalizing agreed element with
  | nil => exact checkElement_error h
  | cons b bs ih =>
    simp only [scanValue] at h
    split at h
    · split at h
      · cases h
        exact checkElement_error ‹_›
      · exact ih h
    · exact ih h

/-- The first header that cannot be accepted behind those before it decides the error. -/
theorem framingLoop_error :
    ∀ {agreed : Option Nat}, framingLoop agreed hs = .error e →
      ∃ before h after a, hs = before ++ h :: after ∧ framingLoop agreed before = .ok a ∧
        framingLoop agreed (before ++ [h]) = .error e ∧
        e = if isTransferEncoding h then .unsupported else .malformed := by
  induction hs with
  | nil => intro agreed h; cases h
  | cons x hs ih =>
    intro agreed h
    simp only [framingLoop] at h
    -- a header that is passed goes in front of those before the offending one
    have hskip : ∀ agreed', (∀ hs', framingLoop agreed (x :: hs') = framingLoop agreed' hs') →
        framingLoop agreed' hs = .error e → ∃ before h after a, x :: hs = before ++ h :: after ∧
          framingLoop agreed before = .ok a ∧ framingLoop agreed (before ++ [h]) = .error e ∧
          e = if isTransferEncoding h then .unsupported else .malformed := by
      intro agreed' hpass herr
      obtain ⟨before, y, after, a, rfl, hok, hbad, he⟩ := ih herr
      exact ⟨x :: before, y, after, a, rfl, (hpass _).trans hok, (hpass _).trans hbad, he⟩
    split at h
    · rename_i hte
      cases h
      exact ⟨[], x, hs, agreed, rfl, rfl, by simp [framingLoop, hte], by rw [if_pos hte]⟩
    rename_i hte
    split at h
    · rename_i hcl
      exact hskip agreed (fun hs' => by simp only [framingLoop, if_neg hte, if_pos hcl]) h
    rename_i hcl
    split at h
    · rename_i e' hscan
      cases h
      refine ⟨[], x, hs, agreed, rfl, rfl, ?_, ?_⟩
      · simp only [nil_append, framingLoop, if_neg hte, if_neg hcl, hscan]
      · rw [if_neg hte]
        exact scanValue_error hscan
    · rename_i agreed' hscan
      exact hskip agreed' (fun hs' => by simp only [framingLoop, if_neg hte, if_neg hcl, hscan]) h

theorem resolveBodyFraming_error :
    resolveBodyFraming hs = .error e ↔ framingLoop none hs = .error e := by
  unfold resolveBodyFraming
  cases framingLoop none hs with
  | error =>
    constructor
    · intro h; cases h; rfl
    · intro h; cases h; rfl
  | ok =>
    constructor
    · intro h; cases h
    · intro h; cases h

theorem framingLoop_none_ok (h : framingLoop none hs = .ok a) :
    resolveBodyFraming hs = .ok (a.getD 0) := by
  unfold resolveBodyFraming
  rw [h]
  rfl

/-! ## The parser -/

theorem porticoHttpParse_complete (h : porticoHttpParse phr maxBody buf = .complete total req) :
    ∃ pret head clen, phr buf = .item pret head ∧ resolveBodyFraming head.headers = .ok clen ∧
      clen ≤ maxBody ∧ total = pret + clen ∧ total ≤ buf.length ∧
      req = head.request ((buf.drop pret).take clen) := by
  unfold porticoHttpParse at h
  split at h
  · cases h
  · cases h
  rename_i pret head hphr
  split at h
  · cases h
  · cases h
  rename_i clen hclen
  split at h
  · cases h
  split at h
  · cases h
  cases h
  exact ⟨pret, head, clen, hphr, hclen, by omega, rfl, by omega, rfl⟩

/-- No blank, no control character and no question mark in the path, and no control character but
    tabs in a value. -/
structure Request.Plain (req : Request) : Prop where
  path : ∀ b ∈ req.path, 32 < b ∧ b ≠ 127 ∧ b ≠ 63
  value : ∀ h ∈ req.headers, ∀ b ∈ h.value, isCtl b = false

/-- The requests that reach the application are plain. -/
theorem porticoHttpParse_plain
    (h : porticoHttpParse phrParseRequest maxBody buf = .complete total req) : req.Plain := by
  obtain ⟨pret, head, clen, hphr, -, -, -, -, rfl⟩ := porticoHttpParse_complete h
  have hplain := phrParseRequest_plain hphr
  refine ⟨fun b hb => ?_, hplain.value⟩
  have hpath := hplain.path b (takeWhile_subset _ hb)
  have hquery : (b != 63) = true := all_eq_true.mp all_takeWhile b hb
  exact ⟨hpath.1, hpath.2, by simpa using hquery⟩

theorem porticoHttpParse_plain_get :
    ∃ total req, porticoHttpParse phrParseRequest 0 (ascii "GET /a?b HTTP/1.1\r\n\r\n") =
      .complete total req ∧ req.Plain := by
  have h : porticoHttpParse phrParseRequest 0 (ascii "GET /a?b HTTP/1.1\r\n\r\n") =
    .complete _ _ := rfl
  exact ⟨_, _, h, porticoHttpParse_plain h⟩

theorem Request.Plain.reqHeader (h : req.Plain) {name v : Bytes}
    (hv : porticoReqHeader req.headers name = some v) : 0 ∉ v := by
  obtain ⟨hdr, hfind, rfl⟩ := Option.map_eq_some_iff.mp hv
  intro hmem
  exact absurd (h.value hdr (mem_of_find?_eq_some hfind) 0 hmem) (by decide)

/-- What the parser says about a buffer that is long enough does not change when it grows. -/
theorem porticoHttpParse_append (hphr : FrontLocal phr)
    (h : porticoHttpParse phr maxBody buf ≠ .incomplete) (more : Bytes) :
    porticoHttpParse phr maxBody (buf ++ more) = porticoHttpParse phr maxBody buf := by
  unfold porticoHttpParse at h ⊢
  cases hfront : phr buf with
  | more => rw [hfront] at h; exact absurd rfl h
  | bad => rw [hphr.bad hfront]
  | item pret head =>
    rw [hfront] at h
    rw [hphr.item_append hfront]
    dsimp only at h ⊢
    split
    · rfl
    · rfl
    rename_i clen hclen
    rw [hclen] at h
    dsimp only at h
    split
    · rfl
    rw [if_neg ‹_›] at h
    have hle : ¬ buf.length < pret + clen := by
      intro hlt
      rw [if_pos hlt] at h
      exact h rfl
    rw [if_neg (by rw [length_append]; omega), if_neg hle,
      drop_append_of_le_length (by omega),
      take_append_of_le_length (by rw [length_drop]; omega)]

/-- The body length is the one that every `Content-Length` element states and that a `long` can
    hold; otherwise the first header that cannot be accepted decides between -3 and -1, and no
    sum overflows. A complete request has a body of exactly that length, inside the buffer. -/
theorem request_framing :
    (∀ headers n, resolveBodyFraming headers = .ok n ↔ Framed headers n) ∧
      (∀ headers, (∀ n, ¬ Framed headers n) →
        ∃ before h after, headers = before ++ h :: after ∧ (∃ n, Framed before n) ∧
          (∀ n, ¬ Framed (before ++ [h]) n) ∧
          resolveBodyFraming headers =
            .error (if isTransferEncoding h then .unsupported else .malformed)) ∧
      (∀ headers, resolveBodyFraming headers ≠ .error .overflow) ∧
      ∀ phr maxBody buf total req, porticoHttpParse phr maxBody buf = .complete total req →
        ∃ n pret head, Framed req.headers n ∧ phr buf = .item pret head ∧ total = pret + n ∧
          total ≤ buf.length ∧ req.body = (buf.drop pret).take n ∧ req.body.length = n := by
  refine ⟨fun _ _ => resolveBodyFraming_ok, fun headers hnone => ?_, fun headers h => ?_,
    fun phr maxBody buf total req h => ?_⟩
  · cases hr : resolveBodyFraming headers with
    | ok n => exact absurd (resolveBodyFraming_ok.mp hr) (hnone n)
    | error =>
      obtain ⟨before, h, after, a, rfl, hok, hbad, rfl⟩ :=
        framingLoop_error (resolveBodyFraming_error.mp hr)
      refine ⟨before, h, after, rfl,
        ⟨_, resolveBodyFraming_ok.mp (framingLoop_none_ok hok)⟩, fun n hn => ?_, rfl⟩
      rw [← resolveBodyFraming_ok, resolveBodyFraming_error.mpr hbad] at hn
      cases hn
  · obtain ⟨_, h, _, _, _, _, _, he⟩ := framingLoop_error (resolveBodyFraming_error.mp h)
    split at he <;> cases he
  · obtain ⟨pret, head, clen, hphr, hclen, _, rfl, hle, rfl⟩ := porticoHttpParse_complete h
    refine ⟨clen, pret, head, resolveBodyFraming_ok.mp hclen, hphr, rfl, hle, rfl, ?_⟩
    show ((buf.drop pret).take clen).length = clen
    rw [length_take, length_drop]
    omega

/-- Two elements that agree, in front of a body and more bytes; and a transfer coding behind a
    length. -/
theorem request_framing_agreeing :
    (∃ n pret head, Framed [⟨ascii "Content-Length", ascii "2 ,\t2"⟩] n ∧
      phrParseRequest (ascii "POST / HTTP/1.1\r\nContent-Length: 2 ,\t2\r\n\r\nhi!") =
        .item pret head ∧ 44 = pret + n ∧
      44 ≤ (ascii "POST / HTTP/1.1\r\nContent-Length: 2 ,\t2\r\n\r\nhi!").length ∧
      ascii "hi" = ((ascii "POST / HTTP/1.1\r\nContent-Length: 2 ,\t2\r\n\r\nhi!").drop
        pret).take n ∧ (ascii "hi").length = n) ∧
      ∀ n, ¬ Framed [⟨ascii "Content-Length", ascii "2"⟩, ⟨ascii "transfer-encoding", []⟩] n := by
  refine ⟨request_framing.2.2.2 phrParseRequest (16 * 1024 * 1024) _ 44
    ⟨ascii "POST", ascii "/", none, 1, [⟨ascii "Content-Length", ascii "2 ,\t2"⟩], ascii "hi",
      true, []⟩ rfl, fun n hn => ?_⟩
  rw [← request_framing.1] at hn
  exact absurd hn (by
    have hte : resolveBodyFraming [⟨ascii "Content-Length", ascii "2"⟩,
        ⟨ascii "transfer-encoding", []⟩] = .error .unsupported := rfl
    rw [hte]
    intro h
    cases h)

end Portico.Http
