/-
  Sequences of response builders, and what is serialized behind them.

  Model. `ResCall` is a call of `portico_res_status`, `portico_res_header`, `portico_res_body` or
  `portico_res_text` as a handler makes it, with the memory it asks for. `requested` lists the
  headers the calls ask for, the `Content-Type` of a body among them; `keepFitting` is what a
  block of `PORTICO_RES_HEADERS_CAP` bytes keeps of their lines.

  Proved: `response_exact`, after any calls the header block is the kept lines, each of them
  whole, and `portico_http_build_response` does not fail for lack of space: it puts out the
  status line, those lines, a `Content-Length` that states the length of the body, the
  `Connection` line, an empty line and the body.
-/
import Portico.Http.Response

namespace Portico.Http

open Portico.Ws List

def porticoResStatus (res : Reply) (status : Int) : Reply := { res with status := status }

inductive ResCall where
  | status (code : Int)
  | header (name value : Bytes)
  | body (bytes : Bytes) (contentType : Option Bytes)
  | text (code : Int) (content : Bytes)
  deriving DecidableEq, Repr

def ResCall.run (res : Reply) : ResCall → Reply
  | .status code => porticoResStatus res code
  | .header name value => porticoResHeader res name value
  | .body bytes contentType => porticoResBody true res bytes contentType
  | .text code content => porticoResText true res code content

/-- The response behind the calls; the two fields are those of a HEAD request for a file. -/
def runCalls (headOnly : Bool) (fileSize : Nat) (calls : List ResCall) : Reply :=
  calls.foldl ResCall.run { Reply.empty with headOnly := headOnly, fileSize := fileSize }

/-! ## What the calls ask for -/

def ResCall.newStatus : ResCall → Option Int
  | .status code => some code
  | .header _ _ => none
  | .body _ _ => none
  | .text code _ => some code

def ResCall.data : ResCall → Option Bytes
  | .status _ => none
  | .header _ _ => none
  | .body bytes _ => some bytes
  | .text _ content => some content

/-- The header a call asks for; a body asks for its type unless a `Content-Type` was asked for
    before. -/
def ResCall.request (typeSet : Bool) : ResCall → Option (Bytes × Bytes)
  | .status _ => none
  | .header name value => some (name, value)
  | .body _ none => none
  | .body _ (some value) => if typeSet then none else some (ascii "Content-Type", value)
  | .text _ _ =>
    if typeSet then none else some (ascii "Content-Type", ascii "text/plain; charset=utf-8")

/-- Whether a `Content-Type` has been asked for behind a call. -/
def ResCall.typeSet (before : Bool) (c : ResCall) : Bool :=
  before || (c.request before).any fun h => equalsCi h.1 (ascii "Content-Type")

/-- The headers that a sequence of calls asks for, in order. -/
def requested : Bool → List ResCall → List (Bytes × Bytes)
  | _, [] => []
  | typeSet, c :: cs => (c.request typeSet).toList ++ requested (c.typeSet typeSet) cs

def lineOf (h : Bytes × Bytes) : Bytes := h.1 ++ ascii ": " ++ h.2 ++ crlf

/-- The lines that a block keeps when `used` bytes of it are taken; a line that does not fit is
    left out. -/
def keepFitting : Nat → List Bytes → List Bytes
  | _, [] => []
  | used, line :: lines =>
    if line.length < resHeadersCap - used then line :: keepFitting (used + line.length) lines
    else keepFitting used lines

/-- The body set last. -/
def finalBody (calls : List ResCall) : Bytes := (calls.filterMap ResCall.data).getLast?.getD []

/-- The status set last; none, or 0, is 200. -/
def finalStatus (calls : List ResCall) : Int :=
  let status := (calls.filterMap ResCall.newStatus).getLast?.getD 0
  if status = 0 then 200 else status

/-- No CR, LF or NUL. -/
def Clean (s : Bytes) : Prop := ∀ b ∈ s, b ≠ 13 ∧ b ≠ 10 ∧ b ≠ 0

instance (s : Bytes) : Decidable (Clean s) :=
  decidableBAll (fun b => b ≠ 13 ∧ b ≠ 10 ∧ b ≠ 0) s

/-- One whole line, whose only line break is its end. -/
def IsLine (line : Bytes) : Prop := ∃ name value, Clean name ∧ Clean value ∧
  line = name ++ ascii ": " ++ value ++ crlf

/-- The values a C `int` can have. -/
def IsInt (n : Int) : Prop := -2 ^ 31 ≤ n ∧ n < 2 ^ 31

instance (n : Int) : Decidable (IsInt n) := inferInstanceAs (Decidable (_ ∧ _))

/-- The arguments are clean and of their C types. -/
def ResCall.Valid : ResCall → Prop
  | .status code => IsInt code
  | .header name value => Clean name ∧ Clean value
  | .body bytes contentType => bytes.length < 2 ^ 64 ∧ ∀ value ∈ contentType, Clean value
  | .text code content => IsInt code ∧ content.length < 2 ^ 64

/-! ## A call -/

/-- Every call sets a status or not, a body or not, and asks for one header at most. -/
theorem ResCall.run_eq (res : Reply) (c : ResCall) :
    c.run res =
      { (c.request res.contentTypeSet).elim res (fun h => porticoResHeader res h.1 h.2) with
        status := c.newStatus.getD res.status, body := c.data.getD res.body } := by
  cases c with
  | status | header => rfl
  | body bytes contentType =>
    cases contentType with
    | none => rfl
    | some =>
      obtain ⟨status, headers, body, typeSet, rest⟩ := res
      cases typeSet with
      | true => rfl
      | false => rfl
  | text =>
    obtain ⟨old, headers, body, typeSet, rest⟩ := res
    cases typeSet with
    | true => rfl
    | false => rfl

theorem ResCall.run_status (res : Reply) (c : ResCall) :
    (c.run res).status = c.newStatus.getD res.status := by rw [run_eq]

theorem ResCall.run_body (res : Reply) (c : ResCall) :
    (c.run res).body = c.data.getD res.body := by rw [run_eq]

theorem ResCall.run_headOnly (res : Reply) (c : ResCall) :
    (c.run res).headOnly = res.headOnly ∧ (c.run res).fileSize = res.fileSize := by
  rw [run_eq]
  cases c.request res.contentTypeSet with
  | none | some => exact ⟨rfl, rfl⟩

theorem ResCall.run_typeSet (res : Reply) (c : ResCall) :
    (c.run res).contentTypeSet = c.typeSet res.contentTypeSet := by
  rw [run_eq, typeSet]
  cases c.request res.contentTypeSet with
  | none => exact (Bool.or_false _).symm
  | some => rfl

theorem ResCall.run_headers (res : Reply) (c : ResCall) :
    (c.run res).headers = res.headers ++
      (keepFitting res.headers.length
        ((c.request res.contentTypeSet).toList.map lineOf)).flatten := by
  rw [run_eq]
  cases c.request res.contentTypeSet with
  | none => exact (append_nil _).symm
  | some h =>
    show (if (lineOf h).length < resHeadersCap - res.headers.length then
      res.headers ++ lineOf h else res.headers) = _
    rw [Option.toList_some, map_singleton, keepFitting]
    split
    · rw [keepFitting, flatten_singleton]
    · rw [keepFitting, flatten_nil, append_nil]

/-! ## A sequence of calls -/

theorem keepFitting_append (as bs : List Bytes) :
    ∀ used, keepFitting used (as ++ bs) = keepFitting used as ++
      keepFitting (used + (keepFitting used as).flatten.length) bs := by
  induction as with
  | nil => intro used; rfl
  | cons a as ih =>
    intro used
    rw [cons_append, keepFitting, keepFitting]
    split
    · rw [ih, cons_append, flatten_cons, length_append, Nat.add_assoc]
    · exact ih used

theorem keepFitting_mem {line : Bytes} {lines : List Bytes} :
    ∀ {used}, line ∈ keepFitting used lines → line ∈ lines := by
  induction lines with
  | nil => intro used h; exact h
  | cons l ls ih =>
    intro used h
    rw [keepFitting] at h
    split at h
    · rcases mem_cons.mp h with rfl | h
      · exact mem_cons_self
      · exact mem_cons_of_mem _ (ih h)
    · exact mem_cons_of_mem _ (ih h)

/-- The block never fills up. -/
theorem keepFitting_length (lines : List Bytes) :
    ∀ used, used < resHeadersCap →
      used + (keepFitting used lines).flatten.length < resHeadersCap := by
  induction lines with
  | nil => intro used h; exact h
  | cons l ls ih =>
    intro used h
    rw [keepFitting]
    split
    · have := ih (used + l.length) (by omega)
      rw [flatten_cons, length_append]
      omega
    · exact ih used h

theorem getLast?_getD_cons {α : Type} (x : α) (xs : List α) (d : α) :
    (x :: xs).getLast?.getD d = xs.getLast?.getD x := by
  rw [getLast?_cons, Option.getD_some]

/-- What a sequence of calls leaves behind. -/
theorem foldl_run_spec (calls : List ResCall) :
    ∀ res : Reply,
      (calls.foldl ResCall.run res).headers = res.headers ++
        (keepFitting res.headers.length
          ((requested res.contentTypeSet calls).map lineOf)).flatten ∧
      (calls.foldl ResCall.run res).body =
        (calls.filterMap ResCall.data).getLast?.getD res.body ∧
      (calls.foldl ResCall.run res).status =
        (calls.filterMap ResCall.newStatus).getLast?.getD res.status ∧
      (calls.foldl ResCall.run res).headOnly = res.headOnly ∧
      (calls.foldl ResCall.run res).fileSize = res.fileSize := by
  induction calls with
  | nil =>
    intro res
    exact ⟨(append_nil _).symm, rfl, rfl, rfl, rfl⟩
  | cons c cs ih =>
    intro res
    obtain ⟨hheaders, hbody, hstatus, hhead, hsize⟩ := ih (c.run res)
    obtain ⟨hhead', hsize'⟩ := c.run_headOnly res
    rw [foldl_cons]
    refine ⟨?_, ?_, ?_, hhead.trans hhead', hsize.trans hsize'⟩
    · rw [hheaders, c.run_typeSet, c.run_headers, length_append, requested, map_append,
        keepFitting_append, flatten_append, append_assoc]
    · rw [hbody, c.run_body, filterMap_cons]
      cases c.data with
      | none => rfl
      | some => exact (getLast?_getD_cons _ _ _).symm
    · rw [hstatus, c.run_status, filterMap_cons]
      cases c.newStatus with
      | none => rfl
      | some => exact (getLast?_getD_cons _ _ _).symm

variable {calls : List ResCall}

theorem requested_clean (hvalid : ∀ c ∈ calls, c.Valid) :
    ∀ typeSet, ∀ h ∈ requested typeSet calls, Clean h.1 ∧ Clean h.2 := by
  have htype : Clean (ascii "Content-Type") := by decide
  have htext : Clean (ascii "text/plain; charset=utf-8") := by decide
  induction calls with
  | nil => intro typeSet h hmem; cases hmem
  | cons c cs ih =>
    intro typeSet h hmem
    rw [requested, mem_append, Option.mem_toList] at hmem
    rcases hmem with hmem | hmem
    · have hc := hvalid c mem_cons_self
      cases c with
      | status => cases hmem
      | header =>
        cases hmem
        exact hc
      | body bytes contentType =>
        cases contentType with
        | none => cases hmem
        | some value =>
          simp only [ResCall.request] at hmem
          split at hmem
          · cases hmem
          · cases hmem
            exact ⟨htype, hc.2 value rfl⟩
      | text =>
        simp only [ResCall.request] at hmem
        split at hmem
        · cases hmem
        · cases hmem
          exact ⟨htype, htext⟩
    · exact ih (fun c' hc' => hvalid c' (mem_cons_of_mem _ hc')) _ h hmem

theorem getLast?_getD_mem {α : Type} {P : α → Prop} {xs : List α} {d : α}
    (hd : P d) (h : ∀ x ∈ xs, P x) : P (xs.getLast?.getD d) := by
  cases hlast : xs.getLast? with
  | none => exact hd
  | some x => exact h x (mem_of_getLast? hlast)

theorem finalBody_length (hvalid : ∀ c ∈ calls, c.Valid) : (finalBody calls).length < 2 ^ 64 := by
  refine getLast?_getD_mem (P := fun b : Bytes => b.length < 2 ^ 64) (by decide) ?_
  intro bytes hmem
  obtain ⟨c, hc, hdata⟩ := mem_filterMap.mp hmem
  have hv := hvalid c hc
  cases c with
  | status | header => cases hdata
  | body => cases hdata; exact hv.1
  | text => cases hdata; exact hv.2

theorem finalStatus_isInt (hvalid : ∀ c ∈ calls, c.Valid) : IsInt (finalStatus calls) := by
  have hlast : IsInt ((calls.filterMap ResCall.newStatus).getLast?.getD 0) := by
    refine getLast?_getD_mem (by decide) ?_
    intro code hmem
    obtain ⟨c, hc, hcode⟩ := mem_filterMap.mp hmem
    have hv := hvalid c hc
    cases c with
    | status => cases hcode; exact hv
    | header | body => cases hcode
    | text => cases hcode; exact hv.1
  unfold finalStatus
  dsimp only
  split
  · decide
  · exact hlast

/-! ## The serialized head -/

theorem decimal_length_le {n k : Nat} (hk : 0 < k) (h : n < 10 ^ k) : (decimal n).length ≤ k := by
  rw [decimal, length_map]
  exact Nat.toDigits_length 10 n k hk h

theorem decimalInt_length_le {n : Int} (h : IsInt n) : (decimalInt n).length ≤ 11 := by
  have habs : (decimal n.natAbs).length ≤ 10 := by
    apply decimal_length_le (by decide)
    have := h.1
    have := h.2
    omega
  unfold decimalInt
  split
  · rw [length_cons]
    omega
  · omega

theorem porticoHttpReason_length_le (status : Int) : (porticoHttpReason status).length ≤ 31 := by
  unfold porticoHttpReason
  split <;> decide

/-- The longest head: 118 bytes around the handler's lines. -/
theorem responseHead_length_le {status : Int} (hstatus : IsInt status) (lines : Bytes)
    {contentLength : Nat} (hlen : contentLength < 2 ^ 64) (keepAlive : Bool) :
    (responseHead status lines contentLength keepAlive).length ≤ 118 + lines.length := by
  have h1 := decimalInt_length_le hstatus
  have h2 := porticoHttpReason_length_le status
  have h3 : (decimal contentLength).length ≤ 20 := decimal_length_le (by decide) (by omega)
  have h4 : (if keepAlive then ascii "keep-alive" else ascii "close").length ≤ 10 := by
    cases keepAlive <;> decide
  have hfix : (ascii "HTTP/1.1 ").length = 9 ∧ (ascii " ").length = 1 ∧
    (ascii "Content-Length: ").length = 16 ∧ (ascii "Connection: ").length = 12 ∧
    crlf.length = 2 := by decide
  simp only [responseHead, length_append]
  omega

theorem digitByte {d : Nat} (hd : d < 10) :
    48 ≤ UInt8.ofNat d.digitChar.toNat ∧ UInt8.ofNat d.digitChar.toNat ≤ 57 ∧
      (UInt8.ofNat d.digitChar.toNat).toNat - 48 = d :=
  (by decide : ∀ d < 10, 48 ≤ UInt8.ofNat (Nat.digitChar d).toNat ∧
    UInt8.ofNat (Nat.digitChar d).toNat ≤ 57 ∧
    (UInt8.ofNat (Nat.digitChar d).toNat).toNat - 48 = d) d hd

/-- What `%zu` prints is a number as a `Content-Length` must have it, and stands for `n`. -/
theorem decimal_states (n : Nat) : IsDigits (decimal n) ∧ decimalValue (decimal n) = n := by
  induction n using Nat.strongRecOn with
  | ind n ih =>
    by_cases hn : n < 10
    · obtain ⟨hlo, hhi, hval⟩ := digitByte hn
      have hone : decimal n = [UInt8.ofNat n.digitChar.toNat] := by
        rw [decimal, Nat.toDigits_of_lt_base hn, map_singleton]
      rw [hone]
      refine ⟨⟨cons_ne_nil _ _, by simp [hlo, hhi]⟩, ?_⟩
      rw [← continueValue_zero]
      show 0 * 10 + ((UInt8.ofNat n.digitChar.toNat).toNat - 48) = n
      omega
    · obtain ⟨⟨hne, hdigits⟩, hvalue⟩ := ih (n / 10) (by omega)
      obtain ⟨hlo, hhi, hval⟩ := digitByte (Nat.mod_lt n (by decide : 0 < 10))
      have hsplit : decimal n =
          decimal (n / 10) ++ [UInt8.ofNat (n % 10).digitChar.toNat] := by
        rw [decimal, Nat.toDigits_of_base_le (by decide) (by omega), map_append]
        rfl
      rw [hsplit, ← continueValue_zero, continueValue_concat, continueValue_zero, hvalue, hval]
      refine ⟨⟨by simp, ?_⟩, by omega⟩
      intro b hb
      rcases mem_append.mp hb with hb | hb
      · exact hdigits b hb
      · rw [mem_singleton.mp hb]
        exact ⟨hlo, hhi⟩

/-- For every sequence of calls with clean names and values: the header block is the lines that
    fit, each of them whole, it never fills up, and the response is built without lack of space
    from the status line, exactly those lines, a `Content-Length` that states how many bytes of
    body follow, the `Connection` line, an empty line and the body. -/
theorem response_exact (calls : List ResCall) (hvalid : ∀ c ∈ calls, c.Valid)
    (headOnly keepAlive : Bool) (fileSize : Nat) (hsize : fileSize < 2 ^ 63) :
    ∃ kept digits, kept = keepFitting 0 ((requested false calls).map lineOf) ∧
      (∀ line ∈ kept, IsLine line) ∧ (runCalls headOnly fileSize calls).headers = kept.flatten ∧
      kept.flatten.length < resHeadersCap ∧ IsDigits digits ∧
      decimalValue digits = (if headOnly then fileSize else (finalBody calls).length) ∧
      porticoHttpBuildResponse true (runCalls headOnly fileSize calls) keepAlive =
        some (ascii "HTTP/1.1 " ++ decimalInt (finalStatus calls) ++ ascii " " ++
          porticoHttpReason (finalStatus calls) ++ crlf ++ kept.flatten ++
          ascii "Content-Length: " ++ digits ++ crlf ++ ascii "Connection: " ++
          (if keepAlive then ascii "keep-alive" else ascii "close") ++ crlf ++ crlf ++
          if headOnly then [] else finalBody calls) := by
  obtain ⟨hheaders, hbody, hstatus, hhead, hfile⟩ :=
    foldl_run_spec calls { Reply.empty with headOnly := headOnly, fileSize := fileSize }
  unfold runCalls
  generalize calls.foldl ResCall.run _ = res at hheaders hbody hstatus hhead hfile ⊢
  have hlines : res.headers =
      (keepFitting 0 ((requested false calls).map lineOf)).flatten := hheaders
  have hfits := keepFitting_length ((requested false calls).map lineOf) 0 (by decide)
  rw [Nat.zero_add, ← hlines] at hfits
  have hcode : res.statusCode = finalStatus calls := by
    rw [Reply.statusCode, hstatus]
    rfl
  have hclen : (if headOnly then fileSize else (finalBody calls).length) < 2 ^ 64 := by
    have := finalBody_length hvalid
    split <;> omega
  have hres : res.head keepAlive = responseHead (finalStatus calls) res.headers
      (if headOnly then fileSize else (finalBody calls).length) keepAlive := by
    rw [Reply.head, hcode, hhead, hbody, hfile]
    rfl
  have hpayload : res.payload = if headOnly then [] else finalBody calls := by
    rw [Reply.payload, hhead, hbody]
    rfl
  have hroom : ¬ headCap ≤ (res.head keepAlive).length := by
    have := responseHead_length_le (finalStatus_isInt hvalid) res.headers hclen keepAlive
    rw [← hres] at this
    unfold headCap resHeadersCap at *
    omega
  obtain ⟨hdigits, hvalue⟩ :=
    decimal_states (if headOnly then fileSize else (finalBody calls).length)
  refine ⟨_, _, rfl, ?_, hlines, ?_, hdigits, hvalue, ?_⟩
  · intro line hline
    obtain ⟨h, hmem, rfl⟩ := mem_map.mp (keepFitting_mem hline)
    obtain ⟨hname, hval⟩ := requested_clean hvalid false h hmem
    exact ⟨h.1, h.2, hname, hval, rfl⟩
  · rwa [← hlines]
  · rw [porticoHttpBuildResponse, if_neg hroom, hres, hpayload, ← hlines]
    rfl

/-- A header, and a text whose type is not asked for twice. -/
theorem response_exact_text :
    ∃ digits, IsDigits digits ∧ decimalValue digits = 3 ∧
      porticoHttpBuildResponse true (runCalls false 0
        [.header (ascii "Content-Type") (ascii "text/html"), .text 404 (ascii "no\n")]) false =
        some (ascii "HTTP/1.1 404 Not Found\r\nContent-Type: text/html\r\nContent-Length: " ++
          digits ++ ascii "\r\nConnection: close\r\n\r\nno\n") := by
  have hvalid : ∀ c ∈ [ResCall.header (ascii "Content-Type") (ascii "text/html"),
      ResCall.text 404 (ascii "no\n")], c.Valid := by
    simp only [forall_mem_cons, ResCall.Valid]
    refine ⟨⟨by decide, by decide⟩, ⟨by decide, by decide⟩, ?_⟩
    intro c hc
    cases hc
  obtain ⟨kept, digits, rfl, _, _, _, hdigits, hvalue, hbuild⟩ :=
    response_exact _ hvalid false false 0 (by decide)
  refine ⟨digits, hdigits, hvalue, hbuild.trans ?_⟩
  simp only [append_assoc]
  rfl

end Portico.Http
