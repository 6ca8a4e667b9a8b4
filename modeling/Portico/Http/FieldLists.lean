/-
  Header fields that are lists: `Connection` and `X-Forwarded-For`.

  A list may be spread over any number of header lines. `fieldLines` collects them, with the
  folded lines, which the parser keeps as headers without a name. `tokenLoop` is the scan of
  `header_token_present` as the source has it, and `validIp` the length test in front of
  `inet_pton`, which stays a parameter.

  Proved: the scan finds exactly the tokens between delimiters (`headerTokenPresent_eq_loop`).
  `keep_alive_by_list_iff`, `keep_alive` is what the combined list of `Connection` tokens says
  exactly if no later line adds the token that decides. `client_ip_by_last_element_iff`, the client
  address is that of the last element of the `X-Forwarded-For` list exactly if the first line ends
  in one that gives the same. Both functions read the first line and no other:
  `second_connection_line_ignored`, `first_forwarded_line_believed`.
-/
import Portico.Http.Request

namespace Portico.Http

open Portico.Lib Portico.Ws List

/-! ## Lines of a field -/

/-- The values of all lines of a field, in order. A folded line belongs to the header in front
    of it; `inside` says whether that is one of the field. -/
def fieldLines (name : Bytes) : Bool → List Header → List Bytes
  | _, [] => []
  | inside, h :: hs =>
    if h.name = [] then
      if inside then h.value :: fieldLines name inside hs else fieldLines name inside hs
    else if equalsCi h.name name then h.value :: fieldLines name true hs
    else fieldLines name false hs

variable {name token : Bytes} {headers : List Header}

theorem equalsCi_nil (hname : name ≠ []) : equalsCi [] name = false := by
  cases name with
  | nil => exact absurd rfl hname
  | cons => rfl

/-- `portico_req_header` returns the first of the lines. -/
theorem porticoReqHeader_eq_head (hname : name ≠ []) (headers : List Header) :
    porticoReqHeader headers name = (fieldLines name false headers).head? := by
  unfold porticoReqHeader
  induction headers with
  | nil => rfl
  | cons h hs ih =>
    rw [find?_cons]
    simp only [fieldLines]
    by_cases hfold : h.name = []
    · rw [hfold, equalsCi_nil hname, if_pos rfl]
      exact ih
    rw [if_neg hfold]
    cases hci : equalsCi h.name name with
    | true => rfl
    | false => exact ih

/-! ## Tokens -/

/-- What stands between tokens: a comma or a blank. -/
def isDelimiter (b : UInt8) : Bool := b == 44 || isBlank b

/-- The tokens of a value. -/
def tokens (v : Bytes) : List Bytes := (v.splitOnP isDelimiter).filter (· ≠ [])

/-- What is left of a value when the delimiters at its front and the token behind them have been
    passed. -/
def behindToken (v : Bytes) : Bytes :=
  (v.dropWhile isDelimiter).dropWhile (!isDelimiter ·)

theorem behindToken_length_lt {v : Bytes} (hv : v ≠ []) : (behindToken v).length < v.length := by
  obtain ⟨b, bs, rfl⟩ := exists_cons_of_ne_nil hv
  have hinner := (bs.dropWhile_suffix isDelimiter).length_le
  have houter (l : Bytes) := (l.dropWhile_suffix (!isDelimiter ·)).length_le
  rw [behindToken, length_cons, Nat.lt_succ_iff]
  cases hb : isDelimiter b with
  | true =>
    rw [dropWhile_cons_of_pos hb]
    exact Nat.le_trans (houter _) hinner
  | false =>
    rw [dropWhile_cons_of_neg (by simp [hb]), dropWhile_cons_of_pos (by simp [hb])]
    exact houter bs

/-- The loop of `header_token_present`: past the delimiters, to the end of the token, compare. -/
def tokenLoop (token v : Bytes) : Bool :=
  if v = [] then false
  else if equalsCi ((v.dropWhile isDelimiter).takeWhile (!isDelimiter ·)) token then true
  else tokenLoop token (behindToken v)
termination_by v.length
decreasing_by exact behindToken_length_lt ‹_›

section Loop

variable {p : UInt8 → Bool} {f : Bytes → Bool}

/-- Delimiters at the front give empty pieces. -/
theorem any_splitOnP_dropWhile (hf : f [] = false) (v : Bytes) :
    ((v.dropWhile p).splitOnP p).any f = (v.splitOnP p).any f := by
  induction v with
  | nil => rfl
  | cons b bs ih =>
    cases hb : p b with
    | true =>
      rw [dropWhile_cons_of_pos hb, ih, splitOnP_cons_eq_if_modifyHead, if_pos hb, any_cons, hf,
        Bool.false_or]
    | false => rw [dropWhile_cons_of_neg (by simp [hb])]

/-- The first piece is what stands in front of the first delimiter. -/
theorem any_splitOnP_takeWhile (hf : f [] = false) (v : Bytes) :
    (v.splitOnP p).any f =
      (f (v.takeWhile (!p ·)) || ((v.dropWhile (!p ·)).splitOnP p).any f) := by
  have hword : ∀ b ∈ v.takeWhile (!p ·), p b = false := by
    intro b hb
    simpa using all_eq_true.mp all_takeWhile b hb
  have hhead := head?_dropWhile_not (!p ·) v
  have hsplit : v.takeWhile (!p ·) ++ v.dropWhile (!p ·) = v := takeWhile_append_dropWhile
  generalize v.takeWhile (!p ·) = word at *
  generalize v.dropWhile (!p ·) = rest at *
  rw [← hsplit]
  cases rest with
  | nil =>
    rw [append_nil, splitOnP_eq_singleton hword]
    simp [hf]
  | cons b bs =>
    have hb : p b = true := by simpa using hhead
    rw [splitOnP_append_cons_of_forall_mem hword b hb, splitOnP_cons_eq_if_modifyHead, if_pos hb]
    simp [hf]

end Loop

theorem tokenLoop_eq (htoken : token ≠ []) (v : Bytes) :
    tokenLoop token v = (v.splitOnP isDelimiter).any (equalsCi · token) := by
  have hnil : equalsCi [] token = false := equalsCi_nil htoken
  induction v using tokenLoop.induct token with
  | case1 =>
    rw [tokenLoop, if_pos rfl]
    simp [hnil]
  | case2 v hv hfound =>
    rw [tokenLoop, if_neg hv, if_pos hfound, ← any_splitOnP_dropWhile hnil,
      any_splitOnP_takeWhile hnil, hfound, Bool.true_or]
  | case3 v hv hother ih =>
    rw [tokenLoop, if_neg hv, if_neg hother, ih, ← any_splitOnP_dropWhile hnil v,
      any_splitOnP_takeWhile hnil (v.dropWhile _), Bool.eq_false_of_not_eq_true hother,
      Bool.false_or]
    rfl

/-- Pieces between delimiters that are empty make no difference. -/
theorem any_tokens (htoken : token ≠ []) (v : Bytes) :
    (v.splitOnP isDelimiter).any (equalsCi · token) = (tokens v).any (equalsCi · token) := by
  unfold tokens
  rw [any_filter]
  congr 1
  funext t
  cases t with
  | nil => rw [equalsCi_nil htoken]; rfl
  | cons => rfl

/-- The model of `header_token_present` is the scan of the source, on the first line. -/
theorem headerTokenPresent_eq_loop (htoken : token ≠ []) (headers : List Header) (name : Bytes) :
    headerTokenPresent headers name token =
      (porticoReqHeader headers name).elim false (tokenLoop token) := by
  unfold headerTokenPresent
  cases porticoReqHeader headers name with
  | none => rfl
  | some v => exact (tokenLoop_eq htoken v).symm

theorem headerTokenPresent_eq_loop_close :
    headerTokenPresent [⟨ascii "X", ascii "a, Close"⟩] (ascii "x") (ascii "close") =
      tokenLoop (ascii "close") (ascii "a, Close") :=
  headerTokenPresent_eq_loop (by decide) [⟨ascii "X", ascii "a, Close"⟩] (ascii "x")

/-! ## `keep_alive` and the combined `Connection` list -/

/-- The tokens of all lines of a field. -/
def combinedTokens (name : Bytes) (headers : List Header) : List Bytes :=
  (fieldLines name false headers).flatMap tokens

/-- The combined list has the token, in any case. -/
def NamesToken (headers : List Header) (name token : Bytes) : Prop :=
  ∃ t ∈ combinedTokens name headers, equalsCi t token = true

/-- The first line of the field has the token. -/
def FirstLineNames (headers : List Header) (name token : Bytes) : Prop :=
  ∃ line, (fieldLines name false headers).head? = some line ∧
    ∃ t ∈ tokens line, equalsCi t token = true

/-- The token that changes what the version says about keeping the connection. -/
def decisiveToken (minorVersion : Nat) : Bytes :=
  if 1 ≤ minorVersion then ascii "close" else ascii "keep-alive"

/-- `keep_alive` is computed from the combined list of all `Connection` headers. -/
structure KeepAliveByList (req : Request) : Prop where
  http11 : 1 ≤ req.minorVersion →
    (req.keepAlive = false ↔ NamesToken req.headers (ascii "Connection") (ascii "close"))
  http10 : req.minorVersion = 0 →
    (req.keepAlive = true ↔ NamesToken req.headers (ascii "Connection") (ascii "keep-alive"))

theorem headerTokenPresent_iff (hname : name ≠ []) (htoken : token ≠ []) (headers : List Header) :
    headerTokenPresent headers name token = true ↔ FirstLineNames headers name token := by
  unfold headerTokenPresent FirstLineNames
  rw [porticoReqHeader_eq_head hname]
  cases (fieldLines name false headers).head? with
  | none => simp
  | some line =>
    have hany := any_tokens htoken line
    simp only [Option.some.injEq, exists_eq_left']
    exact (Bool.eq_iff_iff.mp hany).trans any_eq_true

theorem FirstLineNames.namesToken (h : FirstLineNames headers name token) :
    NamesToken headers name token := by
  obtain ⟨line, hline, t, ht, heq⟩ := h
  exact ⟨t, mem_flatMap.mpr ⟨line, mem_of_mem_head? hline, ht⟩, heq⟩

/-- With one line at most, the first line is the list. -/
theorem NamesToken.firstLine (hone : (fieldLines name false headers).length ≤ 1)
    (h : NamesToken headers name token) : FirstLineNames headers name token := by
  obtain ⟨t, ht, heq⟩ := h
  obtain ⟨line, hline, hmem⟩ := mem_flatMap.mp ht
  refine ⟨line, ?_, t, hmem, heq⟩
  generalize fieldLines name false headers = lines at hone hline ⊢
  match lines with
  | [only] =>
    rw [mem_singleton.mp hline]
    rfl

/-- What the parser stores, in terms of the first line. -/
theorem keepAlive_firstLine {phr : Bytes → Front RequestHead} {maxBody : Nat} {buf : Bytes}
    {total : Nat} {req : Request} (h : porticoHttpParse phr maxBody buf = .complete total req) :
    if 1 ≤ req.minorVersion then
      (req.keepAlive = false ↔ FirstLineNames req.headers (ascii "Connection") (ascii "close"))
    else
      (req.keepAlive = true ↔
        FirstLineNames req.headers (ascii "Connection") (ascii "keep-alive")) := by
  obtain ⟨pret, head, clen, _, _, _, _, _, rfl⟩ := porticoHttpParse_complete h
  show if 1 ≤ head.minorVersion then (keepsAlive head = false ↔ _) else (keepsAlive head = true ↔ _)
  unfold keepsAlive
  split
  · rw [Bool.not_eq_false', headerTokenPresent_iff (by decide) (by decide)]
    exact Iff.rfl
  · rw [headerTokenPresent_iff (by decide) (by decide)]
    exact Iff.rfl

/-- For every accepted request: `keep_alive` is what the combined list of the tokens of all
    `Connection` headers says exactly if the token that decides for its version, when the list
    has it, stands in the first line; with one line at most that is always so. -/
theorem keep_alive_by_list_iff (phr : Bytes → Front RequestHead) (maxBody : Nat) (buf : Bytes)
    (total : Nat) (req : Request) (h : porticoHttpParse phr maxBody buf = .complete total req) :
    (KeepAliveByList req ↔
      (NamesToken req.headers (ascii "Connection") (decisiveToken req.minorVersion) →
        FirstLineNames req.headers (ascii "Connection") (decisiveToken req.minorVersion))) ∧
    ((fieldLines (ascii "Connection") false req.headers).length ≤ 1 → KeepAliveByList req) := by
  have hiff : KeepAliveByList req ↔
      (NamesToken req.headers (ascii "Connection") (decisiveToken req.minorVersion) →
        FirstLineNames req.headers (ascii "Connection") (decisiveToken req.minorVersion)) := by
    have hstored := keepAlive_firstLine h
    unfold decisiveToken
    by_cases hver : 1 ≤ req.minorVersion
    · rw [if_pos hver] at hstored ⊢
      constructor
      · intro hlist hnames
        exact hstored.mp ((hlist.http11 hver).mpr hnames)
      · intro hfirst
        refine ⟨fun _ => ?_, fun hzero => by omega⟩
        exact hstored.trans ⟨FirstLineNames.namesToken, hfirst⟩
    · rw [if_neg hver] at hstored ⊢
      constructor
      · intro hlist hnames
        exact hstored.mp ((hlist.http10 (by omega)).mpr hnames)
      · intro hfirst
        refine ⟨fun hone => absurd hone hver, fun _ => ?_⟩
        exact hstored.trans ⟨FirstLineNames.namesToken, hfirst⟩
  exact ⟨hiff, fun hone => hiff.mpr (NamesToken.firstLine hone)⟩

/-- A token in another case, in the middle of the only line. -/
theorem keep_alive_by_list_iff_single :
    KeepAliveByList ⟨ascii "GET", ascii "/", none, 1,
      [⟨ascii "connection", ascii "x,\tClOsE ,not-close"⟩], [], false, []⟩ :=
  (keep_alive_by_list_iff phrParseRequest (16 * 1024 * 1024)
    (ascii "GET / HTTP/1.1\r\nconnection: x,\tClOsE ,not-close\r\n\r\n") 51 _ rfl).2 (by decide)

/-- The token `close` in a second `Connection` header: the connection is kept. -/
theorem second_connection_line_ignored :
    ∃ req, porticoHttpParse phrParseRequest (16 * 1024 * 1024)
        (ascii "GET / HTTP/1.1\r\nConnection: x\r\nConnection: close\r\n\r\n") = .complete 52 req ∧
      req.minorVersion = 1 ∧ req.keepAlive = true ∧
      NamesToken req.headers (ascii "Connection") (ascii "close") ∧ ¬ KeepAliveByList req := by
  have hnames : NamesToken [⟨ascii "Connection", ascii "x"⟩, ⟨ascii "Connection", ascii "close"⟩]
      (ascii "Connection") (ascii "close") := ⟨ascii "close", by decide, by decide⟩
  refine ⟨⟨ascii "GET", ascii "/", none, 1,
    [⟨ascii "Connection", ascii "x"⟩, ⟨ascii "Connection", ascii "close"⟩], [], true, []⟩,
    rfl, rfl, rfl, hnames, ?_⟩
  intro hlist
  have hclosed := (hlist.http11 (Nat.le_refl 1)).mpr hnames
  cases hclosed

/-! ## The client address and the combined `X-Forwarded-For` list -/

/-- `valid_ip`: an address text has at least one byte and fits `INET6_ADDRSTRLEN`. -/
def validIp (inetPton : Bytes → Bool) (s : Bytes) : Bool :=
  if s.length = 0 || 46 ≤ s.length then false else inetPton s

def trimBlanks (v : Bytes) : Bytes := (trimEndBy isBlank v).dropWhile isBlank

/-- The last element of a comma-separated list. -/
def lastOfList (v : Bytes) : Bytes := trimBlanks (v.reverse.takeWhile (· != 44)).reverse

/-- The last element of all `X-Forwarded-For` lines, joined in order into one list. -/
def forwardedFor (headers : List Header) : Option Bytes :=
  let lines := fieldLines (ascii "X-Forwarded-For") false headers
  if lines = [] then none else some (lastOfList ([44].intercalate lines))

/-- Dropping and taking at the front commute, if what is dropped would also be taken. -/
theorem takeWhile_dropWhile {p q : UInt8 → Bool} (hpq : ∀ b, p b = true → q b = true)
    (w : Bytes) : (w.dropWhile p).takeWhile q = (w.takeWhile q).dropWhile p := by
  induction w with
  | nil => rfl
  | cons b bs ih =>
    by_cases hp : p b = true
    · rw [dropWhile_cons_of_pos hp, takeWhile_cons_of_pos (hpq b hp),
        dropWhile_cons_of_pos hp, ih]
    · rw [dropWhile_cons_of_neg hp]
      by_cases hq : q b = true
      · rw [takeWhile_cons_of_pos hq, dropWhile_cons_of_neg hp]
      · rw [takeWhile_cons_of_neg hq]
        rfl

/-- The two loops from the end of the value find its last element. -/
theorem lastElement_eq (v : Bytes) : lastElement v = lastOfList v := by
  unfold lastElement lastOfList trimBlanks trimEndBy
  have hblank : ∀ b : UInt8, isBlank b = true → (b != 44) = true := by decide +kernel
  rw [reverse_reverse, reverse_reverse, takeWhile_dropWhile hblank]

/-- The last element of the first `X-Forwarded-For` line. -/
def firstForwarded (headers : List Header) : Option Bytes :=
  (fieldLines (ascii "X-Forwarded-For") false headers).head?.map lastOfList

/-- The element, if it is a valid address, or the peer's. -/
def addressOf (inetPton : Bytes → Bool) (peerIp : Bytes) (element : Option Bytes) : Bytes :=
  (element.filter (validIp inetPton)).getD peerIp

/-- The last element of the first line and that of the joined list give the same address. -/
def FirstLineDecides (inetPton : Bytes → Bool) (peerIp : Bytes) (headers : List Header) : Prop :=
  addressOf inetPton peerIp (firstForwarded headers) =
    addressOf inetPton peerIp (forwardedFor headers)

instance (inetPton : Bytes → Bool) (peerIp : Bytes) (headers : List Header) :
    Decidable (FirstLineDecides inetPton peerIp headers) := inferInstanceAs (Decidable (_ = _))

theorem resolveClientIp_eq (inetPton : Bytes → Bool) (peerIp : Bytes)
    (hreal : porticoReqHeader headers (ascii "X-Real-IP") = none) :
    resolveClientIp ⟨true, validIp inetPton, peerIp⟩ headers =
      addressOf inetPton peerIp (firstForwarded headers) := by
  unfold resolveClientIp firstForwarded addressOf
  rw [hreal, porticoReqHeader_eq_head (by decide)]
  cases (fieldLines (ascii "X-Forwarded-For") false headers).head? with
  | none => rfl
  | some line =>
    simp only [if_true, lastElement_eq, Option.map_some, Option.filter_some]
    by_cases hvalid : validIp inetPton (lastOfList line) = true
    · have hne : line ≠ [] := by
        intro hnil
        rw [hnil] at hvalid
        cases hvalid
      rw [if_pos ⟨hne, hvalid⟩, if_pos hvalid]
      rfl
    · rw [if_neg fun h => hvalid h.2, if_neg hvalid]
      rfl

/-- One line is the whole list. -/
theorem firstForwarded_eq (hone : (fieldLines (ascii "X-Forwarded-For") false headers).length ≤ 1) :
    firstForwarded headers = forwardedFor headers := by
  unfold firstForwarded forwardedFor
  generalize fieldLines (ascii "X-Forwarded-For") false headers = lines at hone ⊢
  match lines with
  | [] => rfl
  | [line] => simp

/-- With a trusted proxy, for every two requests on one connection that have no `X-Real-IP` and the
    same last element in their `X-Forwarded-For` lists: their client addresses are the same, and
    that element, if it is valid, or the peer's, exactly if in both the last element of the first
    line gives the same address as that of the list. With one line at most that is always so. -/
theorem client_ip_by_last_element_iff (inetPton : Bytes → Bool) (peerIp : Bytes)
    (headers₁ headers₂ : List Header)
    (hreal₁ : porticoReqHeader headers₁ (ascii "X-Real-IP") = none)
    (hreal₂ : porticoReqHeader headers₂ (ascii "X-Real-IP") = none)
    (hlast : forwardedFor headers₁ = forwardedFor headers₂) :
    (resolveClientIp ⟨true, validIp inetPton, peerIp⟩ headers₁ =
          resolveClientIp ⟨true, validIp inetPton, peerIp⟩ headers₂ ∧
        resolveClientIp ⟨true, validIp inetPton, peerIp⟩ headers₁ =
          addressOf inetPton peerIp (forwardedFor headers₁) ↔
      FirstLineDecides inetPton peerIp headers₁ ∧ FirstLineDecides inetPton peerIp headers₂) ∧
    ((fieldLines (ascii "X-Forwarded-For") false headers₁).length ≤ 1 →
      FirstLineDecides inetPton peerIp headers₁) := by
  rw [resolveClientIp_eq inetPton peerIp hreal₁, resolveClientIp_eq inetPton peerIp hreal₂]
  unfold FirstLineDecides
  rw [← hlast]
  refine ⟨⟨fun ⟨hsame, hip⟩ => ⟨hip, hsame.symm.trans hip⟩, ?_⟩, fun hone => ?_⟩
  · exact fun ⟨h₁, h₂⟩ => ⟨h₁.trans h₂.symm, h₁⟩
  · rw [firstForwarded_eq hone]

/-- A number of a dotted quad: no leading zero, at most 255. -/
def isOctet (s : Bytes) : Bool :=
  s != [] && s.all (fun b => 48 ≤ b && b ≤ 57) && (s.length == 1 || s.head? != some 48) &&
    decimalValue s ≤ 255

/-- `inet_pton` for `AF_INET`. -/
def inetPton4 (s : Bytes) : Bool :=
  let octets := s.splitOnP (· == 46)
  octets.length == 4 && octets.all isOctet

/-- Forged elements in front of the proxy's, and a line that repeats it, change nothing. -/
theorem client_ip_by_last_element_iff_forged :
    resolveClientIp ⟨true, validIp inetPton4, ascii "10.0.0.1"⟩
        [⟨ascii "X-Forwarded-For", ascii "6.6.6.6, 1.2.3.4 "⟩,
          ⟨ascii "X-Forwarded-For", ascii "1.2.3.4"⟩] =
      resolveClientIp ⟨true, validIp inetPton4, ascii "10.0.0.1"⟩
        [⟨ascii "x-forwarded-for", ascii "1.2.3.4"⟩] :=
  ((client_ip_by_last_element_iff inetPton4 (ascii "10.0.0.1") _ _ rfl rfl rfl).1.mpr
    (by decide +kernel)).1

/-- A forged line in front of the proxy's is believed: the lists have the same last element, and
    the addresses differ. -/
theorem first_forwarded_line_believed :
    forwardedFor [⟨ascii "X-Forwarded-For", ascii "6.6.6.6"⟩,
        ⟨ascii "X-Forwarded-For", ascii "1.2.3.4"⟩] =
      forwardedFor [⟨ascii "X-Forwarded-For", ascii "1.2.3.4"⟩] ∧
    resolveClientIp ⟨true, validIp inetPton4, ascii "10.0.0.1"⟩
        [⟨ascii "X-Forwarded-For", ascii "6.6.6.6"⟩, ⟨ascii "X-Forwarded-For", ascii "1.2.3.4"⟩] =
      ascii "6.6.6.6" ∧
    resolveClientIp ⟨true, validIp inetPton4, ascii "10.0.0.1"⟩
        [⟨ascii "X-Forwarded-For", ascii "1.2.3.4"⟩] = ascii "1.2.3.4" := by
  refine ⟨rfl, ?_, ?_⟩
  · decide +kernel
  · decide +kernel

end Portico.Http
