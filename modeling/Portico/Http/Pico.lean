/-
  The request parser of third_party/picohttpparser/picohttpparser.c: `phr_parse_request` as the
  server calls it, on the whole buffer each time (`last_len` 0).

  Model. The functions are scanners over the buffer (`Portico.Lib.Scan`): `more` stands for the
  result -2, `bad` for -1. The vector instructions of `findchar_fast` only skip bytes that the
  byte loop behind them would pass as well, so a token is read byte by byte here. A folded header
  line has the empty name. Lengths are not cut to `int`: the receive buffer is far shorter.

  Proved: `phrParseRequest_local`, the result on a complete head depends only on the head, and a
  malformed buffer stays malformed when it grows; `phrParseRequest_plain`, the path and the values
  of headers have no control characters.
-/
import Portico.Lib.Scan
import Portico.Ws.Handshake

namespace Portico.Http

open Portico.Lib Portico.Ws List

/-- `struct phr_header`, and `portico_header_t`. -/
structure Header where
  name : Bytes
  value : Bytes
  deriving DecidableEq, Repr

/-- What `phr_parse_request` fills in. -/
structure RequestHead where
  method : Bytes
  path : Bytes
  minorVersion : Nat
  headers : List Header
  deriving DecidableEq, Repr

/-- `token_char_map`. -/
def tokenChar (b : UInt8) : Bool :=
  b == 33 || (35 ≤ b && b ≤ 39) || b == 42 || b == 43 || b == 45 || b == 46 ||
    (48 ≤ b && b ≤ 57) || (65 ≤ b && b ≤ 90) || (94 ≤ b && b ≤ 122) || b == 124 || b == 126

/-- Stops in front of `nextChar`. -/
def parseToken (nextChar : UInt8) : Bytes → Scan UInt8 Bytes := takeUntil (· == nextChar) tokenChar

/-- `ADVANCE_TOKEN`, for the path. -/
def advanceToken : Bytes → Scan UInt8 Bytes :=
  takeUntil (· == 32) fun b => !(b < 32 || b == 127)

/-- The loops that skip spaces, and those that skip spaces and tabs. -/
def skipSpaces : Bytes → Scan UInt8 Bytes := takeUntil (· != 32) fun _ => true
def skipBlanks : Bytes → Scan UInt8 Bytes := takeUntil (fun b => !isBlank b) fun _ => true

/-- `EXPECT_CHAR('\012')`. -/
def expectLf : Bytes → Scan UInt8 Unit
  | [] => .more
  | b :: bs => if b = 10 then .done () bs else .bad

/-- A line ends with CRLF or with a bare LF. -/
def eol : Bytes → Scan UInt8 Unit :=
  byHead (· == 13) (skipOne expectLf) expectLf

def isCtl (b : UInt8) : Bool := (b < 32 && b != 9) || b == 127

def getTokenToEol (s : Bytes) : Scan UInt8 Bytes :=
  (takeUntil isCtl (fun _ => true) s).bind fun token rest => (eol rest).map fun _ => token

/-- At least `HTTP/1.` and two more characters must be there; the second is not taken. -/
def parseHttpVersion (s : Bytes) : Scan UInt8 Nat :=
  if s.length < 9 then .more
  else if s.take 7 ≠ ascii "HTTP/1." then .bad
  else match s.drop 7 with
    | [] => .more
    | d :: rest => if 48 ≤ d && d ≤ 57 then .done (d.toNat - 48) rest else .bad

/-- The name of a header, its colon, and the blanks behind that. -/
def headerName (s : Bytes) : Scan UInt8 Bytes :=
  (parseToken 58 s).bind fun name rest =>
    if name = [] then .bad else (skipOne skipBlanks rest).map fun _ => name

/-- One round of `parse_headers`: a header, or, behind another one, a folded line. -/
def headerLine (first : Bool) : Bytes → Scan UInt8 Header :=
  byHead (fun b => !first && isBlank b)
    (fun s => (getTokenToEol s).map fun value => ⟨[], trimEndBy isBlank value⟩)
    fun s => (headerName s).bind fun name rest =>
      (getTokenToEol rest).map fun value => ⟨name, trimEndBy isBlank value⟩

def isEol (b : UInt8) : Bool := b == 13 || b == 10

/-- The first argument is how many headers there is still room for. -/
def parseHeaders : Nat → Bool → Bytes → Scan UInt8 (List Header)
  | 0, _ => byHead isEol (fun s => (eol s).map fun _ => []) fun _ => .bad
  | left + 1, first =>
    byHead isEol (fun s => (eol s).map fun _ => []) fun s =>
      (headerLine first s).bind fun h rest => (parseHeaders left false rest).map (h :: ·)

/-- `PORTICO_MAX_HEADERS`. -/
def maxHeaders : Nat := 64

/-- The part of `parse_request` behind an empty first line. -/
def requestLine (s : Bytes) : Scan UInt8 RequestHead :=
  (parseToken 32 s).bind fun method s =>
  (skipSpaces s).bind fun _ s =>
  (advanceToken s).bind fun path s =>
  (skipSpaces s).bind fun _ s =>
  if method = [] ∨ path = [] then .bad
  else
    (parseHttpVersion s).bind fun minorVersion s =>
    (eol s).bind fun _ s =>
    (parseHeaders maxHeaders true s).map fun headers => ⟨method, path, minorVersion, headers⟩

/-- An empty first line is skipped. -/
def parseRequest : Bytes → Scan UInt8 RequestHead :=
  byHead (· == 13) (skipOne fun s => (expectLf s).bind fun _ => requestLine)
    (byHead (· == 10) (skipOne requestLine) requestLine)

def phrParseRequest (s : Bytes) : Front RequestHead := (parseRequest s).front s

/-! ## What the result depends on -/

theorem expectLf_exact : Exact expectLf := by
  refine ⟨fun {s} h t => ?_, fun {s v r} h => ?_⟩
  · cases s with
    | nil => cases h
    | cons b bs =>
      simp only [expectLf, cons_append] at h ⊢
      split at h
      · cases h
      · rw [if_neg ‹_›]
  · cases s with
    | nil => cases h
    | cons b bs =>
      simp only [expectLf] at h
      split at h
      · cases h
        refine ⟨[b], by simp, rfl, fun t => ?_⟩
        simp only [singleton_append, expectLf, if_pos ‹_›]
      · cases h

theorem eol_exact : Exact eol := expectLf_exact.skipOne.byHead _ expectLf_exact

theorem getTokenToEol_exact : Exact getTokenToEol :=
  Peeking.takeUntil.bind fun _ => eol_exact.map _

theorem parseHttpVersion_peeking : Peeking parseHttpVersion := by
  refine ⟨fun {s} h t => ?_, fun {s v r} h => ?_⟩
  · unfold parseHttpVersion at h ⊢
    by_cases hlen : s.length < 9
    · rw [if_pos hlen] at h
      cases h
    have hlen' : ¬ (s ++ t).length < 9 := by
      rw [length_append]
      omega
    rw [if_neg hlen] at h
    rw [if_neg hlen', take_append_of_le_length (by omega),
      drop_append_of_le_length (by omega)]
    split at h
    · rw [if_pos ‹_›]
    rw [if_neg ‹_›]
    cases hd : s.drop 7 with
    | nil => rw [hd] at h; cases h
    | cons d rest =>
      rw [hd] at h
      simp only [cons_append] at h ⊢
      split at h
      · cases h
      · rw [if_neg ‹_›]
  · unfold parseHttpVersion at h
    by_cases hlen : s.length < 9
    · rw [if_pos hlen] at h
      cases h
    rw [if_neg hlen] at h
    split at h
    · cases h
    rename_i htake
    -- the seven characters, the digit, and the one behind it
    match s, hlen, htake, h with
    | a0 :: a1 :: a2 :: a3 :: a4 :: a5 :: a6 :: d :: b :: r', _, htake, h =>
      simp only [drop_succ_cons, drop_zero] at h
      split at h
      · cases h
        refine ⟨[a0, a1, a2, a3, a4, a5, a6, d], b, r', rfl, rfl, fun t => ?_⟩
        unfold parseHttpVersion
        simp only [take_succ_cons, take_zero] at htake
        simp only [cons_append, nil_append, length_cons, take_succ_cons,
          take_zero, drop_succ_cons, drop_zero]
        rw [if_neg (by omega), if_neg htake, if_pos ‹_›]
      · cases h
    | [_, _, _, _, _, _, _, _], hlen, _, _ => exact absurd (Nat.lt_succ_self 8) hlen

theorem headerName_peeking : Peeking headerName := by
  refine Peeking.takeUntil.bind_peeking fun name => ?_
  by_cases hname : name = []
  · simp only [if_pos hname]
    exact ⟨fun _ _ => rfl, fun h => by cases h⟩
  · simp only [if_neg hname]
    exact Peeking.takeUntil.skipOne.map _

theorem headerLine_exact (first : Bool) : Exact (headerLine first) :=
  (getTokenToEol_exact.map _).byHead _
    (headerName_peeking.bind fun _ => getTokenToEol_exact.map _)

theorem parseHeaders_exact : ∀ (left : Nat) (first : Bool), Exact (parseHeaders left first) := by
  intro left
  induction left with
  | zero => intro first; exact (eol_exact.map _).byHead _ Exact.const_bad
  | succ left ih =>
    intro first
    exact (eol_exact.map _).byHead _
      ((headerLine_exact first).bind fun h => (ih false).map (h :: ·))

theorem requestLine_exact : Exact requestLine := by
  refine Peeking.takeUntil.bind fun method => Peeking.takeUntil.bind fun _ =>
    Peeking.takeUntil.bind fun path => Peeking.takeUntil.bind fun _ => ?_
  by_cases hempty : method = [] ∨ path = []
  · simp only [if_pos hempty]
    exact Exact.const_bad
  · simp only [if_neg hempty]
    exact parseHttpVersion_peeking.bind fun _ => eol_exact.bind fun _ =>
      (parseHeaders_exact maxHeaders true).map _

theorem parseRequest_exact : Exact parseRequest :=
  (expectLf_exact.bind fun _ => requestLine_exact).skipOne.byHead _
    (requestLine_exact.skipOne.byHead _ requestLine_exact)

/-- A complete head is found from its own bytes, and a malformed buffer stays malformed. -/
theorem phrParseRequest_local : FrontLocal phrParseRequest := parseRequest_exact.front

/-! ## What the bytes of a head are -/

/-- No blank and no control character in the path, and none but tabs in a value. -/
structure RequestHead.Plain (head : RequestHead) : Prop where
  path : ∀ b ∈ head.path, 32 < b ∧ b ≠ 127
  value : ∀ h ∈ head.headers, ∀ b ∈ h.value, isCtl b = false

def Header.Plain (h : Header) : Prop := ∀ b ∈ h.value, isCtl b = false

theorem getTokenToEol_plain : Yields (fun v => ∀ b ∈ v, isCtl b = false) getTokenToEol := by
  refine (Yields.takeUntil isCtl _).bind fun token htoken => ?_
  exact (Yields.anything eol).map fun _ _ b hb => (htoken b hb).1

theorem plain_trimEndBy {value : Bytes} (h : ∀ b ∈ value, isCtl b = false) (name : Bytes) :
    (Header.mk name (trimEndBy isBlank value)).Plain := by
  intro b hb
  have hdrop := mem_reverse.mp hb
  exact h b (mem_reverse.mp (dropWhile_subset _ hdrop))

theorem headerLine_plain (first : Bool) : Yields Header.Plain (headerLine first) := by
  refine Yields.byHead (getTokenToEol_plain.map fun value h => plain_trimEndBy h []) ?_
  refine (Yields.anything headerName).bind fun name _ => ?_
  exact getTokenToEol_plain.map fun value h => plain_trimEndBy h name

theorem parseHeaders_plain : ∀ (left : Nat) (first : Bool),
    Yields (fun headers => ∀ h ∈ headers, h.Plain) (parseHeaders left first) := by
  have hend : Yields (fun headers : List Header => ∀ h ∈ headers, h.Plain)
      fun s => (eol s).map fun _ => [] :=
    (Yields.anything eol).map fun _ _ _ h => absurd h not_mem_nil
  intro left
  induction left with
  | zero => exact fun first => hend.byHead Yields.const_bad
  | succ left ih =>
    intro first
    refine hend.byHead ?_
    refine (headerLine_plain first).bind fun h hh => ?_
    exact (ih false).map fun headers hheaders => forall_mem_cons.mpr ⟨hh, hheaders⟩

theorem requestLine_plain : Yields RequestHead.Plain requestLine := by
  refine (Yields.anything _).bind fun method _ => (Yields.anything _).bind fun _ _ => ?_
  refine (Yields.takeUntil _ _).bind fun path hpath => (Yields.anything _).bind fun _ _ => ?_
  by_cases hempty : method = [] ∨ path = []
  · simp only [if_pos hempty]
    exact Yields.const_bad
  · simp only [if_neg hempty]
    refine (Yields.anything _).bind fun _ _ => (Yields.anything _).bind fun _ _ => ?_
    refine (parseHeaders_plain maxHeaders true).map fun headers hheaders => ⟨?_, hheaders⟩
    intro b hb
    obtain ⟨hspace, hlegal⟩ := hpath b hb
    simp only [Bool.not_eq_true', Bool.or_eq_false_iff, decide_eq_false_iff_not,
      beq_eq_false_iff_ne] at hspace hlegal
    refine ⟨?_, hlegal.2⟩
    exact UInt8.lt_of_le_of_ne (UInt8.not_lt.mp hlegal.1) (Ne.symm hspace)

/-- Every head that is found is plain. -/
theorem phrParseRequest_plain {s : Bytes} {n : Nat} {head : RequestHead}
    (h : phrParseRequest s = .item n head) : head.Plain :=
  Yields.front (((Yields.anything _).bind fun _ _ => requestLine_plain).skipOne.byHead
    (requestLine_plain.skipOne.byHead requestLine_plain)) h

end Portico.Http
