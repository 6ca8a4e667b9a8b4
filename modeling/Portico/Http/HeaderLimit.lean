/-
  The limit on the size of a header block.

  The limit is tested when a handler finds no complete request at the front of the buffer, on the
  bytes of the buffer, and only while they hold no CRLFCRLF. While an answer is in flight nothing
  is tested. The header block stands anywhere in the stream, behind the requests that
  `WebServer.taken` takes.

  Proved: `header_limit`, for a header block that ends at its first CRLFCRLF. The request is
  answered 431 exactly if the block is too long, provided that, if it is, some drain that is tested
  ends behind the limit and inside the block; then the request is not handed to the application.
  For other blocks and other drains the limit is missed both ways (`header_limit_misses`): a block
  that is too long and is read in one drain is handed to the application, and a short one whose
  lines end with bare LFs is refused when its body is long enough.
-/
import Portico.Http.Splits

namespace Portico.Http

open Portico.Lib Portico.Ws Portico.Ws.OutConn WebConn List

/-! ## Header blocks of a stream -/

/-- A header block, as the parser takes it, that ends at its first CRLFCRLF. -/
structure HeaderBlock (srv : WebServer) (block : Bytes) : Prop where
  parsed : ∃ head, srv.phr block = .item block.length head
  ends : ∃ term, findTerm block = some term ∧ block.length = term + 4

/-- The request behind the first `n` is answered 431. -/
def RefusedAt (n : Nat) (trace : List WebAct) : Prop :=
  ∃ before b after, trace = before ++ .queue (.whole (.refusal 431) b) :: after ∧
    (dispatches before).length = n

/-- Some of the bytes are more than the limit, without a CRLFCRLF. -/
def TooLong (bytes : Bytes) : Prop :=
  ∃ part, part <+: bytes ∧ findTerm part = none ∧ maxHeaderSize < part.length

variable {srv : WebServer} {bytes block rest part : Bytes} {n total : Nat} {acts : List WebAct}

/-- A CRLFCRLF inside a part of a buffer is found in the part. -/
theorem findTerm_part :
    ∀ {part : Bytes} {term : Nat}, findTerm (part ++ rest) = some term → term + 4 ≤ part.length →
      findTerm part = some term := by
  intro part
  induction part with
  | nil => intro term _ hlen; exact absurd hlen (by simp)
  | cons b part ih =>
    intro term h hlen
    have htake : (b :: part ++ rest).take 4 = (b :: part).take 4 :=
      take_append_of_le_length (by omega)
    rw [cons_append] at h htake
    simp only [findTerm, htake] at h ⊢
    split at h
    · rwa [if_pos ‹_›]
    · obtain ⟨j, hj, rfl⟩ := Option.map_eq_some_iff.mp h
      rw [length_cons] at hlen
      rw [if_neg ‹_›, ih hj (by omega)]
      rfl

/-- The first bytes of a stream have no CRLFCRLF just if the block is not complete in them. -/
theorem HeaderBlock.part_term (h : HeaderBlock srv block) (hpart : part <+: block ++ rest) :
    findTerm part = none ↔ part.length < block.length := by
  obtain ⟨term, hterm, hlen⟩ := h.ends
  obtain ⟨left, hleft⟩ := hpart
  have hall : findTerm (part ++ left) = some term := hleft ▸ findTerm_append rest hterm
  constructor
  · intro hnone
    by_contra hge
    rw [findTerm_part hall (by omega)] at hnone
    cases hnone
  · intro hlt
    cases hfind : findTerm part with
    | none => rfl
    | some =>
      have hsame := findTerm_append left hfind
      rw [hall] at hsame
      cases hsame
      exact absurd (findTerm_bound hfind) (by omega)

theorem HeaderBlock.tooLong (h : HeaderBlock srv block) (hlong : TooLong (block ++ rest)) :
    maxHeaderSize < block.length := by
  obtain ⟨part, hpart, hterm, hlen⟩ := hlong
  exact Nat.lt_trans hlen ((h.part_term hpart).mp hterm)

/-- A part of the block is no request. -/
theorem HeaderBlock.part_more (h : HeaderBlock srv block) (hpart : part <+: block)
    (hlen : part.length < block.length) : srv.front part = .more := by
  obtain ⟨head, hphr⟩ := h.parsed
  obtain ⟨left, hleft⟩ := hpart
  have hmore : srv.phr part = .more := by
    cases hp : srv.phr part with
    | more => rfl
    | bad =>
      rw [← hleft, srv.phr_local.bad hp left] at hphr
      cases hphr
    | item n head' =>
      have hbounds := srv.phr_local.item hp
      have hsame := srv.phr_local.item_append hp left
      rw [hleft, hphr] at hsame
      cases hsame
      omega
  unfold WebServer.front porticoHttpParse
  rw [hmore]
  split <;> rfl

theorem RefusedAt.of_append {trace : List WebAct} (h : RefusedAt n (trace ++ acts)) :
    RefusedAt n trace ∨ ∃ b, .queue (.whole (.refusal 431) b) ∈ acts ∧
      (dispatches acts = [] → (dispatches trace).length = n) := by
  obtain ⟨before, b, after, heq, hn⟩ := h
  rcases append_eq_append_iff.mp heq with ⟨mid, hmid, hacts⟩ | ⟨mid, hmid, hacts⟩
  · refine .inr ⟨b, hacts ▸ mem_append_right _ mem_cons_self, fun hnone => ?_⟩
    have hmidd : dispatches mid = [] := by
      rw [hacts, dispatches_append] at hnone
      exact (append_eq_nil_iff.mp hnone).1
    rw [← hn, hmid, dispatches_append, hmidd, append_nil]
  · cases mid with
    | nil =>
      rw [nil_append] at hacts
      rw [append_nil] at hmid
      exact .inr ⟨b, hacts ▸ mem_cons_self, fun _ => hmid ▸ hn⟩
    | cons a mid =>
      rw [cons_append, cons.injEq] at hacts
      obtain ⟨rfl, -⟩ := hacts
      exact .inl ⟨before, b, mid, hmid, hn⟩

/-! ## What is refused -/

/-- Where a trace refuses a header block, the stream has one that is too long. -/
def RefusesLong (srv : WebServer) (input : Bytes) (trace : List WebAct) : Prop :=
  ∀ n, RefusedAt n trace → ∃ reqs bytes, srv.taken input n = some (reqs, bytes) ∧ TooLong bytes

variable {input : Bytes} {next next' : Next} {c c' : WebConn} {ok : Bool} {silent : Prop}
  {status : Int} {b : Bytes}

theorem RefusesLong.append {trace : List WebAct} (h : RefusesLong srv input trace)
    (hacts : ∀ b, .queue (.whole (.refusal 431) b) ∈ acts → dispatches acts = [] ∧
      ∃ reqs bytes, srv.taken input (dispatches trace).length = some (reqs, bytes) ∧
        TooLong bytes) :
    RefusesLong srv input (trace ++ acts) := by
  intro n hn
  rcases hn.of_append with hn | ⟨b, hmem, hcount⟩
  · exact h n hn
  · obtain ⟨hnone, hlong⟩ := hacts b hmem
    rwa [← hcount hnone]

/-- The front of the buffer is refused. -/
theorem RefusesLong.refuses (h : RefusesLong srv input c.trace) (hfol : Follows srv input c)
    (hacts : acts = [] ∨ acts = [.queue (.whole (.refusal status) b)])
    (he : Ends silent c c' acts ok)
    (hwhy : status = 431 → findTerm c.recv.bytes = none ∧ maxHeaderSize < c.recv.bytes.length) :
    RefusesLong srv input c'.trace := by
  rw [he.trace]
  refine h.append fun b' hmem => ?_
  rcases hacts with rfl | rfl
  · cases hmem
  · simp only [mem_singleton, WebAct.queue.injEq, Piece.whole.injEq, ReplyTo.refusal.injEq] at hmem
    exact ⟨rfl, _, _, hfol.2, c.recv.bytes, prefix_append _ _, hwhy hmem.1.symm⟩

theorem Refuses.limit (h : Refuses srv bytes status) (h431 : status = 431) :
    findTerm bytes = none ∧ maxHeaderSize < bytes.length := by
  subst h431
  exact (h.resolve_left fun ⟨_, hfront⟩ => absurd (WebServer.front_error hfront) (by decide)).2

theorem refusesLong_round (hround : RoundTo srv silent c next c' next')
    (hat : StepAt srv input next c) (h : RefusesLong srv input c.trace) :
    RefusesLong srv input c'.trace := by
  have hfol := hround.follows hat.1 hat.2
  cases hround with
  | wait | blocked | submit | finish => exact h
  | refuse hwhy hacts hends => exact h.refuses hfol hacts hends hwhy.limit
  | giveUp _ hacts _ hends =>
    rw [hends.trace]
    refine h.append fun b hmem => ?_
    rcases hacts with rfl | rfl <;> simp at hmem
  | answer _ _ _ hgoes | park _ _ hgoes | start _ _ _ hgoes | chunk _ _ _ hgoes =>
    obtain ⟨out, -, rfl⟩ := hgoes
    exact h.append (by simp)
  | stop _ hends =>
    rw [hends.trace]
    exact h.append (by simp)

/-- Between events. -/
def InPlace (srv : WebServer) (input : Bytes) (c : WebConn) : Prop :=
  InStep srv input c ∧ RefusesLong srv input c.trace

theorem refusesLong_entry (hopen : c.out.closed = false) (h : InPlace srv input c)
    (hentry : Entry srv silent c c' next) : RefusesLong srv input c'.trace := by
  obtain ⟨hin, h⟩ := h
  induction hentry with
  | ignore | drained | resume => exact h
  | hold _ _ _ hr | serve _ _ _ hr | begin _ _ hr | upgrade _ hr | enter _ hr =>
    obtain ⟨bytes, capacity, pending, -, rfl⟩ := hr
    exact h
  | fileAnswer _ _ hgoes =>
    rw [hgoes.trace]
    exact h.append (by simp)
  | fileGiveUp _ hacts hends =>
    rw [hends.trace]
    refine h.append fun b hmem => ?_
    rcases hacts with rfl | rfl <;> simp at hmem
  | round he hround ih => exact refusesLong_round hround (inStep_entry hopen hin he) ih
  | @beginRefuse c1 _ _ _ _ _ hb hr hacts hends hwhy =>
    have hfol := (hin.2.resolve_left (by rw [hopen]; decide)).begins hb hr
    have h1 : RefusesLong srv input c1.trace := by
      obtain ⟨bytes, capacity, pending, -, rfl⟩ := hr
      exact h
    exact h1.refuses hfol hacts hends hwhy

theorem inPlace_step (c : WebConn) (ev : WebEvent) (c' : WebConn) :
    InPlace srv input c → webStep srv c ev = some c' → InPlace srv input c' :=
  webStep_rule (J := fun next c => StepAt srv input next c ∧ RefusesLong srv input c.trace)
    (fun hin hdrop => ⟨inStep_drops hdrop, hdrop.trace ▸ hin.2⟩)
    (fun hopen hin hentry => ⟨inStep_entry hopen hin.1 hentry, refusesLong_entry hopen hin hentry⟩)
    (fun hround hat => ⟨inStep_round hround hat.1, refusesLong_round hround hat.1 hat.2⟩)
    (fun {c} ok deferring hat => ⟨inStep_leave ok deferring hat.1,
      settle_leave (P := fun c' => RefusesLong srv input c'.trace) c deferring ok
        (fun _ => hat.2) (fun _ => hat.2) fun _ => hat.2⟩) c ev c'

theorem inPlace_run {tls : Bool} {events : List WebEvent}
    (hrun : run (webStep srv) (WebConn.accepted tls input) events = some c) :
    InPlace srv input c := by
  refine run_invariant_all inPlace_step events _ c ⟨inStep_accepted srv tls input, ?_⟩ hrun
  rintro n ⟨before, b, after, heq, -⟩
  exact absurd heq.symm (append_ne_nil_of_right_ne_nil _ (cons_ne_nil _ _))

/-! ## A drain that is tested -/

/-- The event drains the socket of a connection with nothing in flight and nothing left to send,
    and the socket takes what is answered. -/
structure TestedDrain (handshake : Bytes → Bytes × Bool) (c : WebConn) (step : TlsStep)
    (turns : List Turn) (script : List Env) : Prop extends Clear c where
  state : c.out.state = .http ∨ c.out.state = .connecting ∨
    (c.out.state = .tlsHandshake ∧ step = .done)
  flag : c.closeWhenDrained = false
  inflight : c.asyncInflight = false
  blocks : (readIntoRecv turns c.recv c.pending).2.2 = true
  takes : (script.headD .quiet).Accepting handshake

variable {handshake : Bytes → Bytes × Bool} {script : List Env} {turns : List Turn}
  {step : TlsStep} {head : RequestHead}

theorem processHttpBuffer_ret (h : c.serveRound srv (script.headD .quiet) = (c', .ret ok)) :
    c.processHttpBuffer srv script = (c', ok) := by
  unfold processHttpBuffer goOn loopBound
  rw [runLoop_serve, h, runLoop_ret]
  cases ok <;> rfl

/-- A plain-HTTP connection tests a buffer that holds a part of a block. -/
theorem processHttpBuffer_refuses (he : (script.headD .quiet).Accepting handshake) (hc : Clear c)
    (hmore : srv.front c.recv.bytes = .more) (hterm : findTerm c.recv.bytes = none)
    (hover : maxHeaderSize < c.recv.bytes.length) :
    c.processHttpBuffer srv script = (c.sent (refusal 431), false) := by
  obtain ⟨-, hround⟩ | ⟨_, _, hfront, -⟩ | ⟨_, _, hfront, -⟩ :=
    serveRound_front srv (script.headD .quiet) c
  · rw [if_pos ⟨hterm, hover⟩, httpRefuse_taken he hc (by decide)] at hround
    exact processHttpBuffer_ret hround
  all_goals rw [hmore] at hfront; cases hfront

/-- An unclassified connection does. -/
theorem gate_refuses (he : (script.headD .quiet).Accepting handshake) (hc : Clear c)
    (hterm : findTerm c.recv.bytes = none) (hover : maxHeaderSize < c.recv.bytes.length) :
    c.gate srv script = (c.sent (refusal 431), false) := by
  unfold WebConn.gate
  rw [hterm]
  dsimp only
  rw [if_pos hover, httpRefuse_taken he hc (by decide)]

/-- A drain that is tested ends behind the limit and inside the block. -/
theorem TestedDrain.refuses (h : TestedDrain handshake c step turns script)
    (hblock : HeaderBlock srv block) (hin : c.recv.bytes ++ c.pending = block ++ rest)
    (hover : maxHeaderSize < (c.drained turns).length)
    (hunder : (c.drained turns).length < block.length)
    (hstep : webStep srv c (.readable step turns script) = some c') :
    c'.out.closed = true ∧ c'.trace = c.trace ++ [.queue (refusal 431)] := by
  have hopen := (webStep_handled hstep).1
  obtain ⟨part, capacity, pending', hpend, hread⟩ := afterRead_reads turns c
  have hblocks := h.blocks
  unfold WebConn.drained at hover hunder
  rcases hr : readIntoRecv turns c.recv c.pending with ⟨recv, pending, ok⟩
  rw [hr] at hover hunder hread hblocks
  cases (show ok = true from hblocks)
  dsimp only at hover hunder hread
  have hrecv : recv.bytes = c.recv.bytes ++ part := congrArg (·.recv.bytes) hread
  have hpart : recv.bytes <+: block ++ rest := by
    rw [← hin, hrecv, hpend, ← append_assoc]
    exact prefix_append _ _
  have hterm := (hblock.part_term hpart).mpr hunder
  have hmore := hblock.part_more
    (prefix_of_prefix_length_le hpart (prefix_append _ _) (Nat.le_of_lt hunder)) hunder
  have hclear : Clear (c.afterRead recv pending) := ⟨h.shut, h.sent⟩
  simp only [webStep, hopen, Bool.false_eq_true, if_false, Option.map_eq_some_iff] at hstep
  obtain ⟨r, hhandled, rfl⟩ := hstep
  unfold WebConn.handleConnectionRead at hhandled
  rcases h.state with hstate | hstate | ⟨hstate, rfl⟩ <;> rw [hstate] at hhandled <;>
    cases hhandled
  · rw [porticoHttpEvent_read h.flag h.inflight hr,
      processHttpBuffer_refuses h.takes hclear hmore hterm hover]
    exact ⟨rfl, rfl⟩
  · rw [porticoInitialDispatch_gate hr, gate_refuses h.takes hclear hterm hover]
    exact ⟨rfl, rfl⟩
  · have hr' : readIntoRecv turns (c.withState .connecting).recv (c.withState .connecting).pending =
        (recv, pending, true) := hr
    have hclear' : Clear ((c.withState .connecting).afterRead recv pending) := ⟨h.shut, h.sent⟩
    unfold WebConn.handleTlsHandshake
    dsimp only
    rw [← WebConn.withState, porticoInitialDispatch_gate hr',
      gate_refuses h.takes hclear' hterm hover]
    exact ⟨rfl, rfl⟩

/-- A request with `k` blanks in front of the value of its header. -/
def paddedRequest (k : Nat) : Bytes :=
  ascii "GET / HTTP/1.1\r\nX:" ++ (replicate k 32 ++ ascii "a\r\n\r\n")

theorem paddedRequest_length (k : Nat) : (paddedRequest k).length = k + 23 := by
  have hline : (ascii "GET / HTTP/1.1\r\nX:").length = 18 := by decide
  have hend : (ascii "a\r\n\r\n").length = 5 := by decide
  rw [paddedRequest, length_append, length_append, length_replicate, hline, hend]
  omega

theorem findTerm_blanks (rest : Bytes) :
    ∀ k, findTerm (replicate k 32 ++ rest) = (findTerm rest).map (· + k) := by
  intro k
  induction k with
  | zero => simp
  | succ k ih =>
    rw [replicate_succ, cons_append, findTerm, if_neg (by simp), ih, Option.map_map]
    rfl

theorem findTerm_padded (k : Nat) : findTerm (paddedRequest k) = some (k + 19) := by
  have hline : ascii "GET / HTTP/1.1\r\nX:" =
      [71, 69, 84, 32, 47, 32, 72, 84, 84, 80, 47, 49, 46, 49, 13, 10, 88, 58] := by decide
  have hend : findTerm (ascii "a\r\n\r\n") = some 1 := by decide
  rw [paddedRequest, hline]
  simp [findTerm, findTerm_blanks, hend]
  omega

theorem phrParseRequest_padded (k : Nat) :
    phrParseRequest (paddedRequest k) =
      .item (k + 23) ⟨ascii "GET", ascii "/", 1, [⟨ascii "X", ascii "a"⟩]⟩ := by
  have hblanks : skipBlanks (replicate k 32 ++ ascii "a\r\n\r\n") =
      .done (replicate k 32) (ascii "a\r\n\r\n") := by
    refine takeUntil_append (fun b hb => ?_) (c := 97) (by decide) (ascii "\r\n\r\n")
    rw [eq_of_mem_replicate hb]
    decide
  have hparse : parseRequest (paddedRequest k) =
      .done ⟨ascii "GET", ascii "/", 1, [⟨ascii "X", ascii "a"⟩]⟩ [] := by
    have hline : ∀ rest, parseRequest (ascii "GET / HTTP/1.1\r\nX:" ++ rest) =
      ((((skipBlanks rest).map fun _ => ascii "X").bind fun name rest =>
        (getTokenToEol rest).map fun value => Header.mk name (trimEndBy isBlank value)).bind
          fun h rest => (parseHeaders 63 false rest).map (h :: ·)).map fun headers =>
            ⟨ascii "GET", ascii "/", 1, headers⟩ := fun _ => rfl
    rw [paddedRequest, hline, hblanks]
    rfl
  rw [phrParseRequest, hparse, ← paddedRequest_length]
  rfl

/-- A head whose body is there is a complete request. -/
theorem front_of_phr {clen : Nat} (hphr : srv.phr bytes = .item n head)
    (hframing : resolveBodyFraming head.headers = .ok clen) (hbody : clen ≤ maxBody)
    (hlen : n + clen ≤ bytes.length) : ∃ req, srv.front bytes = .item (n + clen) (.ok req) := by
  have hpos := (srv.phr_local.item hphr).1
  have hne : bytes ≠ [] := ne_nil_of_length_pos (by omega)
  unfold WebServer.front porticoHttpParse
  rw [if_neg hne, hphr]
  dsimp only
  rw [hframing]
  dsimp only
  rw [if_neg (Nat.not_lt.mpr hbody), if_neg (Nat.not_lt.mpr hlen)]
  exact ⟨_, rfl⟩

theorem paddedRequest_block (k : Nat) : HeaderBlock echoServer (paddedRequest k) := by
  have hphr : echoServer.phr (paddedRequest k) = _ := phrParseRequest_padded k
  rw [← paddedRequest_length] at hphr
  exact ⟨⟨_, hphr⟩, k + 19, findTerm_padded k, paddedRequest_length k⟩

theorem recvTurn_again (buf : RecvBuffer) (pending : Bytes) :
    ∃ capacity,
      recvTurn ⟨true, .again⟩ buf pending = (⟨buf.bytes, capacity⟩, pending, some true) := by
  unfold recvTurn
  dsimp only
  split
  · split
    · exact ⟨_, rfl⟩
    · exact ⟨_, rfl⟩
  · exact ⟨_, rfl⟩

/-- A drain of three reads. -/
theorem readIntoRecv_flood (hlen : 32768 < bytes.length) :
    ∃ capacity, readIntoRecv (replicate 3 floodTurn) ⟨[], 16384⟩ bytes =
      (⟨bytes.take 65536, capacity⟩, bytes.drop 65536, true) := by
  have hne : bytes ≠ [] := ne_nil_of_length_pos (by omega)
  have h0 : grownTo 0 < 32768 := by decide
  have h1 : grownTo 1 = 32768 := by decide
  have h2 : grownTo 2 = 65536 := by decide
  have hsecond : recvTurn floodTurn _ _ = _ := recvTurn_fills bytes 0 (by decide) (by omega)
  have hthird : recvTurn floodTurn _ _ = _ := recvTurn_fills bytes 1 (by decide) (by omega)
  obtain ⟨capacity, hlast⟩ := recvTurn_again ⟨bytes.take 65536, 65536⟩ (bytes.drop 65536)
  refine ⟨capacity, ?_⟩
  rw [h2] at hthird
  simp only [replicate_succ, replicate_zero, readIntoRecv, recvTurn_first hne, hsecond,
    hthird, hlast, Option.getD_some]

/-- The first event of a plain connection. -/
theorem run_readable (srv : WebServer) (bytes : Bytes) (turns : List Turn) (script : List Env) :
    run (webStep srv) (WebConn.accepted false bytes) [.readable .wants turns script] =
      some (settle (WebConn.porticoInitialDispatch srv turns script
        (WebConn.accepted false bytes))) :=
  rfl

/-- A round that finds a complete request hands it to the application. -/
theorem RoundTo.dispatches {req : Request} (h : RoundTo srv silent c .serve c' next')
    (hfront : srv.front c.recv.bytes = .item total (.ok req)) : .dispatch req ∈ c'.trace := by
  -- the request that a round takes is the one at the front
  have htaken : ∀ {total' req'} acts, srv.front c.recv.bytes = .item total' (.ok req') →
      c'.trace = c.trace ++ .dispatch req' :: acts → .dispatch req ∈ c'.trace := by
    intro total' req' acts hfront' htrace
    cases hfront.symm.trans hfront'
    rw [htrace]
    exact mem_append_right _ mem_cons_self
  cases h with
  | wait hmore => rw [hfront] at hmore; cases hmore
  | refuse hwhy =>
    rcases hwhy with ⟨total', hrefused⟩ | ⟨hmore, -⟩
    · rw [hfront] at hrefused; cases hrefused
    · rw [hfront] at hmore; cases hmore
  | giveUp hfront' _ _ he => exact htaken _ hfront' he.trace
  | answer hfront' _ _ hg | park hfront' _ hg | start hfront' _ _ hg =>
    exact htaken _ hfront' hg.trace

/-- A request that the buffer holds complete is handed to the application, however long its header
    block is. -/
theorem processHttpBuffer_dispatches {req : Request}
    (hfront : srv.front c.recv.bytes = .item total (.ok req)) (script : List Env) :
    .dispatch req ∈ (settle (c.processHttpBuffer srv script)).trace := by
  have hround : ∀ {silent next next' d d'}, RoundTo srv silent d next d' next' →
      (next = .serve ∧ d = c) ∨ WebAct.dispatch req ∈ d.trace →
      (next' = .serve ∧ d' = c) ∨ WebAct.dispatch req ∈ d'.trace := by
    rintro silent next next' d d' hround (⟨rfl, rfl⟩ | hmem)
    · exact .inr (hround.dispatches hfront)
    · exact .inr (hround.keeps.2.2.1.subset hmem)
  obtain ⟨d, ok, c', hc', -, hrun⟩ :=
    goOn_reaches hround (id : (∀ e ∈ script, e.TakesNone) → _) false (.inl ⟨rfl, rfl⟩)
  have hmem : WebAct.dispatch req ∈ c'.trace := hc'.resolve_left fun hserve => by cases hserve.1
  rw [processHttpBuffer, hrun]
  exact (leave_keeps c' d ok).2.2.1.subset hmem

theorem ciContains_blanks (rest : Bytes) :
    ∀ k, ciContains (replicate k 32 ++ rest) (ascii "sec-websocket-key") =
      ciContains rest (ascii "sec-websocket-key") := by
  intro k
  induction k with
  | zero => rfl
  | succ k ih =>
    exact ih

theorem ciContains_padded (k : Nat) :
    ciContains (paddedRequest k) (ascii "sec-websocket-key") = false := by
  have hline : ∀ rest,
      ciContains (ascii "GET / HTTP/1.1\r\nX:" ++ rest) (ascii "sec-websocket-key") =
        ciContains rest (ascii "sec-websocket-key") := fun _ => rfl
  rw [paddedRequest, hline, ciContains_blanks]
  decide

/-- A header block that one drain reads is not too long for the application. -/
theorem padded_dispatched {k : Nat} (hover : 32768 < k + 23) (hfit : k + 23 ≤ 65536)
    (script : List Env) :
    ∃ c req, run (webStep echoServer) (WebConn.accepted false (paddedRequest k))
        [.readable .wants (replicate 3 floodTurn) script] = some c ∧
      .dispatch req ∈ c.trace := by
  have hlen := paddedRequest_length k
  have hphr : echoServer.phr (paddedRequest k) = _ := phrParseRequest_padded k
  obtain ⟨req, hfront⟩ := front_of_phr hphr (by decide) (Nat.zero_le _) (Nat.le_of_eq hlen.symm)
  obtain ⟨capacity, hr⟩ := @readIntoRecv_flood (paddedRequest k) (by omega)
  rw [take_of_length_le (by omega), drop_of_length_le (by omega)] at hr
  let c1 := (WebConn.accepted false (paddedRequest k)).afterRead ⟨paddedRequest k, capacity⟩ []
  have hkey : ciContains (c1.recv.bytes.take (k + 19 + 4)) (ascii "sec-websocket-key") = false := by
    show ciContains ((paddedRequest k).take (k + 23)) _ = false
    rw [take_of_length_le (by omega), ciContains_padded]
  have hgate : c1.gate echoServer script =
      (c1.withState .http).processHttpBuffer echoServer script := by
    unfold WebConn.gate
    rw [show findTerm c1.recv.bytes = _ from findTerm_padded k]
    dsimp only
    rw [hkey, if_neg Bool.false_ne_true]
    rfl
  rw [run_readable, porticoInitialDispatch_gate hr, hgate]
  exact ⟨_, req, rfl, processHttpBuffer_dispatches hfront script⟩

/-! ### Bare LFs -/

/-- A request whose lines end with bare LFs, with a body of 40000 bytes. -/
def bareRequest : Bytes :=
  ascii "POST / HTTP/1.1\nContent-Length: 40000\n\n" ++ replicate 40000 97

theorem findTerm_no_cr : ∀ {bytes : Bytes}, (13 : UInt8) ∉ bytes → findTerm bytes = none := by
  intro bytes
  induction bytes with
  | nil => intro _; rfl
  | cons b bytes ih =>
    intro h
    have hb : b ≠ 13 := fun hb => h (by rw [hb]; exact mem_cons_self)
    rw [findTerm, if_neg (by simp [hb]), ih fun hmem => h (mem_cons_of_mem b hmem)]
    rfl

theorem bareRequest_length : bareRequest.length = 40039 := by
  have hhead : (ascii "POST / HTTP/1.1\nContent-Length: 40000\n\n").length = 39 := by decide
  rw [bareRequest, length_append, length_replicate, hhead]

theorem phr_bare :
    echoServer.phr bareRequest =
      .item 39 ⟨ascii "POST", ascii "/", 1, [⟨ascii "Content-Length", ascii "40000"⟩]⟩ :=
  echoServer.phr_local.item_append
    (s := ascii "POST / HTTP/1.1\nContent-Length: 40000\n\n") rfl (replicate 40000 97)

/-- A complete request with a short header block is refused for the size of its header block. -/
theorem bare_refused :
    ∃ c, run (webStep echoServer) (WebConn.accepted false bareRequest)
        [.readable .wants (replicate 3 floodTurn) [.taking]] = some c ∧ Refused431 c := by
  have hcr : (13 : UInt8) ∉ bareRequest := by
    rw [bareRequest, mem_append, not_or]
    refine ⟨by decide, fun hmem => ?_⟩
    exact absurd (eq_of_mem_replicate hmem) (by decide)
  have hlen := bareRequest_length
  generalize bareRequest = bytes at hcr hlen ⊢
  obtain ⟨capacity, hr⟩ := @readIntoRecv_flood bytes (by omega)
  rw [take_of_length_le (by omega), drop_of_length_le (by omega)] at hr
  let c1 := (WebConn.accepted false bytes).afterRead ⟨bytes, capacity⟩ []
  have hclear : Clear c1 := ⟨rfl, rfl⟩
  have htaking : ([.taking] : List Env).headD .quiet |>.Accepting Env.quiet.handshake :=
    taking_accepting
  have hgate : c1.gate echoServer [.taking] = _ :=
    gate_refuses htaking hclear (findTerm_no_cr hcr) (show 32768 < bytes.length by omega)
  rw [run_readable, porticoInitialDispatch_gate hr, hgate]
  exact ⟨_, rfl, mem_singleton_self _⟩

end Portico.Http
