/-
  The order of the responses on a plain-HTTP connection.

  `Serial` says what a connection may do next: it hands one request to the application, answers
  it with one buffer or with a header block and as many bytes as that promises, and only then
  takes the next request. A request without keep-alive, and input that is refused, are the last.

  Proved: `responses_serial`, from the moment a connection is plain HTTP, whatever the requests,
  the handler, the socket and the file system do and in whatever order events come, its trace is
  one that `Serial` allows, and its output is what the trace has queued. While nothing is in
  flight every request has been answered, unless the connection is closed or will be when its
  output has drained.
-/
import Portico.Http.Events

namespace Portico.Http

open Portico.Lib Portico.Ws Portico.Ws.OutConn WebConn List

/-! ## One response after the other -/

/-- `idle n`: the requests before `n` have been answered; `owed n`: request `n` has been handed to
    the application; `sending n`: so many bytes of its body are missing; `over n`: the last of `n`
    requests has been answered, or what came behind them was refused. -/
inductive Serial where
  | idle (n : Nat)
  | owed (n : Nat) (keepAlive : Bool)
  | sending (n : Nat) (keepAlive : Bool) (left : Nat)
  | over (n : Nat)
  deriving DecidableEq, Repr

variable {st' : Serial} {acts : List WebAct} {ok : Bool} {next next' : Next}

namespace Serial

/-- So many bytes of the answer to request `n` are missing. -/
def lacking (n : Nat) (keepAlive : Bool) (left : Nat) : Serial :=
  if left ≠ 0 then .sending n keepAlive left
  else if keepAlive then .idle (n + 1)
  else .over (n + 1)

def step : Serial → WebAct → Option Serial
  | .idle n, .dispatch req => some (.owed n req.keepAlive)
  | .idle n, .queue (.whole (.refusal _) _) => some (.over n)
  | .owed n keepAlive, .queue (.whole (.request i) _) =>
    if i = n then some (lacking n keepAlive 0) else none
  | .owed n keepAlive, .queue (.head i _ size) =>
    if i = n then some (lacking n keepAlive size) else none
  | .sending n keepAlive left, .queue (.chunk i bytes) =>
    if i = n ∧ bytes.length ≤ left then some (lacking n keepAlive (left - bytes.length)) else none
  | _, _ => none

/-- The requests so far. -/
def asked : Serial → Nat
  | .idle n => n
  | .owed n _ => n + 1
  | .sending n _ _ => n + 1
  | .over n => n

/-- Another request may come. -/
def goesOn : Serial → Bool
  | .idle _ => true
  | .owed _ keepAlive => keepAlive
  | .sending _ keepAlive _ => keepAlive
  | .over _ => false

theorem lacking_spec (n : Nat) (keepAlive : Bool) (left : Nat) :
    (lacking n keepAlive left).asked = n + 1 ∧ (lacking n keepAlive left).goesOn = keepAlive := by
  unfold lacking
  split
  · exact ⟨rfl, rfl⟩
  cases keepAlive <;> exact ⟨rfl, rfl⟩

/-- What was done asks for so many requests, and a request without keep-alive is the last. -/
def Counts (st : Serial) (t : List WebAct) (st' : Serial) : Prop :=
  st'.asked = st.asked + (dispatches t).length ∧
    (st'.goesOn = true → st.goesOn = true ∧ ∀ req ∈ dispatches t, req.keepAlive = true)

theorem step_counts {st : Serial} {a : WebAct} (h : st.step a = some st') : Counts st [a] st' := by
  have hanswer : ∀ {n keepAlive left}, st.asked = n + 1 → st.goesOn = keepAlive →
      dispatches [a] = [] → Counts st [a] (lacking n keepAlive left) := by
    intro n keepAlive left hasked hon hnone
    obtain ⟨hasked', hon'⟩ := lacking_spec n keepAlive left
    exact ⟨by rw [hasked', hasked, hnone]; rfl, fun h => ⟨by rwa [hon, ← hon'], by simp [hnone]⟩⟩
  unfold step at h
  split at h
  · cases h; exact ⟨rfl, fun hon => ⟨rfl, forall_mem_singleton.mpr hon⟩⟩
  · cases h; exact ⟨rfl, nofun⟩
  · split at h
    · cases h; exact hanswer rfl rfl rfl
    · cases h
  · split at h
    · cases h; exact hanswer rfl rfl rfl
    · cases h
  · split at h
    · cases h; exact hanswer rfl rfl rfl
    · cases h
  · cases h

theorem run_counts :
    ∀ {t : List WebAct} {st st' : Serial}, run step st t = some st' → Counts st t st' := by
  intro t
  induction t with
  | nil => intro st st' h; cases h; exact ⟨rfl, fun hon => ⟨hon, by simp [dispatches]⟩⟩
  | cons a t ih =>
    intro st st' h
    obtain ⟨st1, h1, hrest⟩ := run_cons h
    obtain ⟨hasked, hon⟩ := ih hrest
    obtain ⟨hasked1, hon1⟩ := step_counts h1
    have hsplit : dispatches (a :: t) = dispatches [a] ++ dispatches t :=
      dispatches_append [a] t
    rw [Counts, hasked, hasked1, hsplit, length_append, Nat.add_assoc]
    refine ⟨rfl, fun h' => ?_⟩
    obtain ⟨hst1, hreqs⟩ := hon h'
    exact ⟨(hon1 hst1).1, forall_mem_append.mpr ⟨(hon1 hst1).2, hreqs⟩⟩

/-- A request that is answered in one piece. -/
theorem run_whole (n : Nat) (keepAlive : Bool) (b : Bytes) :
    run step (.owed n keepAlive) [.queue (.whole (.request n) b)] =
      some (lacking n keepAlive 0) := by
  simp [run, step]

theorem run_answer (n : Nat) (req : Request) (b : Bytes) :
    run step (.idle n) [.dispatch req, .queue (.whole (.request n) b)] =
      some (lacking n req.keepAlive 0) :=
  run_whole n req.keepAlive b

/-- A request whose answer is begun. -/
theorem run_start (n : Nat) (req : Request) (b : Bytes) (size : Nat) :
    run step (.idle n) [.dispatch req, .queue (.head n b size)] =
      some (lacking n req.keepAlive size) := by
  simp [run, step]

theorem run_chunk {n left : Nat} {keepAlive : Bool} {data : Bytes} (hne : data ≠ [])
    (hle : data.length ≤ left) :
    run step (lacking n keepAlive left) [.queue (.chunk n data)] =
      some (lacking n keepAlive (left - data.length)) := by
  have hpos := length_pos_of_ne_nil hne
  have hleft : left ≠ 0 := by omega
  rw [lacking, if_pos hleft]
  simp [run, step, hle]

end Serial

/-! ## The invariant -/

/-- The connection turns to plain HTTP: nothing is in flight, and nothing has been handled. -/
structure EntersHttp (c : WebConn) : Prop where
  state : c.out.state = .http
  opened : c.out.closed = false
  stream : c.stream = none
  file : c.file = none
  inflight : c.asyncInflight = false
  fresh : dispatches c.trace = []

/-- The connection has done `t`, and its output is what that has queued and `part`. -/
structure Did (c0 c : WebConn) (t : List WebAct) (st : Serial) (part : Bytes) : Prop where
  state : c.out.state = .http
  trace : c.trace = c0.trace ++ t
  serial : run Serial.step (.idle 0) t = some st
  stream : c.out.wire ++ c.out.out.unsent =
    c0.out.wire ++ c0.out.out.unsent ++ queuedBytes t ++ part

/-- What is in flight agrees with what is owed. -/
def Stands (c : WebConn) (st : Serial) : Prop :=
  match c.file, c.stream with
  | none, none => c.asyncInflight = false ∧ ∃ n, st = .idle n
  | some ctx, none => c.asyncInflight = true ∧ st = .owed ctx.request ctx.keepAlive
  | none, some s =>
    c.asyncInflight = true ∧ st = .lacking s.request s.keepAlive (s.finish - s.offset)
  | some _, some _ => False

/-- The connection is closed, or will be when its output has drained. -/
def Ending (c : WebConn) : Prop :=
  c.out.closed = true ∨ (c.closeWhenDrained = true ∧ c.stream = none ∧ c.file = none)

variable {srv : WebServer} {c c' : WebConn} {silent : Prop}

section Invariant

variable {c0 : WebConn} {t : List WebAct} {st : Serial} {part : Bytes}

theorem Did.same (h : Did c0 c t st part) (hout : c'.out = c.out) (htrace : c'.trace = c.trace) :
    Did c0 c' t st part :=
  ⟨by rw [hout, h.state], htrace.trans h.trace, h.serial, by rw [hout, h.stream]⟩

theorem Did.consume (h : Did c0 c t st part) (total : Nat) : Did c0 (c.consume total) t st part :=
  h.same rfl rfl

theorem Did.goes (h : Did c0 c t st []) (hg : Goes silent c c' acts)
    (hst : run Serial.step st acts = some st') : Did c0 c' (t ++ acts) st' [] := by
  obtain ⟨out, hout, rfl⟩ := hg
  refine ⟨hout.state.trans h.state, ?_, ?_, ?_⟩
  · show c.trace ++ acts = _
    rw [h.trace, append_assoc]
  · rw [run_append h.serial, hst]
  · show out.wire ++ out.out.unsent = _
    rw [hout.stream, h.stream, queuedBytes_append, append_nil, append_nil,
      append_assoc _ (queuedBytes t)]

theorem Did.ends (h : Did c0 c t st []) (he : Ends silent c c' acts ok)
    (hst : run Serial.step st acts = some st') : ∃ part, Did c0 c' (t ++ acts) st' part := by
  obtain ⟨out, part, hout, rfl⟩ := he
  refine ⟨part, hout.state.trans h.state, ?_, ?_, ?_⟩
  · show c.trace ++ acts = _
    rw [h.trace, append_assoc]
  · rw [run_append h.serial, hst]
  · show out.wire ++ out.out.unsent = _
    rw [hout.stream, h.stream, queuedBytes_append, append_nil]
    simp only [append_assoc]

/-- The next request gets the number of those that have been answered. -/
theorem Did.count (h0 : EntersHttp c0) {n : Nat} (h : Did c0 c t (.idle n) part) :
    c.count = n := by
  have hasked : n = 0 + (dispatches t).length := (Serial.run_counts h.serial).1
  rw [WebConn.count, h.trace, dispatches_append, h0.fresh, nil_append, hasked, Nat.zero_add]

/-- A round of `process_http_buffer` starts with nothing in flight, one of `stream_advance` with
    a stream. A handler returns -1 only with nothing in flight. -/
def OrderAt (c0 : WebConn) (next : Next) (c : WebConn) : Prop :=
  ∃ t st part, Did c0 c t st part ∧
    match next with
    | .serve => part = [] ∧ c.file = none ∧ c.stream = none ∧ c.asyncInflight = false ∧
      st = .idle c.count
    | .pump => part = [] ∧ c.stream ≠ none ∧ Stands c st
    | .ret true => (part = [] ∧ Stands c st) ∨ Ending c
    | .ret false => c.file = none ∧ c.stream = none

/-- Between events: nothing but what is in flight is owed, unless the connection is ending. -/
def InOrder (c0 c : WebConn) : Prop := OrderAt c0 (.ret true) c

theorem Stands.idle (h : Stands c st) (hfile : c.file = none) (hstream : c.stream = none) :
    c.asyncInflight = false ∧ ∃ n, st = .idle n := by
  simpa only [Stands, hfile, hstream] using h

theorem Stands.parked {ctx : FileCtx} (h : Stands c st) (hfile : c.file = some ctx) :
    c.stream = none ∧ c.asyncInflight = true ∧ st = .owed ctx.request ctx.keepAlive := by
  cases hstream : c.stream with
  | none => simpa only [Stands, hfile, hstream, true_and] using h
  | some => simp only [Stands, hfile, hstream] at h

theorem Stands.streaming {s : StreamCtx} (h : Stands c st) (hstream : c.stream = some s) :
    c.file = none ∧ c.asyncInflight = true ∧
      st = .lacking s.request s.keepAlive (s.finish - s.offset) := by
  cases hfile : c.file with
  | none => simpa only [Stands, hfile, hstream, true_and] using h
  | some => simp only [Stands, hfile, hstream] at h

theorem Stands.nothing (h : Stands c st) (hin : c.asyncInflight = false) :
    c.file = none ∧ c.stream = none := by
  constructor
  · cases hfile : c.file with
    | none => rfl
    | some => rw [(h.parked hfile).2.1] at hin; cases hin
  · cases hstream : c.stream with
    | none => rfl
    | some => rw [(h.streaming hstream).2.1] at hin; cases hin

/-- A connection that goes on with its requests. -/
theorem OrderAt.of_idle (h0 : EntersHttp c0) {n : Nat} (h : Did c0 c t (.idle n) [])
    (hfile : c.file = none) (hstream : c.stream = none) (hin : c.asyncInflight = false) :
    OrderAt c0 .serve c :=
  ⟨t, _, [], h, rfl, hfile, hstream, hin, by rw [h.count h0]⟩

/-- A connection that is given up with nothing in flight. -/
theorem OrderAt.of_ends (h : Did c0 c t st []) (he : Ends silent c c' acts ok)
    (hst : run Serial.step st acts = some st') (hfile : c.file = none) (hstream : c.stream = none) :
    OrderAt c0 (.ret ok) c' := by
  obtain ⟨part, hdid⟩ := h.ends he hst
  obtain ⟨out, part', -, rfl⟩ := he
  refine ⟨_, _, part, hdid, ?_⟩
  cases ok with
  | true => exact .inr (.inr ⟨Bool.or_true _, hstream, hfile⟩)
  | false => exact ⟨hfile, hstream⟩

/-- A connection that is given up when its stream ends. -/
theorem OrderAt.of_detached {acts : List StreamAct} (h : Did c0 c t st [])
    (he : Ends silent (c.detached acts) c' [] ok) (hfile : c.file = none) :
    OrderAt c0 (.ret ok) c' :=
  have hdid : Did c0 (c.detached acts) t st [] := h.same rfl rfl
  .of_ends hdid he rfl hfile rfl

theorem EntersHttp.orderAt (h0 : EntersHttp c0) : OrderAt c0 .serve c0 := by
  have hdid : Did c0 c0 [] (.idle 0) [] :=
    ⟨h0.state, (append_nil _).symm, rfl, by simp [queuedBytes]⟩
  exact .of_idle h0 hdid h0.file h0.stream h0.inflight

theorem orderAt_round (h0 : EntersHttp c0) (hround : RoundTo srv silent c next c' next')
    (h : OrderAt c0 next c) : OrderAt c0 next' c' := by
  obtain ⟨t, st, part, hdid, h⟩ := h
  cases hround with
  | wait =>
    obtain ⟨rfl, hfile, hstream, hin, rfl⟩ := h
    exact ⟨t, _, [], hdid, .inl ⟨rfl, by simp [Stands, hfile, hstream, hin]⟩⟩
  | refuse _ hacts hends =>
    obtain ⟨rfl, hfile, hstream, -, rfl⟩ := h
    rcases hacts with rfl | rfl
    · exact .of_ends hdid hends rfl hfile hstream
    · exact .of_ends hdid hends rfl hfile hstream
  | giveUp _ hacts _ hends =>
    obtain ⟨rfl, hfile, hstream, -, rfl⟩ := h
    rcases hacts with rfl | rfl
    · exact .of_ends (hdid.consume _) hends rfl hfile hstream
    · exact .of_ends (hdid.consume _) hends (Serial.run_answer _ _ _) hfile hstream
  | answer _ hka _ hgoes =>
    obtain ⟨rfl, hfile, hstream, hin, rfl⟩ := h
    have hnew := (hdid.consume _).goes hgoes (Serial.run_answer _ _ _)
    rw [hka] at hnew
    obtain ⟨out, -, rfl⟩ := hgoes
    exact .of_idle h0 hnew hfile hstream hin
  | park _ _ hgoes =>
    obtain ⟨rfl, -, hstream, -, rfl⟩ := h
    refine ⟨_, _, [], ((hdid.consume _).goes hgoes rfl).same rfl rfl, .inl ⟨rfl, ?_⟩⟩
    obtain ⟨out, -, rfl⟩ := hgoes
    simp only [Stands, consume, hstream, fileCtx, and_self]
  | start _ _ _ hgoes =>
    obtain ⟨rfl, hfile, -, -, rfl⟩ := h
    refine ⟨_, _, [], ((hdid.consume _).goes hgoes (Serial.run_start _ _ _ _)).same rfl rfl, rfl,
      ?_, ?_⟩
    · simp
    obtain ⟨out, -, rfl⟩ := hgoes
    simp only [Stands, consume, hfile, streamCtx, Nat.add_sub_cancel_left, and_self]
  | blocked => exact ⟨t, st, part, hdid, .inl ⟨h.1, h.2.2⟩⟩
  | submit hs =>
    obtain ⟨rfl, -, hst⟩ := h
    obtain ⟨hfile, hin, hst⟩ := hst.streaming hs
    refine ⟨t, st, [], hdid.same rfl rfl, .inl ⟨rfl, ?_⟩⟩
    simp only [Stands, hfile]
    exact ⟨hin, hst⟩
  | chunk hs hne hle hgoes =>
    obtain ⟨rfl, -, hst⟩ := h
    obtain ⟨hfile, hin, rfl⟩ := hst.streaming hs
    refine ⟨_, _, [], (hdid.goes hgoes (Serial.run_chunk hne hle)).same rfl rfl, rfl, ?_, ?_⟩
    · simp
    obtain ⟨out, -, rfl⟩ := hgoes
    simp only [Stands, hfile]
    exact ⟨hin, by rw [Nat.sub_sub]⟩
  | finish hs hdone hka =>
    obtain ⟨rfl, -, hst⟩ := h
    obtain ⟨hfile, -, rfl⟩ := hst.streaming hs
    rw [Nat.sub_eq_zero_of_le hdone, hka] at hdid
    exact .of_idle h0 (hdid.same rfl rfl) hfile rfl rfl
  | stop hs hends =>
    obtain ⟨rfl, -, hst⟩ := h
    obtain ⟨hfile, -, -⟩ := hst.streaming hs
    exact .of_detached hdid hends hfile

/-- A connection that is not ending stands as its flags say. -/
theorem InOrder.stands (h : InOrder c0 c) (hopen : c.out.closed = false)
    (hbusy : c.closeWhenDrained = false ∨ c.stream ≠ none ∨ c.file ≠ none) :
    ∃ t st, Did c0 c t st [] ∧ Stands c st := by
  obtain ⟨t, st, part, hdid, ⟨rfl, hst⟩ | hend⟩ := h
  · exact ⟨t, st, hdid, hst⟩
  · exfalso
    rcases hend with hclosed | ⟨hflag, hstream, hfile⟩
    · rw [hopen] at hclosed; cases hclosed
    · rcases hbusy with hb | hb | hb
      · rw [hflag] at hb; cases hb
      · exact hb hstream
      · exact hb hfile

theorem orderAt_entry (h0 : EntersHttp c0) (hopen : c.out.closed = false) (h : InOrder c0 c)
    (hentry : Entry srv silent c c' next) : OrderAt c0 next c' := by
  have hnot : ¬ Begins c := by
    obtain ⟨t, st, part, hdid, -⟩ := h
    rintro (hb | hb) <;> rw [hdid.state] at hb <;> cases hb
  induction hentry with
  | ignore => exact h
  | hold _ hflag hin hreads =>
    obtain ⟨t, st, hdid, hst⟩ := h.stands hopen (.inl hflag)
    obtain ⟨bytes, capacity, pending, -, rfl⟩ := hreads
    exact ⟨t, st, [], hdid.same rfl rfl, .inl ⟨rfl, hst⟩⟩
  | serve _ hflag hin hreads =>
    obtain ⟨t, st, hdid, hst⟩ := h.stands hopen (.inl hflag)
    obtain ⟨hfile, hstream⟩ := hst.nothing hin
    obtain ⟨-, n, rfl⟩ := hst.idle hfile hstream
    obtain ⟨bytes, capacity, pending, -, rfl⟩ := hreads
    exact .of_idle h0 (hdid.same rfl rfl) hfile hstream hin
  | drained hout =>
    obtain ⟨t, st, part, hdid, hst⟩ := h
    refine ⟨t, st, part, ⟨hout.state.trans hdid.state, hdid.trace, hdid.serial, ?_⟩, ?_⟩
    · exact hout.stream.trans (by rw [append_nil, hdid.stream])
    · rcases hst with hst | hclosed | hflag
      · exact .inl hst
      · rw [hopen] at hclosed; cases hclosed
      · exact .inr (.inr hflag)
  | resume hs hout =>
    obtain ⟨t, st, hdid, hst⟩ := h.stands hopen (.inr (.inl (by rw [hs]; simp)))
    obtain ⟨hfile, hst⟩ := hst.streaming hs
    refine ⟨t, st, [], ⟨hout.state.trans hdid.state, hdid.trace, hdid.serial, ?_⟩, rfl, by simp, ?_⟩
    · exact hout.stream.trans (by rw [append_nil, hdid.stream])
    · simp only [Stands, hfile]
      exact hst
  | fileAnswer hf hka hgoes =>
    obtain ⟨t, st, hdid, hst⟩ := h.stands hopen (.inr (.inr (by rw [hf]; simp)))
    obtain ⟨hstream, -, rfl⟩ := hst.parked hf
    have hdid' : Did c0 { c with asyncInflight := false, file := none } t _ [] :=
      hdid.same rfl rfl
    have hnew := hdid'.goes hgoes (Serial.run_whole _ _ _)
    rw [hka] at hnew
    obtain ⟨out, -, rfl⟩ := hgoes
    exact .of_idle h0 hnew rfl hstream rfl
  | fileGiveUp hf hacts hends =>
    obtain ⟨t, st, hdid, hst⟩ := h.stands hopen (.inr (.inr (by rw [hf]; simp)))
    obtain ⟨hstream, -, rfl⟩ := hst.parked hf
    have hdid' : Did c0 { c with asyncInflight := false, file := none } t _ [] :=
      hdid.same rfl rfl
    rcases hacts with rfl | rfl
    · exact .of_ends hdid' hends rfl rfl hstream
    · exact .of_ends hdid' hends (Serial.run_whole _ _ _) rfl hstream
  | round _ hround ih => exact orderAt_round h0 hround ih
  | begin hb | beginRefuse hb | upgrade hb | enter hb => exact absurd hb hnot

theorem InOrder.close (h : Did c0 c t st part) : InOrder c0 c.close :=
  ⟨t, st, part, ⟨h.state, h.trace, h.serial, h.stream⟩, .inr (.inl rfl)⟩

theorem orderAt_leave (ok deferring : Bool) (h : OrderAt c0 (.ret ok) c) :
    InOrder c0 (settle (c.leave deferring ok)) := by
  refine settle_leave c deferring ok (fun hok => ?_) (fun hok => ?_) fun hok => ?_ <;> subst hok
  · exact h
  · obtain ⟨t, st, part, hdid, -⟩ := h
    exact .close hdid
  · obtain ⟨t, st, part, hdid, hfile, hstream⟩ := h
    exact ⟨t, st, part, hdid.same rfl rfl, .inr (.inr ⟨rfl, hstream, hfile⟩)⟩

theorem inOrder_drops (h : InOrder c0 c) (hdrop : Drops c c') : InOrder c0 c' := by
  obtain ⟨t, st, part, hdid, -⟩ := h
  obtain ⟨hstate, hstream⟩ := hdrop.stream hdid.state
  exact ⟨t, st, part, ⟨hstate, hdrop.trace.trans hdid.trace, hdid.serial,
    hstream.trans hdid.stream⟩, .inr (.inl hdrop.closed)⟩

end Invariant

/-- Every run of a plain-HTTP connection queues one response after the other, each as a whole and
    in the order of the requests; what has been queued is what has gone out and what is waiting to,
    and nothing is owed that is not in flight. -/
theorem responses_serial (srv : WebServer) (c0 : WebConn) (h0 : EntersHttp c0)
    (script : List Env) (events : List WebEvent) (c : WebConn)
    (hrun : run (webStep srv) (settle (c0.processHttpBuffer srv script)) events = some c) :
    ∃ t st part, c.trace = c0.trace ++ t ∧ run Serial.step (.idle 0) t = some st ∧
      c.out.wire ++ c.out.out.unsent =
        c0.out.wire ++ c0.out.out.unsent ++ queuedBytes t ++ part ∧
      ((part = [] ∧ Stands c st) ∨ Ending c) := by
  have hfirst : InOrder c0 (settle (c0.processHttpBuffer srv script)) := by
    obtain ⟨d, ok, c1, h1, -, heq⟩ := goOn_reaches (orderAt_round h0)
      (id : (∀ e ∈ script, e.TakesNone) → _) false h0.orderAt
    rw [processHttpBuffer, heq]
    exact orderAt_leave ok d h1
  obtain ⟨t, st, part, hdid, hst⟩ := run_invariant_all
    (webStep_rule inOrder_drops (orderAt_entry h0) (orderAt_round h0) orderAt_leave) events _ c
    hfirst hrun
  exact ⟨t, st, part, hdid.trace, hdid.serial, hdid.stream, hst⟩

/-- A file is read while the next request waits behind it. -/
theorem responses_serial_parked :
    ∃ c0 c, EntersHttp c0 ∧
      c0.recv.bytes = ascii "GET /f HTTP/1.1\r\n\r\nGET / HTTP/1.1\r\n\r\n" ∧
      run (webStep (pathServer true)) (settle (c0.processHttpBuffer (pathServer true) [.taking]))
        [.fileDone (some (ascii "abc")) [.taking, .taking]] = some c ∧
      (dispatches c.trace).length = 2 ∧
      ∃ t st part, c.trace = c0.trace ++ t ∧ run Serial.step (.idle 0) t = some st ∧
        c.out.wire ++ c.out.out.unsent =
          c0.out.wire ++ c0.out.out.unsent ++ queuedBytes t ++ part ∧
        ((part = [] ∧ Stands c st) ∨ Ending c) := by
  let c0 : WebConn :=
    { WebConn.accepted false [] with
      out := { OutConn.opened with state := .http }
      recv := ⟨ascii "GET /f HTTP/1.1\r\n\r\nGET / HTTP/1.1\r\n\r\n", 16384⟩ }
  have h0 : EntersHttp c0 := ⟨rfl, rfl, rfl, rfl, rfl, rfl⟩
  exact ⟨c0, _, h0, rfl, rfl, by decide, responses_serial (pathServer true) c0 h0 [.taking]
    [.fileDone (some (ascii "abc")) [.taking, .taking]] _ rfl⟩

/-! ## From the first byte on -/

/-- Nothing is in flight before a connection is classified, and unless it is being closed nothing
    has been queued. -/
structure Unclassified (c : WebConn) : Prop where
  begins : Begins c
  stream : c.stream = none
  file : c.file = none
  inflight : c.asyncInflight = false
  fresh : dispatches c.trace = []
  silent : c.closeWhenDrained = false → c.trace = [] ∧ c.out.wire ++ c.out.out.unsent = []

/-- The connection has become an open WebSocket. -/
def Upgraded (c : WebConn) : Prop := c.out.state = .open ∧ c.stream = none ∧ c.file = none

/-- The connection has become plain HTTP as `c0`. -/
structure Entered (c0 c : WebConn) : Prop where
  enters : EntersHttp c0
  flag : c0.closeWhenDrained = true → c.closeWhenDrained = true
  silent : c0.closeWhenDrained = false → c0.trace = [] ∧ c0.out.wire ++ c0.out.out.unsent = []

/-- Where a connection stands inside a handler: a handler that returns may have left it
    unclassified or upgraded it. -/
def PhaseAt (next : Next) (c : WebConn) : Prop :=
  (next = .ret true ∧ (Unclassified c ∨ Upgraded c)) ∨
    (next = .ret false ∧ Unclassified { c with closeWhenDrained := true }) ∨
    ∃ c0, Entered c0 c ∧ OrderAt c0 next c

def Phase (c : WebConn) : Prop := c.out.closed = true ∨ PhaseAt (.ret true) c

theorem Entered.keeps {c0 : WebConn} (h : Entered c0 c) (hkeep : Keeps c c') :
    Entered c0 c' :=
  ⟨h.enters, fun hflag => hkeep.flag (h.flag hflag), h.silent⟩

theorem phaseAt_round (hround : RoundTo srv silent c next c' next') (h : PhaseAt next c) :
    PhaseAt next' c' := by
  rcases h with ⟨rfl, -⟩ | ⟨rfl, -⟩ | ⟨c0, hent, horder⟩
  · cases hround
  · cases hround
  · exact .inr (.inr ⟨c0, hent.keeps hround.keeps, orderAt_round hent.enters hround horder⟩)

theorem Unclassified.reads (h : Unclassified c) {state : WsState}
    (hstate : state = .tlsHandshake ∨ state = .connecting) (hr : Reads (c.withState state) c') :
    Unclassified c' := by
  obtain ⟨bytes, capacity, pending, -, rfl⟩ := hr
  exact ⟨hstate, h.stream, h.file, h.inflight, h.fresh, h.silent⟩

/-- An unclassified connection that is refused. -/
theorem Unclassified.ends (h : Unclassified c) (hacts : dispatches acts = [])
    (he : Ends silent c c' acts ok) : Unclassified { c' with closeWhenDrained := true } := by
  obtain ⟨out, part, hg, rfl⟩ := he
  refine ⟨?_, h.stream, h.file, h.inflight, ?_, fun hf => by cases hf⟩
  · unfold Begins
    rw [hg.state]
    exact h.begins
  · show dispatches (c.trace ++ acts) = []
    rw [dispatches_append, h.fresh, hacts]
    rfl

theorem Unclassified.entry (h : Unclassified c) (hopen : c.out.closed = false)
    (hentry : Entry srv silent c c' next) : PhaseAt next c' := by
  have hhttp : c.out.state ≠ .http := by
    rcases h.begins with hb | hb <;> rw [hb] <;> decide
  have hstream : ∀ {s}, c.stream ≠ some s := by
    intro s hs
    rw [h.stream] at hs
    cases hs
  have hfile : ∀ {ctx}, c.file ≠ some ctx := by
    intro ctx hf
    rw [h.file] at hf
    cases hf
  induction hentry with
  | ignore hs | hold hs | serve hs => exact absurd hs hhttp
  | drained hout =>
    refine .inl ⟨rfl, .inl ⟨?_, h.stream, h.file, h.inflight, h.fresh, fun hf => ?_⟩⟩
    · unfold Begins
      rw [hout.state]
      exact h.begins
    · obtain ⟨htrace, hnone⟩ := h.silent hf
      exact ⟨htrace, by rw [hout.stream, hnone]; rfl⟩
  | resume hs => exact absurd hs hstream
  | fileAnswer hf | fileGiveUp hf => exact absurd hf hfile
  | round _ hround ih => exact phaseAt_round hround ih
  | begin _ hstate hreads => exact .inl ⟨rfl, .inl (h.reads hstate hreads)⟩
  | @beginRefuse c1 c' acts status b ok _ hreads hacts hends =>
    have hnone : dispatches acts = [] := by
      rcases hacts with rfl | rfl <;> rfl
    have hgone := (h.reads (.inr rfl) hreads).ends hnone hends
    cases ok with
    | false => exact .inr (.inl ⟨rfl, hgone⟩)
    | true =>
      obtain ⟨out, part, -, rfl⟩ := hends
      rw [Bool.or_true]
      exact .inl ⟨rfl, .inl hgone⟩
  | upgrade _ hreads =>
    obtain ⟨bytes, capacity, pending, -, rfl⟩ := hreads
    exact .inl ⟨rfl, .inr ⟨rfl, h.stream, h.file⟩⟩
  | enter _ hreads =>
    obtain ⟨bytes, capacity, pending, -, rfl⟩ := hreads
    have henters : EntersHttp { c.withState .http with
        recv := ⟨c.recv.bytes ++ bytes, capacity⟩, pending := pending
        received := c.received ++ bytes } :=
      ⟨rfl, hopen, h.stream, h.file, h.inflight, h.fresh⟩
    exact .inr (.inr ⟨_, ⟨henters, id, h.silent⟩, henters.orderAt⟩)

theorem Upgraded.entry (h : Upgraded c) (hentry : Entry srv silent c c' next) :
    PhaseAt next c' := by
  obtain ⟨hopen, hnostream, hnofile⟩ := h
  have hhttp : c.out.state ≠ .http := by rw [hopen]; decide
  have hbegins : ¬ Begins c := by
    rintro (hb | hb) <;> rw [hopen] at hb <;> cases hb
  induction hentry with
  | ignore hs | hold hs | serve hs => exact absurd hs hhttp
  | drained hout => exact .inl ⟨rfl, .inr ⟨hout.state.trans hopen, hnostream, hnofile⟩⟩
  | resume hs => rw [hnostream] at hs; cases hs
  | fileAnswer hf | fileGiveUp hf => rw [hnofile] at hf; cases hf
  | round _ hround ih => exact phaseAt_round hround ih
  | begin hb | beginRefuse hb | upgrade hb | enter hb => exact absurd hb hbegins

theorem phaseAt_entry (hopen : c.out.closed = false) (h : Phase c)
    (hentry : Entry srv silent c c' next) : PhaseAt next c' := by
  rcases h with hclosed | ⟨-, hunc | hup⟩ | ⟨hne, -⟩ | ⟨c0, hent, horder⟩
  · rw [hopen] at hclosed; cases hclosed
  · exact hunc.entry hopen hentry
  · exact hup.entry hentry
  · cases hne
  · exact .inr (.inr ⟨c0, hent.keeps hentry.keeps,
      orderAt_entry hent.enters hopen horder hentry⟩)

theorem phaseAt_leave (ok deferring : Bool) (h : PhaseAt (.ret ok) c) :
    Phase (settle (c.leave deferring ok)) := by
  rcases h with ⟨hok, h⟩ | ⟨hok, hunc⟩ | ⟨c0, hent, horder⟩
  · cases hok
    exact .inr (.inl ⟨rfl, h⟩)
  · cases hok
    exact settle_leave c deferring false (fun hok => by cases hok) (fun _ => .inl rfl)
      fun _ => .inr (.inl ⟨rfl, .inl hunc⟩)
  · exact .inr (.inr (.inr ⟨c0, hent.keeps (leave_keeps c deferring ok),
      orderAt_leave ok deferring horder⟩))

theorem phase_accepted (tls : Bool) (input : Bytes) : Phase (WebConn.accepted tls input) := by
  refine .inr (.inl ⟨rfl, .inl ⟨?_, rfl, rfl, rfl, rfl, fun _ => ⟨rfl, rfl⟩⟩⟩)
  cases tls with
  | true => exact .inl rfl
  | false => exact .inr rfl

/-- A plain-HTTP connection that is not ending has done what `Serial` allows since it was
    accepted, and its output is what that has queued. -/
theorem Phase.serial (h : Phase c) (hopen : c.out.closed = false) (hstate : c.out.state = .http)
    (hflag : c.closeWhenDrained = false) :
    ∃ st, run Serial.step (.idle 0) c.trace = some st ∧ Stands c st ∧
      c.out.wire ++ c.out.out.unsent = queuedBytes c.trace := by
  rcases h with hclosed | ⟨-, hunc | hup⟩ | ⟨hne, -⟩ | ⟨c0, hent, horder⟩
  · rw [hopen] at hclosed; cases hclosed
  · rcases hunc.begins with hb | hb <;> rw [hstate] at hb <;> cases hb
  · rw [hup.1] at hstate; cases hstate
  · cases hne
  · have hflag0 : c0.closeWhenDrained = false := by
      cases h0 : c0.closeWhenDrained with
      | false => rfl
      | true => rw [hent.flag h0] at hflag; cases hflag
    obtain ⟨htrace0, hout0⟩ := hent.silent hflag0
    obtain ⟨t, st, hdid, hst⟩ := InOrder.stands horder hopen (.inl hflag)
    have htrace : c.trace = t := by rw [hdid.trace, htrace0, nil_append]
    refine ⟨st, by rw [htrace]; exact hdid.serial, hst, ?_⟩
    rw [hdid.stream, hout0, htrace, append_nil, nil_append]

/-- What is in flight belongs to plain HTTP. -/
theorem Phase.http (h : Phase c) (hopen : c.out.closed = false)
    (hbusy : c.stream ≠ none ∨ c.file ≠ none) : c.out.state = .http := by
  rcases h with hclosed | ⟨-, hunc | hup⟩ | ⟨hne, -⟩ | ⟨c0, -, t, st, part, hdid, -⟩
  · rw [hopen] at hclosed; cases hclosed
  · rcases hbusy with hb | hb
    · exact absurd hunc.stream hb
    · exact absurd hunc.file hb
  · rcases hbusy with hb | hb
    · exact absurd hup.2.1 hb
    · exact absurd hup.2.2 hb
  · cases hne
  · exact hdid.state

theorem PhaseAt.serving (h : PhaseAt .serve c) :
    c.out.state = .http ∧ c.file = none ∧ c.stream = none := by
  rcases h with ⟨hne, -⟩ | ⟨hne, -⟩ | ⟨c0, -, t, st, part, hdid, -, hfile, hstream, -⟩
  · cases hne
  · cases hne
  · exact ⟨hdid.state, hfile, hstream⟩

/-- A round starts on a plain-HTTP connection. -/
theorem PhaseAt.http (h : PhaseAt next c) (hnext : ∀ ok, next ≠ .ret ok) : c.out.state = .http := by
  rcases h with ⟨hret, -⟩ | ⟨hret, -⟩ | ⟨c0, -, t, st, part, hdid, -⟩
  · exact absurd hret (hnext _)
  · exact absurd hret (hnext _)
  · exact hdid.state

theorem PhaseAt.streaming (h : PhaseAt .pump c) : c.asyncInflight = true := by
  rcases h with ⟨hne, -⟩ | ⟨hne, -⟩ | ⟨c0, -, t, st, part, -, -, hstream, hst⟩
  · cases hne
  · cases hne
  · obtain ⟨s, hs⟩ := Option.ne_none_iff_exists'.mp hstream
    exact (hst.streaming hs).2.1

end Portico.Http
