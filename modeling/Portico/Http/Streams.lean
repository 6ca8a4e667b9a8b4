/-
  The body of a streamed file over whole runs of a connection: `stream_start`, `stream_advance` and
  `stream_chunk_complete` of src/http/connection.c.

  `Along` is what holds inside the handler of an event, between its rounds; what is done to streams
  is in the connection's history (`streamActs`).

  Proved: `streamed_body_prefix`: whatever the socket, the backend and the client do and in
  whatever order events come, the chunks queued for a streamed file are a prefix of the bytes that
  the reply names, in order; when `stream_finish` is called they are all of them; and a stream that
  fails leaves the connection closed, or flagged to be closed when its output has drained, with at
  most a part of the next bytes of the file in the output.
-/
import Portico.Http.StreamBodies

namespace Portico.Http

open Portico.Lib Portico.Ws Portico.Ws.OutConn WebConn List

/-! ## Rounds -/

variable {acts : List WebAct} {next next' : Next} {s s' : StreamCtx} {srv : WebServer}
  {files : Nat → Bytes} {c : WebConn} {silent : Prop}

section Rounds

variable {cE c' : WebConn} {new : List StreamAct} {ok : Bool}

/-- Since `cE` nothing but what the trace says has been given to the output. -/
def Grown (cE c : WebConn) (part : Bytes) : Prop :=
  ∃ acts, c.trace = cE.trace ++ acts ∧
    c.out.wire ++ c.out.out.unsent = cE.out.wire ++ cE.out.out.unsent ++ queuedBytes acts ++ part

theorem Grown.refl (c : WebConn) : Grown c c [] :=
  ⟨[], (append_nil _).symm, by simp [queuedBytes]⟩

theorem Grown.step (h : Grown cE c []) {bytes part : Bytes}
    (hout : OutGrows silent c.out c'.out bytes) (htrace : c'.trace = c.trace ++ acts)
    (hbytes : bytes = queuedBytes acts ++ part) :
    Grown cE c' part := by
  obtain ⟨acts0, ht, hs⟩ := h
  refine ⟨acts0 ++ acts, by rw [htrace, ht, append_assoc], ?_⟩
  rw [hout.stream, hs, hbytes, queuedBytes_append]
  simp only [append_assoc, nil_append]

theorem Grown.goes (h : Grown cE c []) (hg : Goes silent c c' acts) : Grown cE c' [] := by
  obtain ⟨out, hout, rfl⟩ := hg
  exact h.step hout rfl (append_nil _).symm

theorem Grown.same (h : Grown cE c []) (hout : c'.out.wire ++ c'.out.out.unsent =
      c.out.wire ++ c.out.out.unsent) (htrace : c'.trace = c.trace) : Grown cE c' [] := by
  obtain ⟨acts, ht, hs⟩ := h
  exact ⟨acts, htrace.trans ht, hout.trans hs⟩

/-- The stream has failed: it is gone, and the output holds at most a part of its next bytes
    besides what was queued. -/
def Failed (files : Nat → Bytes) (srv : WebServer) (cE : WebConn) (s : StreamCtx) (c : WebConn) :
    Prop :=
  c.stream = none ∧ ∃ start size part, Begun srv c.trace s.request start size ∧ Grown cE c part ∧
    bodyOf s.request c.trace ++ part <+: rangeBytes (files s.request) start size

/-- The connection inside a handler that was entered with `cE`. A stream that was finished has been
    sent as a whole. A handler that returns -1 may have given up a stream. -/
structure Along (files : Nat → Bytes) (srv : WebServer) (cE : WebConn) (next : Next)
    (c : WebConn) : Prop where
  bodies : Bodies files srv c
  finished : next ≠ .ret false → Finished c ∨ c.closeWhenDrained = true
  grown : (∀ ok, next ≠ .ret ok) → Grown cE c []
  whole : ∀ s trace, .finish s trace ∈ c.streamActs → Whole files srv s trace
  failed : ∃ new, c.streamActs = cE.streamActs ++ new ∧
    ∀ s, .fail s ∈ new → next = .ret false ∧ Failed files srv cE s c

/-- What a step does to the streams' history. -/
theorem Along.extend (h : Along files srv cE next c) (hnext : ∀ ok, next ≠ .ret ok)
    (hacts : c'.streamActs = c.streamActs ++ new) (hbodies : Bodies files srv c')
    (hfinished : next' ≠ .ret false → Finished c' ∨ c'.closeWhenDrained = true)
    (hgrown : (∀ ok, next' ≠ .ret ok) → Grown cE c' [])
    (hwhole : ∀ s trace, .finish s trace ∈ new → Whole files srv s trace)
    (hfail : ∀ s, .fail s ∈ new → next' = .ret false ∧ Failed files srv cE s c') :
    Along files srv cE next' c' := by
  obtain ⟨old, hold, hnone⟩ := h.failed
  refine ⟨hbodies, hfinished, hgrown, fun s trace hm => ?_, old ++ new, ?_, fun s hm => ?_⟩
  · rw [hacts] at hm
    exact (mem_append.mp hm).elim (h.whole s trace) (hwhole s trace)
  · rw [hacts, hold, append_assoc]
  · rcases mem_append.mp hm with hm | hm
    · exact absurd (hnone s hm).1 (hnext false)
    · exact hfail s hm

/-- A step that adds nothing to it. -/
theorem Along.unrecorded (h : Along files srv cE next c) (hnext : ∀ ok, next ≠ .ret ok)
    (hacts : c'.streamActs = c.streamActs) (hbodies : Bodies files srv c')
    (hfinished : next' ≠ .ret false → Finished c' ∨ c'.closeWhenDrained = true)
    (hgrown : (∀ ok, next' ≠ .ret ok) → Grown cE c' []) : Along files srv cE next' c' := by
  have hnone : c'.streamActs = c.streamActs ++ [] := hacts.trans (append_nil _).symm
  exact h.extend hnext hnone hbodies hfinished hgrown (fun _ _ hm => absurd hm not_mem_nil)
    fun _ hm => absurd hm not_mem_nil

/-- A step that does nothing to the streams. -/
theorem Along.plain (h : Along files srv cE next c) (hnext : ∀ ok, next ≠ .ret ok)
    (hkeep : c.closeWhenDrained = true → c'.closeWhenDrained = true)
    (htrace : c'.trace = c.trace ++ acts) (hplain : NoStream acts)
    (hstream : c'.stream = c.stream) (hacts : c'.streamActs = c.streamActs)
    (hgrown : (∀ ok, next' ≠ .ret ok) → Grown cE c' []) : Along files srv cE next' c' := by
  refine h.unrecorded hnext hacts
    (h.bodies.plain htrace hplain fun s' hs' => ⟨s', hstream ▸ hs', rfl, rfl, rfl⟩) (fun _ => ?_)
    hgrown
  rcases h.finished (hnext false) with hfin | hflag
  · exact .inl (hfin.plain htrace hplain fun s hs => ⟨s, hstream.trans hs, rfl⟩)
  · exact .inr (hkeep hflag)

theorem Ends.streams (h : Ends silent c c' acts ok) :
    c'.stream = c.stream ∧ c'.streamActs = c.streamActs := by
  obtain ⟨out, part, -, rfl⟩ := h
  exact ⟨rfl, rfl⟩

theorem Goes.streams (h : Goes silent c c' acts) :
    c'.stream = c.stream ∧ c'.streamActs = c.streamActs := by
  obtain ⟨out, -, rfl⟩ := h
  exact ⟨rfl, rfl⟩

/-- The connection is given up, with an answer or without one. -/
theorem Along.ends (h : Along files srv cE next c) (hnext : ∀ ok, next ≠ .ret ok)
    (hends : Ends silent c c' acts ok) (hplain : NoStream acts) : Along files srv cE (.ret ok) c' :=
  h.plain hnext hends.keeps.flag hends.trace hplain hends.streams.1 hends.streams.2
    fun hret => absurd rfl (hret _)

theorem Along.goes (h : Along files srv cE next c) (hnext : ∀ ok, next ≠ .ret ok)
    (hgoes : Goes silent c c' acts) (hplain : NoStream acts) : Along files srv cE next' c' :=
  h.plain hnext hgoes.keeps.flag hgoes.trace hplain hgoes.streams.1 hgoes.streams.2
    fun _ => (h.grown hnext).goes hgoes

/-- A read of the stream is submitted, or has landed. -/
theorem Along.reread (h : Along files srv cE next c) (hnext : ∀ ok, next ≠ .ret ok)
    (hs : c.stream = some s) {reading : Bool} (out : OutConn)
    (hgrown : (∀ ok, next' ≠ .ret ok) →
      Grown cE { c with out := out, stream := some { s with reading := reading } } []) :
    Along files srv cE next'
      { c with out := out, stream := some { s with reading := reading } } := by
  refine h.unrecorded hnext rfl
    (h.bodies.plain (append_nil _).symm noStream_nil fun s' hs' => ?_) (fun _ => ?_) hgrown
  · cases hs'
    exact ⟨_, hs, rfl, rfl, rfl⟩
  · rcases h.finished (hnext false) with hfin | hflag
    · refine .inl (hfin.plain (append_nil _).symm noStream_nil fun s' hs' => ?_)
      cases hs.symm.trans hs'
      exact ⟨_, rfl, rfl⟩
    · exact .inr hflag

/-- What was read for the stream is queued. -/
theorem Along.chunk (h : Along files srv cE next c) (hnext : ∀ ok, next ≠ .ret ok)
    (hs : c.stream = some s) {data : Bytes}
    (hdata : data <+: (files s.request).drop s.offset) (hlen : data.length ≤ s.finish - s.offset)
    (hgoes : Goes silent c c' [.queue (.chunk s.request data)]) :
    Along files srv cE .pump
      { c' with
        stream := some { s with offset := s.offset + data.length }
        streamActs := c.streamActs ++ [.read s (some data)] } := by
  have htrace := hgoes.trace
  refine h.extend hnext rfl (h.bodies.chunk hs hdata hlen htrace rfl rfl rfl rfl) (fun _ => ?_)
    (fun _ => ((h.grown hnext).goes hgoes).same rfl rfl) (fun _ _ hm => by simp at hm)
    (fun _ hm => by simp at hm)
  rcases h.finished (hnext false) with hfin | hflag
  · exact .inl (hfin.chunk hs htrace rfl rfl)
  · exact .inr (hgoes.keeps.flag hflag)

/-- The stream has been sent. -/
theorem Along.finish (h : Along files srv cE next c) (hnext : ∀ ok, next ≠ .ret ok)
    (hs : c.stream = some s) (hdone : s.finish ≤ s.offset) :
    Along files srv cE .serve (c.detached [.finish s c.trace]) := by
  refine h.extend hnext rfl (h.bodies.plain (append_nil _).symm noStream_nil fun s' hs' => ?_)
    (fun _ => ?_) (fun _ => (h.grown hnext).same rfl rfl) (fun s1 trace hm => ?_)
    (fun _ hm => by simp at hm)
  · cases hs'
  · rcases h.finished (hnext false) with hfin | hflag
    · exact .inl (hfin.detach h.bodies hs hdone rfl)
    · exact .inr hflag
  · obtain ⟨rfl, rfl⟩ : s1 = s ∧ trace = c.trace := by simpa using hm
    exact h.bodies.whole hs hdone

/-- The stream ends and the connection is given up. -/
theorem Along.stop (h : Along files srv cE next c) (hnext : ∀ ok, next ≠ .ret ok)
    (hs : c.stream = some s) (hends : Ends silent (c.detached new) c' [] ok)
    (hstops : StreamStops silent c s new c' ok) (hread : FromFiles files new) :
    Along files srv cE (.ret ok) c' := by
  rcases hstops with ⟨hdone, rfl⟩ | ⟨read, part, rfl, rfl, hpart, hlen, hout⟩
  · exact (h.finish hnext hs hdone).ends (by simp) hends noStream_nil
  · have hdata : read.getD [] <+: (files s.request).drop s.offset := by
      have hfrom := hread _ mem_cons_self
      cases read with
      | none => exact nil_prefix
      | some => exact hfrom
    obtain ⟨start, size, hbegun, hpre⟩ := h.bodies.continues hs hdata hlen
    have hfailed : Failed files srv cE s c' := by
      rw [Failed, hends.trace, show (c.detached _).trace ++ [] = c.trace from append_nil _]
      exact ⟨hends.streams.1, start, size, part, hbegun, (h.grown hnext).step hout hends.trace rfl,
        ((prefix_append_right_inj _).mpr hpart).trans hpre⟩
    refine h.extend hnext hends.streams.2
      (h.bodies.plain hends.trace noStream_nil fun s1 hs1 => ?_) (fun hne => absurd rfl hne)
      (fun hret => absurd rfl (hret _)) (fun s1 trace hm => ?_) (fun s1 hm => ⟨rfl, ?_⟩)
    · cases hs1.symm.trans hends.streams.1
    · simp at hm
    · obtain rfl : s1 = s := by simpa using hm
      exact hfailed

/-- A round of a handler. -/
theorem Along.round (h : Along files srv cE next c) (hphase : PhaseAt next c)
    (hround : RoundTo srv silent c next c' next') (hread : FromFiles files c'.streamActs) :
    Along files srv cE next' c' := by
  have hnext : ∀ ok, next ≠ .ret ok := by
    rintro ok rfl
    cases hround
  have hconsume : ∀ total, Along files srv cE next (c.consume total) := fun total =>
    h.plain hnext id (append_nil _).symm noStream_nil rfl rfl
      fun _ => (h.grown hnext).same rfl rfl
  cases hround with
  | wait | blocked =>
    exact h.plain hnext id (append_nil _).symm noStream_nil rfl rfl
      fun hret => absurd rfl (hret _)
  | refuse _ hacts hends => exact h.ends hnext hends (noStream_of_whole hacts)
  | giveUp _ hacts _ hends =>
    exact (hconsume _).ends hnext hends ((noStream_dispatch _).append (noStream_of_whole hacts))
  | answer _ _ _ hgoes =>
    exact (hconsume _).goes hnext hgoes ((noStream_dispatch _).append (noStream_whole _ _))
  | park _ _ hgoes =>
    have hdone : Along files srv cE .serve _ := (hconsume _).goes hnext hgoes (noStream_dispatch _)
    exact hdone.plain (by simp) id (append_nil _).symm noStream_nil rfl rfl
      fun hret => absurd rfl (hret _)
  | start _ hfile _ hgoes =>
    have htrace := hgoes.trace
    refine h.unrecorded hnext hgoes.streams.2 (h.bodies.start hfile htrace rfl rfl rfl rfl)
      (fun _ => ?_) (fun _ => (((hconsume _).grown hnext).goes hgoes).same rfl rfl)
    rcases h.finished (hnext false) with hfin | hflag
    · exact .inl (hfin.start hphase.serving.2.2 htrace rfl rfl)
    · exact .inr (hgoes.keeps.flag hflag)
  | submit hs => exact h.reread hnext hs c.out fun hret => absurd rfl (hret _)
  | chunk hs _ hlen hgoes =>
    exact h.chunk hnext hs (hread _ (mem_append_right _ mem_cons_self)) hlen hgoes
  | finish hs hdone => exact h.finish hnext hs hdone
  | stop hs hends hstops =>
    refine h.stop hnext hs hends hstops fun a ha => hread a ?_
    rw [hends.streams.2]
    exact mem_append_right _ ha

/-! ## Events -/

/-- Between events: what is not in progress has been sent as a whole, unless the connection is
    closed or will be when its output has drained. -/
structure StreamsKept (files : Nat → Bytes) (srv : WebServer) (c : WebConn) : Prop where
  bodies : Bodies files srv c
  finished : Finished c ∨ c.out.closed = true ∨ c.closeWhenDrained = true
  whole : ∀ s trace, .finish s trace ∈ c.streamActs → Whole files srv s trace

/-- The stream has failed, and the connection is closed or flagged. -/
def GivenUp (files : Nat → Bytes) (srv : WebServer) (cE : WebConn) (s : StreamCtx) (c : WebConn) :
    Prop :=
  Failed files srv cE s c ∧ (c.out.closed = true ∨ c.closeWhenDrained = true)

/-- What the handling of an event comes to, with the streams that it has given up. -/
def Outcome (files : Nat → Bytes) (srv : WebServer) (cE c : WebConn) : Prop :=
  StreamsKept files srv c ∧ ∃ new, c.streamActs = cE.streamActs ++ new ∧
    ∀ s, .fail s ∈ new → GivenUp files srv cE s c

theorem Along.leave (h : Along files srv cE (.ret ok) c) (deferring : Bool) :
    Outcome files srv cE (settle (c.leave deferring ok)) := by
  obtain ⟨new, hnew, hfail⟩ := h.failed
  refine settle_leave c deferring ok (fun hok => ?_) (fun _ => ?_) fun _ => ?_
  · subst hok
    refine ⟨⟨h.bodies, ?_, h.whole⟩, new, hnew, fun s hm => by cases (hfail s hm).1⟩
    rcases h.finished (by simp) with hfin | hflag
    · exact .inl hfin
    · exact .inr (.inr hflag)
  · exact ⟨⟨⟨h.bodies.begun, h.bodies.known, h.bodies.current⟩, .inr (.inl rfl), h.whole⟩, new,
      hnew, fun s hm => ⟨(hfail s hm).2, .inl rfl⟩⟩
  · exact ⟨⟨⟨h.bodies.begun, h.bodies.known, h.bodies.current⟩, .inr (.inr rfl), h.whole⟩, new,
      hnew, fun s hm => ⟨(hfail s hm).2, .inr rfl⟩⟩

/-- An event finds the streams as the last one left them. -/
theorem StreamsKept.begin (h : StreamsKept files srv c) (hopen : c.out.closed = false) :
    Along files srv c .pump c := by
  refine ⟨h.bodies, fun _ => ?_, fun _ => .refl c, h.whole, [], (append_nil _).symm, fun _ hm => ?_⟩
  · rcases h.finished with hfin | hclosed | hflag
    · exact .inl hfin
    · rw [hopen] at hclosed
      cases hclosed
    · exact .inr hflag
  · cases hm

/-- The history of the streams only grows. -/
theorem webStep_streamActs {ev : WebEvent} (hstep : webStep srv c ev = some c') :
    c.streamActs <+: c'.streamActs := by
  rcases webStep_reaches (J := fun _ c1 => Keeps c c1) hstep (fun _ hentry => hentry.keeps)
      (fun hround hJ => hJ.trans hround.keeps) with ⟨-, hdrop⟩ | ⟨d, ok, c2, hkeep, rfl⟩
  · exact hdrop.streamActs ▸ prefix_rfl
  · exact (hkeep.trans (leave_keeps c2 d ok)).streamActs

theorem FromFiles.of_prefix {acts acts' : List StreamAct} (h : FromFiles files acts')
    (hpre : acts <+: acts') : FromFiles files acts :=
  fun a ha => h a (hpre.subset ha)

theorem Reads.along {state : WsState} (hr : Reads (c.withState state) c')
    (h : Along files srv cE .pump c) : Along files srv cE next' c' := by
  obtain ⟨bytes, capacity, pending, -, rfl⟩ := hr
  exact h.plain (by simp) id (append_nil _).symm noStream_nil rfl rfl
    fun _ => (h.grown (by simp)).same rfl rfl

/-- What a handler does before its first round. -/
theorem along_entry (hopen : c.out.closed = false) (hphase : Phase c)
    (h : Along files srv c .pump c) (hentry : Entry srv silent c c' next)
    (hread : FromFiles files c'.streamActs) : Along files srv c next c' := by
  have hnext : ∀ ok, Next.pump ≠ .ret ok := by simp
  have hparked : Along files srv c .pump { c with asyncInflight := false, file := none } :=
    h.plain hnext id (append_nil _).symm noStream_nil rfl rfl fun _ =>
      (Grown.refl c).same rfl rfl
  induction hentry with
  | ignore =>
    exact h.plain hnext id (append_nil _).symm noStream_nil rfl rfl fun hret => absurd rfl (hret _)
  | hold _ _ _ hreads | serve _ _ _ hreads =>
    exact (show Reads (c.withState c.out.state) _ from hreads).along h
  | begin _ _ hreads | enter _ hreads => exact hreads.along h
  | drained hout =>
    exact h.plain hnext id (append_nil _).symm noStream_nil rfl rfl
      fun _ => (Grown.refl c).same (hout.stream.trans (append_nil _)) rfl
  | resume hs hout =>
    exact h.reread hnext hs _ fun _ => (Grown.refl c).same (hout.stream.trans (append_nil _)) rfl
  | fileAnswer _ _ hgoes => exact hparked.goes hnext hgoes (noStream_whole _ _)
  | fileGiveUp _ hacts hends => exact hparked.ends hnext hends (noStream_of_whole hacts)
  | round he hround ih =>
    exact (ih (hread.of_prefix hround.keeps.streamActs)).round (phaseAt_entry hopen hphase he)
      hround hread
  | beginRefuse _ hreads hacts hends =>
    have hbegun : Along files srv c .pump _ := hreads.along h
    exact hbegun.ends hnext hends (noStream_of_whole hacts)
  | upgrade _ hreads =>
    have hup : Along files srv c .pump _ := hreads.along h
    exact hup.plain hnext id (append_nil _).symm noStream_nil rfl rfl
      fun hret => absurd rfl (hret _)

/-- Every event keeps the streams. -/
theorem webStep_streams {ev : WebEvent} (hphase : Phase c) (h : StreamsKept files srv c)
    (hstep : webStep srv c ev = some c') (hread : FromFiles files c'.streamActs) :
    Outcome files srv c c' := by
  have hopen := (webStep_handled hstep).1
  rcases webStep_reaches
      (J := fun next c1 => PhaseAt next c1 ∧
        (FromFiles files c1.streamActs → Along files srv c next c1)) hstep
      (fun _ hentry =>
        ⟨phaseAt_entry hopen hphase hentry, along_entry hopen hphase (h.begin hopen) hentry⟩)
      (fun hround hJ => ⟨phaseAt_round hround hJ.1, fun hread =>
        (hJ.2 (hread.of_prefix hround.keeps.streamActs)).round hJ.1 hround hread⟩) with
    ⟨-, hdrop⟩ | ⟨d, ok, c2, ⟨-, halong⟩, rfl⟩
  · have htrace : c'.trace = c.trace ++ [] := hdrop.trace.trans (append_nil _).symm
    refine ⟨⟨h.bodies.plain htrace noStream_nil fun s hs => ?_, .inr (.inl hdrop.closed),
      hdrop.streamActs ▸ h.whole⟩, [], hdrop.streamActs.trans (append_nil _).symm, fun _ hm => ?_⟩
    · exact ⟨s, hdrop.current ▸ hs, rfl, rfl, rfl⟩
    · cases hm
  · exact (halong (hread.of_prefix (leave_keeps c2 d ok).streamActs)).leave d

end Rounds

theorem streamsKept_accepted (files : Nat → Bytes) (srv : WebServer) (tls : Bool) (input : Bytes) :
    StreamsKept files srv (WebConn.accepted tls input) :=
  ⟨⟨fun _ _ _ h => absurd h not_mem_nil, fun _ _ h => absurd h not_mem_nil,
    fun _ h => nomatch h⟩, .inl fun _ _ _ h => absurd h not_mem_nil,
    fun _ _ h => absurd h not_mem_nil⟩

theorem phase_step (c : WebConn) (ev : WebEvent) (c' : WebConn) (h : Phase c)
    (hstep : webStep srv c ev = some c') : Phase c' :=
  webStep_rule (fun _ hdrop => .inl hdrop.closed) phaseAt_entry phaseAt_round phaseAt_leave c ev c'
    h hstep

/-- The streams are kept in every run in which reads return bytes of the files. -/
theorem streamsKept_run {tls : Bool} {input : Bytes} {events : List WebEvent}
    (hrun : run (webStep srv) (WebConn.accepted tls input) events = some c)
    (hreads : FromFiles files c.streamActs) : Phase c ∧ StreamsKept files srv c := by
  have hinv := run_invariant_all
    (I := fun c => Phase c ∧ (FromFiles files c.streamActs → StreamsKept files srv c))
    (fun c1 ev c2 h hstep => ⟨phase_step c1 ev c2 h.1 hstep, fun hread =>
      (webStep_streams h.1 (h.2 (hread.of_prefix (webStep_streamActs hstep))) hstep hread).1⟩)
    events _ c ⟨phase_accepted tls input, fun _ => streamsKept_accepted files srv tls input⟩ hrun
  exact ⟨hinv.1, hinv.2 hreads⟩

/-- The body of a stream that is over is the whole range, unless the connection is. -/
theorem StreamsKept.length_or (h : StreamsKept files srv c) {i size : Nat} {b : Bytes}
    (hm : .queue (.head i b size) ∈ c.trace) :
    (bodyOf i c.trace).length = size ∨ (∃ s, c.stream = some s ∧ s.request = i) ∨
      c.out.closed = true ∨ c.closeWhenDrained = true := by
  by_cases hcur : ∃ s, c.stream = some s ∧ s.request = i
  · exact .inr (.inl hcur)
  rcases h.finished with hfin | hend
  · exact .inl (hfin i b size hm fun s hs hreq => hcur ⟨s, hs, hreq⟩)
  · exact .inr (.inr hend)

/-- In every run in which reads return bytes of the files, after every event: the body queued for
    a streamed file is a prefix of the range that the reply names, and the whole of it unless the
    stream is in progress or the connection is closed or flagged; a call of `stream_finish` finds
    the whole range queued; a call of `stream_fail` ends the stream and leaves the connection
    closed or flagged. -/
theorem streamed_body_prefix (srv : WebServer) (files : Nat → Bytes) (tls : Bool) (input : Bytes)
    (events : List WebEvent) (c0 : WebConn)
    (hrun : run (webStep srv) (WebConn.accepted tls input) events = some c0)
    (ev : WebEvent) (c : WebConn) (hstep : webStep srv c0 ev = some c)
    (hreads : FromFiles files c.streamActs) :
    (∀ i b size, .queue (.head i b size) ∈ c.trace → ∃ start,
        RangeOf srv (dispatches c.trace) i start size ∧
        bodyOf i c.trace <+: rangeBytes (files i) start size ∧
        ((bodyOf i c.trace).length = size ∨ (∃ s, c.stream = some s ∧ s.request = i) ∨
          c.out.closed = true ∨ c.closeWhenDrained = true)) ∧
      (∀ s trace, .finish s trace ∈ c.streamActs → Whole files srv s trace) ∧
      (∀ s, .fail s ∈ c.streamActs.drop c0.streamActs.length → GivenUp files srv c0 s c) ∧
      (c.out.closed = false → c.out.state = .http → c.closeWhenDrained = false →
        c.out.wire ++ c.out.out.unsent = queuedBytes c.trace) := by
  have hinv := streamsKept_run hrun (hreads.of_prefix (webStep_streamActs hstep))
  obtain ⟨hkept, new, hnew, hfail⟩ := webStep_streams hinv.1 hinv.2 hstep hreads
  refine ⟨fun i b size hm => ?_, hkept.whole, fun s hm => hfail s ?_, fun hopen hstate hflag => ?_⟩
  · obtain ⟨start, hrange, hpre⟩ := hkept.bodies.begun i b size hm
    exact ⟨start, hrange, hpre, hkept.length_or hm⟩
  · rwa [hnew, drop_left] at hm
  · obtain ⟨st, -, -, hout⟩ :=
      (phase_step c0 ev c hinv.1 hstep).serial hopen hstate hflag
    exact hout

/-- A server that answers with a file from its second byte on. -/
def filmServer : WebServer :=
  { pathServer true with
    handle := some fun _ _ =>
      (0, { Reply.empty with
        status := 206, isFile := true, fileOffset := 1, fileSize := streamChunk + 1 }) }

def filmRequest : Bytes := ascii "GET /f HTTP/1.1\r\n\r\n"

/-- The request is read and the stream started; its first read is in flight. -/
def filmEvents : List WebEvent :=
  [.readable .done [⟨true, .bytes 1000⟩, ⟨true, .again⟩] [.taking],
    .chunkDone (some (ascii "bc")) [.taking]]

def film (i : Nat) : Bytes := if i = 0 then ascii "abcdef" else []

/-- The stream after that. -/
def filmCtx : StreamCtx :=
  { offset := 3, finish := streamChunk + 2, keepAlive := true, reading := false, request := 0 }

/-- The first read returns two bytes, which are queued; the second one fails. -/
theorem streamed_body_prefix_cut :
    ∃ c0 c, run (webStep filmServer) (WebConn.accepted false filmRequest) filmEvents = some c0 ∧
      webStep filmServer c0 (.chunkDone none []) = some c ∧ bodyOf 0 c0.trace = ascii "bc" ∧
      .fail filmCtx ∈ c.streamActs.drop c0.streamActs.length ∧
      GivenUp film filmServer c0 filmCtx c := by
  obtain ⟨c0, c, hrun, hstep, hbody, hfail, hreads⟩ : ∃ c0 c,
      run (webStep filmServer) (WebConn.accepted false filmRequest) filmEvents = some c0 ∧
        webStep filmServer c0 (.chunkDone none []) = some c ∧ bodyOf 0 c0.trace = ascii "bc" ∧
        .fail filmCtx ∈ c.streamActs.drop c0.streamActs.length ∧ FromFiles film c.streamActs :=
    ⟨_, _, rfl, rfl, by decide +kernel, by decide +kernel, by decide +kernel⟩
  obtain ⟨-, -, hgivenUp, -⟩ := streamed_body_prefix filmServer film false filmRequest filmEvents c0
    hrun (.chunkDone none []) c hstep hreads
  exact ⟨c0, c, hrun, hstep, hbody, hfail, hgivenUp filmCtx hfail⟩

end Portico.Http
