/-
  Streamed files: the bodies that come of what is done to streams.

  `FromFiles` says what a read is: bytes of the file at the offset that was asked for. `bodyOf`
  are the bytes that were queued for a request.

  Proved: what each step of a stream does to `Bodies`: every body is a prefix of the range that
  the reply names, and the stream in progress stands where its body ends.
-/
import Portico.Http.Order
import Portico.Http.Bodies

namespace Portico.Http

open Portico.Lib Portico.Ws Portico.Ws.OutConn WebConn List

/-! ## Reads -/

/-- A read that succeeds returns bytes of the file at the offset of the stream; `files` are the
    contents of the files by the number of the request that is answered with one. -/
def StreamAct.FromFile (files : Nat → Bytes) : StreamAct → Prop
  | .read s (some data) => data <+: (files s.request).drop s.offset
  | _ => True

instance (files : Nat → Bytes) : DecidablePred (StreamAct.FromFile files)
  | .read s (some data) => inferInstanceAs (Decidable (data <+: (files s.request).drop s.offset))
  | .read _ none => isTrue trivial
  | .finish _ _ => isTrue trivial
  | .fail _ => isTrue trivial

def FromFiles (files : Nat → Bytes) (acts : List StreamAct) : Prop := ∀ a ∈ acts, a.FromFile files

instance (files : Nat → Bytes) (acts : List StreamAct) : Decidable (FromFiles files acts) :=
  inferInstanceAs (Decidable (∀ a ∈ acts, a.FromFile files))

/-! ## Bodies -/

/-- The body bytes that were queued for request `i`. -/
def bodyOf (i : Nat) (trace : List WebAct) : Bytes :=
  trace.flatMap fun
    | .queue (.chunk j bytes) => if j = i then bytes else []
    | _ => []

/-- The application answers request `i` with that range of a file. -/
def RangeOf (srv : WebServer) (reqs : List Request) (i start size : Nat) : Prop :=
  ∃ req res, RepliedTo srv reqs i req res ∧ res.isFile = true ∧ res.fileOffset = start ∧
    res.fileSize = size

/-- The bytes of a range. -/
def rangeBytes (file : Bytes) (start size : Nat) : Bytes := (file.drop start).take size

/-- Request `i` is answered with the range, and the header block of that answer has been queued. -/
def Begun (srv : WebServer) (trace : List WebAct) (i start size : Nat) : Prop :=
  (∃ b, .queue (.head i b size) ∈ trace) ∧ RangeOf srv (dispatches trace) i start size

/-- Every body is a prefix of its range, and the stream in progress stands where its body ends. -/
structure Bodies (files : Nat → Bytes) (srv : WebServer) (c : WebConn) : Prop where
  begun : ∀ i b size, .queue (.head i b size) ∈ c.trace →
    ∃ start, RangeOf srv (dispatches c.trace) i start size ∧
      bodyOf i c.trace <+: rangeBytes (files i) start size
  known : ∀ i b, .queue (.chunk i b) ∈ c.trace → i < c.count
  current : ∀ s, c.stream = some s → ∃ start size, Begun srv c.trace s.request start size ∧
    s.finish = start + size ∧ s.offset = start + (bodyOf s.request c.trace).length ∧
    s.offset ≤ s.finish

/-- The streams that are not in progress have been sent as a whole. -/
def Finished (c : WebConn) : Prop :=
  ∀ i b size, .queue (.head i b size) ∈ c.trace → (∀ s, c.stream = some s → s.request ≠ i) →
    (bodyOf i c.trace).length = size

variable {acts : List WebAct} {b data : Bytes} {i size : Nat} {s : StreamCtx}

section Bodies

variable {files : Nat → Bytes} {srv : WebServer} {c c' : WebConn} {reqs : List Request}
  {s' : StreamCtx} {req : Request}

theorem bodyOf_append (i : Nat) (t t' : List WebAct) :
    bodyOf i (t ++ t') = bodyOf i t ++ bodyOf i t' :=
  flatMap_append

/-- Nothing of a stream. -/
def NoStream (acts : List WebAct) : Prop :=
  ∀ i, bodyOf i acts = [] ∧ (∀ b size, .queue (.head i b size) ∉ acts) ∧
    ∀ b, .queue (.chunk i b) ∉ acts

theorem noStream_nil : NoStream [] :=
  fun _ => ⟨rfl, fun _ _ => not_mem_nil, fun _ => not_mem_nil⟩

theorem noStream_dispatch (req : Request) : NoStream [.dispatch req] :=
  fun _ => ⟨rfl, by simp, by simp⟩

theorem noStream_whole (whom : ReplyTo) (b : Bytes) : NoStream [.queue (.whole whom b)] :=
  fun _ => ⟨rfl, by simp, by simp⟩

/-- What a round or an entry may queue in one piece. -/
theorem noStream_of_whole {whom : ReplyTo} (h : acts = [] ∨ acts = [.queue (.whole whom b)]) :
    NoStream acts := by
  rcases h with rfl | rfl
  · exact noStream_nil
  · exact noStream_whole whom b

theorem NoStream.append {acts' : List WebAct} (h : NoStream acts) (h' : NoStream acts') :
    NoStream (acts ++ acts') := by
  intro i
  refine ⟨by rw [bodyOf_append, (h i).1, (h' i).1]; rfl, fun b size hm => ?_, fun b hm => ?_⟩
  · exact (mem_append.mp hm).elim ((h i).2.1 b size) ((h' i).2.1 b size)
  · exact (mem_append.mp hm).elim ((h i).2.2 b) ((h' i).2.2 b)

theorem RangeOf.append {start : Nat} (h : RangeOf srv reqs i start size) (more : List Request) :
    RangeOf srv (reqs ++ more) i start size := by
  obtain ⟨req, res, hrep, hfile⟩ := h
  exact ⟨req, res, hrep.append more, hfile⟩

/-- A request is answered with one range. -/
theorem RangeOf.unique {start start' size' : Nat} (h : RangeOf srv reqs i start size)
    (h' : RangeOf srv reqs i start' size') : start = start' ∧ size = size' := by
  obtain ⟨req, res, ⟨hreq, hres⟩, -, hstart, hsize⟩ := h
  obtain ⟨req', res', ⟨hreq', hres'⟩, -, hstart', hsize'⟩ := h'
  have hsame : req = req' := Option.some.inj (hreq.symm.trans hreq')
  subst hsame
  have hsame : res = res' := hres.trans hres'.symm
  subst hsame
  exact ⟨hstart.symm.trans hstart', hsize.symm.trans hsize'⟩

theorem RangeOf.lt {start : Nat} (h : RangeOf srv (dispatches c.trace) i start size) :
    i < c.count := by
  obtain ⟨req, res, ⟨hreq, -⟩, -⟩ := h
  exact (List.getElem?_eq_some_iff.mp hreq).1

theorem count_le (htrace : c'.trace = c.trace ++ acts) : c.count ≤ c'.count := by
  unfold WebConn.count
  rw [htrace, dispatches_append, length_append]
  omega

theorem Begun.append {trace : List WebAct} {start : Nat} (h : Begun srv trace i start size)
    (more : List WebAct) : Begun srv (trace ++ more) i start size := by
  obtain ⟨⟨b, hb⟩, hrange⟩ := h
  refine ⟨⟨b, mem_append_left _ hb⟩, ?_⟩
  rw [dispatches_append]
  exact hrange.append _

/-- The trace has grown, but not by anything of a stream. -/
theorem Bodies.plain (h : Bodies files srv c) (htrace : c'.trace = c.trace ++ acts)
    (hplain : NoStream acts)
    (hstream : ∀ s', c'.stream = some s' → ∃ s, c.stream = some s ∧ s'.request = s.request ∧
      s'.finish = s.finish ∧ s'.offset = s.offset) : Bodies files srv c' := by
  have hbody : ∀ i, bodyOf i c'.trace = bodyOf i c.trace := by
    intro i
    rw [htrace, bodyOf_append, (hplain i).1, append_nil]
  refine ⟨fun i b size hm => ?_, fun i b hm => ?_, fun s' hs' => ?_⟩
  · rw [htrace] at hm
    rcases mem_append.mp hm with hm | hm
    · obtain ⟨start, hrange, hpre⟩ := h.begun i b size hm
      refine ⟨start, ?_, by rw [hbody]; exact hpre⟩
      rw [htrace, dispatches_append]
      exact hrange.append _
    · exact absurd hm ((hplain i).2.1 b size)
  · rw [htrace] at hm
    rcases mem_append.mp hm with hm | hm
    · exact Nat.lt_of_lt_of_le (h.known i b hm) (count_le htrace)
    · exact absurd hm ((hplain i).2.2 b)
  · obtain ⟨s, hs, hreq, hfinish, hoffset⟩ := hstream s' hs'
    obtain ⟨start, size, hbegun, hf, ho, hle⟩ := h.current s hs
    rw [hreq, hfinish, hoffset, hbody]
    exact ⟨start, size, htrace ▸ hbegun.append acts, hf, ho, hle⟩

theorem Finished.plain (h : Finished c) (htrace : c'.trace = c.trace ++ acts)
    (hplain : NoStream acts)
    (hstream : ∀ s, c.stream = some s → ∃ s', c'.stream = some s' ∧ s'.request = s.request) :
    Finished c' := by
  intro i b size hm hother
  rw [htrace] at hm
  rcases mem_append.mp hm with hm | hm
  · rw [htrace, bodyOf_append, (hplain i).1, append_nil]
    refine h i b size hm fun s hs => ?_
    obtain ⟨s', hs', hreq⟩ := hstream s hs
    rw [← hreq]
    exact hother s' hs'
  · exact absurd hm ((hplain i).2.1 b size)

/-! ### The steps of a stream -/

theorem prefix_extend {file body : Bytes} {start : Nat}
    (hbody : body <+: rangeBytes file start size)
    (hdata : data <+: file.drop (start + body.length)) (hle : body.length + data.length ≤ size) :
    body ++ data <+: rangeBytes file start size := by
  unfold rangeBytes at *
  rw [prefix_take_iff] at hbody ⊢
  rw [← drop_drop] at hdata
  refine ⟨?_, by rw [length_append]; exact hle⟩
  rw [← prefix_iff_eq_append.mp hbody.1]
  exact (prefix_append_right_inj body).mpr hdata

/-- What was read at the stream's offset continues its body. -/
theorem Bodies.continues (h : Bodies files srv c) (hs : c.stream = some s)
    (hdata : data <+: (files s.request).drop s.offset) (hle : data.length ≤ s.finish - s.offset) :
    ∃ start size, Begun srv c.trace s.request start size ∧
      bodyOf s.request c.trace ++ data <+: rangeBytes (files s.request) start size := by
  obtain ⟨start, size, hbegun, hfinish, hoffset, hin⟩ := h.current s hs
  refine ⟨start, size, hbegun, ?_⟩
  obtain ⟨⟨b, hb⟩, hrange⟩ := hbegun
  obtain ⟨start', hrange', hpre⟩ := h.begun _ b size hb
  rw [(hrange'.unique hrange).1] at hpre
  rw [hoffset] at hdata
  exact prefix_extend hpre hdata (by omega)

theorem bodyOf_chunk (i j : Nat) (t : List WebAct) (data : Bytes) :
    bodyOf i (t ++ [.queue (.chunk j data)]) = bodyOf i t ++ if j = i then data else [] := by
  rw [bodyOf_append]
  simp [bodyOf]

theorem Bodies.chunk (h : Bodies files srv c) (hs : c.stream = some s)
    (hdata : data <+: (files s.request).drop s.offset) (hle : data.length ≤ s.finish - s.offset)
    (htrace : c'.trace = c.trace ++ [.queue (.chunk s.request data)]) (hs' : c'.stream = some s')
    (hreq : s'.request = s.request) (hfinish : s'.finish = s.finish)
    (hoffset : s'.offset = s.offset + data.length) : Bodies files srv c' := by
  have hlen : dispatches c'.trace = dispatches c.trace := by
    rw [htrace, dispatches_append]
    exact append_nil _
  obtain ⟨start, size, hbegun, hpre⟩ := h.continues hs hdata hle
  refine ⟨fun i b size' hm => ?_, fun i b hm => ?_, fun s1 hs1 => ?_⟩
  · have hm : .queue (.head i b size') ∈ c.trace := by
      rw [htrace] at hm
      simpa using hm
    rw [hlen, htrace, bodyOf_chunk]
    obtain ⟨start', hrange', hpre'⟩ := h.begun i b size' hm
    refine ⟨start', hrange', ?_⟩
    by_cases hi : s.request = i
    · subst hi
      rw [if_pos rfl]
      obtain ⟨hstart, hsize⟩ := hrange'.unique hbegun.2
      rw [hstart, hsize]
      exact hpre
    · rw [if_neg hi, append_nil]
      exact hpre'
  · have hcount : c'.count = c.count := by rw [WebConn.count, hlen]; rfl
    rw [hcount]
    rw [htrace] at hm
    rcases mem_append.mp hm with hm | hm
    · exact h.known i b hm
    · have hi : i = s.request := by
        have := mem_singleton.mp hm
        injection this with this
        injection this
      rw [hi]
      exact hbegun.2.lt
  · rw [hs'] at hs1
    cases Option.some.inj hs1
    obtain ⟨start', size', hbegun', hf, ho, hin⟩ := h.current s hs
    rw [hreq, hfinish, hoffset, htrace, bodyOf_chunk, if_pos rfl, length_append]
    exact ⟨start', size', hbegun'.append _, hf, by omega, by omega⟩

theorem Finished.chunk (h : Finished c) (hs : c.stream = some s)
    (htrace : c'.trace = c.trace ++ [.queue (.chunk s.request data)]) (hs' : c'.stream = some s')
    (hreq : s'.request = s.request) : Finished c' := by
  intro i b size hm hother
  have hi : s.request ≠ i := by
    rw [← hreq]
    exact hother s' hs'
  have hm : .queue (.head i b size) ∈ c.trace := by
    rw [htrace] at hm
    simpa using hm
  rw [htrace, bodyOf_chunk, if_neg hi, append_nil]
  refine h i b size hm fun s1 hs1 => ?_
  rw [hs] at hs1
  cases hs1
  exact hi

/-- `stream_start` begins a body that is empty. -/
theorem Bodies.start (h : Bodies files srv c) (hfile : (c.reply srv req).isFile = true)
    (htrace : c'.trace =
      c.trace ++ [.dispatch req, .queue (.head c.count b (c.reply srv req).fileSize)])
    (hs : c'.stream = some s) (hreq : s.request = c.count)
    (hoffset : s.offset = (c.reply srv req).fileOffset)
    (hfinish : s.finish = (c.reply srv req).fileOffset + (c.reply srv req).fileSize) :
    Bodies files srv c' := by
  have hdisp : dispatches c'.trace = dispatches c.trace ++ [req] := by
    rw [htrace, dispatches_append]
    rfl
  have hbody : ∀ i, bodyOf i c'.trace = bodyOf i c.trace := by
    intro i
    rw [htrace, bodyOf_append]
    exact append_nil _
  have hnone : bodyOf c.count c.trace = [] := by
    refine flatMap_eq_nil_iff.mpr fun a ha => ?_
    cases a with
    | dispatch => rfl
    | queue p =>
      cases p with
      | whole => rfl
      | head => rfl
      | chunk j data =>
        have := h.known j data ha
        exact if_neg (by omega)
  have hrange : RangeOf srv (dispatches c'.trace) c.count (c.reply srv req).fileOffset
      (c.reply srv req).fileSize := by
    rw [hdisp]
    exact ⟨req, c.reply srv req, .last c req, hfile, rfl, rfl⟩
  refine ⟨fun i b' size hm => ?_, fun i b' hm => ?_, fun s1 hs1 => ?_⟩
  · rw [hbody]
    rw [htrace] at hm
    rcases mem_append.mp hm with hm | hm
    · obtain ⟨start, hrange', hpre⟩ := h.begun i b' size hm
      refine ⟨start, ?_, hpre⟩
      rw [hdisp]
      exact hrange'.append _
    · have heq : i = c.count ∧ size = (c.reply srv req).fileSize := by
        simp only [mem_cons, reduceCtorEq, WebAct.queue.injEq, Piece.head.injEq,
          not_mem_nil, or_false, false_or] at hm
        exact ⟨hm.1, hm.2.2⟩
      rw [heq.1, heq.2, hnone]
      exact ⟨_, hrange, nil_prefix⟩
  · have hm : .queue (.chunk i b') ∈ c.trace := by
      rw [htrace] at hm
      simpa using hm
    exact Nat.lt_of_lt_of_le (h.known i b' hm) (count_le htrace)
  · rw [hs] at hs1
    cases Option.some.inj hs1
    rw [hbody, hreq, hnone, hoffset, hfinish]
    refine ⟨_, _, ⟨⟨b, ?_⟩, hrange⟩, rfl, rfl, by omega⟩
    rw [htrace]
    simp

theorem Finished.start (h : Finished c) (hnone : c.stream = none) {n : Nat}
    (htrace : c'.trace = c.trace ++ [.dispatch req, .queue (.head n b size)])
    (hs : c'.stream = some s) (hreq : s.request = n) : Finished c' := by
  intro i b' size' hm hother
  have hi : n ≠ i := by
    rw [← hreq]
    exact hother s hs
  have hm : .queue (.head i b' size') ∈ c.trace := by
    rw [htrace] at hm
    rcases mem_append.mp hm with hm | hm
    · exact hm
    · simp only [mem_cons, reduceCtorEq, WebAct.queue.injEq, Piece.head.injEq,
        not_mem_nil, or_false, false_or] at hm
      exact absurd hm.1.symm hi
  have hbody : bodyOf i c'.trace = bodyOf i c.trace := by
    rw [htrace, bodyOf_append]
    exact append_nil _
  rw [hbody]
  refine h i b' size' hm fun s1 hs1 => ?_
  rw [hnone] at hs1
  cases hs1

/-- The body of the stream is the whole range. -/
def Whole (files : Nat → Bytes) (srv : WebServer) (s : StreamCtx) (trace : List WebAct) : Prop :=
  ∃ start size, Begun srv trace s.request start size ∧
    bodyOf s.request trace = rangeBytes (files s.request) start size ∧
    (bodyOf s.request trace).length = size

/-- Where the stream's offset has reached its end, everything has been queued. -/
theorem Bodies.whole (h : Bodies files srv c) (hs : c.stream = some s)
    (hdone : s.finish ≤ s.offset) : Whole files srv s c.trace := by
  obtain ⟨start, size, hbegun, hfinish, hoffset, hin⟩ := h.current s hs
  have hlen : (bodyOf s.request c.trace).length = size := by omega
  obtain ⟨⟨b, hb⟩, hrange⟩ := id hbegun
  obtain ⟨start', hrange', hpre⟩ := h.begun _ b size hb
  rw [(hrange'.unique hrange).1] at hpre
  refine ⟨start, size, hbegun, ?_, hlen⟩
  refine hpre.eq_of_length_le ?_
  rw [rangeBytes, length_take, hlen]
  exact Nat.min_le_left _ _

theorem Finished.detach (h : Finished c) (hb : Bodies files srv c) (hs : c.stream = some s)
    (hdone : s.finish ≤ s.offset) (htrace : c'.trace = c.trace) : Finished c' := by
  intro i b size hm _
  rw [htrace] at hm ⊢
  by_cases hi : s.request = i
  · subst hi
    obtain ⟨start, size', hbegun, -, hlen⟩ := hb.whole hs hdone
    obtain ⟨start', hrange', -⟩ := hb.begun _ b size hm
    rw [hlen, (hbegun.2.unique hrange').2]
  · refine h i b size hm fun s1 hs1 => ?_
    rw [hs] at hs1
    cases hs1
    exact hi

end Bodies

end Portico.Http
