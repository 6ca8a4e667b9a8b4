/-
  Files that are read at once (`http_serve_file`, `file_read_complete` of src/http/connection.c):
  on which connection the response is queued, and how often the context is freed.

  `FlightInv` pairs each read in flight with the life it was started for: the slot and generation
  in `Server.aio` are those of the life, and `generation` is the life modulo 2^32. `Once` says
  that a context is in flight or freed, and only once. Both hold in every run.

  Proved: `file_answer_reaches_asker`. The response of a read goes to the life that asked for it,
  in state HTTP, as long as the slot begins fewer than 2^32 lives during the read. That its slot
  is not on the free stack needs a thread of at most 2^16 slots whose new connections get
  registered: otherwise another connection's teardown can push the slot of a connection that is in
  use (`file_answer_on_free_slot`).
-/
import Mathlib.Data.List.Forall2
import Mathlib.Data.List.Perm.Basic
import Portico.Loop.Transfers

namespace Portico.Loop

open Portico.Lib Portico.Ws List

/-! ## Turns -/

/-- The life that a read in flight belongs to. -/
def Transfers.ownerOf (w : Transfers) : Flight → Option Life
  | .chunk b => w.streams.allocated[b]?
  | .file f => w.contexts.allocated[f]?

/-- Each file context is freed or in flight, and once; those of `pending` are neither. -/
def Transfers.Once (w : Transfers) (pending : List Nat) : Prop :=
  ∀ f, w.contexts.freed.count f + w.flights.count (.file f) + pending.count f =
    if f < w.contexts.allocated.length then 1 else 0

/-- What turns on the connection in slot `x` do to the contexts and the reads in flight. -/
structure Turned (x : Slot) (w w' : Transfers) (submitted : Bool) : Prop where
  server : w'.server = w.server
  answers : w'.answers = w.answers
  keeps : ∀ f l, w.ownerOf f = some l → w'.ownerOf f = some l
  adds : ∀ f l, w'.ownerOf f = some l → w.ownerOf f = some l ∨ l = w.server.lifeOf x
  pointer : ∀ b, w'.fileStream x = some b →
    w.fileStream x = some b ∨ w'.ownerOf (.chunk b) = some (w.server.lifeOf x)
  other : ∀ y, y ≠ x →
    w'.fileStream y = w.fileStream y ∧ w'.asyncInflight y = w.asyncInflight y
  flights : if submitted then ∃ f, w'.flights = w.flights ++ [f] ∧
      w'.ownerOf f = some (w.server.lifeOf x) else w'.flights = w.flights
  once : ∀ pending, w.Once pending → w'.Once pending

variable {f : Flight} {b k generation : Nat} {turns : List HttpTurn} {x : Slot}
  {w w1 w' : Transfers} {submitted : Bool}

section Turns

variable {pending : List Nat}

theorem ownerOf_congr (hstreams : w'.streams.allocated = w.streams.allocated)
    (hcontexts : w'.contexts.allocated = w.contexts.allocated) (f : Flight) :
    w'.ownerOf f = w.ownerOf f := by
  cases f with
  | chunk b => exact congrArg (·[b]?) hstreams
  | file f => exact congrArg (·[f]?) hcontexts

/-- Only streams are touched, and none is made or attached. -/
theorem Turned.same (hserver : w'.server = w.server) (hanswers : w'.answers = w.answers)
    (hstreams : w'.streams.allocated = w.streams.allocated) (hcontexts : w'.contexts = w.contexts)
    (hflights : w'.flights = w.flights)
    (hpointer : ∀ b, w'.fileStream x = some b → w.fileStream x = some b)
    (hother : ∀ y, y ≠ x →
      w'.fileStream y = w.fileStream y ∧ w'.asyncInflight y = w.asyncInflight y) :
    Turned x w w' false := by
  have howner : ∀ f, w'.ownerOf f = w.ownerOf f :=
    ownerOf_congr hstreams (congrArg Ledger.allocated hcontexts)
  refine ⟨hserver, hanswers, fun f l h => (howner f).trans h, fun f l h => ?_,
    fun b h => .inl (hpointer b h), hother, hflights, fun pending h f => ?_⟩
  · exact .inl ((howner f).symm.trans h)
  · rw [hcontexts, hflights]
    exact h f

/-- The same, with the streams where they are. -/
theorem Turned.keep (hserver : w'.server = w.server) (hanswers : w'.answers = w.answers)
    (hstreams : w'.streams.allocated = w.streams.allocated) (hcontexts : w'.contexts = w.contexts)
    (hflights : w'.flights = w.flights) (hpointer : w'.fileStream = w.fileStream)
    (hinflight : w'.asyncInflight = w.asyncInflight) : Turned x w w' false :=
  .same hserver hanswers hstreams hcontexts hflights (fun b h => hpointer ▸ h)
    fun y _ => ⟨by rw [hpointer], by rw [hinflight]⟩

theorem Turned.refl : Turned x w w false := .keep rfl rfl rfl rfl rfl rfl rfl

theorem Turned.trans (h : Turned x w w1 false) (h' : Turned x w1 w' submitted) :
    Turned x w w' submitted := by
  have hlife : w1.server.lifeOf x = w.server.lifeOf x := by rw [h.server]
  have hflights : w1.flights = w.flights := h.flights
  refine ⟨h'.server.trans h.server, h'.answers.trans h.answers,
    fun f l hf => h'.keeps f l (h.keeps f l hf), fun f l hf => ?_, fun b hb => ?_, fun y hy => ?_,
    ?_, fun pending ho => h'.once pending (h.once pending ho)⟩
  · rcases h'.adds f l hf with hf | hl
    · exact h.adds f l hf
    · exact .inr (hl.trans hlife)
  · rcases h'.pointer b hb with hb | hb
    · exact (h.pointer b hb).imp id (h'.keeps _ _)
    · exact .inr (hb.trans (congrArg some hlife))
  · obtain ⟨hs, hi⟩ := h.other y hy
    obtain ⟨hs', hi'⟩ := h'.other y hy
    exact ⟨hs'.trans hs, hi'.trans hi⟩
  · have hf := h'.flights
    rw [hflights, hlife] at hf
    exact hf

/-- The stream is detached from the connection, and perhaps freed. -/
theorem Turned.detached (hserver : w'.server = w.server) (hanswers : w'.answers = w.answers)
    (hstreams : w'.streams.allocated = w.streams.allocated) (hcontexts : w'.contexts = w.contexts)
    (hflights : w'.flights = w.flights)
    (hpointer : w'.fileStream = Function.update w.fileStream x none)
    (hinflight : w'.asyncInflight = Function.update w.asyncInflight x false) :
    Turned x w w' false := by
  refine .same hserver hanswers hstreams hcontexts hflights (fun b hb => ?_) fun y hy => ?_
  · rw [hpointer, Function.update_self] at hb
    cases hb
  · rw [hpointer, hinflight, Function.update_of_ne hy, Function.update_of_ne hy]
    exact ⟨rfl, rfl⟩

theorem turned_streamDetach (b : Nat) : Turned x w (w.streamDetach x b) false :=
  .detached rfl rfl rfl rfl rfl rfl rfl

/-- The owners after the allocation of a stream. -/
theorem ownerOf_streamMalloc {l : Life} :
    (w.streamMalloc x).ownerOf f = some l ↔ w.ownerOf f = some l ∨
      (f = .chunk w.streams.allocated.length ∧ l = w.server.lifeOf x) := by
  cases f with
  | chunk =>
    refine Ledger.getElem?_malloc.trans (or_congr_right (and_congr_left fun _ => ?_))
    exact ⟨congrArg Flight.chunk, Flight.chunk.inj⟩
  | file => exact ⟨.inl, fun h => h.resolve_right fun h => Flight.noConfusion h.1⟩

theorem turned_streamMalloc : Turned x w (w.streamMalloc x) false :=
  ⟨rfl, rfl, fun _ _ h => ownerOf_streamMalloc.mpr (.inl h),
    fun _ _ h => (ownerOf_streamMalloc.mp h).imp id (·.2), fun _ h => .inl h,
    fun _ _ => ⟨rfl, rfl⟩, rfl, fun _ h => h⟩

/-- A stream of the connection is attached to it, and its head is sent. -/
theorem turned_attach (hb : w.ownerOf (.chunk b) = some (w.server.lifeOf x)) :
    Turned x w ((w.attach x b).send x b) false := by
  refine ⟨rfl, rfl, fun _ _ h => h, fun _ _ h => .inl h, fun c hc => ?_, fun y hy => ?_, rfl,
    fun _ h => h⟩
  · have hc : Function.update w.fileStream x (some b) x = some c := hc
    rw [Function.update_self] at hc
    exact .inr (Option.some.inj hc ▸ hb)
  · exact ⟨Function.update_of_ne hy _ _, Function.update_of_ne hy _ _⟩

theorem turned_streamStart :
    Turned x w (((w.streamMalloc x).attach x w.streams.allocated.length).send x
      w.streams.allocated.length) false :=
  turned_streamMalloc.trans (turned_attach (ownerOf_streamMalloc.mpr (.inr ⟨rfl, rfl⟩)))

/-- The owners after the allocation of a file context. -/
theorem ownerOf_fileMalloc (hstreams : w'.streams = w.streams)
    (hcontexts : w'.contexts.allocated = (w.contexts.malloc (w.server.lifeOf x)).allocated)
    {l : Life} :
    w'.ownerOf f = some l ↔ w.ownerOf f = some l ∨
      (f = .file w.contexts.allocated.length ∧ l = w.server.lifeOf x) := by
  cases f with
  | chunk b =>
    show w'.streams.allocated[b]? = some l ↔ w.streams.allocated[b]? = some l ∨ _
    rw [hstreams]
    exact ⟨.inl, fun h => h.resolve_right fun h => Flight.noConfusion h.1⟩
  | file f =>
    show w'.contexts.allocated[f]? = some l ↔ w.contexts.allocated[f]? = some l ∨ _
    rw [hcontexts]
    refine Ledger.getElem?_malloc.trans (or_congr_right (and_congr_left fun _ => ?_))
    exact ⟨congrArg Flight.file, Flight.file.inj⟩

/-- A new context is pending until it is freed or its read is in flight. -/
theorem once_fileMalloc (h : w.Once pending) :
    (w.fileMalloc x).Once (w.contexts.allocated.length :: pending) := by
  intro f
  have hf := h f
  have hlen : (w.fileMalloc x).contexts.allocated.length = w.contexts.allocated.length + 1 := by
    simp [Transfers.fileMalloc, Ledger.malloc]
  have hsame : (w.fileMalloc x).contexts.freed = w.contexts.freed := rfl
  have hflights : (w.fileMalloc x).flights = w.flights := rfl
  rw [hlen, hsame, hflights, count_cons]
  simp only [beq_iff_eq]
  split at hf <;> split <;> split <;> omega

theorem once_fileFree {f : Nat} (h : w.Once (f :: pending)) : (w.fileFree f).Once pending := by
  intro g
  have hg := h g
  rw [count_cons] at hg
  have hfreed : (w.fileFree f).contexts.freed.count g =
      w.contexts.freed.count g + if f == g then 1 else 0 := by
    simp [Transfers.fileFree, Ledger.free, count_singleton]
  have hsame : (w.fileFree f).contexts.allocated = w.contexts.allocated := rfl
  have hflights : (w.fileFree f).flights = w.flights := rfl
  rw [hfreed, hsame, hflights]
  omega

/-- A file context is made. -/
theorem Turned.file (hserver : w'.server = w.server) (hanswers : w'.answers = w.answers)
    (hstreams : w'.streams = w.streams)
    (hcontexts : w'.contexts.allocated = (w.contexts.malloc (w.server.lifeOf x)).allocated)
    (hpointer : w'.fileStream = w.fileStream)
    (hinflight : ∀ y, y ≠ x → w'.asyncInflight y = w.asyncInflight y)
    (hflights : w'.flights = w.flights ++
      if submitted then [.file w.contexts.allocated.length] else [])
    (honce : ∀ pending, w.Once pending → w'.Once pending) : Turned x w w' submitted := by
  have howner := fun f l => ownerOf_fileMalloc (f := f) (l := l) hstreams hcontexts
  refine ⟨hserver, hanswers, fun f l h => (howner f l).mpr (.inl h),
    fun f l h => ((howner f l).mp h).imp id (·.2), fun b h => .inl (hpointer ▸ h),
    fun y hy => ⟨by rw [hpointer], hinflight y hy⟩, ?_, honce⟩
  cases submitted with
  | true => exact ⟨_, hflights, (howner _ _).mpr (.inr ⟨rfl, rfl⟩)⟩
  | false =>
    rw [hflights]
    exact append_nil _

theorem turned_fileRead :
    Turned x w ((w.fileMalloc x).fileFree w.contexts.allocated.length) false :=
  .file rfl rfl rfl rfl rfl (fun _ _ => rfl) (append_nil _).symm
    fun _ h => once_fileFree (once_fileMalloc h)

theorem turned_fileSubmit :
    Turned x w { (w.fileMalloc x).setInflight x true with
      flights := w.flights ++ [.file w.contexts.allocated.length] } true := by
  refine .file rfl rfl rfl rfl rfl (fun y hy => Function.update_of_ne hy _ _) rfl
    fun pending h f => ?_
  have hf := once_fileMalloc (x := x) h f
  have hone : [Flight.file w.contexts.allocated.length].count (.file f) =
      if w.contexts.allocated.length == f then 1 else 0 := by
    simp [count_singleton]
  have hfreed : (w.fileMalloc x).contexts.freed = w.contexts.freed := rfl
  have hflights : (w.fileMalloc x).flights = w.flights := rfl
  rw [count_cons, hfreed, hflights] at hf
  show w.contexts.freed.count f +
      (w.flights ++ [Flight.file w.contexts.allocated.length]).count (.file f) +
      pending.count f = if f < (w.fileMalloc x).contexts.allocated.length then 1 else 0
  rw [count_append, hone]
  omega

theorem turned_submit (hb : w.ownerOf (.chunk b) = some (w.server.lifeOf x)) :
    Turned x w { w.setReading b true with flights := w.flights ++ [.chunk b] } true := by
  refine ⟨rfl, rfl, fun _ _ h => h, fun _ _ h => .inl h, fun _ h => .inl h, fun _ _ => ⟨rfl, rfl⟩,
    ⟨_, rfl, hb⟩, fun pending h f => ?_⟩
  rw [count_append, show [Flight.chunk b].count (.file f) = 0 by simp]
  exact h f

/-- The loops: `loop` is the stream that `stream_advance` runs for, one of the connection's. -/
theorem turned_httpTurns (turns : List HttpTurn) :
    ∀ (loop : Option Nat) (w : Transfers),
      (∀ b, loop = some b → w.ownerOf (.chunk b) = some (w.server.lifeOf x)) →
      w.httpTurns x loop turns = some (w', submitted) → Turned x w w' submitted := by
  induction turns with
  | nil =>
    intro loop w _ h
    cases loop with
    | none =>
      cases h
      exact .refl
    | some =>
      cases h
      exact .keep rfl rfl rfl rfl rfl rfl rfl
  | cons turn rest ih =>
    intro loop w hloop h
    cases loop with
    | none =>
      have hserve : ∀ {w1}, Turned x w w1 false →
          w1.httpTurns x none rest = some (w', submitted) → Turned x w w' submitted :=
        fun h1 h => h1.trans (ih none _ (by simp) h)
      cases turn with
      | stop =>
        cases h
        exact .refl
      | answer => exact hserve .refl h
      | fileRead on =>
        cases on with
        | true => exact hserve turned_fileRead h
        | false =>
          cases h
          exact turned_fileRead
      | fileSubmit =>
        cases h
        exact turned_fileSubmit
      | streamCut =>
        cases h
        exact turned_streamMalloc.trans (.keep rfl rfl rfl rfl rfl rfl rfl)
      | streamUnsent =>
        cases h
        exact turned_streamStart.trans (turned_streamDetach _)
      | streamStart =>
        refine turned_streamStart.trans (ih _ _ (fun b hb => ?_) h)
        cases hb
        exact ownerOf_streamMalloc.mpr (.inr ⟨rfl, rfl⟩)
      | _ => simp [Transfers.httpTurns] at h
    | some b =>
      have hb := hloop b rfl
      have htouch : Turned x w (w.touch b) false := .keep rfl rfl rfl rfl rfl rfl rfl
      have hsend : ∀ w1 : Transfers, Turned x w1 (w1.send x b) false :=
        fun _ => .keep rfl rfl rfl rfl rfl rfl rfl
      simp only [Transfers.httpTurns] at h
      split at h
      · cases h
        exact htouch
      · refine htouch.trans ?_
        cases turn with
        | blocked =>
          cases h
          exact .refl
        | submit =>
          cases h
          exact turned_submit hb
        | chunk =>
          refine (hsend _).trans (ih _ _ (fun c hc => ?_) h)
          cases hc
          exact hb
        | lost sent =>
          cases h
          cases sent with
          | true => exact (hsend _).trans (turned_streamDetach b)
          | false => exact turned_streamDetach b
        | finish keepAlive =>
          cases keepAlive with
          | true => exact (turned_streamDetach b).trans (ih none _ (by simp) h)
          | false =>
            cases h
            exact turned_streamDetach b
        | _ => cases h

theorem turned_handle {writing : Bool} {state : WsState}
    (hptr : ∀ b, w.fileStream x = some b → w.ownerOf (.chunk b) = some (w.server.lifeOf x))
    (h : w.handle x writing state turns = some (w', submitted)) : Turned x w w' submitted := by
  rcases (handle_cases h).2 with ⟨rfl, rfl⟩ | ⟨loop, hloop, h⟩
  · exact .refl
  · refine turned_httpTurns turns loop w (fun b hb => ?_) h
    rcases handlerLoop_cases hloop with ⟨c, hc, hptr'⟩ | ⟨hnone, _⟩
    · rw [← Option.some.inj (hc.symm.trans hb)]
      exact hptr c hptr'
    · simp [hnone] at hb

theorem turned_chunkComplete (hb : w.ownerOf (.chunk b) = some (w.server.lifeOf x))
    (h : w.chunkComplete x b turns = some (w', submitted)) : Turned x w w' submitted := by
  have hsend : Turned x w (w.send x b) false := .keep rfl rfl rfl rfl rfl rfl rfl
  unfold Transfers.chunkComplete at h
  split at h
  · rename_i sent rest
    cases h
    cases sent with
    | true => exact hsend.trans (turned_streamDetach b)
    | false => exact turned_streamDetach b
  · rename_i keepAlive rest
    refine hsend.trans ((turned_streamDetach b).trans ?_)
    cases keepAlive with
    | true => exact turned_httpTurns rest none _ (by simp) h
    | false =>
      cases h
      exact .refl
  · rename_i rest
    refine hsend.trans (turned_httpTurns rest _ _ (fun c hc => ?_) h)
    cases hc
    exact hb
  · cases h

theorem turned_cleanup : Turned x w (w.cleanup x) false := by
  unfold Transfers.cleanup
  split
  · exact .detached rfl rfl rfl rfl rfl rfl rfl
  · dsimp only
    split
    · exact .detached rfl rfl rfl rfl rfl rfl rfl
    · exact .detached rfl rfl rfl rfl rfl rfl rfl

end Turns

/-! ## Reads in flight -/

/-- A read in flight and its entry: the slot and the generation of its life. -/
def Transfers.Carries (w : Transfers) (f : Flight) (e : Slot × Nat) : Prop :=
  ∃ l, w.ownerOf f = some l ∧ e = (l.1, l.2 % 2 ^ 32)

/-- The reads in flight stand in `aio` one by one, no life is ahead of its slot, and a stream is
    attached only to the connection it was started on. -/
structure FlightInv (w : Transfers) (aio : List (Slot × Nat)) : Prop where
  generation : ∀ x, (w.server.conns x).generation = (w.server.conns x).life % 2 ^ 32
  carries : List.Forall₂ w.Carries w.flights aio
  past : ∀ f l, w.ownerOf f = some l → l.2 ≤ (w.server.conns l.1).life
  pointer : ∀ x b, w.fileStream x = some b → w.ownerOf (.chunk b) = some (w.server.lifeOf x)

section Flights

variable {cfg : Config} {aio : List (Slot × Nat)} {s' : Server} {op : EventOp}

section

variable (h : FlightInv w aio)

include h

theorem FlightInv.at {e : Slot × Nat} (hf : w.flights[k]? = some f) (he : aio[k]? = some e) :
    w.Carries f e := by
  obtain ⟨hk, rfl⟩ := List.getElem?_eq_some_iff.mp hf
  obtain ⟨hk', rfl⟩ := List.getElem?_eq_some_iff.mp he
  exact h.carries.get hk hk'

theorem FlightInv.turned (ht : Turned x w w' submitted) :
    FlightInv w'
      (if submitted then aio ++ [(x, (w.server.conns x).generation)] else aio) := by
  have hold : List.Forall₂ w'.Carries w.flights aio :=
    h.carries.imp fun f e ⟨l, hl, he⟩ => ⟨l, ht.keeps f l hl, he⟩
  refine ⟨by rw [ht.server]; exact h.generation, ?_, fun f l hf => ?_, fun y b hb => ?_⟩
  · have hflights := ht.flights
    cases submitted with
    | true =>
      obtain ⟨f, hflights, hf⟩ := hflights
      rw [hflights]
      refine rel_append hold (.cons ⟨_, hf, ?_⟩ .nil)
      rw [h.generation]
      rfl
    | false =>
      rw [hflights]
      exact hold
  · rw [ht.server]
    rcases ht.adds f l hf with hf | rfl
    · exact h.past f l hf
    · exact Nat.le_refl _
  · rw [ht.server]
    by_cases hy : y = x
    · subst hy
      rcases ht.pointer b hb with hb | hb
      · exact ht.keeps _ _ (h.pointer y b hb)
      · exact hb
    · rw [(ht.other y hy).1] at hb
      exact ht.keeps _ _ (h.pointer y b hb)

theorem FlightInv.landed (k : Nat) : FlightInv (w.landed k) (aio.eraseIdx k) := by
  refine ⟨h.generation, ?_, h.past, h.pointer⟩
  show List.Forall₂ w.Carries (w.flights.eraseIdx k) (aio.eraseIdx k)
  rw [eraseIdx_eq_take_drop_succ, eraseIdx_eq_take_drop_succ]
  exact rel_append (forall₂_take k h.carries) (forall₂_drop (k + 1) h.carries)

/-- The server's part of a step: a slot that begins another life has no stream attached. -/
theorem FlightInv.serve (hlife : ∀ x, ((s'.conns x).life = (w.server.conns x).life ∧
        (s'.conns x).generation = (w.server.conns x).generation) ∨
      (w.fileStream x = none ∧ (s'.conns x).life = (w.server.conns x).life + 1 ∧
        (s'.conns x).generation = ((w.server.conns x).generation + 1) % 2 ^ 32)) :
    FlightInv { w with server := s' } aio := by
  refine ⟨fun x => ?_, h.carries, fun f l hf => ?_, fun x b hb => ?_⟩
  · have hx := h.generation x
    rcases hlife x with ⟨hl, hg⟩ | ⟨_, hl, hg⟩
    · rw [hl, hg, hx]
    · rw [hl, hg, hx]
      omega
  · have hle := h.past f l hf
    show l.2 ≤ (s'.conns l.1).life
    rcases hlife l.1 with ⟨hl, _⟩ | ⟨_, hl, _⟩ <;> omega
  · rcases hlife x with ⟨hl, _⟩ | ⟨hnone, _⟩
    · rw [lifeOf_eq hl]
      exact h.pointer x b hb
    · simp [hnone] at hb

/-- The life that a completed read was for, as far as its entry tells it. -/
theorem FlightInv.lifeOf_eq_of_requested (hf : w.flights[k]? = some f)
    (he : aio[k]? = some (x, generation)) (hreq : w.requested x generation = true)
    (hreuse : ∀ l, w.ownerOf f = some l → (w.server.conns l.1).life < l.2 + 2 ^ 32) :
    w.ownerOf f = some (w.server.lifeOf x) := by
  obtain ⟨l, hl, hle⟩ := h.at hf he
  obtain ⟨rfl, rfl⟩ := Prod.mk.inj hle
  have hgen := (of_decide_eq_true hreq).1
  have hpast := h.past f l hl
  have hlt := hreuse l hl
  rw [h.generation] at hgen
  have hlife : (w.server.conns l.1).life = l.2 := by omega
  rw [hl]
  exact congrArg some (Prod.ext rfl hlife.symm)

end

theorem turned_chunkRead : Turned x (w.landed k) ((w.landed k).setReading b false) false :=
  .keep rfl rfl rfl rfl rfl rfl rfl

theorem turned_chunkDropped :
    Turned x (w.landed k) (((w.landed k).setReading b false).streamFree b) false :=
  .keep rfl rfl rfl rfl rfl rfl rfl

theorem FlightInv.complete (h : FlightInv w aio)
    (hw : Completed w k x generation turns w1 submitted) :
    w1.server = w.server ∧ FlightInv w1
      (if submitted then aio.eraseIdx k ++ [(x, generation)] else aio.eraseIdx k) := by
  have hland := h.landed k
  cases hw with
  | stream b hb hreq hptr hw =>
    have hgen := (of_decide_eq_true hreq).1
    have ht := turned_chunkRead.trans (turned_chunkComplete (h.pointer x b hptr) hw)
    have hflight := hland.turned ht
    refine ⟨ht.server, ?_⟩
    rwa [show ((w.landed k).server.conns x).generation = generation from hgen] at hflight
  | streamDropped b hb hgone hw hsub =>
    rw [hw, hsub]
    exact ⟨rfl, hland.turned (turned_chunkDropped (x := x))⟩
  | file f hf hreq w2 hw hfree =>
    have hgen := (of_decide_eq_true hreq).1
    have hanswer : FlightInv ((w.landed k).fileAnswer x f) (aio.eraseIdx k) :=
      ⟨hland.generation, hland.carries, hland.past, hland.pointer⟩
    have ht := turned_httpTurns turns none _ (by simp) hw
    have hflight := hanswer.turned ht
    rw [show (((w.landed k).fileAnswer x f).server.conns x).generation = generation from hgen]
      at hflight
    rw [hfree]
    exact ⟨ht.server, hflight.generation, hflight.carries, hflight.past, hflight.pointer⟩
  | fileDropped f hf hgone hw hsub =>
    rw [hw, hsub]
    exact ⟨rfl, hland.generation, hland.carries, hland.past, hland.pointer⟩

theorem FlightInv.step (h : FlightInv w w.server.aio) (hstep : eventStep cfg w op = some w') :
    FlightInv w' w'.server.aio := by
  obtain ⟨w1, s', hs, rfl, heffect⟩ := eventStep_effect hstep
  have hlife := step_life hs
  -- outside of `process_new_connection` every slot goes on in its life
  have hgo : ∀ {aio : List (Slot × Nat)}, FlightInv w1 aio → w1.server = w.server →
      (∀ x, slotEvent w.server op.label = some (.start x) → w1.fileStream x = none) →
      FlightInv { w1 with server := s' } aio := by
    intro aio h1 hserver hstart
    refine h1.serve fun x => ?_
    rw [hserver]
    exact (hlife x).imp id fun hnew => ⟨hstart x hnew.1, hnew.2⟩
  cases heffect with
  | quiet hevent haio =>
    rw [haio]
    exact hgo h rfl fun x hx => absurd hevent (by simp [hx, SlotEvent.sets])
  | complete k submitted close x generation w1 hlabel hk hw haio =>
    obtain ⟨hserver, h1⟩ := h.complete hw
    rw [haio]
    exact hgo h1 hserver fun y hy => absurd hy (by simp [hlabel, slotEvent])
  | handle x writing state fail submitted w1 hevent hw haio =>
    have ht := turned_handle (h.pointer x) hw
    rw [haio]
    exact hgo (h.turned ht) ht.server fun y hy => absurd (hevent.symm.trans hy) (by simp)
  | start x hevent haio =>
    rw [haio]
    have ht : Turned x w (w.detach x) false :=
      .detached rfl rfl rfl rfl rfl rfl rfl
    refine hgo (h.turned ht) rfl fun y hy => ?_
    obtain rfl : x = y := SlotEvent.start.inj (Option.some.inj (hevent.symm.trans hy))
    exact Function.update_self _ _ _
  | wipe x hevent haio =>
    rw [haio]
    exact hgo (h.turned turned_cleanup) turned_cleanup.server
      fun y hy => absurd (hevent.symm.trans hy) (by simp)

/-! ## Contexts and answers -/

theorem count_eraseIdx_add {l : List Flight} {g : Flight} (hk : l[k]? = some g) (f : Flight) :
    (l.eraseIdx k).count f + (if g == f then 1 else 0) = l.count f := by
  obtain ⟨hlt, rfl⟩ := List.getElem?_eq_some_iff.mp hk
  rw [← count_cons]
  exact (getElem_cons_eraseIdx_perm hlt).count_eq f

/-- The context of a file read whose completion runs is pending. -/
theorem once_landed_file {f : Nat} (hf : w.flights[k]? = some (.file f)) (h : w.Once []) :
    (w.landed k).Once [f] := by
  intro g
  have hg := h g
  have hcount := count_eraseIdx_add hf (.file g)
  have hone : [f].count g = if Flight.file f == Flight.file g then 1 else 0 := by
    simp [count_singleton]
  show w.contexts.freed.count g + (w.flights.eraseIdx k).count (.file g) + [f].count g =
    if g < w.contexts.allocated.length then 1 else 0
  rw [count_nil] at hg
  omega

theorem once_landed_chunk (hb : w.flights[k]? = some (.chunk b)) (h : w.Once []) :
    (w.landed k).Once [] := by
  intro g
  have hg := h g
  have hcount := count_eraseIdx_add hb (.file g)
  have hzero : (if Flight.chunk b == Flight.file g then 1 else 0) = 0 := by simp
  show w.contexts.freed.count g + (w.flights.eraseIdx k).count (.file g) + [].count g =
    if g < w.contexts.allocated.length then 1 else 0
  omega

theorem once_complete
    (hptr : ∀ b, w.fileStream x = some b → w.ownerOf (.chunk b) = some (w.server.lifeOf x))
    (hw : Completed w k x generation turns w1 submitted) (h : w.Once []) : w1.Once [] := by
  cases hw with
  | stream b hb hreq hb' hw =>
    have ht := turned_chunkRead.trans (turned_chunkComplete (hptr b hb') hw)
    exact ht.once _ (once_landed_chunk hb h)
  | streamDropped b hb hgone hw =>
    rw [hw]
    exact (turned_chunkDropped (x := x)).once _ (once_landed_chunk hb h)
  | file f hf hreq w2 hw hfree =>
    rw [hfree]
    exact once_fileFree ((turned_httpTurns turns none _ (by simp) hw).once _
      (once_landed_file hf h))
  | fileDropped f hf hgone hw =>
    rw [hw]
    exact once_fileFree (once_landed_file hf h)

theorem once_step (hflight : FlightInv w w.server.aio) (h : w.Once [])
    (hstep : eventStep cfg w op = some w') : w'.Once [] := by
  obtain ⟨w1, s', hs, rfl, heffect⟩ := eventStep_effect hstep
  show w1.Once []
  cases heffect with
  | quiet => exact h
  | complete k submitted close x generation w1 hlabel hk hw =>
    exact once_complete (hflight.pointer x) hw h
  | handle x writing state fail submitted w1 hevent hw =>
    exact (turned_handle (hflight.pointer x) hw).once _ h
  | start => exact h
  | wipe x => exact (turned_cleanup (x := x)).once _ h

/-- The responses of `file_read_complete` are those of the completions that pass its check. -/
theorem answers_step {P : FileAnswer → Prop} (hflight : FlightInv w w.server.aio)
    (hnew : ∀ k submit close x generation f, op.label = .completion k submit close →
      w.server.aio[k]? = some (x, generation) → w.flights[k]? = some (.file f) →
      w.requested x generation = true → P (w.answerTo x f))
    (hstep : eventStep cfg w op = some w') (h : ∀ a ∈ w.answers, P a) :
    ∀ a ∈ w'.answers, P a := by
  obtain ⟨w1, s', hs, rfl, heffect⟩ := eventStep_effect hstep
  cases heffect with
  | quiet => exact h
  | complete k submitted close x generation w1 hlabel hk hw =>
    cases hw with
    | stream b hb hreq hptr hw =>
      have ht := turned_chunkRead.trans (turned_chunkComplete (hflight.pointer x b hptr) hw)
      rw [ht.answers]
      exact h
    | streamDropped _ _ _ hw | fileDropped _ _ _ hw =>
      rw [hw]
      exact h
    | file f hf hreq w2 hw hfree =>
      have hanswers : w1.answers = w.answers ++ [w.answerTo x f] := by
        rw [hfree]
        exact (turned_httpTurns op.turns none _ (by simp) hw).answers
      intro a ha
      rw [hanswers] at ha
      rcases mem_append.mp ha with ha | ha
      · exact h a ha
      · rw [mem_singleton.mp ha]
        exact hnew k submitted close x generation f hlabel hk hf hreq
  | handle x writing state fail submitted w1 hevent hw =>
    rw [(turned_handle (hflight.pointer x) hw).answers]
    exact h
  | start => exact h
  | wipe x =>
    rw [(turned_cleanup (x := x)).answers]
    exact h

theorem eventStep_server (hstep : eventStep cfg w op = some w') :
    w.server.step cfg op.label = some w'.server := by
  obtain ⟨w1, s', hs, rfl, _⟩ := eventStep_effect hstep
  exact hs

end Flights

theorem FlightInv.init (cfg : Config) : FlightInv (.init cfg) [] := by
  refine ⟨fun _ => rfl, .nil, fun f l hl => ?_, fun x b hb => ?_⟩
  · cases f <;> exact absurd hl (by simp [Transfers.ownerOf, Transfers.init, Ledger.empty])
  · simp [Transfers.init] at hb

/-- A file read whose completion runs: its slot has begun fewer than 2^32 lives since. -/
def reusesBelow (w : Transfers) (op : EventOp) : Bool :=
  match op.label with
  | .completion k _ _ =>
    match w.flights[k]? with
    | some (.file f) =>
      match w.contexts.allocated[f]? with
      | some l => (w.server.conns l.1).life < l.2 + 2 ^ 32
      | none => true
    | _ => true
  | _ => true

theorem reusesBelow_file {w : Transfers} {op : EventOp} {f : Nat} {submit close : Bool}
    (hlabel : op.label = .completion k submit close) (hf : w.flights[k]? = some (.file f))
    (h : reusesBelow w op = true) (l : Life) (hl : w.ownerOf (.file f) = some l) :
    (w.server.conns l.1).life < l.2 + 2 ^ 32 := by
  have hl : w.contexts.allocated[f]? = some l := hl
  simp only [reusesBelow, hlabel, hf, hl] at h
  exact of_decide_eq_true h

/-- In every run in which all completions run on the event thread and slots begin fewer than 2^32
    lives during a file read: each response of `file_read_complete` is queued on the connection,
    slot and life, that asked for the file, in state HTTP, and each file context is in flight or
    has been freed, once. If the thread has at most 2^16 slots and no registration with epoll
    fails, the slot is not on the free stack. -/
theorem file_answer_reaches_asker (cfg : Config) (ops : List TransferOp) (w : Transfers)
    (hreuse : RunMeets (transferStep cfg) (onEventThread reusesBelow · ·) (.init cfg) ops)
    (hrun : run (transferStep cfg) (.init cfg) ops = some w) :
    (∀ a ∈ w.answers, a.asked = some a.got ∧ a.state = .http) ∧
      (∀ f, f < w.contexts.allocated.length →
        w.contexts.freed.count f + w.flights.count (.file f) = 1) ∧
      (cfg.maxConnections ≤ 2 ^ 16 →
        RunMeets (transferStep cfg)
          (onEventThread (fun w op => registrationWorks w.server op.label) · ·) (.init cfg) ops →
        ∀ a ∈ w.answers, a.slotFree = false) := by
  obtain ⟨hflight, honce, hanswers⟩ : FlightInv w w.server.aio ∧ w.Once [] ∧
      ∀ a ∈ w.answers, a.asked = some a.got ∧ a.state = .http := by
    refine run_invariant (I := fun w => FlightInv w w.server.aio ∧ w.Once [] ∧
      ∀ a ∈ w.answers, a.asked = some a.got ∧ a.state = .http) (fun w op w' h hok hstep => ?_)
      ops _ w ⟨.init cfg, fun _ => rfl, by simp [Transfers.init]⟩ hreuse hrun
    obtain ⟨op, hok, hstep⟩ := transferStep_onEventThread hok hstep
    refine ⟨h.1.step hstep, once_step h.1 h.2.1 hstep, ?_⟩
    refine answers_step h.1 (fun k submit close x generation f hlabel hk hf hreq => ?_) hstep h.2.2
    exact ⟨h.1.lifeOf_eq_of_requested hf hk hreq (reusesBelow_file hlabel hf hok),
      (of_decide_eq_true hreq).2.1⟩
  refine ⟨hanswers, fun f hf => ?_, fun hcap hreg => ?_⟩
  · have h := honce f
    rwa [if_pos hf, count_nil, Nat.add_zero] at h
  · -- the slot of a connection in state HTTP is not free
    have h := run_invariant (I := fun w => FlightInv w w.server.aio ∧ SlotInv cfg w.server ∧
      (∀ x ∈ w.server.free, (w.server.conns x).state ≠ .http) ∧
      ∀ a ∈ w.answers, a.slotFree = false) (fun w op w' h hok hstep => ?_)
      ops _ w ⟨.init cfg, .init cfg, fun _ _ => by simp [Transfers.init, Server.init, Conn.unused],
        by simp [Transfers.init]⟩ hreg hrun
    · exact h.2.2.2
    · obtain ⟨hflight, hslot, hfree, hanswers⟩ := h
      obtain ⟨op, hok, hstep⟩ := transferStep_onEventThread hok hstep
      have hs := eventStep_server hstep
      refine ⟨hflight.step hstep, hslot.move hcap hok (step_move hs),
        free_not_http hslot hok hs hfree, ?_⟩
      refine answers_step hflight (fun k submit close x generation f _ _ _ hreq => ?_) hstep
        hanswers
      exact decide_eq_false fun hx => hfree x hx (of_decide_eq_true hreq).2.1

/-- A step in which no file is served. -/
def EventOp.plain (label : Label) : EventOp := ⟨label, []⟩

/-- A client connects under descriptor 3 and asks for a file, which is being read. -/
def fileAsked : List EventOp :=
  ([.accept 3, .handOver, .wait [.wakeup], .next, .message none true, .cont true, .cont true, .next,
    .next, .wait [.conn ⟨3, 0, true, false, false⟩], .next] : List Label).map .plain ++
  [⟨.io .http true false, [.fileSubmit]⟩] ++
  ([.io .http false false, .io .http false false, .next] : List Label).map .plain

/-- The file is answered and another one asked for; the connection is reaped, a client connects
    in the same slot, and the second read completes. -/
theorem file_answer_reaches_asker_reused :
    let ops := fileAsked ++ ([.wait [.aio], .next] : List Label).map .plain ++
      [⟨.completion 0 true false, [.fileSubmit]⟩] ++
      ([.next, .next, .reap 0, .cont true, .cont true, .cont true, .accept 3, .handOver,
        .wait [.wakeup, .aio], .next, .message none true, .cont true, .cont true, .next, .next,
        .completion 0 false false] : List Label).map .plain
    (run (transferStep ⟨1, 8⟩) (.init ⟨1, 8⟩) (ops.map .event)).map (fun w =>
        (w.answers, w.contexts.freed, w.flights, w.server.lifeOf 0)) =
        some ([⟨some (0, 1), (0, 1), .http, false⟩], [0, 1], [], (0, 2)) ∧
      ∀ w, run (transferStep ⟨1, 8⟩) (.init ⟨1, 8⟩) (ops.map .event) = some w →
        (∀ a ∈ w.answers, a.asked = some a.got ∧ a.state = .http) ∧
          (∀ f, f < w.contexts.allocated.length →
            w.contexts.freed.count f + w.flights.count (.file f) = 1) ∧
          ∀ a ∈ w.answers, a.slotFree = false := by
  refine ⟨by decide +kernel, fun w hrun => ?_⟩
  obtain ⟨hanswers, honce, hfree⟩ :=
    file_answer_reaches_asker ⟨1, 8⟩ _ w (by decide +kernel) hrun
  exact ⟨hanswers, honce, hfree (by decide) (by decide +kernel)⟩

/-- A file is being read for the connection in slot 0. The registration of a second one, in slot 1,
    fails: its connection is wiped, `pool_index` included, and stays in the map and the hash. A
    caller of `ws_close_connection` finds it there; its close message drops the only reference and
    pushes slot 0 onto the free stack. The read completes, and the response is queued. -/
theorem file_answer_on_free_slot :
    let ops := fileAsked ++
      ([.accept 4, .handOver, .wait [.wakeup], .next, .message none true, .cont true, .cont false,
        .find (.control .close) 4, .send 0 true, .send 0 true, .message none true, .cont true,
        .cont true, .cont true, .next, .next, .wait [.aio], .next] : List Label).map .plain ++
      [⟨.completion 0 false false, [.stop]⟩]
    (run (transferStep ⟨2, 8⟩) (.init ⟨2, 8⟩) (ops.map .event)).map (fun w =>
      (w.answers, w.server.fdMap 3, w.server.free)) =
        some ([⟨some (0, 1), (0, 1), .http, true⟩], some 0, [0]) := by
  decide +kernel

end Portico.Loop
