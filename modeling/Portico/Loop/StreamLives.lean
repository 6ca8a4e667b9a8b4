/-
  Streamed files (`stream_start`, `stream_advance`, `stream_chunk_complete`,
  `portico_http_stream_abort` of src/http/connection.c) over teardown and reuse of the slots: who
  owns the context of a stream.

  `StreamInv`: a context in flight is not freed and in flight once, a context attached to a
  connection that is not marked closed can be used, and a context is freed, in flight, or attached
  to the connection it was started on; `StreamInvBut` leaves one out, so that an operation is done
  in steps. A connection that is marked closed while an API call holds it keeps its pointer, and the
  completion of a read in flight frees what it points to; nobody follows the pointer afterwards,
  because the slot is neither registered nor torn down again. `HttpInv` says which slots can have a
  response in progress.

  Proved: `streams_owned_once`, for threads of at most 2^16 slots whose new connections get
  registered, with every completion on the event thread, and slots that begin fewer than 2^32
  lives during a file read. Without the first two conditions a slot can be pushed onto the free
  stack while its connection streams (`stream_left_on_free_slot`).
-/
import Portico.Loop.FileReads

namespace Portico.Loop

open Portico.Lib Portico.Ws List
open Function (update update_eq_self update_of_ne update_self)

/-- `loose` is a stream that only the running function knows: it has been made and not attached, or
    detached and not freed. -/
structure StreamInvBut (loose : Option Nat) (w : Transfers) : Prop where
  heap : w.streams.Ok
  faults : w.faults = []
  wrote : ∀ p ∈ w.wrote, w.streams.allocated[p.1]? = some p.2
  nodup : w.flights.Nodup
  flying : ∀ b, .chunk b ∈ w.flights → b ∉ w.streams.freed ∧ w.reading b = true
  owned : ∀ x b, (w.server.conns x).state ≠ .closed → w.fileStream x = some b →
    b ∉ w.streams.freed ∧ (w.reading b = true → .chunk b ∈ w.flights)
  parked : ∀ x b, w.fileStream x = some b → w.asyncInflight x = true
  kept : ∀ b l, w.streams.allocated[b]? = some l → b ∈ w.streams.freed ∨
    .chunk b ∈ w.flights ∨ (w.fileStream l.1 = some b ∧ w.server.lifeOf l.1 = l) ∨ loose = some b
  -- a read of a whole file holds the requests of its connection back, or the connection is gone
  reads : ∀ f l, .file f ∈ w.flights → w.ownerOf (.file f) = some l → w.server.lifeOf l.1 = l →
    (w.asyncInflight l.1 = true ∧ w.fileStream l.1 = none) ∨
      ((w.server.conns l.1).state ≠ .http ∧ ∀ fd, w.server.fdMap fd ≠ some l.1)
  single : ∀ f g l, .file f ∈ w.flights → .file g ∈ w.flights →
    w.ownerOf (.file f) = some l → w.ownerOf (.file g) = some l → f = g

abbrev StreamInv (w : Transfers) : Prop := StreamInvBut none w

/-- No read of a whole file is in flight for the connection in a slot. -/
def Transfers.NoFile (w : Transfers) (x : Slot) : Prop :=
  ∀ f, .file f ∈ w.flights → w.ownerOf (.file f) ≠ some (w.server.lifeOf x)

variable {y x : Slot} {c f k b : Nat} {turns : List HttpTurn} {writing submitted : Bool}
  {state : WsState} {fd : Fd} {w w1 w' : Transfers} {aio : List (Slot × Nat)} {loose : Option Nat}

theorem touch_live (hb : b ∉ w.streams.freed) : w.touch b = w := by
  unfold Transfers.touch
  rw [if_neg hb]

theorem FlightInv.owner_of_mem (h : FlightInv w aio) {f : Flight} (hf : f ∈ w.flights) :
    ∃ l, w.ownerOf f = some l := by
  obtain ⟨k, hk⟩ := getElem?_of_mem hf
  have hlt : k < aio.length := by
    rw [← h.carries.length_eq]
    exact (List.getElem?_eq_some_iff.mp hk).1
  obtain ⟨l, hl, _⟩ := h.at hk (getElem?_eq_getElem hlt)
  exact ⟨l, hl⟩

/-- What is attached after a connection lost its stream is attached to another one. -/
theorem attached_of_detach (h : (w.detach x).fileStream y = some b) :
    y ≠ x ∧ w.fileStream y = some b :=
  of_update (by simp) h

/-- Where one entry of a table of flags is cleared, the others keep theirs. -/
theorem update_false_iff {flags : Nat → Bool} :
    update flags b false c = true ↔ flags c = true ∧ c ≠ b := by
  by_cases hcb : c = b
  · simp [hcb]
  · rw [update_of_ne hcb]
    exact (and_iff_left hcb).symm

theorem StreamInv.parked_detach (h : StreamInv w) (hc : (w.detach x).fileStream y = some c) :
    (w.detach x).asyncInflight y = true := by
  obtain ⟨hy, hc⟩ := attached_of_detach hc
  exact update_false_iff.mpr ⟨h.parked y c hc, hy⟩

/-- A file that is read for another connection goes on holding it. -/
theorem busy_detach (hy : y ≠ x) (hbusy : w.asyncInflight y = true ∧ w.fileStream y = none) :
    (w.detach x).asyncInflight y = true ∧ (w.detach x).fileStream y = none :=
  ⟨update_false_iff.mpr ⟨hbusy.1, hy⟩, (update_of_ne hy _ _).trans hbusy.2⟩

theorem nodup_snoc {l : List Flight} {f : Flight} (h : l.Nodup) (hf : f ∉ l) :
    (l ++ [f]).Nodup := by
  rw [← concat_eq_append]
  exact h.concat hf

/-- A stream is attached to one connection only. -/
theorem FlightInv.pointer_inj (h : FlightInv w aio) (hx : w.fileStream x = some b)
    (hy : w.fileStream y = some b) : y = x :=
  congrArg Prod.fst (Option.some.inj ((h.pointer y b hy).symm.trans (h.pointer x b hx)))

/-- A connection that streams has no read of a whole file in flight. -/
theorem StreamInv.noFile (h : StreamInv w)
    (hx : (w.server.conns x).state = .http ∨ ∃ fd, w.server.fdMap fd = some x)
    (hbusy : w.asyncInflight x = true → w.fileStream x ≠ none) : w.NoFile x := by
  intro f hf hl
  rcases h.reads f _ hf hl rfl with ⟨hin, hnone⟩ | ⟨hstate, hmap⟩
  · exact hbusy hin hnone
  · rcases hx with hx | ⟨fd, hx⟩
    · exact hstate hx
    · exact hmap fd hx

theorem StreamInv.send (h : StreamInv w) (hb : w.streams.Live b (w.server.lifeOf x)) :
    StreamInv (w.send x b) := by
  unfold Transfers.send
  rw [touch_live hb.not_freed]
  refine ⟨h.heap, h.faults, fun p hp => ?_, h.nodup, h.flying, h.owned, h.parked, h.kept, h.reads,
    h.single⟩
  rcases mem_append.mp hp with hp | hp
  · exact h.wrote p hp
  · rw [mem_singleton.mp hp]
    exact hb.owner

/-- A connection loses its stream. -/
theorem StreamInv.detach (h : StreamInv w)
    (hdone : w.fileStream x ≠ none ∨
      ((w.server.conns x).state ≠ .http ∧ ∀ fd, w.server.fdMap fd ≠ some x)) :
    StreamInvBut (w.fileStream x) (w.detach x) := by
  refine ⟨h.heap, h.faults, h.wrote, h.nodup, h.flying,
    fun y c hy hc => h.owned y c hy (attached_of_detach hc).2, fun y c => h.parked_detach,
    fun c l hl => ?_, fun f l hf hl hlife => ?_, h.single⟩
  · refine (h.kept c l hl).imp id (Or.imp id ?_)
    rintro (⟨hc, hlife⟩ | hc)
    · by_cases hlx : l.1 = x
      · exact .inr (hlx ▸ hc)
      · exact .inl ⟨(update_of_ne hlx _ _).trans hc, hlife⟩
    · cases hc
  · by_cases hlx : l.1 = x
    · refine .inr (hdone.elim (fun hptr => ?_) fun hgone => hlx ▸ hgone)
      exact (h.reads f l hf hl hlife).resolve_left fun hbusy => hptr (hlx ▸ hbusy.2)
    · exact (h.reads f l hf hl hlife).imp (busy_detach hlx) id

/-- The loose stream is in flight or attached after all. -/
theorem StreamInvBut.settled (h : StreamInvBut loose w)
    (hloose : ∀ b l, loose = some b → w.streams.allocated[b]? = some l → .chunk b ∈ w.flights ∨
      (w.fileStream l.1 = some b ∧ w.server.lifeOf l.1 = l)) : StreamInv w := by
  refine ⟨h.heap, h.faults, h.wrote, h.nodup, h.flying, h.owned, h.parked, fun b l hl => ?_,
    h.reads, h.single⟩
  rcases h.kept b l hl with hb | hb | hb | hb
  · exact .inl hb
  · exact .inr (.inl hb)
  · exact .inr (.inr (.inl hb))
  · exact .inr ((hloose b l hb hl).imp id .inl)

/-- A stream that no connection can use and no read needs is freed. -/
theorem StreamInvBut.free (h : StreamInvBut (some b) w) {l : Life} (hb : w.streams.Live b l)
    (hidle : .chunk b ∉ w.flights)
    (hgone : ∀ y, (w.server.conns y).state ≠ .closed → w.fileStream y ≠ some b) :
    StreamInv (w.streamFree b) := by
  unfold Transfers.streamFree
  rw [touch_live hb.not_freed]
  refine ⟨h.heap.free hb, h.faults, h.wrote, h.nodup, fun c hc => ?_, fun y c hy hc => ?_,
    h.parked, fun c l hl => ?_, h.reads, h.single⟩
  · obtain ⟨hnot, hr⟩ := h.flying c hc
    exact ⟨fun hmem => (Ledger.mem_free.mp hmem).elim hnot fun he => hidle (he ▸ hc), hr⟩
  · obtain ⟨hnot, hr⟩ := h.owned y c hy hc
    exact ⟨fun hmem => (Ledger.mem_free.mp hmem).elim hnot fun he => hgone y hy (he ▸ hc), hr⟩
  · rcases h.kept c l hl with hc | hc | hc | hc
    · exact .inl (Ledger.mem_free.mpr (.inl hc))
    · exact .inr (.inl hc)
    · exact .inr (.inr (.inl hc))
    · exact .inl (Ledger.mem_free.mpr (.inr (Option.some.inj hc).symm))

/-- A stream without a read in flight is detached and freed. -/
theorem StreamInv.streamDetach (h : StreamInv w) (hflight : FlightInv w aio)
    (hx : (w.server.conns x).state ≠ .closed) (hptr : w.fileStream x = some b)
    (hread : w.reading b = false) : StreamInv (w.streamDetach x b) := by
  obtain ⟨hlive, _⟩ := h.owned x b hx hptr
  have hloose : StreamInvBut (some b) (w.detach x) := hptr ▸ h.detach (.inl (by simp [hptr]))
  unfold Transfers.streamDetach
  rw [touch_live hlive]
  refine hloose.free ⟨hflight.pointer x b hptr, hlive⟩
    (fun hc => absurd (h.flying b hc).2 (by simp [hread])) fun y _ hc => ?_
  obtain ⟨hyx, hold⟩ := attached_of_detach hc
  exact hyx (hflight.pointer_inj hptr hold)

/-- A read in flight is for a context that has been made. -/
theorem FlightInv.lt_of_chunk (h : FlightInv w aio) (hb : .chunk b ∈ w.flights) :
    b < w.streams.allocated.length := by
  obtain ⟨l, hl⟩ := h.owner_of_mem hb
  exact Ledger.lt_of_allocated hl

theorem FlightInv.lt_of_file (h : FlightInv w aio) (hf : .file f ∈ w.flights) :
    f < w.contexts.allocated.length := by
  obtain ⟨l, hl⟩ := h.owner_of_mem hf
  exact Ledger.lt_of_allocated hl

theorem StreamInv.malloc (h : StreamInv w) (hflight : FlightInv w aio) :
    StreamInvBut (some w.streams.allocated.length) (w.streamMalloc x) := by
  have hread : ∀ c, c < w.streams.allocated.length →
      update w.reading w.streams.allocated.length false c = w.reading c :=
    fun c hc => update_of_ne (Nat.ne_of_lt hc) _ _
  refine ⟨h.heap.malloc, h.faults, fun p hp => Ledger.getElem?_malloc.mpr (.inl (h.wrote p hp)),
    h.nodup, fun c hc => ?_, fun y c hy hc => ?_, h.parked, fun c l hl => ?_, h.reads, h.single⟩
  · obtain ⟨hnot, hr⟩ := h.flying c hc
    exact ⟨hnot, (hread c (hflight.lt_of_chunk hc)).trans hr⟩
  · obtain ⟨hnot, hr⟩ := h.owned y c hy hc
    have hlt := Ledger.lt_of_allocated (hflight.pointer y c hc)
    exact ⟨hnot, fun hrc => hr ((hread c hlt).symm.trans hrc)⟩
  · rcases Ledger.getElem?_malloc.mp hl with hl | ⟨rfl, rfl⟩
    · exact (h.kept c l hl).imp id (Or.imp id (Or.imp id nofun))
    · exact .inr (.inr (.inr rfl))

/-- A stream is attached to a connection that serves nothing else. -/
theorem StreamInvBut.attach (h : StreamInvBut (some b) w)
    (hb : w.streams.Live b (w.server.lifeOf x)) (hread : w.reading b = false)
    (hnone : w.fileStream x = none) (hno : w.NoFile x) : StreamInv (w.attach x b) := by
  have hother : ∀ {y c}, y ≠ x → (w.attach x b).fileStream y = some c → w.fileStream y = some c :=
    fun hy hc => (update_of_ne hy _ _).symm.trans hc
  refine ⟨h.heap, h.faults, h.wrote, h.nodup, h.flying, fun y c hy hc => ?_, fun y c hc => ?_,
    fun c l hl => ?_, fun f l hf hl hlife => ?_, h.single⟩
  · by_cases hyx : y = x
    · subst hyx
      cases (update_self _ _ _).symm.trans hc
      exact ⟨hb.not_freed, fun hr => absurd (hread.symm.trans hr) (by simp)⟩
    · exact h.owned y c hy (hother hyx hc)
  · by_cases hyx : y = x
    · exact hyx ▸ update_self _ _ _
    · exact (update_of_ne hyx _ _).trans (h.parked y c (hother hyx hc))
  · refine (h.kept c l hl).imp id (Or.imp id ?_)
    rintro (⟨hc, hlife⟩ | hc)
    · refine .inl ⟨(update_of_ne (fun hlx => ?_) _ _).trans hc, hlife⟩
      rw [hlx, hnone] at hc
      cases hc
    · cases hc
      obtain rfl := Option.some.inj (hl.symm.trans hb.owner)
      exact .inl ⟨update_self _ _ _, rfl⟩
  · have hlx : l.1 ≠ x := by
      rintro rfl
      exact hno f hf (hlife.symm ▸ hl)
    exact (h.reads f l hf hl hlife).imp (fun hbusy =>
      ⟨(update_of_ne hlx _ _).trans hbusy.1, (update_of_ne hlx _ _).trans hbusy.2⟩) id

theorem StreamInv.start (h : StreamInv w) (hflight : FlightInv w aio)
    (hnone : w.fileStream x = none) (hno : w.NoFile x) :
    StreamInv (((w.streamMalloc x).attach x w.streams.allocated.length).send x
      w.streams.allocated.length) := by
  have hnew : StreamInv ((w.streamMalloc x).attach x w.streams.allocated.length) :=
    (h.malloc hflight).attach h.heap.live_malloc (update_self _ _ _) hnone hno
  exact hnew.send h.heap.live_malloc

/-- A stream is made and freed at once. -/
theorem StreamInv.cut (h : StreamInv w) (hflight : FlightInv w aio) :
    StreamInv ((w.streamMalloc x).streamFree w.streams.allocated.length) :=
  (h.malloc hflight).free h.heap.live_malloc
    (fun hc => Nat.lt_irrefl _ (hflight.lt_of_chunk hc))
    fun y _ hc => Nat.lt_irrefl _ (Ledger.lt_of_allocated (hflight.pointer y _ hc))

/-- A read in flight belongs to the life it belonged to before a context was made. -/
theorem FlightInv.owner_before (h : FlightInv w aio) {l owner : Life} (hf : .file f ∈ w.flights)
    (hl : (w.contexts.malloc owner).allocated[f]? = some l) : w.ownerOf (.file f) = some l :=
  (Ledger.getElem?_malloc.mp hl).resolve_right fun hnew =>
    Nat.ne_of_lt (h.lt_of_file hf) hnew.1

theorem StreamInv.fileRead (h : StreamInv w) (hflight : FlightInv w aio) :
    StreamInv ((w.fileMalloc x).fileFree w.contexts.allocated.length) :=
  ⟨h.heap, h.faults, h.wrote, h.nodup, h.flying, h.owned, h.parked, h.kept,
    fun f l hf hl => h.reads f l hf (hflight.owner_before hf hl),
    fun f g l hf hg hfl hgl => h.single f g l hf hg (hflight.owner_before hf hfl)
      (hflight.owner_before hg hgl)⟩

/-- A read of a whole file is in flight for a connection that serves nothing else. -/
theorem StreamInv.fileSubmit (h : StreamInv w) (hflight : FlightInv w aio)
    (hnone : w.fileStream x = none) (hno : w.NoFile x) :
    StreamInv { (w.fileMalloc x).setInflight x true with
      flights := w.flights ++ [.file w.contexts.allocated.length] } := by
  have hnew : .file w.contexts.allocated.length ∉ w.flights :=
    fun hmem => Nat.lt_irrefl _ (hflight.lt_of_file hmem)
  have hmem : ∀ f, f ∈ w.flights ++ [.file w.contexts.allocated.length] ↔
      f ∈ w.flights ∨ f = .file w.contexts.allocated.length := by simp
  -- the reads that were in flight, and the new one
  have howner : ∀ f l, .file f ∈ w.flights ++ [.file w.contexts.allocated.length] →
      (w.fileMalloc x).ownerOf (.file f) = some l →
      (.file f ∈ w.flights ∧ w.ownerOf (.file f) = some l) ∨
        (f = w.contexts.allocated.length ∧ l = w.server.lifeOf x) := by
    intro f l hf hl
    rcases (hmem _).mp hf with hf | hf
    · exact .inl ⟨hf, hflight.owner_before hf hl⟩
    · obtain rfl := Flight.file.inj hf
      refine .inr ⟨rfl, ?_⟩
      rcases Ledger.getElem?_malloc.mp hl with hl | hl
      · exact absurd (Ledger.lt_of_allocated hl) (Nat.lt_irrefl _)
      · exact hl.2
  refine ⟨h.heap, h.faults, h.wrote, ?_, fun c hc => ?_, fun y c hy hc => ?_, fun y c hc => ?_,
    fun c l hl => ?_, fun f l hf hl hlife => ?_, fun f g l hf hg hfl hgl => ?_⟩
  · exact nodup_snoc h.nodup hnew
  · exact h.flying c (((hmem _).mp hc).resolve_right (by simp))
  · obtain ⟨hnot, hr⟩ := h.owned y c hy hc
    exact ⟨hnot, fun hrc => (hmem _).mpr (.inl (hr hrc))⟩
  · show update w.asyncInflight x true y = true
    by_cases hyx : y = x
    · rw [hyx, update_self]
    · rw [update_of_ne hyx]
      exact h.parked y c hc
  · exact (h.kept c l hl).imp id (Or.imp (fun hc => (hmem _).mpr (.inl hc)) id)
  · show (update w.asyncInflight x true l.1 = true ∧ w.fileStream l.1 = none) ∨ _
    rcases howner f l hf hl with ⟨hold, howned⟩ | ⟨_, rfl⟩
    · have hlx : l.1 ≠ x := by
        rintro rfl
        exact hno f hold (hlife.symm ▸ howned)
      rw [update_of_ne hlx]
      exact h.reads f l hold howned hlife
    · exact .inl ⟨update_self _ _ _, hnone⟩
  · rcases howner f l hf hfl with ⟨hf, hfl⟩ | ⟨hf, hfl⟩
    · rcases howner g l hg hgl with ⟨hg, hgl⟩ | ⟨hg, hgl⟩
      · exact h.single f g l hf hg hfl hgl
      · exact absurd (hgl ▸ hfl) (hno f hf)
    · rcases howner g l hg hgl with ⟨hg, hgl⟩ | ⟨hg, hgl⟩
      · exact absurd (hfl ▸ hgl) (hno g hg)
      · rw [hf, hg]

/-- The next read of a stream is in flight. -/
theorem StreamInv.submit (h : StreamInv w) (hx : (w.server.conns x).state ≠ .closed)
    (hptr : w.fileStream x = some b) (hread : w.reading b = false) :
    StreamInv { w.setReading b true with flights := w.flights ++ [.chunk b] } := by
  obtain ⟨hlive, _⟩ := h.owned x b hx hptr
  have hnew : .chunk b ∉ w.flights := fun hmem => absurd (h.flying b hmem).2 (by simp [hread])
  have hmem : ∀ f, f ∈ w.flights ++ [.chunk b] ↔ f ∈ w.flights ∨ f = .chunk b := by simp
  have hfile : ∀ f, .file f ∈ w.flights ++ [.chunk b] → .file f ∈ w.flights :=
    fun f hf => ((hmem _).mp hf).resolve_right (by simp)
  unfold Transfers.setReading
  rw [touch_live hlive]
  refine ⟨h.heap, h.faults, h.wrote, ?_, fun c hc => ?_, fun y c hy hc => ?_, h.parked,
    fun c l hl => ?_, fun f l hf => h.reads f l (hfile f hf),
    fun f g l hf hg => h.single f g l (hfile f hf) (hfile g hg)⟩
  · exact nodup_snoc h.nodup hnew
  · show c ∉ w.streams.freed ∧ update w.reading b true c = true
    by_cases hcb : c = b
    · rw [hcb, update_self]
      exact ⟨hlive, rfl⟩
    · rw [update_of_ne hcb]
      exact h.flying c (((hmem _).mp hc).resolve_right fun he => hcb (Flight.chunk.inj he))
  · show c ∉ w.streams.freed ∧ (update w.reading b true c = true →
      .chunk c ∈ w.flights ++ [.chunk b])
    obtain ⟨hnot, hr⟩ := h.owned y c hy hc
    refine ⟨hnot, fun hrc => (hmem _).mpr ?_⟩
    by_cases hcb : c = b
    · exact .inr (congrArg Flight.chunk hcb)
    · rw [update_of_ne hcb] at hrc
      exact .inl (hr hrc)
  · exact (h.kept c l hl).imp id (Or.imp (fun hc => (hmem _).mpr (.inl hc)) id)

/-! ## The loops -/

/-- The connection is in use: in state HTTP or registered, and not marked closed. -/
structure Server.InUse (s : Server) (x : Slot) : Prop where
  alive : (s.conns x).state = .http ∨ ∃ fd, s.fdMap fd = some x
  not_closed : (s.conns x).state ≠ .closed

/-- The connection can enter a loop: it serves nothing, or streams the file. -/
def Transfers.Ready (w : Transfers) (x : Slot) : Option Nat → Prop
  | none => w.fileStream x = none ∧ w.NoFile x
  | some b => w.fileStream x = some b

section Loops

/-- A stream that is detached leaves its connection with nothing to serve. -/
theorem StreamInv.ready_streamDetach (h : StreamInv w) (hx : w.server.InUse x)
    (hptr : w.fileStream x = some b) : (w.streamDetach x b).Ready x none :=
  ⟨update_self _ _ _, h.noFile hx.alive fun _ => by simp [hptr]⟩

theorem StreamInv.live (h : StreamInv w) (hflight : FlightInv w aio) (hx : w.server.InUse x)
    (hptr : w.fileStream x = some b) : w.streams.Live b (w.server.lifeOf x) :=
  ⟨hflight.pointer x b hptr, (h.owned x b hx.not_closed hptr).1⟩

theorem StreamInv.httpTurns (turns : List HttpTurn) :
    ∀ (loop : Option Nat) (w : Transfers), StreamInv w → FlightInv w aio → w.server.InUse x →
      w.Ready x loop → w.httpTurns x loop turns = some (w', submitted) → StreamInv w' := by
  induction turns with
  | nil =>
    intro loop w h hflight hx hready hrun
    cases loop with
    | none =>
      cases hrun
      exact h
    | some =>
      cases hrun
      rw [touch_live (h.live hflight hx hready).not_freed]
      exact h
  | cons turn rest ih =>
    intro loop w h hflight hx hready hrun
    cases loop with
    | none =>
      obtain ⟨hnone, hno⟩ := hready
      cases turn with
      | stop =>
        cases hrun
        exact h
      | answer => exact ih none w h hflight hx ⟨hnone, hno⟩ hrun
      | fileRead on =>
        have hread : StreamInv ((w.fileMalloc x).fileFree w.contexts.allocated.length) :=
          h.fileRead hflight
        cases on with
        | true =>
          refine ih none _ hread (hflight.turned (x := x) turned_fileRead) hx ⟨hnone, ?_⟩ hrun
          exact fun f hf hl => hno f hf (hflight.owner_before hf hl)
        | false =>
          cases hrun
          exact hread
      | fileSubmit =>
        cases hrun
        exact h.fileSubmit hflight hnone hno
      | streamCut =>
        cases hrun
        exact h.cut hflight
      | streamUnsent =>
        cases hrun
        exact (h.start hflight hnone hno).streamDetach
          (hflight.turned (x := x) turned_streamStart) hx.not_closed (update_self _ _ _)
          (update_self _ _ _)
      | streamStart =>
        exact ih (some w.streams.allocated.length) _ (h.start hflight hnone hno)
          (hflight.turned (x := x) turned_streamStart) hx (update_self _ _ _) hrun
      | _ => simp [Transfers.httpTurns] at hrun
    | some b =>
      have hptr : w.fileStream x = some b := hready
      have hlive := h.live hflight hx hptr
      simp only [Transfers.httpTurns] at hrun
      rw [touch_live hlive.not_freed] at hrun
      split at hrun
      · cases hrun
        exact h
      rename_i hreading
      have hidle : w.reading b = false := Bool.eq_false_iff.mpr hreading
      have hsend : Turned x w (w.send x b) false := .keep rfl rfl rfl rfl rfl rfl rfl
      cases turn with
      | blocked =>
        cases hrun
        exact h
      | submit =>
        cases hrun
        exact h.submit hx.not_closed hptr hidle
      | chunk => exact ih (some b) _ (h.send hlive) (hflight.turned hsend) hx hptr hrun
      | lost sent =>
        cases hrun
        cases sent with
        | true =>
          exact (h.send hlive).streamDetach (hflight.turned hsend) hx.not_closed hptr hidle
        | false => exact h.streamDetach hflight hx.not_closed hptr hidle
      | finish keepAlive =>
        have hdone := h.streamDetach hflight hx.not_closed hptr hidle
        cases keepAlive with
        | true =>
          exact ih none _ hdone (hflight.turned (turned_streamDetach b)) hx
            (h.ready_streamDetach hx hptr) hrun
        | false =>
          cases hrun
          exact hdone
      | _ => cases hrun

theorem StreamInv.chunkComplete (h : StreamInv w) (hflight : FlightInv w aio)
    (hx : w.server.InUse x) (hptr : w.fileStream x = some b) (hidle : w.reading b = false)
    (hrun : w.chunkComplete x b turns = some (w', submitted)) : StreamInv w' := by
  have hlive := h.live hflight hx hptr
  have hsent := h.send hlive
  have hsend : Turned x w (w.send x b) false := .keep rfl rfl rfl rfl rfl rfl rfl
  unfold Transfers.chunkComplete at hrun
  split at hrun
  · rename_i sent rest
    cases hrun
    cases sent with
    | true => exact hsent.streamDetach (hflight.turned hsend) hx.not_closed hptr hidle
    | false => exact h.streamDetach hflight hx.not_closed hptr hidle
  · rename_i keepAlive rest
    have hdone := hsent.streamDetach (hflight.turned hsend) hx.not_closed hptr hidle
    cases keepAlive with
    | true =>
      exact StreamInv.httpTurns rest none _ hdone
        (hflight.turned (hsend.trans (turned_streamDetach b))) hx
        (hsent.ready_streamDetach hx hptr) hrun
    | false =>
      cases hrun
      exact hdone
  · exact StreamInv.httpTurns _ (some b) _ hsent (hflight.turned hsend) hx hptr hrun
  · cases hrun

/-! ## Completions and teardown -/

theorem mem_landed (h : w.flights.Nodup) {g : Flight} (hk : w.flights[k]? = some g) (f : Flight) :
    f ∈ (w.landed k).flights ↔ f ∈ w.flights ∧ f ≠ g := by
  obtain ⟨hlt, rfl⟩ := List.getElem?_eq_some_iff.mp hk
  show f ∈ w.flights.eraseIdx k ↔ _
  rw [← h.erase_getElem k hlt, h.mem_erase_iff, and_comm]

theorem mem_landed_chunk (h : w.flights.Nodup) (hk : w.flights[k]? = some (.chunk b)) :
    .chunk c ∈ (w.landed k).flights ↔ .chunk c ∈ w.flights ∧ c ≠ b := by
  rw [mem_landed h hk, ne_eq, Flight.chunk.injEq]

variable (h : StreamInv w)

include h

/-- A chunk lands, whoever asked for it. -/
theorem StreamInv.landedBut (hk : w.flights[k]? = some (.chunk b)) :
    StreamInvBut (some b) ((w.landed k).setReading b false) := by
  have hmem : ∀ {c}, .chunk c ∈ (w.landed k).flights ↔ .chunk c ∈ w.flights ∧ c ≠ b :=
    mem_landed_chunk h.nodup hk
  have hfile : ∀ f, .file f ∈ (w.landed k).flights → .file f ∈ w.flights :=
    fun f hf => ((mem_landed h.nodup hk _).mp hf).1
  have hlive : b ∉ (w.landed k).streams.freed := (h.flying b (mem_of_getElem? hk)).1
  unfold Transfers.setReading
  rw [touch_live hlive]
  refine ⟨h.heap, h.faults, h.wrote, h.nodup.eraseIdx k, fun c hc => ?_, fun y c hy hc => ?_,
    h.parked, fun c l hl => ?_, fun f l hf => h.reads f l (hfile f hf),
    fun f g l hf hg => h.single f g l (hfile f hf) (hfile g hg)⟩
  · obtain ⟨hc, hcb⟩ := hmem.mp hc
    obtain ⟨hnot, hr⟩ := h.flying c hc
    exact ⟨hnot, update_false_iff.mpr ⟨hr, hcb⟩⟩
  · obtain ⟨hnot, hr⟩ := h.owned y c hy hc
    refine ⟨hnot, fun hrc => hmem.mpr ?_⟩
    obtain ⟨hrc, hcb⟩ := update_false_iff.mp hrc
    exact ⟨hr hrc, hcb⟩
  · by_cases hcb : c = b
    · exact .inr (.inr (.inr (congrArg some hcb.symm)))
    · exact (h.kept c l hl).imp id (Or.imp (fun hc => hmem.mpr ⟨hc, hcb⟩) (Or.imp id nofun))

/-- The completion of a chunk for the connection that the stream is attached to. -/
theorem StreamInv.landed (hflight : FlightInv w aio) (hk : w.flights[k]? = some (.chunk b))
    (hptr : w.fileStream x = some b) : StreamInv ((w.landed k).setReading b false) := by
  refine (h.landedBut hk).settled fun c l hc hl => .inr ?_
  cases hc
  obtain rfl := Option.some.inj (hl.symm.trans (hflight.pointer x b hptr))
  exact ⟨hptr, rfl⟩

/-- The completion of a chunk frees a stream that no connection can use. -/
theorem StreamInv.dropChunk (hflight : FlightInv w aio) (hk : w.flights[k]? = some (.chunk b))
    (hgone : ∀ y, (w.server.conns y).state ≠ .closed → w.fileStream y ≠ some b) :
    StreamInv (((w.landed k).setReading b false).streamFree b) := by
  have hin := mem_of_getElem? hk
  obtain ⟨l, hl⟩ := hflight.owner_of_mem hin
  exact (h.landedBut hk).free ⟨hl, (h.flying b hin).1⟩
    (fun hc => ((mem_landed_chunk h.nodup hk).mp hc).2 rfl) hgone

/-- The completion of a file read, without what follows for the connection. -/
theorem StreamInv.landedFile (hk : w.flights[k]? = some (.file f)) : StreamInv (w.landed k) := by
  have hmem := mem_landed h.nodup hk
  have hfile : ∀ g, g ∈ (w.landed k).flights → g ∈ w.flights := fun g hg => ((hmem g).mp hg).1
  refine ⟨h.heap, h.faults, h.wrote, h.nodup.eraseIdx k, fun c hc => h.flying c (hfile _ hc),
    fun y c hy hc => ?_, h.parked, fun c l hl => ?_, fun g l hg => h.reads g l (hfile _ hg),
    fun f g l hf hg => h.single f g l (hfile _ hf) (hfile _ hg)⟩
  · obtain ⟨hnot, hr⟩ := h.owned y c hy hc
    exact ⟨hnot, fun hrc => (hmem _).mpr ⟨hr hrc, by simp⟩⟩
  · exact (h.kept c l hl).imp id (Or.imp (fun hc => (hmem _).mpr ⟨hc, by simp⟩) id)

/-- The connection that asked for a file serves nothing else, and goes on with its requests. -/
theorem StreamInv.fileAnswer (hx : w.server.InUse x) (hk : w.flights[k]? = some (.file f))
    (howner : w.ownerOf (.file f) = some (w.server.lifeOf x)) :
    StreamInv ((w.landed k).fileAnswer x f) ∧ ((w.landed k).fileAnswer x f).Ready x none := by
  have hmem := mem_landed h.nodup hk
  have hland := h.landedFile hk
  -- no other file is read for it
  have hno : (w.landed k).NoFile x := by
    intro g hg hl
    obtain ⟨hg, hne⟩ := (hmem _).mp hg
    exact hne (congrArg Flight.file (h.single g f _ hg (mem_of_getElem? hk) hl howner))
  have hnone : w.fileStream x = none := by
    rcases h.reads f _ (mem_of_getElem? hk) howner rfl with hbusy | ⟨hstate, hmap⟩
    · exact hbusy.2
    · rcases hx.alive with hx | ⟨fd, hx⟩
      · exact absurd hx hstate
      · exact absurd hx (hmap fd)
  refine ⟨⟨hland.heap, hland.faults, hland.wrote, hland.nodup, hland.flying, hland.owned,
    fun y c hc => ?_, hland.kept, fun g l hg hl hlife => ?_, hland.single⟩, hnone, hno⟩
  · have hyx : y ≠ x := by
      rintro rfl
      exact absurd (hnone.symm.trans hc) (by simp)
    exact update_false_iff.mpr ⟨h.parked y c hc, hyx⟩
  · have hlx : l.1 ≠ x := by
      rintro rfl
      exact hno g hg (hlife.symm ▸ hl)
    exact (hland.reads g l hg hl hlife).imp (And.imp_left fun hbusy =>
      update_false_iff.mpr ⟨hbusy, hlx⟩) id

theorem StreamInv.fileFree (f : Nat) : StreamInv (w.fileFree f) :=
  ⟨h.heap, h.faults, h.wrote, h.nodup, h.flying, h.owned, h.parked, h.kept, h.reads, h.single⟩

/-- `ws_connection_cleanup` of a connection that is registered no longer. -/
theorem StreamInv.cleanup (hflight : FlightInv w aio) (hx : (w.server.conns x).state ≠ .closed)
    (hgone : (w.server.conns x).state ≠ .http ∧ ∀ fd, w.server.fdMap fd ≠ some x) :
    StreamInv (w.cleanup x) := by
  unfold Transfers.cleanup
  split
  · rename_i hnone
    exact (h.detach (.inr hgone)).settled fun c _ hc => absurd (hnone.symm.trans hc) (by simp)
  · rename_i b hptr
    obtain ⟨hlive, hr⟩ := h.owned x b hx hptr
    dsimp only
    rw [touch_live hlive]
    split
    · rename_i hreading
      refine (h.detach (.inr hgone)).settled fun c _ hc _ => .inl ?_
      rw [← Option.some.inj (hptr.symm.trans hc)]
      exact hr hreading
    · rename_i hreading
      have hfree : (w.streamFree b).detach x = w.streamDetach x b := by
        have hlive' : b ∉ (w.detach x).streams.freed := hlive
        unfold Transfers.streamDetach Transfers.streamFree
        rw [touch_live hlive, touch_live hlive']
        rfl
      rw [hfree]
      exact h.streamDetach hflight hx hptr (Bool.eq_false_iff.mpr hreading)

/-- The server's part of a step: a slot that begins another life has no stream, a connection does
    not come back from the state CLOSED, and becomes HTTP or registered only in use. -/
theorem StreamInv.serve (hflight : FlightInv w aio) {s' : Server}
    (hlife : ∀ y, (s'.conns y).life = (w.server.conns y).life ∨
      (w.fileStream y = none ∧ (w.server.conns y).life < (s'.conns y).life))
    (hclosed : ∀ y, w.fileStream y ≠ none → (s'.conns y).state ≠ .closed →
      (w.server.conns y).state ≠ .closed)
    (halive : ∀ y, (s'.conns y).life = (w.server.conns y).life →
      ((s'.conns y).state = .http ∨ ∃ fd, s'.fdMap fd = some y) →
      (w.server.conns y).state = .http ∨ ∃ fd, w.server.fdMap fd = some y) :
    StreamInv { w with server := s' } := by
  refine ⟨h.heap, h.faults, h.wrote, h.nodup, h.flying, fun y c hy hc => ?_, h.parked,
    fun c l hl => ?_, fun f l hf hl hnow => ?_, h.single⟩
  · have hc : w.fileStream y = some c := hc
    exact h.owned y c (hclosed y (by simp [hc]) hy) hc
  · refine (h.kept c l hl).imp id (Or.imp id (Or.imp (fun hc => ⟨hc.1, ?_⟩) id))
    rcases hlife l.1 with hsame | ⟨hnone, _⟩
    · exact (lifeOf_eq hsame).trans hc.2
    · exact absurd (hnone.symm.trans hc.1) (by simp)
  · have hpast := hflight.past (.file f) l hl
    have hl2 : (s'.conns l.1).life = l.2 := congrArg Prod.snd hnow
    rcases hlife l.1 with hsame | ⟨_, hlt⟩
    · have hold : w.server.lifeOf l.1 = l := (lifeOf_eq hsame).symm.trans hnow
      refine (h.reads f l hf hl hold).imp id fun hgone => ?_
      have hdead : ¬ ((s'.conns l.1).state = .http ∨ ∃ fd, s'.fdMap fd = some l.1) := by
        intro hs
        rcases halive l.1 hsame hs with hs | ⟨fd, hs⟩
        · exact hgone.1 hs
        · exact hgone.2 fd hs
      exact ⟨fun hs => hdead (.inl hs), fun fd hs => hdead (.inr ⟨fd, hs⟩)⟩
    · omega

end Loops

/-! ## Slots and responses in progress -/

/-- A file response is in progress only in state HTTP, or in a connection that is marked closed; a
    free slot has none; and a connection that is registered or being torn down is not marked
    closed. -/
structure HttpInv (w : Transfers) : Prop where
  parked : ∀ x, w.asyncInflight x = true →
    (w.server.conns x).state = .http ∨ (w.server.conns x).state = .closed
  free : ∀ x ∈ w.server.free, w.fileStream x = none ∧ w.asyncInflight x = false
  idle : ∀ x ∈ w.server.free, (w.server.conns x).state ≠ .http
  mapped : ∀ fd x, w.server.fdMap fd = some x → (w.server.conns x).state ≠ .closed
  torn : ∀ x, w.server.ev.torn = some x → (w.server.conns x).state ≠ .closed
  fd : ∀ x, (w.server.conns x).state ≠ .closed → (w.server.conns x).fd.isSome = true

theorem handlerLeaves_http (h : handlerLeaves writing .http state = true) : state = .http := by
  cases writing <;> cases state <;> first | rfl | exact absurd h (by decide)

theorem handlerLeaves_not_closed {before after : WsState}
    (h : handlerLeaves writing before after = true) (hb : before ≠ .closed) : after ≠ .closed := by
  rintro rfl
  cases writing <;> cases before <;> first | exact hb rfl | exact absurd h (by decide)

section Step

variable {cfg : Config} {s s' : Server} {op : EventOp} {event : Option SlotEvent}
  {generation : Nat}

/-- A free slot was free, or is being wiped. -/
theorem SlotEffect.free_sub (h : SlotEffect s s' event) (hy : y ∈ s'.free) :
    y ∈ s.free ∨ event = some (.wipe y) := by
  cases h with
  | quiet _ _ _ hfree | handle _ _ _ _ _ _ _ _ _ _ hfree | close _ _ _ _ _ hfree
  | drop _ _ _ _ _ hfree => exact .inl (hfree ▸ hy)
  | start x _ _ _ _ hfree =>
    rw [hfree]
    exact .inl (mem_cons_of_mem x hy)
  | wipe x _ _ _ _ hfree =>
    rcases hfree y hy with rfl | hy
    · exact .inr rfl
    · exact .inl hy

/-- What is registered was registered, or begins. -/
theorem SlotEffect.map_sub (h : SlotEffect s s' event) (hy : s'.fdMap fd = some y) :
    s.fdMap fd = some y ∨ event = some (.start y) := by
  cases h with
  | quiet hmap | handle _ _ _ _ _ _ hmap | wipe _ _ hmap => exact .inl (hmap ▸ hy)
  | start x _ _ _ hmap =>
    rcases hmap fd y hy with rfl | hy
    · exact .inr rfl
    · exact .inl hy
  | close _ _ _ hmap | drop _ _ _ hmap => exact .inl (of_update_none (hmap ▸ hy)).2

/-- A connection that is being torn down was so before, or was registered. -/
theorem SlotEffect.torn_sub (h : SlotEffect s s' event) (hy : s'.ev.torn = some y) :
    event.bind SlotEvent.sets = none ∧ (s.ev.torn = some y ∨ ∃ fd, s.fdMap fd = some y) := by
  cases h with
  | quiet _ _ _ _ htorn => exact ⟨rfl, .inl (htorn y hy)⟩
  | handle _ _ _ _ _ _ _ _ _ _ _ htorn | start _ _ _ _ _ _ htorn | wipe _ _ _ _ _ _ htorn =>
    simp [htorn] at hy
  | close _ fd hx _ _ _ htorn | drop _ fd hx _ _ _ htorn =>
    exact ⟨rfl, .inr ⟨fd, Option.some.inj (htorn.symm.trans hy) ▸ hx⟩⟩

/-- A connection that is not marked closed was not, or begins. -/
theorem StateEffect.not_closed (h : StateEffect s s' y event) (heffect : SlotEffect s s' event)
    (hmapped : ∀ fd x, s.fdMap fd = some x → (s.conns x).state ≠ .closed)
    (htorn : ∀ x, s.ev.torn = some x → (s.conns x).state ≠ .closed)
    (hy : (s'.conns y).state ≠ .closed) :
    (s.conns y).state ≠ .closed ∨ event = some (.start y) := by
  cases h with
  | same _ heq => exact .inl (heq ▸ hy)
  | closing hopen => exact .inl (by simp [hopen])
  | marked _ _ hclosed => exact absurd hclosed hy
  | handled =>
    cases heffect with
    | handle _ _ _ _ fd hx => exact .inl (hmapped fd y hx)
  | started => exact .inr rfl
  | wiped =>
    cases heffect with
    | wipe _ hx => exact .inl (htorn y hx)

/-- A connection whose state no event sets stays in state HTTP, or is marked closed. -/
theorem StateEffect.http_or_closed (h : StateEffect s s' y event)
    (hevent : event.bind SlotEvent.sets ≠ some y)
    (hy : (s.conns y).state = .http ∨ (s.conns y).state = .closed) :
    (s'.conns y).state = .http ∨ (s'.conns y).state = .closed := by
  cases h with
  | same _ heq => rwa [heq]
  | closing hopen =>
    rw [hopen] at hy
    exact absurd hy (by simp)
  | marked _ _ hclosed => exact .inr hclosed
  | handled | started | wiped => exact absurd rfl hevent

theorem cleanup_slot :
    (w.cleanup x).fileStream x = none ∧ (w.cleanup x).asyncInflight x = false := by
  have hdetach : ∀ w : Transfers,
      (w.detach x).fileStream x = none ∧ (w.detach x).asyncInflight x = false :=
    fun _ => ⟨update_self _ _ _, update_self _ _ _⟩
  unfold Transfers.cleanup
  split
  · exact hdetach w
  · dsimp only
    split <;> exact hdetach _

/-- A completion changes a slot only if its connection is the one that asked. -/
theorem Completed.slots (h : Completed w k x generation turns w1 submitted)
    (hflight : FlightInv w w.server.aio) (y : Slot) :
    (w1.fileStream y = w.fileStream y ∧ w1.asyncInflight y = w.asyncInflight y) ∨
      (y = x ∧ (w.server.conns x).state = .http) := by
  by_cases hreq : y = x ∧ (w.server.conns x).state = .http
  · exact .inr hreq
  refine .inl ?_
  cases h with
  | stream b hb hok hptr hw =>
    have hyx : y ≠ x := fun hyx => hreq ⟨hyx, (of_decide_eq_true hok).2.1⟩
    have ht := turned_chunkRead.trans (turned_chunkComplete (hflight.pointer x b hptr) hw)
    exact ht.other y hyx
  | streamDropped _ _ _ hw | fileDropped _ _ _ hw =>
    rw [hw]
    exact ⟨rfl, rfl⟩
  | file f hf hok w2 hw hfree =>
    have hyx : y ≠ x := fun hyx => hreq ⟨hyx, (of_decide_eq_true hok).2.1⟩
    obtain ⟨hstream, hinflight⟩ := (turned_httpTurns turns none _ (by simp) hw).other y hyx
    rw [hfree]
    exact ⟨hstream, hinflight.trans (update_of_ne hyx _ _)⟩

/-- A handler that leaves a file response in progress leaves the connection in state HTTP. -/
theorem HttpInv.handled_http (h : HttpInv w) (hstream : StreamInv w)
    (hx : w.server.fdMap fd = some x) (hw : w.handle x writing state turns = some (w1, submitted))
    (hin : w1.asyncInflight x = true) : state = .http := by
  obtain ⟨hleaves, hcases⟩ := handle_cases hw
  have hbusy : w.asyncInflight x = true → state = .http := by
    intro hbusy
    rw [(h.parked x hbusy).resolve_right (h.mapped fd x hx)] at hleaves
    exact handlerLeaves_http hleaves
  rcases hcases with ⟨rfl, _⟩ | ⟨loop, hloop, _⟩
  · exact hbusy hin
  · rcases handlerLoop_cases hloop with ⟨b, _, hptr⟩ | ⟨_, ⟨_, hhttp⟩ | ⟨_, hhttp⟩ | ⟨hhttp, _⟩⟩
    · exact hbusy (hstream.parked x b hptr)
    · exact hhttp
    · exact hhttp
    · rw [hhttp] at hleaves
      exact handlerLeaves_http hleaves

/-- The server's part of `HttpInv`. -/
theorem HttpInv.server_step (h : HttpInv w) (hslot : SlotInv cfg w.server)
    (hreg : registrationWorks w.server op.label = true)
    (hs : w.server.step cfg op.label = some s')
    (hleaves : ∀ x writing state fail, slotEvent w.server op.label =
        some (.handle x writing state fail) →
      handlerLeaves writing (w.server.conns x).state state = true) :
    (∀ fd x, s'.fdMap fd = some x → (s'.conns x).state ≠ .closed) ∧
      (∀ x, s'.ev.torn = some x → (s'.conns x).state ≠ .closed) ∧
      ∀ x, (s'.conns x).state ≠ .closed → (s'.conns x).fd.isSome = true := by
  have heffect := step_effect hslot hreg hs
  have hstate := step_state hs
  generalize slotEvent w.server op.label = event at heffect hstate hleaves
  refine ⟨fun fd y hy => ?_, fun y hy => ?_, fun y hy => ?_⟩
  · have hst := hstate y
    rcases heffect.map_sub hy with hmap | rfl
    · have hne := h.mapped fd y hmap
      cases hst with
      | same _ heq => rwa [heq]
      | closing _ hc => simp [hc]
      | marked hx => exact absurd rfl (hslot.ne_of_torn hmap hx)
      | handled hc =>
        rw [hc]
        exact handlerLeaves_not_closed (hleaves y _ _ _ rfl) hne
      | started hc => rcases hc with hc | hc <;> simp [hc]
      | wiped hc => simp [hc]
    · cases hst with
      | same hother => exact absurd rfl hother
      | started hc => rcases hc with hc | hc <;> simp [hc]
  · obtain ⟨hsets, hold⟩ := heffect.torn_sub hy
    have hne : (w.server.conns y).state ≠ .closed := by
      rcases hold with hold | ⟨fd, hold⟩
      · exact h.torn y hold
      · exact h.mapped fd y hold
    have hst := hstate y
    cases hst with
    | same _ heq => rwa [heq]
    | closing _ hc => simp [hc]
    | marked _ hnone => simp [hnone] at hy
    | handled | started | wiped => simp [SlotEvent.sets] at hsets
  · rcases (hstate y).not_closed heffect h.mapped h.torn hy with hne | rfl
    · exact step_fd hs (h.fd y hne)
    · have hst := hstate y
      cases hst with
      | same hother => exact absurd rfl hother
      | started _ hfd => exact hfd

/-- What a step does to the response in progress in slot `y`: nothing, in a slot whose state it does
    not set; it ends, where a life begins or is wiped; a read for it completes; or a handler of its
    connection runs. -/
inductive SlotResponse (w w1 : Transfers) (event : Option SlotEvent) (y : Slot) : Prop
  | same (hsets : event.bind SlotEvent.sets ≠ some y) (hstream : w1.fileStream y = w.fileStream y)
      (hinflight : w1.asyncInflight y = w.asyncInflight y)
  | cleared (hevent : event = some (.start y) ∨ event = some (.wipe y))
      (hstream : w1.fileStream y = none) (hinflight : w1.asyncInflight y = false)
  | served (hevent : event = none) (hhttp : (w.server.conns y).state = .http)
  | handled (writing : Bool) (state : WsState) (fail : Bool) (turns : List HttpTurn)
      (submitted : Bool) (hevent : event = some (.handle y writing state fail))
      (hw : w.handle y writing state turns = some (w1, submitted))

theorem ContextEffect.slot (h : ContextEffect w s' op w1) (hflight : FlightInv w w.server.aio)
    (y : Slot) : SlotResponse w w1 (slotEvent w.server op.label) y := by
  have hother : ∀ {x : Slot}, y ≠ x → some x ≠ some y := fun hyx he =>
    hyx (Option.some.inj he).symm
  cases h with
  | quiet hevent => exact .same (by rw [hevent]; simp) rfl rfl
  | complete k submitted close x generation w1 hlabel hk hw =>
    have hnone : slotEvent w.server op.label = none := by rw [hlabel]; rfl
    rcases hw.slots hflight y with ⟨hstream, hinflight⟩ | ⟨rfl, hhttp⟩
    · exact .same (by rw [hnone]; simp) hstream hinflight
    · exact .served hnone hhttp
  | handle x writing state fail submitted w1 hevent hw =>
    by_cases hyx : y = x
    · subst hyx
      exact .handled writing state fail _ submitted hevent hw
    · obtain ⟨hstream, hinflight⟩ := (turned_handle (hflight.pointer x) hw).other y hyx
      exact .same (by rw [hevent]; exact hother hyx) hstream hinflight
  | start x hevent =>
    by_cases hyx : y = x
    · subst hyx
      exact .cleared (.inl hevent) (update_self _ _ _) (update_self _ _ _)
    · exact .same (by rw [hevent]; exact hother hyx) (update_of_ne hyx _ _)
        (update_of_ne hyx _ _)
  | wipe x hevent =>
    by_cases hyx : y = x
    · subst hyx
      exact .cleared (.inr hevent) cleanup_slot.1 cleanup_slot.2
    · obtain ⟨hstream, hinflight⟩ := (turned_cleanup (w := w) (x := x)).other y hyx
      exact .same (by rw [hevent]; exact hother hyx) hstream hinflight

theorem SlotResponse.leaves (h : SlotResponse w w1 event y) {fail : Bool}
    (hevent : event = some (.handle y writing state fail)) :
    handlerLeaves writing (w.server.conns y).state state = true := by
  cases h with
  | same hsets => exact absurd (by rw [hevent]; rfl) hsets
  | cleared hcleared => simp [hevent] at hcleared
  | served hnone => simp [hevent] at hnone
  | handled _ _ _ _ _ hevent' hw =>
    obtain ⟨_, rfl, rfl, _⟩ := SlotEvent.handle.inj (Option.some.inj (hevent'.symm.trans hevent))
    exact (handle_cases hw).1

theorem HttpInv.step (h : HttpInv w) (hstream : StreamInv w) (hslot : SlotInv cfg w.server)
    (hflight : FlightInv w w.server.aio) (hreg : registrationWorks w.server op.label = true)
    (hs : w.server.step cfg op.label = some s') (heffect : ContextEffect w s' op w1) :
    HttpInv { w1 with server := s' } := by
  have hslots := step_effect hslot hreg hs
  have hstate := step_state hs
  have hresponse := heffect.slot hflight
  obtain ⟨hmapped, htorn, hfd⟩ :=
    h.server_step hslot hreg hs fun x _ _ _ hevent => (hresponse x).leaves hevent
  -- a connection whose handler runs is registered
  have hhandled : ∀ {y : Slot} {writing fail : Bool} {state : WsState},
      slotEvent w.server op.label = some (.handle y writing state fail) →
      ∃ fd, w.server.fdMap fd = some y := by
    intro y writing fail state hevent
    rw [hevent] at hslots
    cases hslots with
    | handle _ _ _ _ fd hx => exact ⟨fd, hx⟩
  refine ⟨fun y hy => ?_, fun y hy => ?_, free_not_http hslot hreg hs h.idle, hmapped, htorn, hfd⟩
  · cases hresponse y with
    | same hsets _ hsame =>
      exact (hstate y).http_or_closed hsets (h.parked y (hsame.symm.trans hy))
    | cleared _ _ hidle => simp [hidle] at hy
    | served hevent hhttp => exact (hstate y).http_or_closed (by rw [hevent]; simp) (.inl hhttp)
    | handled writing state fail turns submitted hevent hw =>
      obtain ⟨fd, hx⟩ := hhandled hevent
      have hst := hstate y
      rw [hevent] at hst
      cases hst with
      | same hother => exact absurd rfl hother
      | handled hc => exact .inl (hc.trans (h.handled_http hstream hx hw hy))
  · have hfree := hslots.free_sub hy
    cases hresponse y with
    | same hsets hsame hsame' =>
      have hwipe : slotEvent w.server op.label ≠ some (.wipe y) :=
        fun hwipe => hsets (by rw [hwipe]; rfl)
      obtain ⟨hnone, hidle⟩ := h.free y (hfree.resolve_right hwipe)
      exact ⟨hsame.trans hnone, hsame'.trans hidle⟩
    | cleared _ hnone hidle => exact ⟨hnone, hidle⟩
    | served hevent hhttp =>
      exact absurd hhttp (h.idle y (hfree.resolve_right (by simp [hevent])))
    | handled writing state fail turns submitted hevent =>
      obtain ⟨fd, hx⟩ := hhandled hevent
      exact absurd (hfree.resolve_right (by simp [hevent])) (hslot.map fd y hx).2.1

/-- The server's part of a step, over contexts that are in order before it. -/
theorem StreamInv.server_step (h : StreamInv w1) {aio : List (Slot × Nat)}
    (hflight : FlightInv w1 aio) (hserver : w1.server = w.server) (hhttp : HttpInv w)
    (hslot : SlotInv cfg w.server) (hreg : registrationWorks w.server op.label = true)
    (hs : w.server.step cfg op.label = some s')
    (hstart : ∀ y, slotEvent w.server op.label = some (.start y) → w1.fileStream y = none) :
    StreamInv { w1 with server := s' } := by
  have hslots := step_effect hslot hreg hs
  have hstate := step_state hs
  have hlife := step_life hs
  generalize slotEvent w.server op.label = event at hslots hstate hlife hstart
  refine h.serve hflight (fun y => ?_) (fun y hy hst => ?_) (fun y hsame halive => ?_)
  · rw [hserver]
    rcases hlife y with ⟨hsame, _⟩ | ⟨hevent, hnew, _⟩
    · exact .inl hsame
    · exact .inr ⟨hstart y hevent, by omega⟩
  · rw [hserver]
    rcases (hstate y).not_closed hslots hhttp.mapped hhttp.torn hst with hne | hevent
    · exact hne
    · exact absurd (hstart y hevent) hy
  · rw [hserver] at hsame ⊢
    -- the slot goes on in its life
    have hgoes : event ≠ some (.start y) := by
      rintro rfl
      cases hslots with
      | start => omega
    rcases halive with hst | ⟨fd, hmap⟩
    · have hsty := hstate y
      cases hsty with
      | same _ heq => exact .inl (heq.symm.trans hst)
      | closing _ hc | marked _ _ hc | wiped hc => simp [hc] at hst
      | handled =>
        cases hslots with
        | handle _ _ _ _ fd hx => exact .inr ⟨fd, hx⟩
      | started => exact absurd rfl hgoes
    · exact .inr ⟨fd, (hslots.map_sub hmap).resolve_right hgoes⟩

theorem StreamInv.complete (h : StreamInv w) (hflight : FlightInv w w.server.aio)
    (hhttp : HttpInv w) (hk : w.server.aio[k]? = some (x, generation))
    (hreuse : ∀ f, w.flights[k]? = some (.file f) → ∀ l, w.ownerOf (.file f) = some l →
      (w.server.conns l.1).life < l.2 + 2 ^ 32)
    (hw : Completed w k x generation op.turns w1 submitted) : StreamInv w1 := by
  have huse : w.requested x generation = true → w.server.InUse x := by
    intro hreq
    have hstate := (of_decide_eq_true hreq).2.1
    exact ⟨.inl hstate, by simp [hstate]⟩
  have hland := hflight.landed k
  cases hw with
  | stream b hb hreq hptr hw =>
    exact (h.landed hflight hb hptr).chunkComplete (hland.turned (turned_chunkRead (x := x)))
      (huse hreq) hptr (update_self _ _ _) hw
  | streamDropped b hb hgone hw =>
    rw [hw]
    refine h.dropChunk hflight hb fun y hy hptr => ?_
    -- a connection that can use the stream is the one that asked for the chunk
    obtain ⟨l, hl, he⟩ := hflight.at hb hk
    obtain rfl := Option.some.inj (hl.symm.trans (hflight.pointer y b hptr))
    obtain ⟨rfl, rfl⟩ := Prod.mk.inj he
    have hstate := (hhttp.parked x (h.parked x b hptr)).resolve_right hy
    refine hgone ?_ hptr
    exact decide_eq_true ⟨hflight.generation x, hstate, hhttp.fd x hy⟩
  | file f hf hreq w2 hw hfree =>
    rw [hfree]
    have howner := hflight.lifeOf_eq_of_requested hf hk hreq (hreuse f hf)
    obtain ⟨hanswer, hready⟩ := h.fileAnswer (huse hreq) hf howner
    have hflight' : FlightInv ((w.landed k).fileAnswer x f) (w.server.aio.eraseIdx k) :=
      ⟨hland.generation, hland.carries, hland.past, hland.pointer⟩
    exact (StreamInv.httpTurns op.turns none _ hanswer hflight' (huse hreq) hready hw).fileFree f
  | fileDropped f hf hgone hw =>
    rw [hw]
    exact (h.landedFile hf).fileFree f

/-- A connection without a file response in progress can go on with its requests. -/
theorem StreamInv.ready_of_idle (h : StreamInv w) (hx : w.server.InUse x)
    (hidle : w.asyncInflight x = false) : w.Ready x none := by
  have hbusy : w.asyncInflight x ≠ true := by simp [hidle]
  refine ⟨?_, h.noFile hx.alive fun hin => absurd hin hbusy⟩
  cases hptr : w.fileStream x with
  | none => rfl
  | some b => exact absurd (h.parked x b hptr) hbusy

theorem StreamInv.handle (h : StreamInv w) (hflight : FlightInv w w.server.aio)
    (hhttp : HttpInv w) (hx : w.server.fdMap fd = some x)
    (hw : w.handle x writing state op.turns = some (w1, submitted)) : StreamInv w1 := by
  have huse : w.server.InUse x := ⟨.inr ⟨fd, hx⟩, hhttp.mapped fd x hx⟩
  have hidle : (w.server.conns x).state ≠ .http → w.asyncInflight x = false := by
    intro hne
    refine Bool.eq_false_iff.mpr fun hin => ?_
    exact (hhttp.parked x hin).elim hne huse.not_closed
  rcases (handle_cases hw).2 with ⟨rfl, _⟩ | ⟨loop, hloop, hw⟩
  · exact h
  · refine StreamInv.httpTurns op.turns loop w h hflight huse ?_ hw
    rcases handlerLoop_cases hloop with ⟨b, rfl, hptr⟩ | ⟨rfl, ⟨hst, _⟩ | ⟨hst, _⟩ | ⟨_, hno⟩⟩
    · exact hptr
    · exact h.ready_of_idle huse (hidle (by simp [hst]))
    · exact h.ready_of_idle huse (hidle (by simp [hst]))
    · exact h.ready_of_idle huse hno

theorem detach_idle (hnone : w.fileStream x = none) (hidle : w.asyncInflight x = false) :
    w.detach x = w := by
  unfold Transfers.detach
  rw [← hnone, ← hidle, update_eq_self, update_eq_self]

theorem cleanup_server : { w.cleanup x with server := s' } = { w with server := s' }.cleanup x := by
  unfold Transfers.cleanup
  cases hptr : w.fileStream x with
  | none => rfl
  | some b =>
    dsimp only [Transfers.touch]
    cases w.reading b <;> rfl

theorem StreamInv.step (h : StreamInv w) (hflight : FlightInv w w.server.aio) (hhttp : HttpInv w)
    (hslot : SlotInv cfg w.server) (hreg : registrationWorks w.server op.label = true)
    (hreuse : reusesBelow w op = true) (hs : w.server.step cfg op.label = some s')
    (heffect : ContextEffect w s' op w1) : StreamInv { w1 with server := s' } := by
  have hslots := step_effect hslot hreg hs
  cases heffect with
  | quiet hevent =>
    refine h.server_step hflight rfl hhttp hslot hreg hs fun y hy => ?_
    simp [hy, SlotEvent.sets] at hevent
  | complete k submitted close x generation w1 hlabel hk hw =>
    obtain ⟨hserver, hflight1⟩ := hflight.complete hw
    refine (h.complete hflight hhttp hk (fun f hf => reusesBelow_file hlabel hf hreuse)
      hw).server_step hflight1 hserver hhttp hslot hreg hs fun y hy => ?_
    simp [hlabel, slotEvent] at hy
  | handle x writing state fail submitted w1 hevent hw =>
    have ht := turned_handle (hflight.pointer x) hw
    rw [hevent] at hslots
    cases hslots with
    | handle _ _ _ _ fd hx =>
      refine (h.handle hflight hhttp hx hw).server_step (hflight.turned ht) ht.server hhttp hslot
        hreg hs fun y hy => ?_
      simp [hevent] at hy
  | start x hevent =>
    rw [hevent] at hslots
    cases hslots with
    | start _ _ _ _ _ hfree =>
      obtain ⟨hnone, hidle⟩ := hhttp.free x (by simp [hfree])
      rw [detach_idle hnone hidle]
      refine h.server_step hflight rfl hhttp hslot hreg hs fun y hy => ?_
      obtain rfl := SlotEvent.start.inj (Option.some.inj (hevent.symm.trans hy))
      exact hnone
  | wipe x hevent =>
    -- the slot is out of the map before its connection is wiped
    have hlife := step_life hs
    have hstate := step_state hs x
    rw [hevent] at hslots hstate hlife
    have hserved : StreamInv { w with server := s' } :=
      h.server_step hflight rfl hhttp hslot hreg hs fun y hy =>
        absurd (hevent.symm.trans hy) (by simp)
    have hflight' : FlightInv { w with server := s' } w.server.aio := by
      refine hflight.serve fun y => (hlife y).imp id fun hnew => ?_
      exact absurd hnew.1 (by simp)
    rw [cleanup_server]
    cases hslots with
    | wipe _ hx hmap =>
      cases hstate with
      | same hother => exact absurd rfl hother
      | wiped hc =>
        refine hserved.cleanup hflight' ?_ ⟨?_, fun fd hfd => ?_⟩
        · simp [hc]
        · simp [hc]
        · exact (hslot.torn x hx).2.2.2 fd (hmap ▸ hfd)

end Step

theorem StreamInv.init (cfg : Config) : StreamInv (.init cfg) := by
  refine ⟨.empty, rfl, by simp [Transfers.init], nodup_nil, by simp [Transfers.init],
    by simp [Transfers.init], by simp [Transfers.init], by simp [Transfers.init, Ledger.empty],
    by simp [Transfers.init], by simp [Transfers.init]⟩

theorem HttpInv.init (cfg : Config) : HttpInv (.init cfg) := by
  refine ⟨by simp [Transfers.init], by simp [Transfers.init], fun x _ => ?_,
    by simp [Transfers.init, Server.init], by simp [Transfers.init, Server.init, EvPc.torn],
    fun x hx => absurd rfl hx⟩
  simp [Transfers.init, Server.init, Conn.unused]

/-- At most 2^16 slots, no failing registration, completions on the event thread only, and slots
    that begin fewer than 2^32 lives during a file read: in every run, no stream is freed twice,
    none is touched after it was freed, each writes only to the connection, slot and life, that it
    was started on, and a stream of a slot that is on the free stack has been freed or is owned by
    exactly one read in flight. -/
theorem streams_owned_once (cfg : Config) (hcap : cfg.maxConnections ≤ 2 ^ 16)
    (ops : List TransferOp) (w : Transfers)
    (hok : RunMeets (transferStep cfg)
      (onEventThread (fun w op => registrationWorks w.server op.label && reusesBelow w op) · ·)
      (.init cfg) ops)
    (hrun : run (transferStep cfg) (.init cfg) ops = some w) :
    w.streams.freed.Nodup ∧ w.faults = [] ∧
      (∀ p ∈ w.wrote, w.streams.allocated[p.1]? = some p.2) ∧
      ∀ b l, w.streams.allocated[b]? = some l → l.1 ∈ w.server.free →
        b ∈ w.streams.freed ∨ (b ∉ w.streams.freed ∧ w.flights.count (.chunk b) = 1) := by
  obtain ⟨_, _, hhttp, h⟩ : SlotInv cfg w.server ∧ FlightInv w w.server.aio ∧ HttpInv w ∧
      StreamInv w := by
    refine run_invariant (I := fun w => SlotInv cfg w.server ∧ FlightInv w w.server.aio ∧
      HttpInv w ∧ StreamInv w) (fun w op w' h hok hstep => ?_) ops _ w
      ⟨.init cfg, .init cfg, .init cfg, .init cfg⟩ hok hrun
    obtain ⟨hslot, hflight, hhttp, hstream⟩ := h
    obtain ⟨op, hok, hstep⟩ := transferStep_onEventThread hok hstep
    obtain ⟨hreg, hreuse⟩ := Bool.and_eq_true_iff.mp hok
    have hflight' := hflight.step hstep
    obtain ⟨w1, s', hs, rfl, heffect⟩ := eventStep_effect hstep
    exact ⟨hslot.move hcap hreg (step_move hs), hflight',
      hhttp.step hstream hslot hflight hreg hs heffect,
      hstream.step hflight hhttp hslot hreg hreuse hs heffect⟩
  refine ⟨h.heap.nodup, h.faults, h.wrote, fun b l hb hfree => ?_⟩
  rcases h.kept b l hb with hfreed | hflying | ⟨hptr, _⟩ | hloose
  · exact .inl hfreed
  · exact .inr ⟨(h.flying b hflying).1, count_eq_one_of_mem h.nodup hflying⟩
  · exact absurd ((hhttp.free l.1 hfree).1.symm.trans hptr) (by simp)
  · cases hloose

/-- A client connects under descriptor 3 and asks for a large file, whose first chunk is being
    read. -/
def streamAsked : List EventOp :=
  ([.accept 3, .handOver, .wait [.wakeup], .next, .message none true, .cont true, .cont true, .next,
    .next, .wait [.conn ⟨3, 0, true, false, false⟩], .next] : List Label).map .plain ++
  [⟨.io .http true false, [.streamStart, .submit]⟩] ++
  ([.io .http false false, .io .http false false, .next, .wait [.aio], .next] :
    List Label).map .plain

/-- The chunk is the last one, and the next request, already there, starts another stream. The
    connection is reaped with a chunk of it in flight: its slot is free, the first stream is freed,
    and the second one belongs to the read. -/
theorem streams_owned_once_reaped :
    let ops := streamAsked ++ [⟨.completion 0 true false, [.finish true, .streamStart, .submit]⟩] ++
      ([.next, .next, .reap 0, .cont true, .cont true, .cont true] : List Label).map .plain
    (run (transferStep ⟨2, 8⟩) (.init ⟨2, 8⟩) (ops.map .event)).map (fun w =>
        (w.streams.allocated, w.streams.freed, w.flights, w.server.free)) =
        some ([(0, 1), (0, 1)], [0], [.chunk 1], [0, 1]) ∧
      ∀ w, run (transferStep ⟨2, 8⟩) (.init ⟨2, 8⟩) (ops.map .event) = some w →
        w.streams.freed.Nodup ∧ w.faults = [] ∧
          (∀ p ∈ w.wrote, w.streams.allocated[p.1]? = some p.2) ∧
          ∀ b l, w.streams.allocated[b]? = some l → l.1 ∈ w.server.free →
            b ∈ w.streams.freed ∨ (b ∉ w.streams.freed ∧ w.flights.count (.chunk b) = 1) := by
  refine ⟨by decide +kernel, fun w hrun => ?_⟩
  exact streams_owned_once ⟨2, 8⟩ (by decide) _ w (by decide +kernel) hrun

/-- The connection in slot 0 has sent a chunk and waits for its socket. The registration of a
    second connection, in slot 1, fails: it is wiped, `pool_index` included, and stays in the map
    and the hash. A caller of `ws_close_connection` finds it; its close message drops the only
    reference and pushes slot 0 onto the free stack, whose stream is neither freed nor in
    flight. -/
theorem stream_left_on_free_slot :
    let ops := streamAsked ++ [⟨.completion 0 false false, [.chunk, .blocked]⟩] ++
      ([.next, .next, .accept 4, .handOver, .wait [.wakeup], .next, .message none true, .cont true,
        .cont false, .find (.control .close) 4, .send 0 true, .send 0 true, .message none true,
        .cont true, .cont true, .cont true] : List Label).map .plain
    (run (transferStep ⟨2, 8⟩) (.init ⟨2, 8⟩) (ops.map .event)).map (fun w =>
      (w.streams.allocated, w.streams.freed, w.flights, w.server.free)) =
        some ([(0, 1)], [], [], [0]) := by
  decide +kernel

end Portico.Loop
