/-
  The callbacks `on_connect` and `on_disconnect`: `portico_initial_dispatch` of
  src/http/connection.c, `close_connection` of src/ws/ws_connection_handler.c and
  `process_close_message` of src/ws/ws_message_processor.c.

  Model. `callStep` is a step of the server that notes the calls, each with the life it is made
  for; both callbacks are set. `on_connect` is called when a handler opens a connection,
  `on_disconnect` by `close_connection` when the descriptor is registered, whatever the
  connection was; `process_close_message` calls only `on_close`.

  Proved: `callbacks_paired`, for a connection that ends as it began: one that finished the
  WebSocket handshake by `close_connection`, any other by a close message. The two other ways
  are not paired (`open_connection_dropped`): a close message takes an open connection away
  without `on_disconnect`, and the end of an HTTP connection is reported although its start was
  not.
-/
import Portico.Loop.SlotEvents

namespace Portico.Loop

open Portico.Lib Portico.Ws List

structure Calls where
  server : Server
  connected : List Life
  disconnected : List Life

def Calls.init (cfg : Config) : Calls := ⟨.init cfg, [], []⟩

/-- The handler, if one runs, leaves its connection in a state it can leave it in. -/
def handlerFits (s : Server) : Option SlotEvent → Bool
  | some (.handle x writing state _) => handlerLeaves writing (s.conns x).state state
  | _ => true

/-- The calls of `on_connect`. -/
def connectCalls (s : Server) : Option SlotEvent → List Life
  | some (.handle x _ state _) =>
    if (s.conns x).state ≠ .open ∧ state = .open then [s.lifeOf x] else []
  | _ => []

/-- The calls of `on_disconnect`. -/
def disconnectCalls (s : Server) : Option SlotEvent → List Life
  | some (.close x) => [s.lifeOf x]
  | _ => []

def callStep (cfg : Config) (w : Calls) (a : Label) : Option Calls :=
  let event := slotEvent w.server a
  if handlerFits w.server event then
    (w.server.step cfg a).map fun s' =>
      { server := s', connected := w.connected ++ connectCalls w.server event,
        disconnected := w.disconnected ++ disconnectCalls w.server event }
  else none

/-- The condition on one connection: `close_connection` ends it only after the WebSocket
    handshake, a close message only before. -/
def endsAsItBegan (l : Life) (s : Server) (a : Label) : Bool :=
  match slotEvent s a with
  | some (.close x) => s.lifeOf x ≠ l || (s.conns x).upgraded
  | some (.drop x) => s.lifeOf x ≠ l || !(s.conns x).upgraded
  | _ => true

/-- Calls are made for lives up to the current one; `on_disconnect` at most once for each, and
    not for a registered connection; a registered connection has had its `on_connect` if it has
    finished the handshake. `ended` and `only` are about the connection `l`. -/
structure CallInv (l : Life) (w : Calls) : Prop where
  past : ∀ k, k ∈ w.connected ∨ k ∈ w.disconnected → k.2 ≤ (w.server.conns k.1).life
  nodup : w.disconnected.Nodup
  fresh : ∀ fd x, w.server.fdMap fd = some x → w.server.lifeOf x ∉ w.disconnected
  opened : ∀ fd x, w.server.fdMap fd = some x →
    (w.server.lifeOf x ∈ w.connected ↔ (w.server.conns x).upgraded = true)
  ended : l ∈ w.connected → l ∈ w.disconnected ∨ w.server.Current l
  only : l ∈ w.disconnected → l ∈ w.connected

theorem CallInv.init (l : Life) (cfg : Config) : CallInv l (.init cfg) := by
  refine ⟨fun k hk => ?_, nodup_nil, fun fd x hx => ?_, fun fd x hx => ?_, fun h => ?_,
    fun h => ?_⟩
  · simp [Calls.init] at hk
  · simp [Calls.init, Server.init] at hx
  · simp [Calls.init, Server.init] at hx
  · simp [Calls.init] at h
  · simp [Calls.init] at h

section Step

variable {l : Life} {w : Calls} {s' : Server} {writing : Bool} {x : Slot} {state : WsState}

/-- No call is made, and what is registered after the step was registered before it. -/
theorem CallInv.quiet (h : CallInv l w)
    (hmap : ∀ fd x, s'.fdMap fd = some x → w.server.fdMap fd = some x)
    (hlife : ∀ x, (s'.conns x).life = (w.server.conns x).life)
    (hstate : ∀ fd x, s'.fdMap fd = some x → (s'.conns x).upgraded = (w.server.conns x).upgraded)
    (hcurrent : l ∈ w.connected → w.server.Current l → s'.Current l) :
    CallInv l ⟨s', w.connected, w.disconnected⟩ := by
  refine ⟨fun k hk => ?_, h.nodup, fun fd x hx => ?_, fun fd x hx => ?_, fun hl => ?_, h.only⟩
  · show k.2 ≤ (s'.conns k.1).life
    rw [hlife]
    exact h.past k hk
  · show s'.lifeOf x ∉ w.disconnected
    rw [lifeOf_eq (hlife x)]
    exact h.fresh fd x (hmap fd x hx)
  · show s'.lifeOf x ∈ w.connected ↔ (s'.conns x).upgraded = true
    rw [lifeOf_eq (hlife x), hstate fd x hx]
    exact h.opened fd x (hmap fd x hx)
  · exact (h.ended hl).imp id (hcurrent hl)

/-- A handler that opens the connection calls `on_connect`; no other changes whether the
    handshake is done. -/
theorem handlerLeaves_upgraded {c c' : Conn} (h : handlerLeaves writing c.state c'.state = true) :
    c'.upgraded = true ↔ c.upgraded = true ∨ (c.state ≠ .open ∧ c'.state = .open) := by
  unfold Conn.upgraded
  revert h
  cases c.state <;> cases c'.state <;> cases writing <;> simp [handlerLeaves]

theorem mem_connectCalls {s : Server} {fail : Bool} {k : Life} :
    k ∈ connectCalls s (some (.handle x writing state fail)) ↔
      k = s.lifeOf x ∧ (s.conns x).state ≠ .open ∧ state = .open := by
  simp only [connectCalls]
  split
  · rename_i hopen
    simp [hopen]
  · rename_i hopen
    simp [hopen]

variable {cfg : Config} {a : Label} {w' : Calls}

theorem CallInv.handle (h : CallInv l w) (hslot : SlotInv cfg w.server) {fd : Fd} {fail : Bool}
    (hx : w.server.fdMap fd = some x)
    (hfits : handlerLeaves writing (w.server.conns x).state state = true)
    (hmap : s'.fdMap = w.server.fdMap) (hlife : ∀ y, (s'.conns y).life = (w.server.conns y).life)
    (hstate : (s'.conns x).state = state) (hother : ∀ y, y ≠ x → s'.conns y = w.server.conns y)
    (hcurrent : w.server.Current l → s'.Current l) :
    CallInv l ⟨s', w.connected ++ connectCalls w.server (some (.handle x writing state fail)),
      w.disconnected⟩ := by
  rw [← hstate] at hfits ⊢
  refine ⟨fun k hk => ?_, h.nodup, fun fd' y hy => ?_, fun fd' y hy => ?_, fun hl => ?_,
    fun hl => mem_append_left _ (h.only hl)⟩
  · show k.2 ≤ (s'.conns k.1).life
    rw [hlife]
    rcases hk with hk | hk
    · rcases mem_append.mp hk with hk | hk
      · exact h.past k (.inl hk)
      · rw [(mem_connectCalls.mp hk).1]
        exact Nat.le_refl _
    · exact h.past k (.inr hk)
  · show s'.lifeOf y ∉ w.disconnected
    rw [lifeOf_eq (hlife y)]
    exact h.fresh fd' y (hmap ▸ hy)
  · have hy : w.server.fdMap fd' = some y := hmap ▸ hy
    show s'.lifeOf y ∈ w.connected ++ _ ↔ (s'.conns y).upgraded = true
    rw [lifeOf_eq (hlife y), mem_append, mem_connectCalls, h.opened fd' y hy]
    by_cases hyx : y = x
    · rw [hyx, handlerLeaves_upgraded hfits]
      simp only [true_and]
    · rw [hother y hyx]
      simp [lifeOf_ne hyx]
  · rcases mem_append.mp hl with hl | hl
    · exact (h.ended hl).imp id hcurrent
    · have he : l = w.server.lifeOf x := (mem_connectCalls.mp hl).1
      exact .inr (hcurrent (he ▸ hslot.current hx))

theorem CallInv.start (h : CallInv l w) (hlife : (s'.conns x).life = (w.server.conns x).life + 1)
    (hstate : (s'.conns x).upgraded = false) (hother : ∀ y, y ≠ x → s'.conns y = w.server.conns y)
    (hmap : ∀ fd y, s'.fdMap fd = some y → y = x ∨ w.server.fdMap fd = some y)
    (hcurrent : w.server.Current l → s'.Current l) :
    CallInv l ⟨s', w.connected, w.disconnected⟩ := by
  -- no call has been made for the new life
  have hnew : ∀ calls : List Life, (∀ k ∈ calls, k ∈ w.connected ∨ k ∈ w.disconnected) →
      s'.lifeOf x ∉ calls := fun calls hcalls hmem => by
    have hle : (s'.conns x).life ≤ (w.server.conns x).life := h.past _ (hcalls _ hmem)
    omega
  have hsame : ∀ {y}, y ≠ x → s'.lifeOf y = w.server.lifeOf y := fun hy =>
    lifeOf_eq (by rw [hother _ hy])
  refine ⟨fun k hk => ?_, h.nodup, fun fd y hy => ?_, fun fd y hy => ?_, fun hl => ?_, h.only⟩
  · have hle := h.past k hk
    show k.2 ≤ (s'.conns k.1).life
    by_cases hkx : k.1 = x
    · rw [hkx] at hle
      rw [hkx, hlife]
      omega
    · rw [hother _ hkx]
      exact hle
  · show s'.lifeOf y ∉ w.disconnected
    by_cases hyx : y = x
    · rw [hyx]
      exact hnew _ (fun k hk => .inr hk)
    · rw [hsame hyx]
      exact h.fresh fd y ((hmap fd y hy).resolve_left hyx)
  · show s'.lifeOf y ∈ w.connected ↔ (s'.conns y).upgraded = true
    by_cases hyx : y = x
    · rw [hyx, hstate]
      exact iff_of_false (hnew _ (fun k hk => .inl hk)) (by simp)
    · rw [hsame hyx, hother y hyx]
      exact h.opened fd y ((hmap fd y hy).resolve_left hyx)
  · exact (h.ended hl).imp id hcurrent

theorem CallInv.close (h : CallInv l w) (hslot : SlotInv cfg w.server) {fd : Fd}
    (hx : w.server.fdMap fd = some x) (hends : w.server.lifeOf x = l →
      (w.server.conns x).upgraded = true) (hmap : s'.fdMap = Function.update w.server.fdMap fd none)
    (hconns : s'.conns = w.server.conns)
    (hcurrent : w.server.lifeOf x ≠ l → w.server.Current l → s'.Current l) :
    CallInv l ⟨s', w.connected, w.disconnected ++ [w.server.lifeOf x]⟩ := by
  have hlife : ∀ y, s'.lifeOf y = w.server.lifeOf y := fun y => lifeOf_eq (by rw [hconns])
  refine ⟨fun k hk => ?_, ?_, fun fd' y hy => ?_, fun fd' y hy => ?_, fun hl => ?_, fun hl => ?_⟩
  · show k.2 ≤ (s'.conns k.1).life
    rw [hconns]
    rcases hk with hk | hk
    · exact h.past k (.inl hk)
    · rcases mem_append.mp hk with hk | hk
      · exact h.past k (.inr hk)
      · rw [mem_singleton.mp hk]
        exact Nat.le_refl _
  · show (w.disconnected ++ [w.server.lifeOf x]).Nodup
    refine nodup_append.mpr ⟨h.nodup, by simp, fun k hk k' hk' => ?_⟩
    rw [mem_singleton.mp hk']
    rintro rfl
    exact h.fresh fd x hx hk
  · obtain ⟨hy, hyx⟩ := hslot.ne_of_unregister hx (hmap ▸ hy)
    show s'.lifeOf y ∉ w.disconnected ++ _
    rw [hlife, mem_append, mem_singleton, not_or]
    exact ⟨h.fresh fd' y hy, lifeOf_ne hyx⟩
  · obtain ⟨hy, _⟩ := hslot.ne_of_unregister hx (hmap ▸ hy)
    show s'.lifeOf y ∈ w.connected ↔ (s'.conns y).upgraded = true
    rw [hlife, hconns]
    exact h.opened fd' y hy
  · show l ∈ w.disconnected ++ _ ∨ _
    by_cases he : l = w.server.lifeOf x
    · exact .inl (by simp [he])
    · exact (h.ended hl).imp (mem_append_left _) (hcurrent (Ne.symm he))
  · rcases mem_append.mp hl with hl | hl
    · exact h.only hl
    · have he : l = w.server.lifeOf x := mem_singleton.mp hl
      show l ∈ w.connected
      rw [he, h.opened fd x hx]
      exact hends he.symm

theorem CallInv.step (h : CallInv l w) (hslot : SlotInv cfg w.server)
    (hreg : registrationWorks w.server a = true) (hends : endsAsItBegan l w.server a = true)
    (hstep : callStep cfg w a = some w') : CallInv l w' := by
  simp only [callStep] at hstep
  split at hstep
  · rename_i hfits
    obtain ⟨s', hs, rfl⟩ := Option.map_eq_some_iff.mp hstep
    have heffect := step_effect hslot hreg hs
    unfold endsAsItBegan at hends
    generalize slotEvent w.server a = event at hfits heffect hends ⊢
    have hcurrent := heffect.current (l := l)
    cases heffect with
    | quiet hmap hlife hstate =>
      simp only [connectCalls, disconnectCalls, append_nil]
      refine h.quiet (fun fd x hx => hmap ▸ hx) hlife (fun fd x hx => hstate fd x (hmap ▸ hx))
        fun _ hcur => hcurrent hcur (by simp) (by simp)
    | handle x writing state fail fd hx hmap hlife hstate hother =>
      simp only [disconnectCalls, append_nil]
      exact h.handle hslot hx hfits hmap hlife hstate hother
        fun hcur => hcurrent hcur (by simp) (by simp)
    | start x hlife hstate hother hmap =>
      simp only [connectCalls, disconnectCalls, append_nil]
      exact h.start hlife hstate hother hmap fun hcur => hcurrent hcur (by simp) (by simp)
    | close x fd hx hmap hconns =>
      simp only [connectCalls, disconnectCalls, append_nil]
      exact h.close hslot hx (fun he => by simpa [he] using hends) hmap hconns
        fun hne hcur => hcurrent hcur (by simpa using hne) (by simp)
    | drop x fd hx hmap hconns =>
      simp only [connectCalls, disconnectCalls, append_nil]
      refine h.quiet (fun fd' y hy => (of_update_none (hmap ▸ hy)).2) (fun y => by rw [hconns])
        (fun fd' y _ => by rw [hconns]) fun hl hcur => hcurrent hcur (by simp) ?_
      rintro y ⟨⟩ he
      -- a connection that has been reported is not one a close message may take
      have hup : (w.server.conns x).upgraded = true := (h.opened fd x hx).mp (he ▸ hl)
      simp [he, hup] at hends
    | wipe x hx hmap hlife hother =>
      simp only [connectCalls, disconnectCalls, append_nil]
      refine h.quiet (fun fd y hy => hmap ▸ hy) hlife (fun fd y hy => ?_)
        fun _ hcur => hcurrent hcur (by simp) (by simp)
      rw [hother y (hslot.ne_of_torn (hmap ▸ hy) hx)]
  · cases hstep

theorem callStep_server (h : callStep cfg w a = some w') :
    w.server.step cfg a = some w'.server := by
  simp only [callStep] at h
  split at h
  · obtain ⟨s', hs, rfl⟩ := Option.map_eq_some_iff.mp h
    exact hs
  · cases h

end Step

/-- At most 2^16 slots, no failing registration, and a connection `l` that ends as it began: it
    gets at most one `on_disconnect`; exactly one if it got an `on_connect` and its slot is free
    or has a new connection; and none if it got no `on_connect`. -/
theorem callbacks_paired (cfg : Config) (hcap : cfg.maxConnections ≤ 2 ^ 16) (l : Life)
    (labels : List Label) (w : Calls)
    (hok : RunMeets (callStep cfg)
      (fun w a => registrationWorks w.server a && endsAsItBegan l w.server a) (.init cfg) labels)
    (hrun : run (callStep cfg) (.init cfg) labels = some w) :
    w.disconnected.count l ≤ 1 ∧
      (l ∈ w.connected → (w.server.conns l.1).life ≠ l.2 ∨ l.1 ∈ w.server.free →
        w.disconnected.count l = 1) ∧
      (l ∉ w.connected → w.disconnected.count l = 0) := by
  obtain ⟨hslot, h⟩ : SlotInv cfg w.server ∧ CallInv l w := by
    refine run_invariant (I := fun w => SlotInv cfg w.server ∧ CallInv l w)
      (fun w a w' h hok hstep => ?_) labels _ w ⟨.init cfg, .init l cfg⟩ hok hrun
    obtain ⟨hreg, hends⟩ := Bool.and_eq_true_iff.mp hok
    exact ⟨h.1.move hcap hreg (step_move (callStep_server hstep)), h.2.step h.1 hreg hends hstep⟩
  refine ⟨nodup_iff_count_le_one.mp h.nodup l, fun hl hend => ?_, fun hl => ?_⟩
  · rcases h.ended hl with hd | hcur
    · exact count_eq_one_of_mem h.nodup hd
    · exact absurd hend (not_or.mpr ⟨not_not.mpr hcur.1, hcur.2.1⟩)
  · exact count_eq_zero.mpr fun hd => hl (h.only hd)

/-- A connection on descriptor 3 becomes a WebSocket; its next read fails and it is closed. -/
def openedThenClosed : List Label :=
  [.accept 3, .handOver, .wait [.wakeup], .next, .message none true, .cont true, .cont true, .next,
    .next, .wait [.conn ⟨3, 0, true, false, false⟩], .next, .io .open false false,
    .io .open false false, .io .open false false, .next,
    .wait [.conn ⟨3, 0, true, false, false⟩], .next, .io .closing false true, .cont true,
    .cont true, .cont true]

theorem callbacks_paired_closed :
    (run (callStep ⟨2, 8⟩) (.init ⟨2, 8⟩) openedThenClosed).map (fun w =>
        (w.connected, w.disconnected, w.server.free)) = some ([(0, 1)], [(0, 1)], [0, 1]) ∧
      ∀ w, run (callStep ⟨2, 8⟩) (.init ⟨2, 8⟩) openedThenClosed = some w →
        w.disconnected.count (0, 1) ≤ 1 ∧
          ((0, 1) ∈ w.connected → (w.server.conns 0).life ≠ 1 ∨ 0 ∈ w.server.free →
            w.disconnected.count (0, 1) = 1) ∧
          ((0, 1) ∉ w.connected → w.disconnected.count (0, 1) = 0) := by
  refine ⟨by decide +kernel, fun w hrun => ?_⟩
  exact callbacks_paired ⟨2, 8⟩ (by decide) (0, 1) _ w (by decide +kernel) hrun

/-- The same WebSocket is closed by `ws_close_connection`: its slot is free and there was no
    `on_disconnect`. An HTTP connection is reaped: an `on_disconnect` without `on_connect`. -/
theorem open_connection_dropped :
    let start : List Label := [.accept 3, .handOver, .wait [.wakeup], .next, .message none true,
      .cont true, .cont true, .next, .next, .wait [.conn ⟨3, 0, true, false, false⟩], .next]
    let closeMessage : List Label := [.io .open false false, .io .open false false,
      .io .open false false, .next, .find (.control .close) 3, .send 0 true, .send 0 true,
      .send 0 true, .wait [.wakeup], .next, .message none true, .cont true, .cont true, .cont true]
    let httpReaped : List Label := [.io .http false false, .io .http false false,
      .io .http false false, .next, .reap 0, .cont true, .cont true, .cont true]
    (run (callStep ⟨2, 8⟩) (.init ⟨2, 8⟩) (start ++ closeMessage)).map (fun w =>
        (w.connected, w.disconnected, w.server.free)) = some ([(0, 1)], [], [0, 1]) ∧
      (run (callStep ⟨2, 8⟩) (.init ⟨2, 8⟩) (start ++ httpReaped)).map (fun w =>
        (w.connected, w.disconnected, w.server.free)) = some ([], [(0, 1)], [0, 1]) := by
  decide +kernel

end Portico.Loop
