/-
  Finding a connection by its descriptor when the descriptor map is too small:
  `ws_register_fd`, `ws_unregister_fd` and `ws_find_connection_by_fd` of
  src/ws/ws_event_thread.c.

  Model. `Server.step` has a map without a bound; it says which connection is registered for a
  descriptor. `stepVia` is the same event thread with a map of some size: what the map has no
  room for is not kept (`bounded`), and a lookup beyond it searches the slots for one whose `fd`
  field has the number (`searched`).

  Proved: `lookup_agrees`, the bounded thread does what the unbounded one does, and each lookup
  gives the slot that is registered, in every run in which no connection beyond the map is
  closed while a sender holds a reference to it. Such a slot keeps its `fd` for good, and the
  search finds it (`closed_connection_found`).
-/
import Portico.Loop.Slots

namespace Portico.Loop

open Portico.Lib Portico.Ws

/-! ## The bounded map -/

/-- `(int)thread->fd_map_size`; from 2^31 on it is negative and no descriptor is below it. -/
def mapBound (fdMapSize : Nat) : Nat := if fdMapSize < 2 ^ 31 then fdMapSize else 0

/-- The first slot whose connection has the descriptor. -/
def searchSlots (cfg : Config) (s : Server) (fd : Fd) : Option Slot :=
  (List.range cfg.maxConnections).find? fun x => (s.conns x).fd = some fd

def wsFindConnectionByFd (cfg : Config) (bound : Nat) (s : Server) (fd : Fd) : Option Slot :=
  if fd < bound then s.fdMap fd else searchSlots cfg s fd

def Server.withMap (s : Server) (map : Fd → Option Slot) : Server := { s with fdMap := map }

/-- The server as its lookups show it. -/
def searched (cfg : Config) (bound : Nat) (s : Server) : Server :=
  s.withMap (wsFindConnectionByFd cfg bound s)

/-- The map without what it has no room for. -/
def bounded (bound : Nat) (s : Server) : Server :=
  s.withMap fun fd => if fd < bound then s.fdMap fd else none

/-- A step with lookups by `ws_find_connection_by_fd`; `ws_register_fd` and `ws_unregister_fd`
    do nothing beyond the map. -/
def stepVia (cfg : Config) (bound : Nat) (s : Server) (a : Label) : Option Server :=
  ((searched cfg bound s).step cfg a).map (bounded bound)

/-- The condition on a step: a new connection has a number that is not registered and its
    registration with epoll works; a connection that is closed with references left is in the
    map's range. -/
def searchSafe (cfg : Config) (bound : Nat) (s : Server) : Label → Bool
  | .message _ _ =>
    match s.queue with
    | .newConnection fd :: _ => (wsFindConnectionByFd cfg bound s fd).isNone
    | _ => true
  | .cont ok =>
    match s.ev with
    | .newEpoll fd _ => (s.epollAdd fd ok).isSome
    | .unref x _ => (s.conns x).refCount = 1 || (s.conns x).fd.all (· < bound)
    | _ => true
  | _ => true

/-! ## What the `fd` fields hold -/

/-- A registered connection has its number in its slot, and beyond the map no other slot has
    it, but for the one that is being torn down. -/
structure LookupInv (bound : Nat) (s : Server) : Prop where
  own : ∀ fd x, s.fdMap fd = some x → (s.conns x).fd = some fd
  search : ∀ fd x, bound ≤ fd → (s.conns x).fd = some fd →
    s.fdMap fd = some x ∨ s.ev.torn = some x
  mark : ∀ x back, s.ev = .mark x back → ∀ fd, (s.conns x).fd = some fd → fd < bound

theorem LookupInv.init (cfg : Config) (bound : Nat) : LookupInv bound (.init cfg) :=
  ⟨fun _ _ h => absurd h (by simp [Server.init]),
    fun _ _ _ h => absurd h (by simp [Server.init, Conn.unused]),
    fun _ _ h => absurd h (by simp [Server.init])⟩

section Step

variable {cfg : Config} {bound : Nat} {s s' : Server} {a : Label}

/-- Outside the teardowns a lookup gives the registered slot. -/
theorem LookupInv.find (h : LookupInv bound s) (hslot : SlotInv cfg s) (htorn : s.ev.torn = none)
    (fd : Fd) : wsFindConnectionByFd cfg bound s fd = s.fdMap fd := by
  unfold wsFindConnectionByFd
  by_cases hfd : fd < bound
  · exact if_pos hfd
  rw [if_neg hfd]
  have hreg : ∀ x, (s.conns x).fd = some fd → s.fdMap fd = some x := fun x hx =>
    (h.search fd x (Nat.not_lt.mp hfd) hx).resolve_right (by rw [htorn]; simp)
  unfold searchSlots
  cases hfind : (List.range cfg.maxConnections).find? fun x => (s.conns x).fd = some fd with
  | some x => exact (hreg x (by simpa using List.find?_some hfind)).symm
  | none =>
    cases hmap : s.fdMap fd with
    | none => rfl
    | some x =>
      have hall := List.find?_eq_none.mp hfind x (List.mem_range.mpr (hslot.map fd x hmap).1)
      exact absurd (by simpa using h.own fd x hmap) hall

theorem registrationWorks_of_searchSafe (hsafe : searchSafe cfg bound s a = true) :
    registrationWorks s a = true := by
  cases a with
  | cont =>
    cases hev : s.ev with
    | newEpoll => simpa [searchSafe, registrationWorks, hev] using hsafe
    | _ => simp [registrationWorks, hev]
  | _ => rfl

theorem LookupInv.move (h : LookupInv bound s) (hslot : SlotInv cfg s) (hpos : 0 < bound)
    (hsafe : searchSafe cfg bound s a = true) (hm : Move cfg s a s') : LookupInv bound s' := by
  have hreg := registrationWorks_of_searchSafe hsafe
  have hown := hslot.own_move hreg hm h.own
  refine ⟨hown, fun fd x hle hx => ?_, fun x back hev fd hx => ?_⟩
  · -- a slot with the number is served, and a served slot is registered under the number it has
    have hserves : (s.conns x).fd = some fd → s'.fdMap fd = some x ∨ s'.ev.torn = some x := by
      intro hbefore
      have hnew : ∀ tls sendOk fd, a = .message tls sendOk → s.ev = .msgs →
          s.queue = .newConnection fd :: s'.queue → s.fdMap fd = none := by
        rintro tls sendOk fd rfl hev hq
        rw [← h.find hslot (by rw [hev]; rfl) fd]
        simpa [searchSafe, hq] using hsafe
      rcases hslot.serves_move hm hnew ((h.search fd x hle hbefore).imp (⟨fd, ·⟩) id)
        with hserves | ⟨back, -, hc, -⟩ | ⟨back, hev, -⟩
      · refine hserves.imp (fun ⟨fd', hmap⟩ => ?_) id
        rwa [← Option.some.inj ((hown fd' x hmap).symm.trans hx)]
      · rw [hc] at hx
        cases hx
        omega
      · exact absurd (h.mark x back hev fd hbefore) (Nat.not_lt.mpr hle)
    cases conn_move hm x with
    | same hc | counted _ hc | stated _ _ _ hc | marked _ hc =>
      rw [hc] at hx
      exact hserves hx
    | wiped _ hc =>
      rw [hc] at hx
      cases hx
      omega
    | started fd' tls _ _ _ _ hc =>
      rcases hc with ⟨hc, hmap⟩ | hc
      · rw [hc, newConn_fd] at hx
        cases hx
        exact .inl hmap
      · rw [hc] at hx
        cases hx
        omega
  · -- its number is the one it had when its reference was dropped
    have hbefore : s.ev.torn = some x → (s.conns x).fd = some fd := fun ht => by
      rw [← hx]
      exact (SlotInv.keeps Conn.fd (fun _ _ => rfl) (fun _ _ => rfl) hreg hm (hslot.torn x ht).2.1
        fun _ => by simp [hev, EvPc.torn]).symm
    rcases mark_move hm hev with hold | ⟨hold, href, ok, rfl⟩
    · exact h.mark x back hold fd (hbefore (by rw [hold]; rfl))
    · simpa [searchSafe, hold, href, hbefore (by rw [hold]; rfl)] using hsafe

/-! ## The bounded map against the unbounded one -/

/-- A thread that tears a connection down reads no map and changes none. -/
theorem step_withMap {x : Slot} (htorn : s.ev.torn = some x) (map : Fd → Option Slot) (a : Label) :
    (s.withMap map).step cfg a = (s.step cfg a).map (·.withMap map) := by
  have hev : (∃ fd back, s.ev = .hashRemove fd x back) ∨ (∃ back, s.ev = .unref x back) ∨
      ∃ back, s.ev = .mark x back := by
    cases he : s.ev <;> simp_all [EvPc.torn]
  cases a with
  | accept =>
    simp only [Server.step, Server.acceptStep, Server.withMap]
    split
    · split <;> rfl
    · rfl
  | reject | handOver | handOther | otherOpen | find =>
    simp only [Server.step, Server.rejectStep, Server.handOverStep, Server.handOtherStep,
      Server.otherOpenStep, Server.findStep, Server.withMap]
    split <;> rfl
  | otherClose =>
    simp only [Server.step, Server.otherCloseStep, Server.withMap]
    split
    · rfl
    · split <;> rfl
  | send k ok =>
    simp only [Server.step, Server.sendStep, Server.withMap]
    cases s.sends[k]? with
    | none => rfl
    | some d =>
      obtain ⟨kind, fd, slot, life, stage⟩ := d
      cases stage with
      | found =>
        cases kind with
        | data => by_cases hopen : (s.conns slot).state = .open <;> simp [hopen]
        | control c => cases c with
          | close => rfl
          | ping | pong => by_cases hopen : (s.conns slot).state = .open <;> simp [hopen]
      | checked =>
        cases kind with
        | data => rfl
        | control => by_cases hok : ok <;> simp [hok]
      | ready => by_cases hok : ok <;> simp [hok]
      | done => rfl
  | cont =>
    rcases hev with ⟨fd, back, hev⟩ | ⟨back, hev⟩ | ⟨back, hev⟩
    · simp only [Server.step, Server.contStep, Server.withMap, hev]
      rfl
    · simp only [Server.step, Server.contStep, Server.withMap, hev, Server.dropReference]
      split <;> rfl
    · simp only [Server.step, Server.contStep, Server.withMap, hev]
      rfl
  | wait | reap | next | io | message | completion =>
    -- none of them is possible inside a teardown
    rcases hev with ⟨fd, back, hev⟩ | ⟨back, hev⟩ | ⟨back, hev⟩ <;>
      simp [Server.step, Server.nextStep, Server.ioStep, Server.withMap, hev]

/-- Such a step leaves the map as it is. -/
theorem step_torn_fdMap {x : Slot} (htorn : s.ev.torn = some x) (hstep : s.step cfg a = some s') :
    s'.fdMap = s.fdMap := by
  have hsame : s.step cfg a = (s.step cfg a).map (·.withMap s.fdMap) := step_withMap htorn s.fdMap a
  rw [hstep] at hsame
  have hs' : s' = s'.withMap s.fdMap := Option.some.inj hsame
  calc s'.fdMap = (s'.withMap s.fdMap).fdMap := congrArg Server.fdMap hs'
    _ = s.fdMap := rfl

/-- A lookup does not depend on what the map has no room for. -/
theorem wsFindConnectionByFd_bounded :
    wsFindConnectionByFd cfg bound (bounded bound s) = wsFindConnectionByFd cfg bound s := by
  funext fd
  unfold wsFindConnectionByFd
  by_cases hfd : fd < bound
  · simp only [if_pos hfd, bounded, Server.withMap]
  · simp only [if_neg hfd]
    rfl

theorem searchSafe_bounded (a : Label) :
    searchSafe cfg bound (bounded bound s) a = searchSafe cfg bound s a := by
  cases a with
  | message =>
    unfold searchSafe
    rw [wsFindConnectionByFd_bounded]
    rfl
  | _ => rfl

/-- The bounded thread's step is the unbounded one's. -/
theorem stepVia_bounded (h : LookupInv bound s) (hslot : SlotInv cfg s) (a : Label) :
    stepVia cfg bound (bounded bound s) a = (s.step cfg a).map (bounded bound) := by
  have hsearched : searched cfg bound (bounded bound s) =
      s.withMap (wsFindConnectionByFd cfg bound s) := by
    unfold searched
    rw [wsFindConnectionByFd_bounded]
    rfl
  unfold stepVia
  rw [hsearched]
  cases htorn : s.ev.torn with
  | none =>
    have hmap : wsFindConnectionByFd cfg bound s = s.fdMap := funext (h.find hslot htorn)
    rw [hmap]
    rfl
  | some =>
    rw [step_withMap htorn, Option.map_map]
    cases hstep : s.step cfg a with
    | none => rfl
    | some s' =>
      refine congrArg some ?_
      -- below the bound the lookups show the map, which the step leaves alone
      have hlow : ∀ fd, (if fd < bound then wsFindConnectionByFd cfg bound s fd else none) =
          if fd < bound then s'.fdMap fd else none := fun fd => by
        unfold wsFindConnectionByFd
        rw [step_torn_fdMap htorn hstep]
        split <;> rfl
      exact congrArg s'.withMap (funext hlow)

end Step

/-- For every size of the map that the cast to `int` leaves above 0 and at most 2^16 slots: a run
    of the event thread whose steps are `searchSafe` is a run with a map that has room for every
    number, and outside the teardowns a lookup gives the slot registered there, or none. -/
theorem lookup_agrees (cfg : Config) (hcap : cfg.maxConnections ≤ 2 ^ 16) (fdMapSize : Nat)
    (hpos : 0 < mapBound fdMapSize) (labels : List Label) (t : Server)
    (hsafe : RunMeets (stepVia cfg (mapBound fdMapSize)) (searchSafe cfg (mapBound fdMapSize) · ·)
      (.init cfg) labels)
    (hrun : run (stepVia cfg (mapBound fdMapSize)) (.init cfg) labels = some t) :
    ∃ s, run (Server.step cfg) (.init cfg) labels = some s ∧ t = bounded (mapBound fdMapSize) s ∧
      (t.ev.torn = none →
        ∀ fd, wsFindConnectionByFd cfg (mapBound fdMapSize) t fd = s.fdMap fd) := by
  have hinit : bounded (mapBound fdMapSize) (.init cfg) = .init cfg :=
    congrArg (Server.init cfg).withMap (funext fun fd => ite_self none)
  rw [← hinit] at hsafe hrun
  obtain ⟨s, hs, rfl, hslot, hlookup⟩ := run_image
    (I := fun s => SlotInv cfg s ∧ LookupInv (mapBound fdMapSize) s)
    (fun s a h => stepVia_bounded h.2 h.1 a)
    (fun s a s' h hok hstep => by
      rw [searchSafe_bounded] at hok
      exact ⟨h.1.move hcap (registrationWorks_of_searchSafe hok) (step_move hstep),
        h.2.move h.1 hpos hok (step_move hstep)⟩)
    labels _ t ⟨.init cfg, .init cfg _⟩ hsafe hrun
  refine ⟨s, hs, rfl, fun htorn fd => ?_⟩
  rw [wsFindConnectionByFd_bounded]
  exact hlookup.find hslot htorn fd

/-- A map of four entries: descriptor 5 is accepted, found, and closed by the reaper. -/
theorem lookup_agrees_accept_reap :
    let labels : List Label := [.accept 5, .handOver, .wait [.wakeup], .next, .message none true,
      .cont true, .cont true, .next, .next, .find .data 5, .send 0 true, .send 0 true]
    let closing : List Label := [.reap 0, .cont true, .cont true, .cont true]
    (run (stepVia ⟨2, 8⟩ 4) (.init ⟨2, 8⟩) labels).map (wsFindConnectionByFd ⟨2, 8⟩ 4 · 5) =
        some (some 0) ∧
      (run (stepVia ⟨2, 8⟩ 4) (.init ⟨2, 8⟩) (labels ++ closing)).map
        (wsFindConnectionByFd ⟨2, 8⟩ 4 · 5) = some none ∧
      ∀ t, run (stepVia ⟨2, 8⟩ 4) (.init ⟨2, 8⟩) (labels ++ closing) = some t →
        ∃ s, run (Server.step ⟨2, 8⟩) (.init ⟨2, 8⟩) (labels ++ closing) = some s ∧
          t = bounded 4 s ∧
          (t.ev.torn = none → ∀ fd, wsFindConnectionByFd ⟨2, 8⟩ 4 t fd = s.fdMap fd) := by
  refine ⟨by decide +kernel, by decide +kernel, fun t hrun => ?_⟩
  exact lookup_agrees ⟨2, 8⟩ (by decide) 4 (by decide) _ t (by decide +kernel) hrun

/-- A sender holds a reference to the connection on descriptor 5 while the reaper closes it. The
    slot is marked closed and keeps the number, so the search still finds it; the map would have
    nothing there. -/
theorem closed_connection_found :
    let labels : List Label := [.accept 5, .handOver, .wait [.wakeup], .next, .message none true,
      .cont true, .cont true, .next, .next, .find .data 5, .reap 0, .cont true, .cont true,
      .cont true, .cont true, .send 0 true, .send 0 true]
    (run (stepVia ⟨2, 8⟩ 4) (.init ⟨2, 8⟩) labels).map (fun t =>
        (t.ev, t.sends.length, wsFindConnectionByFd ⟨2, 8⟩ 4 t 5)) = some (.top, 0, some 0) ∧
      (run (Server.step ⟨2, 8⟩) (.init ⟨2, 8⟩) labels).map (fun s =>
        (s.ev, s.sends.length, s.fdMap 5)) = some (.top, 0, none) := by
  decide +kernel

end Portico.Loop
