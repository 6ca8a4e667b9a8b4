/-
  The slots of an event thread: no slot serves two connections.

  `SlotInv`: the free stack holds every index at most once, no registered slot is on it, and no
  slot is registered under two descriptors; a slot on its way out is neither free nor
  registered; and a slot in use has its own number in `pool_index`.

  Proved: `slots_never_shared`, for threads of at most 2^16 slots whose new connections all get
  registered with epoll. `pool_index` has 16 bits: with more slots the last field of the
  invariant fails, and closing slot 65536 puts slot 0 on the free stack while it is in use
  (`closing_slot_65536_frees_slot_0`).
-/
import Portico.Loop.Moves

namespace Portico.Loop

open Portico.Lib Portico.Ws
open Function (update update_eq_self update_of_ne update_self)

/-- The slot of a connection that is no longer registered and still being torn down. -/
def EvPc.torn : EvPc → Option Slot
  | .hashRemove _ x _ => some x
  | .unref x _ => some x
  | .mark x _ => some x
  | _ => none

/-- A registered connection that a close message tears down or that is being set up. -/
def EvPc.working : EvPc → Option (Fd × Slot)
  | .closeHash fd x => some (fd, x)
  | .closeRelease fd x => some (fd, x)
  | .newHash fd x => some (fd, x)
  | .newEpoll fd x => some (fd, x)
  | _ => none

@[simp] theorem Back.torn_pc (b : Back) : b.pc.torn = none := by cases b <;> rfl

@[simp] theorem Back.working_pc (b : Back) : b.pc.working = none := by cases b <;> rfl

structure SlotInv (cfg : Config) (s : Server) : Prop where
  nodup : s.free.Nodup
  bound : ∀ x ∈ s.free, x < cfg.maxConnections
  map : ∀ fd x, s.fdMap fd = some x →
    x < cfg.maxConnections ∧ x ∉ s.free ∧ (s.conns x).poolIndex = x
  inj : ∀ fd fd' x, s.fdMap fd = some x → s.fdMap fd' = some x → fd = fd'
  torn : ∀ x, s.ev.torn = some x → x < cfg.maxConnections ∧ x ∉ s.free ∧
    (s.conns x).poolIndex = x ∧ ∀ fd, s.fdMap fd ≠ some x
  working : ∀ fd x, s.ev.working = some (fd, x) → s.fdMap fd = some x

/-- A new connection's registration with epoll does not fail. -/
def registrationWorks (s : Server) (a : Label) : Bool :=
  match a, s.ev with
  | .cont ok, .newEpoll fd _ => (s.epollAdd fd ok).isSome
  | _, _ => true

variable {fd fd' : Fd} {x y : Slot} {cfg : Config} {s : Server}

section Step

variable {cfg : Config} {s s' : Server} {a : Label}

theorem SlotInv.ne_of_free (h : SlotInv cfg s) {rest : List Slot} (hy : s.fdMap fd = some y)
    (hfree : s.free = x :: rest) : y ≠ x := by
  rintro rfl
  exact (h.map fd y hy).2.1 (by simp [hfree])

theorem SlotInv.ne_of_torn (h : SlotInv cfg s) (hy : s.fdMap fd = some y)
    (hx : s.ev.torn = some x) : y ≠ x := by
  rintro rfl
  exact (h.torn y hx).2.2.2 fd hy

/-- What is in the map without `fd` was in it under another number. -/
theorem of_update_none (h : update s.fdMap fd none fd' = some y) :
    fd' ≠ fd ∧ s.fdMap fd' = some y :=
  of_update (by simp) h

/-- What is in the map with `fd` added is the new entry or one of another number. -/
theorem of_update_some (h : update s.fdMap fd (some x) fd' = some y) :
    (fd' = fd ∧ y = x) ∨ (fd' ≠ fd ∧ s.fdMap fd' = some y) := by
  by_cases he : fd' = fd
  · rw [he, update_self] at h
    exact .inl ⟨he, (Option.some.inj h).symm⟩
  · rw [update_of_ne he] at h
    exact .inr ⟨he, h⟩

theorem ne_of_unregistered (hfd : s.fdMap fd = none) (hy : s.fdMap fd' = some y) : fd' ≠ fd := by
  rintro rfl
  simp [hfd] at hy

/-! ## What a step does to the slots -/

/-- What a step does to the connection in slot `x`. -/
inductive ConnMove (s : Server) (a : Label) (s' : Server) (x : Slot) : Prop
  | same (h : s'.conns x = s.conns x)
  | counted (n : Int) (h : s'.conns x = { s.conns x with refCount := n })
  | stated (state : WsState) (fd : Fd) (hx : s.fdMap fd = some x)
      (h : s'.conns x = { s.conns x with state := state })
  | marked (hx : s.ev.torn = some x) (h : s'.conns x = { s.conns x with state := .closed })
  | wiped (hwhy : s.ev.torn = some x ∧ s'.ev.torn = none ∨ registrationWorks s a = false)
      (h : s'.conns x = wsConnectionCleanup (s.conns x))
  | started (fd : Fd) (tls : Option Bool) (sendOk : Bool) (ha : a = .message tls sendOk)
      (hq : s.queue = .newConnection fd :: s'.queue) (hfree : s.free = x :: s'.free)
      (h : (s'.conns x = newConn s fd x tls ∧ s'.fdMap fd = some x) ∨
        s'.conns x = wsConnectionCleanup (newConn s fd x none))

/-- What a step does to the map, the free stack and the slot that is being torn down. -/
inductive SlotMove (cfg : Config) (s : Server) (a : Label) (s' : Server) : Prop
  | stay (hmap : s'.fdMap = s.fdMap) (hfree : s'.free = s.free) (htorn : s'.ev.torn = s.ev.torn)
  | start (x : Slot) (fd : Fd) (tls : Option Bool) (sendOk : Bool) (ha : a = .message tls sendOk)
      (hev : s.ev = .msgs) (hq : s.queue = .newConnection fd :: s'.queue)
      (hfree : s.free = x :: s'.free)
      (hmap : (s'.fdMap = s.fdMap ∧ tls = some false) ∨
        (s'.fdMap = update s.fdMap fd (some x) ∧ s'.conns x = newConn s fd x tls))
      (htorn : s'.ev.torn = none)
  | leave (x : Slot) (fd : Fd) (hbefore : s.ev.torn = none) (hx : s.fdMap fd = some x)
      (hmap : s'.fdMap = update s.fdMap fd none) (hfree : s'.free = s.free)
      (htorn : s'.ev.torn = some x)
  | wipe (x : Slot) (back : Back) (hev : s.ev = .unref x back) (hmap : s'.fdMap = s.fdMap)
      (hfree : s'.free = if s.free.length < cfg.maxConnections then
        (s.conns x).poolIndex :: s.free else s.free)
      (hconn : s'.conns x = wsConnectionCleanup (s.conns x)) (htorn : s'.ev.torn = none)
  | mark (x : Slot) (back : Back) (hev : s.ev = .mark x back) (hmap : s'.fdMap = s.fdMap)
      (hfree : s'.free = s.free) (hconn : s'.conns x = { s.conns x with state := .closed })
      (htorn : s'.ev.torn = none)

/-- What a step does to the queue of messages. -/
inductive QueueMove (s : Server) (a : Label) (s' : Server) : Prop
  | same (h : s'.queue = s.queue)
  | pop (m : Msg) (h : s.queue = m :: s'.queue)
  | handOver (fd : Fd) (hacc : s.accepted = some fd) (h : s'.queue = s.queue ++ [.newConnection fd])
  | control (k : Nat) (d : Send) (c : Control) (ha : a = .send k true) (hd : s.sends[k]? = some d)
      (hstage : d.stage = .checked) (hkind : d.kind = .control c)
      (h : s'.queue = s.queue ++ [.control c d.fd d.slot d.life])
  | data (k : Nat) (d : Send) (generation : Nat) (hd : s.sends[k]? = some d)
      (hstage : d.stage = .ready generation)
      (h : s'.queue = s.queue ++ [.data d.fd d.slot generation d.life])

theorem queue_move (hm : Move cfg s a s') : QueueMove s a s' := by
  cases hm with
  | handOver fd hacc => exact .handOver fd hacc rfl
  | queueControl k d c hd hstage hkind => exact .control k d c rfl hd hstage hkind rfl
  | queueData k d generation hd hstage => exact .data k d generation hd hstage rfl
  | noSlot _ _ _ _ _ hq | tlsFail _ _ _ _ _ _ hq | register _ _ _ _ _ _ _ hq
  | dropData _ _ _ _ _ _ _ _ hq | deliver _ _ _ _ _ _ _ _ _ _ hq
  | noTarget _ _ _ _ _ _ _ _ hq | act _ _ _ _ _ _ _ _ _ _ hq => exact .pop _ hq
  | _ => exact .same rfl

theorem conn_move (hm : Move cfg s a s') (x : Slot) : ConnMove s a s' x := by
  -- one connection changes
  have hset : ∀ {y : Slot} {c : Conn}, s'.conns = (s.setConn y c).conns →
      (x = y → s'.conns x = c → ConnMove s a s' x) → ConnMove s a s' x := by
    intro y c hconns hself
    by_cases hxy : x = y
    · exact hself hxy (by rw [hconns, hxy, Server.setConn_self])
    · exact .same (by rw [hconns, Server.setConn_of_ne s c hxy])
  cases hm with
  | find _ _ y | unrefShared _ y =>
    exact hset (y := y) rfl (by rintro rfl h; exact .counted _ h)
  | dropRef _ _ d => exact hset (y := d.slot) rfl (by rintro rfl h; exact .counted _ h)
  | handle _ _ _ e y _ hmap => exact hset (y := y) rfl (by rintro rfl h; exact .stated _ _ hmap h)
  | deliver _ _ fd _ y _ _ _ _ _ _ _ _ hmap hc =>
    refine hset (y := y) rfl ?_
    rintro rfl h
    rcases hc with rfl | rfl
    · exact .same h
    · exact .stated _ fd hmap h
  | mark _ y _ hev =>
    exact hset (y := y) rfl (by rintro rfl h; exact .marked (by rw [hev]; rfl) h)
  | unrefLast _ y back _ hev =>
    refine hset (y := y) rfl ?_
    rintro rfl h
    exact .wiped (.inl ⟨by rw [hev]; rfl, Back.torn_pc back⟩) h
  | pollFail _ _ y hev hadd =>
    refine hset (y := y) rfl ?_
    rintro rfl h
    exact .wiped (.inr (by simp [registrationWorks, hev, hadd])) h
  | tlsFail sendOk fd _ y _ _ hq hfree =>
    refine hset (y := y) rfl ?_
    rintro rfl h
    exact .started fd _ sendOk rfl hq hfree (.inr h)
  | register tls sendOk fd _ y _ _ hq hfree =>
    refine hset (y := y) rfl ?_
    rintro rfl h
    exact .started fd tls sendOk rfl hq hfree (.inl ⟨h, update_self _ _ _⟩)
  | _ => exact .same rfl

theorem slot_move (hworking : ∀ fd x, s.ev.working = some (fd, x) → s.fdMap fd = some x)
    (hm : Move cfg s a s') : SlotMove cfg s a s' := by
  cases hm with
  | accept | reject | handOver | handOther | otherOpen | otherClose | find | check | readGeneration
  | queueControl | queueData | dropRef | noSlot | dropData | deliver | noTarget | complete =>
    exact .stay rfl rfl rfl
  | wait | reap | batchEnd | takeWakeup | takeAio | takeConn | stale | hangup | completeClose
  | hashRemove | unrefShared | closeHash | insert | insertFail | poll | pollFail =>
    exact .stay rfl rfl (by simp [*, Server.goTo, EvPc.torn])
  | loopEnd hev => exact .stay rfl rfl (by rcases hev with hev | hev <;> rw [hev] <;> rfl)
  | pass _ _ _ _ _ hpc =>
    rcases hpc with ⟨hev, rfl⟩ | ⟨hev, rfl⟩ | ⟨hev | hev, rfl⟩ <;>
      exact .stay rfl rfl (by rw [hev]; rfl)
  | handle _ _ _ _ _ _ _ hpc =>
    rcases hpc with ⟨hev | hev, rfl⟩ | ⟨hev, rfl⟩ | ⟨hev, rfl⟩ <;>
      exact .stay rfl rfl (by rw [hev]; rfl)
  | act _ _ _ _ _ _ _ _ _ hev _ _ hpc =>
    rcases hpc with ⟨_, rfl⟩ | ⟨_, rfl⟩ <;> exact .stay rfl rfl (by rw [hev]; rfl)
  | releaseUnknown _ fd _ back hev hmap =>
    refine .stay ?_ rfl ((Back.torn_pc back).trans (by rw [hev]; rfl))
    exact (congrArg _ hmap.symm).trans (update_eq_self fd s.fdMap)
  | tlsFail _ fd _ x _ hev hq hfree =>
    exact .start x fd _ _ rfl hev hq hfree (.inl ⟨rfl, rfl⟩) (congrArg EvPc.torn hev)
  | register _ _ fd _ x _ hev hq hfree =>
    exact .start x fd _ _ rfl hev hq hfree (.inr ⟨rfl, update_self x _ s.conns⟩) rfl
  | release _ fd _ _ x hev hmap => exact .leave x fd (by rw [hev]; rfl) hmap rfl rfl rfl
  | closeRelease _ fd x hev =>
    exact .leave x fd (by rw [hev]; rfl) (hworking fd x (by rw [hev]; rfl)) rfl rfl rfl
  | unrefLast _ x back _ hev _ hfree =>
    exact .wipe x back hev rfl hfree (update_self x _ s.conns) (Back.torn_pc back)
  | mark _ x back hev =>
    exact .mark x back hev rfl rfl (update_self x _ s.conns) (Back.torn_pc back)

/-- What the event thread works on is registered. -/
theorem working_move (h : SlotInv cfg s) (hm : Move cfg s a s') (fd : Fd) (x : Slot)
    (hx : s'.ev.working = some (fd, x)) : s'.fdMap fd = some x := by
  cases hm with
  | wait | reap | batchEnd | takeWakeup | takeAio | takeConn | loopEnd | stale | hangup
  | completeClose | release | closeRelease | hashRemove | unrefShared | poll | pollFail => cases hx
  | pass _ _ _ _ _ hpc => rcases hpc with ⟨_, rfl⟩ | ⟨_, rfl⟩ | ⟨_, rfl⟩ <;> cases hx
  | handle _ _ _ _ _ _ _ hpc => rcases hpc with ⟨_, rfl⟩ | ⟨_, rfl⟩ | ⟨_, rfl⟩ <;> cases hx
  | act _ _ _ _ _ _ _ _ _ _ _ hmap hpc =>
    rcases hpc with ⟨_, rfl⟩ | ⟨_, rfl⟩ <;> cases hx
    exact hmap
  | register =>
    cases hx
    exact update_self _ _ _
  | closeHash _ _ _ hev | insert _ _ hev | insertFail _ _ hev =>
    cases hx
    exact h.working fd x (by rw [hev]; rfl)
  | releaseUnknown _ _ _ back | unrefLast _ _ back | mark _ _ back =>
    exact absurd ((Back.working_pc back).symm.trans hx) (by simp)
  | _ => exact h.working fd x hx

/-- A slot that is in use and stays so keeps all but its count and its state. -/
theorem SlotInv.keeps {β : Type} (part : Conn → β)
    (hcount : ∀ c n, part { c with refCount := n } = part c)
    (hstate : ∀ c state, part { c with state := state } = part c)
    (hreg : registrationWorks s a = true) (hm : Move cfg s a s') (hfree : x ∉ s.free)
    (hstay : s.ev.torn = some x → s'.ev.torn ≠ none) : part (s'.conns x) = part (s.conns x) := by
  cases conn_move hm x with
  | same h => rw [h]
  | counted _ h => rw [h, hcount]
  | stated _ _ _ h | marked _ h => rw [h, hstate]
  | wiped hwhy =>
    rcases hwhy with ⟨hx, hnone⟩ | hfail
    · exact absurd hnone (hstay hx)
    · rw [hreg] at hfail
      cases hfail
  | started _ _ _ _ _ hpop => exact absurd (by simp [hpop]) hfree

theorem SlotInv.keeps_registered {β : Type} (h : SlotInv cfg s) (part : Conn → β)
    (hcount : ∀ c n, part { c with refCount := n } = part c)
    (hstate : ∀ c state, part { c with state := state } = part c)
    (hreg : registrationWorks s a = true) (hm : Move cfg s a s') (hx : s.fdMap fd = some x) :
    part (s'.conns x) = part (s.conns x) :=
  SlotInv.keeps part hcount hstate hreg hm (h.map fd x hx).2.1
    fun ht => absurd rfl (h.ne_of_torn hx ht)

/-- Every step keeps the invariant, as long as new connections get registered. -/
theorem SlotInv.move (h : SlotInv cfg s) (hcap : cfg.maxConnections ≤ 2 ^ 16)
    (hreg : registrationWorks s a = true) (hm : Move cfg s a s') : SlotInv cfg s' := by
  have hworking := working_move h hm
  -- a registered connection keeps its index
  have hidx : ∀ {fd x}, s.fdMap fd = some x → (s'.conns x).poolIndex = x := fun {fd x} hx =>
    (h.keeps_registered Conn.poolIndex (fun _ _ => rfl) (fun _ _ => rfl) hreg hm hx).trans
      (h.map fd x hx).2.2
  cases slot_move h.working hm with
  | stay hmap hfree htorn =>
    refine ⟨hfree ▸ h.nodup, hfree ▸ h.bound, fun fd x hx => ?_, hmap ▸ h.inj, fun x hx => ?_,
      hworking⟩
    · rw [hmap] at hx
      obtain ⟨hlt, hnot, -⟩ := h.map fd x hx
      exact ⟨hlt, hfree ▸ hnot, hidx hx⟩
    · obtain ⟨hlt, hnot, hold, hmapped⟩ := h.torn x (htorn ▸ hx)
      refine ⟨hlt, hfree ▸ hnot, Eq.trans ?_ hold, hmap ▸ hmapped⟩
      exact SlotInv.keeps Conn.poolIndex (fun _ _ => rfl) (fun _ _ => rfl) hreg hm hnot
        fun _ => by simp [hx]
  | start x fd _ _ _ _ _ hfree hmap htorn =>
    have hnd := h.nodup
    rw [hfree, List.nodup_cons] at hnd
    have hsub : ∀ y ∈ s'.free, y ∈ s.free := fun y hy => by simp [hfree, hy]
    have hxlt : x < cfg.maxConnections := h.bound x (by simp [hfree])
    -- an entry of the new map is the new one or an old one of another slot
    have hold : ∀ {fd' y}, s'.fdMap fd' = some y →
        (fd' = fd ∧ y = x ∧ (s'.conns x).poolIndex = x) ∨ (y ≠ x ∧ s.fdMap fd' = some y) := by
      intro fd' y hy
      rcases hmap with ⟨hm, -⟩ | ⟨hm, hnew⟩
      · rw [hm] at hy
        exact .inr ⟨h.ne_of_free hy hfree, hy⟩
      · rcases of_update_some (hm ▸ hy) with ⟨rfl, rfl⟩ | ⟨_, hy⟩
        · rw [hnew, newConn_same Conn.poolIndex fun _ _ => rfl]
          exact .inl ⟨rfl, rfl, Nat.mod_eq_of_lt (Nat.lt_of_lt_of_le hxlt hcap)⟩
        · exact .inr ⟨h.ne_of_free hy hfree, hy⟩
    refine ⟨hnd.2, fun y hy => h.bound y (hsub y hy), fun fd' y hy => ?_,
      fun fd1 fd2 y h1 h2 => ?_, fun y hy => ?_, hworking⟩
    · rcases hold hy with ⟨-, rfl, hnew⟩ | ⟨-, hy⟩
      · exact ⟨hxlt, hnd.1, hnew⟩
      · obtain ⟨hlt, hnot, -⟩ := h.map fd' y hy
        exact ⟨hlt, fun hmem => hnot (hsub y hmem), hidx hy⟩
    · rcases hold h1 with ⟨rfl, rfl, -⟩ | ⟨hyx, hy1⟩ <;>
        rcases hold h2 with ⟨rfl, hx, -⟩ | ⟨hne, hy2⟩
      · rfl
      · exact absurd rfl hne
      · exact absurd hx hyx
      · exact h.inj fd1 fd2 y hy1 hy2
    · simp [htorn] at hy
  | leave x fd _ hx hmap hfree htorn =>
    have hold : ∀ {fd' y}, s'.fdMap fd' = some y → fd' ≠ fd ∧ s.fdMap fd' = some y :=
      fun hy => of_update_none (hmap ▸ hy)
    refine ⟨hfree ▸ h.nodup, hfree ▸ h.bound, fun fd' y hy => ?_,
      fun fd1 fd2 y h1 h2 => h.inj fd1 fd2 y (hold h1).2 (hold h2).2, fun y hy => ?_, hworking⟩
    · obtain ⟨hlt, hnot, -⟩ := h.map fd' y (hold hy).2
      exact ⟨hlt, hfree ▸ hnot, hidx (hold hy).2⟩
    · obtain rfl : x = y := Option.some.inj (htorn.symm.trans hy)
      obtain ⟨hlt, hnot, -⟩ := h.map fd x hx
      exact ⟨hlt, hfree ▸ hnot, hidx hx, fun fd' hy => (hold hy).1 (h.inj fd' fd x (hold hy).2 hx)⟩
  | wipe x back hev hmap hfree _ htorn =>
    have hx : s.ev.torn = some x := by rw [hev]; rfl
    obtain ⟨hlt, hnot, hown, -⟩ := h.torn x hx
    -- the new stack is the old one with at most `x` on top
    have hcases : s'.free = x :: s.free ∨ s'.free = s.free := by
      rw [hfree, hown]
      exact ite_eq_or_eq _ _ _
    have hsub : ∀ y ∈ s'.free, y = x ∨ y ∈ s.free := by
      rcases hcases with he | he <;> rw [he]
      · exact fun y => List.mem_cons.mp
      · exact fun y => .inr
    refine ⟨?_, fun y hy => ?_, fun fd y hy => ?_, hmap ▸ h.inj, fun y hy => ?_, hworking⟩
    · rcases hcases with he | he <;> rw [he]
      · exact List.nodup_cons.mpr ⟨hnot, h.nodup⟩
      · exact h.nodup
    · rcases hsub y hy with rfl | hy
      · exact hlt
      · exact h.bound y hy
    · rw [hmap] at hy
      obtain ⟨hlt, hnot, -⟩ := h.map fd y hy
      exact ⟨hlt, fun hmem => (hsub y hmem).elim (h.ne_of_torn hy hx) hnot, hidx hy⟩
    · simp [htorn] at hy
  | mark x back hev hmap hfree _ htorn =>
    refine ⟨hfree ▸ h.nodup, hfree ▸ h.bound, fun fd y hy => ?_, hmap ▸ h.inj, fun y hy => ?_,
      hworking⟩
    · rw [hmap] at hy
      obtain ⟨hlt, hnot, -⟩ := h.map fd y hy
      exact ⟨hlt, hfree ▸ hnot, hidx hy⟩
    · simp [htorn] at hy

/-- What is registered was registered, or is the new connection that came first in the queue. -/
theorem SlotInv.map_move (h : SlotInv cfg s) (hm : Move cfg s a s') (hx : s'.fdMap fd = some x) :
    s.fdMap fd = some x ∨ s.free = x :: s'.free ∧ s.queue = .newConnection fd :: s'.queue := by
  cases slot_move h.working hm with
  | stay hmap | wipe _ _ _ hmap | mark _ _ _ hmap => exact .inl (hmap ▸ hx)
  | leave _ _ _ _ hmap => exact .inl (of_update_none (hmap ▸ hx)).2
  | start y fd' _ _ _ _ hq hfree hmap =>
    rcases hmap with ⟨hmap, -⟩ | ⟨hmap, -⟩
    · exact .inl (hmap ▸ hx)
    · rcases of_update_some (hmap ▸ hx) with ⟨rfl, rfl⟩ | ⟨-, hx⟩
      · exact .inr ⟨hfree, hq⟩
      · exact .inl hx

/-- A slot goes on in its life, or was free and begins another one. -/
theorem life_move (hm : Move cfg s a s') (x : Slot) :
    ((s'.conns x).life = (s.conns x).life ∧ (s'.conns x).generation = (s.conns x).generation) ∨
      (s.free = x :: s'.free ∧
        (∃ fd tls sendOk, a = .message tls sendOk ∧ s.queue = .newConnection fd :: s'.queue) ∧
        (s'.conns x).life = (s.conns x).life + 1 ∧
        (s'.conns x).generation = ((s.conns x).generation + 1) % 2 ^ 32) := by
  cases conn_move hm x with
  | same h | counted _ h | stated _ _ _ h | marked _ h | wiped _ h =>
    rw [h]
    exact .inl ⟨rfl, rfl⟩
  | started fd tls sendOk ha hq hfree h =>
    refine .inr ⟨hfree, ⟨fd, tls, sendOk, ha, hq⟩, ?_⟩
    rcases h with ⟨h, -⟩ | h
    · rw [h]
      exact newConn_life s fd x tls
    · rw [h]
      exact newConn_life s fd x none

theorem Back.pc_ne_mark (b : Back) (x : Slot) (b' : Back) : b.pc ≠ .mark x b' := by
  cases b <;> simp [Back.pc]

/-- A slot is about to be marked closed once a reference that is not the last is dropped. -/
theorem mark_move {back : Back} (hm : Move cfg s a s') (h : s'.ev = .mark x back) :
    s.ev = .mark x back ∨
      s.ev = .unref x back ∧ (s.conns x).refCount ≠ 1 ∧ ∃ ok, a = .cont ok := by
  cases hm with
  | unrefShared ok _ _ hev href =>
    cases h
    exact .inr ⟨hev, href, ok, rfl⟩
  | wait | reap | batchEnd | takeWakeup | takeAio | takeConn | loopEnd | stale | hangup | register
  | completeClose | release | closeRelease | hashRemove | closeHash | insert | insertFail | poll
  | pollFail => cases h
  | pass _ _ _ _ _ hpc => rcases hpc with ⟨_, rfl⟩ | ⟨_, rfl⟩ | ⟨_, rfl⟩ <;> cases h
  | handle _ _ _ _ _ _ _ hpc => rcases hpc with ⟨_, rfl⟩ | ⟨_, rfl⟩ | ⟨_, rfl⟩ <;> cases h
  | act _ _ _ _ _ _ _ _ _ _ _ _ hpc => rcases hpc with ⟨_, rfl⟩ | ⟨_, rfl⟩ <;> cases h
  | releaseUnknown _ _ _ back' | unrefLast _ _ back' | mark _ _ back' =>
    exact absurd h (Back.pc_ne_mark back' x back)
  | _ => exact .inl h

/-- The slot is registered, or being torn down. -/
def Server.Serves (s : Server) (x : Slot) : Prop :=
  (∃ fd, s.fdMap fd = some x) ∨ s.ev.torn = some x

/-- A slot is served until its teardown ends, where a new connection has a number that is not
    registered. -/
theorem SlotInv.serves_move (h : SlotInv cfg s) (hm : Move cfg s a s')
    (hnew : ∀ tls sendOk fd, a = .message tls sendOk → s.ev = .msgs →
      s.queue = .newConnection fd :: s'.queue → s.fdMap fd = none) (hx : s.Serves x) :
    s'.Serves x ∨
      (∃ back, s.ev = .unref x back ∧ s'.conns x = wsConnectionCleanup (s.conns x) ∧
        s'.free = if s.free.length < cfg.maxConnections then
          (s.conns x).poolIndex :: s.free else s.free) ∨
      ∃ back, s.ev = .mark x back ∧ s'.conns x = { s.conns x with state := .closed } := by
  cases slot_move h.working hm with
  | stay hmap _ htorn =>
    unfold Server.Serves
    rw [hmap, htorn]
    exact .inl hx
  | start y fd tls sendOk ha hev hq _ hmap =>
    rcases hx with ⟨fd', hx⟩ | ht
    · refine .inl (.inl ⟨fd', ?_⟩)
      rcases hmap with ⟨hmap, -⟩ | ⟨hmap, -⟩
      · rwa [hmap]
      · rwa [hmap, update_of_ne (ne_of_unregistered (hnew tls sendOk fd ha hev hq) hx)]
    · rw [hev] at ht
      cases ht
  | leave y fd hbefore hy hmap _ htorn =>
    rcases hx with ⟨fd', hx⟩ | ht
    · by_cases he : fd' = fd
      · rw [he, hy] at hx
        exact .inl (.inr (htorn.trans hx))
      · exact .inl (.inl ⟨fd', by rwa [hmap, update_of_ne he]⟩)
    · simp [hbefore] at ht
  | wipe y back hev hmap hfree hconn =>
    rcases hx with ⟨fd', hx⟩ | ht
    · exact .inl (.inl ⟨fd', hmap ▸ hx⟩)
    · rw [hev] at ht
      cases ht
      exact .inr (.inl ⟨back, hev, hconn, hfree⟩)
  | mark y back hev hmap _ hconn =>
    rcases hx with ⟨fd', hx⟩ | ht
    · exact .inl (.inl ⟨fd', hmap ▸ hx⟩)
    · rw [hev] at ht
      cases ht
      exact .inr (.inr ⟨back, hev, hconn⟩)

/-- A registered connection goes on holding its number. -/
theorem SlotInv.own_move (h : SlotInv cfg s) (hreg : registrationWorks s a = true)
    (hm : Move cfg s a s') (hown : ∀ fd x, s.fdMap fd = some x → (s.conns x).fd = some fd) (fd : Fd)
    (x : Slot) (hx : s'.fdMap fd = some x) : (s'.conns x).fd = some fd := by
  have hold : s.fdMap fd = some x → (s'.conns x).fd = some fd := fun hx =>
    (h.keeps_registered Conn.fd (fun _ _ => rfl) (fun _ _ => rfl) hreg hm hx).trans (hown fd x hx)
  cases slot_move h.working hm with
  | stay hmap | wipe _ _ _ hmap | mark _ _ _ hmap => exact hold (hmap ▸ hx)
  | leave _ _ _ _ hmap => exact hold (of_update_none (hmap ▸ hx)).2
  | start y fd' _ _ _ _ _ _ hmap =>
    rcases hmap with ⟨hmap, -⟩ | ⟨hmap, hnew⟩
    · exact hold (hmap ▸ hx)
    · rcases of_update_some (hmap ▸ hx) with ⟨rfl, rfl⟩ | ⟨-, hx⟩
      · rw [hnew, newConn_fd]
      · exact hold hx

end Step

theorem SlotInv.init (cfg : Config) : SlotInv cfg (.init cfg) := by
  refine ⟨List.nodup_range, fun x hx => List.mem_range.mp hx, ?_, ?_, ?_, ?_⟩
  · intro fd x hx
    simp [Server.init] at hx
  · intro fd fd' x hx
    simp [Server.init] at hx
  · intro x hx
    simp [Server.init, EvPc.torn] at hx
  · intro fd x hx
    simp [Server.init, EvPc.working] at hx

theorem SlotInv.run (hcap : cfg.maxConnections ≤ 2 ^ 16) {labels : List Label}
    (hreg : RunMeets (Server.step cfg) (registrationWorks · ·) (.init cfg) labels)
    (hrun : run (Server.step cfg) (.init cfg) labels = some s) : SlotInv cfg s :=
  run_invariant (fun _ _ _ h hreg hstep => h.move hcap hreg (step_move hstep)) labels _ s
    (.init cfg) hreg hrun

/-- With at most 2^16 slots and no failing registration: in every run the indices on the free
    stack are pairwise distinct, none of them is the slot of a registered connection, and no
    two descriptors are registered with one slot. -/
theorem slots_never_shared (cfg : Config) (hcap : cfg.maxConnections ≤ 2 ^ 16)
    (labels : List Label) (s : Server)
    (hreg : RunMeets (Server.step cfg) (registrationWorks · ·) (.init cfg) labels)
    (hrun : run (Server.step cfg) (.init cfg) labels = some s) :
    s.free.Nodup ∧ (∀ fd x, s.fdMap fd = some x → x ∉ s.free) ∧
      ∀ fd fd' x, s.fdMap fd = some x → s.fdMap fd' = some x → fd = fd' := by
  have h := SlotInv.run hcap hreg hrun
  exact ⟨h.nodup, fun fd x hx => (h.map fd x hx).2.1, h.inj⟩

/-- A connection is accepted, registered and reaped, and its slot comes back. -/
theorem slots_never_shared_accept_reap :
    let labels : List Label := [.accept 3, .handOver, .wait [.wakeup], .next, .message none true,
      .cont true, .cont true, .next, .next, .reap 0, .cont true, .cont true, .cont true]
    (run (Server.step ⟨2, 8⟩) (.init ⟨2, 8⟩) labels).map (fun s => (s.fdMap 3, s.free)) =
        some (none, [0, 1]) ∧
      ∀ s, run (Server.step ⟨2, 8⟩) (.init ⟨2, 8⟩) labels = some s →
        s.free.Nodup ∧ (∀ fd x, s.fdMap fd = some x → x ∉ s.free) ∧
          ∀ fd fd' x, s.fdMap fd = some x → s.fdMap fd' = some x → fd = fd' := by
  refine ⟨by decide +kernel, fun s hrun => ?_⟩
  exact slots_never_shared ⟨2, 8⟩ (by decide) _ s (by decide +kernel) hrun

/-! ## More than 2^16 slots -/

/-- Descriptors `0 .. k` have been accepted into the slots of the same numbers. -/
structure Filled (cfg : Config) (k : Nat) (s : Server) : Prop where
  ev : s.ev = .msgs
  batch : s.batch = []
  queue : s.queue = []
  accepted : s.accepted = none
  free : s.free = List.range' k (cfg.maxConnections - k)
  files : ∀ fd, k ≤ fd → s.files fd = none
  map : ∀ x, x < k → s.fdMap x = some x
  conns : ∀ x, x < k → (s.conns x).fd = some x ∧ (s.conns x).state = .connecting ∧
    (s.conns x).stamped = true ∧ (s.conns x).refCount = 1 ∧ (s.conns x).poolIndex = x % 2 ^ 16

/-- One more connection is accepted, queued and registered. -/
theorem Filled.succ {k : Nat} (h : Filled cfg k s) (hk : k < cfg.maxConnections)
    (hfd : k < cfg.fdMapSize) :
    ∃ labels s', run (Server.step cfg) s labels = some s' ∧ Filled cfg (k + 1) s' := by
  have hfile := h.files k (Nat.le_refl k)
  obtain ⟨n, hn⟩ : ∃ n, cfg.maxConnections - k = n + 1 := ⟨cfg.maxConnections - k - 1, by omega⟩
  have hfree : s.free = k :: List.range' (k + 1) n := by rw [h.free, hn, List.range'_succ]
  -- the five steps, with the state after each of them
  let s1 : Server := { s.setFile k (some ⟨s.nextSock, .acceptor, false⟩) with
    accepted := some k, nextSock := s.nextSock + 1 }
  let s2 : Server := { s1.setFile k (some ⟨s.nextSock, .thread, false⟩) with
    accepted := none, queue := [.newConnection k] }
  let s3 : Server := (({ s2 with queue := [], free := List.range' (k + 1) n }.setConn k
    (wsConnectionInit (s.conns k) k k s.nextSock)).setMap k (some k)).goTo (.newHash k k)
  let s4 : Server := { s3 with hash := s3.hash.insert bucketOf k k }.goTo (.newEpoll k k)
  let s5 : Server := (s4.setFile k (some ⟨s.nextSock, .thread, true⟩)).goTo .msgs
  have h1 : s.step cfg (.accept k) = some s1 := by
    simp only [Server.step, Server.acceptStep, h.accepted, hfile, if_pos hfd, s1]
  have h2 : s1.step cfg .handOver = some s2 := by
    simp [Server.step, Server.handOverStep, s1, s2, Server.setFile, h.queue]
  have h3 : s2.step cfg (.message none true) = some s3 := by
    simp [Server.step, Server.processMessage, Server.processNewConnection, s1, s2, s3,
      Server.setFile, h.ev, hfree, Server.setConn]
  have h4 : s3.step cfg (.cont true) = some s4 := by
    simp [Server.step, Server.contStep, s3, s4, Server.goTo]
  have h5 : s4.step cfg (.cont true) = some s5 := by
    simp [Server.step, Server.contStep, Server.epollAdd, s1, s2, s3, s4, s5, Server.goTo,
      Server.setFile, Server.setMap, Server.setConn]
  refine ⟨[.accept k, .handOver, .message none true, .cont true, .cont true], s5, ?_, ?_⟩
  · rw [run_step h1, run_step h2, run_step h3, run_step h4, run_step h5]
    rfl
  · have hconns : ∀ x, s5.conns x = update s.conns k
        (wsConnectionInit (s.conns k) k k s.nextSock) x := fun _ => rfl
    have hmap : ∀ fd, s5.fdMap fd = update s.fdMap k (some k) fd := fun _ => rfl
    refine ⟨rfl, h.batch, rfl, rfl, ?_, fun fd hle => ?_, fun x hx => ?_, fun x hx => ?_⟩
    · show List.range' (k + 1) n = _
      rw [show cfg.maxConnections - (k + 1) = n by omega]
    · have hne : fd ≠ k := by omega
      simp [s1, s2, s3, s4, s5, Server.setFile, Server.goTo, Server.setMap, Server.setConn, hne]
      exact h.files fd (by omega)
    · rw [hmap]
      by_cases hxk : x = k
      · rw [hxk, update_self]
      · rw [update_of_ne hxk]
        exact h.map x (by omega)
    · rw [hconns]
      by_cases hxk : x = k
      · rw [hxk, update_self]
        exact ⟨rfl, rfl, rfl, rfl, rfl⟩
      · rw [update_of_ne hxk]
        exact h.conns x (by omega)

/-- The event thread, woken up, can accept any number of connections that fit. -/
theorem exists_filled (cfg : Config) (k : Nat) (hk : k ≤ cfg.maxConnections)
    (hfd : k ≤ cfg.fdMapSize) :
    ∃ labels s, run (Server.step cfg) (.init cfg) labels = some s ∧ Filled cfg k s := by
  induction k with
  | zero =>
    refine ⟨[.wait [.wakeup], .next], { Server.init cfg with ev := .msgs }, rfl, ?_⟩
    refine ⟨rfl, rfl, rfl, rfl, ?_, fun _ _ => rfl, fun x hx => absurd hx (by simp),
      fun x hx => absurd hx (by simp)⟩
    exact List.range_eq_range'
  | succ k ih =>
    obtain ⟨labels, s, hrun, hs⟩ := ih (by omega) (by omega)
    obtain ⟨more, s', hmore, hs'⟩ := hs.succ (by omega) (by omega)
    exact ⟨labels ++ more, s', by rw [run_append hrun, hmore], hs'⟩

/-- 65537 connections are accepted and the last one is reaped: its `pool_index`, cut to 16 bits,
    is 0, so slot 0 goes onto the free stack while descriptor 0 is registered with it. -/
theorem closing_slot_65536_frees_slot_0 :
    ∃ labels s, run (Server.step ⟨65537, 1048576⟩) (.init ⟨65537, 1048576⟩) labels = some s ∧
      s.fdMap 0 = some 0 ∧ 0 ∈ s.free := by
  obtain ⟨labels, s, hrun, h⟩ := exists_filled ⟨65537, 1048576⟩ 65537 (by decide) (by decide)
  obtain ⟨hfd, hstate, hstamp, href, hidx⟩ := h.conns 65536 (by decide)
  have hmap := h.map 65536 (by decide)
  have hfree : s.free = [] := h.free
  let s1 : Server := s.goTo .batch
  let s2 : Server := s.goTo .top
  let s3 : Server := s.goTo (.release 65536 none .top)
  let s4 : Server := ((s.setMap 65536 none).closeFd 65536 none).goTo (.hashRemove 65536 65536 .top)
  let s5 : Server := { s4 with hash := s.hash.remove bucketOf 65536 }.goTo (.unref 65536 .top)
  have h1 : s.step ⟨65537, 1048576⟩ .next = some s1 := by
    simp [Server.step, Server.nextStep, h.ev, s1]
  have h2 : s1.step ⟨65537, 1048576⟩ .next = some s2 := by
    simp [Server.step, Server.nextStep, s1, s2, Server.goTo, h.batch]
  have h3 : s2.step ⟨65537, 1048576⟩ (.reap 65536) = some s3 := by
    simp [Server.step, s2, s3, Server.goTo, Conn.reapable, hstate, hstamp, hfd]
  have h4 : s3.step ⟨65537, 1048576⟩ (.cont true) = some s4 := by
    simp [Server.step, Server.contStep, Server.release, s3, s4, Server.goTo, hmap, Server.setMap,
      Server.closeFd, Server.setFile]
  have h5 : s4.step ⟨65537, 1048576⟩ (.cont true) = some s5 := by
    simp [Server.step, Server.contStep, s4, s5, Server.goTo, Server.closeFd, Server.setFile,
      Server.setMap]
  let s6 : Server := s5.dropReference ⟨65537, 1048576⟩ 65536 .top
  have h6 : s5.step ⟨65537, 1048576⟩ (.cont true) = some s6 := rfl
  -- the connection is the slot's last reference, and its index is 0
  have hconn : s5.conns 65536 = s.conns 65536 := rfl
  have hfree5 : s5.free = [] := hfree
  have h0 : 65536 % 2 ^ 16 = 0 := by decide
  refine ⟨labels ++ [.next, .next, .reap 65536, .cont true, .cont true, .cont true], s6, ?_, ?_, ?_⟩
  · rw [run_append hrun, run_step h1, run_step h2, run_step h3, run_step h4, run_step h5,
      run_step h6]
    rfl
  · have hmap0 : s5.fdMap 0 = some 0 := by
      show update s.fdMap 65536 none 0 = some 0
      rw [update_of_ne (by decide)]
      exact h.map 0 (by decide)
    simp only [s6, Server.dropReference, hconn, href, if_true]
    exact hmap0
  · simp only [s6, Server.dropReference, hconn, href, if_true, hidx, h0, hfree5]
    simp

end Portico.Loop
