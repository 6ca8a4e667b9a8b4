/-
  What a step of the event thread does with a slot.

  `slotEvent` names the steps that matter to what hangs on a connection (its callbacks, its
  buffers): a handler runs on it, a new connection starts in a slot, `close_connection` or a
  close message takes it out of the map, the slot is wiped. `SlotEffect` says what each of them
  does to the map, the lives and the free stack, and `step_effect` that a step does what its
  event says. `StateEffect` says what it does to the state of each connection.
-/
import Portico.Loop.Slots

namespace Portico.Loop

open Portico.Lib Portico.Ws

inductive SlotEvent where
  | handle (x : Slot) (writing : Bool) (state : WsState) (fail : Bool)
  | start (x : Slot)
  | close (x : Slot)
  | drop (x : Slot)
  | wipe (x : Slot)
  deriving DecidableEq, Repr

/-- The connection whose handler runs now, `handle_connection_write` or
    `handle_connection_read`. -/
def Server.handling (s : Server) : Option (Slot × Bool) :=
  match s.ev with
  | .readable e => if e.readable then (s.fdMap e.fd).map (·, false) else none
  | .writable e => if e.writable then (s.fdMap e.fd).map (·, true) else none
  | _ => none

def slotEvent (s : Server) : Label → Option SlotEvent
  | .io state _ fail => s.handling.map fun (x, writing) => .handle x writing state fail
  | .message _ _ =>
    match s.queue, s.free with
    | .newConnection _ :: _, x :: _ => some (.start x)
    | _, _ => none
  | .cont ok =>
    match s.ev with
    | .release fd _ _ => (s.fdMap fd).map .close
    | .closeRelease _ x => some (.drop x)
    | .unref x _ => if (s.conns x).refCount = 1 then some (.wipe x) else none
    | .newEpoll fd x => if (s.epollAdd fd ok).isNone then some (.wipe x) else none
    | _ => none
  | _ => none

/-- The state a handler can leave a connection in. A read finishes the TLS handshake, classifies
    a connection as WebSocket or HTTP, or starts the closing handshake; a write only goes on with
    TLS, and then with what the client sent after it. -/
def handlerLeaves (writing : Bool) : WsState → WsState → Bool
  | .tlsHandshake, .connecting => true
  | .tlsHandshake, .open => true
  | .tlsHandshake, .http => true
  | .connecting, .open => !writing
  | .connecting, .http => !writing
  | .open, .closing => !writing
  | before, after => before = after

/-- The opening handshake is done. -/
def Conn.upgraded (c : Conn) : Bool := c.state = .open ∨ c.state = .closing

/-- Map, lives, states and free stack after a step. -/
inductive SlotEffect (s s' : Server) : Option SlotEvent → Prop
  | quiet (hmap : s'.fdMap = s.fdMap) (hlife : ∀ x, (s'.conns x).life = (s.conns x).life)
      (hstate : ∀ fd x, s.fdMap fd = some x → (s'.conns x).upgraded = (s.conns x).upgraded)
      (hfree : s'.free = s.free) (htorn : ∀ x, s'.ev.torn = some x → s.ev.torn = some x) :
      SlotEffect s s' none
  | handle (x : Slot) (writing : Bool) (state : WsState) (fail : Bool) (fd : Fd)
      (hx : s.fdMap fd = some x) (hmap : s'.fdMap = s.fdMap)
      (hlife : ∀ y, (s'.conns y).life = (s.conns y).life) (hstate : (s'.conns x).state = state)
      (hother : ∀ y, y ≠ x → s'.conns y = s.conns y) (hfree : s'.free = s.free)
      (htorn : s'.ev.torn = none) : SlotEffect s s' (some (.handle x writing state fail))
  | start (x : Slot) (hlife : (s'.conns x).life = (s.conns x).life + 1)
      (hstate : (s'.conns x).upgraded = false) (hother : ∀ y, y ≠ x → s'.conns y = s.conns y)
      (hmap : ∀ fd y, s'.fdMap fd = some y → y = x ∨ s.fdMap fd = some y)
      (hfree : s.free = x :: s'.free) (htorn : s'.ev.torn = none) :
      SlotEffect s s' (some (.start x))
  | close (x : Slot) (fd : Fd) (hx : s.fdMap fd = some x)
      (hmap : s'.fdMap = Function.update s.fdMap fd none) (hconns : s'.conns = s.conns)
      (hfree : s'.free = s.free) (htorn : s'.ev.torn = some x) : SlotEffect s s' (some (.close x))
  | drop (x : Slot) (fd : Fd) (hx : s.fdMap fd = some x)
      (hmap : s'.fdMap = Function.update s.fdMap fd none) (hconns : s'.conns = s.conns)
      (hfree : s'.free = s.free) (htorn : s'.ev.torn = some x) : SlotEffect s s' (some (.drop x))
  | wipe (x : Slot) (hx : s.ev.torn = some x) (hmap : s'.fdMap = s.fdMap)
      (hlife : ∀ y, (s'.conns y).life = (s.conns y).life)
      (hother : ∀ y, y ≠ x → s'.conns y = s.conns y) (hfree : ∀ y ∈ s'.free, y = x ∨ y ∈ s.free)
      (htorn : s'.ev.torn = none) : SlotEffect s s' (some (.wipe x))

variable {x y : Slot} {c : Conn} {submit fail sendOk : Bool} {state : WsState} {fd : Fd} {a : Label}
  {event : Option SlotEvent} {tls : Option Bool} {queue : List Msg} {cfg : Config} {s s' : Server}

/-- The event thread goes on, and no connection changes. -/
theorem SlotEffect.same (hmap : s'.fdMap = s.fdMap) (hconns : s'.conns = s.conns)
    (hfree : s'.free = s.free) (htorn : ∀ x, s'.ev.torn = some x → s.ev.torn = some x) :
    SlotEffect s s' none :=
  .quiet hmap (fun x => by rw [hconns]) (fun fd x _ => by rw [hconns]) hfree htorn

/-- The same, to a place outside the teardowns. -/
theorem SlotEffect.leave (hmap : s'.fdMap = s.fdMap) (hconns : s'.conns = s.conns)
    (hfree : s'.free = s.free) (htorn : s'.ev.torn = none) : SlotEffect s s' none :=
  .same hmap hconns hfree (fun x hx => absurd (htorn.symm.trans hx) (by simp))

/-- One connection changes, in neither life nor state. -/
theorem SlotEffect.setConn (hmap : s'.fdMap = s.fdMap) (hconns : s'.conns = (s.setConn x c).conns)
    (hlife : c.life = (s.conns x).life) (hstate : c.upgraded = (s.conns x).upgraded)
    (hfree : s'.free = s.free) (htorn : ∀ x, s'.ev.torn = some x → s.ev.torn = some x) :
    SlotEffect s s' none := by
  refine .quiet hmap (fun y => ?_) (fun fd y _ => ?_) hfree htorn
  · rw [hconns]
    exact s.setConn_same Conn.life hlife y
  · rw [hconns]
    exact s.setConn_same Conn.upgraded hstate y

/-- A handler changes the state of its connection and nothing else of the slots. -/
theorem SlotEffect.handled {writing : Bool} {pc : EvPc} (hx : s.fdMap fd = some x)
    (htorn : pc.torn = none) :
    SlotEffect s ((s.handled x state submit).goTo pc) (some (.handle x writing state fail)) := by
  refine .handle x writing state fail fd hx rfl (fun y => ?_) ?_ (fun y hy => ?_) rfl htorn
  · exact s.setConn_same (c := { s.conns x with state := state }) Conn.life rfl y
  · exact congrArg Conn.state (Function.update_self x { s.conns x with state := state } s.conns)
  · exact Function.update_of_ne hy { s.conns x with state := state } s.conns

/-- A check of a connection event runs no handler, or the one of a registered connection; the event
    thread goes on outside the teardowns. -/
theorem ioStep_cases (h : s.ioStep state submit fail = some s') :
    ∃ pc : EvPc, pc.torn = none ∧
      ((s.handling = none ∧ s' = s.goTo pc) ∨
        ∃ x writing fd, s.handling = some (x, writing) ∧ s.fdMap fd = some x ∧
          s' = (s.handled x state submit).goTo pc) := by
  unfold Server.ioStep at h
  cases hev : s.ev with
  | readable e | writable e =>
    simp only [hev] at h
    split at h
    · rename_i hflag
      cases hmap : s.fdMap e.fd with
      | none =>
        have hidle : s.handling = none := by simp [Server.handling, hev, hmap]
        rw [hmap] at h
        refine ⟨_, ?_, .inl ⟨hidle, (Option.some.inj h).symm⟩⟩
        rfl
      | some x =>
        have hhandling : ∃ writing, s.handling = some (x, writing) := by
          simp [Server.handling, hev, hflag, hmap]
        obtain ⟨writing, hhandling⟩ := hhandling
        rw [hmap] at h
        dsimp only at h
        split at h <;>
        · refine ⟨_, ?_, .inr ⟨x, writing, e.fd, hhandling, hmap, (Option.some.inj h).symm⟩⟩
          rfl
    · rename_i hflag
      have hidle : s.handling = none := by simp [Server.handling, hev, hflag]
      refine ⟨_, ?_, .inl ⟨hidle, (Option.some.inj h).symm⟩⟩
      rfl
  | hangup =>
    have hidle : s.handling = none := by simp [Server.handling, hev]
    simp only [hev] at h
    split at h <;>
    · refine ⟨_, ?_, .inl ⟨hidle, (Option.some.inj h).symm⟩⟩
      rfl
  | _ =>
    rw [hev] at h
    cases h

theorem ioStep_effect (h : s.ioStep state submit fail = some s') :
    SlotEffect s s' (slotEvent s (.io state submit fail)) := by
  obtain ⟨pc, hpc, ⟨hhandling, rfl⟩ | ⟨x, writing, fd, hhandling, hx, rfl⟩⟩ := ioStep_cases h <;>
    simp only [slotEvent, hhandling]
  · exact .leave rfl rfl rfl hpc
  · exact .handled hx hpc

/-- A text or binary message changes no connection, or marks an open one closing; the move does not
    say that it was open. -/
theorem deliver_cases {generation life : Nat} (hev : s.ev = .msgs)
    (hq : s.queue = .data fd x generation life :: queue)
    (hstep : s.step cfg (.message tls sendOk) = some s') :
    s'.fdMap = s.fdMap ∧ s'.free = s.free ∧ s'.ev = s.ev ∧
      (s'.conns = s.conns ∨ ∃ y, (s.conns y).state = .open ∧
        s'.conns = (s.setConn y { s.conns y with state := .closing }).conns) := by
  simp only [Server.step, hev, hq] at hstep
  rw [← Option.some.inj hstep, hev]
  simp only [Server.processMessage, Server.wsBufferedDataSend]
  split
  · cases hmap : s.fdMap fd with
    | none => exact ⟨rfl, rfl, rfl, .inl rfl⟩
    | some y =>
      dsimp only
      split
      · rename_i hopen
        cases sendOk with
        | true => exact ⟨rfl, rfl, rfl, .inl rfl⟩
        | false => exact ⟨rfl, rfl, rfl, .inr ⟨y, hopen, rfl⟩⟩
      · exact ⟨rfl, rfl, rfl, .inl rfl⟩
  · exact ⟨rfl, rfl, rfl, .inl rfl⟩

theorem newConn_upgraded (s : Server) (fd : Fd) (x : Slot) (tls : Option Bool) :
    (newConn s fd x tls).upgraded = false := by
  unfold newConn
  split <;> rfl

theorem step_effect (hslot : SlotInv cfg s) (hreg : registrationWorks s a = true)
    (hstep : s.step cfg a = some s') : SlotEffect s s' (slotEvent s a) := by
  cases step_move hstep with
  | accept | reject | handOver | handOther | otherOpen | otherClose | check | readGeneration
  | queueControl | queueData | complete => exact .same rfl rfl rfl (fun _ hx => hx)
  | find kind fd x => exact .setConn (x := x) rfl rfl rfl rfl rfl (fun _ hx => hx)
  | dropRef k ok d => exact .setConn (x := d.slot) rfl rfl rfl rfl rfl (fun _ hx => hx)
  | wait | reap | batchEnd | takeWakeup | takeAio | takeConn | loopEnd | completeClose =>
    exact .leave rfl rfl rfl rfl
  | pass | stale | handle | hangup => exact ioStep_effect hstep
  | noSlot tls sendOk fd queue hev hq hfree =>
    have hevent : slotEvent s (.message tls sendOk) = none := by simp [slotEvent, hq, hfree]
    rw [hevent]
    exact .same rfl rfl rfl (fun _ hx => hx)
  | tlsFail sendOk fd queue x rest hev hq hfree =>
    simp only [slotEvent, hq, hfree]
    refine .start x ?_ ?_ (fun y hy => Server.setConn_of_ne _ _ hy) (fun _ _ hy => .inr hy) hfree ?_
    · exact (congrArg Conn.life (Server.setConn_self _ _ _)).trans (newConn_life s fd x none).1
    · exact congrArg Conn.upgraded (Server.setConn_self _ _ _)
    · show s.ev.torn = none
      rw [hev]
      rfl
  | register tls sendOk fd queue x rest hev hq hfree =>
    simp only [slotEvent, hq, hfree]
    refine .start x ?_ ?_ (fun y hy => Server.setConn_of_ne _ _ hy) (fun fd' y hy => ?_) hfree rfl
    · exact (congrArg Conn.life (Server.setConn_self _ _ _)).trans (newConn_life s fd x tls).1
    · exact (congrArg Conn.upgraded (Server.setConn_self _ _ _)).trans (newConn_upgraded s fd x tls)
    · exact (of_update_some hy).imp (·.2) (·.2)
  | dropData _ _ _ _ _ _ _ _ hq | noTarget _ _ _ _ _ _ _ _ hq =>
    simp only [slotEvent, hq]
    exact .same rfl rfl rfl (fun _ hx => hx)
  | deliver tls sendOk fd x y generation life queue c hev hq =>
    obtain ⟨hmap, hfree, hev', hconns | ⟨z, hopen, hconns⟩⟩ := deliver_cases hev hq hstep <;>
      simp only [slotEvent, hq]
    · exact .same hmap hconns hfree (fun _ hx => hev' ▸ hx)
    · refine .setConn hmap hconns rfl ?_ hfree (fun _ hx => hev' ▸ hx)
      simp [Conn.upgraded, hopen]
  | act tls sendOk kind fd x y life queue pc hev hq hmap hpc =>
    simp only [slotEvent, hq]
    rcases hpc with ⟨_, rfl⟩ | ⟨_, rfl⟩ <;> exact .leave rfl rfl rfl rfl
  | releaseUnknown ok fd event back hev hmap =>
    simp only [slotEvent, hev, hmap]
    refine .leave ?_ rfl rfl (Back.torn_pc back)
    show Function.update s.fdMap fd none = s.fdMap
    rw [← hmap, Function.update_eq_self]
  | release ok fd event back x hev hmap =>
    simp only [slotEvent, hev, hmap]
    exact .close x fd hmap rfl rfl rfl rfl
  | hashRemove ok fd x back hev =>
    simp only [slotEvent, hev]
    refine .same rfl rfl rfl (fun y hy => ?_)
    rw [hev]
    exact hy
  | unrefLast ok x back free hev href hfree =>
    simp only [slotEvent, hev, href]
    obtain ⟨_, _, hidx, _⟩ := hslot.torn x (by rw [hev]; rfl)
    refine .wipe x (by rw [hev]; rfl) rfl (fun y => ?_) (fun y hy => Server.setConn_of_ne _ _ hy)
      (fun y hy => ?_) (Back.torn_pc back)
    · exact s.setConn_same (c := wsConnectionCleanup (s.conns x)) Conn.life rfl y
    · have hy : y ∈ free := hy
      rw [hfree, hidx] at hy
      split at hy
      · exact List.mem_cons.mp hy
      · exact .inr hy
  | unrefShared ok x back hev href =>
    simp only [slotEvent, hev, if_neg href]
    refine .setConn (x := x) rfl rfl rfl rfl rfl (fun y hy => ?_)
    rw [hev]
    exact hy
  | mark ok x back hev =>
    simp only [slotEvent, hev]
    refine .quiet rfl (fun y => ?_) (fun fd y hy => ?_) rfl (fun y hy => ?_)
    · exact s.setConn_same (c := { s.conns x with state := .closed }) Conn.life rfl y
    · have hyx : y ≠ x := hslot.ne_of_torn hy (by rw [hev]; rfl)
      exact congrArg Conn.upgraded (Server.setConn_of_ne s _ hyx)
    · exact absurd ((Back.torn_pc back).symm.trans hy) (by simp)
  | closeHash _ _ _ hev | insert _ _ hev | insertFail _ _ hev =>
    simp only [slotEvent, hev]
    exact .leave rfl rfl rfl rfl
  | closeRelease ok fd x hev =>
    simp only [slotEvent, hev]
    exact .drop x fd (hslot.working fd x (by rw [hev]; rfl)) rfl rfl rfl rfl
  | poll ok fd x f hev hadd =>
    simp only [slotEvent, hev, hadd]
    exact .leave rfl rfl rfl rfl
  | pollFail ok fd x hev hadd => simp [registrationWorks, hev, hadd] at hreg

/-! ## Lives -/

/-- The connection is the slot's current one and nothing has begun to take it away. -/
def Server.Current (s : Server) (l : Life) : Prop :=
  (s.conns l.1).life = l.2 ∧ l.1 ∉ s.free ∧ s.ev.torn ≠ some l.1

section Lives

variable {l : Life}

theorem lifeOf_eq (h : (s'.conns x).life = (s.conns x).life) : s'.lifeOf x = s.lifeOf x := by
  unfold Server.lifeOf
  rw [h]

theorem lifeOf_ne (h : y ≠ x) : s.lifeOf y ≠ s.lifeOf x :=
  fun he => h (congrArg Prod.fst he)

/-- A registered connection that is taken out of the map is no other one's. -/
theorem SlotInv.ne_of_unregister (hslot : SlotInv cfg s) {fd' : Fd} (hx : s.fdMap fd = some x)
    (hy : Function.update s.fdMap fd none fd' = some y) : s.fdMap fd' = some y ∧ y ≠ x := by
  obtain ⟨hne, hy⟩ := of_update_none hy
  refine ⟨hy, ?_⟩
  rintro rfl
  exact hne (hslot.inj fd' fd y hy hx)

theorem SlotInv.current (hslot : SlotInv cfg s) (hx : s.fdMap fd = some x) :
    s.Current (s.lifeOf x) :=
  ⟨rfl, (hslot.map fd x hx).2.1, fun ht => hslot.ne_of_torn hx ht rfl⟩

/-- Only `close_connection` and a close message take a current connection away. -/
theorem SlotEffect.current (h : SlotEffect s s' event) (hcur : s.Current l)
    (hclose : ∀ x, event = some (.close x) → s.lifeOf x ≠ l)
    (hdrop : ∀ x, event = some (.drop x) → s.lifeOf x ≠ l) : s'.Current l := by
  obtain ⟨hlife, hfree, htorn⟩ := hcur
  have hself : ∀ {x}, x = l.1 → s.lifeOf x = l := fun hx => by
    rw [hx]
    exact Prod.ext rfl hlife
  cases h with
  | quiet _ hlife' _ hfree' htorn' =>
    exact ⟨(hlife' _).trans hlife, hfree' ▸ hfree, fun ht => htorn (htorn' _ ht)⟩
  | handle x _ _ _ _ _ _ hlife' _ _ hfree' htorn' =>
    exact ⟨(hlife' _).trans hlife, hfree' ▸ hfree,
      fun ht => absurd (htorn'.symm.trans ht) (by simp)⟩
  | start x _ _ hother _ hfree' htorn' =>
    rw [hfree', List.mem_cons, not_or] at hfree
    refine ⟨?_, hfree.2, fun ht => absurd (htorn'.symm.trans ht) (by simp)⟩
    rw [hother _ hfree.1]
    exact hlife
  | close x _ _ _ hconns hfree' htorn' =>
    refine ⟨hconns ▸ hlife, hfree' ▸ hfree, fun ht => hclose x rfl (hself ?_)⟩
    exact Option.some.inj (htorn'.symm.trans ht)
  | drop x _ _ _ hconns hfree' htorn' =>
    refine ⟨hconns ▸ hlife, hfree' ▸ hfree, fun ht => hdrop x rfl (hself ?_)⟩
    exact Option.some.inj (htorn'.symm.trans ht)
  | wipe x hx _ hlife' _ hfree' htorn' =>
    refine ⟨(hlife' _).trans hlife, fun hmem => ?_,
      fun ht => absurd (htorn'.symm.trans ht) (by simp)⟩
    rcases hfree' _ hmem with he | hmem
    · exact htorn (he ▸ hx)
    · exact hfree hmem

end Lives

/-! ## States -/

/-- The slot whose state an event sets. -/
def SlotEvent.sets : SlotEvent → Option Slot
  | .handle x _ _ _ => some x
  | .start x => some x
  | .close _ => none
  | .drop _ => none
  | .wipe x => some x

/-- What a step does to the state of the connection in a slot. -/
inductive StateEffect (s s' : Server) (x : Slot) : Option SlotEvent → Prop
  | same {event : Option SlotEvent} (hother : event.bind SlotEvent.sets ≠ some x)
      (h : (s'.conns x).state = (s.conns x).state) : StateEffect s s' x event
  | closing (hopen : (s.conns x).state = .open) (h : (s'.conns x).state = .closing) :
      StateEffect s s' x none
  | marked (hx : s.ev.torn = some x) (htorn : s'.ev.torn = none)
      (h : (s'.conns x).state = .closed) : StateEffect s s' x none
  | handled {writing fail : Bool} {state : WsState} (h : (s'.conns x).state = state) :
      StateEffect s s' x (some (.handle x writing state fail))
  | started (h : (s'.conns x).state = .connecting ∨ (s'.conns x).state = .tlsHandshake)
      (hfd : (s'.conns x).fd.isSome = true) : StateEffect s s' x (some (.start x))
  | wiped (h : (s'.conns x).state = .connecting) : StateEffect s s' x (some (.wipe x))

/-- The connections stay as they are. -/
theorem StateEffect.keep (hconns : s'.conns = s.conns) (hevent : event.bind SlotEvent.sets = none) :
    StateEffect s s' x event :=
  .same (by rw [hevent]; simp) (by rw [hconns])

/-- One connection changes. -/
theorem StateEffect.update (hconns : s'.conns = (s.setConn y c).conns)
    (hevent : ∀ z, event.bind SlotEvent.sets = some z → z = y)
    (hself : x = y → s'.conns x = c → StateEffect s s' x event) : StateEffect s s' x event := by
  by_cases hxy : x = y
  · refine hself hxy ?_
    rw [hconns, hxy, Server.setConn_self]
  · refine .same (fun h => hxy (hevent x h)) ?_
    rw [hconns, Server.setConn_of_ne _ _ hxy]

/-- The same, without an event. -/
theorem StateEffect.updateSame (hconns : s'.conns = (s.setConn y c).conns)
    (hc : c.state = (s.conns y).state) : StateEffect s s' x none := by
  refine .same (by simp) ?_
  rw [hconns]
  exact s.setConn_same Conn.state hc x

theorem ioStep_state (h : s.ioStep state submit fail = some s') (x : Slot) :
    StateEffect s s' x (slotEvent s (.io state submit fail)) := by
  obtain ⟨pc, -, ⟨hhandling, rfl⟩ | ⟨y, writing, fd, hhandling, -, rfl⟩⟩ := ioStep_cases h
  · exact .keep rfl (by simp [slotEvent, hhandling])
  · simp only [slotEvent, hhandling, Option.map_some]
    refine .update (c := { s.conns y with state := state }) rfl
      (fun z hz => (Option.some.inj hz).symm) fun hxy h => ?_
    subst hxy
    exact .handled (by rw [h])

theorem newConn_state (s : Server) (fd : Fd) (x : Slot) (tls : Option Bool) :
    (newConn s fd x tls).state = .connecting ∨ (newConn s fd x tls).state = .tlsHandshake := by
  unfold newConn
  split
  · exact .inr rfl
  · exact .inl rfl

theorem step_state (hstep : s.step cfg a = some s') (x : Slot) :
    StateEffect s s' x (slotEvent s a) := by
  have hsets : ∀ {y : Slot} {event : SlotEvent}, event.sets = some y →
      ∀ z, (some event).bind SlotEvent.sets = some z → z = y :=
    fun hy z hz => Option.some.inj (hz.symm.trans hy)
  cases step_move hstep with
  | accept | reject | handOver | handOther | otherOpen | otherClose | check | readGeneration
  | queueControl | queueData | complete | wait | reap | batchEnd | takeWakeup | takeAio | takeConn
  | loopEnd | completeClose => exact .keep rfl rfl
  | find kind fd y => exact .updateSame (y := y) rfl rfl
  | dropRef k ok d => exact .updateSame (y := d.slot) rfl rfl
  | pass | stale | handle | hangup => exact ioStep_state hstep x
  | noSlot tls sendOk fd queue hev hq hfree => exact .keep rfl (by simp [slotEvent, hq, hfree])
  | dropData _ _ _ _ _ _ _ _ hq | noTarget _ _ _ _ _ _ _ _ hq | act _ _ _ _ _ _ _ _ _ _ hq =>
    exact .keep rfl (by simp [slotEvent, hq])
  | tlsFail sendOk fd queue y rest hev hq hfree =>
    simp only [slotEvent, hq, hfree]
    refine .update (c := wsConnectionCleanup (newConn s fd y none)) rfl (hsets rfl) fun hxy h => ?_
    subst hxy
    exact .started (by rw [h]; exact .inl rfl) (by rw [h]; rfl)
  | register tls sendOk fd queue y rest hev hq hfree =>
    simp only [slotEvent, hq, hfree]
    refine .update (c := newConn s fd y tls) rfl (hsets rfl) fun hxy h => ?_
    subst hxy
    have hstate := newConn_state s fd x tls
    have hfd := newConn_fd s fd x tls
    rw [← h] at hstate hfd
    exact .started hstate (by rw [hfd]; rfl)
  | deliver tls sendOk fd y z generation life queue c hev hq =>
    obtain ⟨-, -, -, hconns | ⟨z, hopen, hconns⟩⟩ := deliver_cases hev hq hstep <;>
      simp only [slotEvent, hq]
    · exact .keep hconns rfl
    · refine .update hconns (by simp) fun hxz h => ?_
      subst hxz
      exact .closing hopen (by rw [h])
  | releaseUnknown ok fd event back hev hmap => exact .keep rfl (by simp [slotEvent, hev, hmap])
  | release ok fd event back y hev hmap =>
    exact .keep rfl (by simp [slotEvent, hev, hmap, SlotEvent.sets])
  | hashRemove _ _ _ _ hev | closeHash _ _ _ hev | insert _ _ hev | insertFail _ _ hev =>
    exact .keep rfl (by simp [slotEvent, hev])
  | unrefLast ok y back free hev href =>
    simp only [slotEvent, hev, href]
    refine .update (c := wsConnectionCleanup (s.conns y)) rfl (hsets rfl) fun hxy h => ?_
    subst hxy
    exact .wiped (by rw [h]; rfl)
  | unrefShared ok y back hev href =>
    simp only [slotEvent, hev, if_neg href]
    exact .updateSame (y := y) rfl rfl
  | mark ok y back hev =>
    simp only [slotEvent, hev]
    refine .update (c := { s.conns y with state := .closed }) rfl (by simp) fun hxy h => ?_
    subst hxy
    exact .marked (by rw [hev]; rfl) (Back.torn_pc back) (by rw [h])
  | closeRelease ok fd y hev => exact .keep rfl (by simp [slotEvent, hev, SlotEvent.sets])
  | poll ok fd y f hev hadd => exact .keep rfl (by simp [slotEvent, hev, hadd])
  | pollFail ok fd y hev hadd =>
    simp only [slotEvent, hev, hadd]
    refine .update (c := wsConnectionCleanup (s.conns y)) rfl (hsets rfl) fun hxy h => ?_
    subst hxy
    exact .wiped (by rw [h]; rfl)

/-- A slot goes on in its life, or begins another one. -/
theorem step_life (hstep : s.step cfg a = some s') (x : Slot) :
    ((s'.conns x).life = (s.conns x).life ∧ (s'.conns x).generation = (s.conns x).generation) ∨
      (slotEvent s a = some (.start x) ∧ (s'.conns x).life = (s.conns x).life + 1 ∧
        (s'.conns x).generation = ((s.conns x).generation + 1) % 2 ^ 32) := by
  rcases life_move (step_move hstep) x with hsame | ⟨hfree, ⟨fd, tls, sendOk, ha, hq⟩, hnew⟩
  · exact .inl hsame
  · exact .inr ⟨by simp only [ha, slotEvent, hq, hfree], hnew⟩

/-- A connection that has a descriptor keeps one. -/
theorem step_fd (hstep : s.step cfg a = some s') (hx : (s.conns x).fd.isSome = true) :
    (s'.conns x).fd.isSome = true := by
  cases conn_move (step_move hstep) x with
  | same h | counted _ h | stated _ _ _ h | marked _ h =>
    rw [h]
    exact hx
  | wiped _ h =>
    rw [h]
    rfl
  | started fd tls _ _ _ _ h =>
    rcases h with ⟨h, -⟩ | h
    · rw [h, newConn_fd]
      rfl
    · rw [h]
      rfl

/-- Reads are started by handlers and completions only. -/
theorem step_aio (hio : ∀ state submit fail, a ≠ .io state submit fail)
    (hcompletion : ∀ k submit close, a ≠ .completion k submit close)
    (hstep : s.step cfg a = some s') : s'.aio = s.aio := by
  cases step_move hstep with
  | pass | stale | handle | hangup => exact absurd rfl (hio _ _ _)
  | complete | completeClose => exact absurd rfl (hcompletion _ _ _)
  | _ => rfl

/-- No slot on the free stack is in state HTTP. -/
theorem free_not_http (hslot : SlotInv cfg s) (hreg : registrationWorks s a = true)
    (hstep : s.step cfg a = some s') (h : ∀ x ∈ s.free, (s.conns x).state ≠ .http) :
    ∀ x ∈ s'.free, (s'.conns x).state ≠ .http := by
  intro x hx
  have hstate := step_state hstep x
  have heffect := step_effect hslot hreg hstep
  generalize slotEvent s a = event at hstate heffect
  -- a connection whose state is set by no event keeps it, is marked closing or closed
  have hkeep : event.bind SlotEvent.sets ≠ some x → (s.conns x).state ≠ .http →
      (s'.conns x).state ≠ .http := by
    intro hother hne
    cases hstate with
    | same _ heq => rwa [heq]
    | closing _ hc => simp [hc]
    | marked _ _ hc => simp [hc]
    | handled | started | wiped => exact absurd rfl hother
  cases heffect with
  | quiet _ _ _ hfree => exact hkeep (by simp) (h x (hfree ▸ hx))
  | handle y writing state fail fd hy _ _ _ _ hfree =>
    rw [hfree] at hx
    refine hkeep (fun he => ?_) (h x hx)
    exact (hslot.map fd y hy).2.1 (Option.some.inj he ▸ hx)
  | start y _ _ _ _ hfree =>
    have hnd := hslot.nodup
    rw [hfree, List.nodup_cons] at hnd
    refine hkeep (fun he => hnd.1 (Option.some.inj he ▸ hx)) (h x ?_)
    rw [hfree]
    exact List.mem_cons_of_mem _ hx
  | close _ _ _ _ _ hfree | drop _ _ _ _ _ hfree =>
    exact hkeep (by simp [SlotEvent.sets]) (h x (hfree ▸ hx))
  | wipe y _ _ _ _ hfree =>
    by_cases hxy : x = y
    · subst hxy
      cases hstate with
      | same hother => exact absurd rfl hother
      | wiped hc => simp [hc]
    · exact hkeep (fun he => hxy (Option.some.inj he).symm) (h x ((hfree x hx).resolve_left hxy))

end Portico.Loop
