/-
  The connection reaper: `reap_stale_connections` of src/ws/ws_event_thread.c and the two
  timestamps it reads, `last_activity` and `ping_sent_at`.

  Model. A clock value is a `time_t`, an integer; the timestamps are `uint32_t` casts of it.
  `reapAction` is what the sweep decides for one slot, `reapSlot` what it does to it.
  `KeepAlive` is an open connection under inbound reads and sweeps in any order, at the times
  of a clock that never goes back. History: the time of the last inbound byte, the PINGs sent
  since then, and when the connection was reaped.

  Proved: `reaper_waits_for_silence`, as long as the clock fits the 32-bit timestamps a
  connection is reaped only after `ping_interval + pong_timeout` seconds without an inbound
  byte, with at most one PING between two of them. From 2^32 on the cast loses the high bits,
  and a connection that has just been read is taken for one that was silent for 2^32 seconds
  (`reaped_after_one_second`).
-/
import Portico.Lib.Machine
import Portico.Ws.Message

namespace Portico.Loop

open Portico.Lib Portico.Ws

/-! ## One sweep over one slot -/

/-- The cast `(uint32_t)t`. -/
def toUint32 (t : Int) : Nat := (t % 4294967296).toNat

/-- The timeouts of the configuration, in seconds. -/
structure ReapConfig where
  handshakeTimeout : Nat
  pingInterval : Nat
  pongTimeout : Nat
  deriving DecidableEq, Repr

/-- `hs_timeout` and `pong_timeout` of the sweep: 0 stands for 10 seconds. -/
def ReapConfig.hsTimeout (cfg : ReapConfig) : Nat :=
  if cfg.handshakeTimeout = 0 then 10 else cfg.handshakeTimeout

def ReapConfig.pongSeconds (cfg : ReapConfig) : Nat :=
  if cfg.pongTimeout = 0 then 10 else cfg.pongTimeout

/-- The fields of a slot that the sweep reads; `fd` is `(int)conn->fd`. -/
structure ReapSlot where
  fd : Int
  state : WsState
  connectTime : Nat
  lastActivity : Nat
  pingSentAt : Nat
  deriving DecidableEq, Repr

inductive ReapAction where
  | leave
  | close
  | ping
  deriving DecidableEq, Repr

def reapAction (cfg : ReapConfig) (now : Int) (slot : ReapSlot) : ReapAction :=
  let idle := now - slot.lastActivity
  if slot.fd < 0 then .leave
  else if slot.state = .connecting || slot.state = .tlsHandshake then
    if slot.connectTime = 0 then .leave
    else if (cfg.hsTimeout : Int) ≤ now - slot.connectTime then .close
    else .leave
  else if cfg.pingInterval = 0 || slot.lastActivity = 0 then .leave
  else if slot.state = .open then
    if slot.pingSentAt ≠ 0 then
      if (cfg.pongSeconds : Int) ≤ now - slot.pingSentAt then .close else .leave
    else if (cfg.pingInterval : Int) ≤ idle then .ping
    else .leave
  else if slot.state = .http then
    if (cfg.pingInterval : Int) + cfg.pongSeconds ≤ idle then .close else .leave
  else .leave

/-- The sweep at one slot: the slot then, and whether `close_connection` was called. `pingOk`
    says whether the PING could be written. -/
def reapSlot (cfg : ReapConfig) (now : Int) (pingOk : Bool) (slot : ReapSlot) :
    ReapSlot × Bool :=
  match reapAction cfg now slot with
  | .leave => (slot, false)
  | .close => (slot, true)
  | .ping => if pingOk then ({ slot with pingSentAt := toUint32 now }, false) else (slot, true)

/-- `ws_connection_add_bytes_received`. -/
def ReapSlot.addBytesReceived (slot : ReapSlot) (now : Int) : ReapSlot :=
  { slot with lastActivity := toUint32 now, pingSentAt := 0 }

variable {t : Int}

/-- For a time that fits, the cast keeps the value; before 1970 it gives a later one. -/
theorem le_toUint32 (h : t < 4294967296) : t ≤ toUint32 t := by
  unfold toUint32
  omega

theorem toUint32_of_pos (hpos : 0 ≤ t) (h : t < 4294967296) : (toUint32 t : Int) = t := by
  unfold toUint32
  omega

/-! ## An open connection under reads and sweeps -/

structure KeepAlive where
  slot : ReapSlot
  clock : Int
  lastInbound : Int
  pings : Nat
  reapedAt : Option Int
  deriving DecidableEq, Repr

/-- A connection accepted at `accepted` whose upgrade request was read at `t`. -/
def KeepAlive.opened (fd accepted t : Int) : KeepAlive :=
  { slot := { fd := fd, state := .open, connectTime := toUint32 accepted,
              lastActivity := toUint32 t, pingSentAt := 0 }
    clock := t
    lastInbound := t
    pings := 0
    reapedAt := none }

/-- At its time, a read that returned bytes, or a sweep whose PING can be written. -/
inductive KeepAliveOp where
  | inbound (now : Int)
  | sweep (now : Int)
  deriving DecidableEq, Repr

def KeepAliveOp.now : KeepAliveOp → Int
  | .inbound now => now
  | .sweep now => now

/-- One step; the clock does not go back, and nothing happens to a reaped connection. -/
def keepAliveStep (cfg : ReapConfig) (k : KeepAlive) (op : KeepAliveOp) : Option KeepAlive :=
  if k.reapedAt.isSome || op.now < k.clock then none
  else match op with
    | .inbound now =>
      some { k with
        slot := k.slot.addBytesReceived now
        clock := now
        lastInbound := now
        pings := 0 }
    | .sweep now =>
      let (slot, closed) := reapSlot cfg now true k.slot
      some { k with
        slot := slot
        clock := now
        pings := if reapAction cfg now k.slot = .ping then k.pings + 1 else k.pings
        reapedAt := if closed then some now else none }

variable {slot : ReapSlot}

/-- What a sweep can do to an open connection. -/
theorem reapAction_open (cfg : ReapConfig) (now : Int) (hstate : slot.state = .open) :
    match reapAction cfg now slot with
    | .leave => True
    | .close => slot.pingSentAt ≠ 0 ∧ (cfg.pongSeconds : Int) ≤ now - slot.pingSentAt
    | .ping => slot.pingSentAt = 0 ∧ slot.lastActivity ≠ 0 ∧
        (cfg.pingInterval : Int) ≤ now - slot.lastActivity := by
  have hshape : reapAction cfg now slot =
      if slot.fd < 0 then .leave
      else if cfg.pingInterval = 0 || slot.lastActivity = 0 then .leave
      else if slot.pingSentAt ≠ 0 then
        if (cfg.pongSeconds : Int) ≤ now - slot.pingSentAt then .close else .leave
      else if (cfg.pingInterval : Int) ≤ now - slot.lastActivity then .ping
      else .leave := by
    simp [reapAction, hstate]
  rw [hshape]
  split_ifs with hfd hoff hpinged hlate hidle
  · trivial
  · trivial
  · exact ⟨hpinged, hlate⟩
  · trivial
  · simp only [Bool.or_eq_true, decide_eq_true_eq, not_or] at hoff
    exact ⟨not_not.mp hpinged, hoff.2, hidle⟩
  · trivial

/-- A plain-HTTP connection is left alone or closed for its idle time. -/
theorem reapAction_http (cfg : ReapConfig) (now : Int) (hstate : slot.state = .http) :
    reapAction cfg now slot = .leave ∨ reapAction cfg now slot = .close ∧
      (cfg.pingInterval : Int) + cfg.pongSeconds ≤ now - slot.lastActivity := by
  have hshape : reapAction cfg now slot =
      if slot.fd < 0 then .leave
      else if cfg.pingInterval = 0 || slot.lastActivity = 0 then .leave
      else if (cfg.pingInterval : Int) + cfg.pongSeconds ≤ now - slot.lastActivity then .close
      else .leave := by
    simp [reapAction, hstate]
  rw [hshape]
  split_ifs with hfd hoff hidle
  · exact .inl rfl
  · exact .inl rfl
  · exact .inr ⟨rfl, hidle⟩
  · exact .inl rfl

structure KeepAliveInv (cfg : ReapConfig) (k : KeepAlive) : Prop where
  state : k.slot.state = .open
  active : k.lastInbound ≤ k.slot.lastActivity
  quiet : k.slot.pingSentAt = 0 → k.pings = 0
  pinged : k.slot.pingSentAt ≠ 0 →
    k.pings = 1 ∧ k.lastInbound + cfg.pingInterval ≤ k.slot.pingSentAt
  reaped : ∀ t, k.reapedAt = some t →
    k.lastInbound + cfg.pingInterval + cfg.pongSeconds ≤ t

theorem KeepAliveInv.opened (cfg : ReapConfig) (fd accepted : Int) (h : t < 4294967296) :
    KeepAliveInv cfg (.opened fd accepted t) :=
  ⟨rfl, le_toUint32 h, fun _ => rfl, fun hne => absurd rfl hne,
    fun _ hr => absurd hr (by simp [KeepAlive.opened])⟩

variable {cfg : ReapConfig} {now : Int}

theorem KeepAliveInv.inbound {k : KeepAlive} (h : KeepAliveInv cfg k) (hreaped : k.reapedAt = none)
    (hnow : now < 4294967296) :
    KeepAliveInv cfg { k with slot := k.slot.addBytesReceived now, clock := now,
                              lastInbound := now, pings := 0 } :=
  ⟨h.state, le_toUint32 hnow, fun _ => rfl, fun hne => absurd rfl hne,
    fun t hr => absurd (hreaped.symm.trans hr) (by simp)⟩

theorem KeepAliveInv.sweep {k k' : KeepAlive} (h : KeepAliveInv cfg k) (hnow : now < 4294967296)
    (hstep : keepAliveStep cfg k (.sweep now) = some k') : KeepAliveInv cfg k' := by
  unfold keepAliveStep at hstep
  split at hstep
  · cases hstep
  have hact := reapAction_open cfg now h.state
  simp only [reapSlot] at hstep
  cases ha : reapAction cfg now k.slot with
  | leave =>
    rw [ha] at hstep
    obtain rfl := Option.some.inj hstep
    exact ⟨h.state, h.active, h.quiet, h.pinged, fun t hr => absurd hr (by simp)⟩
  | close =>
    rw [ha] at hstep hact
    obtain rfl := Option.some.inj hstep
    refine ⟨h.state, h.active, h.quiet, h.pinged, fun t hr => ?_⟩
    obtain rfl : now = t := Option.some.inj hr
    have hping := (h.pinged hact.1).2
    have hlate := hact.2
    show k.lastInbound + cfg.pingInterval + cfg.pongSeconds ≤ now
    omega
  | ping =>
    rw [ha] at hstep hact
    obtain rfl := Option.some.inj hstep
    obtain ⟨hnone, hactive, hidle⟩ := hact
    have hfits : (toUint32 now : Int) = now := toUint32_of_pos (by omega) hnow
    have hlast := h.active
    refine ⟨h.state, h.active, fun hzero => ?_, fun _ => ⟨?_, ?_⟩,
      fun t hr => absurd hr (by simp)⟩
    · have hzero : toUint32 now = 0 := hzero
      omega
    · show k.pings + 1 = 1
      rw [h.quiet hnone]
    · show k.lastInbound + cfg.pingInterval ≤ toUint32 now
      omega

theorem keepAliveStep_inv (cfg : ReapConfig) (k : KeepAlive) (op : KeepAliveOp) (k' : KeepAlive)
    (h : KeepAliveInv cfg k) (hnow : op.now < 4294967296)
    (hstep : keepAliveStep cfg k op = some k') : KeepAliveInv cfg k' := by
  cases op with
  | inbound now =>
    unfold keepAliveStep at hstep
    split at hstep
    · cases hstep
    · rename_i hlive
      obtain rfl := Option.some.inj hstep
      have hnone : k.reapedAt = none := by
        cases hr : k.reapedAt with
        | none => rfl
        | some => exact absurd (by simp [hr]) hlive
      exact h.inbound hnone hnow
  | sweep => exact h.sweep hnow hstep

/-- While the clock fits 32 bits, for every spacing of reads and sweeps: an open connection is
    reaped only when its last inbound byte is `ping_interval + pong_timeout` seconds old, and
    at most one PING is sent between two inbound bytes. -/
theorem reaper_waits_for_silence (cfg : ReapConfig) (fd accepted t : Int)
    (ht : t < 4294967296) (ops : List KeepAliveOp) (k : KeepAlive)
    (hclock : RunMeets (keepAliveStep cfg) (fun _ op => op.now < 4294967296)
      (.opened fd accepted t) ops)
    (hrun : run (keepAliveStep cfg) (.opened fd accepted t) ops = some k) :
    k.pings ≤ 1 ∧ ∀ reaped, k.reapedAt = some reaped →
      k.lastInbound + cfg.pingInterval + cfg.pongSeconds ≤ reaped := by
  have h := run_invariant (keepAliveStep_inv cfg) ops _ k (.opened cfg fd accepted ht) hclock hrun
  refine ⟨?_, h.reaped⟩
  by_cases hp : k.slot.pingSentAt = 0
  · rw [h.quiet hp]
    exact Nat.zero_le 1
  · rw [(h.pinged hp).1]

/-- The timeouts of `ws_get_default_config`. -/
def ReapConfig.default : ReapConfig :=
  { handshakeTimeout := 10, pingInterval := 30, pongTimeout := 10 }

theorem reaper_waits_for_silence_pinged :
    let ops : List KeepAliveOp :=
      [.sweep 1010, .inbound 1020, .sweep 1050, .sweep 1055, .sweep 1060]
    (run (keepAliveStep .default) (.opened 9 1000 1000) ops).map
        (fun k => (k.pings, k.lastInbound, k.reapedAt)) = some (1, 1020, some 1060) ∧
      ∀ k, run (keepAliveStep .default) (.opened 9 1000 1000) ops = some k →
        k.pings ≤ 1 ∧ ∀ reaped, k.reapedAt = some reaped → k.lastInbound + 30 + 10 ≤ reaped :=
  ⟨by decide, fun k hrun => reaper_waits_for_silence .default 9 1000 1000 (by decide) _ k
    (by decide) hrun⟩

/-- Past 2^32 seconds: read at 4294967396, pinged by the sweep of that second, reaped by the
    next one. -/
theorem reaped_after_one_second :
    (run (keepAliveStep .default) (.opened 9 4294967390 4294967396)
        [.sweep 4294967396, .sweep 4294967397]).map
      (fun k => (k.pings, k.lastInbound, k.reapedAt)) =
    some (1, 4294967396, some 4294967397) := by
  decide

end Portico.Loop
