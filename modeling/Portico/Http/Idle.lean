/-
  When the reaper closes a plain-HTTP connection.

  Model. `TimedConn` is a connection with the stamps that the sweep reads and the time of the last
  byte in each direction. `timedStep` is an event of the connection, whose handler may take a
  while, or a sweep: every read that returns bytes and every completed chunk refresh
  `last_activity`; a send or a drain that the socket takes bytes of does not.

  Proved: `http_reaped_when_idle`, a plain-HTTP connection is reaped only after `ping_interval +
  pong_timeout` seconds without a byte in either direction, in every run in which the socket takes
  bytes only in the second of a read or of a completed chunk. A response that drains slowly breaks
  the condition, and the connection is then reaped in the middle of it (`slow_reader_reaped`).
-/
import Portico.Http.Events
import Portico.Loop.Reaper

namespace Portico.Http

open Portico.Lib Portico.Ws Portico.Ws.OutConn Portico.Loop WebConn

/-! ## A connection and its times -/

structure TimedConn where
  conn : WebConn
  fd : Nat
  connectTime : Nat
  lastActivity : Nat
  clock : Int
  lastIn : Option Int
  lastOut : Option Int
  reapedAt : Option Int

/-- A connection that is accepted at `t`. -/
def TimedConn.accepted (tls : Bool) (input : Bytes) (fd : Nat) (t : Int) : TimedConn :=
  { conn := .accepted tls input, fd := fd, connectTime := toUint32 t, lastActivity := toUint32 t
    clock := t, lastIn := none, lastOut := none, reapedAt := none }

def TimedConn.slot (c : TimedConn) : ReapSlot :=
  { fd := c.fd, state := c.conn.out.state, connectTime := c.connectTime
    lastActivity := c.lastActivity, pingSentAt := 0 }

/-- An event whose handler returns at `ends`, or a sweep. -/
inductive TimedOp where
  | event (ends : Int) (ev : WebEvent)
  | sweep

/-- The event is a call of `stream_chunk_complete`. -/
def WebEvent.completesChunk : WebEvent → Bool
  | .chunkDone _ _ => true
  | _ => false

/-- One step, at its time. Sweeps of an upgraded connection are left to the keepalive. -/
def timedStep (cfg : ReapConfig) (srv : WebServer) (c : TimedConn) :
    Int × TimedOp → Option TimedConn
  | (now, .event ends ev) =>
    if now < c.clock ∨ ends < now then none
    else (webStep srv c.conn ev).map fun conn =>
      { c with
        conn := conn
        clock := ends
        lastActivity :=
          if conn.received ≠ c.conn.received ∨ ev.completesChunk then toUint32 now
          else c.lastActivity
        lastIn := if conn.received ≠ c.conn.received then some now else c.lastIn
        lastOut := if conn.out.wire ≠ c.conn.out.wire then some ends else c.lastOut }
  | (now, .sweep) =>
    if now < c.clock ∨ c.conn.out.closed ∨ c.conn.out.state = .open then none
    else if (reapSlot cfg now true c.slot).2 then
      some { c with conn := c.conn.close, clock := now, reapedAt := some now }
    else some { c with clock := now }

/-! ## Whole runs -/

/-- The condition on a step: its time fits 32 bits, and the socket takes bytes only in the second
    of a read or of a completed chunk, which may be this event or one before it. -/
def PromptStep (c : TimedConn) : Int × TimedOp → Prop
  | (now, .event ends ev) => ends < 4294967296 ∧
    (ev.TakesNone ∨
      if c.conn.newBytes ev ≠ [] ∨ ev.completesChunk then now = ends
      else c.lastActivity = toUint32 ends)
  | (_, .sweep) => True

/-- No byte went either way after the time that `last_activity` stands for; a reaped connection
    was silent for as long as the configuration says. -/
structure IdleInv (cfg : ReapConfig) (c : TimedConn) : Prop where
  moved : ∀ t, c.lastIn = some t ∨ c.lastOut = some t → t ≤ c.clock ∧ t ≤ c.lastActivity
  live : c.reapedAt ≠ none → c.conn.out.closed = true
  reaped : c.conn.out.state = .http → ∀ reaped, c.reapedAt = some reaped →
    ∀ t, c.lastIn = some t ∨ c.lastOut = some t → t + cfg.pingInterval + cfg.pongSeconds ≤ reaped

variable {cfg : ReapConfig} {srv : WebServer} {now : Int} {t c2 : TimedConn}

/-- A byte that goes either way in an event goes before the time that `last_activity` then stands
    for. -/
theorem IdleInv.event (h : IdleInv cfg t) {ends : Int} {ev : WebEvent}
    (hprompt : PromptStep t (now, .event ends ev))
    (hstep : timedStep cfg srv t (now, .event ends ev) = some c2) : IdleInv cfg c2 := by
  obtain ⟨hfits, hprompt⟩ := hprompt
  dsimp only [timedStep] at hstep
  split at hstep
  · cases hstep
  rename_i htime
  rw [not_or] at htime
  obtain ⟨conn, hev, rfl⟩ := Option.map_eq_some_iff.mp hstep
  obtain ⟨hreceived, hsilent⟩ := webStep_does hev
  have hlive : t.reapedAt = none := by
    by_contra hne
    have hclosed := h.live hne
    rw [(webStep_handled hev).1] at hclosed
    cases hclosed
  have hread : conn.received ≠ t.conn.received ↔ t.conn.newBytes ev ≠ [] := by
    rw [hreceived]
    simp
  have hnow : now ≤ toUint32 now := le_toUint32 (by omega)
  have hends : ends ≤ toUint32 ends := le_toUint32 hfits
  refine ⟨fun s hs => ?_, fun hne => absurd hlive hne, fun _ r hr => by rw [hlive] at hr; cases hr⟩
  simp only [hread] at hs ⊢
  -- what went before the event, in it inwards, and in it outwards
  have hcases : (s ≤ t.clock ∧ s ≤ t.lastActivity) ∨ (s = now ∧ t.conn.newBytes ev ≠ []) ∨
      (s = ends ∧ ¬ev.TakesNone) := by
    rcases hs with hs | hs
    · split at hs
      · cases hs
        exact .inr (.inl ⟨rfl, ‹_›⟩)
      · exact .inl (h.moved s (.inl hs))
    · split at hs
      · rename_i hwire
        cases hs
        exact .inr (.inr ⟨rfl, fun hnone => hwire (hsilent hnone)⟩)
      · exact .inl (h.moved s (.inr hs))
  split
  · rename_i hstamp
    rw [if_pos hstamp] at hprompt
    rcases hcases with hold | ⟨rfl, -⟩ | ⟨rfl, htakes⟩
    · omega
    · omega
    · have := hprompt.resolve_left htakes
      omega
  · rename_i hstamp
    rw [if_neg hstamp] at hprompt
    rcases hcases with hold | ⟨-, hbytes⟩ | ⟨rfl, htakes⟩
    · omega
    · exact absurd (.inl hbytes) hstamp
    · have := hprompt.resolve_left htakes
      omega

theorem IdleInv.sweep (h : IdleInv cfg t) (hstep : timedStep cfg srv t (now, .sweep) = some c2) :
    IdleInv cfg c2 := by
  dsimp only [timedStep] at hstep
  split at hstep
  · cases hstep
  rename_i hopen
  rw [not_or] at hopen
  have htick : ∀ s, t.lastIn = some s ∨ t.lastOut = some s → s ≤ now ∧ s ≤ t.lastActivity := by
    intro s hs
    have := h.moved s hs
    omega
  split at hstep
  · rename_i hreap
    cases hstep
    refine ⟨htick, fun _ => rfl, fun hstate reaped hr s hs => ?_⟩
    cases hr
    have hslot : t.slot.state = .http := hstate
    have hidle : (cfg.pingInterval : Int) + cfg.pongSeconds ≤ now - t.slot.lastActivity := by
      rcases reapAction_http cfg now hslot with hleave | ⟨-, hidle⟩
      · rw [reapSlot, hleave] at hreap
        cases hreap
      · exact hidle
    have hle := (htick s hs).2
    dsimp only [TimedConn.slot] at hidle
    omega
  · cases hstep
    exact ⟨htick, h.live, h.reaped⟩

theorem idleInv_step (cfg : ReapConfig) (srv : WebServer) (t : TimedConn) (op : Int × TimedOp)
    (c2 : TimedConn) (h : IdleInv cfg t) (hprompt : PromptStep t op)
    (hstep : timedStep cfg srv t op = some c2) : IdleInv cfg c2 := by
  obtain ⟨now, op⟩ := op
  cases op with
  | event => exact h.event hprompt hstep
  | sweep => exact h.sweep hstep

/-- In every run in which the socket takes bytes only in the second of a read or of a completed
    chunk, while the clock fits 32 bits: a plain-HTTP connection is reaped only after
    `ping_interval + pong_timeout` seconds without a byte in either direction. -/
theorem http_reaped_when_idle (cfg : ReapConfig) (srv : WebServer) (tls : Bool) (input : Bytes)
    (fd : Nat) (accepted : Int) (ops : List (Int × TimedOp)) (c : TimedConn)
    (hprompt : RunMeets (timedStep cfg srv) PromptStep (.accepted tls input fd accepted) ops)
    (hrun : run (timedStep cfg srv) (.accepted tls input fd accepted) ops = some c)
    (hstate : c.conn.out.state = .http) :
    ∀ reaped, c.reapedAt = some reaped →
      (∀ t, c.lastIn = some t → t + cfg.pingInterval + cfg.pongSeconds ≤ reaped) ∧
      ∀ t, c.lastOut = some t → t + cfg.pingInterval + cfg.pongSeconds ≤ reaped := by
  have hinit : IdleInv cfg (TimedConn.accepted tls input fd accepted) :=
    ⟨fun t ht => ht.elim (fun hn => nomatch hn) (fun hn => nomatch hn), fun hne => absurd rfl hne,
      fun _ r hr => nomatch hr⟩
  have hinv := run_invariant (idleInv_step cfg srv) ops _ c hinit hprompt hrun
  intro reaped hr
  exact ⟨fun t ht => hinv.reaped hstate reaped hr t (.inl ht),
    fun t ht => hinv.reaped hstate reaped hr t (.inr ht)⟩

/-- A connection whose client asks for `/a`. -/
def asking : TimedConn := .accepted false (ascii "GET /a HTTP/1.1\r\n\r\n") 9 999

/-- The request is read, and the socket answers the write of the response. -/
def askedAt (now : Int) (answers : List WriteAnswer) : Int × TimedOp :=
  (now, .event now (.readable .wants [⟨true, .bytes 99⟩, ⟨true, .again⟩]
    [{ Env.quiet with writes := fun _ => answers }]))

/-- The socket takes one more byte. -/
def drainedAt (now : Int) : Int × TimedOp :=
  (now, .event now (.writable .wants [.takes 0, .again] [] []))

/-- A response that is taken at once, and 40 seconds of silence. -/
theorem http_reaped_when_idle_silent :
    ∃ c, run (timedStep .default (pathServer false)) asking
        [askedAt 1000 [.takes 999], (1030, .sweep), (1040, .sweep)] = some c ∧
      c.lastIn = some 1000 ∧ c.lastOut = some 1000 ∧ c.reapedAt = some 1040 ∧
      (∀ t, c.lastIn = some t → t + 30 + 10 ≤ 1040) ∧
      ∀ t, c.lastOut = some t → t + 30 + 10 ≤ 1040 := by
  obtain ⟨c, hrun, hin, hout, hreaped, hstate⟩ : ∃ c,
      run (timedStep .default (pathServer false)) asking
        [askedAt 1000 [.takes 999], (1030, .sweep), (1040, .sweep)] = some c ∧
      c.lastIn = some 1000 ∧ c.lastOut = some 1000 ∧ c.reapedAt = some 1040 ∧
      c.conn.out.state = .http :=
    ⟨_, rfl, by decide +kernel, by decide +kernel, by decide +kernel, by decide +kernel⟩
  have hprompt : RunMeets (timedStep .default (pathServer false)) PromptStep asking
      [askedAt 1000 [.takes 999], (1030, .sweep), (1040, .sweep)] :=
    ⟨⟨by decide, .inr (by decide +kernel)⟩,
      fun _ _ => ⟨trivial, fun _ _ => ⟨trivial, fun _ _ => trivial⟩⟩⟩
  exact ⟨c, hrun, hin, hout, hreaped, http_reaped_when_idle .default (pathServer false) false
    (ascii "GET /a HTTP/1.1\r\n\r\n") 9 999 _ c hprompt hrun hstate 1040 hreaped⟩

/-- A reader that takes a byte of the response every few seconds: the last one is one second old
    when the connection is reaped, with bytes still to come. -/
theorem slow_reader_reaped :
    ∃ c, run (timedStep .default (pathServer false)) asking
        [askedAt 1000 [.takes 0, .again], drainedAt 1020, drainedAt 1039, (1040, .sweep)] = some c ∧
      c.conn.out.wire.length = 3 ∧ c.conn.out.out.unsent ≠ [] ∧ c.lastOut = some 1039 ∧
      c.reapedAt = some 1040 :=
  ⟨_, rfl, by decide +kernel, by decide +kernel, by decide +kernel, by decide +kernel⟩

end Portico.Http
