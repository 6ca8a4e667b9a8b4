/-
  Pings, pongs and close requests: on whom they act.

  Such a message carries a descriptor and nothing else, and `process_*_message` looks the
  connection up again. `ControlInv`: for every queued one, whoever is registered under its
  descriptor is the connection that its sender looked up, and no new connection under that
  descriptor stands before it in the queue. Since the queue is first in, first out, this stays
  so until it is processed.

  Proved: `control_acts_on_its_target`, for runs in which, when such a message is queued, no
  other connection is registered or queued under its descriptor. The senders do not check that:
  between lookup and enqueue the connection can be closed and the descriptor accepted again
  (`close_request_hits_successor`).
-/
import Portico.Loop.Slots

namespace Portico.Loop

open Portico.Lib Portico.Ws

def Msg.controlFd? : Msg → Option Fd
  | .control _ fd _ _ => some fd
  | _ => none

structure ControlInv (s : Server) : Prop where
  target : ∀ kind fd x life, Msg.control kind fd x life ∈ s.queue →
    ∀ y, s.fdMap fd = some y → s.lifeOf y = (x, life)
  order : s.queue.Pairwise fun a b => ∀ fd, a = .newConnection fd → b.controlFd? ≠ some fd
  acted : ∀ p ∈ s.acted, p.1 = p.2

/-- When a ping, pong or close request is queued, its descriptor is registered to nobody but the
    connection that was looked up, and no new connection under it is queued. -/
def noSuccessor (s : Server) (a : Label) : Bool :=
  match a with
  | .send k true =>
    match s.sends[k]? with
    | some ⟨.control _, fd, x, life, .checked⟩ =>
      (s.fdMap fd).all (fun y => s.lifeOf y = (x, life)) &&
        !(s.queue.contains (.newConnection fd))
    | _ => true
  | _ => true

section Step

variable {cfg : Config} {s s' : Server} {a : Label}

/-- A control message without a successor is queued. -/
theorem noSuccessor_queued {k : Nat} {d : Send} {c : Control}
    (hok : noSuccessor s (.send k true) = true) (hd : s.sends[k]? = some d)
    (hstage : d.stage = .checked) (hkind : d.kind = .control c) :
    (∀ y, s.fdMap d.fd = some y → s.lifeOf y = (d.slot, d.life)) ∧
      Msg.newConnection d.fd ∉ s.queue := by
  obtain ⟨kind, fd, x, life, stage⟩ := d
  obtain rfl : stage = .checked := hstage
  obtain rfl : kind = .control c := hkind
  simp only [noSuccessor, hd, Bool.and_eq_true] at hok
  refine ⟨fun y hy => ?_, by simpa using hok.2⟩
  have hmap := hok.1
  rw [hy] at hmap
  exact of_decide_eq_true hmap

/-- What is carried out is the first message of the queue, on whoever is registered. -/
theorem acted_move (hm : Move cfg s a s') :
    s'.acted = s.acted ∨ ∃ kind fd x y life queue, s.queue = .control kind fd x life :: queue ∧
      s.fdMap fd = some y ∧ s'.acted = s.acted ++ [((x, life), s.lifeOf y)] := by
  cases hm with
  | act _ _ kind fd x y life queue _ _ hq hmap =>
    exact .inr ⟨kind, fd, x, y, life, queue, hq, hmap, rfl⟩
  | _ => exact .inl rfl

/-- A message for whose descriptor no new connection is queued may be queued. -/
theorem ControlInv.order_append (h : ControlInv s) {m : Msg}
    (hm : ∀ fd, Msg.newConnection fd ∈ s.queue → m.controlFd? ≠ some fd) :
    (s.queue ++ [m]).Pairwise fun a b => ∀ fd, a = .newConnection fd → b.controlFd? ≠ some fd := by
  refine List.pairwise_append.mpr ⟨h.order, List.pairwise_singleton _ _, ?_⟩
  intro a ha b hb fd hfd
  rw [List.mem_singleton.mp hb]
  exact hm fd (hfd ▸ ha)

theorem ControlInv.move (h : ControlInv s) (hslot : SlotInv cfg s) (hok : noSuccessor s a = true)
    (hm : Move cfg s a s') : ControlInv s' := by
  refine ⟨fun kind fd x life hmem y hy => ?_, ?_, fun p hp => ?_⟩
  · -- no message behind a new connection is for its descriptor
    have hold : s.fdMap fd = some y := by
      refine (hslot.map_move hm hy).resolve_right fun ⟨_, hq⟩ => ?_
      have horder := h.order
      rw [hq, List.pairwise_cons] at horder
      exact horder.1 _ hmem fd rfl rfl
    have hlife : s'.lifeOf y = s.lifeOf y := by
      rcases life_move hm y with ⟨hlife, _⟩ | ⟨hfree, _⟩
      · exact congrArg (Prod.mk y) hlife
      · exact absurd rfl (hslot.ne_of_free hold hfree)
    rw [hlife]
    cases queue_move hm with
    | same hq => exact h.target kind fd x life (hq ▸ hmem) y hold
    | pop m hq => exact h.target kind fd x life (hq ▸ List.mem_cons_of_mem m hmem) y hold
    | handOver fd' hacc hq => exact h.target kind fd x life (by simpa [hq] using hmem) y hold
    | data k d g hd hstage hq => exact h.target kind fd x life (by simpa [hq] using hmem) y hold
    | control k d c ha hd hstage hkind hq =>
      rw [hq, List.mem_append, List.mem_singleton] at hmem
      rcases hmem with hmem | hmem
      · exact h.target kind fd x life hmem y hold
      · obtain ⟨rfl, rfl, rfl, rfl⟩ := Msg.control.inj hmem
        exact (noSuccessor_queued (ha ▸ hok) hd hstage hkind).1 y hold
  · cases queue_move hm with
    | same hq => exact hq ▸ h.order
    | pop m hq =>
      have horder := h.order
      rw [hq] at horder
      exact horder.of_cons
    | handOver _ _ hq | data _ _ _ _ _ hq => exact hq ▸ h.order_append fun _ _ => nofun
    | control k d c ha hd hstage hkind hq =>
      rw [hq]
      refine h.order_append fun fd hmem hfd => ?_
      cases hfd
      exact (noSuccessor_queued (ha ▸ hok) hd hstage hkind).2 hmem
  · rcases acted_move hm with hsame | ⟨kind, fd, x, y, life, queue, hq, hmap, hacted⟩
    · exact h.acted p (hsame ▸ hp)
    · rw [hacted, List.mem_append, List.mem_singleton] at hp
      rcases hp with hp | rfl
      · exact h.acted p hp
      · exact (h.target kind fd x life (by simp [hq]) y hmap).symm

end Step

theorem ControlInv.init (cfg : Config) : ControlInv (.init cfg) :=
  ⟨fun _ _ _ _ hm => absurd hm List.not_mem_nil, .nil, fun _ hp => absurd hp List.not_mem_nil⟩

/-- When a control message is queued, nobody else has or is about to get its descriptor; and new
    connections get registered. -/
def controlsReachTarget (s : Server) (a : Label) : Bool :=
  registrationWorks s a && noSuccessor s a

/-- In every run whose steps meet `controlsReachTarget`, with at most 2^16 slots: each ping, pong
    or close request that was carried out was carried out on the connection, slot and life, that
    its sender had looked up. -/
theorem control_acts_on_its_target (cfg : Config) (hcap : cfg.maxConnections ≤ 2 ^ 16)
    (labels : List Label) (s : Server)
    (hok : RunMeets (Server.step cfg) (controlsReachTarget · ·) (.init cfg) labels)
    (hrun : run (Server.step cfg) (.init cfg) labels = some s) :
    ∀ p ∈ s.acted, p.1 = p.2 := by
  have h : SlotInv cfg s ∧ ControlInv s := by
    refine run_invariant (I := fun s => SlotInv cfg s ∧ ControlInv s) ?_ labels _ s
      ⟨.init cfg, .init cfg⟩ hok hrun
    rintro s a s' ⟨hslot, hctl⟩ hok hstep
    obtain ⟨hreg, hno⟩ := Bool.and_eq_true_iff.mp hok
    have hm := step_move hstep
    exact ⟨hslot.move hcap hreg hm, hctl.move hslot hno hm⟩
  exact h.2.acted

/-- A connection is looked up and pinged, then looked up and closed; both requests act on it. -/
theorem control_acts_on_its_target_ping_close :
    let labels : List Label := [.accept 3, .handOver, .wait [.wakeup], .next, .message none true,
      .cont true, .cont true, .next, .next, .wait [.conn ⟨3, 0, true, false, false⟩], .next,
      .io .open false false, .io .open false false, .io .open false false, .next,
      .find (.control .ping) 3, .send 0 true, .send 0 true, .send 0 true,
      .find (.control .close) 3, .send 0 true, .send 0 true, .send 0 true,
      .wait [.wakeup], .next, .message none true, .message none true]
    (run (Server.step ⟨2, 8⟩) (.init ⟨2, 8⟩) labels).map Server.acted =
        some [((0, 1), (0, 1)), ((0, 1), (0, 1))] ∧
      ∀ s, run (Server.step ⟨2, 8⟩) (.init ⟨2, 8⟩) labels = some s → ∀ p ∈ s.acted, p.1 = p.2 := by
  refine ⟨by decide +kernel, fun s hrun => ?_⟩
  exact control_acts_on_its_target ⟨2, 8⟩ (by decide) _ s (by decide +kernel) hrun

/-- A caller looks up descriptor 3. Before it queues its close request the connection is reaped,
    3 is accepted again and handed over; the request is behind the new connection in the queue
    and tears it down. -/
theorem close_request_hits_successor :
    (run (Server.step ⟨2, 8⟩) (.init ⟨2, 8⟩) [.accept 3, .handOver, .wait [.wakeup], .next,
      .message none true, .cont true, .cont true, .next, .next,
      .find (.control .close) 3, .send 0 true,
      .reap 0, .cont true, .cont true, .cont true, .cont true,
      .accept 3, .handOver, .send 0 true,
      .wait [.wakeup], .next, .message none true, .cont true, .cont true,
      .message none true, .cont true, .cont true]).map
        (fun s => (s.acted, s.fdMap 3, s.closed.map ClosedFd.fd)) =
      some ([((0, 1), (1, 1))], none, [3, 3]) := by
  decide +kernel

end Portico.Loop
