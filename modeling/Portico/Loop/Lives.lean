/-
  Text and binary messages: to which life of a slot they go.

  Such a message carries descriptor, slot and generation. The event thread compares generation and
  state of the slot, and then sends on whatever connection is registered under the descriptor.
  `LifeInv`: a slot that an API call holds is still in the life that the call looked up, and a
  queued message is for a life of its slot that is over or goes on under the message's
  descriptor.

  Proved: `data_reaches_looked_up_life`, for runs that meet `sendsStayWithLife`, with one event
  thread and fewer than 2^32 lives per slot: a message that is sent is sent on the slot and life
  that its sender looked up. Where the event thread has closed a number that was accepted again,
  two connections are queued under one number, the map follows the last of them and the hash the
  first, and a message goes to a connection that its sender did not look up
  (`data_reaches_other_connection`).
-/
import Portico.Loop.References

namespace Portico.Loop

open Portico.Lib Portico.Ws List

/-- If the slot is registered then under this descriptor. -/
def Server.Under (s : Server) (x : Slot) (fd : Fd) : Prop := ∀ fd', s.fdMap fd' = some x → fd' = fd

structure LifeInv (s : Server) : Prop where
  generation : ∀ x, (s.conns x).generation = (s.conns x).life % 2 ^ 32
  sends : ∀ d ∈ s.sends, (s.conns d.slot).life = d.life ∧ s.Under d.slot d.fd ∧
    ∀ g, d.stage = .ready g → g = d.life % 2 ^ 32
  queue : ∀ fd x g life, Msg.data fd x g life ∈ s.queue → g = life % 2 ^ 32 ∧
    life ≤ (s.conns x).life ∧ ((s.conns x).life = life → s.Under x fd)
  delivered : ∀ p ∈ s.delivered, p.1 = p.2

/-- The condition of `closesNoPending`, the slots have had fewer than 2^32 connections, and no
    descriptor is handed to another event thread, which would put it into the same hash. -/
def sendsStayWithLife (s : Server) (a : Label) : Bool :=
  closesNoPending s a &&
    match a, s.queue with
    | .handOther, _ => false
    | .message _ _, .data _ x _ _ :: _ => (s.conns x).life < 2 ^ 32
    | _, _ => true

section Step

variable {cfg : Config} {s s' : Server} {a : Label} {x : Slot} {c : Conn} {queue : List Msg}
  {fd : Fd}

/-- No slot begins another life or another registration. -/
theorem LifeInv.keep (h : LifeInv s)
    (hgen : ∀ x, (s'.conns x).generation = (s.conns x).generation)
    (hlife : ∀ x, (s'.conns x).life = (s.conns x).life)
    (hmap : ∀ fd x, s'.fdMap fd = some x → s.fdMap fd = some x)
    (hsends : ∀ d ∈ s'.sends, d ∈ s.sends)
    (hqueue : ∀ fd x g life, Msg.data fd x g life ∈ s'.queue → Msg.data fd x g life ∈ s.queue)
    (hdel : s'.delivered = s.delivered) : LifeInv s' := by
  have hunder : ∀ {x fd}, s.Under x fd → s'.Under x fd := fun hu fd' hx => hu fd' (hmap fd' _ hx)
  refine ⟨fun x => ?_, fun d hd => ?_, fun fd x g life hm => ?_, hdel ▸ h.delivered⟩
  · rw [hgen, hlife]
    exact h.generation x
  · obtain ⟨h1, h2, h3⟩ := h.sends d (hsends d hd)
    exact ⟨(hlife d.slot).trans h1, hunder h2, h3⟩
  · obtain ⟨h1, h2, h3⟩ := h.queue fd x g life (hqueue fd x g life hm)
    rw [hlife]
    exact ⟨h1, h2, fun hl => hunder (h3 hl)⟩

/-- A step that changes something else of a connection. -/
theorem LifeInv.setConn (h : LifeInv s) (hconns : s'.conns = (s.setConn x c).conns)
    (hgen : c.generation = (s.conns x).generation) (hlife : c.life = (s.conns x).life)
    (hmap : s'.fdMap = s.fdMap) (hsends : ∀ d ∈ s'.sends, d ∈ s.sends) (hqueue : s'.queue = s.queue)
    (hdel : s'.delivered = s.delivered) : LifeInv s' := by
  refine h.keep (fun y => ?_) (fun y => ?_) (fun fd y hy => hmap ▸ hy) hsends
    (fun fd y g life hm => hqueue ▸ hm) hdel
  · rw [hconns]
    exact s.setConn_same Conn.generation hgen y
  · rw [hconns]
    exact s.setConn_same Conn.life hlife y

/-- The first message leaves the queue and changes no connection. -/
theorem LifeInv.pop (h : LifeInv s) {m : Msg} (hq : s.queue = m :: queue)
    (hconns : s'.conns = s.conns) (hmap : s'.fdMap = s.fdMap) (hsends : s'.sends = s.sends)
    (hqueue : s'.queue = queue) (hdel : s'.delivered = s.delivered) : LifeInv s' := by
  refine h.keep (fun _ => by rw [hconns]) (fun _ => by rw [hconns]) (fun fd x hx => hmap ▸ hx)
    (fun d hd => hsends ▸ hd) (fun fd x g life hm => ?_) hdel
  rw [hqueue] at hm
  exact mem_tail hq hm

/-- A connection is taken out of the descriptor map. -/
theorem LifeInv.unregister (h : LifeInv s) (hmap : s'.fdMap = Function.update s.fdMap fd none)
    (hconns : s'.conns = s.conns) (hsends : s'.sends = s.sends) (hqueue : s'.queue = s.queue)
    (hdel : s'.delivered = s.delivered) : LifeInv s' :=
  h.keep (fun _ => by rw [hconns]) (fun _ => by rw [hconns])
    (fun _ _ hx => (of_update_none (hmap ▸ hx)).2) (fun _ hd => hsends ▸ hd)
    (fun _ _ _ _ hm => hqueue ▸ hm) hdel

/-- What an API call found in the hash is registered under its descriptor, or not at all. -/
theorem HashInv.under (h : HashInv s) (hslot : SlotInv cfg s) (hx : s.hash.Has bucketOf fd x) :
    s.Under x fd := by
  intro fd' hy
  rcases h.has fd x hx with hmap | hrem
  · exact hslot.inj fd' fd x hy hmap
  · exact absurd rfl (hslot.ne_of_torn hy (removing_torn hrem))

variable (h : LifeInv s)

include h

theorem LifeInv.find (hslot : SlotInv cfg s) (hhash : HashInv s) {kind : SendKind}
    (hfind : s.hash.find bucketOf fd = some x) :
    LifeInv { s.setConn x { s.conns x with refCount := (s.conns x).refCount + 1 } with
      sends := s.sends ++ [⟨kind, fd, x, (s.conns x).life, .found⟩] } := by
  have hset : LifeInv (s.setConn x { s.conns x with refCount := (s.conns x).refCount + 1 }) :=
    h.setConn rfl rfl rfl rfl (fun _ => id) rfl rfl
  refine ⟨hset.generation, ?_, hset.queue, hset.delivered⟩
  intro d hd
  rcases mem_append.mp hd with hd | hd
  · exact hset.sends d hd
  · obtain rfl := mem_singleton.mp hd
    refine ⟨?_, hhash.under hslot (Table.has_of_find hfind), fun g hg => absurd hg (by simp)⟩
    show (Function.update s.conns x _ x).life = (s.conns x).life
    rw [Function.update_self]

/-- A call goes on to its next stage. -/
theorem LifeInv.putStage {k : Nat} {d : Send} {stage : SendStage} (hd : s.sends[k]? = some d)
    (hstage : ∀ g, stage = .ready g → g = d.life % 2 ^ 32) : LifeInv (s.putStage k d stage) := by
  refine ⟨h.generation, ?_, h.queue, h.delivered⟩
  intro e he
  rcases mem_or_eq_of_mem_set he with he | rfl
  · exact h.sends e he
  · obtain ⟨h1, h2, _⟩ := h.sends d (mem_of_getElem? hd)
    exact ⟨h1, h2, hstage⟩

/-- A message is queued with the generation that its sender has read. -/
theorem LifeInv.queueData {k : Nat} {d : Send} {g : Nat} (hd : s.sends[k]? = some d)
    (hstage : d.stage = .ready g) :
    LifeInv { s.putStage k d .done with queue := s.queue ++ [.data d.fd d.slot g d.life] } := by
  have hput : LifeInv (s.putStage k d .done) := h.putStage hd (fun g hg => absurd hg (by simp))
  refine ⟨hput.generation, hput.sends, ?_, hput.delivered⟩
  intro fd x g' life hm
  rcases mem_append.mp hm with hm | hm
  · exact hput.queue fd x g' life hm
  · obtain ⟨rfl, rfl, rfl, rfl⟩ := Msg.data.inj (mem_singleton.mp hm)
    obtain ⟨h1, h2, h3⟩ := h.sends d (mem_of_getElem? hd)
    exact ⟨h3 g' hstage, Nat.le_of_eq h1.symm, fun _ => h2⟩

/-- A free slot begins another life. -/
theorem LifeInv.renew (hrefs : RefInv s) {rest : List Slot} (hfree : s.free = x :: rest)
    (hlife : c.life = (s.conns x).life + 1)
    (hgen : c.generation = ((s.conns x).generation + 1) % 2 ^ 32)
    (hconns : s'.conns = (s.setConn x c).conns)
    (hmap : ∀ fd y, s'.fdMap fd = some y → y = x ∨ s.fdMap fd = some y)
    (hsends : s'.sends = s.sends)
    (hqueue : ∀ fd y g life, Msg.data fd y g life ∈ s'.queue → Msg.data fd y g life ∈ s.queue)
    (hdel : s'.delivered = s.delivered) : LifeInv s' := by
  have hself : s'.conns x = c := by rw [hconns, Server.setConn_self]
  have hother : ∀ {y}, y ≠ x → s'.conns y = s.conns y := fun hy => by
    rw [hconns, Server.setConn_of_ne _ _ hy]
  have hunder : ∀ {y fd}, y ≠ x → s.Under y fd → s'.Under y fd :=
    fun hy hu fd' hm => hu fd' ((hmap fd' _ hm).resolve_left hy)
  refine ⟨fun y => ?_, fun d hd => ?_, fun fd y g life hm => ?_, hdel ▸ h.delivered⟩
  · by_cases hy : y = x
    · rw [hy, hself, hlife, hgen, h.generation x]
      omega
    · rw [hother hy]
      exact h.generation y
  · rw [hsends] at hd
    -- no call holds a free slot
    have hne : d.slot ≠ x := by
      intro he
      exact hrefs.free d.slot (mem_map_of_mem hd) (by simp [hfree, he])
    obtain ⟨h1, h2, h3⟩ := h.sends d hd
    rw [hother hne]
    exact ⟨h1, hunder hne h2, h3⟩
  · obtain ⟨h1, h2, h3⟩ := h.queue fd y g life (hqueue fd y g life hm)
    by_cases hy : y = x
    · -- the message's life is an earlier one
      subst hy
      rw [hself, hlife]
      exact ⟨h1, by omega, fun hl => absurd hl (by omega)⟩
    · rw [hother hy]
      exact ⟨h1, h2, fun hl => hunder hy (h3 hl)⟩

/-- The message at the head of the queue passes the check of the slot: whoever is registered under
    its descriptor is the connection that its sender looked up. -/
theorem LifeInv.target (hlive : LiveInv s) {y : Slot} {g life : Nat}
    (hm : Msg.data fd x g life ∈ s.queue) (hlt : (s.conns x).life < 2 ^ 32)
    (hgen : (s.conns x).generation = g) (hopen : (s.conns x).state = .open)
    (htorn : s.ev.torn = none) (hmap : s.fdMap fd = some y) : s.lifeOf y = (x, life) := by
  obtain ⟨h1, h2, h3⟩ := h.queue fd x g life hm
  have hlife : (s.conns x).life = life := by
    rw [h.generation x, h1, Nat.mod_eq_of_lt hlt] at hgen
    rw [Nat.mod_eq_of_lt (by omega)] at hgen
    exact hgen
  -- an open connection is registered, and so it is under the message's descriptor
  have hreap : (s.conns x).reapable = true := by simp [Conn.reapable, hopen]
  obtain ⟨fd', hx⟩ := (hlive.live x hreap).resolve_right
    (fun ht => absurd (htorn.symm.trans ht) (by simp))
  rw [h3 hlife fd' hx, hmap] at hx
  obtain rfl : y = x := Option.some.inj hx
  show (y, (s.conns y).life) = _
  rw [hlife]

theorem LifeInv.deliver {y : Slot} {p : Life × Life} (hq : ∀ m ∈ queue, m ∈ s.queue)
    (hgen : c.generation = (s.conns y).generation) (hlife : c.life = (s.conns y).life)
    (hp : p.1 = p.2) :
    LifeInv ({ s with queue := queue, delivered := s.delivered ++ [p] }.setConn y c) := by
  have hset : LifeInv ({ s with queue := queue }.setConn y c) :=
    h.keep (s.setConn_same Conn.generation hgen) (s.setConn_same Conn.life hlife) (fun _ _ => id)
      (fun _ => id) (fun _ _ _ _ hm => hq _ hm) rfl
  refine ⟨hset.generation, hset.sends, hset.queue, ?_⟩
  intro p' hp'
  rcases mem_append.mp hp' with hp' | hp'
  · exact h.delivered p' hp'
  · rw [mem_singleton.mp hp']
    exact hp

theorem LifeInv.move (hsh : SharedInv cfg s) (hok : sendsStayWithLife s a = true)
    (hm : Move cfg s a s') : LifeInv s' := by
  obtain ⟨hclean, hlt⟩ := Bool.and_eq_true_iff.mp hok
  cases hm with
  | accept | reject | handOther | otherOpen | otherClose | wait | reap | batchEnd | takeWakeup
  | takeAio | takeConn | loopEnd | pass | stale | hangup | complete | completeClose | hashRemove
  | closeHash | insert | insertFail | poll =>
    exact ⟨h.generation, h.sends, h.queue, h.delivered⟩
  | handOver =>
    refine h.keep (fun _ => rfl) (fun _ => rfl) (fun _ _ => id) (fun _ => id) ?_ rfl
    intro fd' x g life hm
    simpa using hm
  | find kind fd x hfind => exact h.find hsh.slots hsh.hash hfind
  | check k ok d stage hd hstage =>
    refine h.putStage hd (fun g hg => ?_)
    rcases hstage with rfl | rfl <;> exact absurd hg (by simp)
  | readGeneration k ok d hd =>
    refine h.putStage hd (fun g hg => ?_)
    rw [← SendStage.ready.inj hg, h.generation, (h.sends d (mem_of_getElem? hd)).1]
  | queueControl k d c hd =>
    have hput : LifeInv (s.putStage k d .done) := h.putStage hd (fun g hg => absurd hg (by simp))
    refine hput.keep (fun _ => rfl) (fun _ => rfl) (fun _ _ => id) (fun _ => id) ?_ rfl
    intro fd x g life hm
    have hm1 : Msg.data fd x g life ∈ s.queue := by simpa using hm
    exact hm1
  | queueData k d generation hd hstage => exact h.queueData hd hstage
  | dropRef =>
    exact h.setConn rfl rfl rfl rfl (fun _ he => mem_of_mem_eraseIdx he) rfl rfl
  | handle | unrefLast | unrefShared | mark | pollFail =>
    exact h.setConn rfl rfl rfl rfl (fun _ => id) rfl rfl
  | noSlot _ _ _ _ _ hq | dropData _ _ _ _ _ _ _ _ hq | noTarget _ _ _ _ _ _ _ _ hq
  | act _ _ _ _ _ _ _ _ _ _ hq => exact h.pop hq rfl rfl rfl rfl rfl
  | tlsFail sendOk fd queue x rest hev hq hfree =>
    obtain ⟨hlife, hgen⟩ := newConn_life s fd x none
    exact h.renew hsh.refs (c := wsConnectionCleanup (newConn s fd x none)) hfree hlife hgen rfl
      (fun _ _ => .inr) rfl (fun _ _ _ _ hm => mem_tail hq hm) rfl
  | register tls sendOk fd queue x rest hev hq hfree =>
    obtain ⟨hlife, hgen⟩ := newConn_life s fd x tls
    refine h.renew hsh.refs (c := newConn s fd x tls) hfree hlife hgen rfl (fun fd' y hy => ?_) rfl
      (fun _ _ _ _ hm => mem_tail hq hm) rfl
    exact (of_update_some hy).imp And.right And.right
  | deliver tls sendOk fd x y generation life queue c hev hq hgen hopen hmap hc =>
    rw [hq] at hlt
    have hmem : Msg.data fd x generation life ∈ s.queue := by simp [hq]
    have htarget := h.target hsh.live hmem (of_decide_eq_true hlt) hgen hopen
      (by rw [hev]; rfl) hmap
    refine h.deliver (fun m hm => mem_tail hq hm) ?_ ?_ htarget.symm
    · rcases hc with rfl | rfl <;> rfl
    · rcases hc with rfl | rfl <;> rfl
  | releaseUnknown | release | closeRelease => exact h.unregister rfl rfl rfl rfl rfl

end Step

theorem LifeInv.init (cfg : Config) : LifeInv (.init cfg) :=
  ⟨fun _ => rfl, fun _ hd => absurd hd not_mem_nil, fun _ _ _ _ hm => absurd hm not_mem_nil,
    fun _ hp => absurd hp not_mem_nil⟩

/-- In every run of a server with one event thread whose steps meet `sendsStayWithLife`, with at
    most 2^16 slots: each text or binary message that was sent was sent on the connection, slot
    and life, that its sender had looked up. -/
theorem data_reaches_looked_up_life (cfg : Config) (hcap : cfg.maxConnections ≤ 2 ^ 16)
    (labels : List Label) (s : Server)
    (hok : RunMeets (Server.step cfg) (sendsStayWithLife · ·) (.init cfg) labels)
    (hrun : run (Server.step cfg) (.init cfg) labels = some s) :
    ∀ p ∈ s.delivered, p.1 = p.2 := by
  have h : SharedInv cfg s ∧ LifeInv s := by
    refine run_invariant (I := fun s => SharedInv cfg s ∧ LifeInv s) ?_ labels _ s
      ⟨.init cfg, .init cfg⟩ hok hrun
    rintro s a s' ⟨hsh, hlife⟩ hok hstep
    have hm := step_move hstep
    exact ⟨hsh.move hcap (Bool.and_eq_true_iff.mp hok).1 hm, hlife.move hsh hok hm⟩
  exact h.2.delivered

/-- A message is queued for an open connection and sent; another one is queued, its connection
    is reaped and the slot and the number are used again, and the message is dropped. -/
theorem data_reaches_looked_up_life_reuse :
    let labels : List Label := [.accept 3, .handOver, .wait [.wakeup], .next, .message none true,
      .cont true, .cont true, .next, .next, .wait [.conn ⟨3, 0, true, false, false⟩], .next,
      .io .open false false, .io .open false false, .io .open false false, .next,
      .find .data 3, .send 0 true, .send 0 true, .send 0 true, .send 0 true,
      .wait [.wakeup], .next, .message none true, .next, .next,
      .find .data 3, .send 0 true, .send 0 true, .send 0 true, .send 0 true,
      .reap 0, .cont true, .cont true, .cont true, .accept 3, .handOver,
      .wait [.wakeup], .next, .message none true, .message none true, .cont true, .cont true]
    (run (Server.step ⟨2, 8⟩) (.init ⟨2, 8⟩) labels).map (fun s => (s.delivered, s.lifeOf 0)) =
        some ([((0, 1), (0, 1))], (0, 2)) ∧
      ∀ s, run (Server.step ⟨2, 8⟩) (.init ⟨2, 8⟩) labels = some s →
        ∀ p ∈ s.delivered, p.1 = p.2 := by
  refine ⟨by decide +kernel, fun s hrun => ?_⟩
  exact data_reaches_looked_up_life ⟨2, 8⟩ (by decide) _ s (by decide +kernel) hrun

/-- A close message and a read event of descriptor 3 in one batch: the event closes the number
    after it was accepted again (socket 1). The acceptor hands it over all the same, and accepts
    3 once more (socket 2), so that the first of two messages for 3 registers slot 0 with
    socket 2, and the second one, with no place left in epoll, closes it and leaves slot 1 in
    the map. The next connection under 3 gets slot 2 and the map; the hash still finds slot 0,
    open since its handshake, and what is sent to it goes out on slot 2. -/
theorem data_reaches_other_connection :
    (run (Server.step ⟨3, 8⟩) (.init ⟨3, 8⟩) [.accept 3, .handOver, .wait [.wakeup], .next,
      .message none true, .cont true, .cont true, .next, .next,
      .find (.control .close) 3, .send 0 true, .send 0 true, .send 0 true,
      .wait [.wakeup, .conn ⟨3, 0, true, false, false⟩], .next, .message none true,
      .cont true, .cont true, .cont true, .accept 3, .next, .next, .io .open false false,
      .cont true, .handOver, .accept 3, .next,
      .wait [.wakeup], .next, .message none true, .cont true, .cont true, .next, .next,
      .wait [.conn ⟨3, 2, true, false, false⟩], .next, .io .open false false,
      .io .open false false, .io .open false false, .next,
      .handOver, .wait [.wakeup], .next, .message none true, .cont true, .cont true,
      .accept 3, .handOver, .message none true, .cont true, .cont true, .next, .next,
      .wait [.conn ⟨3, 3, true, false, false⟩], .next, .io .open false false,
      .io .open false false, .io .open false false, .next,
      .find .data 3, .send 0 true, .send 0 true, .send 0 true, .send 0 true,
      .wait [.wakeup], .next, .message none true]).map Server.delivered =
      some [((0, 2), (2, 1))] := by
  decide +kernel

end Portico.Loop
