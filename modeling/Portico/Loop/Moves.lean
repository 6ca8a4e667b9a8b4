/-
  What a step can do.

  `Move cfg s a s'` lists the steps of the server one by one, each with the condition under which
  it is taken and the state it leads to; `step_move` says that there are no others. The
  invariants are proved over the moves.
-/
import Portico.Loop.Model

namespace Portico.Loop

open Portico.Lib Portico.Ws

/-- The connection that `process_new_connection` starts in a slot. -/
def newConn (s : Server) (fd : Fd) (x : Slot) (tls : Option Bool) : Conn :=
  let c := wsConnectionInit (s.conns x) fd x (((s.files fd).map File.sock).getD 0)
  if tls = some true then { c with state := .tlsHandshake } else c

/-- With TLS only the state is another one. -/
theorem newConn_same {α : Type} (field : Conn → α)
    (hfield : ∀ c state, field { c with state := state } = field c) (s : Server) (fd : Fd)
    (x : Slot) (tls : Option Bool) : field (newConn s fd x tls) =
      field (wsConnectionInit (s.conns x) fd x (((s.files fd).map File.sock).getD 0)) := by
  unfold newConn
  split
  · exact hfield _ _
  · rfl

theorem newConn_fd (s : Server) (fd : Fd) (x : Slot) (tls : Option Bool) :
    (newConn s fd x tls).fd = some fd :=
  newConn_same Conn.fd (fun _ _ => rfl) s fd x tls

theorem newConn_life (s : Server) (fd : Fd) (x : Slot) (tls : Option Bool) :
    (newConn s fd x tls).life = (s.conns x).life + 1 ∧
      (newConn s fd x tls).generation = ((s.conns x).generation + 1) % 2 ^ 32 :=
  ⟨newConn_same Conn.life (fun _ _ => rfl) s fd x tls,
    newConn_same Conn.generation (fun _ _ => rfl) s fd x tls⟩

/-- An API call goes on to another stage. -/
def Server.putStage (s : Server) (k : Nat) (d : Send) (stage : SendStage) : Server :=
  { s with sends := s.sends.set k { d with stage := stage } }

inductive Move (cfg : Config) (s : Server) : Label → Server → Prop
  -- the acceptor and the rest of the process
  | accept (fd : Fd) (hacc : s.accepted = none) (hfile : s.files fd = none)
      (hlt : fd < cfg.fdMapSize) :
      Move cfg s (.accept fd) { s.setFile fd (some ⟨s.nextSock, .acceptor, false⟩) with
        accepted := some fd, nextSock := s.nextSock + 1 }
  | reject (fd : Fd) (hacc : s.accepted = some fd) :
      Move cfg s .reject { s.setFile fd none with accepted := none }
  | handOver (fd : Fd) (hacc : s.accepted = some fd) :
      Move cfg s .handOver
        { s.setFile fd ((s.files fd).map fun f => { f with owner := .thread }) with
          accepted := none, queue := s.queue ++ [.newConnection fd] }
  | handOther (fd : Fd) (hacc : s.accepted = some fd) :
      Move cfg s .handOther
        { s.setFile fd ((s.files fd).map fun f => { f with owner := .other }) with
          accepted := none }
  | otherOpen (fd : Fd) (hfile : s.files fd = none) :
      Move cfg s (.otherOpen fd)
        { s.setFile fd (some ⟨s.nextSock, .other, false⟩) with nextSock := s.nextSock + 1 }
  | otherClose (fd : Fd) (f : File) (hfile : s.files fd = some f) (howner : f.owner = .other) :
      Move cfg s (.otherClose fd) (s.setFile fd none)
  -- API calls
  | find (kind : SendKind) (fd : Fd) (x : Slot) (hfind : s.hash.find bucketOf fd = some x) :
      Move cfg s (.find kind fd)
        { s.setConn x { s.conns x with refCount := (s.conns x).refCount + 1 } with
          sends := s.sends ++ [⟨kind, fd, x, (s.conns x).life, .found⟩] }
  | check (k : Nat) (ok : Bool) (d : Send) (stage : SendStage) (hd : s.sends[k]? = some d)
      (hstage : stage = .checked ∨ stage = .done) :
      Move cfg s (.send k ok) (s.putStage k d stage)
  | readGeneration (k : Nat) (ok : Bool) (d : Send) (hd : s.sends[k]? = some d) :
      Move cfg s (.send k ok) (s.putStage k d (.ready (s.conns d.slot).generation))
  | queueControl (k : Nat) (d : Send) (c : Control) (hd : s.sends[k]? = some d)
      (hstage : d.stage = .checked) (hkind : d.kind = .control c) :
      Move cfg s (.send k true)
        { s.putStage k d .done with queue := s.queue ++ [.control c d.fd d.slot d.life] }
  | queueData (k : Nat) (d : Send) (generation : Nat) (hd : s.sends[k]? = some d)
      (hstage : d.stage = .ready generation) :
      Move cfg s (.send k true)
        { s.putStage k d .done with queue := s.queue ++ [.data d.fd d.slot generation d.life] }
  | dropRef (k : Nat) (ok : Bool) (d : Send) (hd : s.sends[k]? = some d) :
      Move cfg s (.send k ok)
        { s.setConn d.slot
            { s.conns d.slot with refCount := (s.conns d.slot).refCount - 1 } with
          sends := s.sends.eraseIdx k }
  -- the event thread's loop
  | wait (events : List Event) (hev : s.ev = .top) (hrep : s.reportable events = true) :
      Move cfg s (.wait events) ({ s with batch := events }.goTo .batch)
  | reap (x : Slot) (fd : Fd) (hev : s.ev = .top) (hx : x < cfg.maxConnections)
      (hreap : (s.conns x).reapable = true) (hfd : (s.conns x).fd = some fd) :
      Move cfg s (.reap x) (s.goTo (.release fd none .top))
  | batchEnd (hev : s.ev = .batch) (hbatch : s.batch = []) : Move cfg s .next (s.goTo .top)
  | takeWakeup (rest : List Event) (hev : s.ev = .batch) (hbatch : s.batch = .wakeup :: rest) :
      Move cfg s .next ({ s with batch := rest }.goTo .msgs)
  | takeAio (rest : List Event) (hev : s.ev = .batch) (hbatch : s.batch = .aio :: rest) :
      Move cfg s .next ({ s with batch := rest }.goTo .aio)
  | takeConn (e : ConnEvent) (rest : List Event) (hev : s.ev = .batch)
      (hbatch : s.batch = .conn e :: rest) :
      Move cfg s .next ({ s with batch := rest }.goTo (.readable e))
  | loopEnd (hev : s.ev = .msgs ∨ s.ev = .aio) : Move cfg s .next (s.goTo .batch)
  -- a connection event
  | pass (state : WsState) (submit fail : Bool) (e : ConnEvent) (pc : EvPc)
      (hpc : (s.ev = .readable e ∧ pc = .writable e) ∨ (s.ev = .writable e ∧ pc = .hangup e) ∨
        ((s.ev = .writable e ∨ s.ev = .hangup e) ∧ pc = .batch)) :
      Move cfg s (.io state submit fail) (s.goTo pc)
  | stale (state : WsState) (submit fail : Bool) (e : ConnEvent) (hev : s.ev = .readable e)
      (hmap : s.fdMap e.fd = none) :
      Move cfg s (.io state submit fail) (s.goTo (.release e.fd (some e.sock) .batch))
  | handle (state : WsState) (submit fail : Bool) (e : ConnEvent) (x : Slot) (pc : EvPc)
      (hmap : s.fdMap e.fd = some x)
      (hpc : ((s.ev = .readable e ∨ s.ev = .writable e) ∧
          pc = .release e.fd (some e.sock) .batch) ∨
        (s.ev = .readable e ∧ pc = .writable e) ∨ (s.ev = .writable e ∧ pc = .hangup e)) :
      Move cfg s (.io state submit fail) ((s.handled x state submit).goTo pc)
  | hangup (state : WsState) (submit fail : Bool) (e : ConnEvent) (hev : s.ev = .hangup e) :
      Move cfg s (.io state submit fail) (s.goTo (.release e.fd (some e.sock) .batch))
  -- messages
  | noSlot (tls : Option Bool) (sendOk : Bool) (fd : Fd) (queue : List Msg) (hev : s.ev = .msgs)
      (hq : s.queue = .newConnection fd :: queue) (hfree : s.free = []) :
      Move cfg s (.message tls sendOk) ({ s with queue := queue }.closeFd fd none)
  | tlsFail (sendOk : Bool) (fd : Fd) (queue : List Msg) (x : Slot) (rest : List Slot)
      (hev : s.ev = .msgs) (hq : s.queue = .newConnection fd :: queue)
      (hfree : s.free = x :: rest) :
      Move cfg s (.message (some false) sendOk)
        (({ s with queue := queue, free := rest }.setConn x
          (wsConnectionCleanup (newConn s fd x none))).closeFd fd none)
  | register (tls : Option Bool) (sendOk : Bool) (fd : Fd) (queue : List Msg) (x : Slot)
      (rest : List Slot) (hev : s.ev = .msgs) (hq : s.queue = .newConnection fd :: queue)
      (hfree : s.free = x :: rest) (htls : tls ≠ some false) :
      Move cfg s (.message tls sendOk)
        ((({ s with queue := queue, free := rest }.setConn x (newConn s fd x tls)).setMap fd
          (some x)).goTo (.newHash fd x))
  | dropData (tls : Option Bool) (sendOk : Bool) (fd : Fd) (x : Slot) (generation life : Nat)
      (queue : List Msg) (hev : s.ev = .msgs) (hq : s.queue = .data fd x generation life :: queue) :
      Move cfg s (.message tls sendOk) { s with queue := queue }
  | deliver (tls : Option Bool) (sendOk : Bool) (fd : Fd) (x y : Slot) (generation life : Nat)
      (queue : List Msg) (c : Conn) (hev : s.ev = .msgs)
      (hq : s.queue = .data fd x generation life :: queue)
      (hgen : (s.conns x).generation = generation) (hopen : (s.conns x).state = .open)
      (hmap : s.fdMap fd = some y)
      (hc : c = s.conns y ∨ c = { s.conns y with state := .closing }) :
      Move cfg s (.message tls sendOk)
        ({ s with queue := queue, delivered := s.delivered ++ [((x, life), s.lifeOf y)] }.setConn
          y c)
  | noTarget (tls : Option Bool) (sendOk : Bool) (kind : Control) (fd : Fd) (x : Slot)
      (life : Nat) (queue : List Msg) (hev : s.ev = .msgs)
      (hq : s.queue = .control kind fd x life :: queue) (hmap : s.fdMap fd = none) :
      Move cfg s (.message tls sendOk) { s with queue := queue }
  | act (tls : Option Bool) (sendOk : Bool) (kind : Control) (fd : Fd) (x y : Slot)
      (life : Nat) (queue : List Msg) (pc : EvPc) (hev : s.ev = .msgs)
      (hq : s.queue = .control kind fd x life :: queue) (hmap : s.fdMap fd = some y)
      (hpc : (kind = .close ∧ pc = .closeHash fd y) ∨ (kind ≠ .close ∧ pc = .msgs)) :
      Move cfg s (.message tls sendOk)
        ({ s with queue := queue, acted := s.acted ++ [((x, life), s.lifeOf y)] }.goTo pc)
  -- file reads
  | complete (k : Nat) (submit close : Bool) (aio : List (Slot × Nat)) (hev : s.ev = .aio) :
      Move cfg s (.completion k submit close) { s with aio := aio }
  | completeClose (k : Nat) (submit : Bool) (x : Slot) (generation : Nat) (fd : Fd)
      (aio : List (Slot × Nat)) (hev : s.ev = .aio) (hk : s.aio[k]? = some (x, generation))
      (hhttp : (s.conns x).state = .http) (hfd : (s.conns x).fd = some fd) :
      Move cfg s (.completion k submit true) ({ s with aio := aio }.goTo (.release fd none .aio))
  -- teardown and registration
  | releaseUnknown (ok : Bool) (fd : Fd) (event : Option Nat) (back : Back)
      (hev : s.ev = .release fd event back) (hmap : s.fdMap fd = none) :
      Move cfg s (.cont ok) (((s.setMap fd none).closeFd fd event).goTo back.pc)
  | release (ok : Bool) (fd : Fd) (event : Option Nat) (back : Back) (x : Slot)
      (hev : s.ev = .release fd event back) (hmap : s.fdMap fd = some x) :
      Move cfg s (.cont ok)
        (((s.setMap fd none).closeFd fd event).goTo (.hashRemove fd x back))
  | hashRemove (ok : Bool) (fd : Fd) (x : Slot) (back : Back)
      (hev : s.ev = .hashRemove fd x back) :
      Move cfg s (.cont ok)
        ({ s with hash := s.hash.remove bucketOf fd }.goTo (.unref x back))
  | unrefLast (ok : Bool) (x : Slot) (back : Back) (free : List Slot)
      (hev : s.ev = .unref x back) (href : (s.conns x).refCount = 1)
      (hfree : free =
        if s.free.length < cfg.maxConnections then (s.conns x).poolIndex :: s.free else s.free) :
      Move cfg s (.cont ok)
        ({ s.setConn x (wsConnectionCleanup (s.conns x)) with free := free }.goTo back.pc)
  | unrefShared (ok : Bool) (x : Slot) (back : Back) (hev : s.ev = .unref x back)
      (href : (s.conns x).refCount ≠ 1) :
      Move cfg s (.cont ok)
        ((s.setConn x { s.conns x with refCount := (s.conns x).refCount - 1 }).goTo (.mark x back))
  | mark (ok : Bool) (x : Slot) (back : Back) (hev : s.ev = .mark x back) :
      Move cfg s (.cont ok)
        ((s.setConn x { s.conns x with state := .closed }).goTo back.pc)
  | closeHash (ok : Bool) (fd : Fd) (x : Slot) (hev : s.ev = .closeHash fd x) :
      Move cfg s (.cont ok)
        ({ s with hash := s.hash.remove bucketOf fd }.goTo (.closeRelease fd x))
  | closeRelease (ok : Bool) (fd : Fd) (x : Slot) (hev : s.ev = .closeRelease fd x) :
      Move cfg s (.cont ok) (((s.setMap fd none).closeFd fd none).goTo (.unref x .msgs))
  | insert (fd : Fd) (x : Slot) (hev : s.ev = .newHash fd x) :
      Move cfg s (.cont true)
        ({ s with hash := s.hash.insert bucketOf fd x }.goTo (.newEpoll fd x))
  | insertFail (fd : Fd) (x : Slot) (hev : s.ev = .newHash fd x) :
      Move cfg s (.cont false) (s.goTo (.newEpoll fd x))
  | poll (ok : Bool) (fd : Fd) (x : Slot) (f : File) (hev : s.ev = .newEpoll fd x)
      (hadd : s.epollAdd fd ok = some f) :
      Move cfg s (.cont ok) ((s.setFile fd (some f)).goTo .msgs)
  | pollFail (ok : Bool) (fd : Fd) (x : Slot) (hev : s.ev = .newEpoll fd x)
      (hadd : s.epollAdd fd ok = none) :
      Move cfg s (.cont ok)
        (((s.setConn x (wsConnectionCleanup (s.conns x))).closeFd fd none).goTo .msgs)

variable {cfg : Config} {s s' : Server} {ok : Bool}

theorem sendStep_move {k : Nat} (h : s.sendStep k ok = some s') : Move cfg s (.send k ok) s' := by
  unfold Server.sendStep at h
  cases hd : s.sends[k]? with
  | none =>
    rw [hd] at h
    cases h
  | some d =>
    rw [hd] at h
    simp only at h
    split at h
    · cases h
      exact .check k ok d .checked hd (.inl rfl)
    · split at h <;> cases h
      · exact .check k ok d .checked hd (.inl rfl)
      · exact .check k ok d .done hd (.inr rfl)
    · cases h
      exact .readGeneration k ok d hd
    · rename_i c hstage hkind
      cases ok with
      | true =>
        cases h
        exact .queueControl k d c hd hstage hkind
      | false =>
        cases h
        exact .check k false d .done hd (.inr rfl)
    · rename_i generation hstage
      cases ok with
      | true =>
        cases h
        exact .queueData k d generation hd hstage
      | false =>
        cases h
        exact .check k false d .done hd (.inr rfl)
    · cases h
      exact .dropRef k ok d hd

theorem nextStep_move (h : s.nextStep = some s') : Move cfg s .next s' := by
  unfold Server.nextStep at h
  split at h
  · rename_i hev
    split at h <;> cases h
    · exact .batchEnd hev ‹_›
    · exact .takeWakeup _ hev ‹_›
    · exact .takeAio _ hev ‹_›
    · exact .takeConn _ _ hev ‹_›
  · cases h
    exact .loopEnd (.inl ‹_›)
  · cases h
    exact .loopEnd (.inr ‹_›)
  · cases h

theorem ioStep_move {state : WsState} {submit fail : Bool}
    (h : s.ioStep state submit fail = some s') : Move cfg s (.io state submit fail) s' := by
  unfold Server.ioStep at h
  split at h
  · rename_i e hev
    split at h
    · split at h
      · cases h
        exact .stale _ _ _ e hev ‹_›
      · split at h <;> cases h
        · exact .handle _ _ _ e _ _ ‹_› (.inl ⟨.inl hev, rfl⟩)
        · exact .handle _ _ _ e _ _ ‹_› (.inr (.inl ⟨hev, rfl⟩))
    · cases h
      exact .pass _ _ _ e _ (.inl ⟨hev, rfl⟩)
  · rename_i e hev
    split at h
    · split at h
      · cases h
        exact .pass _ _ _ e _ (.inr (.inr ⟨.inl hev, rfl⟩))
      · split at h <;> cases h
        · exact .handle _ _ _ e _ _ ‹_› (.inl ⟨.inr hev, rfl⟩)
        · exact .handle _ _ _ e _ _ ‹_› (.inr (.inr ⟨hev, rfl⟩))
    · cases h
      exact .pass _ _ _ e _ (.inr (.inl ⟨hev, rfl⟩))
  · rename_i e hev
    split at h <;> cases h
    · exact .hangup _ _ _ e hev
    · exact .pass _ _ _ e _ (.inr (.inr ⟨.inr hev, rfl⟩))
  · cases h

theorem message_move {tls : Option Bool} {sendOk : Bool} {m : Msg} {queue : List Msg}
    (hev : s.ev = .msgs) (hq : s.queue = m :: queue) :
    Move cfg s (.message tls sendOk) ({ s with queue := queue }.processMessage tls sendOk m) := by
  cases m with
  | newConnection fd =>
    simp only [Server.processMessage, Server.processNewConnection]
    split
    · exact .noSlot tls sendOk fd queue hev hq ‹_›
    · rename_i x rest hfree
      cases tls with
      | none => exact .register none sendOk fd queue x rest hev hq hfree (by simp)
      | some b =>
        cases b with
        | true => exact .register (some true) sendOk fd queue x rest hev hq hfree (by simp)
        | false => exact .tlsFail sendOk fd queue x rest hev hq hfree
  | data fd x generation life =>
    simp only [Server.processMessage]
    split
    · rename_i hc
      simp only [Server.wsBufferedDataSend]
      split
      · exact .dropData tls sendOk fd x generation life queue hev hq
      · rename_i y hmap
        split
        · cases sendOk with
          | true =>
            have hmove : Move cfg s (.message tls true) _ :=
              .deliver tls true fd x y generation life queue (s.conns y) hev hq hc.1 hc.2 hmap
                (.inl rfl)
            simp only [Server.setConn, Function.update_eq_self] at hmove
            exact hmove
          | false =>
            exact .deliver tls false fd x y generation life queue _ hev hq hc.1 hc.2 hmap
              (.inr rfl)
        · exact .dropData tls sendOk fd x generation life queue hev hq
    · exact .dropData tls sendOk fd x generation life queue hev hq
  | control kind fd x life =>
    simp only [Server.processMessage]
    split
    · exact .noTarget tls sendOk kind fd x life queue hev hq ‹_›
    · rename_i y hmap
      cases kind with
      | close => exact .act tls sendOk .close fd x y life queue _ hev hq hmap (.inl ⟨rfl, rfl⟩)
      | ping =>
        have hmove : Move cfg s (.message tls sendOk) _ :=
          .act tls sendOk .ping fd x y life queue .msgs hev hq hmap (.inr ⟨by simp, rfl⟩)
        rw [← hev] at hmove
        exact hmove
      | pong =>
        have hmove : Move cfg s (.message tls sendOk) _ :=
          .act tls sendOk .pong fd x y life queue .msgs hev hq hmap (.inr ⟨by simp, rfl⟩)
        rw [← hev] at hmove
        exact hmove

theorem completion_move {k : Nat} {submit close : Bool} {x : Slot} {generation : Nat}
    (hev : s.ev = .aio) (hk : s.aio[k]? = some (x, generation)) :
    Move cfg s (.completion k submit close)
      ({ s with aio := s.aio.eraseIdx k }.readComplete x generation submit close) := by
  simp only [Server.readComplete]
  split
  · rename_i hc
    split
    · exact .complete k submit close _ hev
    · rename_i fd hfd
      cases close with
      | true => exact .completeClose k submit x generation fd _ hev hk hc.2 hfd
      | false => exact .complete k submit false _ hev
  · exact .complete k submit close _ hev

theorem contStep_move (h : s.contStep cfg ok = some s') : Move cfg s (.cont ok) s' := by
  unfold Server.contStep at h
  split at h
  · rename_i fd event back hev
    cases h
    unfold Server.release
    cases hmap : s.fdMap fd with
    | none => exact .releaseUnknown ok fd event back hev hmap
    | some x => exact .release ok fd event back x hev hmap
  · cases h
    exact .hashRemove ok _ _ _ ‹_›
  · rename_i x back hev
    cases h
    unfold Server.dropReference
    simp only
    split
    · exact .unrefLast ok x back _ hev ‹_› rfl
    · exact .unrefShared ok x back hev ‹_›
  · cases h
    exact .mark ok _ _ ‹_›
  · cases h
    exact .closeHash ok _ _ ‹_›
  · cases h
    exact .closeRelease ok _ _ ‹_›
  · rename_i fd x hev
    cases ok with
    | true =>
      cases h
      exact .insert fd x hev
    | false =>
      cases h
      exact .insertFail fd x hev
  · rename_i fd x hev
    split at h <;> cases h
    · exact .poll ok fd x _ hev ‹_›
    · exact .pollFail ok fd x hev ‹_›
  · cases h

theorem step_move {a : Label} (h : s.step cfg a = some s') : Move cfg s a s' := by
  cases a with
  | accept fd =>
    simp only [Server.step, Server.acceptStep] at h
    split at h
    · rename_i hacc hfile
      split at h <;> cases h
      exact .accept fd hacc hfile ‹_›
    · cases h
  | reject =>
    simp only [Server.step, Server.rejectStep] at h
    split at h <;> cases h
    exact .reject _ ‹_›
  | handOver =>
    simp only [Server.step, Server.handOverStep] at h
    split at h <;> cases h
    exact .handOver _ ‹_›
  | handOther =>
    simp only [Server.step, Server.handOtherStep] at h
    split at h <;> cases h
    exact .handOther _ ‹_›
  | otherOpen fd =>
    simp only [Server.step, Server.otherOpenStep] at h
    split at h <;> cases h
    exact .otherOpen fd ‹_›
  | otherClose fd =>
    simp only [Server.step, Server.otherCloseStep] at h
    split at h
    · cases h
    · split at h <;> cases h
      exact .otherClose fd _ ‹_› ‹_›
  | find kind fd =>
    simp only [Server.step, Server.findStep] at h
    split at h <;> cases h
    exact .find kind fd _ ‹_›
  | send => exact sendStep_move h
  | wait events =>
    simp only [Server.step] at h
    split at h
    · rename_i hc
      cases h
      exact .wait events hc.1 hc.2
    · cases h
  | reap x =>
    simp only [Server.step] at h
    split at h
    · rename_i hc
      split at h <;> cases h
      exact .reap x _ hc.1 hc.2.1 hc.2.2 ‹_›
    · cases h
  | next => exact nextStep_move h
  | io => exact ioStep_move h
  | message tls sendOk =>
    simp only [Server.step] at h
    split at h <;> cases h
    exact message_move ‹_› ‹_›
  | completion k submit close =>
    simp only [Server.step] at h
    split at h <;> cases h
    exact completion_move ‹_› ‹_›
  | cont => exact contStep_move h

end Portico.Loop
