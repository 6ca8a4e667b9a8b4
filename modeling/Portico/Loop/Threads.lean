/-
  Several event threads over one table of descriptors.

  Model. `Shared` is what the threads of a server have in common: the descriptor table, which
  here says for each open file what it is for, and the acceptor. `Server.within` is the server
  that one thread sees: its own connections are its own, those of other threads and everything
  else somebody else's. A step of a thread is a step of `Server.step` in that view
  (`threadStep`), and an API call is a step of the thread whose connection it finds: the part of
  the global hash that holds the thread's connections is kept with the thread.

  Proved: `threadStep_own` and `threadStep_other`. A step keeps `KernelInv` in the view of the
  thread that takes it, and in the view of every other thread, where it is a step of the
  acceptor or of the rest of the process, or none at all.
-/
import Portico.Loop.Descriptors

namespace Portico.Loop

open Portico.Lib Portico.Ws
open Function (update update_eq_self update_of_ne update_self)

/-- What an open file is for. `app`: nothing of the server. -/
inductive Holder where
  | app
  | listen
  | epoll (i : Nat)
  | wakeup (i : Nat)
  | ring (i : Nat)
  | aio (i : Nat)
  | acceptor
  | conn (i : Nat) (polled : Bool)
  deriving DecidableEq, Repr

structure Held where
  sock : Nat
  holder : Holder
  deriving DecidableEq, Repr

structure Shared where
  files : Fd → Option Held
  nextSock : Nat
  accepted : Option Fd

/-- The file as the event thread `i` sees it. -/
def Held.seenBy (i : Nat) (h : Held) : File :=
  match h.holder with
  | .acceptor => ⟨h.sock, .acceptor, false⟩
  | .conn j polled => if j = i then ⟨h.sock, .thread, polled⟩ else ⟨h.sock, .other, false⟩
  | _ => ⟨h.sock, .other, false⟩

/-- The server with the event thread `i` as its only one. -/
def Server.within (s : Server) (i : Nat) (k : Shared) : Server :=
  { s with
    files := fun fd => (k.files fd).map (Held.seenBy i)
    nextSock := k.nextSock
    accepted := k.accepted }

/-- The table entry after a step of thread `i`. -/
def Held.merge (i : Nat) (old : Option Held) : Option File → Option Held
  | none => none
  | some f =>
    match f.owner with
    | .thread => some ⟨f.sock, .conn i f.polled⟩
    | .acceptor => some ⟨f.sock, .acceptor⟩
    | .other => old

def Shared.after (k : Shared) (i : Nat) (s : Server) : Shared :=
  { files := fun fd => Held.merge i (k.files fd) (s.files fd)
    nextSock := s.nextSock
    accepted := s.accepted }

/-- A step that this server takes; the rest of the process is not part of it. -/
def Label.inside : Label → Bool
  | .handOther => false
  | .otherOpen _ => false
  | .otherClose _ => false
  | _ => true

def threadStep (cfg : Config) (k : Shared) (i : Nat) (s : Server) (a : Label) :
    Option (Shared × Server) :=
  if a.inside then ((s.within i k).step cfg a).map fun s' => (k.after i s', s') else none

/-! ## What a step does to the table -/

/-- The part of the table that a step changes. -/
inductive TableEffect (cfg : Config) (s s' : Server) : Prop
  | same (hfiles : s'.files = s.files) (hsock : s'.nextSock = s.nextSock)
      (hacc : s'.accepted = s.accepted) : TableEffect cfg s s'
  | accept (fd : Fd) (hbefore : s.accepted = none) (hfile : s.files fd = none)
      (hlt : fd < cfg.fdMapSize)
      (hfiles : s'.files = update s.files fd (some ⟨s.nextSock, .acceptor, false⟩))
      (hsock : s'.nextSock = s.nextSock + 1) (hacc : s'.accepted = some fd) : TableEffect cfg s s'
  | reject (fd : Fd) (hbefore : s.accepted = some fd)
      (hfiles : s'.files = update s.files fd none) (hsock : s'.nextSock = s.nextSock)
      (hacc : s'.accepted = none) : TableEffect cfg s s'
  | handOver (fd : Fd) (sock : Nat) (hbefore : s.accepted = some fd)
      (hfile : s.files fd = some ⟨sock, .acceptor, false⟩)
      (hfiles : s'.files = update s.files fd (some ⟨sock, .thread, false⟩))
      (hsock : s'.nextSock = s.nextSock) (hacc : s'.accepted = none) : TableEffect cfg s s'
  | close (fd : Fd) (sock : Nat) (polled : Bool) (hfile : s.files fd = some ⟨sock, .thread, polled⟩)
      (hfiles : s'.files = update s.files fd none) (hsock : s'.nextSock = s.nextSock)
      (hacc : s'.accepted = s.accepted) : TableEffect cfg s s'
  | poll (fd : Fd) (sock : Nat) (polled : Bool) (hfile : s.files fd = some ⟨sock, .thread, polled⟩)
      (hfiles : s'.files = update s.files fd (some ⟨sock, .thread, true⟩))
      (hsock : s'.nextSock = s.nextSock) (hacc : s'.accepted = s.accepted) : TableEffect cfg s s'

variable {fd fd' : Fd} {f : Option File} {k' : Shared} {cfg : Config} {s s' : Server} {a : Label}

theorem epollAdd_eq_some {ok : Bool} {f f' : File} (h : s.epollAdd fd ok = some f')
    (hf : s.files fd = some f) : f' = { f with polled := true } := by
  unfold Server.epollAdd at h
  rw [hf] at h
  dsimp only at h
  split at h
  · exact (Option.some.inj h).symm
  · cases h

theorem table_effect (h : KernelInv cfg s) (hreg : registrationWorks s a = true)
    (hin : a.inside = true) (hm : Move cfg s a s') : TableEffect cfg s s' := by
  cases hm with
  | accept fd hacc hfile hlt => exact .accept fd hacc hfile hlt rfl rfl rfl
  | reject fd hacc => exact .reject fd hacc rfl rfl rfl
  | handOver fd hacc =>
    obtain ⟨k, hfile⟩ := (h.files.fds fd).accepted hacc
    refine .handOver fd k hacc hfile ?_ rfl rfl
    show update s.files fd ((s.files fd).map _) = _
    rw [hfile]
    rfl
  | handOther | otherOpen | otherClose => simp [Label.inside] at hin
  | noSlot _ _ fd _ _ hq | tlsFail _ fd _ _ _ _ hq =>
    obtain ⟨_, k, hfile⟩ := (h.files.fds fd).queued (by simp [hq])
    exact .close fd k false hfile rfl rfl rfl
  | releaseUnknown ok fd event back hev hmap =>
    obtain ⟨⟨x, hx, _⟩, _⟩ := h.events.focus fd event (by rw [hev]; rfl)
    simp [hmap] at hx
  | release ok fd event back x hev hmap =>
    obtain ⟨p, hfile⟩ := (h.files.fds fd).map x hmap
    exact .close fd _ p hfile rfl rfl rfl
  | closeRelease ok fd x hev =>
    obtain ⟨p, hfile⟩ := (h.files.fds fd).map x (h.slots.working fd x (by rw [hev]; rfl))
    exact .close fd _ p hfile rfl rfl rfl
  | poll ok fd x f hev hadd =>
    obtain ⟨p, hfile⟩ := (h.files.fds fd).map x (h.slots.working fd x (by rw [hev]; rfl))
    refine .poll fd _ p hfile ?_ rfl rfl
    rw [← (epollAdd_eq_some hadd hfile)]
    rfl
  | pollFail ok fd x hev hadd => simp [registrationWorks, hev, hadd] at hreg
  | _ => exact .same rfl rfl rfl

/-! ## The views -/

section Views

variable {k : Shared} {i j sock : Nat} {t : Server} {held : Held}

theorem merge_seenBy (i : Nat) (old : Option Held) :
    Held.merge i old (old.map (Held.seenBy i)) = old := by
  rcases old with _ | ⟨sock, holder⟩
  · rfl
  · cases holder with
    | conn j =>
      by_cases hj : j = i
      · simp [Held.merge, Held.seenBy, hj]
      · simp [Held.merge, Held.seenBy, hj]
    | _ => rfl

/-- The table after a step that changes one entry of the view. -/
theorem after_files (h : s'.files = update (s.within i k).files fd f) :
    (k.after i s').files = update k.files fd (Held.merge i (k.files fd) f) := by
  funext fd'
  show Held.merge i (k.files fd') (s'.files fd') = _
  rw [h]
  by_cases hfd : fd' = fd
  · rw [hfd, update_self, update_self]
  · rw [update_of_ne hfd, update_of_ne hfd]
    exact merge_seenBy i (k.files fd')

theorem within_update {h : Option Held} (hfiles : k'.files = update k.files fd h) :
    (t.within j k').files = update (t.within j k).files fd (h.map (Held.seenBy j)) := by
  funext fd'
  show (k'.files fd').map _ = _
  rw [hfiles]
  by_cases hfd : fd' = fd
  · rw [hfd, update_self, update_self]
  · rw [update_of_ne hfd, update_of_ne hfd]
    rfl

theorem within_eq {files : Fd → Option File} (hfiles : (t.within j k').files = files) :
    t.within j k' =
      { t with files := files, nextSock := k'.nextSock, accepted := k'.accepted } := by
  rw [← hfiles]
  rfl

/-- The file behind a file of the acceptor, or of the thread, in the view. -/
theorem held_of_acceptor (h : (s.within i k).files fd = some ⟨sock, .acceptor, false⟩) :
    k.files fd = some ⟨sock, .acceptor⟩ := by
  obtain ⟨⟨sock', holder⟩, hk, hseen⟩ := Option.map_eq_some_iff.mp h
  cases holder with
  | acceptor =>
    rw [hk, ← (File.mk.inj hseen).1]
  | conn j =>
    by_cases hj : j = i
    · simp [Held.seenBy, hj] at hseen
    · simp [Held.seenBy, hj] at hseen
  | _ => simp [Held.seenBy] at hseen

theorem held_of_thread {polled : Bool}
    (h : (s.within i k).files fd = some ⟨sock, .thread, polled⟩) :
    k.files fd = some ⟨sock, .conn i polled⟩ := by
  obtain ⟨⟨sock', holder⟩, hk, hseen⟩ := Option.map_eq_some_iff.mp h
  cases holder with
  | conn j =>
    by_cases hj : j = i
    · rw [hj] at hk hseen
      simp only [Held.seenBy, if_true] at hseen
      obtain ⟨h1, _, h3⟩ := File.mk.inj hseen
      rw [hk, h1, h3]
    · simp [Held.seenBy, hj] at hseen
  | _ => simp [Held.seenBy] at hseen

/-- The table after the step in the view of any thread. -/
theorem within_after (hfiles : s'.files = update (s.within i k).files fd f) (t : Server)
    (j : Nat) :
    t.within j (k.after i s') = { (t.within j k).setFile fd
      ((Held.merge i (k.files fd) f).map (Held.seenBy j)) with
        nextSock := s'.nextSock, accepted := s'.accepted } :=
  within_eq (within_update (after_files hfiles))

/-- What the thread sees of the new table is what it did. -/
theorem within_after_self (hfiles : s'.files = update (s.within i k).files fd f)
    (hf : (Held.merge i (k.files fd) f).map (Held.seenBy i) = f) :
    s'.within i (k.after i s') = s' := by
  have hview : (s'.within i (k.after i s')).files = s'.files := by
    rw [within_update (after_files hfiles), hf, hfiles]
    rfl
  exact within_eq hview

theorem after_same (hfiles : s'.files = (s.within i k).files) (hsock : s'.nextSock = k.nextSock)
    (hacc : s'.accepted = k.accepted) : k.after i s' = k := by
  have hsame : (fun fd => Held.merge i (k.files fd) (s'.files fd)) = k.files := by
    funext fd
    rw [hfiles]
    exact merge_seenBy i (k.files fd)
  unfold Shared.after
  rw [hsame, hsock, hacc]

theorem TableEffect.own (h : TableEffect cfg (s.within i k) s') :
    s'.within i (k.after i s') = s' := by
  cases h with
  | same hfiles hsock hacc =>
    have hview : (s'.within i k).files = s'.files := hfiles.symm
    have hn : k.nextSock = s'.nextSock := hsock.symm
    have ha : k.accepted = s'.accepted := hacc.symm
    rw [after_same hfiles hsock hacc, within_eq hview, hn, ha]
  | accept _ _ _ _ hfiles | reject _ _ hfiles | close _ _ _ _ hfiles =>
    exact within_after_self hfiles rfl
  | handOver _ _ _ _ hfiles | poll _ _ _ _ hfiles =>
    exact within_after_self hfiles (by simp [Held.merge, Held.seenBy])

/-- A step of another thread is one of the acceptor or of the rest of the process, or is not
    seen. -/
theorem TableEffect.other (h : TableEffect cfg (s.within i k) s') (hij : i ≠ j) (t : Server) :
    t.within j (k.after i s') = t.within j k ∨
      ∃ a, closesNoPending (t.within j k) a = true ∧
        Move cfg (t.within j k) a (t.within j (k.after i s')) := by
  cases h with
  | same hfiles hsock hacc => exact .inl (by rw [after_same hfiles hsock hacc])
  | accept fd hbefore hfile hlt hfiles hsock hacc =>
    have hnone : k.files fd = none := Option.map_eq_none_iff.mp hfile
    refine .inr ⟨.accept fd, rfl, ?_⟩
    rw [within_after hfiles, hsock, hacc]
    exact .accept fd hbefore (by simp [Server.within, hnone]) hlt
  | reject fd hbefore hfiles hsock hacc =>
    refine .inr ⟨.reject, rfl, ?_⟩
    rw [within_after hfiles, hsock, hacc]
    exact .reject fd hbefore
  | handOver fd sock hbefore hfile hfiles hsock hacc =>
    have hheld := held_of_acceptor hfile
    have hf : (Held.merge i (k.files fd) (some ⟨sock, .thread, false⟩)).map (Held.seenBy j) =
        ((t.within j k).files fd).map (fun f => { f with owner := Owner.other }) := by
      simp [Server.within, hheld, Held.merge, Held.seenBy, hij]
    refine .inr ⟨.handOther, rfl, ?_⟩
    rw [within_after hfiles, hsock, hacc, hf]
    exact .handOther fd hbefore
  | close fd sock polled hfile hfiles hsock hacc =>
    have hheld := held_of_thread hfile
    refine .inr ⟨.otherClose fd, rfl, ?_⟩
    rw [within_after hfiles, hsock, hacc]
    exact .otherClose fd ⟨sock, .other, false⟩
      (by simp [Server.within, hheld, Held.seenBy, hij]) rfl
  | poll fd sock polled hfile hfiles hsock hacc =>
    have hheld := held_of_thread hfile
    have hf : (Held.merge i (k.files fd) (some ⟨sock, .thread, true⟩)).map (Held.seenBy j) =
        (t.within j k).files fd := by
      simp [Server.within, hheld, Held.merge, Held.seenBy, hij]
    left
    rw [within_after hfiles, hsock, hacc, hf]
    unfold Server.setFile
    rw [update_eq_self]
    rfl

theorem threadStep_move (h : threadStep cfg k i s a = some (k', s')) :
    a.inside = true ∧ Move cfg (s.within i k) a s' ∧ k' = k.after i s' := by
  unfold threadStep at h
  split at h
  · obtain ⟨s1, hs, he⟩ := Option.map_eq_some_iff.mp h
    obtain ⟨rfl, rfl⟩ := Prod.mk.inj he
    exact ⟨‹_›, step_move hs, rfl⟩
  · cases h

theorem threadStep_own (hcap : cfg.maxConnections ≤ 2 ^ 16) (hi : KernelInv cfg (s.within i k))
    (hok : closesNoPending (s.within i k) a = true) (h : threadStep cfg k i s a = some (k', s')) :
    KernelInv cfg (s'.within i k') := by
  obtain ⟨hin, hm, rfl⟩ := threadStep_move h
  have heffect := table_effect hi (Bool.and_eq_true_iff.mp hok).1 hin hm
  rw [heffect.own]
  exact hi.move hcap hok hm

theorem threadStep_other (hcap : cfg.maxConnections ≤ 2 ^ 16) (hi : KernelInv cfg (s.within i k))
    (hok : closesNoPending (s.within i k) a = true) (h : threadStep cfg k i s a = some (k', s'))
    (hij : i ≠ j) (hj : KernelInv cfg (t.within j k)) : KernelInv cfg (t.within j k') := by
  obtain ⟨hin, hm, rfl⟩ := threadStep_move h
  have heffect := table_effect hi (Bool.and_eq_true_iff.mp hok).1 hin hm
  rcases heffect.other hij t with he | ⟨b, hb, hmove⟩
  · rw [he]
    exact hj
  · exact hj.move hcap hb hmove

/-! ## The rest of the process -/

def Shared.opened (k : Shared) (fd : Fd) (holder : Holder) : Shared :=
  { k with
    files := update k.files fd (some ⟨k.nextSock, holder⟩)
    nextSock := k.nextSock + 1 }

def Shared.closed (k : Shared) (fd : Fd) : Shared :=
  { k with files := update k.files fd none }

theorem opened_files_self (k : Shared) (fd : Fd) (holder : Holder) :
    (k.opened fd holder).files fd = some ⟨k.nextSock, holder⟩ :=
  update_self _ _ _

theorem opened_files_of_ne (holder : Holder) (h : fd' ≠ fd) :
    (k.opened fd holder).files fd' = k.files fd' :=
  update_of_ne h _ _

theorem closed_files_of_ne (h : fd' ≠ fd) : (k.closed fd).files fd' = k.files fd' :=
  update_of_ne h _ _

theorem of_closed_files (h : (k.closed fd).files fd' = some held) :
    fd' ≠ fd ∧ k.files fd' = some held := by
  have hne : fd' ≠ fd := by
    rintro rfl
    have hself : (k.closed fd').files fd' = none := update_self _ _ _
    simp [hself] at h
  exact ⟨hne, (closed_files_of_ne hne).symm.trans h⟩

/-- A file opened outside the event thread and the acceptor. -/
theorem KernelInv.opened (hcap : cfg.maxConnections ≤ 2 ^ 16) (h : KernelInv cfg (t.within j k))
    {holder : Holder} (hfile : k.files fd = none)
    (hother : (Held.seenBy j ⟨k.nextSock, holder⟩) = ⟨k.nextSock, .other, false⟩) :
    KernelInv cfg (t.within j (k.opened fd holder)) := by
  have hfiles : (k.opened fd holder).files =
      update k.files fd (some ⟨k.nextSock, holder⟩) := rfl
  have hview : (t.within j (k.opened fd holder)).files =
      update (t.within j k).files fd (some ⟨k.nextSock, .other, false⟩) := by
    rw [within_update hfiles, ← hother]
    rfl
  rw [within_eq hview]
  have hm : Move cfg (t.within j k) (.otherOpen fd) _ :=
    .otherOpen fd (by simp [Server.within, hfile])
  exact h.move hcap rfl hm

/-- A file closed that is not the event thread's and not the acceptor's. -/
theorem KernelInv.closed (hcap : cfg.maxConnections ≤ 2 ^ 16) (h : KernelInv cfg (t.within j k))
    (hfile : k.files fd = some held) (hother : (held.seenBy j).owner = .other) :
    KernelInv cfg (t.within j (k.closed fd)) := by
  have hfiles : (k.closed fd).files = update k.files fd none := rfl
  have hview : (t.within j (k.closed fd)).files = update (t.within j k).files fd none :=
    within_update hfiles
  rw [within_eq hview]
  have hm : Move cfg (t.within j k) (.otherClose fd) _ :=
    .otherClose fd (held.seenBy j) (by simp [Server.within, hfile]) hother
  exact h.move hcap rfl hm

/-- A thread before its first connection. -/
theorem KernelInv.init_within (cfg : Config) (i : Nat) (hacc : k.accepted = none)
    (hfiles : ∀ fd held, k.files fd = some held → ∀ polled, held.holder ≠ .conn i polled) :
    KernelInv cfg ((Server.init cfg).within i k) := by
  have h := KernelInv.init cfg
  refine ⟨⟨h.slots.nodup, h.slots.bound, h.slots.map, h.slots.inj, h.slots.torn, h.slots.working⟩,
    ⟨fun fd => ⟨?_, ?_, ?_, ?_⟩, .nil⟩, ⟨h.live.fd, h.live.live⟩,
    ⟨h.events.distinct, h.events.fresh, h.events.idle, h.events.focus⟩⟩
  · intro x hx
    simp [Server.within, Server.init] at hx
  · intro f hf hpolled
    obtain ⟨held, hheld, rfl⟩ := Option.map_eq_some_iff.mp hf
    have hnot := hfiles fd held hheld
    unfold Held.seenBy at hpolled
    split at hpolled
    · cases hpolled
    · rename_i j polled hholder
      split at hpolled
      · rename_i hj
        exact absurd (hj ▸ hholder) (hnot polled)
      · cases hpolled
    · cases hpolled
  · intro hq
    simp [Server.within, Server.init] at hq
  · intro ha
    exact absurd (hacc.symm.trans ha) (by simp)

end Views

end Portico.Loop
