/-
  Handshakes and the replacement of the context group: `swap_tls_group` of src/ws/ws_server.c,
  the load of `tls_ctx` by `process_new_connection` (src/ws/ws_message_processor.c), and the uses
  of a group in `ws_tls_conn_new` and `sni_cb` (src/ws/ws_tls.c).

  Model. One thread calls `ws_server_reload_tls` and `ws_server_add_sni_cert`; a call that
  succeeds builds a group, exchanges the pointer, frees the group retired by the call before,
  and retires the old one, each as a step of its own (`Portico.Lib.Grace`); a call that fails
  touches no group. A connection loads the pointer, makes its SSL object from the group, and
  then the SNI callback may run any number of times, with the group as its argument, until the
  handshake ends. OpenSSL keeps the SSL_CTX of the object alive, but not the group.

  Proved: `handshake_group_alive`, a group is not freed while at most one exchange has followed
  the load. With two, a handshake that is still open uses a freed group
  (`slow_handshake_uses_freed_group`): calls are counted, not handshakes.
-/
import Portico.Lib.Grace
import Portico.Tls.Certs

namespace Portico.Tls

open Portico.Lib

/-- The pointer is loaded; the SSL object exists and its handshake is going on; it is over. -/
inductive HandshakePc where
  | loaded
  | handshaking
  | done
  deriving DecidableEq, Repr

/-- A connection and the group it has loaded; `since` is the entry of `published` that was. -/
structure TlsConn where
  group : Nat
  since : Nat
  pc : HandshakePc
  deriving DecidableEq, Repr

structure Handshakes where
  groups : Publisher
  conns : List TlsConn
  deriving DecidableEq, Repr

def Handshakes.init : Handshakes := ⟨.init true, []⟩

/-- `accept`: a connection loads `tls_ctx`; `connNew`: `ws_tls_conn_new`, which may fail; `sni`:
    the SNI callback; `finish`: the handshake is over, or the connection closed; `caller`: a step
    of a call that replaces the group. -/
inductive TlsLabel where
  | accept
  | connNew (k : Nat) (ok : Bool)
  | sni (k : Nat)
  | finish (k : Nat)
  | caller (a : PublishStep)
  deriving DecidableEq, Repr

namespace Handshakes

def setPc (s : Handshakes) (k : Nat) (c : TlsConn) (pc : HandshakePc) : Handshakes :=
  { s with conns := s.conns.set k { c with pc := pc } }

def step (s : Handshakes) : TlsLabel → Option Handshakes
  | .accept =>
    s.groups.current.map fun g =>
      { s with conns := s.conns ++ [⟨g, s.groups.published.length - 1, .loaded⟩] }
  | .connNew k ok =>
    match s.conns[k]? with
    | none => none
    | some c =>
      if c.pc = .loaded then some (s.setPc k c (if ok then .handshaking else .done)) else none
  | .sni k =>
    match s.conns[k]? with
    | none => none
    | some c => if c.pc = .handshaking then some s else none
  | .finish k =>
    match s.conns[k]? with
    | none => none
    | some c => if c.pc = .handshaking then some (s.setPc k c .done) else none
  | .caller a => (s.groups.step a).map fun groups => { s with groups := groups }

/-- The connection whose group a step dereferences. -/
def user (s : Handshakes) : TlsLabel → Option TlsConn
  | .connNew k _ => s.conns[k]?.filter (·.pc = .loaded)
  | .sni k => s.conns[k]?.filter (·.pc = .handshaking)
  | _ => none

/-- How often the group has been exchanged since the connection loaded it. -/
def swapsSince (s : Handshakes) (c : TlsConn) : Nat := s.groups.published.length - 1 - c.since

structure Inv (s : Handshakes) : Prop where
  groups : s.groups.Inv
  loaded : ∀ c ∈ s.conns, s.groups.published[c.since]? = some (some c.group)

theorem Inv.init : Inv .init := ⟨.init true, by simp [Handshakes.init]⟩

variable {s s' : Handshakes} {c : TlsConn} {a : TlsLabel}

theorem Inv.setPc (h : Inv s) {k : Nat} (hc : s.conns[k]? = some c) (pc : HandshakePc) :
    Inv (s.setPc k c pc) := by
  refine ⟨h.groups, fun d hd => ?_⟩
  rcases List.mem_or_eq_of_mem_set hd with hd | rfl
  · exact h.loaded d hd
  · exact h.loaded c (List.mem_of_getElem? hc)

theorem Inv.step (h : Inv s) (hstep : s.step a = some s') : Inv s' := by
  cases a with
  | accept =>
    obtain ⟨g, hg, rfl⟩ := Option.map_eq_some_iff.mp hstep
    refine ⟨h.groups, fun c hc => ?_⟩
    rcases List.mem_append.mp hc with hc | hc
    · exact h.loaded c hc
    · -- the last entry is what the pointer holds
      rw [List.mem_singleton.mp hc]
      have hlast := h.groups.current
      rw [List.getLast?_eq_getElem?, hg] at hlast
      exact hlast
  | connNew k ok =>
    simp only [Handshakes.step] at hstep
    split at hstep
    · cases hstep
    · rename_i c hc
      split at hstep <;> cases hstep
      exact h.setPc hc _
  | sni =>
    simp only [Handshakes.step] at hstep
    split at hstep
    · cases hstep
    · split at hstep <;> cases hstep
      exact h
  | finish k =>
    simp only [Handshakes.step] at hstep
    split at hstep
    · cases hstep
    · rename_i c hc
      split at hstep <;> cases hstep
      exact h.setPc hc _
  | caller =>
    obtain ⟨groups, hgroups, rfl⟩ := Option.map_eq_some_iff.mp hstep
    refine ⟨h.groups.step hgroups, fun c hc => ?_⟩
    have hget := h.loaded c hc
    obtain ⟨new, hnew⟩ := Publisher.step_published hgroups
    rw [← hnew, List.getElem?_append_left (List.getElem?_eq_some_iff.mp hget).1]
    exact hget

theorem user_mem (h : s.user a = some c) : c ∈ s.conns := by
  cases a with
  | connNew | sni => exact List.mem_of_getElem? (Option.filter_eq_some_iff.mp h).1
  | accept | finish | caller => simp [user] at h

end Handshakes

/-- For every interleaving of connections with the calls that replace the group: a step that
    uses a connection's group uses one that has not been freed, if the group has been exchanged
    at most once since the connection loaded it. -/
theorem handshake_group_alive (labels : List TlsLabel) (s : Handshakes)
    (hrun : run Handshakes.step .init labels = some s) (a : TlsLabel) (c : TlsConn)
    (huser : s.user a = some c) (hgrace : s.swapsSince c ≤ 1) : c.group ∉ s.groups.freed := by
  have hinv : s.Inv :=
    run_invariant_all (fun _ _ _ h hstep => h.step hstep) labels _ s Handshakes.Inv.init hrun
  apply hinv.groups.not_freed (hinv.loaded c (Handshakes.user_mem huser))
  unfold Handshakes.swapsSince at hgrace
  omega

/-- The steps of one call that succeeds. -/
def oneSwap : List TlsLabel := [.caller .make, .caller .swap, .caller .free, .caller .retire]

/-- A reload during the handshake. -/
theorem handshake_group_alive_one_reload :
    let labels := [.accept, .connNew 0 true] ++ oneSwap
    ∃ s c, run Handshakes.step .init labels = some s ∧ s.user (.sni 0) = some c ∧
      s.groups.current = some 1 ∧ c.group = 0 ∧ c.group ∉ s.groups.freed := by
  intro labels
  refine ⟨_, _, rfl, rfl, rfl, rfl, ?_⟩
  exact handshake_group_alive labels _ rfl (.sni 0) _ rfl (by decide)

/-- Two reloads during the handshake: the SNI callback then runs on a freed group. -/
theorem slow_handshake_uses_freed_group :
    ∃ s c, run Handshakes.step .init ([.accept, .connNew 0 true] ++ oneSwap ++ oneSwap) = some s ∧
      s.user (.sni 0) = some c ∧ c.group ∈ s.groups.freed :=
  ⟨_, _, rfl, rfl, by decide⟩

/-! ## Without interleaving -/

universe u

variable {κ : Type u}

/-- What the pointers of the caller denote, with the contents of each group. -/
structure Denotes (contents : Nat → TlsGroup κ) (groups : Publisher) (t : TlsServer κ) : Prop where
  ctx : t.ctx = groups.current.map contents
  retired : t.retired = groups.retired.map contents

/-- The steps of one call, taken together, are `swapTlsGroup`. -/
theorem swap_denotes {contents : Nat → TlsGroup κ} {s s' : Handshakes} {t : TlsServer κ}
    (h : Denotes contents s.groups t) (hrun : run Handshakes.step s oneSwap = some s') :
    Denotes contents s'.groups (t.swapTlsGroup (contents s.groups.next)) := by
  cases hpc : s.groups.pc <;>
    simp [oneSwap, run, Handshakes.step, Publisher.step, hpc] at hrun
  subst hrun
  exact ⟨rfl, h.ctx⟩

end Portico.Tls
