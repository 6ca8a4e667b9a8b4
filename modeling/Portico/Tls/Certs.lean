/-
  The certificates of a TLS listener: the context group of src/ws/ws_tls.c, and
  `build_tls_group`, `swap_tls_group`, `ws_server_reload_tls_internal` and
  `ws_server_add_sni_cert_internal` of src/ws/ws_server.c.

  Model. A file name and a host name are C strings, a NULL pointer is `none`. Every `make_ctx`
  of a call takes one answer from the call's list: the certificate could be loaded, and what was
  in its files (of any type), or not; an exhausted list answers no. An allocation that fails
  while a context is added to a group is an answer no as well. The runtime list is changed in
  place and rolled back as in the source: `findSlot` cuts it at the entry that is updated.

  Proved: `failed_call_keeps_certs`, calls that fail change nothing and calls that succeed
  leave the group of the configured certificates and the list; `added_cert_presented`, a
  certificate that was added is presented unless an entry before it matches the name. The
  configured ones are always before it (`added_cert_hidden`).
-/
import Mathlib.Data.List.TakeDrop
import Mathlib.Data.List.TakeWhile
import Portico.Lib.Machine
import Portico.Ws.Handshake

namespace Portico.Tls

open Portico.Lib Portico.Ws List

universe u

variable {κ : Type u}

/-! ## Context groups -/

/-- `SSL_CTX`: the files it was made from, and what was in them. -/
structure SslCtx (κ : Type u) where
  certFile : Bytes
  keyFile : Bytes
  loaded : κ
  deriving DecidableEq, Repr

/-- `ws_tls_group_t`. -/
structure TlsGroup (κ : Type u) where
  default : SslCtx κ
  certs : List (Bytes × SslCtx κ)
  deriving DecidableEq, Repr

/-- `ws_tls_sni_cert_t`. -/
structure SniCert where
  hostname : Option Bytes
  certFile : Option Bytes
  keyFile : Option Bytes
  deriving DecidableEq, Repr

/-- The part of `ws_config_t` about TLS. -/
structure TlsConfig where
  certFile : Option Bytes
  keyFile : Option Bytes
  sniCerts : List SniCert
  deriving DecidableEq, Repr

/-- `struct ws_rt_sni`. -/
structure RtSni where
  host : Bytes
  cert : Bytes
  key : Bytes
  deriving DecidableEq, Repr

def RtSni.sniCert (e : RtSni) : SniCert := ⟨some e.host, some e.cert, some e.key⟩

def makeCtx (certFile keyFile : Option Bytes) (loads : List (Option κ)) :
    Option (SslCtx κ) × List (Option κ) :=
  match certFile, keyFile with
  | some cert, some key => ((loads.headD none).map (⟨cert, key, ·⟩), loads.tail)
  | _, _ => (none, loads)

def wsTlsCtxCreate (certFile keyFile : Option Bytes) (loads : List (Option κ)) :
    Option (TlsGroup κ) × List (Option κ) :=
  match makeCtx certFile keyFile loads with
  | (ctx, loads) => (ctx.map (⟨·, []⟩), loads)

def wsTlsCtxAddSni (g : TlsGroup κ) (c : SniCert) (loads : List (Option κ)) :
    Option (TlsGroup κ) × List (Option κ) :=
  match c.hostname with
  | none => (none, loads)
  | some host =>
    match makeCtx c.certFile c.keyFile loads with
    | (none, loads) => (none, loads)
    | (some ctx, loads) => (some { g with certs := g.certs ++ [(host, ctx)] }, loads)

/-- One of the two loops of `build_tls_group`. -/
def addSniCerts :
    List SniCert → TlsGroup κ → List (Option κ) → Option (TlsGroup κ) × List (Option κ)
  | [], g, loads => (some g, loads)
  | c :: cs, g, loads =>
    match wsTlsCtxAddSni g c loads with
    | (none, loads) => (none, loads)
    | (some g, loads) => addSniCerts cs g loads

def buildTlsGroup (cfg : TlsConfig) (rtSni : List RtSni) (loads : List (Option κ)) :
    Option (TlsGroup κ) :=
  match wsTlsCtxCreate cfg.certFile cfg.keyFile loads with
  | (none, _) => none
  | (some g, loads) =>
    match addSniCerts cfg.sniCerts g loads with
    | (none, _) => none
    | (some g, loads) => (addSniCerts (rtSni.map RtSni.sniCert) g loads).1

/-! ## The server -/

/-- The fields of `ws_server_internal_t` about TLS. -/
structure TlsServer (κ : Type u) where
  ctx : Option (TlsGroup κ)
  retired : Option (TlsGroup κ)
  rtSni : List RtSni
  rtSniCap : Nat
  deriving DecidableEq, Repr

/-- The TLS part of `ws_server_create_internal`; `none`: it fails. -/
def wsServerCreate (cfg : TlsConfig) (loads : List (Option κ)) : Option (TlsServer κ) :=
  match cfg.certFile, cfg.keyFile with
  | some _, some _ => (buildTlsGroup cfg [] loads).map (⟨some ·, none, [], 0⟩)
  | _, _ => some ⟨none, none, [], 0⟩

def TlsServer.swapTlsGroup (s : TlsServer κ) (g : TlsGroup κ) : TlsServer κ :=
  { s with ctx := some g, retired := s.ctx }

def wsServerReloadTls (cfg : TlsConfig) (s : TlsServer κ) (loads : List (Option κ)) :
    TlsServer κ × Bool :=
  match s.ctx with
  | none => (s, false)
  | some _ =>
    match buildTlsGroup cfg s.rtSni loads with
    | none => (s, false)
    | some g => (s.swapTlsGroup g, true)

/-- The first entry of that host, with what is before and behind it. -/
def findSlot (hostname : Bytes) : List RtSni → Option (List RtSni × RtSni × List RtSni)
  | [] => none
  | e :: l =>
    if equalsCi e.host hostname then some ([], e, l)
    else (findSlot hostname l).map fun (before, slot, behind) => (e :: before, slot, behind)

/-- The end of `ws_server_add_sni_cert_internal`, for a list that has been changed. -/
def rebuild (cfg : TlsConfig) (s : TlsServer κ) (rollback : List RtSni)
    (loads : List (Option κ)) : TlsServer κ × Bool :=
  match buildTlsGroup cfg s.rtSni loads with
  | none => ({ s with rtSni := rollback }, false)
  | some g => (s.swapTlsGroup g, true)

/-- The arguments of `ws_server_add_sni_cert`, whether its three strings can be copied and the
    list be grown, and the answers to the loads. -/
structure AddCall (κ : Type u) where
  hostname : Option Bytes
  certFile : Option Bytes
  keyFile : Option Bytes
  pathsOk : Bool
  growOk : Bool
  hostOk : Bool
  loads : List (Option κ)
  deriving DecidableEq, Repr

def appendSlot (cfg : TlsConfig) (s : TlsServer κ) (call : AddCall κ) (entry : RtSni) :
    TlsServer κ × Bool :=
  if s.rtSni.length = s.rtSniCap ∧ call.growOk = false then (s, false)
  else
    let s := if s.rtSni.length = s.rtSniCap then
        { s with rtSniCap := if s.rtSniCap = 0 then 4 else s.rtSniCap * 2 }
      else s
    if !call.hostOk then (s, false)
    else
      let s := { s with rtSni := s.rtSni ++ [entry] }
      rebuild cfg s s.rtSni.dropLast call.loads

def wsServerAddSniCert (cfg : TlsConfig) (s : TlsServer κ) (call : AddCall κ) :
    TlsServer κ × Bool :=
  match s.ctx, call.hostname, call.certFile, call.keyFile with
  | some _, some hostname, some nc, some nk =>
    if !call.pathsOk then (s, false)
    else match findSlot hostname s.rtSni with
      | some (before, slot, behind) =>
        let updated := { slot with cert := nc, key := nk }
        let restored := { updated with cert := slot.cert, key := slot.key }
        rebuild cfg { s with rtSni := before ++ updated :: behind }
          (before ++ restored :: behind) call.loads
      | none => appendSlot cfg s call ⟨hostname, nc, nk⟩
  | _, _, _, _ => (s, false)

inductive TlsCall (κ : Type u) where
  | reload (loads : List (Option κ))
  | add (call : AddCall κ)
  deriving DecidableEq, Repr

def TlsCall.loads : TlsCall κ → List (Option κ)
  | .reload loads => loads
  | .add call => call.loads

/-- The server after a call, and whether it returned 0. -/
def TlsCall.perform (cfg : TlsConfig) (s : TlsServer κ) : TlsCall κ → TlsServer κ × Bool
  | .reload loads => wsServerReloadTls cfg s loads
  | .add call => wsServerAddSniCert cfg s call

def tlsStep (cfg : TlsConfig) (s : TlsServer κ) (call : TlsCall κ) : Option (TlsServer κ) :=
  some (call.perform cfg s).1

/-! ## Handshakes -/

def hostMatch (pat host : Bytes) : Bool :=
  if pat.take 2 = ascii "*." then
    match host.dropWhile (· != 46) with
    | [] => false
    | _ :: label => equalsCi (pat.drop 2) label
  else equalsCi pat host

/-- `sni_cb`: the context that a handshake with that server name goes on with. -/
def sniCb (g : TlsGroup κ) (servername : Option Bytes) : SslCtx κ :=
  match servername with
  | none => g.default
  | some host =>
    match g.certs.find? fun c => hostMatch c.1 host with
    | some c => c.2
    | none => g.default

/-- What a new handshake presents. -/
def TlsServer.presented (s : TlsServer κ) (servername : Option Bytes) : Option (SslCtx κ) :=
  s.ctx.map (sniCb · servername)

/-! ## What a group holds -/

/-- The group is made of the configured certificates followed by the list. -/
structure TlsGroup.MadeOf (g : TlsGroup κ) (cfg : TlsConfig) (rtSni : List RtSni) : Prop where
  certFile : cfg.certFile = some g.default.certFile
  keyFile : cfg.keyFile = some g.default.keyFile
  certs : g.certs.map (fun c => (⟨some c.1, some c.2.certFile, some c.2.keyFile⟩ : SniCert)) =
    cfg.sniCerts ++ rtSni.map RtSni.sniCert

variable {rtSni : List RtSni} {cfg : TlsConfig}

section Build

variable {g g' : TlsGroup κ} {loads loads' : List (Option κ)}

theorem makeCtx_some {certFile keyFile : Option Bytes} {ctx : SslCtx κ}
    (h : makeCtx certFile keyFile loads = (some ctx, loads')) :
    certFile = some ctx.certFile ∧ keyFile = some ctx.keyFile := by
  unfold makeCtx at h
  split at h
  · obtain ⟨hctx, -⟩ := Prod.mk.inj h
    obtain ⟨loaded, -, rfl⟩ := Option.map_eq_some_iff.mp hctx
    exact ⟨rfl, rfl⟩
  · exact absurd (congrArg Prod.fst h) (by simp)

theorem wsTlsCtxAddSni_some {c : SniCert} (h : wsTlsCtxAddSni g c loads = (some g', loads')) :
    ∃ host ctx, g' = { g with certs := g.certs ++ [(host, ctx)] } ∧
      c = ⟨some host, some ctx.certFile, some ctx.keyFile⟩ := by
  obtain ⟨hostname, certFile, keyFile⟩ := c
  unfold wsTlsCtxAddSni at h
  cases hostname with
  | none => exact absurd (congrArg Prod.fst h) (by simp)
  | some host =>
    rcases hm : makeCtx certFile keyFile loads with ⟨_ | ctx, rest⟩
    · simp only [hm] at h
      exact absurd (congrArg Prod.fst h) (by simp)
    · simp only [hm] at h
      obtain ⟨hcert, hkey⟩ := makeCtx_some hm
      exact ⟨host, ctx, (Option.some.inj (congrArg Prod.fst h)).symm, by rw [hcert, hkey]⟩

/-- The loop appends what it is given, and keeps the default. -/
theorem addSniCerts_some : ∀ {cs : List SniCert} {g : TlsGroup κ} {loads : List (Option κ)},
    addSniCerts cs g loads = (some g', loads') → g'.default = g.default ∧
      g'.certs.map (fun c => (⟨some c.1, some c.2.certFile, some c.2.keyFile⟩ : SniCert)) =
        g.certs.map (fun c => (⟨some c.1, some c.2.certFile, some c.2.keyFile⟩ : SniCert)) ++ cs
  | [], g, loads, h => by
    obtain rfl : g = g' := Option.some.inj (congrArg Prod.fst h)
    exact ⟨rfl, (append_nil _).symm⟩
  | c :: cs, g, loads, h => by
    unfold addSniCerts at h
    rcases hadd : wsTlsCtxAddSni g c loads with ⟨_ | g1, rest⟩
    · simp only [hadd] at h
      exact absurd (congrArg Prod.fst h) (by simp)
    · simp only [hadd] at h
      obtain ⟨host, ctx, rfl, rfl⟩ := wsTlsCtxAddSni_some hadd
      obtain ⟨hdef, hcerts⟩ := addSniCerts_some h
      refine ⟨hdef, hcerts.trans ?_⟩
      rw [map_append, append_assoc]
      rfl

theorem buildTlsGroup_madeOf (h : buildTlsGroup cfg rtSni loads = some g) : g.MadeOf cfg rtSni := by
  unfold buildTlsGroup wsTlsCtxCreate at h
  rcases hm : makeCtx cfg.certFile cfg.keyFile loads with ⟨_ | ctx, rest⟩
  · simp only [hm, Option.map_none] at h
    cases h
  simp only [hm, Option.map_some] at h
  obtain ⟨hcert, hkey⟩ := makeCtx_some hm
  rcases h1 : addSniCerts cfg.sniCerts ⟨ctx, []⟩ rest with ⟨_ | g1, rest1⟩
  · simp only [h1] at h
    cases h
  simp only [h1] at h
  rcases h2 : addSniCerts (rtSni.map RtSni.sniCert) g1 rest1 with ⟨_ | g2, rest2⟩
  · simp only [h2] at h
    cases h
  simp only [h2, Option.some.injEq] at h
  subst h
  obtain ⟨hdef1, hcerts1⟩ := addSniCerts_some h1
  obtain ⟨hdef2, hcerts2⟩ := addSniCerts_some h2
  have hdef : g2.default = ctx := hdef2.trans hdef1
  refine ⟨hdef ▸ hcert, hdef ▸ hkey, ?_⟩
  rw [hcerts2, hcerts1]
  rfl

end Build

/-! ## Calls -/

/-- No two hosts of the list are equal up to case. -/
def Distinct (rtSni : List RtSni) : Prop :=
  rtSni.Pairwise fun a b => equalsCi a.host b.host = false

variable {hostname : Bytes}

theorem findSlot_some : ∀ {l before behind : List RtSni} {slot : RtSni},
    findSlot hostname l = some (before, slot, behind) →
      l = before ++ slot :: behind ∧ equalsCi slot.host hostname = true ∧
        ∀ e ∈ before, equalsCi e.host hostname = false
  | [], _, _, _, h => absurd h (by simp [findSlot])
  | e :: l, before, behind, slot, h => by
    unfold findSlot at h
    split at h
    · rename_i heq
      cases h
      exact ⟨rfl, heq, by simp⟩
    · rename_i hne
      obtain ⟨⟨before', slot', behind'⟩, hfind, hcut⟩ := Option.map_eq_some_iff.mp h
      cases hcut
      obtain ⟨rfl, hslot, hbefore⟩ := findSlot_some hfind
      refine ⟨rfl, hslot, fun x hx => ?_⟩
      rcases mem_cons.mp hx with rfl | hx
      · exact Bool.eq_false_iff.mpr hne
      · exact hbefore x hx

theorem findSlot_none : ∀ {l : List RtSni}, findSlot hostname l = none →
    ∀ e ∈ l, equalsCi e.host hostname = false
  | [], _, _, he => absurd he (by simp)
  | x :: l, h, e, he => by
    unfold findSlot at h
    split at h
    · cases h
    · rename_i hne
      rcases mem_cons.mp he with rfl | he
      · exact Bool.eq_false_iff.mpr hne
      · exact findSlot_none (Option.map_eq_none_iff.mp h) e he

/-- What a call that returns 0 does to the list: nothing, an update in place, or an append. -/
inductive Listed (rtSni : List RtSni) : TlsCall κ → List RtSni → Prop
  | reload (loads : List (Option κ)) : Listed rtSni (.reload loads) rtSni
  | update (call : AddCall κ) (before behind : List RtSni) (slot : RtSni) (host cert key : Bytes)
      (hcall : call.hostname = some host ∧ call.certFile = some cert ∧ call.keyFile = some key)
      (hlist : rtSni = before ++ slot :: behind) (hslot : equalsCi slot.host host = true)
      (hbefore : ∀ e ∈ before, equalsCi e.host host = false) :
      Listed rtSni (.add call) (before ++ { slot with cert := cert, key := key } :: behind)
  | append (call : AddCall κ) (host cert key : Bytes)
      (hcall : call.hostname = some host ∧ call.certFile = some cert ∧ call.keyFile = some key)
      (hnew : ∀ e ∈ rtSni, equalsCi e.host host = false) :
      Listed rtSni (.add call) (rtSni ++ [⟨host, cert, key⟩])

/-- A call either fails and leaves group and list alone, or it returns 0 and publishes the group
    of the list it leaves. -/
def Settles (cfg : TlsConfig) (s : TlsServer κ) (call : TlsCall κ) (r : TlsServer κ × Bool) :
    Prop :=
  (r.2 = false ∧ r.1.ctx = s.ctx ∧ r.1.rtSni = s.rtSni) ∨
    (r.2 = true ∧ Listed s.rtSni call r.1.rtSni ∧
      ∃ g, r.1.ctx = some g ∧ buildTlsGroup cfg r.1.rtSni call.loads = some g)

variable {call : TlsCall κ}

section Calls

variable {s s' : TlsServer κ}

theorem rebuild_settles {rollback : List RtSni} (hctx : s'.ctx = s.ctx) (hroll : rollback = s.rtSni)
    (hlist : Listed s.rtSni call s'.rtSni) :
    Settles cfg s call (rebuild cfg s' rollback call.loads) := by
  unfold rebuild
  cases hb : buildTlsGroup cfg s'.rtSni call.loads with
  | none => exact .inl ⟨rfl, hctx, hroll⟩
  | some g => exact .inr ⟨rfl, hlist, g, rfl, hb⟩

theorem Settles.keep : Settles cfg s call (s, false) := .inl ⟨rfl, rfl, rfl⟩

theorem wsServerReloadTls_settles (loads : List (Option κ)) :
    Settles cfg s (.reload loads) (wsServerReloadTls cfg s loads) := by
  unfold wsServerReloadTls
  split
  · exact .keep
  · cases hb : buildTlsGroup cfg s.rtSni loads with
    | none => exact .keep
    | some g => exact .inr ⟨rfl, .reload loads, g, rfl, hb⟩

theorem appendSlot_settles {call : AddCall κ} {entry : RtSni}
    (hlist : Listed s.rtSni (.add call) (s.rtSni ++ [entry])) :
    Settles cfg s (.add call) (appendSlot cfg s call entry) := by
  unfold appendSlot
  split
  · exact .keep
  · -- whether or not the array grows, only its capacity differs
    generalize hs1 : (if s.rtSni.length = s.rtSniCap then
        { s with rtSniCap := if s.rtSniCap = 0 then 4 else s.rtSniCap * 2 }
      else s) = s1
    have hsame : s1.ctx = s.ctx ∧ s1.rtSni = s.rtSni := by
      rw [← hs1]
      split <;> exact ⟨rfl, rfl⟩
    dsimp only
    split
    · exact .inl ⟨rfl, hsame⟩
    · rw [hsame.2, dropLast_concat]
      exact rebuild_settles hsame.1 rfl hlist

theorem wsServerAddSniCert_settles (call : AddCall κ) :
    Settles cfg s (.add call) (wsServerAddSniCert cfg s call) := by
  unfold wsServerAddSniCert
  split
  · rename_i hostname nc nk _ hhost hcert hkey
    split
    · exact .keep
    · cases hfind : findSlot hostname s.rtSni with
      | some cut =>
        obtain ⟨before, slot, behind⟩ := cut
        obtain ⟨hlist, hslot, hbefore⟩ := findSlot_some hfind
        exact rebuild_settles rfl hlist.symm
          (.update call before behind slot hostname nc nk ⟨hhost, hcert, hkey⟩ hlist hslot hbefore)
      | none =>
        exact appendSlot_settles
          (.append call hostname nc nk ⟨hhost, hcert, hkey⟩ (findSlot_none hfind))
  · exact .keep

theorem perform_settles (cfg : TlsConfig) (s : TlsServer κ) (call : TlsCall κ) :
    Settles cfg s call (call.perform cfg s) := by
  cases call with
  | reload loads => exact wsServerReloadTls_settles loads
  | add call => exact wsServerAddSniCert_settles call

/-- Only the entries behind `before` can be new, and the hosts in front of them stay. -/
theorem Listed.distinct {l l' : List RtSni} (h : Listed l call l') (hd : Distinct l) :
    Distinct l' := by
  cases h with
  | reload => exact hd
  | update call before behind slot host cert key hcall hlist =>
    subst hlist
    unfold Distinct at hd ⊢
    rw [pairwise_append, pairwise_cons] at hd ⊢
    obtain ⟨hb, ⟨hs, ht⟩, hc⟩ := hd
    refine ⟨hb, ⟨hs, ht⟩, fun a ha b hb => ?_⟩
    rcases mem_cons.mp hb with rfl | hb
    · exact hc a ha slot mem_cons_self
    · exact hc a ha b (mem_cons_of_mem _ hb)
  | append call host cert key hcall hnew =>
    unfold Distinct at hd ⊢
    rw [pairwise_append]
    refine ⟨hd, pairwise_singleton _ _, fun a ha b hb => ?_⟩
    rw [mem_singleton.mp hb]
    exact hnew a ha

/-- Between calls: the live group is made of the configured certificates and the list. -/
structure CertsInv (cfg : TlsConfig) (s : TlsServer κ) : Prop where
  live : ∀ g, s.ctx = some g → g.MadeOf cfg s.rtSni
  distinct : Distinct s.rtSni

variable {loads : List (Option κ)}

theorem wsServerCreate_inv (h : wsServerCreate cfg loads = some s) : CertsInv cfg s := by
  unfold wsServerCreate at h
  split at h
  · obtain ⟨g, hb, rfl⟩ := Option.map_eq_some_iff.mp h
    refine ⟨fun g' hg => ?_, List.Pairwise.nil⟩
    cases hg
    exact buildTlsGroup_madeOf hb
  · cases h
    exact ⟨fun g hg => absurd hg (by simp), List.Pairwise.nil⟩

theorem CertsInv.perform (h : CertsInv cfg s) (call : TlsCall κ) :
    CertsInv cfg (call.perform cfg s).1 := by
  rcases perform_settles cfg s call with ⟨-, hctx, hlist⟩ | ⟨-, hlist, g, hg, hb⟩
  · exact ⟨fun g hg => hlist ▸ h.live g (hctx ▸ hg), hlist ▸ h.distinct⟩
  · refine ⟨fun g' hg' => ?_, hlist.distinct h.distinct⟩
    rw [← Option.some.inj (hg.symm.trans hg')]
    exact buildTlsGroup_madeOf hb

theorem run_certsInv {calls : List (TlsCall κ)} {s0 : TlsServer κ}
    (hcreate : wsServerCreate cfg loads = some s0) (hrun : run (tlsStep cfg) s0 calls = some s) :
    CertsInv cfg s := by
  refine run_invariant_all (fun s call s' h hstep => ?_) calls s0 s (wsServerCreate_inv hcreate)
    hrun
  cases hstep
  exact h.perform call

end Calls

/-- After any calls, for any next one: if it returns -1 the live group and the list are what they
    were; if it returns 0 the live group is the one that `build_tls_group` makes of the
    configured certificates followed by the list. No two hosts of the list are equal up to
    case. -/
theorem failed_call_keeps_certs (cfg : TlsConfig) (loads : List (Option κ))
    (calls : List (TlsCall κ)) (s0 s : TlsServer κ) (hcreate : wsServerCreate cfg loads = some s0)
    (hrun : run (tlsStep cfg) s0 calls = some s) (call : TlsCall κ) :
    ((call.perform cfg s).2 = false →
      (call.perform cfg s).1.ctx = s.ctx ∧ (call.perform cfg s).1.rtSni = s.rtSni) ∧
    ((call.perform cfg s).2 = true → ∃ g, (call.perform cfg s).1.ctx = some g ∧
      buildTlsGroup cfg (call.perform cfg s).1.rtSni call.loads = some g ∧
      g.MadeOf cfg (call.perform cfg s).1.rtSni) ∧
    Distinct s.rtSni := by
  refine ⟨fun hfail => ?_, fun hok => ?_, (run_certsInv hcreate hrun).distinct⟩
  · rcases perform_settles cfg s call with ⟨-, hctx, hlist⟩ | ⟨hok, -⟩
    · exact ⟨hctx, hlist⟩
    · simp [hfail] at hok
  · rcases perform_settles cfg s call with ⟨hfail, -⟩ | ⟨-, -, g, hg, hb⟩
    · simp [hfail] at hok
    · exact ⟨g, hg, hb, buildTlsGroup_madeOf hb⟩

/-- A listener with a certificate for `a.x`. -/
def oneHost : TlsConfig :=
  ⟨some (ascii "c"), some (ascii "k"), [⟨some (ascii "a.x"), some (ascii "c1"), some (ascii "k1")⟩]⟩

/-- A call whose strings can be copied. -/
def AddCall.of (host cert key : String) (loads : List (Option κ)) : AddCall κ :=
  ⟨some (ascii host), some (ascii cert), some (ascii key), true, true, true, loads⟩

/-- `b.x` is added, and then its certificate cannot be replaced because the configured one of
    `a.x` no longer loads: group and list stay. -/
theorem failed_call_keeps_certs_rollback :
    let calls : List (TlsCall Nat) := [.add (.of "b.x" "c2" "k2" [some 3, some 4, some 5])]
    let call : TlsCall Nat := .add (.of "B.x" "c3" "k3" [some 6, none, some 7])
    ∃ s0 s, wsServerCreate oneHost [some 1, some 2] = some s0 ∧
      run (tlsStep oneHost) s0 calls = some s ∧ (call.perform oneHost s).2 = false ∧
      s.rtSni = [⟨ascii "b.x", ascii "c2", ascii "k2"⟩] ∧
      (call.perform oneHost s).1.ctx = s.ctx ∧ (call.perform oneHost s).1.rtSni = s.rtSni := by
  intro calls call
  refine ⟨_, _, rfl, rfl, by decide +kernel, by decide +kernel, ?_⟩
  exact (failed_call_keeps_certs oneHost [some 1, some 2] calls _ _ rfl rfl call).1
    (by decide +kernel)

/-! ## The certificate that is presented -/

/-- The call adds a certificate for that host and returns 0. -/
def TlsCall.adds (cfg : TlsConfig) (host : Bytes) (s : TlsServer κ) (call : TlsCall κ) : Bool :=
  match call with
  | .reload _ => false
  | .add c => c.hostname.any (equalsCi · host) && (wsServerAddSniCert cfg s c).2

/-- The first entry of the list that matches the name is the host's, with that certificate. -/
def InFront (rtSni : List RtSni) (host cert key name : Bytes) : Prop :=
  ∃ slot, rtSni.find? (fun e => hostMatch e.host name) = some slot ∧ slot.cert = cert ∧
    slot.key = key ∧ equalsCi slot.host host = true

/-- Every pattern matches itself, a wildcard too. -/
theorem hostMatch_self {pat host : Bytes} (h : equalsCi pat host = true) :
    hostMatch pat host = true := by
  unfold hostMatch
  split
  · rename_i hwild
    have hpat : pat = 42 :: 46 :: pat.drop 2 := by
      conv_lhs => rw [← take_append_drop 2 pat, hwild]
      rfl
    rw [hpat] at h
    obtain ⟨rest, rfl, hrest⟩ := equalsCi_wildcard h
    exact hrest
  · exact h

section Presented

variable {s s' : TlsServer κ} {host cert key name : Bytes}

theorem InFront.presented {g : TlsGroup κ} (hg : g.MadeOf cfg rtSni)
    (h : InFront rtSni host cert key name)
    (hcfg : ∀ c ∈ cfg.sniCerts, ∀ hostname, c.hostname = some hostname →
      hostMatch hostname name = false) :
    (sniCb g (some name)).certFile = cert ∧ (sniCb g (some name)).keyFile = key := by
  obtain ⟨slot, hfind, rfl, rfl, -⟩ := h
  let matching : SniCert → Bool := fun c => c.hostname.any (hostMatch · name)
  -- the first match among the group's certificates, seen as entries
  have hentry := congrArg (find? matching) hg.certs
  have hnone : cfg.sniCerts.find? matching = none := by
    rw [find?_eq_none]
    intro c hc
    cases hhost : c.hostname with
    | none => simp [matching, hhost]
    | some hostname => simp [matching, hhost, hcfg c hc hostname hhost]
  have hslot : (rtSni.map RtSni.sniCert).find? matching = some slot.sniCert := by
    rw [find?_map]
    show Option.map RtSni.sniCert (rtSni.find? fun e => hostMatch e.host name) = _
    rw [hfind]
    rfl
  rw [find?_append, hnone, hslot, find?_map, Option.none_or] at hentry
  obtain ⟨c, hc, heq⟩ := Option.map_eq_some_iff.mp hentry
  have hpresent : sniCb g (some name) = c.2 := by
    have hc : g.certs.find? (fun c => hostMatch c.1 name) = some c := hc
    simp only [sniCb, hc]
  rw [hpresent]
  exact ⟨Option.some.inj (congrArg SniCert.certFile heq),
    Option.some.inj (congrArg SniCert.keyFile heq)⟩

/-- The entry right after it was added. -/
theorem Listed.inFront {call : AddCall κ} {l l' : List RtSni} (h : Listed l (.add call) l')
    (hhost : call.hostname = some host) (hcert : call.certFile = some cert)
    (hkey : call.keyFile = some key) (hname : equalsCi name host = true)
    (hfront : ∀ e ∈ l.takeWhile (fun e => !equalsCi e.host host), hostMatch e.host name = false) :
    InFront l' host cert key name := by
  have hnone : ∀ {before : List RtSni}, (∀ e ∈ before, hostMatch e.host name = false) →
      before.find? (fun e => hostMatch e.host name) = none := by
    intro before hb
    rw [find?_eq_none]
    exact fun e he => by simp [hb e he]
  rw [equalsCi_iff] at hname
  cases h with
  | update _ before behind slot host' cert' key' hcall hlist hslot hbefore =>
    obtain rfl : host' = host := Option.some.inj (hcall.1.symm.trans hhost)
    obtain rfl : cert' = cert := Option.some.inj (hcall.2.1.symm.trans hcert)
    obtain rfl : key' = key := Option.some.inj (hcall.2.2.symm.trans hkey)
    have htake : l.takeWhile (fun e => !equalsCi e.host host') = before := by
      rw [hlist, takeWhile_append_of_pos fun e he => by simp [hbefore e he],
        takeWhile_cons_of_neg (by simp [hslot]), append_nil]
    rw [htake] at hfront
    have hself : hostMatch slot.host name = true :=
      hostMatch_self (equalsCi_iff.mpr ((equalsCi_iff.mp hslot).trans hname.symm))
    refine ⟨⟨slot.host, cert', key'⟩, ?_, rfl, rfl, hslot⟩
    simp only [find?_append, hnone hfront, Option.none_or, find?_cons, hself]
  | append _ host' cert' key' hcall hnew =>
    obtain rfl : host' = host := Option.some.inj (hcall.1.symm.trans hhost)
    obtain rfl : cert' = cert := Option.some.inj (hcall.2.1.symm.trans hcert)
    obtain rfl : key' = key := Option.some.inj (hcall.2.2.symm.trans hkey)
    rw [takeWhile_eq_self_iff.mpr fun e he => by simp [hnew e he]] at hfront
    have hself : hostMatch host' name = true := hostMatch_self (equalsCi_iff.mpr hname.symm)
    refine ⟨⟨host', cert', key'⟩, ?_, rfl, rfl, equalsCi_iff.mpr rfl⟩
    simp only [find?_append, hnone hfront, Option.none_or, find?_cons, hself]

/-- A call for another host leaves the entry where it is. -/
theorem Listed.keeps {l l' : List RtSni} (h : Listed l call l')
    (hother : ∀ c, call = .add c → ∀ hostname, c.hostname = some hostname →
      equalsCi hostname host = false) (hin : InFront l host cert key name) :
    InFront l' host cert key name := by
  obtain ⟨slot, hfind, hcert, hkey, hhost⟩ := hin
  cases h with
  | reload => exact ⟨slot, hfind, hcert, hkey, hhost⟩
  | append =>
    refine ⟨slot, ?_, hcert, hkey, hhost⟩
    rw [find?_append, hfind, Option.some_or]
  | update call before behind slot' host' cert' key' hcall hlist hslot =>
    refine ⟨slot, ?_, hcert, hkey, hhost⟩
    rw [hlist, find?_append] at hfind
    rw [find?_append]
    cases hb : before.find? fun e => hostMatch e.host name with
    | some =>
      rw [hb, Option.some_or] at hfind
      rw [Option.some_or]
      exact hfind
    | none =>
      rw [hb, Option.none_or] at hfind
      rw [Option.none_or]
      cases hm : hostMatch slot'.host name with
      | true =>
        -- the updated entry would be the host's own
        simp only [find?_cons, hm, Option.some.injEq] at hfind
        subst hfind
        have hne := hother call rfl host' hcall.1
        rw [equalsCi_iff] at hslot hhost
        exact absurd (equalsCi_iff.mpr (hslot.symm.trans hhost)) (by simp [hne])
      | false =>
        simp only [find?_cons, hm] at hfind ⊢
        exact hfind

end Presented

/-- A certificate that `ws_server_add_sni_cert` has added, returning 0, is presented to every new
    handshake whose server name is the host up to case, until the host is added again: if no
    configured certificate matches the name, and none that was added before the host. -/
theorem added_cert_presented (cfg : TlsConfig) (loads : List (Option κ))
    (calls : List (TlsCall κ)) (s0 s : TlsServer κ) (hcreate : wsServerCreate cfg loads = some s0)
    (hrun : run (tlsStep cfg) s0 calls = some s) (call : AddCall κ) (host cert key : Bytes)
    (hhost : call.hostname = some host) (hcert : call.certFile = some cert)
    (hkey : call.keyFile = some key) (hok : (wsServerAddSniCert cfg s call).2 = true)
    (later : List (TlsCall κ)) (s' : TlsServer κ)
    (hlater : RunMeets (tlsStep cfg) (fun s call => call.adds cfg host s = false)
      (wsServerAddSniCert cfg s call).1 later)
    (hrun' : run (tlsStep cfg) (wsServerAddSniCert cfg s call).1 later = some s') (name : Bytes)
    (hname : equalsCi name host = true)
    (hcfg : ∀ c ∈ cfg.sniCerts, ∀ hostname, c.hostname = some hostname →
      hostMatch hostname name = false)
    (hfront : ∀ e ∈ s.rtSni.takeWhile (fun e => !equalsCi e.host host),
      hostMatch e.host name = false) :
    ∃ ctx, s'.presented (some name) = some ctx ∧ ctx.certFile = cert ∧ ctx.keyFile = key := by
  have hadded : InFront (wsServerAddSniCert cfg s call).1.rtSni host cert key name ∧
      ∃ g, (wsServerAddSniCert cfg s call).1.ctx = some g := by
    have hsettles : Settles cfg s (.add call) (wsServerAddSniCert cfg s call) :=
      wsServerAddSniCert_settles call
    rcases hsettles with ⟨hfail, -⟩ | ⟨-, hlist, g, hg, -⟩
    · simp [hfail] at hok
    · exact ⟨hlist.inFront hhost hcert hkey hname hfront, g, hg⟩
  have hinv : CertsInv cfg (wsServerAddSniCert cfg s call).1 :=
    (run_certsInv hcreate hrun).perform (.add call)
  obtain ⟨hinv', hin, g, hg⟩ : CertsInv cfg s' ∧ InFront s'.rtSni host cert key name ∧
      ∃ g, s'.ctx = some g := by
    refine run_invariant (I := fun s => CertsInv cfg s ∧ InFront s.rtSni host cert key name ∧
      ∃ g, s.ctx = some g) (fun s call s' h hadds hstep => ?_) later _ s' ⟨hinv, hadded⟩ hlater
      hrun'
    cases hstep
    refine ⟨h.1.perform call, ?_⟩
    rcases perform_settles cfg s call with ⟨-, hctx, hlist⟩ | ⟨hsucc, hlist, g, hg, -⟩
    · rw [hctx, hlist]
      exact h.2
    · refine ⟨hlist.keeps (fun c hc hostname hh => ?_) h.2.1, g, hg⟩
      subst hc
      have hsucc : (wsServerAddSniCert cfg s c).2 = true := hsucc
      simpa [TlsCall.adds, hh, hsucc] using hadds
  have hpresent := hin.presented (hinv'.live g hg) hcfg
  refine ⟨sniCb g (some name), ?_, hpresent⟩
  unfold TlsServer.presented
  rw [hg]
  rfl

/-- `b.x` is added, and a reload follows: a handshake for `B.X` gets its certificate. -/
theorem added_cert_presented_reloaded :
    let call : AddCall Nat := .of "b.x" "c2" "k2" [some 3, some 4, some 5]
    let later : List (TlsCall Nat) := [.reload [some 6, some 7, some 8]]
    ∃ s0 s', wsServerCreate oneHost [some 1, some 2] = some s0 ∧
      (wsServerAddSniCert oneHost s0 call).2 = true ∧
      run (tlsStep oneHost) (wsServerAddSniCert oneHost s0 call).1 later = some s' ∧
      ∃ ctx, s'.presented (some (ascii "B.X")) = some ctx ∧ ctx.certFile = ascii "c2" ∧
        ctx.keyFile = ascii "k2" := by
  intro call later
  refine ⟨_, _, rfl, by decide +kernel, rfl, ?_⟩
  refine added_cert_presented oneHost [some 1, some 2] [] _ _ rfl rfl call (ascii "b.x") _ _ rfl rfl
    rfl (by decide +kernel) later _ (by decide +kernel) rfl _ (by decide +kernel) ?_
    (by decide +kernel)
  intro c hc hostname hhost
  rw [mem_singleton.mp hc] at hhost
  cases hhost
  decide +kernel

/-- A certificate is added for the configured host `a.x`, and one for `b.x` after one for `*.x`:
    both calls return 0, and handshakes go on with the certificate in front. -/
theorem added_cert_hidden :
    let add (host cert : String) : AddCall Nat := .of host cert "k" [some 0, some 0, some 0, some 0]
    let after (calls : List (AddCall Nat)) : Option (TlsServer Nat) :=
      (wsServerCreate oneHost [some 0, some 0]).bind fun s =>
        run (tlsStep oneHost) s (calls.map .add)
    ((after []).map fun s => (wsServerAddSniCert oneHost s (add "a.x" "c2")).2) = some true ∧
      ((after [add "a.x" "c2"]).bind (·.presented (some (ascii "a.x")))).map (·.certFile) =
        some (ascii "c1") ∧
      ((after [add "*.x" "c2"]).map fun s => (wsServerAddSniCert oneHost s (add "b.x" "c3")).2) =
        some true ∧
      ((after [add "*.x" "c2", add "b.x" "c3"]).bind (·.presented (some (ascii "b.x")))).map
        (·.certFile) = some (ascii "c2") := by
  decide +kernel

end Portico.Tls
