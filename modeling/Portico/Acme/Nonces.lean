/-
  The nonces of an ACME session.

  A nonce is received with the reply to any request and used by the request that carries it.
  `freshest` is the nonce that was received last among those that are not used. The directory is
  fetched without a nonce and the client does not take the one its reply may have; `freshest`
  counts it or not (`dir`).

  Proved. `NonceInv` holds in every state of a session, whatever the replies are, as long as the
  server never issues a nonce twice: the nonce a session holds is the freshest one, and every
  signed request carried the one that was the freshest when it was sent. A call of `acme_post`
  sends at most two requests with a nonce (`acmePost_sends`). `session_nonces` has both.
-/
import Mathlib.Data.List.Nodup
import Portico.Acme.Client

namespace Portico.Acme

open Portico.Lib Portico.Ws Fallible List

/-- The nonce a reply brings. -/
def issued (reply : Option HttpReply) : Option Bytes :=
  (reply.map HttpReply.replayNonce).filter (· ≠ [])

namespace Exchange

def reply : Exchange → Option HttpReply
  | get _ r => r
  | head _ r => r
  | post _ _ _ _ r => r

def isGet : Exchange → Bool
  | get _ _ => true
  | _ => false

/-- The nonce a signed request carries. -/
def nonce? : Exchange → Option Bytes
  | post _ _ n _ _ => some n
  | _ => none

def signed (e : Exchange) : Bool := e.nonce?.isSome

def received (dir : Bool) (e : Exchange) : Option Bytes :=
  if dir ∨ ¬e.isGet then issued e.reply else none

end Exchange

def receivedNonces (dir : Bool) (trace : List Exchange) : List Bytes :=
  trace.filterMap (Exchange.received dir)

def usedNonces (trace : List Exchange) : List Bytes := trace.filterMap Exchange.nonce?

/-- The nonce received last among those not used yet. -/
def freshest (dir : Bool) (trace : List Exchange) : Option Bytes :=
  ((receivedNonces dir trace).filter (· ∉ usedNonces trace)).getLast?

/-- Every signed request carries the nonce that is the freshest when it is sent. -/
def CarriesFreshest (dir : Bool) (trace : List Exchange) : Prop :=
  ∀ before e after, trace = before ++ e :: after → ∀ n ∈ e.nonce?, freshest dir before = some n

/-- The signed requests sent since the trace was `t`. -/
def Sent (t : List Exchange) (ps : List Exchange) (c : Client) : Prop :=
  ∃ new, c.trace = t ++ new ∧ new.filter Exchange.signed = ps

/-- At most two signed requests since the trace was `t`, the second only after the server has
    refused the nonce of the first. -/
def SendsAtMostTwo (t : List Exchange) (c : Client) : Prop :=
  ∃ ps, Sent t ps c ∧ ps.length ≤ 2 ∧ ∀ p q, ps = [p, q] → ∃ r ∈ p.reply, r.badNonce

/-! ## The trace and the nonces in it -/

theorem receivedNonces_concat (dir : Bool) (t : List Exchange) (e : Exchange) :
    receivedNonces dir (t ++ [e]) = receivedNonces dir t ++ (e.received dir).toList := by
  rw [receivedNonces, filterMap_append]
  cases h : e.received dir with
  | none => rw [filterMap_cons_none h]; rfl
  | some => rw [filterMap_cons_some h]; rfl

theorem usedNonces_concat (t : List Exchange) (e : Exchange) :
    usedNonces (t ++ [e]) = usedNonces t ++ e.nonce?.toList := by
  rw [usedNonces, filterMap_append]
  cases h : e.nonce? with
  | none => rw [filterMap_cons_none h]; rfl
  | some => rw [filterMap_cons_some h]; rfl

variable {dir : Bool} {t ps : List Exchange} {e : Exchange} {n : Bytes} {c : Client}

theorem freshest_of_new (he : e.received dir = some n) (hn : n ∉ usedNonces (t ++ [e])) :
    freshest dir (t ++ [e]) = some n := by
  have hf : filter (· ∉ usedNonces (t ++ [e])) [n] = [n] :=
    filter_cons_of_pos (decide_eq_true hn)
  rw [freshest, receivedNonces_concat, he, Option.toList_some, filter_append, hf]
  exact getLast?_concat

theorem freshest_of_silent (he : e.received dir = none) (hn : e.nonce? = none) :
    freshest dir (t ++ [e]) = freshest dir t := by
  rw [freshest, receivedNonces_concat, usedNonces_concat, he, hn, Option.toList_none,
    append_nil, append_nil]
  rfl

theorem freshest_mem (h : freshest dir t = some n) :
    n ∈ receivedNonces dir t ∧ n ∉ usedNonces t := by
  have hm := mem_filter.mp (mem_of_getLast? h)
  exact ⟨hm.1, of_decide_eq_true hm.2⟩

theorem receivedNonces_subset (h : n ∈ receivedNonces dir t) : n ∈ receivedNonces true t := by
  obtain ⟨e, he, hn⟩ := mem_filterMap.mp h
  refine mem_filterMap.mpr ⟨e, he, ?_⟩
  rw [Exchange.received] at hn
  split at hn
  · rw [Exchange.received, if_pos (Or.inl rfl)]
    exact hn
  · exact absurd hn (Option.some_ne_none n).symm

theorem carriesFreshest_concat (h : CarriesFreshest dir t)
    (he : ∀ n ∈ e.nonce?, freshest dir t = some n) : CarriesFreshest dir (t ++ [e]) := by
  intro before e' after ht
  cases eq_nil_or_concat after with
  | inl hnil =>
    rw [hnil] at ht
    obtain ⟨rfl, he'⟩ := append_inj' ht rfl
    rw [singleton_inj.mp he'] at he
    exact he
  | inr hlast =>
    obtain ⟨after', x, rfl⟩ := hlast
    have hsplit : t ++ [e] = (before ++ e' :: after') ++ [x] := by
      rw [ht, concat_eq_append, append_assoc, cons_append]
    exact h before e' after' (append_inj' hsplit rfl).1

/-! ## The invariant -/

/-- The nonces received so far and those the server is still going to issue. -/
def Client.nonces (c : Client) : List Bytes :=
  receivedNonces true c.trace ++ c.replies.filterMap issued

structure NonceInv (dir : Bool) (c : Client) : Prop where
  distinct : c.nonces.Nodup
  short : ∀ n ∈ c.nonces, n.length < 256
  known : ∀ n ∈ usedNonces c.trace, n ∈ receivedNonces true c.trace
  once : (usedNonces c.trace).Nodup
  held : c.session.nonce ≠ [] → freshest dir c.trace = some c.session.nonce
  carried : CarriesFreshest dir c.trace

section Request

variable {exchange : Option HttpReply → Exchange} {r : HttpReply}

theorem request_nonces (hx : ∀ r, (exchange r).reply = r) :
    (porticoHttpsRequest exchange c).1.nonces = c.nonces := by
  have hr (r : Option HttpReply) : (exchange r).received true = issued r := by
    rw [Exchange.received, if_pos (Or.inl rfl), hx]
  show receivedNonces true (c.trace ++ [exchange c.replies.head?.join]) ++
    c.replies.tail.filterMap issued = _
  rw [receivedNonces_concat, hr, Client.nonces, append_assoc]
  apply congrArg
  cases c.replies with
  | nil => rfl
  | cons r =>
    cases hi : issued r with
    | none => rw [filterMap_cons_none hi]; exact congrArg (·.toList ++ _) hi
    | some => rw [filterMap_cons_some hi]; exact congrArg (·.toList ++ _) hi

theorem issued_of_reply (h : r.nonce ≠ []) : issued (some r) = some r.replayNonce := by
  apply Option.filter_some_pos
  apply decide_eq_true
  intro hr
  rw [HttpReply.nonce, hr] at h
  exact h rfl

/-- A reply's nonce is new. -/
theorem NonceInv.reply_new (h : NonceInv dir c) (hn : issued c.replies.head?.join = some n) :
    n ∉ receivedNonces true c.trace ∧ n.length < 256 := by
  have hmem : n ∈ c.replies.filterMap issued := by
    cases hc : c.replies with
    | nil =>
      rw [hc] at hn
      exact absurd hn (Option.some_ne_none n).symm
    | cons r =>
      rw [hc] at hn
      exact mem_filterMap.mpr ⟨r, mem_cons_self, hn⟩
  constructor
  · exact fun hr => disjoint_of_nodup_append h.distinct hr hmem
  · exact h.short n (mem_append_right _ hmem)

/-- What is known after a request, apart from the nonce the session holds. -/
theorem NonceInv.request (h : NonceInv dir c) (hx : ∀ r, (exchange r).reply = r)
    (hn : ∀ r, ∀ n ∈ (exchange r).nonce?, freshest dir c.trace = some n)
    (hheld : (porticoHttpsRequest exchange c).1.session.nonce ≠ [] →
      freshest dir (porticoHttpsRequest exchange c).1.trace =
        some (porticoHttpsRequest exchange c).1.session.nonce) :
    NonceInv dir (porticoHttpsRequest exchange c).1 := by
  have hfresh := hn c.replies.head?.join
  constructor
  · rw [request_nonces hx]
    exact h.distinct
  · rw [request_nonces hx]
    exact h.short
  · show ∀ n ∈ usedNonces (c.trace ++ [_]), n ∈ receivedNonces true (c.trace ++ [_])
    intro n hmem
    rw [usedNonces_concat, mem_append, Option.mem_toList] at hmem
    rw [receivedNonces_concat]
    apply mem_append_left
    cases hmem with
    | inl hu => exact h.known n hu
    | inr he => exact receivedNonces_subset (freshest_mem (hfresh n he)).1
  · show (usedNonces (c.trace ++ [_])).Nodup
    rw [usedNonces_concat, nodup_append]
    refine ⟨h.once, Option.toList_nodup _, ?_⟩
    intro a ha b hb hab
    have hb := hfresh b (Option.mem_toList.mp hb)
    exact (freshest_mem hb).2 (hab ▸ ha)
  · exact hheld
  · exact carriesFreshest_concat h.carried hfresh

/-- The nonce of a reply that counts is the freshest. -/
theorem NonceInv.request_freshest (h : NonceInv dir c) (hx : ∀ r, (exchange r).reply = r)
    (hd : ∀ r, (exchange r).isGet = false)
    (hn : ∀ r, ∀ n ∈ (exchange r).nonce?, freshest dir c.trace = some n)
    (hr : c.replies.head?.join = some r) (hne : r.nonce ≠ []) :
    freshest dir (porticoHttpsRequest exchange c).1.trace = some r.nonce := by
  have hi := issued_of_reply hne
  rw [← hr] at hi
  obtain ⟨hnew, hshort⟩ := h.reply_new hi
  rw [HttpReply.nonce, fit_of_short hshort]
  apply freshest_of_new
  · rw [Exchange.received, hx, if_pos]
    · exact hi
    · exact Or.inr (by rw [hd]; exact Bool.false_ne_true)
  · rw [usedNonces_concat, mem_append, Option.mem_toList]
    intro hu
    cases hu with
    | inl hu => exact hnew (h.known _ hu)
    | inr he => exact hnew (receivedNonces_subset (freshest_mem (hn _ _ he)).1)

end Request

/-- Nothing but the nonce of the session counts. -/
theorem preserves_setSession {f : Session → Session} (hf : ∀ s, (f s).nonce = s.nonce) :
    Preserves (NonceInv dir) (setSession f) := by
  apply triple_modify
  intro c h
  exact ⟨h.distinct, h.short, h.known, h.once, fun hne => by rw [hf] at hne ⊢; exact h.held hne,
    h.carried⟩

theorem triple_setNonce :
    Triple (fun c => NonceInv dir c ∧ (n ≠ [] → freshest dir c.trace = some n)) (setNonce n)
      (fun _ => NonceInv dir) (NonceInv dir) := by
  apply triple_modify
  intro c ⟨h, hn⟩
  refine ⟨h.distinct, h.short, h.known, h.once, ?_, h.carried⟩
  intro hne
  have hn := hn fun h => hne (by rw [h]; rfl)
  have hmem := receivedNonces_subset (freshest_mem hn).1
  show freshest dir c.trace = some (fit 256 n)
  rw [fit_of_short (h.short n (mem_append_left _ hmem))]
  exact hn

theorem triple_jws {P : Client → Prop} (hp : ∀ c l, P c → P { c with signatures := l }) :
    Preserves P porticoAcmeJws := by
  apply triple_of_after
  exact fun c h => hp c _ h

/-- A request that is no `GET`, for a session that holds no nonce. -/
theorem triple_request {exchange : Option HttpReply → Exchange}
    (hx : ∀ r, (exchange r).reply = r) (hd : ∀ r, (exchange r).isGet = false) :
    Triple (fun c => NonceInv dir c ∧ c.session.nonce = [] ∧
        ∀ r, ∀ n ∈ (exchange r).nonce?, freshest dir c.trace = some n)
      (porticoHttpsRequest exchange)
      (fun r c => NonceInv dir c ∧ (r.nonce ≠ [] → freshest dir c.trace = some r.nonce))
      (NonceInv dir) := by
  intro c ⟨h, hnone, hn⟩
  have hinv : NonceInv dir (porticoHttpsRequest exchange c).1 :=
    h.request hx hn fun hne => absurd hnone hne
  cases hr : (porticoHttpsRequest exchange c).2 with
  | none => exact hinv
  | some => exact ⟨hinv, h.request_freshest hx hd hn hr⟩

theorem triple_getNonce :
    Triple (fun c => NonceInv dir c ∧ c.session.nonce = []) getNonce
      (fun _ c => NonceInv dir c ∧ c.session.nonce ≠ []) (NonceInv dir) := by
  apply triple_bind_read
  intro s
  apply triple_bind_require (fun _ h => h.1.1)
  intro _
  apply triple_bind ((triple_request (fun _ => rfl) (fun _ => rfl)).imp _ (fun _ _ h => h)
    fun _ h => h)
  · intro r
    apply triple_bind_require (fun _ h => h.1)
    intro hr c h
    exact ⟨triple_setNonce c h, fit_ne_nil (by omega) (of_decide_eq_true hr)⟩
  · intro c h
    exact ⟨h.1.1, h.1.2, fun _ _ hn => absurd hn (Option.not_mem_none _)⟩

theorem triple_ensureNonce :
    Triple (NonceInv dir) ensureNonce (fun _ c => NonceInv dir c ∧ c.session.nonce ≠ [])
      (NonceInv dir) := by
  apply triple_bind_read
  intro s
  by_cases hs : s.nonce = []
  · rw [if_pos hs]
    apply triple_getNonce.imp _ (fun _ _ h => h) fun _ h => h
    intro c h
    exact ⟨h.1, by rw [h.2]; exact hs⟩
  · rw [if_neg hs]
    apply triple_pure
    intro c h
    exact ⟨h.1, by rw [h.2]; exact hs⟩

theorem preserves_acmePostRound (url payload : Bytes) :
    Preserves (NonceInv dir) (acmePostRound url payload) := by
  apply triple_bind triple_ensureNonce
  intro _
  apply triple_bind (R := fun s c => NonceInv dir c ∧ freshest dir c.trace = some s.nonce)
    (triple_read (fun c h => ⟨h.1, h.1.held h.2⟩))
  intro s
  apply triple_bind ((triple_jws ?_).imp (fun _ h => h) (fun _ _ h => h) fun _ h => h.1)
  · intro _
    apply triple_bind (R := fun _ c => (NonceInv dir c ∧ c.session.nonce = []) ∧
      freshest dir c.trace = some s.nonce)
    · intro c h
      exact ⟨⟨triple_setNonce c ⟨h.1, fun h => absurd rfl h⟩, rfl⟩, h.2⟩
    · intro _
      apply triple_bind ((triple_request (fun _ => rfl) (fun _ => rfl)).imp _ (fun _ _ h => h)
        fun _ h => h)
      · intro r
        apply triple_bind (R := fun _ => NonceInv dir) _ fun _ => preserves_pure r
        rw [keepNonce]
        split
        · exact triple_pure fun _ h => h.1
        · exact triple_setNonce
      · intro c h
        refine ⟨h.1.1, h.1.2, ?_⟩
        intro _ n hn
        rw [← Option.mem_some.mp hn]
        exact h.2
  · intro c l h
    exact ⟨⟨h.1.distinct, h.1.short, h.1.known, h.1.once, h.1.held, h.1.carried⟩, h.2⟩

theorem preserves_acmePost (url payload : Bytes) :
    Preserves (NonceInv dir) (acmePost url payload) := by
  apply preserves_bind (preserves_acmePostRound url payload)
  intro r
  split
  · exact preserves_acmePostRound url payload
  · exact preserves_pure r

/-- The directory: its reply does not change the nonce the session holds. -/
theorem triple_get (url : Bytes) :
    Triple (fun c => NonceInv dir c ∧ (dir = false ∨ c.session.nonce = []))
      (porticoHttpsRequest (.get url)) (fun _ => NonceInv dir) (NonceInv dir) := by
  apply triple_of_after
  intro c ⟨h, hd⟩
  apply h.request (fun _ => rfl)
  · exact fun _ _ hn => absurd hn (Option.not_mem_none _)
  · intro hne
    have hdir : dir = false := hd.resolve_right hne
    refine (freshest_of_silent ?_ rfl).trans (h.held hne)
    rw [Exchange.received, hdir, if_neg]
    exact fun hor => hor.elim Bool.false_ne_true fun hg => hg rfl

/-! ## Whole sessions -/

section Posts

/-! What `acme_post` and changes of the URLs preserve, the calls of a session preserve. -/

variable {I : Client → Prop} (parse : Bytes → Option Document)

variable (hpost : ∀ url payload, Preserves I (acmePost url payload))

include hpost

theorem preserves_order (domains : List Bytes) (ocap fcap maxAuthz : Nat) :
    Preserves I (porticoAcmeOrder parse domains ocap fcap maxAuthz) := by
  apply preserves_bind (preserves_require _)
  intro _
  apply preserves_bind (preserves_ofOption _)
  intro ids
  apply preserves_bind (preserves_read _)
  intro s
  apply preserves_bind (hpost _ _)
  intro r
  apply preserves_bind (preserves_require _)
  intro _
  apply preserves_bind (preserves_ofOption _)
  intro body
  exact preserves_bind (preserves_ofOption _) fun _ => preserves_pure _

theorem preserves_http01 (authzUrl : Bytes) (sc tc uc : Nat) :
    Preserves I (porticoAcmeHttp01 parse authzUrl sc tc uc) := by
  apply preserves_bind (hpost _ _)
  intro r
  apply preserves_bind (preserves_require _)
  intro _
  exact preserves_bind (preserves_ofOption _) fun _ => preserves_ofOption _

theorem preserves_challengeReady (chalUrl : Bytes) : Preserves I (challengeReady chalUrl) :=
  preserves_bind (hpost _ _) fun _ => preserves_require _

theorem preserves_pollLoop (url want : Bytes) (waits : Nat) :
    Preserves I (pollLoop parse url want waits) := by
  have hround : Preserves I (pollRound parse url want) := by
    apply preserves_bind (hpost _ _)
    intro r
    exact preserves_bind (preserves_require _) fun _ => preserves_pure _
  induction waits with
  | zero => exact preserves_bind hround fun reached => preserves_ofOption reached
  | succ waits ih =>
    apply preserves_bind hround
    intro reached
    cases reached with
    | none => exact ih
    | some body => exact preserves_pure body

theorem preserves_doFinalize (finalizeUrl csr : Bytes) :
    Preserves I (doFinalize finalizeUrl csr) := by
  apply preserves_bind (preserves_ofOption _)
  intro payload
  exact preserves_bind (hpost _ _) fun _ => preserves_require _

theorem preserves_downloadCert (certUrl : Bytes) : Preserves I (downloadCert certUrl) := by
  apply preserves_bind (hpost _ _)
  intro r
  apply preserves_bind (preserves_require _)
  intro _
  apply preserves_bind (preserves_ofOption _)
  intro body
  exact preserves_bind (preserves_require _) fun _ => preserves_pure _

end Posts

section Sessions

variable (parse : Bytes → Option Document)

theorem triple_connect (email : Option Bytes) :
    Triple (fun c => NonceInv dir c ∧ (dir = false ∨ c.session.nonce = []))
      (porticoAcmeConnect parse email) (fun _ => NonceInv dir) (NonceInv dir) := by
  apply triple_bind_read
  intro s
  apply triple_bind ((triple_get s.dirUrl).imp (fun _ h => h.1) (fun _ _ h => h) fun _ h => h)
  intro r
  apply preserves_bind (preserves_require _)
  intro _
  apply preserves_bind (preserves_ofOption _)
  intro body
  apply preserves_bind (preserves_ofOption _)
  intro directory
  refine preserves_bind (preserves_setSession ?_) ?_
  · exact fun _ => rfl
  · intro _
    apply preserves_bind (preserves_acmePost _ _)
    intro r
    apply preserves_bind (preserves_require _)
    intro _
    apply preserves_setSession
    exact fun _ => rfl

theorem NonceInv.call (h : NonceInv dir c) (call : SessionCall)
    (hcall : dir = false ∨ c.session.nonce = [] ∨ ∀ email, call ≠ .connect email) :
    NonceInv dir (call.run parse c) := by
  cases call with
  | connect email =>
    have hd : dir = false ∨ c.session.nonce = [] :=
      hcall.imp_right fun hor => hor.resolve_right fun hne => hne email rfl
    exact (triple_connect parse email).after ⟨h, hd⟩
  | order =>
    exact (preserves_order parse preserves_acmePost _ _ _ _).after h
  | http01 => exact (preserves_http01 parse preserves_acmePost _ _ _ _).after h
  | challengeReady => exact (preserves_challengeReady preserves_acmePost _).after h
  | pollStatus => exact (preserves_pollLoop parse preserves_acmePost _ _ _).after h
  | finalize => exact (preserves_doFinalize preserves_acmePost _ _).after h
  | downloadCert => exact (preserves_downloadCert preserves_acmePost _).after h
  | post url payload => exact (preserves_acmePost url payload).after h

theorem NonceInv.runSession {calls : List SessionCall} (h : NonceInv dir c)
    (hcalls : dir = false ∨ ∀ email, .connect email ∉ calls) :
    NonceInv dir (runSession parse calls c) := by
  induction calls generalizing c with
  | nil => exact h
  | cons call calls ih =>
    apply ih
    · apply h.call parse
      exact hcalls.imp_right fun hne => Or.inr fun email he => hne email (he ▸ mem_cons_self)
    · exact hcalls.imp_right fun hne email hm => hne email (mem_cons_of_mem _ hm)

theorem NonceInv.start {directoryUrl : Bytes} {replies : List (Option HttpReply)}
    {signatures : List Bool} (hdistinct : (replies.filterMap issued).Nodup)
    (hshort : ∀ n ∈ replies.filterMap issued, n.length < 256) :
    NonceInv dir (startSession directoryUrl replies signatures) := by
  refine ⟨hdistinct, hshort, ?_, nodup_nil, fun h => absurd rfl h, ?_⟩
  · exact fun n hn => absurd hn not_mem_nil
  · intro before e after h
    exact absurd h.symm (append_ne_nil_of_right_ne_nil _ (cons_ne_nil _ _))

theorem NonceInv.session (h : NonceInv dir c) (calls : List SessionCall)
    (hnone : c.session.nonce = []) (hcalls : dir = false ∨ ∀ email, .connect email ∉ calls.tail) :
    NonceInv dir (Acme.runSession parse calls c) := by
  cases calls with
  | nil => exact h
  | cons call => exact (h.call parse call (Or.inr (Or.inl hnone))).runSession parse hcalls

end Sessions

/-! ## The requests of one call -/

theorem Sent.concat {c' : Client} (h : Sent t ps c) (hc : c'.trace = c.trace ++ [e]) :
    Sent t (if e.signed then ps ++ [e] else ps) c' := by
  obtain ⟨new, hnew, hps⟩ := h
  refine ⟨new ++ [e], ?_, ?_⟩
  · rw [hc, hnew, append_assoc]
  · rw [filter_append, hps]
    by_cases he : e.signed = true
    · rw [if_pos he, filter_cons_of_pos he, filter_nil]
    · rw [if_neg he, filter_cons_of_neg he, filter_nil, append_nil]

theorem triple_request_sent (exchange : Option HttpReply → Exchange) :
    Triple (Sent t ps) (porticoHttpsRequest exchange)
      (fun r => Sent t (if (exchange (some r)).signed then ps ++ [exchange (some r)] else ps))
      (Sent t (if (exchange none).signed then ps ++ [exchange none] else ps)) := by
  intro c h
  have hs : Sent t _ (porticoHttpsRequest exchange c).1 := h.concat rfl
  cases hr : (porticoHttpsRequest exchange c).2 with
  | none =>
    have hr : c.replies.head?.join = none := hr
    rw [hr] at hs
    exact hs
  | some r =>
    have hr : c.replies.head?.join = some r := hr
    rw [hr] at hs
    exact hs

theorem preserves_ensureNonce_sent (ps : List Exchange) : Preserves (Sent t ps) ensureNonce := by
  apply preserves_bind (preserves_read _)
  intro s
  split
  · apply preserves_bind (preserves_read _)
    intro s
    apply preserves_bind (preserves_require _)
    intro _
    apply preserves_bind (triple_request_sent (.head s.newNonce))
    intro r
    exact preserves_bind (preserves_require _) fun _ => triple_modify fun _ h => h
  · exact preserves_pure ()

theorem triple_acmePostRound_sent (ps : List Exchange) (url payload : Bytes) :
    Triple (Sent t ps) (acmePostRound url payload)
      (fun r c => ∃ p, p.reply = some r ∧ Sent t (ps ++ [p]) c)
      (fun c => Sent t ps c ∨ ∃ p, Sent t (ps ++ [p]) c) := by
  apply triple_bind ((preserves_ensureNonce_sent ps).imp (fun _ h => h) (fun _ _ h => h)
    fun _ h => Or.inl h)
  intro _
  apply triple_bind (R := fun _ => Sent t ps) (triple_read fun _ h => h)
  intro s
  apply triple_bind ((triple_jws fun _ _ h => h).imp (fun _ h => h) (fun _ _ h => h)
    fun _ h => Or.inl h)
  intro _
  refine triple_bind (R := fun _ => Sent t ps) (triple_modify ?_) ?_
  · exact fun _ h => h
  · intro _
    apply triple_bind ((triple_request_sent _).imp (fun _ h => h) (fun _ _ h => h)
      fun _ h => Or.inr ⟨_, h⟩)
    intro r
    apply triple_bind (R := fun _ c => ∃ p, p.reply = some r ∧ Sent t (ps ++ [p]) c) _
      fun _ => triple_pure fun _ h => h
    by_cases hr : r.nonce = []
    · rw [keepNonce, if_pos hr]
      exact triple_pure fun _ h => ⟨_, rfl, h⟩
    · rw [keepNonce, if_neg hr]
      apply triple_modify
      exact fun _ h => ⟨_, rfl, h⟩

theorem Sent.atMostOne (h : Sent t ps c) (hlen : ps.length ≤ 1) : SendsAtMostTwo t c := by
  refine ⟨ps, h, by omega, ?_⟩
  intro p q hps
  rw [hps] at hlen
  exact absurd hlen (by decide : ¬2 ≤ 1)

theorem triple_acmePost_sent (url payload : Bytes) :
    Triple (Sent t []) (acmePost url payload) (fun _ => SendsAtMostTwo t) (SendsAtMostTwo t) := by
  apply triple_bind ((triple_acmePostRound_sent [] url payload).imp (fun _ h => h)
    (fun _ _ h => h) _)
  · intro r
    by_cases hr : r.badNonce
    · rw [if_pos hr]
      intro c ⟨p, hp, hsent⟩
      have htwo {q : Exchange} {c' : Client} (h : Sent t ([p] ++ [q]) c') :
          SendsAtMostTwo t c' := by
        refine ⟨[p, q], h, Nat.le_refl 2, ?_⟩
        intro p' q' hps
        rw [← (cons.inj hps).1]
        exact ⟨r, hp, hr⟩
      apply (triple_acmePostRound_sent [p] url payload).imp (fun _ h => h) _ _ c hsent
      · exact fun _ _ ⟨_, _, h⟩ => htwo h
      · exact fun _ h => h.elim (fun h => h.atMostOne (Nat.le_refl 1)) fun ⟨_, h⟩ => htwo h
    · rw [if_neg hr]
      exact triple_pure fun _ ⟨_, _, h⟩ => h.atMostOne (Nat.le_refl 1)
  · intro c h
    cases h with
    | inl h => exact h.atMostOne (Nat.zero_le 1)
    | inr h => exact h.elim fun _ h => h.atMostOne (Nat.le_refl 1)

theorem acmePost_sends (url payload : Bytes) (c : Client) :
    SendsAtMostTwo c.trace (acmePost url payload c).1 :=
  (triple_acmePost_sent url payload).after ⟨[], (append_nil _).symm, rfl⟩

/-- The nonces of a session. In a session that fetches the directory first and only then, a nonce
    that came with the directory counts as well. -/
theorem session_nonces (parse : Bytes → Option Document) (directoryUrl : Bytes)
    (replies : List (Option HttpReply)) (signatures : List Bool) (calls : List SessionCall)
    (hdistinct : (replies.filterMap issued).Nodup)
    (hshort : ∀ n ∈ replies.filterMap issued, n.length < 256) :
    (usedNonces (runSession parse calls (startSession directoryUrl replies signatures)).trace).Nodup
    ∧ CarriesFreshest false
        (runSession parse calls (startSession directoryUrl replies signatures)).trace
    ∧ ((∀ email, .connect email ∉ calls.tail) → CarriesFreshest true
        (runSession parse calls (startSession directoryUrl replies signatures)).trace)
    ∧ ∀ url payload (c : Client), SendsAtMostTwo c.trace (acmePost url payload c).1 := by
  have hstart (dir : Bool) : NonceInv dir (startSession directoryUrl replies signatures) :=
    NonceInv.start hdistinct hshort
  have hinv := (hstart false).session parse calls rfl (Or.inl rfl)
  refine ⟨hinv.once, hinv.carried, ?_, acmePost_sends⟩
  intro hcalls
  exact ((hstart true).session parse calls rfl (Or.inr hcalls)).carried

def stagingDirectory : Bytes := ascii "https://acme-staging-v02.api.letsencrypt.org/directory"

/-- The directory of the staging server, as far as it is read. -/
def caDirectory : Document :=
  .object
    [(ascii "newNonce",
        .string (ascii "https://acme-staging-v02.api.letsencrypt.org/acme/new-nonce")),
      (ascii "newAccount",
        .string (ascii "https://acme-staging-v02.api.letsencrypt.org/acme/new-acct")),
      (ascii "newOrder",
        .string (ascii "https://acme-staging-v02.api.letsencrypt.org/acme/new-order"))]

def caDirectoryText : Bytes :=
  ascii "\x7b\"newNonce\":\"https://acme-staging-v02.api.letsencrypt.org/acme/new-nonce\"," ++
    ascii "\"newAccount\":\"https://acme-staging-v02.api.letsencrypt.org/acme/new-acct\"," ++
    ascii "\"newOrder\":\"https://acme-staging-v02.api.letsencrypt.org/acme/new-order\"\x7d"

/-- The server refuses the first nonce and brings a new one with the refusal. -/
def refusedOnce : List (Option HttpReply) :=
  [some ⟨200, some caDirectoryText, [], []⟩, some ⟨200, some [], ascii "n1", []⟩,
    some ⟨400, some (ascii "urn:ietf:params:acme:error:badNonce"), ascii "n2", []⟩,
    some ⟨201, some [], ascii "n3", ascii "https://acme.example/acct/1"⟩]

theorem session_nonces_refused :
    usedNonces (runSession (fun b => if b = caDirectoryText then some caDirectory else none)
        [.connect none] (startSession stagingDirectory refusedOnce [])).trace =
      [ascii "n1", ascii "n2"] ∧
    CarriesFreshest true
      (runSession (fun b => if b = caDirectoryText then some caDirectory else none)
        [.connect none] (startSession stagingDirectory refusedOnce [])).trace := by
  refine ⟨by decide +kernel, ?_⟩
  apply (session_nonces _ _ _ _ [.connect none] (by decide +kernel) (by decide +kernel)).2.2.1
  exact fun email => not_mem_nil

end Portico.Acme
