/-
  Obtaining a certificate: `portico_acme_obtain` (src/acme/acme_client.c), with the responder's
  store as the place where challenges are provisioned.

  Model. `Obtain` is the state of one call: the session, the store, the list `tokens` of what was
  provisioned, and for every challenge that is triggered the token as the server wrote it and the
  store at that moment (`triggers`, which the code does not keep). Every failure goes to
  `cleanup`. What a CSR and an account key are made from is left out.

  Proved. `obtain_nonces`: no call uses a nonce twice. `challenges_served_iff`: when the tokens
  provisioned are new to the store and find room in it, the key authorization of a triggered
  challenge is served at its path exactly if the token is shorter than 256 bytes, and whatever the
  outcome the store is in the end what it was before. A longer token is cut to 255 bytes on its way
  into the store (`long_challenge_not_served`).
-/
import Portico.Acme.Nonces
import Portico.Acme.Responder

namespace Portico.Acme

open Portico.Lib Portico.Ws Fallible List

/-- A challenge that is reported ready, and the store at that moment. -/
structure Trigger where
  challenge : Bytes
  responder : Responder

structure Obtain where
  client : Client
  responder : Responder
  tokens : List Bytes
  triggers : List Trigger

/-- The configuration, the account key loaded from it, whether a session can be allocated, and
    the CSR for the domains; each is missing if the C code has a null pointer or an error there. -/
structure ObtainConfig where
  directoryUrl : Option Bytes
  email : Option Bytes
  accountKey : Option AccountKey
  allocated : Bool
  csr : Option Bytes

def onClient {α : Type} (m : Call α) : Fallible Obtain α :=
  zoom Obtain.client (fun c s => { s with client := c }) m

/-- Provisions the key authorization and reports the challenge ready. -/
def triggerChallenge (key : AccountKey) (az : Authz) : Fallible Obtain Unit := do
  let keyauth ← ofOption (porticoAcmeKeyAuthz key az.token 512)
  Fallible.modify fun s =>
    let r := porticoAcmeResponderProvision az.token keyauth s.responder
    { s with
      responder := r
      tokens := s.tokens ++ [fit 256 az.token]
      triggers := s.triggers ++ [⟨az.challenge, r⟩] }
  onClient (challengeReady az.chalUrl)

section

variable (parse : Bytes → Option Document)

def authorize (key : AccountKey) (authzUrl : Bytes) : Fallible Obtain Unit := do
  let az ← onClient (porticoAcmeHttp01 parse authzUrl 32 256 2048)
  if az.status = ascii "valid" then pure () else triggerChallenge key az

def authorizeAll (key : AccountKey) : List Bytes → Fallible Obtain Unit
  | [] => pure ()
  | url :: urls => do
    authorize parse key url
    authorizeAll key urls

def awaitAll : List Bytes → Fallible Obtain Unit
  | [] => pure ()
  | url :: urls => do
    let _ ← onClient (pollStatus parse url (ascii "valid") 120)
    awaitAll urls

def issue (csr : Option Bytes) (orderUrl finalizeUrl : Bytes) : Fallible Obtain Bytes := do
  let csr ← ofOption csr
  onClient (doFinalize finalizeUrl csr)
  let orderBody ← onClient (pollStatus parse orderUrl (ascii "valid") 120)
  let body ← ofOption orderBody
  let order ← ofOption (acmeParseOrder parse (cString body) 32 2048 2048 64)
  Fallible.require (order.certificate ≠ [])
  onClient (downloadCert order.certificate)

/-- The body up to the label `cleanup`. -/
def obtainBody (key : AccountKey) (cfg : ObtainConfig) (domains : List Bytes) :
    Fallible Obtain Bytes := do
  onClient (porticoAcmeConnect parse cfg.email)
  let placed ← onClient (porticoAcmeOrder parse domains 2048 2048 64)
  authorizeAll parse key placed.2.authz
  awaitAll parse placed.2.authz
  issue parse cfg.csr placed.1 placed.2.finalize

def cleanup (s : Obtain) : Obtain :=
  { s with
    responder := s.tokens.foldl (fun r t => porticoAcmeResponderUnprovision t r) s.responder }

def Obtain.start (cfg : ObtainConfig) (responder : Responder) (replies : List (Option HttpReply))
    (signatures : List Bool) : Obtain :=
  ⟨startSession (cfg.directoryUrl.getD []) replies signatures, responder, [], []⟩

/-- The state after the call and the certificate chain. -/
def porticoAcmeObtain (cfg : ObtainConfig) (domains : List Bytes) (s : Obtain) :
    Obtain × Option Bytes :=
  if cfg.directoryUrl = none ∨ domains.length = 0 ∨ domains.length > 64 then (s, none)
  else
    match cfg.accountKey with
    | none => (s, none)
    | some key =>
      if cfg.allocated then
        let r := obtainBody parse key cfg domains s
        (cleanup r.1, r.2)
      else (s, none)

end

variable {az : Authz}

theorem acmeParseAuthz_token {parse : Bytes → Option Document} {json : Bytes} {sc tc uc : Nat}
    (h : acmeParseAuthz parse json sc tc uc = some az) : az.token = fit tc az.challenge := by
  rw [acmeParseAuthz] at h
  split at h
  · exact absurd h (Option.some_ne_none _).symm
  · split at h
    · rw [← Option.some.inj h]
    · exact absurd h (Option.some_ne_none _).symm

/-- What is known of an account key's authorization of a token. -/
theorem keyAuthz_some {key : AccountKey} {token keyauth : Bytes} {cap : Nat}
    (h : porticoAcmeKeyAuthz key token cap = some keyauth) :
    keyauth.length < cap ∧
      ∃ tp, key.thumbprint = some tp ∧ keyauth = token ++ ascii "." ++ tp := by
  rw [porticoAcmeKeyAuthz] at h
  split at h
  · exact absurd h (Option.some_ne_none _).symm
  · next tp htp =>
    dsimp only at h
    split at h
    · next hlen =>
      rw [← Option.some.inj h]
      exact ⟨hlen, tp, htp, rfl⟩
    · exact absurd h (Option.some_ne_none _).symm

/-! ## The invariant -/

/-- The tokens are none of those in the store, and there is room for them. -/
structure Fits (r : Responder) (tokens : List Bytes) : Prop where
  nonempty : ∀ t ∈ tokens, t ≠ []
  new : ∀ t ∈ tokens, t ∉ Slots.keys r.table
  room : tokens.toFinset.card ≤ Slots.free r.table

variable {r : Responder}

theorem Fits.of_append {tokens rest : List Bytes} (h : Fits r (tokens ++ rest)) :
    Fits r tokens := by
  refine ⟨fun t ht => h.nonempty t (mem_append_left _ ht),
    fun t ht => h.new t (mem_append_left _ ht), Nat.le_trans ?_ h.room⟩
  rw [toFinset_append]
  exact Finset.card_le_card Finset.subset_union_left

/-- The key authorization is served at the path of the challenge. -/
def Trigger.Served (key : AccountKey) (t : Trigger) : Prop :=
  ∃ tp, key.thumbprint = some tp ∧ ∀ cap, 512 ≤ cap →
    porticoAcmeResponderLookup t.responder (challengePath t.challenge) cap =
      some (t.challenge ++ ascii "." ++ tp)

/-- `c` is the client of a session that has fetched the directory once, at its start. -/
def IsSession (parse : Bytes → Option Document) (c₀ c : Client) : Prop :=
  ∃ email calls, (∀ e, .connect e ∉ calls) ∧ c = runSession parse (.connect email :: calls) c₀

structure ObtainInv (parse : Bytes → Option Document) (key : AccountKey) (s₀ s : Obtain) :
    Prop where
  session : IsSession parse s₀.client s.client
  recorded : s.tokens = s.triggers.map fun t => fit 256 t.challenge
  holding : Fits s₀.responder s.tokens →
    Slots.Holding s₀.responder.table s.responder.table s.tokens
  served : Fits s₀.responder s.tokens →
    ∀ t ∈ s.triggers, t.Served key ↔ t.challenge.length < 256

section Steps

variable {parse : Bytes → Option Document} {key : AccountKey} {s₀ : Obtain}

theorem IsSession.call {c₀ c : Client} (h : IsSession parse c₀ c) {call : SessionCall}
    (hcall : ∀ e, call ≠ .connect e) : IsSession parse c₀ (call.run parse c) := by
  obtain ⟨email, calls, hcalls, rfl⟩ := h
  refine ⟨email, calls ++ [call], ?_, ?_⟩
  · intro e hmem
    cases mem_append.mp hmem with
    | inl hm => exact hcalls e hm
    | inr hm => exact hcall e (mem_singleton.mp hm).symm
  · rw [runSession, runSession, ← cons_append, foldl_append]
    rfl

theorem ObtainInv.onClient {s : Obtain} (h : ObtainInv parse key s₀ s) (call : SessionCall)
    (hcall : ∀ e, call ≠ .connect e) :
    ObtainInv parse key s₀ { s with client := call.run parse s.client } :=
  ⟨h.session.call hcall, h.recorded, h.holding, h.served⟩

/-- A call on the session, as a step of the whole. -/
theorem triple_onClient {α : Type} {P : Obtain → Prop} {m : Call α} {Q : α → Prop}
    (hP : ∀ s, P s → P { s with client := (m s.client).1 })
    (hQ : Triple (fun _ => True) m (fun a _ => Q a) fun _ => True) :
    Triple P (Acme.onClient m) (fun a s => P s ∧ Q a) P := by
  intro s hs
  have hm := hQ s.client trivial
  show (m s.client).2.elim _ _
  cases hr : (m s.client).2 with
  | none => exact hP s hs
  | some =>
    rw [hr] at hm
    exact ⟨hP s hs, hm⟩

theorem preserves_onClient {α : Type} {m : Call α} (call : SessionCall)
    (hcall : ∀ e, call ≠ .connect e) (hrun : ∀ c, (m c).1 = call.run parse c) :
    Preserves (ObtainInv parse key s₀) (Acme.onClient m) := by
  apply triple_of_after
  intro s h
  show ObtainInv parse key s₀ { s with client := (m s.client).1 }
  rw [hrun]
  exact h.onClient call hcall

/-- The token of an authorization is what its buffer of 256 bytes holds of the challenge's. -/
theorem triple_http01 (authzUrl : Bytes) :
    Triple (ObtainInv parse key s₀) (Acme.onClient (porticoAcmeHttp01 parse authzUrl 32 256 2048))
      (fun az s => ObtainInv parse key s₀ s ∧ az.token = fit 256 az.challenge)
      (ObtainInv parse key s₀) := by
  apply triple_onClient
  · intro s h
    exact h.onClient (.http01 authzUrl 32 256 2048) fun _ => SessionCall.noConfusion
  · apply triple_bind (triple_trivial _)
    intro r
    apply triple_bind (triple_trivial _)
    intro _
    apply triple_bind (triple_trivial _)
    intro body
    exact triple_ofOption (fun az _ h _ => acmeParseAuthz_token h) fun _ _ => trivial

/-- The store right after the key authorization of a challenge was put into it. -/
theorem served_iff {challenge token keyauth : Bytes} (htoken : token = fit 256 challenge)
    (hne : token ≠ []) (hkey : porticoAcmeKeyAuthz key token 512 = some keyauth)
    (hget : Slots.get token r.table = some keyauth) :
    Trigger.Served key ⟨challenge, r⟩ ↔ challenge.length < 256 := by
  obtain ⟨-, tp, htp, hka⟩ := keyAuthz_some hkey
  have hc : challenge ≠ [] := by
    intro hnil
    rw [hnil] at htoken
    exact hne htoken
  have hauth (t tp : Bytes) : t ++ ascii "." ++ tp ≠ [] := by
    rw [append_assoc]
    exact append_ne_nil_of_right_ne_nil t (append_ne_nil_of_left_ne_nil (by decide) tp)
  constructor
  · intro ⟨tp', _, hserved⟩
    have hfound := (lookup_eq_get hc (hauth challenge tp') (Nat.le_refl 512)).mp
      (hserved 512 (Nat.le_refl 512))
    exact Responder.short_of_mem_keys (Slots.mem_keys_of_get hfound)
  · intro hlen
    have heq : token = challenge := by rw [htoken, fit_of_short hlen]
    refine ⟨tp, htp, ?_⟩
    intro cap hcap
    rw [← heq]
    apply (lookup_eq_get hne (hauth token tp) hcap).mpr
    rw [← hka]
    exact hget

theorem preserves_triggerChallenge (haz : az.token = fit 256 az.challenge) :
    Preserves (ObtainInv parse key s₀) (triggerChallenge key az) := by
  have hshort : az.token.length < 256 := by
    rw [haz]
    exact fit_length (by decide) az.challenge
  apply triple_bind (R := fun keyauth s => ObtainInv parse key s₀ s ∧
    porticoAcmeKeyAuthz key az.token 512 = some keyauth)
    (triple_ofOption (fun _ _ hk h => ⟨h, hk⟩) fun _ h => h)
  intro keyauth
  refine triple_bind (R := fun _ => ObtainInv parse key s₀) (triple_modify ?_) fun _ =>
    preserves_onClient (.challengeReady az.chalUrl) (fun _ => SessionCall.noConfusion)
      fun _ => rfl
  intro s ⟨h, hkey⟩
  have htable := table_provision s.responder hshort (keyAuthz_some hkey).1
  have hcut : fit 256 az.token = az.token := fit_of_short hshort
  have hlast : az.token ∈ s.tokens ++ [az.token] := mem_append_right _ mem_cons_self
  rw [hcut]
  refine ⟨h.session, ?_, ?_, ?_⟩
  · show s.tokens ++ [az.token] = (s.triggers ++ [_]).map _
    rw [map_append, ← h.recorded, haz]
    rfl
  · intro hf
    show Slots.Holding _ (porticoAcmeResponderProvision _ _ _).table _
    rw [htable]
    exact (h.holding hf.of_append).put keyauth (hf.new _ hlast) hf.room
  · intro hf t ht
    cases mem_append.mp ht with
    | inl ht => exact h.served hf.of_append t ht
    | inr ht =>
      rw [mem_singleton.mp ht]
      apply served_iff haz (hf.nonempty _ hlast) hkey
      rw [htable]
      exact Slots.get_put_self ((h.holding hf.of_append).place hf.room)

theorem preserves_authorize (authzUrl : Bytes) :
    Preserves (ObtainInv parse key s₀) (authorize parse key authzUrl) := by
  apply triple_bind (triple_http01 authzUrl)
  intro az
  split
  · exact triple_pure fun _ h => h.1
  · intro s h
    exact preserves_triggerChallenge h.2 s h.1

theorem preserves_authorizeAll (urls : List Bytes) :
    Preserves (ObtainInv parse key s₀) (authorizeAll parse key urls) := by
  induction urls with
  | nil => exact preserves_pure ()
  | cons url urls ih => exact preserves_bind (preserves_authorize url) fun _ => ih

theorem preserves_poll (url : Bytes) :
    Preserves (ObtainInv parse key s₀) (Acme.onClient (pollStatus parse url (ascii "valid") 120)) :=
  preserves_onClient (.pollStatus url (ascii "valid") 120) (fun _ => SessionCall.noConfusion)
    fun _ => rfl

theorem preserves_awaitAll (urls : List Bytes) :
    Preserves (ObtainInv parse key s₀) (awaitAll parse urls) := by
  induction urls with
  | nil => exact preserves_pure ()
  | cons url urls ih => exact preserves_bind (preserves_poll url) fun _ => ih

theorem preserves_issue (csr : Option Bytes) (orderUrl finalizeUrl : Bytes) :
    Preserves (ObtainInv parse key s₀) (issue parse csr orderUrl finalizeUrl) := by
  apply preserves_bind (preserves_ofOption _)
  intro csr
  apply preserves_bind (preserves_onClient (.finalize finalizeUrl csr)
    (fun _ => SessionCall.noConfusion) fun _ => rfl)
  intro _
  apply preserves_bind (preserves_poll orderUrl)
  intro orderBody
  apply preserves_bind (preserves_ofOption _)
  intro body
  apply preserves_bind (preserves_ofOption _)
  intro order
  apply preserves_bind (preserves_require _)
  intro _
  exact preserves_onClient (.downloadCert order.certificate) (fun _ => SessionCall.noConfusion)
    fun _ => rfl

theorem triple_obtainBody (cfg : ObtainConfig) (domains : List Bytes)
    (htokens : s₀.tokens = []) (htriggers : s₀.triggers = []) :
    Triple (fun s => s = s₀) (obtainBody parse key cfg domains)
      (fun _ => ObtainInv parse key s₀) (ObtainInv parse key s₀) := by
  have hconnect (s : Obtain) (hs : s = s₀) : ObtainInv parse key s₀
      { s with client := (porticoAcmeConnect parse cfg.email s.client).1 } := by
    rw [hs]
    refine ⟨⟨cfg.email, [], fun _ => not_mem_nil, rfl⟩, ?_, ?_, ?_⟩
    · show s₀.tokens = s₀.triggers.map _
      rw [htokens, htriggers]
      rfl
    · intro _
      show Slots.Holding _ s₀.responder.table s₀.tokens
      rw [htokens]
      exact Slots.Holding.refl _
    · intro _ t ht
      have ht : t ∈ s₀.triggers := ht
      rw [htriggers] at ht
      exact absurd ht not_mem_nil
  apply triple_bind (triple_of_after hconnect)
  intro _
  apply preserves_bind (preserves_onClient (.order domains 2048 2048 64)
    (fun _ => SessionCall.noConfusion) fun _ => rfl)
  intro placed
  apply preserves_bind (preserves_authorizeAll _)
  intro _
  apply preserves_bind (preserves_awaitAll _)
  intro _
  exact preserves_issue _ _ _

theorem table_cleanup (s : Obtain) :
    (cleanup s).responder.table =
      s.tokens.foldl (fun l t => Slots.remove t l) s.responder.table := by
  show (s.tokens.foldl (fun r t => porticoAcmeResponderUnprovision t r) s.responder).table = _
  generalize s.responder = r
  induction s.tokens generalizing r with
  | nil => rfl
  | cons t tokens ih =>
    rw [foldl_cons, foldl_cons, ih, table_unprovision]

end Steps

/-! ## The whole call -/

section Whole

variable (parse : Bytes → Option Document) (cfg : ObtainConfig) (domains : List Bytes)

/-- The call gives up before it does anything, or its state is what `cleanup` makes of the state
    in which the body has ended. -/
theorem obtain_cases (s₀ : Obtain) (htokens : s₀.tokens = []) (htriggers : s₀.triggers = []) :
    (porticoAcmeObtain parse cfg domains s₀).1 = s₀ ∨
      ∃ key s, cfg.accountKey = some key ∧ ObtainInv parse key s₀ s ∧
        (porticoAcmeObtain parse cfg domains s₀).1 = cleanup s := by
  rw [porticoAcmeObtain]
  split
  · exact Or.inl rfl
  · split
    · exact Or.inl rfl
    · next key hkey =>
      split
      · right
        exact ⟨key, _, hkey, (triple_obtainBody cfg domains htokens htriggers).after rfl, rfl⟩
      · exact Or.inl rfl

/-- The requests of a call are those of a session that fetches the directory first: it never uses
    a nonce twice, and every request carries the freshest one. -/
theorem obtain_nonces (responder : Responder) (replies : List (Option HttpReply))
    (signatures : List Bool) (hdistinct : (replies.filterMap issued).Nodup)
    (hshort : ∀ n ∈ replies.filterMap issued, n.length < 256) :
    let c := (porticoAcmeObtain parse cfg domains
      (.start cfg responder replies signatures)).1.client
    (usedNonces c.trace).Nodup ∧ CarriesFreshest true c.trace := by
  intro c
  have hstart : NonceInv true (Obtain.start cfg responder replies signatures).client :=
    .start hdistinct hshort
  have hinv : NonceInv true c := by
    cases obtain_cases parse cfg domains (.start cfg responder replies signatures) rfl rfl with
    | inl h => rwa [show c = _ from congrArg Obtain.client h]
    | inr h =>
      obtain ⟨key, s, -, hs, h⟩ := h
      obtain ⟨email, calls, hcalls, hs⟩ := hs.session
      rw [show c = _ from (congrArg Obtain.client h).trans hs]
      exact hstart.session parse _ rfl (Or.inr hcalls)
  exact ⟨hinv.once, hinv.carried⟩

/-- For tokens that are new to the store and find room in it: a challenge is triggered while its
    key authorization is served exactly if its token is shorter than 256 bytes, and at the end the
    store holds what it held before, none of the tokens that were provisioned. -/
theorem challenges_served_iff (responder : Responder) (replies : List (Option HttpReply))
    (signatures : List Bool)
    (hfits : Fits responder
      (porticoAcmeObtain parse cfg domains (.start cfg responder replies signatures)).1.tokens) :
    (∀ t ∈ (porticoAcmeObtain parse cfg domains
        (.start cfg responder replies signatures)).1.triggers,
      (∃ key, cfg.accountKey = some key ∧ t.Served key) ↔ t.challenge.length < 256) ∧
    (∀ t ∈ (porticoAcmeObtain parse cfg domains
        (.start cfg responder replies signatures)).1.tokens,
      t ∉ Slots.keys (porticoAcmeObtain parse cfg domains
        (.start cfg responder replies signatures)).1.responder.table) ∧
    (porticoAcmeObtain parse cfg domains
      (.start cfg responder replies signatures)).1.responder.table = responder.table := by
  cases obtain_cases parse cfg domains (.start cfg responder replies signatures) rfl rfl with
  | inl h =>
    rw [h]
    refine ⟨?_, ?_, rfl⟩
    · exact fun t ht => absurd ht not_mem_nil
    · exact fun t ht => absurd ht not_mem_nil
  | inr h =>
    obtain ⟨key, s, hkey, hinv, h⟩ := h
    rw [h] at hfits ⊢
    have hfits : Fits responder s.tokens := hfits
    have htable : (cleanup s).responder.table = responder.table := by
      rw [table_cleanup]
      exact Slots.removeAll_of_grown (hinv.holding hfits).grown hfits.new
    refine ⟨?_, ?_, htable⟩
    · intro t ht
      rw [← hinv.served hfits t ht, hkey]
      constructor
      · intro ⟨k, hk, hs⟩
        rw [Option.some.inj hk]
        exact hs
      · exact fun hs => ⟨key, rfl, hs⟩
    · intro t ht
      rw [htable]
      exact hfits.new t ht

end Whole

/-! ## One domain -/

def orderText : Bytes :=
  ascii "\x7b\"status\":\"pending\",\"finalize\":\"https://acme/finalize/9/42\"," ++
    ascii "\"authorizations\":[\"https://acme/authz/AAA\"]\x7d"

def orderDocument : Document :=
  .object [(ascii "status", .string (ascii "pending")),
    (ascii "finalize", .string (ascii "https://acme/finalize/9/42")),
    (ascii "authorizations", .array [.string (ascii "https://acme/authz/AAA")])]

def authzText (token : Bytes) : Bytes :=
  ascii "\x7b\"status\":\"pending\",\"challenges\":[\x7b\"type\":\"http-01\",\"token\":\"" ++
    token ++ ascii "\",\"url\":\"https://acme/chal/http\"\x7d]\x7d"

def authzDocument (token : Bytes) : Document :=
  .object [(ascii "status", .string (ascii "pending")),
    (ascii "challenges", .array [.object [(ascii "type", .string (ascii "http-01")),
      (ascii "token", .string token), (ascii "url", .string (ascii "https://acme/chal/http"))]])]

def caParse (token text : Bytes) : Option Document :=
  if text = caDirectoryText then some caDirectory
  else if text = orderText then some orderDocument
  else if text = authzText token then some (authzDocument token)
  else none

/-- The server goes silent when the challenge is reported ready. -/
def caReplies (token : Bytes) : List (Option HttpReply) :=
  [some ⟨200, some caDirectoryText, [], []⟩, some ⟨200, some [], ascii "n1", []⟩,
    some ⟨201, some [], ascii "n2", ascii "https://acme.example/acct/1"⟩,
    some ⟨201, some orderText, ascii "n3", ascii "https://acme.example/order/9"⟩,
    some ⟨200, some (authzText token), ascii "n4", []⟩]

def caConfig : ObtainConfig where
  directoryUrl := some stagingDirectory
  email := none
  accountKey := some ⟨some (ascii "tp"), by decide⟩
  allocated := true
  csr := some []

/-- One domain with the challenge `token`, and an empty store. -/
def oneChallenge (token : Bytes) : Obtain :=
  (porticoAcmeObtain (caParse token) caConfig [ascii "a.example"]
    (.start caConfig porticoAcmeResponderNew (caReplies token) [])).1

theorem obtain_nonces_challenge :
    usedNonces (oneChallenge (ascii "abc")).client.trace =
        [ascii "n1", ascii "n2", ascii "n3", ascii "n4"] ∧
      CarriesFreshest true (oneChallenge (ascii "abc")).client.trace :=
  ⟨by decide +kernel, (obtain_nonces _ _ _ _ _ _ (by decide +kernel) (by decide +kernel)).2⟩

theorem fits_new {t : Bytes} (h : t ≠ []) : Fits porticoAcmeResponderNew [t] := by
  refine ⟨?_, ?_, ?_⟩
  · intro t' ht'
    rw [mem_singleton.mp ht']
    exact h
  · intro t' _
    rw [show Slots.keys porticoAcmeResponderNew.table = [] from by decide +kernel]
    exact not_mem_nil
  · rw [show Slots.free porticoAcmeResponderNew.table = 64 from by decide +kernel]
    exact Nat.le_trans (toFinset_card_le [t]) (by decide : 1 ≤ 64)

theorem challenges_served_short :
    (oneChallenge (ascii "abc")).triggers.map Trigger.challenge = [ascii "abc"] ∧
      ∀ t ∈ (oneChallenge (ascii "abc")).triggers,
        (∃ key, caConfig.accountKey = some key ∧ t.Served key) ↔ t.challenge.length < 256 := by
  have htokens : (oneChallenge (ascii "abc")).tokens = [ascii "abc"] := by decide +kernel
  have hfits : Fits porticoAcmeResponderNew (oneChallenge (ascii "abc")).tokens := by
    rw [htokens]
    exact fits_new (by decide)
  exact ⟨by decide +kernel, (challenges_served_iff _ _ _ _ _ _ hfits).1⟩

/-- A challenge of 256 bytes is triggered while nothing is served at its path. -/
theorem long_challenge_not_served :
    Fits porticoAcmeResponderNew (oneChallenge (replicate 256 97)).tokens ∧
      ∃ t ∈ (oneChallenge (replicate 256 97)).triggers,
        t.challenge = replicate 256 97 ∧
        porticoAcmeResponderLookup t.responder (challengePath t.challenge) 512 = none := by
  have htokens : (oneChallenge (replicate 256 97)).tokens = [replicate 255 97] := by
    decide +kernel
  constructor
  · rw [htokens]
    exact fits_new (by decide)
  · have hlookup : (oneChallenge (replicate 256 97)).triggers.map (fun t => (t.challenge,
        porticoAcmeResponderLookup t.responder (challengePath t.challenge) 512)) =
        [(replicate 256 97, none)] := by decide +kernel
    have hmem := mem_singleton_self (replicate 256 (97 : UInt8), (none : Option Bytes))
    rw [← hlookup] at hmem
    obtain ⟨t, ht, heq⟩ := mem_map.mp hmem
    exact ⟨t, ht, congrArg Prod.fst heq, congrArg Prod.snd heq⟩

end Portico.Acme
