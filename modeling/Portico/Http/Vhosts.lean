/-
  Virtual hosts: which entry of the table `portico_res_vhost` of src/http/connection.c serves.

  Model. `Stripped` takes a trailing `:digits` from the value of the `Host` header, `Named` says
  that an entry is for a host, and `Picks` which entry of a table is to be served: the first one
  named, else the first one without a host, else none.

  Proved: `vhost_picked_iff`: the entry that is to be served is served, with 404 and no look at the
  file system if there is none, for every table, just if the stripped host is not empty and does
  not start with a dot.
-/
import Portico.Http.Ranges
import Portico.Http.StaticAnswer

namespace Portico.Http

open Portico.Ws List

/-! ## What is to be served -/

/-- The value without a trailing `:digits`, if it has one. -/
def Stripped (value host : Bytes) : Prop :=
  (∃ ds, IsDigits ds ∧ value = host ++ 58 :: ds) ∨
    (host = value ∧ ∀ front ds, IsDigits ds → value ≠ front ++ 58 :: ds)

/-- The pattern is the host, or it is `*.S` and the host is one label in front of `.S`. -/
def Named (host pat : Bytes) : Prop :=
  equalsCi pat host = true ∨
    ∃ label s rest, pat = ascii "*." ++ s ∧ label ≠ [] ∧ 46 ∉ label ∧ host = label ++ 46 :: rest ∧
      equalsCi s rest = true

/-- The entry has a host, and it names the one asked for. -/
def Vhost.For (host : Bytes) (v : Vhost) : Prop := ∃ pat, v.host = some pat ∧ Named host pat

/-- The first entry of the table with the property. -/
def FirstWith (p : Vhost → Prop) (vhosts : List Vhost) (v : Vhost) : Prop :=
  ∃ before behind, vhosts = before ++ v :: behind ∧ p v ∧ ∀ u ∈ before, ¬ p u

variable {p : Vhost → Prop}

theorem FirstWith.mem {vhosts : List Vhost} {v : Vhost} (h : FirstWith p vhosts v) :
    v ∈ vhosts ∧ p v := by
  obtain ⟨before, behind, rfl, hv, -⟩ := h
  exact ⟨by simp, hv⟩

/-- The entry of the table that is to be served. -/
inductive Picks (vhosts : List Vhost) (host : Bytes) : Option Vhost → Prop
  | named {v} (first : FirstWith (Vhost.For host) vhosts v) : Picks vhosts host (some v)
  | fallback {v} (none_named : ∀ u ∈ vhosts, ¬ u.For host)
      (first : FirstWith (·.host = none) vhosts v) : Picks vhosts host (some v)
  | nothing (none_named : ∀ u ∈ vhosts, ¬ u.For host) (none_default : ∀ u ∈ vhosts, u.host ≠ none) :
      Picks vhosts host none

/-! ## The host -/

/-- The text behind the last colon. -/
theorem behind_last_colon {front port : Bytes} (h : 58 ∉ port) :
    ((front ++ 58 :: port).reverse.takeWhile (· != 58)).reverse = port := by
  rw [reverse_append, reverse_cons, append_assoc, takeWhile_append_of_pos]
  · simp
  · intro b hb
    simpa using ne_of_mem_of_not_mem (mem_reverse.mp hb) h

variable {value host pat : Bytes} {req : Request} {pick : Option Vhost}

theorem split_last_colon (h : 58 ∈ value) :
    ∃ front port, value = front ++ 58 :: port ∧ 58 ∉ port := by
  obtain ⟨back, front, hsplit, hback⟩ := eq_append_cons_of_mem (mem_reverse.mpr h)
  refine ⟨front.reverse, back.reverse, ?_, by simpa using hback⟩
  rw [← reverse_reverse value, hsplit]
  simp

theorem dropPort_eq (h : Stripped value host) : dropPort value = host := by
  unfold dropPort
  dsimp only
  obtain ⟨ds, hds, rfl⟩ | ⟨rfl, hnone⟩ := h
  · have hport : 58 ∉ ds := fun hmem => absurd (hds.2 58 hmem).2 (by decide)
    obtain ⟨hne, hdigit⟩ := (isDigits_iff ds).mp hds
    rw [behind_last_colon hport, if_pos ⟨by simp, hne, all_eq_true.mpr hdigit⟩]
    apply take_left'
    simp only [length_append, length_cons]
    omega
  · apply if_neg
    rintro ⟨hcolon, hne, hdigit⟩
    obtain ⟨front, port, rfl, hport⟩ := split_last_colon (by simpa using hcolon)
    rw [behind_last_colon hport] at hne hdigit
    exact hnone front port ((isDigits_iff port).mpr ⟨hne, all_eq_true.mp hdigit⟩) rfl

/-- The host that the code goes on with. -/
theorem requestHost_eq (hplain : req.Plain)
    (hvalue : porticoReqHeader req.headers (ascii "Host") = some value) (hlen : value.length < 256)
    (h : Stripped value host) : requestHost req = host := by
  have hnul := hplain.reqHeader hvalue
  have hdrop := dropPort_eq h
  rw [requestHost, hvalue]
  dsimp only
  rw [cString_eq_self hnul, hdrop]
  by_cases hempty : value = []
  · rw [if_pos (Or.inl hempty), ← hdrop, hempty]
    rfl
  · exact if_neg (by simp [hempty, hlen])

/-! ## The table -/

theorem dropWhile_label {label : Bytes} (h : 46 ∉ label) (rest : Bytes) :
    (label ++ 46 :: rest).dropWhile (· != 46) = 46 :: rest := by
  rw [dropWhile_append_of_pos]
  · rfl
  · intro b hb
    simpa using ne_of_mem_of_not_mem hb h

/-- But for an empty label, `vhost_match` finds what is named. -/
theorem vhostMatch_iff (hdot : host.head? ≠ some 46) (pat : Bytes) :
    vhostMatch pat host = true ↔ Named host pat := by
  unfold vhostMatch Named
  split
  · rename_i hwild
    obtain ⟨s, rfl⟩ := List.isPrefixOf_iff_prefix.mp hwild
    have hdrop : (ascii "*." ++ s).drop 2 = s := rfl
    rw [hdrop, Bool.and_eq_true]
    constructor
    · rintro ⟨hmem, hci⟩
      obtain ⟨label, rest, rfl, hlabel⟩ := eq_append_cons_of_mem (by simpa using hmem)
      rw [dropWhile_label hlabel] at hci
      refine Or.inr ⟨label, s, rest, rfl, ?_, hlabel, rfl, hci⟩
      rintro rfl
      exact hdot rfl
    · rintro (hci | ⟨label, s', rest, hs, -, hlabel, rfl, hci⟩)
      · obtain ⟨rest, rfl, hrest⟩ := equalsCi_wildcard hci
        exact ⟨rfl, hrest⟩
      · cases append_cancel_left hs
        rw [dropWhile_label hlabel]
        exact ⟨by simp, hci⟩
  · rename_i hwild
    refine ⟨Or.inl, ?_⟩
    rintro (hci | ⟨_, s, _, rfl, -⟩)
    · exact hci
    · exact absurd (List.isPrefixOf_iff_prefix.mpr (prefix_append _ _)) hwild

theorem find_first {q : Vhost → Bool} (hq : ∀ v, q v = true ↔ p v) (vhosts : List Vhost) :
    (∃ v, vhosts.find? q = some v ∧ FirstWith p vhosts v) ∨
      (vhosts.find? q = none ∧ ∀ u ∈ vhosts, ¬ p u) := by
  cases hfind : vhosts.find? q with
  | none =>
    refine Or.inr ⟨rfl, fun u hu hp => ?_⟩
    exact find?_eq_none.mp hfind u hu ((hq u).mpr hp)
  | some v =>
    obtain ⟨hv, before, behind, hsplit, hbefore⟩ := find?_eq_some_iff_append.mp hfind
    refine Or.inl ⟨v, rfl, before, behind, hsplit, (hq v).mp hv, fun u hu hp => ?_⟩
    have hnot := hbefore u hu
    rw [(hq u).mpr hp] at hnot
    exact Bool.false_ne_true hnot

/-- What the search takes for an entry of the host. -/
def Vhost.matchesHost (host : Bytes) (v : Vhost) : Bool :=
  match v.host with
  | none => false
  | some pat => host ≠ [] && vhostMatch pat host

theorem selectVhost_eq (vhosts : List Vhost) (host : Bytes) :
    selectVhost vhosts host =
      (vhosts.find? (Vhost.matchesHost host)).or (vhosts.find? fun v => v.host.isNone) := rfl

/-- The table is searched in order, for the host and then for an entry without one. -/
theorem selectVhost_picks (hne : host ≠ []) (hdot : host.head? ≠ some 46) (vhosts : List Vhost) :
    Picks vhosts host (selectVhost vhosts host) := by
  have hnamed : ∀ v : Vhost, v.matchesHost host = true ↔ v.For host := by
    intro v
    unfold Vhost.matchesHost Vhost.For
    cases v.host with
    | none => simp
    | some => simp [hne, vhostMatch_iff hdot]
  have hdefault : ∀ v : Vhost, v.host.isNone = true ↔ v.host = none :=
    fun v => Option.isNone_iff_eq_none
  rw [selectVhost_eq]
  obtain ⟨v, hfind, hfirst⟩ | ⟨hfind, hnone⟩ := find_first hnamed vhosts
  · rw [hfind]
    exact .named hfirst
  rw [hfind, Option.none_or]
  obtain ⟨v, hfind, hfirst⟩ | ⟨hfind, hall⟩ := find_first hdefault vhosts
  · rw [hfind]
    exact .fallback hnone hfirst
  · rw [hfind]
    exact .nothing hnone hall

/-! ## The answer -/

/-- The answer for the picked entry: without one, no file system is asked. -/
def vhostAnswer (env : StaticEnv) (res : Reply) (req : Request) : Option Vhost → StaticResult
  | none => refused res 404 []
  | some v => porticoResStatic env res req v.opts

theorem porticoResVhost_eq (env : StaticEnv) (res : Reply) (req : Request) (vhosts : List Vhost) :
    porticoResVhost env res req vhosts =
      vhostAnswer env res req (selectVhost vhosts (requestHost req)) := by
  rw [porticoResVhost]
  cases selectVhost vhosts (requestHost req) <;> rfl

/-- An entry for the host, without a document root: it answers 500. -/
def rootless (pat : Bytes) : Vhost := ⟨some pat, { demoOpts false with docroot := none }⟩

theorem selectVhost_rootless :
    selectVhost [rootless pat] host =
      if host ≠ [] ∧ vhostMatch pat host = true then some (rootless pat) else none := by
  rw [selectVhost_eq]
  by_cases h : host ≠ [] ∧ vhostMatch pat host = true
  · simp [Vhost.matchesHost, rootless, h]
  · have hnone : (rootless pat).matchesHost host = false := by
      simpa [Vhost.matchesHost, rootless] using h
    rw [if_neg h, find?_singleton, hnone]
    rfl

/-- In a table of one entry it is picked just if it is named. -/
theorem picks_rootless (h : Picks [rootless pat] host pick) :
    pick = some (rootless pat) ∧ Named host pat ∨ pick = none ∧ ¬ Named host pat := by
  cases h with
  | named first =>
    obtain ⟨hmem, pat', hpat, hnamed⟩ := first.mem
    obtain rfl := mem_singleton.mp hmem
    cases hpat
    exact Or.inl ⟨rfl, hnamed⟩
  | fallback none_named first =>
    obtain ⟨hmem, hnone⟩ := first.mem
    obtain rfl := mem_singleton.mp hmem
    cases hnone
  | nothing none_named =>
    refine Or.inr ⟨rfl, fun hnamed => ?_⟩
    exact none_named (rootless pat) (mem_singleton_self _) ⟨pat, rfl, hnamed⟩

/-- If a table of one entry is answered as it is to be, `vhost_match` finds the entry just if it
    is named. -/
theorem named_iff_of_answer (hhost : requestHost req = host)
    (hpick : Picks [rootless pat] host pick)
    (h : porticoResVhost demoEnv Reply.empty req [rootless pat] =
      vhostAnswer demoEnv Reply.empty req pick) :
    Named host pat ↔ host ≠ [] ∧ vhostMatch pat host = true := by
  have hstatus := congrArg (fun r => r.res.status) h
  rw [porticoResVhost_eq, hhost, selectVhost_rootless] at hstatus
  have hsome : (vhostAnswer demoEnv Reply.empty req (some (rootless pat))).res.status = 500 := rfl
  have hnone : (vhostAnswer demoEnv Reply.empty req none).res.status = 404 := rfl
  obtain ⟨rfl, hnamed⟩ | ⟨rfl, hnamed⟩ := picks_rootless hpick
  · refine ⟨fun _ => ?_, fun _ => hnamed⟩
    by_contra hcode
    rw [if_neg hcode, hsome, hnone] at hstatus
    exact absurd hstatus (by decide)
  · refine ⟨fun h => absurd h hnamed, fun hcode => ?_⟩
    rw [if_pos hcode, hsome, hnone] at hstatus
    exact absurd hstatus (by decide)

theorem not_named_empty_label {rest : Bytes} : ¬ Named (46 :: rest) (ascii "*." ++ rest) := by
  rintro (hci | ⟨label, _, _, -, hne, hlabel, heq, -⟩)
  · obtain ⟨_, heq, -⟩ := equalsCi_wildcard hci
    cases heq
  · cases label with
    | nil => exact hne rfl
    | cons =>
      cases heq
      exact hlabel mem_cons_self

/-- The first entry for the host is served, or else the first one without a host, and 404 is
    answered if there is none, in every table just if the stripped host is not empty and does not
    start with a dot. -/
theorem vhost_picked_iff {req : Request} (hplain : req.Plain) {value host : Bytes}
    (hvalue : porticoReqHeader req.headers (ascii "Host") = some value)
    (hlen : value.length < 256) (hstripped : Stripped value host) :
    (∀ vhosts, ∃ pick, Picks vhosts host pick ∧
      ∀ env res, porticoResVhost env res req vhosts = vhostAnswer env res req pick) ↔
    host ≠ [] ∧ host.head? ≠ some 46 := by
  have hhost := requestHost_eq hplain hvalue hlen hstripped
  constructor
  · intro h
    have hexact : ∀ pat, Named host pat ↔ host ≠ [] ∧ vhostMatch pat host = true := by
      intro pat
      obtain ⟨pick, hpick, hanswer⟩ := h [rootless pat]
      exact named_iff_of_answer hhost hpick (hanswer demoEnv Reply.empty)
    refine ⟨fun hempty => ?_, fun hdot => ?_⟩
    · -- an entry with an empty host
      subst hempty
      exact ((hexact []).mp (Or.inl rfl)).1 rfl
    · -- a wildcard for what stands behind the dot
      obtain ⟨rest, rfl⟩ := head?_eq_some_iff.mp hdot
      apply not_named_empty_label
      apply (hexact (ascii "*." ++ rest)).mpr
      refine ⟨cons_ne_nil _ _, ?_⟩
      exact equalsCi_iff.mpr rfl
  · rintro ⟨hne, hdot⟩ vhosts
    refine ⟨_, selectVhost_picks hne hdot vhosts, fun env res => ?_⟩
    rw [porticoResVhost_eq, hhost]

/-- The value `www.Site:80` asks for `www.Site`. -/
theorem vhost_picked_iff_port :
    Stripped (ascii "www.Site:80") (ascii "www.Site") ∧
    ∀ vhosts, ∃ pick, Picks vhosts (ascii "www.Site") pick ∧
      ∀ env res, porticoResVhost env res
        (demoRequest "/a" [⟨ascii "Host", ascii "www.Site:80"⟩]) vhosts =
          vhostAnswer env res (demoRequest "/a" [⟨ascii "Host", ascii "www.Site:80"⟩]) pick := by
  have hstripped : Stripped (ascii "www.Site:80") (ascii "www.Site") :=
    Or.inl ⟨ascii "80", ⟨by decide, by decide +kernel⟩, by decide +kernel⟩
  refine ⟨hstripped, ?_⟩
  exact (vhost_picked_iff ⟨by decide +kernel, by decide +kernel⟩ rfl (by decide) hstripped).mpr
    ⟨by decide, by decide⟩

/-- The host `.site` is served by the entry for `*.site`, and the value `:80` is not served by the
    entry for the empty host. -/
theorem empty_label_served :
    (porticoResVhost demoEnv Reply.empty (demoRequest "/a" [⟨ascii "Host", ascii ".site"⟩])
        [⟨some (ascii "*.site"), demoOpts false⟩]).opened = [ascii "/w/a"] ∧
      ¬ Named (ascii ".site") (ascii "*.site") ∧
    (porticoResVhost demoEnv Reply.empty (demoRequest "/a" [⟨ascii "Host", ascii ":80"⟩])
        [⟨some [], demoOpts false⟩]).res.status = 404 ∧
      Stripped (ascii ":80") [] ∧ Named [] [] := by
  refine ⟨by decide +kernel, not_named_empty_label, by decide +kernel, ?_, Or.inl rfl⟩
  exact Or.inl ⟨ascii "80", ⟨by decide, by decide +kernel⟩, rfl⟩

end Portico.Http
