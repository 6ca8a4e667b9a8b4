/-
  Conditional requests: `etag_matches` and the decision for 304 in src/http/connection.c.

  Model. `listElements` are the elements of a comma-separated list without the blanks around them;
  `NoneMatches` says when an `If-None-Match` value matches an ETag. The value of a header has no
  NUL, which `phr_parse_request` does not let through (`Request.Plain.reqHeader`).

  Proved: `etagScan_eq`, the loop of `etag_matches` compares every element up to the length of the
  ETag. Hence `none_match_iff`: the answer is 304 just for the values that match, whatever else the
  request has, if and only if the value is `Decisive`: it fits the buffer, and an asterisk or an
  element that begins with the ETag stands in it only if it matches.
-/
import Portico.Http.FieldLists
import Portico.Http.StaticAnswer

namespace Portico.Http

open Portico.Ws List

/-! ## The meaning of `If-None-Match` -/

/-- An entity tag without the mark of a weak one. -/
def stripWeak (e : Bytes) : Bytes := if (ascii "W/").isPrefixOf e then e.drop 2 else e

def listElements (v : Bytes) : List Bytes := (v.splitOnP (· == 44)).map trimBlanks

/-- The value is an asterisk, or one of its elements is the ETag, weak or not. -/
def NoneMatches (v etag : Bytes) : Prop := v = [42] ∨ ∃ e ∈ listElements v, stripWeak e = etag

instance (v etag : Bytes) : Decidable (NoneMatches v etag) := inferInstanceAs (Decidable (_ ∨ _))

/-! ## The loop -/

/-- What the loop compares of an element. -/
def elementBegins (etag e : Bytes) : Bool := etag.isPrefixOf (stripWeak (e.dropWhile isBlank))

variable {r etag v h : Bytes} {st : Stat}

/-- Text that begins with a foreign byte does not matter for a prefix. -/
theorem isPrefixOf_append {p : Bytes} (x : Bytes) (hr : ∀ b, r.head? = some b → b ∉ p) :
    p.isPrefixOf (x ++ r) = p.isPrefixOf x := by
  apply Bool.eq_iff_iff.mpr
  rw [List.isPrefixOf_iff_prefix, List.isPrefixOf_iff_prefix]
  refine ⟨fun h => ?_, fun h => h.trans (prefix_append x r)⟩
  by_cases hlen : p.length ≤ x.length
  · exact prefix_of_prefix_length_le h (prefix_append x r) hlen
  · have hx : x <+: p := prefix_of_prefix_length_le (prefix_append x r) h (by omega)
    obtain ⟨q, rfl⟩ := hx
    have hq : q <+: r := (prefix_append_right_inj x).mp h
    cases q with
    | nil => simp at hlen
    | cons b =>
      obtain ⟨t, rfl⟩ := hq
      exact absurd (by simp) (hr b rfl)

theorem stripWeak_append (x : Bytes) (hr : ∀ b, r.head? = some b → b ≠ 87 ∧ b ≠ 47) :
    stripWeak (x ++ r) = stripWeak x ++ r := by
  have hmark : ∀ b, r.head? = some b → b ∉ ascii "W/" := by
    intro b hb hmem
    have hW : ascii "W/" = [87, 47] := by decide
    rw [hW] at hmem
    have := hr b hb
    simp [this.1, this.2] at hmem
  unfold stripWeak
  rw [isPrefixOf_append x hmark]
  split
  · rename_i hpre
    have hlen := (List.isPrefixOf_iff_prefix.mp hpre).length_le
    rw [drop_append_of_le_length]
    exact hlen
  · rfl

theorem stripWeak_cons (b : UInt8) (bs : Bytes) :
    stripWeak (b :: bs) = if b = 87 ∧ bs.head? = some 47 then bs.tail else b :: bs := by
  have hmark : ascii "W/" = [87, 47] := by decide
  unfold stripWeak
  rw [hmark]
  cases bs with
  | nil => simp
  | cons c bs =>
    by_cases hb : b = 87 ∧ c = 47
    · simp [hb.1, hb.2]
    · have hno : ([87, 47] : Bytes).isPrefixOf (b :: c :: bs) = false := by
        simp only [isPrefixOf, Bool.and_true, Bool.and_eq_false_iff, beq_eq_false_iff_ne]
        by_cases hb87 : b = 87
        · exact Or.inr (fun hc => hb ⟨hb87, hc.symm⟩)
        · exact Or.inl (Ne.symm hb87)
      simp [hno, hb]

theorem etagScan_pass (etag : Bytes) (hh : 44 ∉ h) (r : Bytes) :
    etagScan etag true (h ++ r) = etagScan etag true r := by
  induction h with
  | nil => rfl
  | cons b h ih =>
    rw [mem_cons, not_or] at hh
    rw [cons_append, etagScan, if_neg (Ne.symm hh.1)]
    exact ih hh.2

/-- One element, up to the end or to the comma behind it. -/
theorem etagScan_piece (hne : etag ≠ []) (hcomma : 44 ∉ etag) (hh : 44 ∉ h)
    (hr : ∀ b, r.head? = some b → b = 44) :
    etagScan etag false (h ++ r) = (elementBegins etag h || etagScan etag true r) := by
  induction h with
  | nil =>
    have hempty : elementBegins etag [] = false := by
      cases etag with
      | nil => exact absurd rfl hne
      | cons => rfl
    rw [nil_append, hempty, Bool.false_or]
    cases r with
    | nil => rfl
    | cons b =>
      cases hr b rfl
      rfl
  | cons b h ih =>
    rw [mem_cons, not_or] at hh
    rw [cons_append, etagScan]
    by_cases hblank : isBlank b = true
    · have hb : b = 32 ∨ b = 44 ∨ b = 9 := by
        simp only [isBlank, Bool.or_eq_true, beq_iff_eq] at hblank
        exact hblank.imp_right Or.inr
      rw [if_pos hb, ih hh.2, elementBegins, elementBegins, dropWhile_cons_of_pos hblank]
    · have hb : ¬ (b = 32 ∨ b = 44 ∨ b = 9) := by
        intro h
        obtain h | h | h := h
        · exact hblank (by simp [isBlank, h])
        · exact hh.1 h.symm
        · exact hblank (by simp [isBlank, h])
      have hstrip : stripWeak (b :: (h ++ r)) = stripWeak (b :: h) ++ r := by
        rw [← cons_append]
        apply stripWeak_append
        intro c hc
        rw [hr c hc]
        decide
      have hbegins : elementBegins etag (b :: h) = etag.isPrefixOf (stripWeak (b :: (h ++ r))) := by
        rw [elementBegins, dropWhile_cons_of_neg hblank, hstrip, isPrefixOf_append]
        intro c hc
        rw [hr c hc]
        exact hcomma
      rw [if_neg hb, hbegins, etagScan_pass etag hh.2, stripWeak_cons]
      generalize (if b = 87 ∧ (h ++ r).head? = some 47 then (h ++ r).tail else b :: (h ++ r)) = p
      cases hp : etag.isPrefixOf p with
      | true =>
        have : p ≠ [] := by
          rintro rfl
          exact hne (prefix_nil.mp (List.isPrefixOf_iff_prefix.mp hp))
        rw [if_pos ⟨this, hp⟩, Bool.true_or]
      | false =>
        rw [if_neg fun hyes => absurd (hp.symm.trans hyes.2) Bool.false_ne_true, Bool.false_or]

/-- The loop goes through the elements of the list. -/
theorem etagScan_eq (hne : etag ≠ []) (hcomma : 44 ∉ etag) (v : Bytes) :
    etagScan etag false v = (v.splitOnP (· == 44)).any (elementBegins etag) := by
  induction hn : v.length using Nat.strongRecOn generalizing v with
  | ind n ih =>
    by_cases hmem : 44 ∈ v
    · obtain ⟨h, rest, rfl, hh⟩ := eq_append_cons_of_mem hmem
      have hword : ∀ b ∈ h, (b == 44) = false := by
        intro b hb
        simpa using ne_of_mem_of_not_mem hb hh
      have hlen : rest.length < n := by
        simp only [length_append, length_cons] at hn
        omega
      rw [etagScan_piece hne hcomma hh (by simp), etagScan, if_pos rfl, ih _ hlen rest rfl,
        splitOnP_append_cons_of_forall_mem hword 44 rfl, any_cons]
    · have hword : ∀ b ∈ v, (b == 44) = false := by
        intro b hb
        simpa using ne_of_mem_of_not_mem hb hmem
      have hpiece := etagScan_piece hne hcomma hmem (r := []) (by simp)
      rw [append_nil] at hpiece
      rw [hpiece, splitOnP_eq_singleton hword]
      simp [etagScan]

/-! ## Trimming -/

/-- Behind the blanks in front of it, an element is what it is without blanks, and blanks. -/
theorem dropWhile_eq_trimBlanks (e : Bytes) :
    ∃ trail, (∀ b ∈ trail, isBlank b = true) ∧ e.dropWhile isBlank = trimBlanks e ++ trail := by
  have hsplit : e = trimEndBy isBlank e ++ (e.reverse.takeWhile isBlank).reverse := by
    have := congrArg reverse
      (takeWhile_append_dropWhile (p := isBlank) (l := e.reverse))
    rw [reverse_append, reverse_reverse] at this
    exact this.symm
  have htrail : ∀ b ∈ (e.reverse.takeWhile isBlank).reverse, isBlank b = true := by
    intro b hb
    exact all_eq_true.mp all_takeWhile b (mem_reverse.mp hb)
  generalize (e.reverse.takeWhile isBlank).reverse = trail at hsplit htrail
  have hdrop : e.dropWhile isBlank =
      if (trimBlanks e).isEmpty then trail.dropWhile isBlank else trimBlanks e ++ trail := by
    conv_lhs => rw [hsplit]
    exact dropWhile_append
  rw [hdrop]
  split
  · rename_i hempty
    refine ⟨[], by simp, ?_⟩
    rw [dropWhile_eq_nil_iff.mpr htrail, isEmpty_iff.mp hempty]
    rfl
  · exact ⟨trail, htrail, rfl⟩

/-- Blanks behind an element do not matter for the comparison. -/
theorem elementBegins_trimBlanks (hblank : ∀ b ∈ etag, isBlank b = false) (e : Bytes) :
    elementBegins etag e = etag.isPrefixOf (stripWeak (trimBlanks e)) := by
  obtain ⟨trail, htrail, heq⟩ := dropWhile_eq_trimBlanks e
  have hmem : ∀ b, trail.head? = some b → isBlank b = true := by
    intro b hb
    exact htrail b (mem_of_mem_head? hb)
  rw [elementBegins, heq, stripWeak_append, isPrefixOf_append]
  · intro b hb hetag
    have := hmem b hb
    rw [hblank b hetag] at this
    exact Bool.false_ne_true this
  · intro b hb
    have := hmem b hb
    refine ⟨?_, ?_⟩ <;> rintro rfl <;> exact absurd this (by decide)

/-! ## The decision -/

theorem not_mem_fileEtag {b : UInt8} (hquote : b ≠ 34) (hdash : b ≠ 45)
    (hdigit : ∀ d < 16, b ≠ UInt8.ofNat (Nat.digitChar d).toNat) : b ∉ fileEtag st := by
  have := @not_mem_etagText st _ hdash hdigit
  simp [fileEtag_eq, hquote, this]

theorem fileEtag_ne_nil (st : Stat) : fileEtag st ≠ [] := by
  rw [fileEtag_eq]
  exact cons_ne_nil _ _

/-- What `etag_matches` accepts: an asterisk anywhere, and elements that begin with the ETag. -/
theorem etagMatches_iff (v : Bytes) (st : Stat) :
    etagMatches v (fileEtag st) = true ↔
      42 ∈ v ∨ ∃ e ∈ listElements v, fileEtag st <+: stripWeak e := by
  have hcomma : 44 ∉ fileEtag st := not_mem_fileEtag (by decide) (by decide) (by decide)
  have hblank : ∀ b ∈ fileEtag st, isBlank b = false := by
    intro b hb
    by_contra hno
    simp only [Bool.not_eq_false, isBlank, Bool.or_eq_true, beq_iff_eq] at hno
    obtain rfl | rfl := hno
    · exact not_mem_fileEtag (by decide) (by decide) (by decide) hb
    · exact not_mem_fileEtag (by decide) (by decide) (by decide) hb
  rw [etagMatches, etagScan_eq (fileEtag_ne_nil st) hcomma, Bool.or_eq_true, any_eq_true]
  simp only [listElements, mem_map, exists_exists_and_eq_and, elementBegins_trimBlanks hblank,
    List.isPrefixOf_iff_prefix, contains_iff_mem]

theorem etagMatches_of_noneMatches (h : NoneMatches v (fileEtag st)) :
    etagMatches v (fileEtag st) = true := by
  apply (etagMatches_iff v st).mpr
  obtain rfl | ⟨e, he, heq⟩ := h
  · exact Or.inl (by decide)
  · exact Or.inr ⟨e, he, by rw [heq]⟩

/-- The function returns 0 with a 304. -/
def Answers304 (answer : StaticResult) : Prop := answer.ok = true ∧ answer.res.status = 304

/-- No other branch of `portico_res_static` returns 0 with a 304. -/
theorem answers304_iff (env : StaticEnv) (opts : StaticOpts) (res : Reply) (req : Request)
    (found : FoundFile) (opened : List Bytes) :
    Answers304 (respondFile env opts res req found opened) ↔
      notModified env.dates req found.stat = true := by
  have hsend : ∀ part, ¬ Answers304 (sendFile env opts res req found part opened) := by
    intro part h
    have hstatus := h.2
    rw [sendFile_status] at hstatus
    split at hstatus <;> exact absurd hstatus (by decide)
  unfold respondFile
  split
  · rename_i hmodified
    exact ⟨fun _ => hmodified, fun _ => ⟨rfl, rfl⟩⟩
  · rename_i hmodified
    refine ⟨fun h => ?_, fun h => absurd h hmodified⟩
    split at h
    · exact absurd h (hsend _)
    · exact absurd h (hsend _)
    · exact absurd h.1 Bool.false_ne_true
    · rename_i hchoice
      obtain ⟨body, rfl⟩ := chooseRange_multipart hchoice
      have hstatus : (206 : Int) = 304 := h.2
      exact absurd hstatus (by decide)
    · exact absurd h.1 Bool.false_ne_true

/-- The value fits the buffer, and an asterisk or an element that begins with the ETag stands in it
    only if it matches. -/
def Decisive (v etag : Bytes) : Prop :=
  v ≠ [] ∧ v.length < 256 ∧ (42 ∈ v → NoneMatches v etag) ∧
    ∀ e ∈ listElements v, etag <+: stripWeak e → NoneMatches v etag

/-- A value that fits decides alone. -/
theorem notModified_fits (hnul : 0 ∉ v) (hne : v ≠ []) (hlen : v.length < 256) {req : Request}
    (hv : porticoReqHeader req.headers (ascii "If-None-Match") = some v) (dates : Dates)
    (st : Stat) : notModified dates req st = etagMatches v (fileEtag st) := by
  have hcopy : reqHeaderCopy req "If-None-Match" 256 = some v := by
    simp only [reqHeaderCopy, hv]
    rw [if_neg (by simp [hne, hlen]), cString_eq_self hnul]
  rw [notModified, hcopy]

theorem etagMatches_decisive (h : Decisive v (fileEtag st)) :
    etagMatches v (fileEtag st) = true ↔ NoneMatches v (fileEtag st) := by
  refine ⟨fun hmatch => ?_, etagMatches_of_noneMatches⟩
  obtain ⟨-, -, hstar, hbegin⟩ := h
  obtain hmem | ⟨e, he, hpre⟩ := (etagMatches_iff v st).mp hmatch
  · exact hstar hmem
  · exact hbegin e he hpre

/-- A request with that value, and perhaps a date of the last change. -/
def conditionalHeaders (v : Bytes) (dated : Bool) : List Header :=
  ⟨ascii "If-None-Match", v⟩ :: if dated then [⟨ascii "If-Modified-Since", ascii "x"⟩] else []

/-- Every date is read as the time of the last change, or the epoch if that is earlier. -/
def datesOf (st : Stat) : Dates := ⟨fun _ => [], fun _ => max st.mtimeSec 0⟩

/-- A value that does not fit leaves the decision to the date. -/
theorem notModified_unfit (h : v = [] ∨ 256 ≤ v.length) (st : Stat) (dated : Bool) :
    notModified (datesOf st) (demoRequest "/a" (conditionalHeaders v dated)) st = dated := by
  have hcopy : reqHeaderCopy (demoRequest "/a" (conditionalHeaders v dated)) "If-None-Match" 256 =
      none := by
    have hv : porticoReqHeader (demoRequest "/a" (conditionalHeaders v dated)).headers
        (ascii "If-None-Match") = some v := by
      cases dated <;> rfl
    simp only [reqHeaderCopy, hv]
    rw [if_pos h]
  rw [notModified, hcopy]
  cases dated with
  | false => rfl
  | true =>
    show (decide (max st.mtimeSec 0 ≠ -1) && decide (st.mtimeSec ≤ max st.mtimeSec 0)) = true
    simp
    omega

/-- For every request with that value the answer is 304 just if the value matches the ETag of the
    file. -/
def DecidesAlone (v : Bytes) (st : Stat) : Prop :=
  ∀ env res req opts found opened, findFile env req opts = some (found, opened) →
    found.stat = st → porticoReqHeader req.headers (ascii "If-None-Match") = some v →
    (Answers304 (porticoResStatic env res req opts) ↔ NoneMatches v (fileEtag st))

/-- The requests of the small site are enough to tell. -/
theorem DecidesAlone.demo (h : DecidesAlone v st) (hkind : st.kind = .regular)
    (hsize : st.size ≤ fileMax) (dates : Dates) (dated : Bool) :
    notModified dates (demoRequest "/a" (conditionalHeaders v dated)) st = true ↔
      NoneMatches v (fileEtag st) := by
  have hfound := findFile_demo hkind hsize dates (conditionalHeaders v dated)
  rw [← h _ Reply.empty _ _ _ _ hfound rfl (by cases dated <;> rfl), porticoResStatic_found hfound,
    answers304_iff]
  exact Iff.rfl

theorem DecidesAlone.fits (h : DecidesAlone v st) (hkind : st.kind = .regular)
    (hsize : st.size ≤ fileMax) : v ≠ [] ∧ v.length < 256 := by
  by_contra hno
  have hunfit : v = [] ∨ 256 ≤ v.length := by
    by_cases hnil : v = []
    · exact Or.inl hnil
    · exact Or.inr (Nat.le_of_not_lt fun hlt => hno ⟨hnil, hlt⟩)
  -- two requests that differ in the date only
  have hdated := h.demo hkind hsize (datesOf st) true
  have hplain := h.demo hkind hsize (datesOf st) false
  rw [notModified_unfit hunfit] at hdated hplain
  exact Bool.false_ne_true (hplain.mpr (hdated.mp rfl))

/-- The answer is 304 just for the values that match, for all requests with that value, if and only
    if the value is decisive. -/
theorem none_match_iff (v : Bytes) (hnul : 0 ∉ v) (st : Stat) (hkind : st.kind = .regular)
    (hsize : st.size ≤ fileMax) : DecidesAlone v st ↔ Decisive v (fileEtag st) := by
  refine ⟨fun h => ?_, fun hdec => ?_⟩
  · obtain ⟨hne, hlen⟩ := h.fits hkind hsize
    have hmatch : etagMatches v (fileEtag st) = true → NoneMatches v (fileEtag st) := by
      intro hm
      apply (h.demo hkind hsize noDates false).mp
      rw [notModified_fits hnul hne hlen rfl]
      exact hm
    refine ⟨hne, hlen, fun hstar => ?_, fun e he hpre => ?_⟩
    · exact hmatch ((etagMatches_iff v st).mpr (Or.inl hstar))
    · exact hmatch ((etagMatches_iff v st).mpr (Or.inr ⟨e, he, hpre⟩))
  · intro env res req opts found opened hfound hst hv
    rw [porticoResStatic_found hfound, answers304_iff, hst,
      notModified_fits hnul hdec.1 hdec.2.1 hv, etagMatches_decisive hdec]

/-- A list with a weak tag of the file decides, whatever date the request has. -/
theorem none_match_iff_listed :
    0 ∉ ascii "\"x\" , W/\"0-0-5\"" ∧ DecidesAlone (ascii "\"x\" , W/\"0-0-5\"") demoStat := by
  have hmatch : NoneMatches (ascii "\"x\" , W/\"0-0-5\"") (fileEtag demoStat) := by decide +kernel
  refine ⟨by decide, ?_⟩
  apply (none_match_iff (ascii "\"x\" , W/\"0-0-5\"") (by decide) demoStat rfl (by decide)).mpr
  exact ⟨by decide, by decide, fun _ => hmatch, fun _ _ _ => hmatch⟩

/-- An asterisk inside a tag, a tag that only begins with the ETag, and an empty value next to a
    date: each is answered with 304, and none of them matches. -/
theorem unmatched_not_modified :
    (Answers304 (porticoResStatic demoEnv Reply.empty
        (demoRequest "/a" [⟨ascii "If-None-Match", ascii "\"a*b\""⟩]) (demoOpts false)) ∧
      ¬ NoneMatches (ascii "\"a*b\"") (fileEtag demoStat)) ∧
    (Answers304 (porticoResStatic demoEnv Reply.empty
        (demoRequest "/a" [⟨ascii "If-None-Match", ascii "\"0-0-5\"x"⟩]) (demoOpts false)) ∧
      ¬ NoneMatches (ascii "\"0-0-5\"x") (fileEtag demoStat)) ∧
    (Answers304 (porticoResStatic ⟨demoSite demoStat, datesOf demoStat, true⟩ Reply.empty
        (demoRequest "/a" (conditionalHeaders [] true)) (demoOpts false)) ∧
      ¬ NoneMatches [] (fileEtag demoStat)) := by
  refine ⟨⟨⟨?_, ?_⟩, ?_⟩, ⟨⟨?_, ?_⟩, ?_⟩, ⟨?_, ?_⟩, ?_⟩ <;> decide +kernel

end Portico.Http
