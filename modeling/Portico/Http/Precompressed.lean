/-
  Precompressed siblings: which file of src/http/connection.c's `portico_res_static` is sent, and
  whether the response says how it is encoded.

  Model. `FromSibling` says that a found file was opened as `<path><suffix>`; `Carries` that the
  header block has a line. A response starts empty. The date of a file is written to a buffer of
  40 bytes and has no carriage return.

  Proved: `precompressed_labelled`: a found file is the one that the path names, or a sibling in an
  encoding that the table knows. A response with bytes of a sibling, and the response to a HEAD
  request for it, carries the `Content-Encoding` and `Vary` exactly if the request is not for a
  list of ranges that `serve_byteranges` serves.
-/
import Portico.Http.Multipart

namespace Portico.Http

open Portico.Ws List

/-! ## Where a file comes from -/

/-- The encodings, in the order of the server. -/
def siblingSuffixes : List (String × String) := [("br", ".br"), ("gzip", ".gz")]

/-- The file was opened at the path itself. -/
def FromPath (env : StaticEnv) (opts : StaticOpts) (req : Request) (found : FoundFile) : Prop :=
  found.encoding = none ∧ ∃ rootreal resolved,
    (openResolved env.fs opts req rootreal resolved).1 = .file found.file found.stat found.resolved

/-- The file was opened as the sibling with that suffix. -/
def FromSibling (env : StaticEnv) (found : FoundFile) (name suffix : String) : Prop :=
  found.encoding = some name ∧ ∃ rootreal path,
    (tryPrecompressed env.fs found.resolved (ascii suffix) rootreal).1 =
      some (found.file, found.stat, path)

/-- The siblings are tried in order; one that is there replaces the file. -/
theorem trySiblings_cases (env : StaticEnv) (found : FoundFile) (rootreal ae : Bytes)
    (encodings : List (String × String)) :
    (trySiblings env.fs found rootreal ae encodings).1 = found ∨
      ∃ e ∈ encodings,
        FromSibling env (trySiblings env.fs found rootreal ae encodings).1 e.1 e.2 := by
  induction encodings with
  | nil => exact Or.inl rfl
  | cons e encodings ih =>
    obtain ⟨name, suffix⟩ := e
    have hlater : (trySiblings env.fs found rootreal ae encodings).1 = found ∨
        ∃ e ∈ (name, suffix) :: encodings,
          FromSibling env (trySiblings env.fs found rootreal ae encodings).1 e.1 e.2 := by
      obtain hsame | ⟨e, he, hfrom⟩ := ih
      · exact Or.inl hsame
      · exact Or.inr ⟨e, mem_cons_of_mem _ he, hfrom⟩
    rw [trySiblings]
    split
    · split
      · rename_i hopen
        refine Or.inr ⟨(name, suffix), mem_cons_self, rfl, rootreal, ?_⟩
        rw [hopen]
        exact ⟨_, rfl⟩
      · exact hlater
    · exact hlater

theorem negotiate_cases (env : StaticEnv) (opts : StaticOpts) (req : Request) (found : FoundFile)
    (rootreal : Bytes) :
    (negotiate env.fs opts req found rootreal).1 = found ∨
      opts.precompressed = true ∧ ∃ e ∈ siblingSuffixes,
        FromSibling env (negotiate env.fs opts req found rootreal).1 e.1 e.2 := by
  unfold negotiate
  split
  · exact Or.inl rfl
  rename_i hopt
  split
  · exact Or.inl rfl
  · obtain hsame | hsibling := trySiblings_cases env found rootreal _ siblingSuffixes
    · exact Or.inl hsame
    · exact Or.inr ⟨by simpa using hopt, hsibling⟩

variable {env : StaticEnv} {opts : StaticOpts} {found : FoundFile} {res : Reply}
  {name value : String} {st : Stat} {lastmod : Bytes} {req : Request} {lines : List (Bytes × Bytes)}

theorem findFile_cases {opened : List Bytes} (h : findFile env req opts = some (found, opened)) :
    FromPath env opts req found ∨
      opts.precompressed = true ∧ ∃ e ∈ siblingSuffixes, FromSibling env found e.1 e.2 := by
  unfold findFile at h
  split at h
  · cases h
  split at h
  · cases h
  split at h
  · cases h
  rename_i rootreal resolved _
  split at h
  · rename_i file st resolved' opened' hopen
    split at h
    · cases h
    have hneg := negotiate_cases env opts req ⟨file, st, resolved', none⟩ rootreal
    generalize negotiate env.fs opts req ⟨file, st, resolved', none⟩ rootreal = r at h hneg
    obtain ⟨found', siblings⟩ := r
    cases h
    obtain hsame | hsibling := hneg
    · cases hsame
      exact Or.inl ⟨rfl, rootreal, resolved, by rw [hopen]⟩
    · exact Or.inr hsibling
  · cases h

/-! ## The header block -/

/-- The block has the line, at the beginning or behind the end of another. -/
def Carries (res : Reply) (name value : String) : Prop :=
  ∃ before after, res.headers = before ++ lineOf (ascii name, ascii value) ++ after ∧
    (before = [] ∨ crlf <:+ before)

/-- Several calls of `portico_res_header`. -/
def addHeaders (res : Reply) (lines : List (Bytes × Bytes)) : Reply :=
  lines.foldl (fun res h => porticoResHeader res h.1 h.2) res

theorem porticoResHeader_fits {h : Bytes × Bytes}
    (hfits : res.headers.length + (lineOf h).length < resHeadersCap) :
    (porticoResHeader res h.1 h.2).headers = res.headers ++ lineOf h := by
  show (if (lineOf h).length < resHeadersCap - res.headers.length then res.headers ++ lineOf h
    else res.headers) = _
  rw [if_pos (by omega)]

/-- Lines that all fit stand in the block one behind the other. -/
theorem addHeaders_fits :
    ∀ {res : Reply}, res.headers.length + (lines.map lineOf).flatten.length < resHeadersCap →
      (addHeaders res lines).headers = res.headers ++ (lines.map lineOf).flatten := by
  induction lines with
  | nil =>
    intro res _
    exact (append_nil _).symm
  | cons h lines ih =>
    intro res hfits
    simp only [map_cons, flatten_cons, length_append] at hfits
    have hone := @porticoResHeader_fits res h (by omega)
    show (addHeaders (porticoResHeader res h.1 h.2) lines).headers = _
    rw [ih (by rw [hone, length_append]; omega), hone, map_cons, flatten_cons,
      append_assoc]

theorem crlf_suffix_lines (lines : List (Bytes × Bytes)) :
    (lines.map lineOf).flatten = [] ∨ crlf <:+ (lines.map lineOf).flatten := by
  induction lines using List.reverseRecOn with
  | nil => exact Or.inl rfl
  | append_singleton lines h =>
    refine Or.inr ⟨(lines.map lineOf).flatten ++ (h.1 ++ ascii ": " ++ h.2), ?_⟩
    simp [lineOf]

theorem carries_of_mem (hmem : (ascii name, ascii value) ∈ lines)
    (hfits : (lines.map lineOf).flatten.length < resHeadersCap) :
    Carries (addHeaders Reply.empty lines) name value := by
  have hheaders : (addHeaders Reply.empty lines).headers = (lines.map lineOf).flatten :=
    addHeaders_fits (by simpa [Reply.empty] using hfits)
  obtain ⟨l1, l2, rfl⟩ := append_of_mem hmem
  refine ⟨(l1.map lineOf).flatten, (l2.map lineOf).flatten, ?_, crlf_suffix_lines l1⟩
  rw [hheaders]
  simp

/-- More headers are added behind a line. -/
theorem Carries.porticoResHeader (h : Carries res name value) (n v : Bytes) :
    Carries (porticoResHeader res n v) name value := by
  obtain ⟨before, after, heq, hbefore⟩ := h
  show Carries { res with
    headers := if _ then res.headers ++ _ else res.headers, contentTypeSet := _ } name value
  split
  · exact ⟨before, after ++ (n ++ ascii ": " ++ v ++ crlf), by simp [heq], hbefore⟩
  · exact ⟨before, after, heq, hbefore⟩

theorem Carries.resHeaderOpt (h : Carries res name value) (n : String) (v : Option Bytes) :
    Carries (resHeaderOpt res n v) name value := by
  cases v with
  | none => exact h
  | some v => exact h.porticoResHeader (ascii n) v

theorem contentTypeFor_length_le (path : Bytes) : (contentTypeFor path).length ≤ 30 := by
  have hdefault : (ascii "application/octet-stream").length ≤ 30 := by decide
  have htable : ∀ m ∈ contentTypes, (ascii m.2).length ≤ 30 := by decide +kernel
  unfold contentTypeFor
  split
  · exact hdefault
  dsimp only
  split
  · rename_i m hfind
    exact htable m (mem_of_find?_eq_some hfind)
  · exact hdefault

/-- The lines of a response with a sibling, but for `Cache-Control` and `Content-Range`. -/
def siblingLines (env : StaticEnv) (found : FoundFile) (name : String) : List (Bytes × Bytes) :=
  [(ascii "Content-Type", contentTypeFor found.resolved), (ascii "Accept-Ranges", ascii "bytes"),
    (ascii "ETag", fileEtag found.stat),
    (ascii "Last-Modified", env.dates.httpDate found.stat.mtimeSec),
    (ascii "Content-Encoding", ascii name), (ascii "Vary", ascii "Accept-Encoding")]

theorem siblingLines_fit (hname : (ascii name).length ≤ 4) (hstat : found.stat.InRange)
    (hdate : ∀ t, (env.dates.httpDate t).length < 40) :
    ((siblingLines env found name).map lineOf).flatten.length < resHeadersCap := by
  have h1 := contentTypeFor_length_le found.resolved
  have h2 := fileEtag_length_le hstat
  have h3 := hdate found.stat.mtimeSec
  have hfix : (ascii "Content-Type").length = 12 ∧ (ascii "Accept-Ranges").length = 13 ∧
    (ascii "bytes").length = 5 ∧ (ascii "ETag").length = 4 ∧ (ascii "Last-Modified").length = 13 ∧
    (ascii "Content-Encoding").length = 16 ∧ (ascii "Vary").length = 4 ∧
    (ascii "Accept-Encoding").length = 15 ∧ (ascii ": ").length = 2 ∧ crlf.length = 2 := by decide
  simp only [siblingLines, lineOf, map_cons, map_nil, flatten_cons, flatten_nil,
    length_append, length_nil, resHeadersCap]
  omega

theorem fileHeaders_sibling (hopt : opts.precompressed = true) (henc : found.encoding = some name) :
    fileHeaders env opts Reply.empty found =
      resHeaderOpt (addHeaders Reply.empty (siblingLines env found name)) "Cache-Control"
        opts.cacheControl := by
  simp only [fileHeaders, henc, hopt, if_true]
  rfl

/-- The file, a part of it and the answer to HEAD have the headers of the file. -/
theorem sendFile_carries (h : Carries (fileHeaders env opts Reply.empty found) name value)
    (part : Option (Int × Int)) (opened : List Bytes) :
    Carries (sendFile env opts Reply.empty req found part opened).res name value := by
  unfold sendFile
  cases part with
  | none =>
    dsimp only
    split <;> exact h
  | some =>
    dsimp only
    split <;> exact h.porticoResHeader _ _

/-! ## A block without a line -/

/-- A line without its end. -/
def lineText (h : Bytes × Bytes) : Bytes := h.1 ++ ascii ": " ++ h.2

theorem splitOnP_line {text : Bytes} (h : 13 ∉ text) (after : Bytes) :
    (10 :: text ++ 13 :: after).splitOnP (· == 13) =
      (10 :: text) :: after.splitOnP (· == 13) := by
  have htext : (10 :: text).splitOnP (· == 13) = [10 :: text] := by
    apply splitOnP_eq_singleton
    intro b hb
    exact beq_eq_false_iff_ne.mpr (ne_of_mem_of_not_mem hb (by simpa using h))
  rw [splitOnP_append_cons _ _ rfl, htext, singleton_append]

/-- Between the carriage returns of a block stand its lines, each behind a line feed. -/
theorem splitOnP_lines (h : ∀ l ∈ lines, 13 ∉ lineText l) :
    (10 :: (lines.map lineOf).flatten).splitOnP (· == 13) =
      (lines.map fun l => 10 :: lineText l) ++ [[10]] := by
  induction lines with
  | nil => decide
  | cons l lines ih =>
    obtain ⟨hline, hlines⟩ := forall_mem_cons.mp h
    have hblock : 10 :: ((l :: lines).map lineOf).flatten =
        10 :: lineText l ++ 13 :: (10 :: (lines.map lineOf).flatten) := by
      simp [lineOf, lineText, crlf]
    rw [hblock, splitOnP_line hline, ih hlines]
    rfl

theorem Carries.mem_splitOnP (h : Carries res name value)
    (hcr : 13 ∉ lineText (ascii name, ascii value)) :
    10 :: lineText (ascii name, ascii value) ∈ (10 :: res.headers).splitOnP (· == 13) := by
  obtain ⟨before, after, hheaders, hbefore⟩ := h
  have hline : lineOf (ascii name, ascii value) ++ after =
      lineText (ascii name, ascii value) ++ 13 :: (10 :: after) := by
    simp [lineOf, lineText, crlf]
  rw [hheaders, append_assoc, hline]
  obtain rfl | ⟨before, rfl⟩ := hbefore
  · rw [nil_append, ← cons_append, splitOnP_line hcr]
    exact mem_cons_self
  · have hblock : 10 :: (before ++ crlf ++
        (lineText (ascii name, ascii value) ++ 13 :: (10 :: after))) =
        (10 :: before) ++ 13 :: (10 :: lineText (ascii name, ascii value) ++
          13 :: (10 :: after)) := by
      simp [crlf]
    rw [hblock, splitOnP_append_cons _ _ rfl, splitOnP_line hcr]
    exact mem_append_right _ mem_cons_self

/-- A block carries no line with another name. -/
theorem not_carries (hheaders : res.headers = (lines.map lineOf).flatten)
    (hlines : ∀ l ∈ lines, 13 ∉ lineText l) (hcr : 13 ∉ lineText (ascii name, ascii value))
    (hnames : ∀ l ∈ lines, ¬ l.1 <+: ascii name ∧ ¬ ascii name <+: l.1) :
    ¬ Carries res name value := by
  intro h
  have hmem := h.mem_splitOnP hcr
  rw [hheaders, splitOnP_lines hlines] at hmem
  obtain hmem | hmem := mem_append.mp hmem
  · obtain ⟨l, hl, heq⟩ := mem_map.mp hmem
    rw [cons_inj_right, lineText, lineText, append_assoc, append_assoc] at heq
    obtain hbad | hbad := prefix_or_prefix_of_prefix (prefix_append l.1 (ascii ": " ++ l.2))
      (heq ▸ prefix_append (ascii name) (ascii ": " ++ ascii value))
    · exact (hnames l hl).1 hbad
    · exact (hnames l hl).2 hbad
  · simp [lineText, show ascii ": " = [58, 32] by decide] at hmem

/-- The lines of a multipart response. -/
def multipartLines (st : Stat) (lastmod : Bytes) : List (Bytes × Bytes) :=
  [(ascii "Content-Type",
      (ascii "multipart/byteranges; boundary=" ++ boundaryOf (fileEtag st)).take 159),
    (ascii "Accept-Ranges", ascii "bytes"), (ascii "ETag", fileEtag st),
    (ascii "Last-Modified", lastmod)]

theorem multipartHeaders_lines (hst : st.InRange) (hlength : lastmod.length < 40) :
    (multipartHeaders Reply.empty (fileEtag st) lastmod).headers =
      ((multipartLines st lastmod).map lineOf).flatten := by
  have hetag := fileEtag_length_le hst
  have hfix : (ascii "Content-Type").length = 12 ∧ (ascii "Accept-Ranges").length = 13 ∧
    (ascii "bytes").length = 5 ∧ (ascii "ETag").length = 4 ∧
    (ascii "Last-Modified").length = 13 ∧ (ascii ": ").length = 2 ∧ crlf.length = 2 := by decide
  have hfit : Reply.empty.headers.length + ((multipartLines st lastmod).map lineOf).flatten.length <
      resHeadersCap := by
    simp only [multipartLines, lineOf, map_cons, map_nil, flatten_cons, flatten_nil,
      length_append, length_nil, resHeadersCap, length_take, Reply.empty]
    omega
  have hlines : multipartHeaders Reply.empty (fileEtag st) lastmod =
      addHeaders Reply.empty (multipartLines st lastmod) := rfl
  rw [hlines, addHeaders_fits hfit]
  rfl

theorem multipartLines_cr (hst : st.InRange) (hlastmod : 13 ∉ lastmod) :
    ∀ l ∈ multipartLines st lastmod, 13 ∉ lineText l := by
  have hetag : 13 ∉ etagText st := not_mem_etagText (by decide) (by decide)
  have hfix : 13 ∉ ascii "Content-Type" ∧ 13 ∉ ascii "multipart/byteranges; boundary=" ∧
    13 ∉ ascii "PORTICO_BYTERANGE_" ∧ 13 ∉ ascii "Accept-Ranges" ∧ 13 ∉ ascii "bytes" ∧
    13 ∉ ascii "ETag" ∧ 13 ∉ ascii "Last-Modified" ∧ 13 ∉ ascii ": " := by decide
  have htype : 13 ∉
      (ascii "multipart/byteranges; boundary=" ++ boundaryOf (fileEtag st)).take 159 := by
    intro h
    have hmem := mem_of_mem_take h
    rw [boundaryOf_fileEtag hst] at hmem
    simp [hfix, hetag] at hmem
  have hquoted : 13 ∉ fileEtag st := by simp [fileEtag_eq, hetag]
  simp [multipartLines, lineText, hfix, htype, hquoted, hlastmod]

theorem multipart_not_carries (hst : st.InRange) (hlength : lastmod.length < 40)
    (hlastmod : 13 ∉ lastmod) (hcr : 13 ∉ lineText (ascii name, ascii value))
    (hname : name = "Content-Encoding" ∨ name = "Vary") :
    ¬ Carries (multipartHeaders Reply.empty (fileEtag st) lastmod) name value := by
  refine not_carries (multipartHeaders_lines hst hlength) (multipartLines_cr hst hlastmod) hcr ?_
  simp only [multipartLines, forall_mem_cons]
  obtain rfl | rfl := hname <;> decide

/-! ## The response -/

/-- A response with bytes of the found file, or the response to a HEAD request for it. -/
def SendsBytes (answer : StaticResult) : Prop :=
  answer.res.isFile = true ∨ answer.res.headOnly = true ∨ answer.res.status = 206

/-- The request is no HEAD and has a list of ranges that is honoured, and `serve_byteranges`
    makes a body for it. -/
structure ServesList (env : StaticEnv) (req : Request) (found : FoundFile) (hdr : Bytes) :
    Prop where
  range : reqHeaderCopy req "Range" 256 = some hdr
  honored : honorsRange env.dates req found.stat = true
  notHead : porticoReqMethodIs req (ascii "HEAD") = false
  list : 44 ∈ hdr
  served : ∃ res, serveByteranges env.allocOk Reply.empty found.file hdr found.stat.size
    (contentTypeFor found.resolved) (fileEtag found.stat)
    (env.dates.httpDate found.stat.mtimeSec) = .served res

theorem chooseRange_multipart_iff :
    (∃ res, chooseRange env Reply.empty req found = .multipart res) ↔
      ∃ hdr, ServesList env req found hdr := by
  constructor
  · rintro ⟨res, h⟩
    unfold chooseRange at h
    split at h
    · cases h
    rename_i hdr hcopy
    split at h
    · cases h
    rename_i hhonored
    split at h
    · rename_i hlist
      rw [Bool.and_eq_true, Bool.not_eq_true', contains_iff_mem] at hlist
      split at h
      · exact ⟨hdr, hcopy, by simpa using hhonored, hlist.1, hlist.2, _, ‹_›⟩
      · cases h
      · cases h
      · cases h
    · split at h
      · cases h
      · cases h
      · cases h
  · rintro ⟨hdr, h⟩
    obtain ⟨res, hserved⟩ := h.served
    exact ⟨res, by simp [chooseRange, h.range, h.honored, h.notHead, h.list, hserved]⟩

/-- What the branches of `respondFile` send. -/
theorem respondFile_carries_iff (req : Request) (opened : List Bytes)
    (hline : Carries (fileHeaders env opts Reply.empty found) name value)
    (hmultipart : ¬ Carries (multipartHeaders Reply.empty (fileEtag found.stat)
      (env.dates.httpDate found.stat.mtimeSec)) name value)
    (hsends : SendsBytes (respondFile env opts Reply.empty req found opened)) :
    Carries (respondFile env opts Reply.empty req found opened).res name value ↔
      ¬ ∃ hdr, ServesList env req found hdr := by
  rw [← chooseRange_multipart_iff]
  unfold respondFile at hsends ⊢
  split at hsends
  · have hhead : ∀ res : Reply, res.headOnly = false →
        (resHeaderOpt res "Cache-Control" opts.cacheControl).headOnly = false := by
      intro res h
      cases opts.cacheControl with
      | none => exact h
      | some => exact h
    obtain h | h | h := hsends
    · cases h
    · exact absurd ((hhead _ rfl).symm.trans h) Bool.false_ne_true
    · cases h
  rename_i hchanged
  rw [if_neg hchanged]
  split at hsends
  · rename_i hchoice
    simp [hchoice, sendFile_carries hline]
  · rename_i hchoice
    simp [hchoice, sendFile_carries hline]
  · obtain h | h | h := hsends <;> cases h
  · rename_i hchoice
    obtain ⟨body, rfl⟩ := chooseRange_multipart hchoice
    rw [hchoice]
    refine iff_of_false ?_ (by simp)
    generalize multipartHeaders Reply.empty _ _ = res at hmultipart
    exact hmultipart
  · obtain h | h | h := hsends <;> cases h

/-- Every found file is the one of the path or a sibling with one of the suffixes. A response with
    bytes of a sibling has its `Content-Encoding`, and `Vary`, exactly if the request is not for a
    list of ranges that is served. -/
theorem precompressed_labelled (env : StaticEnv) (req : Request) (opts : StaticOpts)
    (found : FoundFile) (opened : List Bytes)
    (hfound : findFile env req opts = some (found, opened)) (hstat : found.stat.InRange)
    (hdate : ∀ t, (env.dates.httpDate t).length < 40 ∧ 13 ∉ env.dates.httpDate t) :
    (FromPath env opts req found ∨ ∃ e ∈ siblingSuffixes, FromSibling env found e.1 e.2) ∧
      ∀ e ∈ siblingSuffixes, FromSibling env found e.1 e.2 →
        SendsBytes (porticoResStatic env Reply.empty req opts) →
        (Carries (porticoResStatic env Reply.empty req opts).res "Content-Encoding" e.1 ↔
          ¬ ∃ hdr, ServesList env req found hdr) ∧
        (Carries (porticoResStatic env Reply.empty req opts).res "Vary" "Accept-Encoding" ↔
          ¬ ∃ hdr, ServesList env req found hdr) := by
  have hcases := findFile_cases hfound
  refine ⟨hcases.imp_right And.right, ?_⟩
  intro e he hfrom hsends
  have hopt : opts.precompressed = true := by
    obtain hpath | hsibling := hcases
    · exact absurd (hpath.1.symm.trans hfrom.1) (by simp)
    · exact hsibling.1
  have hname : (ascii e.1).length ≤ 4 :=
    (by decide : ∀ e ∈ siblingSuffixes, (ascii e.1).length ≤ 4) e he
  have hline : ∀ {name value}, (ascii name, ascii value) ∈ siblingLines env found e.1 →
      Carries (fileHeaders env opts Reply.empty found) name value := by
    intro name value hmem
    rw [fileHeaders_sibling hopt hfrom.1]
    exact (carries_of_mem hmem (siblingLines_fit hname hstat fun t => (hdate t).1)).resHeaderOpt _ _
  have hdate := hdate found.stat.mtimeSec
  rw [porticoResStatic_found hfound] at hsends ⊢
  refine ⟨respondFile_carries_iff req opened (hline (by simp [siblingLines])) ?_ hsends,
    respondFile_carries_iff req opened (hline (by simp [siblingLines])) ?_ hsends⟩
  · refine multipart_not_carries hstat hdate.1 hdate.2 ?_ (.inl rfl)
    exact (by decide : ∀ e ∈ siblingSuffixes,
      13 ∉ lineText (ascii "Content-Encoding", ascii e.1)) e he
  · exact multipart_not_carries hstat hdate.1 hdate.2 (by decide) (.inr rfl)

/-- The brotli sibling of `/a`. -/
def demoSibling : FoundFile :=
  { file := { path := ascii "/w/a.br", inode := demoInode demoStat }, stat := demoStat
    resolved := ascii "/w/a", encoding := some "br" }

def brotliRequest (headers : List Header) : Request :=
  demoRequest "/a" (⟨ascii "Accept-Encoding", ascii "gzip, br"⟩ :: headers)

theorem findFile_sibling (headers : List Header) :
    findFile demoEnv (brotliRequest headers) (demoOpts true) =
      some (demoSibling, [ascii "/w/a", ascii "/w/a.br"]) := by
  have hdecoded : decodedPath (demoOpts true) (brotliRequest headers).path =
      .ok (ascii "/a") := rfl
  have hresolved : resolvePath demoEnv.fs (demoOpts true) (ascii "/w") (brotliRequest headers)
      (ascii "/a") = .ok (ascii "/w", ascii "/w/a") := rfl
  have hopened : openResolved demoEnv.fs (demoOpts true) (brotliRequest headers) (ascii "/w")
      (ascii "/w/a") =
      (.file ⟨ascii "/w/a", demoInode demoStat⟩ demoStat (ascii "/w/a"), [ascii "/w/a"]) := rfl
  have hcopy : reqHeaderCopy (brotliRequest headers) "Accept-Encoding" 256 =
      some (ascii "gzip, br") := rfl
  have haccepts : acceptsEncoding (ascii "gzip, br") (ascii "br") = true := by decide +kernel
  have hsibling : tryPrecompressed demoEnv.fs (ascii "/w/a") (ascii ".br") (ascii "/w") =
      (some (⟨ascii "/w/a.br", demoInode demoStat⟩, demoStat, ascii "/w/a.br"),
        [ascii "/w/a.br"]) := rfl
  have hsize : ¬ fileMax < demoStat.size := by decide
  have hnegotiate : negotiate demoEnv.fs (demoOpts true) (brotliRequest headers)
      ⟨⟨ascii "/w/a", demoInode demoStat⟩, demoStat, ascii "/w/a", none⟩ (ascii "/w") =
      (demoSibling, [ascii "/w/a.br"]) := by
    simp only [negotiate, hcopy, trySiblings, haccepts, hsibling]
    rfl
  have hdocroot : (demoOpts true).docroot = some (ascii "/w") := rfl
  simp only [findFile, hdocroot, hdecoded, hresolved, hopened, hnegotiate, hsize, if_false]
  rfl

theorem demoSibling_from : FromSibling demoEnv demoSibling "br" ".br" :=
  ⟨rfl, ascii "/w", ascii "/w/a.br", rfl⟩

theorem precompressed_labelled_part :
    (porticoResStatic demoEnv Reply.empty (brotliRequest [⟨ascii "Range", ascii "bytes=0-1"⟩])
        (demoOpts true)).res.status = 206 ∧
      Carries (porticoResStatic demoEnv Reply.empty
        (brotliRequest [⟨ascii "Range", ascii "bytes=0-1"⟩]) (demoOpts true)).res
        "Content-Encoding" "br" := by
  obtain ⟨-, hall⟩ := precompressed_labelled demoEnv
    (brotliRequest [⟨ascii "Range", ascii "bytes=0-1"⟩]) (demoOpts true) demoSibling
    [ascii "/w/a", ascii "/w/a.br"] (findFile_sibling _) ⟨by decide, by decide⟩
    (fun _ => ⟨Nat.zero_lt_succ _, not_mem_nil⟩)
  have hone : ¬ ∃ hdr, ServesList demoEnv
      (brotliRequest [⟨ascii "Range", ascii "bytes=0-1"⟩]) demoSibling hdr := by
    rintro ⟨hdr, h⟩
    obtain rfl : ascii "bytes=0-1" = hdr := Option.some.inj h.range
    exact absurd h.list (by decide)
  exact ⟨by decide +kernel,
    (hall ("br", ".br") (by decide) demoSibling_from (.inl (by decide +kernel))).1.mpr hone⟩

/-- Two ranges of the sibling: the response does not say that they are compressed. -/
theorem multipart_sibling_unlabelled :
    findFile demoEnv (brotliRequest [⟨ascii "Range", ascii "bytes=0-1,3-4"⟩]) (demoOpts true) =
        some (demoSibling, [ascii "/w/a", ascii "/w/a.br"]) ∧
      (porticoResStatic demoEnv Reply.empty
        (brotliRequest [⟨ascii "Range", ascii "bytes=0-1,3-4"⟩]) (demoOpts true)).res.status = 206 ∧
      ¬ ascii "Content-Encoding" <:+: (porticoResStatic demoEnv Reply.empty
        (brotliRequest [⟨ascii "Range", ascii "bytes=0-1,3-4"⟩]) (demoOpts true)).res.headers ∧
      ¬ ascii "Vary" <:+: (porticoResStatic demoEnv Reply.empty
        (brotliRequest [⟨ascii "Range", ascii "bytes=0-1,3-4"⟩]) (demoOpts true)).res.headers :=
  ⟨findFile_sibling _, by decide +kernel, by decide +kernel, by decide +kernel⟩

end Portico.Http
