/-
  Which files a static response opens.

  The four places of src/http/connection.c that open a file (the resolved path, the SPA fallback,
  a directory's index and a precompressed sibling) each resolve a path of their own and compare the
  result with the canonical document root. `Opens` says what all of them keep.

  Proved: `static_opens_inside_docroot`: for every request, configuration and file system, the
  canonical path of every file that `portico_res_static` or `portico_res_vhost` opens is the
  canonical document root or continues it at a slash, and the file that is served is one of them.
-/
import Portico.Http.Static

namespace Portico.Http

open Portico.Ws List

/-- The path is the root, or continues it at a slash. -/
def Inside (root path : Bytes) : Prop := path = root ∨ ∃ rest, path = root ++ 47 :: rest

variable {root q r : Bytes} {fs : FileSystem} {opened : List Bytes} {found : FoundFile}

theorem inside_of_within {path : Bytes} (h : within root path = true) : Inside root path := by
  simp only [within, Bool.and_eq_true] at h
  obtain ⟨rest, rfl⟩ := List.isPrefixOf_iff_prefix.mp h.1
  have h2 := h.2
  rw [drop_left] at h2
  cases rest with
  | nil => exact .inl (append_nil root)
  | cons b rest =>
    have hb : b = 47 := by simpa using h2
    exact .inr ⟨rest, by rw [hb]⟩

/-- Opening a canonical path opens the file of that path. -/
theorem open_path {f : File} (hr : fs.realpath q = some r) (hf : fs.open r = .ok f) :
    f.path = r := by
  unfold FileSystem.open at hf
  rw [fs.canonical hr] at hf
  cases hi : fs.inodeAt r with
  | error => simp [hi, Except.map] at hf
  | ok =>
    simp only [hi, Except.map, Except.ok.injEq] at hf
    rw [← hf]

/-- What opening files has to keep: all of them lie inside the root, and the file that is used, if
    any, is one of them. -/
structure Opens (root : Bytes) (used : Option File) (opened : List Bytes) : Prop where
  inside : ∀ p ∈ opened, Inside root p
  used : ∀ f, used = some f → f.path ∈ opened

theorem Opens.nothing (root : Bytes) : Opens root none [] :=
  ⟨fun _ h => absurd h not_mem_nil, fun _ h => nomatch h⟩

/-- A file opened by its canonical path after the test, whether it is then used or not. -/
theorem Opens.one {f : File} {used : Option File} (hr : fs.realpath q = some r)
    (hw : within root r = true) (hf : fs.open r = .ok f) (hu : used = none ∨ used = some f) :
    Opens root used [f.path] := by
  have hin : Inside root f.path := by
    rw [open_path hr hf]
    exact inside_of_within hw
  refine ⟨fun p hp => ?_, fun g hg => ?_⟩
  · rw [mem_singleton.mp hp]
    exact hin
  · rcases hu with hu | hu
    · rw [hu] at hg
      exact nomatch hg
    · rw [hu] at hg
      rw [Option.some.inj hg]
      exact mem_singleton_self _

/-- More files are opened before. -/
theorem Opens.after {used : Option File} {before : List Bytes} (h : Opens root used opened)
    (hb : ∀ p ∈ before, Inside root p) : Opens root used (before ++ opened) := by
  refine ⟨fun p hp => ?_, fun f hf => mem_append_right _ (h.used f hf)⟩
  rcases mem_append.mp hp with hp | hp
  · exact hb p hp
  · exact h.inside p hp

/-- More files are opened and none of them is used. -/
theorem Opens.before {used other : Option File} {more : List Bytes} (h : Opens root used opened)
    (hm : Opens root other more) : Opens root used (opened ++ more) := by
  refine ⟨fun p hp => ?_, fun f hf => mem_append_left _ (h.used f hf)⟩
  rcases mem_append.mp hp with hp | hp
  · exact h.inside p hp
  · exact hm.inside p hp

theorem Opens.unused {used : Option File} (h : Opens root used opened) : Opens root none opened :=
  ⟨h.inside, fun _ hf => nomatch hf⟩

def Found.used : Found → Option File
  | .status _ => none
  | .redirect _ => none
  | .file f _ _ => some f

theorem openRegular_opens (fs : FileSystem) (root path : Bytes) :
    Opens root ((openRegular fs root path).1.map Prod.fst) (openRegular fs root path).2 := by
  unfold openRegular
  split
  · exact Opens.nothing root
  next r hr =>
    split
    · exact Opens.nothing root
    next hw =>
      have hw : within root r = true := by simpa using hw
      split
      · exact Opens.nothing root
      next f hf =>
        split
        · exact Opens.one hr hw hf (.inl rfl)
        · split
          · exact Opens.one hr hw hf (.inr rfl)
          · exact Opens.one hr hw hf (.inl rfl)

theorem openIndex_opens (fs : FileSystem) (opts : StaticOpts) (root dir : Bytes) :
    Opens root (openIndex fs opts root dir).1.used (openIndex fs opts root dir).2 := by
  have hopen := openRegular_opens fs root (dir ++ 47 :: opts.index.getD (ascii "index.html"))
  unfold openIndex
  dsimp only
  split
  · exact Opens.nothing root
  split
  · exact Opens.nothing root
  split
  next heq =>
    rw [heq] at hopen
    exact hopen
  next heq =>
    rw [heq] at hopen
    exact hopen

theorem openResolved_opens (opts : StaticOpts) (req : Request) (hr : fs.realpath q = some r)
    (hw : within root r = true) :
    Opens root (openResolved fs opts req root r).1.used (openResolved fs opts req root r).2 := by
  unfold openResolved
  split
  · exact Opens.nothing root
  · exact Opens.nothing root
  next f hf =>
    have hnone : Opens root none [f.path] := Opens.one hr hw hf (.inl rfl)
    split
    · exact hnone
    split
    · exact Opens.one hr hw hf (.inr rfl)
    · exact hnone
    dsimp only
    split
    · exact hnone
    · exact (openIndex_opens fs opts root r).after hnone.inside

theorem tryPrecompressed_opens (fs : FileSystem) (base suffix root : Bytes) :
    Opens root ((tryPrecompressed fs base suffix root).1.map Prod.fst)
      (tryPrecompressed fs base suffix root).2 := by
  unfold tryPrecompressed
  split
  · exact Opens.nothing root
  · exact openRegular_opens fs root (base ++ suffix)

/-- The siblings add to the files that were opened; one of them may replace the file. -/
theorem trySiblings_opens (fs : FileSystem) {ae : Bytes} (h : Opens root (some found.file) opened)
    (encodings : List (String × String)) :
    Opens root (some (trySiblings fs found root ae encodings).1.file)
      (opened ++ (trySiblings fs found root ae encodings).2) := by
  induction encodings generalizing opened with
  | nil =>
    rw [trySiblings, append_nil]
    exact h
  | cons e encodings ih =>
    obtain ⟨name, suffix⟩ := e
    have hone := tryPrecompressed_opens fs found.resolved (ascii suffix) root
    rw [trySiblings]
    split
    · split
      next heq =>
        rw [heq] at hone
        exact hone.after h.inside
      next heq =>
        rw [heq] at hone
        have := ih (h.before hone)
        rw [append_assoc] at this
        exact this
    · exact ih h

theorem negotiate_opens (fs : FileSystem) (opts : StaticOpts) (req : Request) (found : FoundFile)
    (h : Opens root (some found.file) opened) :
    Opens root (some (negotiate fs opts req found root).1.file)
      (opened ++ (negotiate fs opts req found root).2) := by
  unfold negotiate
  split
  · rw [append_nil]
    exact h
  split
  · rw [append_nil]
    exact h
  · exact trySiblings_opens fs h _

/-- Making the response opens nothing more, and hands over the file it was given or none. -/
theorem respondFile_opens (env : StaticEnv) (opts : StaticOpts) (res : Reply) (req : Request)
    (h : Opens root (some found.file) opened) :
    Opens root (respondFile env opts res req found opened).file
      (respondFile env opts res req found opened).opened := by
  have hsend : ∀ part, Opens root (sendFile env opts res req found part opened).file
      (sendFile env opts res req found part opened).opened := by
    intro part
    unfold sendFile
    dsimp only
    split
    · exact h.unused
    · exact h
  unfold respondFile
  split
  · exact h.unused
  split
  · exact hsend _
  · exact hsend _
  · exact h.unused
  · exact h.unused
  · exact h.unused

theorem serveResolved_opens {env : StaticEnv} (opts : StaticOpts) (res : Reply) (req : Request)
    (hr : env.fs.realpath q = some r) (hw : within root r = true) :
    Opens root (serveResolved env opts res req root r).file
      (serveResolved env opts res req root r).opened := by
  have hopen := openResolved_opens opts req hr hw
  unfold serveResolved
  split
  next heq =>
    rw [heq] at hopen
    exact hopen
  next heq =>
    rw [heq] at hopen
    exact hopen
  next f st r' opened heq =>
    rw [heq] at hopen
    split
    · exact hopen.unused
    · exact respondFile_opens env opts res req
        (negotiate_opens env.fs opts req ⟨f, st, r', none⟩ hopen)

/-- What a path resolves to, also by the fallback, is canonical and inside the root. -/
theorem resolvePath_ok {opts : StaticOpts} {docroot decoded : Bytes} {req : Request}
    (h : resolvePath fs opts docroot req decoded = .ok (root, r)) :
    fs.realpath docroot = some root ∧ (∃ q, fs.realpath q = some r) ∧ within root r = true := by
  unfold resolvePath at h
  dsimp only at h
  split at h
  · exact nomatch h
  split at h
  · exact nomatch h
  next root' hroot =>
    split at h
    · exact nomatch h
    next r' hr =>
      split at h
      · injection h with h
        injection h with h1 h2
        subst h1 h2
        refine ⟨hroot, ?_, by assumption⟩
        rcases Option.or_eq_some_iff.mp hr with hr | ⟨_, hr⟩
        · exact ⟨_, hr⟩
        · unfold spaResolved at hr
          split at hr
          · exact nomatch hr
          · exact nomatch hr
          dsimp only at hr
          split at hr
          · exact ⟨_, hr⟩
          · exact nomatch hr
      · exact nomatch h

theorem porticoResStatic_opens (env : StaticEnv) (res : Reply) (req : Request)
    (opts : StaticOpts) :
    (porticoResStatic env res req opts).opened = [] ∧
        (porticoResStatic env res req opts).file = none ∨
      ∃ docroot root, opts.docroot = some docroot ∧ env.fs.realpath docroot = some root ∧
        Opens root (porticoResStatic env res req opts).file
          (porticoResStatic env res req opts).opened := by
  unfold porticoResStatic
  split
  · exact .inl ⟨rfl, rfl⟩
  next docroot hd =>
    split
    · exact .inl ⟨rfl, rfl⟩
    split
    · exact .inl ⟨rfl, rfl⟩
    next root r hok =>
      obtain ⟨hroot, ⟨q, hr⟩, hw⟩ := resolvePath_ok hok
      exact .inr ⟨docroot, root, hd, hroot, serveResolved_opens opts res req hr hw⟩

/-- Every file that was opened is inside the canonical document root of the configuration, and so
    is the one that is handed over. -/
structure ServesInside (fs : FileSystem) (opts : StaticOpts) (r : StaticResult) : Prop where
  opened : ∀ p ∈ r.opened, ∃ docroot root, opts.docroot = some docroot ∧
    fs.realpath docroot = some root ∧ Inside root p
  file : ∀ f, r.file = some f → f.path ∈ r.opened

theorem porticoResStatic_inside (env : StaticEnv) (res : Reply) (req : Request)
    (opts : StaticOpts) : ServesInside env.fs opts (porticoResStatic env res req opts) := by
  rcases porticoResStatic_opens env res req opts with ⟨ho, hf⟩ | ⟨docroot, root, hd, hroot, h⟩
  · refine ⟨fun p hp => ?_, fun f hf' => ?_⟩
    · rw [ho] at hp
      exact absurd hp not_mem_nil
    · rw [hf] at hf'
      exact nomatch hf'
  · exact ⟨fun p hp => ⟨docroot, root, hd, hroot, h.inside p hp⟩, h.used⟩

theorem selectVhost_mem {vhosts : List Vhost} {host : Bytes} {v : Vhost}
    (h : selectVhost vhosts host = some v) : v ∈ vhosts := by
  rcases Option.or_eq_some_iff.mp h with h | ⟨_, h⟩
  · exact mem_of_find?_eq_some h
  · exact mem_of_find?_eq_some h

theorem static_opens_inside_docroot (env : StaticEnv) (res : Reply) (req : Request) :
    (∀ opts, ServesInside env.fs opts (porticoResStatic env res req opts)) ∧
      (∀ docroot, ∀ p ∈ (porticoResFile env res req docroot).opened, ∃ dir root,
        docroot = some dir ∧ env.fs.realpath dir = some root ∧ Inside root p) ∧
      ∀ vhosts,
        (porticoResVhost env res req vhosts).opened = [] ∧
            (porticoResVhost env res req vhosts).file = none ∨
          ∃ v ∈ vhosts, ServesInside env.fs v.opts (porticoResVhost env res req vhosts) := by
  refine ⟨porticoResStatic_inside env res req, fun docroot p hp => ?_, fun vhosts => ?_⟩
  · exact (porticoResStatic_inside env res req _).opened p hp
  · unfold porticoResVhost
    split
    · exact .inl ⟨rfl, rfl⟩
    next v hv => exact .inr ⟨v, selectVhost_mem hv, porticoResStatic_inside env res req v.opts⟩

/-- A site at `/r`, a link to `/w`, with a file `a`, its brotli sibling, and a link `x` out of the
    site. -/
def linkedSite : FileSystem where
  realpath p :=
    if p = ascii "/r" ∨ p = ascii "/w" then some (ascii "/w")
    else if p = ascii "/r/a" ∨ p = ascii "/w/a" then some (ascii "/w/a")
    else if p = ascii "/w/a.br" then some (ascii "/w/a.br")
    else if p = ascii "/r/x" ∨ p = ascii "/e" then some (ascii "/e")
    else none
  canonical := by
    intro p r h
    split_ifs at h <;> cases h <;> decide +kernel
  inodeAt _ := .ok { fstat := some ⟨.regular, 1, 0, 0⟩, pread := fun _ _ => some [120] }

def linkedSiteEnv : StaticEnv := ⟨linkedSite, ⟨fun _ => [], fun _ => -1⟩, true⟩

def linkedSiteOpts : StaticOpts :=
  { docroot := some (ascii "/r"), urlPrefix := none, index := none, precompressed := true
    cacheControl := none, spaFallback := none, dirRedirect := false }

def linkedRequest (path : String) : Request :=
  { method := ascii "GET", path := ascii path, query := none, minorVersion := 1
    headers := [⟨ascii "Accept-Encoding", ascii "gzip, br"⟩], body := [], keepAlive := true
    clientIp := [] }

/-- The encoded path is decoded and resolved, the file and its sibling are opened; the link out of
    the site is refused. -/
theorem static_opens_inside_docroot_linked :
    (porticoResStatic linkedSiteEnv Reply.empty (linkedRequest "/%61") linkedSiteOpts).opened =
        [ascii "/w/a", ascii "/w/a.br"] ∧
      (porticoResStatic linkedSiteEnv Reply.empty (linkedRequest "/x") linkedSiteOpts).res.status =
        403 ∧
      ServesInside linkedSite linkedSiteOpts
        (porticoResStatic linkedSiteEnv Reply.empty (linkedRequest "/%61") linkedSiteOpts) :=
  ⟨by decide +kernel, by decide +kernel,
    (static_opens_inside_docroot linkedSiteEnv Reply.empty (linkedRequest "/%61")).1 _⟩

end Portico.Http
