/-
  What the answers of `portico_res_static` (src/http/connection.c) have in common.

  Model. `findFile` follows `portico_res_static` up to the file it is going to answer with, a
  precompressed sibling included; `respondFile` of Portico.Http.Static is the rest. Statistics of a
  file are of their C types (`Stat.InRange`).

  Proved: a request for which a file is found is answered by `respondFile`
  (`porticoResStatic_found`); the ETag of a file is hexadecimal digits and dashes between two
  quotes, and fits the buffers it is written to (`fileEtag_eq`, `fileEtag_length_le`).
-/
import Mathlib.Algebra.Group.Nat.Defs
import Mathlib.Data.List.TakeWhile
import Portico.Http.Builders
import Portico.Http.Static

namespace Portico.Http

open Portico.Ws List

/-! ## The file -/

theorem cString_eq_self {v : Bytes} (h : 0 ∉ v) : cString v = v := by
  rw [cString, takeWhile_eq_self_iff]
  intro b hb
  simpa using ne_of_mem_of_not_mem hb h

/-- The file that the request is answered with, and what was opened to find it. -/
def findFile (env : StaticEnv) (req : Request) (opts : StaticOpts) :
    Option (FoundFile × List Bytes) :=
  match opts.docroot with
  | none => none
  | some docroot =>
    match decodedPath opts req.path with
    | .error _ => none
    | .ok decoded =>
      match resolvePath env.fs opts docroot req decoded with
      | .error _ => none
      | .ok (rootreal, resolved) =>
        match openResolved env.fs opts req rootreal resolved with
        | (.file file st resolved, opened) =>
          if fileMax < st.size then none
          else
            match negotiate env.fs opts req ⟨file, st, resolved, none⟩ rootreal with
            | (found, siblings) => some (found, opened ++ siblings)
        | _ => none

variable {env : StaticEnv} {req : Request} {found : FoundFile} {res res' : Reply} {st : Stat}

/-- Once a file is found, the answer is made from it. -/
theorem porticoResStatic_found {opts : StaticOpts} {opened : List Bytes}
    (h : findFile env req opts = some (found, opened)) (res : Reply) :
    porticoResStatic env res req opts = respondFile env opts res req found opened := by
  unfold findFile at h
  split at h
  · cases h
  rename_i docroot hdocroot
  split at h
  · cases h
  rename_i decoded hdecoded
  split at h
  · cases h
  rename_i rootreal resolved hresolved
  have hserve : porticoResStatic env res req opts =
      serveResolved env opts res req rootreal resolved := by
    unfold porticoResStatic
    simp only [hdocroot, hdecoded, hresolved]
  rw [hserve]
  split at h
  · rename_i file st resolved' opened' hopened
    unfold serveResolved
    simp only [hopened]
    split at h
    · cases h
    · rename_i hmax
      rw [if_neg hmax]
      cases h
      rfl
  · cases h

/-- The status of an answer with the file or a part of it. -/
theorem sendFile_status (env : StaticEnv) (opts : StaticOpts) (res : Reply) (req : Request)
    (found : FoundFile) (part : Option (Int × Int)) (opened : List Bytes) :
    (sendFile env opts res req found part opened).res.status =
      if part.isSome then 206 else 200 := by
  unfold sendFile
  cases part with
  | none | some =>
    dsimp only
    split <;> rfl

/-- The header lines that `serve_byteranges` adds. -/
def multipartHeaders (res : Reply) (etag lastmod : Bytes) : Reply :=
  let cthdr := (ascii "multipart/byteranges; boundary=" ++ boundaryOf etag).take 159
  let res := porticoResHeader res (ascii "Content-Type") cthdr
  let res := porticoResHeader res (ascii "Accept-Ranges") (ascii "bytes")
  let res := porticoResHeader res (ascii "ETag") etag
  porticoResHeader res (ascii "Last-Modified") lastmod

/-- What `serve_byteranges` returns 0 with, but for the body. -/
theorem serveByteranges_served {allocOk : Bool} {file : File} {rangehdr : Bytes} {total : Int}
    {ctype etag lastmod : Bytes}
    (h : serveByteranges allocOk res file rangehdr total ctype etag lastmod = .served res') :
    ∃ body, res' =
      { multipartHeaders res etag lastmod with status := 206, body := body, isFile := false } := by
  unfold serveByteranges at h
  split at h
  · cases h
  split at h
  · cases h
  split at h
  · cases h
  · cases h
  · cases h
  dsimp only at h
  split at h
  · cases h
  split at h
  · cases h
  split at h
  · cases h
  · cases h
  · cases h
    exact ⟨_, rfl⟩

theorem chooseRange_served (h : chooseRange env res req found = .multipart res') :
    ∃ hdr, reqHeaderCopy req "Range" 256 = some hdr ∧
      serveByteranges env.allocOk res found.file hdr found.stat.size (contentTypeFor found.resolved)
        (fileEtag found.stat) (env.dates.httpDate found.stat.mtimeSec) = .served res' := by
  unfold chooseRange at h
  split at h
  · cases h
  rename_i hdr hcopy
  split at h
  · cases h
  split at h
  · split at h
    · rename_i hserved
      cases h
      exact ⟨hdr, hcopy, hserved⟩
    · cases h
    · cases h
    · cases h
  · split at h
    · cases h
    · cases h
    · cases h

theorem chooseRange_multipart (h : chooseRange env res req found = .multipart res') :
    ∃ body, res' =
      { multipartHeaders res (fileEtag found.stat) (env.dates.httpDate found.stat.mtimeSec) with
        status := 206, body := body, isFile := false } := by
  obtain ⟨hdr, -, hserved⟩ := chooseRange_served h
  exact serveByteranges_served hserved

theorem chooseRange_part {s l : Int} (h : chooseRange env res req found = .part s l) :
    ∃ hdr, parseRange hdr found.stat.size = .range s l := by
  unfold chooseRange at h
  split at h
  · cases h
  rename_i hdr _
  split at h
  · cases h
  split at h
  · split at h
    · cases h
    · cases h
    · cases h
    · cases h
  · split at h
    · rename_i hrange
      cases h
      exact ⟨hdr, hrange⟩
    · cases h
    · cases h

/-! ## ETags -/

/-- What the C types of `struct stat` hold. -/
structure Stat.InRange (st : Stat) : Prop where
  size : st.size < 2 ^ 63
  nsec : st.mtimeNsec < 2 ^ 63

/-- The text between the quotes. -/
def etagText (st : Stat) : Bytes :=
  hexadecimal (st.mtimeSec % 2 ^ 64).toNat ++ [45] ++ hexadecimal st.mtimeNsec ++ [45] ++
    hexadecimal st.size

theorem fileEtag_eq (st : Stat) : fileEtag st = 34 :: (etagText st ++ [34]) := by
  simp [fileEtag, etagText]

theorem hexadecimal_digits (n : Nat) :
    ∀ b ∈ hexadecimal n, ∃ d < 16, b = UInt8.ofNat (Nat.digitChar d).toNat := by
  induction n using Nat.strongRecOn with
  | ind n ih =>
    by_cases hn : n < 16
    · rw [hexadecimal, Nat.toDigits_of_lt_base hn, map_singleton]
      intro b hb
      exact ⟨n, hn, mem_singleton.mp hb⟩
    · rw [hexadecimal, Nat.toDigits_of_base_le (by decide) (by omega), map_append]
      intro b hb
      obtain hb | hb := mem_append.mp hb
      · exact ih (n / 16) (by omega) b hb
      · exact ⟨n % 16, by omega, mem_singleton.mp hb⟩

/-- A byte that is neither a dash nor a hexadecimal digit does not stand between the quotes. -/
theorem not_mem_etagText {b : UInt8} (hdash : b ≠ 45)
    (hdigit : ∀ d < 16, b ≠ UInt8.ofNat (Nat.digitChar d).toNat) : b ∉ etagText st := by
  have hnone : ∀ n, b ∉ hexadecimal n := by
    intro n hb
    obtain ⟨d, hd, heq⟩ := hexadecimal_digits n b hb
    exact hdigit d hd heq
  simp [etagText, hnone, hdash]

theorem hexadecimal_length_le {n : Nat} (h : n < 2 ^ 64) : (hexadecimal n).length ≤ 16 := by
  rw [hexadecimal, length_map]
  exact Nat.toDigits_length 16 n 16 (by decide) (by omega)

theorem etagText_length_le (h : st.InRange) : (etagText st).length ≤ 50 := by
  have h1 : (hexadecimal (st.mtimeSec % 2 ^ 64).toNat).length ≤ 16 :=
    hexadecimal_length_le (by omega)
  have h2 : (hexadecimal st.mtimeNsec).length ≤ 16 :=
    hexadecimal_length_le (by have := h.nsec; omega)
  have h3 : (hexadecimal st.size).length ≤ 16 :=
    hexadecimal_length_le (by have := h.size; omega)
  simp only [etagText, length_append, length_singleton]
  omega

theorem fileEtag_length_le (h : st.InRange) : (fileEtag st).length ≤ 52 := by
  have := etagText_length_le h
  rw [fileEtag_eq, length_cons, length_append, length_singleton]
  omega

/-! ## A small site -/

/-- A path without repeated and trailing slashes. -/
def collapsed (path : Bytes) : Bytes :=
  ((path.splitOnP (· == 47)).filter (· ≠ [])).flatMap (47 :: ·)

/-- A file with its brotli sibling, and a directory. -/
def demoPaths : List Bytes := [ascii "/w", ascii "/w/a", ascii "/w/a.br", ascii "/w/sub"]

/-- An open file of the site, with the statistics it is to have. -/
def demoInode (st : Stat) : Inode :=
  { fstat := some st, pread := fun len off => some (((ascii "abcde").drop off).take len) }

def demoSite (st : Stat) : FileSystem where
  realpath p := if demoPaths.contains (collapsed p) then some (collapsed p) else none
  canonical := by
    intro p r h
    have hall : ∀ r ∈ demoPaths, collapsed r = r := by decide +kernel
    split at h
    · rename_i hmem
      cases h
      rw [hall _ (by simpa using hmem), if_pos hmem]
    · cases h
  inodeAt r :=
    .ok (demoInode (if r = ascii "/w" ∨ r = ascii "/w/sub" then ⟨.directory, 0, 0, 0⟩ else st))

/-- Statistics of a file with five bytes. -/
def demoStat : Stat := ⟨.regular, 5, 0, 0⟩

/-- Dates that cannot be parsed. -/
def noDates : Dates := ⟨fun _ => [], fun _ => -1⟩

def demoEnv : StaticEnv := ⟨demoSite demoStat, noDates, true⟩

def demoOpts (precompressed : Bool) : StaticOpts :=
  { docroot := some (ascii "/w"), urlPrefix := none, index := none
    precompressed := precompressed, cacheControl := none, spaFallback := none, dirRedirect := true }

def demoRequest (path : String) (headers : List Header) : Request :=
  { method := ascii "GET", path := ascii path, query := none, minorVersion := 1
    headers := headers, body := [], keepAlive := true, clientIp := [] }

/-- The file `/a` of the site, as it is. -/
def demoFound (st : Stat) : FoundFile :=
  { file := { path := ascii "/w/a", inode := demoInode st }, stat := st
    resolved := ascii "/w/a", encoding := none }

theorem findFile_demo (hkind : st.kind = .regular) (hsize : st.size ≤ fileMax) (dates : Dates)
    (headers : List Header) :
    findFile ⟨demoSite st, dates, true⟩ (demoRequest "/a" headers) (demoOpts false) =
      some (demoFound st, [ascii "/w/a"]) := by
  obtain ⟨kind, size, sec, nsec⟩ := st
  cases hkind
  show (if fileMax < size then none else _) = _
  rw [if_neg (by simpa using hsize)]
  rfl

end Portico.Http
