/-
  Static files: `portico_res_static`, `portico_res_file`, `portico_res_vhost` and their helpers in
  src/http/connection.c.

  Model. Paths are C strings, byte strings without a NUL. `FileSystem` is a file system that does
  not change while a request is answered: `realpath` returns canonical paths, and `open` opens
  the file that the canonical path names; `fstat` and `pread` are part of the open file. What is
  returned says, besides the response, which file it hands over (`file_fd`) and the canonical path
  of every file that was opened, in order. Buffers of `PATH_MAX` bytes bound every path that is put
  together. Converting dates (`gmtime_r`, `strptime`, `timegm`) is a parameter, and so is whether
  the body of a multipart response can be allocated; a multipart body that would not fit its buffer
  is an outcome of its own (`Assembled.overrun`), for which the response is left as it is.
  Left out: closing descriptors, arguments that are NULL (the document root apart).
  Portico.Http.Docroot proves which files are opened.
-/
import Mathlib.Data.List.Infix
import Portico.Http.Response

namespace Portico.Http

open Portico.Ws

/-! ## The file system -/

inductive FileKind where
  | regular
  | directory
  | other
  deriving DecidableEq, Repr

structure Stat where
  kind : FileKind
  size : Nat
  mtimeSec : Int
  mtimeNsec : Nat
  deriving DecidableEq, Repr

inductive OpenError where
  | eacces
  | other
  deriving DecidableEq, Repr

/-- What can be asked of an open file. -/
structure Inode where
  fstat : Option Stat
  pread : (len off : Nat) → Option Bytes

/-- An open file, with its canonical path. -/
structure File where
  path : Bytes
  inode : Inode

structure FileSystem where
  realpath : Bytes → Option Bytes
  canonical : ∀ {p r : Bytes}, realpath p = some r → realpath r = some r
  /-- The file at a canonical path. -/
  inodeAt : Bytes → Except OpenError Inode

/-- `open(path, O_RDONLY | O_CLOEXEC)`. -/
def FileSystem.open (fs : FileSystem) (path : Bytes) : Except OpenError File :=
  match fs.realpath path with
  | none => .error .other
  | some r => (fs.inodeAt r).map (File.mk r)

/-- `PATH_MAX`. -/
def pathMax : Nat := 4096

/-- `PORTICO_FILE_MAX`. -/
def fileMax : Nat := 2 * 1024 * 1024 * 1024

/-- `portico_static_opts_t`. -/
structure StaticOpts where
  docroot : Option Bytes
  urlPrefix : Option Bytes
  index : Option Bytes
  precompressed : Bool
  cacheControl : Option Bytes
  spaFallback : Option Bytes
  dirRedirect : Bool
  deriving DecidableEq, Repr

/-- Dates as HTTP writes them, and seconds since the epoch; -1 is no date. -/
structure Dates where
  httpDate : Int → Bytes
  parseHttpDate : Bytes → Int

/-! ## Header values -/

/-- A request header as a C string in a buffer of `cap` bytes. -/
def reqHeaderCopy (req : Request) (name : String) (cap : Nat) : Option Bytes :=
  match porticoReqHeader req.headers (ascii name) with
  | none => none
  | some v => if v = [] ∨ cap ≤ v.length then none else some (cString v)

/-- The loop of `accepts_encoding`; `passing` while it looks for the next comma. -/
def acceptsScan (name : Bytes) : (passing : Bool) → Bytes → Bool
  | _, [] => false
  | true, b :: bs => if b = 44 then acceptsScan name false bs else acceptsScan name true bs
  | false, b :: bs =>
    if b = 32 ∨ b = 44 then acceptsScan name false bs
    else if equalsCi ((b :: bs).takeWhile fun b => b != 44 && b != 59 && b != 32) name then true
    else acceptsScan name true bs

def acceptsEncoding (ae name : Bytes) : Bool := acceptsScan name false ae

/-- `%llx`. -/
def hexadecimal (n : Nat) : Bytes := (Nat.toDigits 16 n).map fun c => UInt8.ofNat c.toNat

def fileEtag (st : Stat) : Bytes :=
  [34] ++ hexadecimal (st.mtimeSec % 2 ^ 64).toNat ++ [45] ++ hexadecimal st.mtimeNsec ++ [45] ++
    hexadecimal st.size ++ [34]

/-- The loop of `etag_matches`; `passing` while it looks for the next comma. -/
def etagScan (etag : Bytes) : (passing : Bool) → Bytes → Bool
  | _, [] => false
  | true, b :: bs => if b = 44 then etagScan etag false bs else etagScan etag true bs
  | false, b :: bs =>
    if b = 32 ∨ b = 44 ∨ b = 9 then etagScan etag false bs
    else
      let p := if b = 87 ∧ bs.head? = some 47 then bs.tail else b :: bs
      if p ≠ [] ∧ etag.isPrefixOf p then true else etagScan etag true bs

def etagMatches (hdr etag : Bytes) : Bool := hdr.contains 42 || etagScan etag false hdr

/-! ## Ranges -/

/-- `LLONG_MAX`. -/
def llongMax : Int := 2 ^ 63 - 1

def isDigit (b : UInt8) : Bool := 48 ≤ b && b ≤ 57

/-- `strtoll(s, &end, 10)` with what `end` points to; without a digit that is all of `s`. -/
def strtoll (s : Bytes) : Int × Bytes :=
  let t := s.dropWhile isSpace
  let signed := t.head? = some 43 ∨ t.head? = some 45
  let t' := if signed then t.tail else t
  let digits := t'.takeWhile isDigit
  let n : Int := decimalValue digits
  if digits = [] then (0, s)
  else
    (if t.head? = some 45 then max (-n) (-llongMax - 1) else min n llongMax,
      t'.dropWhile isDigit)

/-- The results of `parse_range`: 0, 1 or -1. -/
inductive RangeResult where
  | range (start len : Int)
  | unsatisfiable
  | ignored
  deriving DecidableEq, Repr

/-- The end of `parse_range`, with the first and the last position. -/
def rangeWithin (size s e : Int) : RangeResult :=
  if size = 0 ∨ s ≥ size ∨ s > e then .unsatisfiable else .range s (e - s + 1)

def parseRange (v : Bytes) (size : Int) : RangeResult :=
  if !(ascii "bytes=").isPrefixOf v then .ignored
  else
    let v := v.drop 6
    if v.contains 44 then .ignored
    else if !v.contains 45 then .ignored
    else
      let dash := v.dropWhile (· != 45)
      if dash = v then
        match strtoll v.tail with
        | (suf, rest) =>
          if rest = v.tail ∨ rest ≠ [] ∨ suf ≤ 0 then .ignored
          else rangeWithin size (size - min suf size) (size - 1)
      else
        match strtoll v with
        | (s, rest) =>
          if rest ≠ dash ∨ s < 0 then .ignored
          else if dash.tail = [] then rangeWithin size s (size - 1)
          else
            match strtoll dash.tail with
            | (e, rest) =>
              if rest ≠ [] ∨ e < 0 then .ignored
              else rangeWithin size s (if e ≥ size then size - 1 else e)

/-- `PORTICO_MULTIPART_MAX_RANGES`. -/
def multipartMaxRanges : Nat := 16

/-- `PORTICO_MULTIPART_MAX_BYTES`. -/
def multipartMaxBytes : Nat := 1024 * 1024

/-- The loop of `serve_byteranges` over the tokens; `none` falls back to the whole file. -/
def collectParts (total : Int) : List Bytes → List (Int × Int) → Option (List (Int × Int))
  | [], parts => some parts
  | tok :: toks, parts =>
    let spec := ascii "bytes=" ++ tok.dropWhile isBlank
    if 80 ≤ spec.length then none
    else match parseRange spec total with
      | .range s l =>
        if multipartMaxRanges ≤ parts.length then none
        else collectParts total toks (parts ++ [(s, l)])
      | _ => collectParts total toks parts

/-- `strtok` with ",". -/
def commaTokens (v : Bytes) : List Bytes := (v.splitOnP (· == 44)).filter (· ≠ [])

inductive Assembled where
  | body (bytes : Bytes)
  /-- A read returned something else than the part. -/
  | shortRead
  /-- A line does not fit the buffer. -/
  | overrun
  deriving DecidableEq, Repr

/-- The loop that puts a multipart body together, with what it has written so far. -/
def assembleParts (pread : (len off : Nat) → Option Bytes) (cap : Nat) (boundary ctype : Bytes)
    (total : Int) : List (Int × Int) → Bytes → Assembled
  | [], body =>
    let line := ascii "--" ++ boundary ++ ascii "--" ++ crlf
    if cap ≤ body.length + line.length then .overrun else .body (body ++ line)
  | (s, l) :: parts, body =>
    let line := ascii "--" ++ boundary ++ crlf ++ ascii "Content-Type: " ++ ctype ++ crlf ++
      ascii "Content-Range: bytes " ++ decimalInt s ++ ascii "-" ++ decimalInt (s + l - 1) ++
      ascii "/" ++ decimalInt total ++ crlf ++ crlf
    if cap ≤ body.length + line.length then .overrun
    else match pread l.toNat s.toNat with
      | none => .shortRead
      | some data =>
        if data.length ≠ l.toNat then .shortRead
        else
          let body := body ++ line ++ data
          if cap ≤ body.length + 2 then .overrun
          else assembleParts pread cap boundary ctype total parts (body ++ crlf)

/-- The results of `serve_byteranges`: 0 with the response, 1, -1, or a body that overruns. -/
inductive Multipart where
  | served (res : Reply)
  | fallBack
  | unsatisfiable
  | overrun
  deriving DecidableEq, Repr

/-- The boundary is made of the ETag, in a buffer of 96 bytes. -/
def boundaryOf (etag : Bytes) : Bytes :=
  let text := ascii "PORTICO_BYTERANGE_" ++ (if etag.head? = some 34 then etag.tail else etag)
  (text.take 95).takeWhile (· != 34)

def serveByteranges (allocOk : Bool) (res : Reply) (file : File) (rangehdr : Bytes) (total : Int)
    (ctype etag lastmod : Bytes) : Multipart :=
  if !(ascii "bytes=").isPrefixOf rangehdr then .fallBack
  else if 512 ≤ rangehdr.length then .fallBack
  else match collectParts total (commaTokens (rangehdr.drop 6)) [] with
    | none => .fallBack
    | some [] => .unsatisfiable
    | some [_] => .fallBack
    | some parts =>
      let boundary := boundaryOf etag
      let dataBytes := (parts.map fun p => p.2.toNat).sum
      let overhead := parts.length * (boundary.length + ctype.length + 160) + boundary.length + 16
      if multipartMaxBytes < dataBytes + overhead then .fallBack
      else if !allocOk then .fallBack
      else match assembleParts file.inode.pread (dataBytes + overhead) boundary ctype total parts []
          with
        | .shortRead => .fallBack
        | .overrun => .overrun
        | .body body =>
          let cthdr := (ascii "multipart/byteranges; boundary=" ++ boundary).take 159
          let res := porticoResHeader res (ascii "Content-Type") cthdr
          let res := porticoResHeader res (ascii "Accept-Ranges") (ascii "bytes")
          let res := porticoResHeader res (ascii "ETag") etag
          let res := porticoResHeader res (ascii "Last-Modified") lastmod
          .served { res with status := 206, body := body, isFile := false }

/-! ## The response -/

def contentTypes : List (String × String) :=
  [("html", "text/html; charset=utf-8"), ("htm", "text/html; charset=utf-8"),
    ("css", "text/css; charset=utf-8"), ("txt", "text/plain; charset=utf-8"),
    ("xml", "application/xml"), ("pdf", "application/pdf"), ("csv", "text/csv; charset=utf-8"),
    ("md", "text/markdown; charset=utf-8"), ("js", "text/javascript; charset=utf-8"),
    ("mjs", "text/javascript; charset=utf-8"), ("json", "application/json"),
    ("map", "application/json"), ("wasm", "application/wasm"),
    ("webmanifest", "application/manifest+json"), ("manifest", "application/manifest+json"),
    ("svg", "image/svg+xml"), ("png", "image/png"), ("jpg", "image/jpeg"),
    ("jpeg", "image/jpeg"), ("gif", "image/gif"), ("ico", "image/x-icon"),
    ("webp", "image/webp"), ("avif", "image/avif"), ("bmp", "image/bmp"),
    ("woff2", "font/woff2"), ("woff", "font/woff"), ("ttf", "font/ttf"), ("otf", "font/otf"),
    ("eot", "application/vnd.ms-fontobject"), ("mp4", "video/mp4"), ("webm", "video/webm"),
    ("mov", "video/quicktime"), ("mp3", "audio/mpeg"), ("ogg", "audio/ogg"), ("wav", "audio/wav"),
    ("m4a", "audio/mp4"), ("flac", "audio/flac")]

/-- From what follows the last dot of the path. -/
def contentTypeFor (path : Bytes) : Bytes :=
  if !path.contains 46 then ascii "application/octet-stream"
  else
    let ext := (path.reverse.takeWhile (· != 46)).reverse
    match contentTypes.find? fun m => equalsCi ext (ascii m.1) with
    | some m => ascii m.2
    | none => ascii "application/octet-stream"

/-- What a static response needs to know besides the request and the options. -/
structure StaticEnv where
  fs : FileSystem
  dates : Dates
  allocOk : Bool

/-- A response, whether the function returned 0, the file whose descriptor it hands over, and the
    canonical paths of the files it has opened. -/
structure StaticResult where
  res : Reply
  ok : Bool
  file : Option File
  opened : List Bytes

/-- The file that was found, and how it is encoded. -/
structure FoundFile where
  file : File
  stat : Stat
  resolved : Bytes
  encoding : Option String

/-- `res->status = status; return -1`. -/
def refused (res : Reply) (status : Int) (opened : List Bytes) : StaticResult :=
  { res := { res with status := status }, ok := false, file := none, opened := opened }

/-- Header lines for the values that are there. -/
def resHeaderOpt (res : Reply) (name : String) (value : Option Bytes) : Reply :=
  match value with
  | none => res
  | some v => porticoResHeader res (ascii name) v

def notModified (dates : Dates) (req : Request) (st : Stat) : Bool :=
  match reqHeaderCopy req "If-None-Match" 256 with
  | some hdr => etagMatches hdr (fileEtag st)
  | none =>
    match reqHeaderCopy req "If-Modified-Since" 256 with
    | some hdr => dates.parseHttpDate hdr ≠ -1 && st.mtimeSec ≤ dates.parseHttpDate hdr
    | none => false

/-- Whether an `If-Range` validator lets the range be used. -/
def honorsRange (dates : Dates) (req : Request) (st : Stat) : Bool :=
  match reqHeaderCopy req "If-Range" 256 with
  | none => true
  | some ir =>
    if ir.head? = some 34 ∨ (ascii "W/").isPrefixOf ir then
      decide (fileEtag st <:+: ir)
    else dates.parseHttpDate ir ≠ -1 && st.mtimeSec ≤ dates.parseHttpDate ir

/-- How the request's range is answered. -/
inductive RangeChoice where
  | whole
  | part (start len : Int)
  | unsatisfiable
  | multipart (res : Reply)
  | overrun
  deriving DecidableEq, Repr

def chooseRange (env : StaticEnv) (res : Reply) (req : Request) (found : FoundFile) :
    RangeChoice :=
  match reqHeaderCopy req "Range" 256 with
  | none => .whole
  | some hdr =>
    if !honorsRange env.dates req found.stat then .whole
    else if !porticoReqMethodIs req (ascii "HEAD") && hdr.contains 44 then
      match serveByteranges env.allocOk res found.file hdr found.stat.size
          (contentTypeFor found.resolved) (fileEtag found.stat)
          (env.dates.httpDate found.stat.mtimeSec) with
      | .served res => .multipart res
      | .unsatisfiable => .unsatisfiable
      | .fallBack => .whole
      | .overrun => .overrun
    else match parseRange hdr found.stat.size with
      | .range s l => .part s l
      | .unsatisfiable => .unsatisfiable
      | .ignored => .whole

/-- The header lines of a response with the file, or a part of it. -/
def fileHeaders (env : StaticEnv) (opts : StaticOpts) (res : Reply) (found : FoundFile) : Reply :=
  let res := porticoResHeader res (ascii "Content-Type") (contentTypeFor found.resolved)
  let res := porticoResHeader res (ascii "Accept-Ranges") (ascii "bytes")
  let res := porticoResHeader res (ascii "ETag") (fileEtag found.stat)
  let res := porticoResHeader res (ascii "Last-Modified")
    (env.dates.httpDate found.stat.mtimeSec)
  let res := resHeaderOpt res "Content-Encoding" (found.encoding.map ascii)
  let res := if opts.precompressed then
      porticoResHeader res (ascii "Vary") (ascii "Accept-Encoding")
    else res
  resHeaderOpt res "Cache-Control" opts.cacheControl

/-- The end of `portico_res_static`: the bytes from `start` on, `len` of them. -/
def sendFile (env : StaticEnv) (opts : StaticOpts) (res : Reply) (req : Request)
    (found : FoundFile) (part : Option (Int × Int)) (opened : List Bytes) : StaticResult :=
  let total : Int := found.stat.size
  let res := fileHeaders env opts res found
  let res := match part with
    | none => { res with status := 200 }
    | some (s, l) =>
      { porticoResHeader res (ascii "Content-Range") (ascii "bytes " ++ decimalInt s ++ ascii "-" ++
          decimalInt (s + l - 1) ++ ascii "/" ++ decimalInt total) with status := 206 }
  let (start, length) := part.getD (0, total)
  if porticoReqMethodIs req (ascii "HEAD") then
    { res := { res with headOnly := true, fileSize := length.toNat, isFile := false }
      ok := true, file := none, opened := opened }
  else
    { res :=
        { res with isFile := true, fileOffset := start.toNat, fileSize := length.toNat }
      ok := true, file := some found.file, opened := opened }

/-- `portico_res_static` from the validators on. -/
def respondFile (env : StaticEnv) (opts : StaticOpts) (res : Reply) (req : Request)
    (found : FoundFile) (opened : List Bytes) : StaticResult :=
  if notModified env.dates req found.stat then
    let res := porticoResHeader res (ascii "ETag") (fileEtag found.stat)
    let res := porticoResHeader res (ascii "Last-Modified")
      (env.dates.httpDate found.stat.mtimeSec)
    let res := resHeaderOpt res "Cache-Control" opts.cacheControl
    { res := { res with status := 304, isFile := false }, ok := true, file := none
      opened := opened }
  else match chooseRange env res req found with
    | .whole => sendFile env opts res req found none opened
    | .part s l => sendFile env opts res req found (some (s, l)) opened
    | .unsatisfiable =>
      let res := porticoResHeader res (ascii "Content-Range")
        (ascii "bytes */" ++ decimalInt found.stat.size)
      let res := porticoResHeader res (ascii "Accept-Ranges") (ascii "bytes")
      { res := { res with status := 416, isFile := false }, ok := false, file := none
        opened := opened }
    | .multipart res => { res := res, ok := true, file := none, opened := opened }
    | .overrun => { res := res, ok := false, file := none, opened := opened }

/-! ## The path -/

/-- The path below the mount point; `none` if it is not below it. -/
def mountedPath (opts : StaticOpts) (path : Bytes) : Option Bytes :=
  match opts.urlPrefix with
  | none => some path
  | some [] => some path
  | some pre =>
    if !pre.isPrefixOf path then none
    else match path.drop pre.length with
      | [] => some [47]
      | b :: rest => if b = 47 then some (b :: rest) else none

def isXDigit (b : UInt8) : Bool := isDigit b || (65 ≤ b && b ≤ 70) || (97 ≤ b && b ≤ 102)

def hexValue (b : UInt8) : UInt8 :=
  if isDigit b then b - 48 else if b ≤ 70 then b - 55 else b - 87

/-- `url_decode_path` with room for so many bytes. -/
def urlDecodePath : (room : Nat) → Bytes → Bytes
  | 0, _ => []
  | _ + 1, [] => []
  | room + 1, b :: rest =>
    match b == 37, rest with
    | true, x :: y :: rest' =>
      if isXDigit x && isXDigit y then (16 * hexValue x + hexValue y) :: urlDecodePath room rest'
      else b :: urlDecodePath room rest
    | _, _ => b :: urlDecodePath room rest

/-- The file path that the request asks for, or the status that refuses it. -/
def decodedPath (opts : StaticOpts) (path : Bytes) : Except Int Bytes :=
  match mountedPath opts path with
  | none => .error 404
  | some upath =>
    let decoded := urlDecodePath (pathMax - 1) upath
    if decoded.head? ≠ some 47 ∨ decoded.contains 0 then .error 400 else .ok decoded

/-- `strncmp(resolved, rootreal, rl) == 0` and the next byte is a slash or the end. -/
def within (rootreal resolved : Bytes) : Bool :=
  rootreal.isPrefixOf resolved &&
    match resolved.drop rootreal.length with
    | [] => true
    | b :: _ => b == 47

/-- The file that client-side routing falls back to. -/
def spaResolved (fs : FileSystem) (opts : StaticOpts) (docroot : Bytes) (req : Request) :
    Option Bytes :=
  match opts.spaFallback with
  | none => none
  | some [] => none
  | some fallback =>
    let candidate := docroot ++ 47 :: fallback
    if (porticoReqMethodIs req (ascii "GET") || porticoReqMethodIs req (ascii "HEAD")) &&
        candidate.length < pathMax then
      fs.realpath candidate
    else none

/-- The canonical document root and the canonical path of the request, which lies inside it. -/
def resolvePath (fs : FileSystem) (opts : StaticOpts) (docroot : Bytes) (req : Request)
    (decoded : Bytes) : Except Int (Bytes × Bytes) :=
  let candidate := docroot ++ decoded
  if pathMax ≤ candidate.length then .error 414
  else match fs.realpath docroot with
    | none => .error 500
    | some rootreal =>
      match (fs.realpath candidate).or (spaResolved fs opts docroot req) with
      | none => .error 404
      | some resolved =>
        if within rootreal resolved then .ok (rootreal, resolved) else .error 403

/-! ## Opening the file -/

/-- What opening the path has led to. -/
inductive Found where
  | status (status : Int)
  | redirect (location : Bytes)
  | file (file : File) (stat : Stat) (resolved : Bytes)

/-- How an index file and a precompressed sibling are opened: resolve the path, stay inside the
    document root, and take a regular file only. With what was opened. -/
def openRegular (fs : FileSystem) (rootreal path : Bytes) :
    Option (File × Stat × Bytes) × List Bytes :=
  match fs.realpath path with
  | none => (none, [])
  | some resolved =>
    if !within rootreal resolved then (none, [])
    else match fs.open resolved with
      | .error _ => (none, [])
      | .ok file =>
        match file.inode.fstat with
        | none => (none, [file.path])
        | some st =>
          if st.kind = .regular then (some (file, st, resolved), [file.path])
          else (none, [file.path])

/-- The index file of a directory. -/
def openIndex (fs : FileSystem) (opts : StaticOpts) (rootreal dir : Bytes) : Found × List Bytes :=
  let index := opts.index.getD (ascii "index.html")
  let ipath := dir ++ 47 :: index
  if index = [] then (.status 403, [])
  else if pathMax ≤ ipath.length then (.status 414, [])
  else match openRegular fs rootreal ipath with
    | (some (file, st, resolved), opened) => (.file file st resolved, opened)
    | (none, opened) => (.status 403, opened)

def openResolved (fs : FileSystem) (opts : StaticOpts) (req : Request) (rootreal resolved : Bytes) :
    Found × List Bytes :=
  match fs.open resolved with
  | .error .eacces => (.status 403, [])
  | .error .other => (.status 404, [])
  | .ok file =>
    match file.inode.fstat with
    | none => (.status 404, [file.path])
    | some st =>
      match st.kind with
      | .regular => (.file file st resolved, [file.path])
      | .other => (.status 404, [file.path])
      | .directory =>
        let location := cString req.path ++ [47]
        if opts.dirRedirect && req.path.getLast? ≠ some 47 && location.length < pathMax then
          (.redirect location, [file.path])
        else
          match openIndex fs opts rootreal resolved with
          | (found, opened) => (found, file.path :: opened)

/-- The sibling `<base><suffix>` inside the document root, and what was opened. -/
def tryPrecompressed (fs : FileSystem) (base suffix rootreal : Bytes) :
    Option (File × Stat × Bytes) × List Bytes :=
  if pathMax ≤ (base ++ suffix).length then (none, [])
  else openRegular fs rootreal (base ++ suffix)

/-- The sibling in one of the encodings that the client accepts, in the server's order. -/
def trySiblings (fs : FileSystem) (found : FoundFile) (rootreal ae : Bytes) :
    List (String × String) → FoundFile × List Bytes
  | [] => (found, [])
  | (name, suffix) :: encodings =>
    if acceptsEncoding ae (ascii name) then
      match tryPrecompressed fs found.resolved (ascii suffix) rootreal with
      | (some (file, st, _), opened) =>
        ({ found with file := file, stat := st, encoding := some name }, opened)
      | (none, opened) =>
        match trySiblings fs found rootreal ae encodings with
        | (found, opened') => (found, opened ++ opened')
    else trySiblings fs found rootreal ae encodings

/-- The precompressed negotiation; brotli is preferred. -/
def negotiate (fs : FileSystem) (opts : StaticOpts) (req : Request) (found : FoundFile)
    (rootreal : Bytes) : FoundFile × List Bytes :=
  if !opts.precompressed then (found, [])
  else match reqHeaderCopy req "Accept-Encoding" 256 with
    | none => (found, [])
    | some ae => trySiblings fs found rootreal ae [("br", ".br"), ("gzip", ".gz")]

/-- `portico_res_static` from the resolved path on. -/
def serveResolved (env : StaticEnv) (opts : StaticOpts) (res : Reply) (req : Request)
    (rootreal resolved : Bytes) : StaticResult :=
  match openResolved env.fs opts req rootreal resolved with
  | (.status status, opened) => refused res status opened
  | (.redirect location, opened) =>
    { res :=
        { porticoResHeader res (ascii "Location") location with status := 301, isFile := false }
      ok := true, file := none, opened := opened }
  | (.file file st resolved, opened) =>
    if fileMax < st.size then refused res 413 opened
    else
      match negotiate env.fs opts req ⟨file, st, resolved, none⟩ rootreal with
      | (found, siblings) => respondFile env opts res req found (opened ++ siblings)

def porticoResStatic (env : StaticEnv) (res : Reply) (req : Request) (opts : StaticOpts) :
    StaticResult :=
  match opts.docroot with
  | none => refused res 500 []
  | some docroot =>
    match decodedPath opts req.path with
    | .error status => refused res status []
    | .ok decoded =>
      match resolvePath env.fs opts docroot req decoded with
      | .error status => refused res status []
      | .ok (rootreal, resolved) => serveResolved env opts res req rootreal resolved

def porticoResFile (env : StaticEnv) (res : Reply) (req : Request) (docroot : Option Bytes) :
    StaticResult :=
  porticoResStatic env res req
    { docroot := docroot, urlPrefix := none, index := none, precompressed := false
      cacheControl := none, spaFallback := none, dirRedirect := false }

/-! ## Virtual hosts -/

/-- `portico_vhost_t`. -/
structure Vhost where
  host : Option Bytes
  opts : StaticOpts
  deriving DecidableEq, Repr

/-- An exact host, or one label in front of what follows `*.`. -/
def vhostMatch (pat host : Bytes) : Bool :=
  if (ascii "*.").isPrefixOf pat then
    host.contains 46 && equalsCi (pat.drop 2) ((host.dropWhile (· != 46)).drop 1)
  else equalsCi pat host

/-- Drop `:port` from the host, if what follows the last colon is digits. -/
def dropPort (host : Bytes) : Bytes :=
  let port := (host.reverse.takeWhile (· != 58)).reverse
  if host.contains 58 ∧ port ≠ [] ∧ port.all isDigit then host.take (host.length - port.length - 1)
  else host

/-- The host from the `Host` header, empty if there is none that fits. -/
def requestHost (req : Request) : Bytes :=
  match porticoReqHeader req.headers (ascii "Host") with
  | none => []
  | some hv => if hv = [] ∨ 256 ≤ hv.length then [] else dropPort (cString hv)

/-- The first entry for the host, else the first one for any. -/
def selectVhost (vhosts : List Vhost) (host : Bytes) : Option Vhost :=
  (vhosts.find? fun v =>
    match v.host with
    | none => false
    | some pat => host ≠ [] && vhostMatch pat host).or
  (vhosts.find? fun v => v.host.isNone)

def porticoResVhost (env : StaticEnv) (res : Reply) (req : Request) (vhosts : List Vhost) :
    StaticResult :=
  match selectVhost vhosts (requestHost req) with
  | none => refused res 404 []
  | some v => porticoResStatic env res req v.opts

end Portico.Http
