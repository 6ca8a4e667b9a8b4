/-
  Ranged answers, and what the reads for them return: `portico_res_static`, `http_serve_file`,
  `file_emit`, `stream_start` and the streams of src/http/connection.c.

  Model. `PartReply` is what `portico_res_static` leaves behind for one range: the status 206, the
  `Content-Range` line, and the offset and the number of bytes to be read later. `ExactBody` says
  that a body is what such a line names. Reads return bytes of the file, as many as they like, or
  fail; a file that has shrunk is one whose contents are too short.

  Proved: `partial_content_exact_iff`. A multipart answer is exact. A part that is read at once is
  answered with a 206 whatever the read returns, so its body is exact just if the read returned as
  many bytes as were announced, and only a read that fails gives another status. A streamed part
  has its 206 queued before the first read; its body is exact once all bytes have come, and if they
  do not come the connection is closed.
-/
import Portico.Http.Multipart
import Portico.Http.SingleRead
import Portico.Http.Streams

namespace Portico.Http

open Portico.Lib Portico.Ws Portico.Ws.OutConn

/-! ## Bodies -/

/-- The body is the `len` bytes of the file from `first` on. -/
structure ExactBody (contents : Bytes) (first len : Nat) (body : Bytes) : Prop where
  length : body.length = len
  bytes : body = rangeBytes contents first len

theorem exactBody_iff {contents body : Bytes} {first len : Nat}
    (h : body <+: rangeBytes contents first len) :
    ExactBody contents first len body ↔ body.length = len := by
  refine ⟨ExactBody.length, fun hlen => ⟨hlen, ?_⟩⟩
  apply h.eq_of_length_le
  rw [rangeBytes, List.length_take]
  omega

/-- A file that has become too short has no exact body for the range. -/
theorem not_exactBody {contents : Bytes} {first len : Nat} (hlen : 0 < len)
    (hshort : contents.length < first + len) (body : Bytes) :
    ¬ ExactBody contents first len body := by
  intro h
  have hbytes := congrArg List.length h.bytes
  rw [h.length, rangeBytes, List.length_take, List.length_drop] at hbytes
  omega

/-! ## The reply -/

/-- The value of a `Content-Range` header. -/
def contentRange (first len total : Int) : Bytes :=
  ascii "bytes " ++ decimalInt first ++ ascii "-" ++ decimalInt (first + len - 1) ++ ascii "/" ++
    decimalInt total

/-- The reply is for `len` bytes of the found file from `first` on, and says so. -/
structure PartReply (env : StaticEnv) (opts : StaticOpts) (found : FoundFile) (res : Reply)
    (first len : Nat) : Prop where
  status : res.status = 206
  isFile : res.isFile = true
  offset : res.fileOffset = first
  size : res.fileSize = len
  inside : 0 < len ∧ first + len ≤ found.stat.size
  header : res.headers = (porticoResHeader (fileHeaders env opts Reply.empty found)
    (ascii "Content-Range") (contentRange first len found.stat.size)).headers

/-- The reply is a multipart body for the satisfiable ranges of a header, and every part of it has
    as many bytes as its own `Content-Range` names. -/
def MultipartExact (found : FoundFile) (req : Request) (res : Reply) : Prop :=
  ∃ hdr, reqHeaderCopy req "Range" 256 = some hdr ∧
    ∀ contents, ReadsFrom contents found.file.inode.pread →
      res.body = multipartBody contents (boundaryOf (fileEtag found.stat))
          (contentTypeFor found.resolved) found.stat.size (satisfiable found.stat.size hdr) ∧
        ∀ p ∈ satisfiable found.stat.size hdr,
          ExactBody contents p.1.toNat p.2.toNat (rangeBytes contents p.1.toNat p.2.toNat)

variable {req : Request}

theorem sendFile_partReply (env : StaticEnv) (opts : StaticOpts)
    (hget : porticoReqMethodIs req (ascii "HEAD") = false) (found : FoundFile) {s l : Int}
    (hin : 0 ≤ s ∧ s < found.stat.size ∧ 1 ≤ l ∧ l ≤ found.stat.size - s) (opened : List Bytes) :
    PartReply env opts found (sendFile env opts Reply.empty req found (some (s, l)) opened).res
      s.toNat l.toNat := by
  have hs : (s.toNat : Int) = s := by omega
  have hl : (l.toNat : Int) = l := by omega
  constructor
  · exact sendFile_status env opts Reply.empty req found (some (s, l)) opened
  · simp [sendFile, hget]
  · simp [sendFile, hget]
  · simp [sendFile, hget]
  · omega
  · rw [hs, hl]
    simp [sendFile, hget, contentRange]

/-- A 206 is for one range or for several. -/
theorem respondFile_partial {env : StaticEnv} {opts : StaticOpts}
    (hget : porticoReqMethodIs req (ascii "HEAD") = false) {found : FoundFile}
    (hstat : found.stat.InRange) {opened : List Bytes}
    (h206 : (respondFile env opts Reply.empty req found opened).res.status = 206) :
    ((respondFile env opts Reply.empty req found opened).res.isFile = false →
        MultipartExact found req (respondFile env opts Reply.empty req found opened).res) ∧
      ((respondFile env opts Reply.empty req found opened).res.isFile = true →
        ∃ first len,
          PartReply env opts found (respondFile env opts Reply.empty req found opened).res first
            len) := by
  unfold respondFile at h206 ⊢
  split
  · rename_i hnot
    rw [if_pos hnot] at h206
    cases h206
  rename_i hnot
  rw [if_neg hnot] at h206
  split
  · rename_i hchoice
    rw [hchoice] at h206
    exact absurd h206 (by rw [sendFile_status]; decide)
  · rename_i s l hchoice
    obtain ⟨hdr, hrange⟩ := chooseRange_part hchoice
    have hpart := sendFile_partReply env opts hget found (parseRange_within hrange) opened
    refine ⟨fun hfile => ?_, fun _ => ⟨_, _, hpart⟩⟩
    exact absurd (hpart.isFile.symm.trans hfile) (by decide)
  · rename_i hchoice
    rw [hchoice] at h206
    cases h206
  · rename_i res hchoice
    obtain ⟨hdr, hcopy, hserved⟩ := chooseRange_served hchoice
    obtain ⟨body, hres⟩ := serveByteranges_served hserved
    refine ⟨fun _ => ⟨hdr, hcopy, fun contents hreads => ?_⟩, fun hfile => ?_⟩
    · have hmax : (found.stat.size : Int) ≤ llongMax := by
        have := hstat.size
        unfold llongMax
        omega
      obtain hback | ⟨-, hunsat⟩ | ⟨hbody, -, -, -, hfull⟩ := serveByteranges_cases env.allocOk
        Reply.empty hreads hdr hmax (contentTypeFor found.resolved) (fileEtag found.stat)
        (env.dates.httpDate found.stat.mtimeSec)
      · cases hserved.symm.trans hback
      · cases hserved.symm.trans hunsat
      · cases hserved.symm.trans hbody
        exact ⟨rfl, fun p hp => ⟨hfull p hp, rfl⟩⟩
    · rw [hres] at hfile
      cases hfile
  · rename_i hchoice
    rw [hchoice] at h206
    simp [Reply.empty] at h206

/-! ## The answer -/

/-- What a part may be answered with when the read for it returns `read`: a bare status that is not
    206, a 206 with the bytes that were read, or the header block of a stream. -/
inductive PartAnswer (contents : Bytes) (first len : Nat) (headers : Bytes) (keepAlive : Bool)
    (i : Nat) (read : Option Bytes) : Piece → Prop
  | refused {status : Int} (other : status ≠ 206) :
    PartAnswer contents first len headers keepAlive i read
      (.whole (.request i) (responseHead status [] 0 false))
  | whole {data : Bytes} (returned : read = some data)
    (exact_iff : ExactBody contents first len data ↔ data.length = len) :
    PartAnswer contents first len headers keepAlive i read
      (.whole (.request i) (responseHead 206 headers data.length keepAlive ++ data))
  | head :
    PartAnswer contents first len headers keepAlive i read
      (.head i (responseHead 206 headers len keepAlive) len)

variable {c : WebConn} {p : Piece}

theorem send_queue_eq {e : Env} {q : Piece} (h : (c.send e p).1.trace = c.trace ++ [.queue q]) :
    q = p := by
  unfold WebConn.send at h
  split at h
  · have hlast := List.append_cancel_left h
    cases hlast
    rfl
  · exact absurd h (by simp)

variable {status : Int}

theorem httpErrorClose_queue_eq {e : Env} {whom : ReplyTo} {q : Piece}
    (h : (c.httpErrorClose e whom status).1.trace = c.trace ++ [.queue q]) :
    q = .whole whom (responseHead status [] 0 false) := by
  obtain ⟨acts, hacts, hends⟩ :=
    httpErrorClose_ends (False.elim : False → e.TakesNone) c whom status
  have hq : acts = [.queue q] := List.append_cancel_left (hends.trace.symm.trans h)
  obtain rfl | rfl := hacts
  · cases hq
  · cases hq
    rfl

theorem returns_fst (r : WebConn × Bool) : (WebConn.returns r).1 = r.1 := rfl

section Part

variable {env : StaticEnv} {opts : StaticOpts} {found : FoundFile} {res : Reply} {first len : Nat}
  (hpart : PartReply env opts found res first len) {contents : Bytes} {e : Env} {c : WebConn}
  {keepAlive : Bool} {i : Nat} {read : Option Bytes} {total : Nat} {srv : WebServer}

omit hpart in
theorem httpErrorClose_answer {c' : WebConn} (htrace : c'.trace = c.trace) (hstatus : status ≠ 206)
    {headers : Bytes} (h : (WebConn.returns (c'.httpErrorClose e (.request i) status)).1.trace =
      c.trace ++ [.queue p]) : PartAnswer contents first len headers keepAlive i read p := by
  rw [returns_fst, ← htrace] at h
  obtain rfl := httpErrorClose_queue_eq h
  exact .refused hstatus

include hpart

/-- What `file_emit` queues: the bytes that were read behind a 206, however many they are, or a
    bare 500 if the read failed. -/
theorem fileEmit_answer (hread : ∀ data, read = some data → data <+: rangeBytes contents first len)
    (h : (c.fileEmit e (fileCtx res keepAlive i) read).1.trace = c.trace ++ [.queue p]) :
    PartAnswer contents first len res.headers keepAlive i read p := by
  unfold WebConn.fileEmit at h
  cases read with
  | none =>
    dsimp only at h
    split at h
    · exact absurd h (by simp)
    · rename_i b' hbuild
      obtain rfl := send_queue_eq h
      rw [porticoHttpBuildStatus_eq hbuild]
      exact .refused (by decide)
  | some data =>
    dsimp only [fileCtx] at h
    split at h
    · exact absurd h (by simp)
    · rename_i resp hbuild
      have hsent : (c.send e (.whole (.request i) resp)).1.trace = c.trace ++ [.queue p] := by
        generalize c.send e (.whole (.request i) resp) = r at h
        obtain ⟨c', ok⟩ := r
        cases ok with
        | true => exact h
        | false => exact h
      obtain rfl := send_queue_eq hsent
      rw [porticoHttpBuildResponse_eq hbuild, hpart.status]
      exact .whole rfl (exactBody_iff (hread data rfl))

/-- What `stream_start` queues: the header block, with no byte read yet, or a bare 500. -/
theorem streamStart_answer
    (h : (c.streamStart e res keepAlive total i).1.trace = c.trace ++ [.queue p]) :
    PartAnswer contents first len res.headers keepAlive i read p := by
  unfold WebConn.streamStart at h
  dsimp only at h
  split at h
  · exact httpErrorClose_answer rfl (by decide) h
  split at h
  · exact httpErrorClose_answer rfl (by decide) h
  · have hsent : ((c.consume total).send e (.head i
        (res.streamHead keepAlive) res.fileSize)).1.trace =
        (c.consume total).trace ++ [.queue p] := by
      generalize (c.consume total).send e _ = r at h
      obtain ⟨c', ok⟩ := r
      cases ok with
      | true => exact h
      | false => exact h
    obtain rfl := send_queue_eq hsent
    rw [Reply.streamHead, hpart.status, hpart.size]
    exact .head

/-- What `http_serve_file` queues before it returns. -/
theorem httpServeFile_answer
    (hread : ∀ data, e.read = some data → data.take len <+: rangeBytes contents first len)
    (h : (c.httpServeFile srv e res keepAlive total i).1.trace = c.trace ++ [.queue p]) :
    PartAnswer contents first len res.headers keepAlive i (e.read.map (·.take len)) p := by
  unfold WebConn.httpServeFile at h
  dsimp only at h
  split at h
  · exact streamStart_answer hpart h
  split at h
  · exact httpErrorClose_answer rfl (by decide) h
  split at h
  · exact httpErrorClose_answer rfl (by decide) h
  split at h
  · simp [WebConn.consume] at h
  · have hemit : ((c.consume total).fileEmit e (fileCtx res keepAlive i)
        (e.read.map (·.take len))).1.trace = (c.consume total).trace ++ [.queue p] := by
      rw [← hpart.size]
      rw [← (WebConn.afterEmit_same _).1]
      generalize (c.consume total).fileEmit e _ _ = r at h ⊢
      obtain ⟨c', close⟩ := r
      cases close with
      | true => exact h
      | false => exact h
    refine fileEmit_answer hpart (fun data hdata => ?_) hemit
    obtain ⟨whole, hwhole, rfl⟩ := Option.map_eq_some_iff.mp hdata
    exact hread whole hwhole

/-- A stream for the part, in a run in which reads return bytes of the files. -/
theorem streamed_part {files : Nat → Bytes} {tls : Bool} {input : Bytes} {events : List WebEvent}
    (hrun : run (webStep srv) (WebConn.accepted tls input) events = some c)
    (hreads : FromFiles files c.streamActs) (hreply : RepliedTo srv (dispatches c.trace) i req res)
    {b : Bytes} (hhead : .queue (.head i b len) ∈ c.trace) :
    (ExactBody (files i) first len (bodyOf i c.trace) ↔ (bodyOf i c.trace).length = len) ∧
      ((bodyOf i c.trace).length = len ∨ (∃ s, c.stream = some s ∧ s.request = i) ∨
        c.out.closed = true ∨ c.closeWhenDrained = true) := by
  have hkept := (streamsKept_run hrun hreads).2
  obtain ⟨start, hrange, hbody⟩ := hkept.bodies.begun i b len hhead
  have hpart' : RangeOf srv (dispatches c.trace) i first len :=
    ⟨req, res, hreply, hpart.isFile, hpart.offset, hpart.size⟩
  rw [(hrange.unique hpart').1] at hbody
  exact ⟨exactBody_iff hbody, hkept.length_or hhead⟩

end Part

/-- How a part is served: what is queued for it at once, what is queued when an asynchronous read
    completes, and what has been queued of a stream after any run of the connection. -/
structure PartServed (res : Reply) (first len : Nat) : Prop where
  atOnce : ∀ (contents : Bytes) (srv : WebServer) (e : Env) (c : WebConn) (keepAlive : Bool)
    (total i : Nat) (p : Piece),
    (∀ data, e.read = some data → data.take len <+: rangeBytes contents first len) →
    (c.httpServeFile srv e res keepAlive total i).1.trace = c.trace ++ [.queue p] →
    PartAnswer contents first len res.headers keepAlive i (e.read.map (·.take len)) p
  completed : ∀ (contents : Bytes) (e : Env) (c : WebConn) (keepAlive : Bool) (i : Nat)
    (read : Option Bytes) (p : Piece),
    (∀ data, read = some data → data <+: rangeBytes contents first len) →
    (c.fileEmit e (fileCtx res keepAlive i) read).1.trace = c.trace ++ [.queue p] →
    PartAnswer contents first len res.headers keepAlive i read p
  streamed : ∀ (srv : WebServer) (files : Nat → Bytes) (tls : Bool) (input : Bytes)
    (events : List WebEvent) (c : WebConn),
    run (webStep srv) (WebConn.accepted tls input) events = some c →
    FromFiles files c.streamActs →
    ∀ i req b, RepliedTo srv (dispatches c.trace) i req res →
      .queue (.head i b len) ∈ c.trace →
      (ExactBody (files i) first len (bodyOf i c.trace) ↔ (bodyOf i c.trace).length = len) ∧
        ((bodyOf i c.trace).length = len ∨ (∃ s, c.stream = some s ∧ s.request = i) ∨
          c.out.closed = true ∨ c.closeWhenDrained = true)

/-- A 206 for several ranges is exact. A 206 for one range has the body that the reads returned: it
    is exact just if they returned as many bytes as its `Content-Range` names, which a file that
    has become too short does not have. -/
theorem partial_content_exact_iff (env : StaticEnv) (opts : StaticOpts) (req : Request)
    (hget : porticoReqMethodIs req (ascii "HEAD") = false) (found : FoundFile)
    (opened : List Bytes) (hfound : findFile env req opts = some (found, opened))
    (hstat : found.stat.InRange)
    (h206 : (porticoResStatic env Reply.empty req opts).res.status = 206) :
    ((porticoResStatic env Reply.empty req opts).res.isFile = false →
      MultipartExact found req (porticoResStatic env Reply.empty req opts).res) ∧
    ((porticoResStatic env Reply.empty req opts).res.isFile = true →
      ∃ first len,
        PartReply env opts found (porticoResStatic env Reply.empty req opts).res first len ∧
        PartServed (porticoResStatic env Reply.empty req opts).res first len ∧
        ∀ contents body, contents.length < first + len →
          ¬ ExactBody contents first len body) := by
  rw [porticoResStatic_found hfound] at h206 ⊢
  obtain ⟨hmultipart, hpart⟩ := respondFile_partial hget hstat h206
  refine ⟨hmultipart, fun hfile => ?_⟩
  obtain ⟨first, len, hreply⟩ := hpart hfile
  refine ⟨first, len, hreply, ⟨?_, ?_, ?_⟩, fun contents body hshort => ?_⟩
  · intro contents srv e c keepAlive total i p hread hqueue
    exact httpServeFile_answer hreply hread hqueue
  · intro contents e c keepAlive i read p hread hqueue
    exact fileEmit_answer hreply hread hqueue
  · intro srv files tls input events c hrun hreads i req b hreplied hhead
    exact streamed_part hreply hrun hreads hreplied hhead
  · exact not_exactBody hreply.inside.1 hshort body

/-- A request for three bytes of the small site's file. -/
def middleRequest : Request := demoRequest "/a" [⟨ascii "Range", ascii "bytes=1-3"⟩]

/-- What `portico_res_static` makes of it. -/
def middleReply : Reply := (porticoResStatic demoEnv Reply.empty middleRequest (demoOpts false)).res

theorem partial_content_exact_iff_middle :
    ∃ first len, PartReply demoEnv (demoOpts false) (demoFound demoStat) middleReply first len ∧
      PartServed middleReply first len := by
  have hstat : (demoFound demoStat).stat.InRange := ⟨by decide, by decide⟩
  obtain ⟨-, hpart⟩ := partial_content_exact_iff demoEnv (demoOpts false) middleRequest
    (by decide +kernel) (demoFound demoStat) [ascii "/w/a"]
    (findFile_demo rfl (by decide) noDates _) hstat (by decide +kernel)
  obtain ⟨first, len, hreply, hserved, -⟩ := hpart (by decide +kernel)
  exact ⟨first, len, hreply, hserved⟩

/-- The read for `bytes 1-3/5` returns one byte: the response is still a 206 with that line. -/
theorem short_read_answered_206 :
    middleReply.status = 206 ∧
    lineOf (ascii "Content-Range", ascii "bytes 1-3/5") <:+: middleReply.headers ∧
    ((WebConn.accepted false []).fileEmit .taking (fileCtx middleReply true 0)
        (some (ascii "b"))).1.trace =
      [.queue (.whole (.request 0) (responseHead 206 middleReply.headers 1 true ++ ascii "b"))] ∧
    ∀ contents, ¬ ExactBody contents 1 3 (ascii "b") := by
  refine ⟨by decide +kernel, by decide +kernel, by decide +kernel, fun contents h => ?_⟩
  exact absurd h.length (by decide)

end Portico.Http
