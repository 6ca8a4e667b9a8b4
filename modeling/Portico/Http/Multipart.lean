/-
  Several ranges in one request: `serve_byteranges` of src/http/connection.c and the way
  `portico_res_static` uses it.

  Model. `rangeSpecs` are the elements of a `Range` header's comma-separated list without the
  blanks in front of them, and `satisfiable` the ranges of those for which `parse_range` returns 0.
  `multipartBody` is the body that belongs to a list of ranges of a file. A read returns bytes of
  the file from the offset on, perhaps fewer than were asked for (`ReadsFrom`).

  Proved: `multipart_body_exact`: no line of a multipart body is cut off, and the body that is
  served is the one that belongs to the satisfiable specs. `one_satisfiable_iff`: a list with one
  satisfiable spec is answered with that range only if it is no list.
-/
import Portico.Http.Ranges
import Portico.Http.StaticAnswer

namespace Portico.Http

open Portico.Ws List

/-! ## The ranges of a header -/

/-- The elements of the list behind `bytes=`; a header in another unit has none. -/
def rangeSpecs (rangehdr : Bytes) : List Bytes :=
  if !(ascii "bytes=").isPrefixOf rangehdr then []
  else ((rangehdr.drop 6).splitOnP (· == 44)).map (·.dropWhile isBlank)

/-- The range that a spec gives, if `parse_range` returns 0. -/
def specRange (total : Int) (spec : Bytes) : Option (Int × Int) :=
  match parseRange (ascii "bytes=" ++ spec) total with
  | .range start len => some (start, len)
  | .unsatisfiable => none
  | .ignored => none

/-- The ranges of the satisfiable specs, in the order of the header. -/
def satisfiable (total : Int) (rangehdr : Bytes) : List (Int × Int) :=
  (rangeSpecs rangehdr).filterMap (specRange total)

variable {total start len : Int} {rangehdr bl contents : Bytes} {req : Request} {p : Int × Int}
  {st : Stat}

theorem specRange_eq_some {spec : Bytes} :
    specRange total spec = some (start, len) ↔
      parseRange (ascii "bytes=" ++ spec) total = .range start len := by
  unfold specRange
  split <;> rename_i heq <;> simp [heq]

theorem satisfiable_within (total : Int) (rangehdr : Bytes) :
    ∀ p ∈ satisfiable total rangehdr, 0 ≤ p.1 ∧ p.1 < total ∧ 1 ≤ p.2 ∧ p.2 ≤ total - p.1 := by
  intro p hp
  obtain ⟨spec, -, hspec⟩ := mem_filterMap.mp hp
  exact parseRange_within (specRange_eq_some.mp hspec)

/-- The loop over the tokens, where it comes to its end. -/
theorem collectParts_some {toks : List Bytes} :
    ∀ {parts ps : List (Int × Int)}, collectParts total toks parts = some ps →
      ps = parts ++ (toks.map (·.dropWhile isBlank)).filterMap (specRange total) ∧
        ∀ tok ∈ toks, (ascii "bytes=" ++ tok.dropWhile isBlank).length < 80 := by
  induction toks with
  | nil =>
    intro parts ps h
    cases h
    exact ⟨by simp, by simp⟩
  | cons tok toks ih =>
    intro parts ps h
    rw [collectParts] at h
    split at h
    · cases h
    rename_i hfits
    have hskip : specRange total (tok.dropWhile isBlank) = none →
        collectParts total toks parts = some ps →
        ps = parts ++ ((tok :: toks).map (·.dropWhile isBlank)).filterMap (specRange total) ∧
          ∀ t ∈ tok :: toks, (ascii "bytes=" ++ t.dropWhile isBlank).length < 80 := by
      intro hspec h
      obtain ⟨hps, hall⟩ := ih h
      rw [map_cons, filterMap_cons_none hspec]
      exact ⟨hps, forall_mem_cons.mpr ⟨by omega, hall⟩⟩
    cases hr : parseRange (ascii "bytes=" ++ tok.dropWhile isBlank) total with
    | range =>
      rw [hr] at h
      dsimp only at h
      split at h
      · cases h
      obtain ⟨hps, hall⟩ := ih h
      rw [map_cons, filterMap_cons_some (specRange_eq_some.mpr hr)]
      refine ⟨?_, forall_mem_cons.mpr ⟨by omega, hall⟩⟩
      rw [hps, append_assoc, singleton_append]
    | unsatisfiable | ignored =>
      rw [hr] at h
      exact hskip (by rw [specRange, hr]) h

/-- An empty element gives no range, so `strtok` leaves nothing out. -/
theorem satisfiable_commaTokens (total : Int)
    (hunit : ¬ (!(ascii "bytes=").isPrefixOf rangehdr) = true) :
    ((commaTokens (rangehdr.drop 6)).map (·.dropWhile isBlank)).filterMap (specRange total) =
      satisfiable total rangehdr := by
  have hempty : specRange total ([] : Bytes) = none := rfl
  rw [satisfiable, rangeSpecs, if_neg hunit, filterMap_map, filterMap_map, commaTokens,
    filterMap_filter]
  apply filterMap_congr
  intro tok _
  by_cases hnil : tok = []
  · subst hnil
    exact hempty.symm
  · simp [hnil]

/-! ## The body -/

/-- A read gives bytes of the file from the offset on, and no more than were asked for. -/
def ReadsFrom (contents : Bytes) (pread : (len off : Nat) → Option Bytes) : Prop :=
  ∀ len off data, pread len off = some data → data <+: (contents.drop off).take len

/-- The lines in front of a part. -/
def partHead (boundary ctype : Bytes) (total : Int) (p : Int × Int) : Bytes :=
  ascii "--" ++ boundary ++ crlf ++ ascii "Content-Type: " ++ ctype ++ crlf ++
    ascii "Content-Range: bytes " ++ decimalInt p.1 ++ ascii "-" ++ decimalInt (p.1 + p.2 - 1) ++
    ascii "/" ++ decimalInt total ++ crlf ++ crlf

/-- A part: its lines, the bytes of the range, and a line break. -/
def bodyPart (contents boundary ctype : Bytes) (total : Int) (p : Int × Int) : Bytes :=
  partHead boundary ctype total p ++ (contents.drop p.1.toNat).take p.2.toNat ++ crlf

def closingLine (boundary : Bytes) : Bytes := ascii "--" ++ boundary ++ ascii "--" ++ crlf

def multipartBody (contents boundary ctype : Bytes) (total : Int) (parts : List (Int × Int)) :
    Bytes :=
  parts.flatMap (bodyPart contents boundary ctype total) ++ closingLine boundary

/-- `cap`: the bytes that `serve_byteranges` allocates. -/
def multipartCap (boundary ctype : Bytes) (parts : List (Int × Int)) : Nat :=
  (parts.map fun p => p.2.toNat).sum +
    (parts.length * (boundary.length + ctype.length + 160) + boundary.length + 16)

theorem decimalInt_length_of_le {n : Int} (h0 : 0 ≤ n) (h : n ≤ llongMax) :
    (decimalInt n).length ≤ 19 := by
  rw [decimalInt, if_neg (by omega)]
  apply decimal_length_le (by decide)
  unfold llongMax at h
  omega

/-- The lines of a part take less than what is set aside for them, at any number of digits. -/
theorem partHead_length_le (htotal : total ≤ llongMax)
    (hp : 0 ≤ p.1 ∧ p.1 < total ∧ 1 ≤ p.2 ∧ p.2 ≤ total - p.1) (boundary ctype : Bytes) :
    (partHead boundary ctype total p).length ≤ boundary.length + ctype.length + 104 := by
  have h1 : (decimalInt p.1).length ≤ 19 := decimalInt_length_of_le hp.1 (by omega)
  have h2 : (decimalInt (p.1 + p.2 - 1)).length ≤ 19 :=
    decimalInt_length_of_le (by omega) (by omega)
  have h3 : (decimalInt total).length ≤ 19 := decimalInt_length_of_le (by omega) htotal
  have hfix : (ascii "--").length = 2 ∧ crlf.length = 2 ∧ (ascii "Content-Type: ").length = 14 ∧
    (ascii "Content-Range: bytes ").length = 21 ∧ (ascii "-").length = 1 ∧
    (ascii "/").length = 1 := by decide
  simp only [partHead, length_append]
  omega

/-- The loop that puts the body together: a read comes out short, or every line fits and the body
    is the one that belongs to the ranges. -/
theorem assembleParts_eq {pread : (len off : Nat) → Option Bytes}
    (hreads : ReadsFrom contents pread) (htotal : total ≤ llongMax) (boundary ctype : Bytes)
    (cap : Nat) {parts : List (Int × Int)}
    (hparts : ∀ p ∈ parts, 0 ≤ p.1 ∧ p.1 < total ∧ 1 ≤ p.2 ∧ p.2 ≤ total - p.1) :
    ∀ body : Bytes, body.length + multipartCap boundary ctype parts ≤ cap →
      assembleParts pread cap boundary ctype total parts body = .shortRead ∨
        assembleParts pread cap boundary ctype total parts body =
            .body (body ++ multipartBody contents boundary ctype total parts) ∧
          (body ++ multipartBody contents boundary ctype total parts).length < cap ∧
          ∀ p ∈ parts, ((contents.drop p.1.toNat).take p.2.toNat).length = p.2.toNat := by
  have hcrlf : crlf.length = 2 := by decide
  induction parts with
  | nil =>
    intro body hcap
    have hline : (closingLine boundary).length = boundary.length + 6 := by
      simp only [closingLine, length_append, hcrlf]
      have : (ascii "--").length = 2 := by decide
      omega
    simp only [multipartCap, map_nil, sum_nil, length_nil] at hcap
    have hbody : multipartBody contents boundary ctype total [] = closingLine boundary := rfl
    rw [hbody, length_append, hline]
    refine Or.inr ⟨?_, by omega, fun p hp => absurd hp not_mem_nil⟩
    rw [assembleParts]
    show (if cap ≤ body.length + (closingLine boundary).length then Assembled.overrun else _) = _
    rw [if_neg (by omega)]
    rfl
  | cons p parts ih =>
    intro body hcap
    obtain ⟨s, l⟩ := p
    obtain ⟨hp, hrest⟩ := forall_mem_cons.mp hparts
    have hhead := partHead_length_le htotal hp boundary ctype
    simp only [multipartCap, map_cons, sum_cons, length_cons, Nat.succ_mul] at hcap
    rw [assembleParts]
    show (if cap ≤ body.length + (partHead boundary ctype total (s, l)).length then
      Assembled.overrun else _) = _ ∨ (if cap ≤ body.length +
        (partHead boundary ctype total (s, l)).length then Assembled.overrun else _) = _ ∧ _
    rw [if_neg (by omega)]
    cases hread : pread l.toNat s.toNat with
    | none => exact Or.inl rfl
    | some data =>
      dsimp only
      by_cases hlen : data.length = l.toNat
      · have hdata : data = (contents.drop s.toNat).take l.toNat := by
          have hpre := hreads _ _ _ hread
          apply hpre.eq_of_length
          have := hpre.length_le
          rw [length_take] at this ⊢
          omega
        rw [if_neg (by omega)]
        rw [if_neg]
        · have hnext : body ++ multipartBody contents boundary ctype total ((s, l) :: parts) =
              body ++ partHead boundary ctype total (s, l) ++ data ++ crlf ++
                multipartBody contents boundary ctype total parts := by
            simp only [multipartBody, flatMap_cons, bodyPart, ← hdata, append_assoc]
          have hfits : (body ++ partHead boundary ctype total (s, l) ++ data ++ crlf).length +
              multipartCap boundary ctype parts ≤ cap := by
            simp only [multipartCap, length_append, hcrlf]
            omega
          rw [hnext]
          refine (ih hrest _ hfits).imp_right fun h => ⟨h.1, h.2.1, ?_⟩
          exact forall_mem_cons.mpr ⟨by rw [← hdata, hlen], h.2.2⟩
        · show ¬ cap ≤ (body ++ partHead boundary ctype total (s, l) ++ data).length + 2
          simp only [length_append]
          omega
      · rw [if_pos hlen]
        exact Or.inl rfl

/-! ## The boundary -/

/-- The text that the boundary's buffer of 96 bytes is filled with, up to the closing quote. -/
theorem boundaryOf_fileEtag (h : st.InRange) :
    boundaryOf (fileEtag st) = ascii "PORTICO_BYTERANGE_" ++ etagText st := by
  have hlen := etagText_length_le h
  have hfix : (ascii "PORTICO_BYTERANGE_").length = 18 := by decide
  have hquote : 34 ∉ ascii "PORTICO_BYTERANGE_" ++ etagText st := by
    have h1 : 34 ∉ ascii "PORTICO_BYTERANGE_" := by decide
    have h2 : 34 ∉ etagText st := not_mem_etagText (by decide) (by decide)
    simp [h1, h2]
  have hhead : (fileEtag st).head? = some 34 := by rw [fileEtag_eq]; rfl
  have htail : (fileEtag st).tail = etagText st ++ [34] := by rw [fileEtag_eq]; rfl
  rw [boundaryOf, if_pos hhead, htail, take_of_length_le, ← append_assoc,
    takeWhile_append_of_pos]
  · simp
  · intro b hb
    simpa using ne_of_mem_of_not_mem hb hquote
  · simp only [length_append, length_singleton, hfix]
    omega

/-- The buffers for the ETag, the boundary and the `Content-Type` of the response hold their
    texts. -/
structure TextsFit (st : Stat) : Prop where
  etag : (fileEtag st).length < 64
  boundary : (ascii "PORTICO_BYTERANGE_" ++ (fileEtag st).tail).length < 96
  contentType :
    (ascii "multipart/byteranges; boundary=" ++ boundaryOf (fileEtag st)).length < 160

theorem textsFit (h : st.InRange) : TextsFit st := by
  have hlen := etagText_length_le h
  have hfix : (ascii "PORTICO_BYTERANGE_").length = 18 ∧
    (ascii "multipart/byteranges; boundary=").length = 31 := by decide
  have htail : (fileEtag st).tail = etagText st ++ [34] := by rw [fileEtag_eq]; rfl
  refine ⟨?_, ?_, ?_⟩
  · have := fileEtag_length_le h
    omega
  · simp only [htail, length_append, length_singleton]
    omega
  · rw [boundaryOf_fileEtag h]
    simp only [length_append]
    omega

/-! ## What is served -/

/-- The response with a multipart body. -/
def multipartReply (res : Reply) (contents : Bytes) (total : Int) (ctype etag lastmod : Bytes)
    (parts : List (Int × Int)) : Reply :=
  { multipartHeaders res etag lastmod with
    status := 206, body := multipartBody contents (boundaryOf etag) ctype total parts
    isFile := false }

/-- The results of `serve_byteranges` by what its loop over the tokens comes to: a body that
    overruns is not among them. -/
theorem serveByteranges_cases (allocOk : Bool) (res : Reply) {file : File}
    (hreads : ReadsFrom contents file.inode.pread) (rangehdr : Bytes) (htotal : total ≤ llongMax)
    (ctype etag lastmod : Bytes) :
    serveByteranges allocOk res file rangehdr total ctype etag lastmod = .fallBack ∨
      satisfiable total rangehdr = [] ∧
        serveByteranges allocOk res file rangehdr total ctype etag lastmod = .unsatisfiable ∨
      serveByteranges allocOk res file rangehdr total ctype etag lastmod =
          .served (multipartReply res contents total ctype etag lastmod
            (satisfiable total rangehdr)) ∧
        2 ≤ (satisfiable total rangehdr).length ∧
        (multipartBody contents (boundaryOf etag) ctype total
            (satisfiable total rangehdr)).length <
          multipartCap (boundaryOf etag) ctype (satisfiable total rangehdr) ∧
        (∀ spec ∈ rangeSpecs rangehdr, (ascii "bytes=" ++ spec).length < 80) ∧
        ∀ p ∈ satisfiable total rangehdr,
          ((contents.drop p.1.toNat).take p.2.toNat).length = p.2.toNat := by
  unfold serveByteranges
  split
  · exact Or.inl rfl
  rename_i hunit
  split
  · exact Or.inl rfl
  cases hc : collectParts total (commaTokens (rangehdr.drop 6)) [] with
  | none => exact Or.inl rfl
  | some =>
    obtain ⟨hparts, hshort⟩ := collectParts_some hc
    rw [nil_append, satisfiable_commaTokens total hunit] at hparts
    subst hparts
    cases hs : satisfiable total rangehdr with
    | nil => exact Or.inr (Or.inl ⟨rfl, rfl⟩)
    | cons p rest =>
      cases rest with
      | nil => exact Or.inl rfl
      | cons q rest =>
        have hwithin := satisfiable_within total rangehdr
        rw [hs] at hwithin
        dsimp only
        split
        · exact Or.inl rfl
        split
        · exact Or.inl rfl
        have hassemble := assembleParts_eq hreads htotal (boundaryOf etag) ctype
          (multipartCap (boundaryOf etag) ctype (p :: q :: rest)) hwithin [] (by simp)
        rw [nil_append] at hassemble
        obtain hread | ⟨hbody, hlen, hfull⟩ := hassemble
        · unfold multipartCap at hread
          rw [hread]
          exact Or.inl rfl
        · refine Or.inr (Or.inr ⟨?_, by simp, hlen, ?_, hfull⟩)
          · unfold multipartCap at hbody
            rw [hbody]
            rfl
          · rw [rangeSpecs, if_neg hunit]
            intro spec hspec
            obtain ⟨tok, htok, rfl⟩ := mem_map.mp hspec
            by_cases hnil : tok = []
            · subst hnil
              decide
            · apply hshort
              exact mem_filter.mpr ⟨htok, by simpa using hnil⟩

/-- For every header, content type and file: `serve_byteranges` never writes past its buffer or
    cuts a text off, and the body it serves is one part for each satisfiable spec, in the order of
    the header, and the closing boundary. -/
theorem multipart_body_exact (allocOk : Bool) (res : Reply) (file : File) (contents : Bytes)
    (hreads : ReadsFrom contents file.inode.pread) (rangehdr : Bytes) (total : Nat)
    (htotal : total ≤ fileMax) (ctype lastmod : Bytes) (st : Stat) (hst : st.InRange) :
    serveByteranges allocOk res file rangehdr total ctype (fileEtag st) lastmod ≠ .overrun ∧
      ∀ res', serveByteranges allocOk res file rangehdr total ctype (fileEtag st) lastmod =
          .served res' →
        2 ≤ (satisfiable total rangehdr).length ∧
          res'.body = multipartBody contents (ascii "PORTICO_BYTERANGE_" ++ etagText st) ctype total
            (satisfiable total rangehdr) ∧
          res'.body.length < multipartCap (ascii "PORTICO_BYTERANGE_" ++ etagText st) ctype
            (satisfiable total rangehdr) ∧
          TextsFit st ∧ ∀ spec ∈ rangeSpecs rangehdr, (ascii "bytes=" ++ spec).length < 80 := by
  have hmax : (total : Int) ≤ llongMax := by
    unfold fileMax at htotal
    unfold llongMax
    omega
  have hcases := serveByteranges_cases allocOk res hreads rangehdr hmax ctype (fileEtag st) lastmod
  rw [boundaryOf_fileEtag hst] at hcases
  obtain hback | ⟨-, hunsat⟩ | ⟨hserved, htwo, hcap, hspecs, -⟩ := hcases
  · rw [hback]
    exact ⟨Multipart.noConfusion, fun _ h => Multipart.noConfusion h⟩
  · rw [hunsat]
    exact ⟨Multipart.noConfusion, fun _ h => Multipart.noConfusion h⟩
  · rw [hserved]
    refine ⟨Multipart.noConfusion, fun res' h => ?_⟩
    cases h
    refine ⟨htwo, ?_, ?_, textsFit hst, hspecs⟩
    · rw [multipartReply, boundaryOf_fileEtag hst]
    · rw [multipartReply, boundaryOf_fileEtag hst]
      exact hcap

/-- A file of eight bytes. -/
def lettersFile : File :=
  { path := ascii "/w/a"
    inode :=
      { fstat := some ⟨.regular, 8, 0, 0⟩
        pread := fun len off => some (((ascii "abcdefgh").drop off).take len) } }

theorem lettersFile_reads : ReadsFrom (ascii "abcdefgh") lettersFile.inode.pread := by
  intro len off data h
  cases h
  exact prefix_rfl

theorem multipart_body_exact_letters :
    ∃ res', serveByteranges true Reply.empty lettersFile (ascii "bytes=0-1, 99-,-3") 8
        (ascii "text/plain") (fileEtag ⟨.regular, 8, 0, 0⟩) [] = .served res' ∧
      satisfiable 8 (ascii "bytes=0-1, 99-,-3") = [(0, 2), (5, 3)] ∧
      res'.body = multipartBody (ascii "abcdefgh")
        (ascii "PORTICO_BYTERANGE_" ++ etagText ⟨.regular, 8, 0, 0⟩) (ascii "text/plain") (8 : Nat)
        (satisfiable (8 : Nat) (ascii "bytes=0-1, 99-,-3")) := by
  have hserved : serveByteranges true Reply.empty lettersFile (ascii "bytes=0-1, 99-,-3") 8
      (ascii "text/plain") (fileEtag ⟨.regular, 8, 0, 0⟩) [] =
      .served (multipartReply Reply.empty (ascii "abcdefgh") 8 (ascii "text/plain")
        (fileEtag ⟨.regular, 8, 0, 0⟩) [] [(0, 2), (5, 3)]) := by decide +kernel
  refine ⟨_, hserved, by decide +kernel, ?_⟩
  exact ((multipart_body_exact true Reply.empty lettersFile (ascii "abcdefgh") lettersFile_reads
    (ascii "bytes=0-1, 99-,-3") 8 (by decide) (ascii "text/plain") [] ⟨.regular, 8, 0, 0⟩
    ⟨by decide, by decide⟩).2 _ hserved).2.1

/-! ## One satisfiable spec -/

/-- Blanks in front of a number are read with it. -/
theorem strtoll_blanks {s : Bytes} (hbl : ∀ b ∈ bl, isBlank b = true) (h : (strtoll s).2 ≠ s) :
    strtoll (bl ++ s) = strtoll s := by
  have hspace : ∀ b ∈ bl, isSpace b = true := by
    intro b hb
    have := hbl b hb
    simp only [isBlank, Bool.or_eq_true, beq_iff_eq] at this
    obtain rfl | rfl := this <;> decide
  simp only [strtoll, dropWhile_append_of_pos hspace] at h ⊢
  generalize (if (s.dropWhile isSpace).head? = some 43 ∨ (s.dropWhile isSpace).head? = some 45 then
    (s.dropWhile isSpace).tail else s.dropWhile isSpace) = t' at h ⊢
  by_cases hdigits : t'.takeWhile isDigit = []
  · rw [if_pos hdigits] at h
    exact absurd rfl h
  · rw [if_neg hdigits, if_neg hdigits]

/-- A suffix behind blanks is not read: `strtoll` takes its dash for a sign. -/
theorem parseRange_blanks_suffix {u : Bytes} (hne : bl ≠ []) (hbl : ∀ b ∈ bl, isBlank b = true)
    (hcomma : 44 ∉ bl ++ 45 :: u) (size : Int) :
    parseRange (ascii "bytes=" ++ (bl ++ 45 :: u)) size = .ignored := by
  have hdash : 45 ∉ bl := by
    intro hmem
    exact absurd (hbl 45 hmem) (by decide)
  rw [parseRange_first size hne hdash hcomma, if_pos]
  refine Or.inl ?_
  intro hrest
  have hmoved : (strtoll (bl ++ 45 :: u)).2 ≠ bl ++ 45 :: u := by
    rw [hrest]
    intro heq
    exact hne (self_eq_append_left.mp heq)
  obtain ⟨blanks, sign, ds, heq, -, hds, -⟩ := strtoll_reads hmoved
  rw [hrest, ← append_assoc, ← append_assoc] at heq
  have hbl' : bl = blanks ++ sign ++ ds := append_cancel_right heq
  obtain ⟨d, hd⟩ := exists_mem_of_ne_nil ds hds.1
  have hdigit := ((isDigits_iff ds).mp hds).2 d hd
  have hblank := hbl d (by rw [hbl']; simp [hd])
  simp only [isBlank, Bool.or_eq_true, beq_iff_eq] at hblank
  obtain rfl | rfl := hblank <;> exact absurd hdigit (by decide)

/-- Blanks in front of any other spec make no difference. -/
theorem parseRange_blanks_first {x u : Bytes} (hbl : ∀ b ∈ bl, isBlank b = true) (hx : x ≠ [])
    (hdash : 45 ∉ x) (hcomma : 44 ∉ x ++ 45 :: u) {size : Int}
    (h : parseRange (ascii "bytes=" ++ (x ++ 45 :: u)) size = .range start len) :
    parseRange (ascii "bytes=" ++ (bl ++ (x ++ 45 :: u))) size = .range start len := by
  have hdash' : 45 ∉ bl ++ x := by
    intro hmem
    obtain hmem | hmem := mem_append.mp hmem
    · exact absurd (hbl 45 hmem) (by decide)
    · exact hdash hmem
  have hcomma' : 44 ∉ bl ++ x ++ 45 :: u := by
    intro hmem
    rw [append_assoc] at hmem
    obtain hmem | hmem := mem_append.mp hmem
    · exact absurd (hbl 44 hmem) (by decide)
    · exact hcomma hmem
  rw [← append_assoc bl, parseRange_first size (by simp [hx]) hdash' hcomma',
    append_assoc]
  rw [parseRange_first size hx hdash hcomma] at h
  have hrest : (strtoll (x ++ 45 :: u)).2 = 45 :: u := by
    split at h
    · cases h
    · rename_i hread
      simp only [not_or, not_not] at hread
      exact hread.1
  rw [strtoll_blanks hbl]
  · exact h
  · rw [hrest]
    intro heq
    exact hx (self_eq_append_left.mp heq)

/-- The header has one spec, and no blank stands in front of it if it is a suffix. -/
def OneSpec (rangehdr : Bytes) : Prop :=
  44 ∉ rangehdr ∧
    ((rangehdr.drop 6).dropWhile isBlank = rangehdr.drop 6 ∨
      ((rangehdr.drop 6).dropWhile isBlank).head? ≠ some 45)

/-- Where the list has one satisfiable spec, `serve_byteranges` falls back. -/
theorem serveByteranges_one (hone : satisfiable total rangehdr = [p]) (allocOk : Bool) (res : Reply)
    (file : File) (ctype etag lastmod : Bytes) :
    serveByteranges allocOk res file rangehdr total ctype etag lastmod = .fallBack := by
  unfold serveByteranges
  split
  · rfl
  rename_i hunit
  split
  · rfl
  cases hc : collectParts total (commaTokens (rangehdr.drop 6)) [] with
  | none => rfl
  | some =>
    obtain ⟨hparts, -⟩ := collectParts_some hc
    rw [nil_append, satisfiable_commaTokens total hunit, hone] at hparts
    subst hparts
    rfl

/-- A header without a comma gives the range of its spec, but for a suffix behind blanks. -/
theorem parseRange_oneSpec (hone : satisfiable total rangehdr = [(start, len)])
    (hcomma : 44 ∉ rangehdr) :
    parseRange rangehdr total = .range start len ∧ OneSpec rangehdr ∨
      parseRange rangehdr total = .ignored ∧ ¬ OneSpec rangehdr := by
  have hunit : ¬ (!(ascii "bytes=").isPrefixOf rangehdr) = true := by
    intro hno
    rw [satisfiable, rangeSpecs, if_pos hno] at hone
    cases hone
  obtain ⟨t, rfl⟩ : ascii "bytes=" <+: rangehdr := by simpa using hunit
  have hdrop : (ascii "bytes=" ++ t).drop 6 = t := rfl
  have ht : 44 ∉ t := by
    intro hmem
    exact hcomma (mem_append_right _ hmem)
  have hno : ∀ b ∈ t, (b == 44) = false := by
    intro b hb
    simpa using ne_of_mem_of_not_mem hb ht
  have hspec : parseRange (ascii "bytes=" ++ t.dropWhile isBlank) total = .range start len := by
    rw [satisfiable, rangeSpecs, if_neg hunit, hdrop, splitOnP_eq_singleton hno,
      map_singleton] at hone
    apply specRange_eq_some.mp
    cases hs : specRange total (t.dropWhile isBlank) with
    | none => simp [hs] at hone
    | some => simpa [hs] using hone
  by_cases hsame : t.dropWhile isBlank = t
  · rw [hsame] at hspec
    exact Or.inl ⟨hspec, hcomma, Or.inl hsame⟩
  · have hbl : t.takeWhile isBlank ++ t.dropWhile isBlank = t := takeWhile_append_dropWhile
    have hblank : ∀ b ∈ t.takeWhile isBlank, isBlank b = true :=
      all_eq_true.mp all_takeWhile
    have hread : parseRange (ascii "bytes=" ++ t.dropWhile isBlank) total ≠ .ignored := by
      rw [hspec]
      exact RangeResult.noConfusion
    obtain ⟨x, u, heq, hx, hcomma'⟩ := parseRange_shape hread
    have ht' : t.dropWhile isBlank = x ++ 45 :: u := append_cancel_left heq
    have htext : t = t.takeWhile isBlank ++ (x ++ 45 :: u) := by rw [← ht', hbl]
    by_cases hnil : x = []
    · subst hnil
      refine Or.inr ⟨?_, ?_⟩
      · rw [htext]
        apply parseRange_blanks_suffix
        · intro hempty
          rw [hempty, nil_append] at hbl
          exact hsame hbl
        · exact hblank
        · rwa [htext] at ht
      · rintro ⟨-, hsame' | hhead⟩
        · exact hsame hsame'
        · rw [hdrop, ht'] at hhead
          exact hhead rfl
    · refine Or.inl ⟨?_, hcomma, Or.inr ?_⟩
      · rw [ht'] at hspec
        rw [htext]
        exact parseRange_blanks_first hblank hnil hx hcomma' hspec
      · rw [hdrop, ht']
        cases x with
        | nil => exact absurd rfl hnil
        | cons =>
          intro hb
          cases hb
          exact hx mem_cons_self

/-- The answer is a range of the file: 206, and the file from `start` on, `len` bytes of it. -/
structure AnswersRange (answer : StaticResult) (file : File) (start len : Int) : Prop where
  status : answer.res.status = 206
  isFile : answer.res.isFile = true
  file : answer.file = some file
  offset : answer.res.fileOffset = start.toNat
  size : answer.res.fileSize = len.toNat

theorem sendFile_part (env : StaticEnv) (opts : StaticOpts) (res : Reply)
    (hget : porticoReqMethodIs req (ascii "HEAD") = false) (found : FoundFile) (start len : Int)
    (opened : List Bytes) :
    AnswersRange (sendFile env opts res req found (some (start, len)) opened) found.file start
      len := by
  constructor <;> simp [sendFile, hget]

theorem not_head_of_get (h : porticoReqMethodIs req (ascii "GET") = true) :
    porticoReqMethodIs req (ascii "HEAD") = false := by
  simp only [porticoReqMethodIs, beq_iff_eq] at h
  rw [porticoReqMethodIs, h]
  decide

/-- How the range of a GET is answered if the header has one satisfiable spec. -/
theorem chooseRange_one {env : StaticEnv} (res : Reply) {found : FoundFile}
    (hget : porticoReqMethodIs req (ascii "HEAD") = false)
    (hrange : reqHeaderCopy req "Range" 256 = some rangehdr)
    (hhonored : honorsRange env.dates req found.stat = true)
    (hone : satisfiable found.stat.size rangehdr = [(start, len)]) :
    chooseRange env res req found = .part start len ∧ OneSpec rangehdr ∨
      chooseRange env res req found = .whole ∧ ¬ OneSpec rangehdr := by
  by_cases hcomma : 44 ∈ rangehdr
  · refine Or.inr ⟨?_, fun h => h.1 hcomma⟩
    simp [chooseRange, hrange, hhonored, hget, hcomma, serveByteranges_one hone]
  · obtain ⟨hparse, hspec⟩ | ⟨hparse, hspec⟩ := parseRange_oneSpec hone hcomma
    · refine Or.inl ⟨?_, hspec⟩
      simp [chooseRange, hrange, hhonored, hcomma, hparse]
    · refine Or.inr ⟨?_, hspec⟩
      simp [chooseRange, hrange, hhonored, hcomma, hparse]

/-- A GET whose `Range` header is honoured and has one satisfiable spec is answered with that
    range just if the header has no other element. -/
theorem one_satisfiable_iff (env : StaticEnv) (res : Reply) (req : Request) (opts : StaticOpts)
    (found : FoundFile) (opened : List Bytes)
    (hfound : findFile env req opts = some (found, opened))
    (hget : porticoReqMethodIs req (ascii "GET") = true)
    (hmodified : notModified env.dates req found.stat = false) (rangehdr : Bytes)
    (hrange : reqHeaderCopy req "Range" 256 = some rangehdr)
    (hhonored : honorsRange env.dates req found.stat = true) (start len : Int)
    (hone : satisfiable found.stat.size rangehdr = [(start, len)]) :
    AnswersRange (porticoResStatic env res req opts) found.file start len ↔ OneSpec rangehdr := by
  have hhead := not_head_of_get hget
  rw [porticoResStatic_found hfound, respondFile, if_neg (by simp [hmodified])]
  obtain ⟨hchoice, hspec⟩ | ⟨hchoice, hspec⟩ := chooseRange_one res hhead hrange hhonored hone
  · rw [hchoice]
    exact ⟨fun _ => hspec, fun _ => sendFile_part env opts res hhead found start len opened⟩
  · rw [hchoice]
    refine ⟨fun h => ?_, fun h => absurd h hspec⟩
    have hstatus := h.status
    rw [sendFile_status] at hstatus
    exact absurd hstatus (by decide)

theorem one_satisfiable_iff_alone :
    AnswersRange (porticoResStatic demoEnv Reply.empty
        (demoRequest "/a" [⟨ascii "Range", ascii "bytes=1-2"⟩]) (demoOpts false))
        (demoFound demoStat).file 1 2 ↔ OneSpec (ascii "bytes=1-2") :=
  one_satisfiable_iff demoEnv Reply.empty
    (demoRequest "/a" [⟨ascii "Range", ascii "bytes=1-2"⟩]) (demoOpts false) (demoFound demoStat)
    [ascii "/w/a"] (findFile_demo rfl (by decide) noDates _) (by decide +kernel)
    (by decide +kernel) (ascii "bytes=1-2") (by decide +kernel) (by decide +kernel) 1 2
    (by decide +kernel)

/-- A second spec that is not satisfiable: the whole file is sent. -/
theorem collapsed_list_ignored :
    satisfiable 5 (ascii "bytes=1-2,9-") = [(1, 2)] ∧
      (porticoResStatic demoEnv Reply.empty
        (demoRequest "/a" [⟨ascii "Range", ascii "bytes=1-2,9-"⟩]) (demoOpts false)).res.status =
          200 ∧
      (porticoResStatic demoEnv Reply.empty
        (demoRequest "/a" [⟨ascii "Range", ascii "bytes=1-2"⟩]) (demoOpts false)).res.status =
          206 :=
  ⟨by decide +kernel, by decide +kernel, by decide +kernel⟩

end Portico.Http
