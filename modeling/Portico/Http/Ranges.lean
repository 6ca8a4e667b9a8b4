/-
  Ranges: what `parse_range` of src/http/connection.c makes of a `Range` header.

  Model. `RangeSpec` is a byte-range-spec of RFC 7233, the numbers being runs of digits of any
  length; `Selects` says which positions of a file it names. Neither looks at the code. `strtoll`
  and `parseRange` are those of Portico.Http.Static; a file size is a `long long`.

  Proved: every range that `parse_range` gives lies inside the file (`parseRange_within`); on the
  specs of the grammar it gives what they select (`range_selection`). It accepts more than the
  grammar, because `strtoll` skips white space and reads a sign (`strtoll_reads`), and
  `range_grammar_iff` says which of the accepted values are not in the grammar.
-/
import Portico.Http.Builders
import Portico.Http.Static

namespace Portico.Http

open Portico.Ws List

/-! ## The grammar -/

/-- `first-last`, `first-` and `-length`. -/
inductive RangeSpec where
  | closed (first last : Bytes)
  | opened (first : Bytes)
  | suffix (length : Bytes)
  deriving DecidableEq, Repr

namespace RangeSpec

def text : RangeSpec → Bytes
  | closed first last => first ++ 45 :: last
  | opened first => first ++ [45]
  | suffix length => 45 :: length

/-- Every number is a run of digits. -/
def InDigits : RangeSpec → Prop
  | closed first last => IsDigits first ∧ IsDigits last
  | opened first => IsDigits first
  | suffix length => IsDigits length

/-- The last position is not in front of the first, and a suffix is not empty. -/
def Proper : RangeSpec → Prop
  | closed first last => decimalValue first ≤ decimalValue last
  | opened _ => True
  | suffix length => 1 ≤ decimalValue length

/-- The position is one of those that the spec names in a file of that size. -/
def Selects (size : Int) (spec : RangeSpec) (pos : Int) : Prop :=
  0 ≤ pos ∧ pos < size ∧
    match spec with
    | closed first last => decimalValue first ≤ pos ∧ pos ≤ decimalValue last
    | opened first => decimalValue first ≤ pos
    | suffix length => size - decimalValue length ≤ pos

end RangeSpec

/-! ## Numbers -/

theorem isDigit_iff (b : UInt8) : isDigit b = true ↔ 48 ≤ b ∧ b ≤ 57 := by
  simp [isDigit]

variable {b : UInt8}

theorem isSpace_of_isDigit (h : isDigit b = true) : isSpace b = false := by
  have hb := (isDigit_iff b).mp h
  simp only [isSpace, Bool.or_eq_false_iff, beq_eq_false_iff_ne, Bool.and_eq_false_iff,
    decide_eq_false_iff_not]
  refine ⟨?_, Or.inr ?_⟩
  · rintro rfl
    exact absurd hb.1 (by decide)
  · intro h13
    exact absurd (UInt8.le_trans hb.1 h13) (by decide)

theorem isDigits_iff (ds : Bytes) : IsDigits ds ↔ ds ≠ [] ∧ ∀ b ∈ ds, isDigit b = true := by
  simp only [IsDigits, isDigit_iff]

variable {ds v s : Bytes} {size : Int} {spec : RangeSpec}

/-- A run of digits is read whole, up to what is not a digit. -/
theorem strtoll_digits {rest : Bytes} (hds : IsDigits ds)
    (hrest : ∀ b, rest.head? = some b → isDigit b = false) :
    strtoll (ds ++ rest) = (min (decimalValue ds : Int) llongMax, rest) := by
  obtain ⟨hne, hdigit⟩ := (isDigits_iff ds).mp hds
  cases ds with
  | nil => exact absurd rfl hne
  | cons d ds =>
    have hd := hdigit d mem_cons_self
    have hspace : ((d :: ds) ++ rest).dropWhile isSpace = (d :: ds) ++ rest :=
      dropWhile_cons_of_neg (by simp [isSpace_of_isDigit hd])
    have hsign : d ≠ 43 ∧ d ≠ 45 := by
      refine ⟨?_, ?_⟩ <;> rintro rfl <;> exact absurd hd (by decide)
    have hrun : rest.takeWhile isDigit = [] ∧ rest.dropWhile isDigit = rest := by
      cases rest with
      | nil => exact ⟨rfl, rfl⟩
      | cons b => simp [hrest b rfl]
    have htake : ((d :: ds) ++ rest).takeWhile isDigit = d :: ds := by
      rw [takeWhile_append_of_pos hdigit, hrun.1, append_nil]
    have hdrop : ((d :: ds) ++ rest).dropWhile isDigit = rest := by
      rw [dropWhile_append_of_pos hdigit, hrun.2]
    have hhead : ((d :: ds) ++ rest).head? = some d := rfl
    simp only [strtoll, hspace, hhead, Option.some.injEq, hsign.1, hsign.2, or_self, if_false,
      htake, hdrop, cons_ne_nil]

/-- What `strtoll` reads if it moves at all: white space, at most one sign, and digits. -/
theorem strtoll_reads (h : (strtoll s).2 ≠ s) :
    ∃ blanks sign ds, s = blanks ++ (sign ++ (ds ++ (strtoll s).2)) ∧
      (∀ b ∈ blanks, isSpace b = true) ∧ IsDigits ds ∧
      (sign = [] ∨ sign = [43] ∨ sign = [45] ∧ (strtoll s).1 ≤ 0) := by
  let t := s.dropWhile isSpace
  let sign : Bytes := if t.head? = some 43 ∨ t.head? = some 45 then t.take 1 else []
  let t' := if t.head? = some 43 ∨ t.head? = some 45 then t.tail else t
  have hblanks : s.takeWhile isSpace ++ t = s := takeWhile_append_dropWhile
  have hsigned : sign ++ t' = t := by
    by_cases hsgn : t.head? = some 43 ∨ t.head? = some 45
    · have htake : t.take 1 ++ t.tail = t := by
        cases t with
        | nil => rfl
        | cons => rfl
      simpa only [sign, t', if_pos hsgn] using htake
    · simp only [sign, t', if_neg hsgn, nil_append]
  have hds : t'.takeWhile isDigit ≠ [] := by
    intro hnil
    apply h
    show (if t'.takeWhile isDigit = [] then ((0 : Int), s) else _).2 = s
    rw [if_pos hnil]
  have hresult : strtoll s =
      (if t.head? = some 45 then max (-(decimalValue (t'.takeWhile isDigit) : Int)) (-llongMax - 1)
        else min (decimalValue (t'.takeWhile isDigit) : Int) llongMax,
        t'.dropWhile isDigit) := by
    show (if t'.takeWhile isDigit = [] then ((0 : Int), s) else _) = _
    rw [if_neg hds]
  refine ⟨s.takeWhile isSpace, sign, t'.takeWhile isDigit, ?_, ?_, ?_, ?_⟩
  · rw [hresult, takeWhile_append_dropWhile, hsigned, hblanks]
  · exact all_eq_true.mp all_takeWhile
  · exact (isDigits_iff _).mpr ⟨hds, all_eq_true.mp all_takeWhile⟩
  · by_cases hplus : t.head? = some 43
    · refine Or.inr (Or.inl ?_)
      simp only [sign, hplus, true_or, if_true]
      cases ht : t with
      | nil => simp [ht] at hplus
      | cons => simp_all
    · by_cases hminus : t.head? = some 45
      · refine Or.inr (Or.inr ⟨?_, ?_⟩)
        · simp only [sign, hminus, or_true, if_true]
          cases ht : t with
          | nil => simp [ht] at hminus
          | cons => simp_all
        · rw [hresult, if_pos hminus]
          simp only [llongMax]
          omega
      · exact Or.inl (by simp only [sign, hplus, hminus, or_self, if_false])

/-! ## What `parse_range` computes -/

/-- A value that is not ignored is `bytes=` and a text with a dash and no comma. -/
theorem parseRange_shape (h : parseRange v size ≠ .ignored) :
    ∃ x u, v = ascii "bytes=" ++ (x ++ 45 :: u) ∧ 45 ∉ x ∧ 44 ∉ x ++ 45 :: u := by
  unfold parseRange at h
  split at h
  · exact absurd rfl h
  rename_i hbytes
  simp only at h
  split at h
  · exact absurd rfl h
  rename_i hcomma
  split at h
  · exact absurd rfl h
  rename_i hdash
  have hv : v = ascii "bytes=" ++ v.drop 6 := by
    have hpre : ascii "bytes=" <+: v := by simpa using hbytes
    obtain ⟨t, rfl⟩ := hpre
    rfl
  have hmem : 45 ∈ v.drop 6 := by simpa using hdash
  obtain ⟨x, u, hxu, hx⟩ := eq_append_cons_of_mem hmem
  refine ⟨x, u, ?_, hx, ?_⟩
  · rw [← hxu]
    exact hv
  · rw [← hxu]
    simpa using hcomma

theorem parseRange_suffix {u : Bytes} (size : Int) (hcomma : 44 ∉ 45 :: u) :
    parseRange (ascii "bytes=" ++ 45 :: u) size =
      if (strtoll u).2 = u ∨ (strtoll u).2 ≠ [] ∨ (strtoll u).1 ≤ 0 then .ignored
      else rangeWithin size (size - min (strtoll u).1 size) (size - 1) := by
  have hpre : (ascii "bytes=").isPrefixOf (ascii "bytes=" ++ 45 :: u) = true := by
    simp
  have hdrop : (ascii "bytes=" ++ 45 :: u).drop 6 = 45 :: u := rfl
  have hc : (45 :: u).contains 44 = false := by simpa using hcomma
  have hd : (45 :: u).contains 45 = true := by simp
  have hdw : (45 :: u).dropWhile (· != 45) = 45 :: u := rfl
  simp only [parseRange, hpre, hdrop, hc, hd, hdw, Bool.not_true, Bool.false_eq_true, if_false,
    if_true, tail_cons]

theorem parseRange_first {x u : Bytes} (size : Int) (hx : x ≠ []) (hdash : 45 ∉ x)
    (hcomma : 44 ∉ x ++ 45 :: u) :
    parseRange (ascii "bytes=" ++ (x ++ 45 :: u)) size =
      if (strtoll (x ++ 45 :: u)).2 ≠ 45 :: u ∨ (strtoll (x ++ 45 :: u)).1 < 0 then .ignored
      else if u = [] then rangeWithin size (strtoll (x ++ 45 :: u)).1 (size - 1)
      else if (strtoll u).2 ≠ [] ∨ (strtoll u).1 < 0 then .ignored
      else rangeWithin size (strtoll (x ++ 45 :: u)).1
        (if (strtoll u).1 ≥ size then size - 1 else (strtoll u).1) := by
  have hpre : (ascii "bytes=").isPrefixOf (ascii "bytes=" ++ (x ++ 45 :: u)) = true := by
    simp
  have hdrop : (ascii "bytes=" ++ (x ++ 45 :: u)).drop 6 = x ++ 45 :: u := rfl
  have hc : (x ++ 45 :: u).contains 44 = false := by simpa using hcomma
  have hd : (x ++ 45 :: u).contains 45 = true := by simp
  have hdw : (x ++ 45 :: u).dropWhile (· != 45) = 45 :: u := by
    rw [dropWhile_append_of_pos]
    · rfl
    · intro b hb
      simpa using ne_of_mem_of_not_mem hb hdash
  have hne : 45 :: u ≠ x ++ 45 :: u := by
    intro heq
    exact hx (self_eq_append_left.mp heq)
  simp only [parseRange, hpre, hdrop, hc, hd, hdw, hne, Bool.not_true, Bool.false_eq_true, if_false,
    tail_cons]

/-- A result other than -1 comes of a first and a last position, and the last one is in the file. -/
theorem parseRange_positions (h : parseRange v size ≠ .ignored) :
    ∃ s e, 0 ≤ s ∧ e < size ∧ parseRange v size = rangeWithin size s e := by
  obtain ⟨x, u, rfl, hx, hcomma⟩ := parseRange_shape h
  by_cases hnil : x = []
  · subst hnil
    rw [nil_append] at h hcomma ⊢
    rw [parseRange_suffix size hcomma] at h ⊢
    split at h
    · exact absurd rfl h
    rename_i hread
    rw [if_neg hread]
    exact ⟨size - min (strtoll u).1 size, size - 1, by omega, by omega, rfl⟩
  · rw [parseRange_first size hnil hx hcomma] at h ⊢
    split at h
    · exact absurd rfl h
    rename_i hread
    rw [if_neg hread]
    have hs : 0 ≤ (strtoll (x ++ 45 :: u)).1 := by omega
    by_cases hu : u = []
    · rw [if_pos hu]
      exact ⟨_, size - 1, hs, by omega, rfl⟩
    · rw [if_neg hu] at h ⊢
      split at h
      · exact absurd rfl h
      rename_i hread'
      rw [if_neg hread']
      exact ⟨_, if (strtoll u).1 ≥ size then size - 1 else (strtoll u).1, hs,
        by split <;> omega, rfl⟩

theorem rangeWithin_eq_range {s e start len : Int} (h : rangeWithin size s e = .range start len) :
    s < size ∧ s ≤ e ∧ start = s ∧ len = e - s + 1 := by
  unfold rangeWithin at h
  split at h
  · cases h
  · cases h
    omega

/-- Every range that `parse_range` gives lies in the file. -/
theorem parseRange_within {start len : Int} (h : parseRange v size = .range start len) :
    0 ≤ start ∧ start < size ∧ 1 ≤ len ∧ len ≤ size - start := by
  have hread : parseRange v size ≠ .ignored := by
    rw [h]
    exact RangeResult.noConfusion
  obtain ⟨s, e, hs, he, heq⟩ := parseRange_positions hread
  obtain ⟨h1, h2, rfl, rfl⟩ := rangeWithin_eq_range (heq.symm.trans h)
  omega

theorem not_mem_digits (hds : IsDigits ds) (hb : isDigit b = false) : b ∉ ds := by
  intro hmem
  have := ((isDigits_iff ds).mp hds).2 b hmem
  rw [hb] at this
  exact Bool.false_ne_true this

theorem strtoll_all_digits (hds : IsDigits ds) :
    strtoll ds = (min (decimalValue ds : Int) llongMax, []) := by
  have h := @strtoll_digits ds [] hds (by simp)
  rwa [append_nil] at h

theorem strtoll_digits_dash (hds : IsDigits ds) (u : Bytes) :
    strtoll (ds ++ 45 :: u) = (min (decimalValue ds : Int) llongMax, 45 :: u) := by
  apply strtoll_digits hds
  intro b hb
  cases hb
  decide

/-- On a spec of the grammar the two positions bound what it selects. Numbers above `LLONG_MAX`
    are read as `LLONG_MAX`, which no position reaches. -/
theorem parseRange_spec (hmax : size ≤ llongMax) (hdigits : spec.InDigits) (hproper : spec.Proper) :
    ∃ s e, 0 ≤ s ∧ e < size ∧
      parseRange (ascii "bytes=" ++ spec.text) size = rangeWithin size s e ∧
      ∀ pos, spec.Selects size pos ↔ s ≤ pos ∧ pos ≤ e := by
  have hpos : (0 : Int) < llongMax := by decide
  cases spec with
  | closed first last =>
    obtain ⟨hfirst, hlast⟩ := hdigits
    have hdash : 45 ∉ first := not_mem_digits hfirst (by decide)
    have hcomma : 44 ∉ first ++ 45 :: last := by
      simp [not_mem_digits hfirst (b := 44) (by decide), not_mem_digits hlast (b := 44) (by decide)]
    refine ⟨min (decimalValue first) llongMax,
      if min (decimalValue last : Int) llongMax ≥ size then size - 1
        else min (decimalValue last) llongMax, by omega, ?_, ?_, ?_⟩
    · split <;> omega
    · rw [RangeSpec.text, parseRange_first size hfirst.1 hdash hcomma,
        strtoll_digits_dash hfirst, strtoll_all_digits hlast, if_neg (by simp; omega),
        if_neg hlast.1, if_neg (by simp; omega)]
    · intro pos
      simp only [RangeSpec.Proper] at hproper
      simp only [RangeSpec.Selects]
      split <;> omega
  | opened first =>
    have hdash : 45 ∉ first := not_mem_digits hdigits (by decide)
    have hcomma : 44 ∉ first ++ [45] := by
      simp [not_mem_digits hdigits (b := 44) (by decide)]
    refine ⟨min (decimalValue first) llongMax, size - 1, by omega, by omega, ?_, ?_⟩
    · rw [RangeSpec.text, parseRange_first size hdigits.1 hdash hcomma,
        strtoll_digits_dash hdigits, if_neg (by simp; omega), if_pos rfl]
    · intro pos
      simp only [RangeSpec.Selects]
      omega
  | suffix length =>
    have hcomma : 44 ∉ 45 :: length := by
      simp [not_mem_digits hdigits (b := 44) (by decide)]
    have hne : [] ≠ length := hdigits.1.symm
    simp only [RangeSpec.Proper] at hproper
    refine ⟨size - min (min (decimalValue length : Int) llongMax) size, size - 1, by omega,
      by omega, ?_, ?_⟩
    · rw [RangeSpec.text, parseRange_suffix size hcomma, strtoll_all_digits hdigits,
        if_neg (by simp [hne]; omega)]
    · intro pos
      simp only [RangeSpec.Selects]
      omega

theorem rangeWithin_selects {s e : Int} (hs : 0 ≤ s) (he : e < size) {selects : Int → Prop}
    (hsel : ∀ pos, selects pos ↔ s ≤ pos ∧ pos ≤ e) :
    ((∃ start len, rangeWithin size s e = .range start len) ↔ ∃ pos, selects pos) ∧
      (∀ start len, rangeWithin size s e = .range start len →
        ∀ pos, selects pos ↔ start ≤ pos ∧ pos < start + len) ∧
      ((¬ ∃ pos, selects pos) → rangeWithin size s e = .unsatisfiable) := by
  refine ⟨⟨?_, ?_⟩, ?_, ?_⟩
  · intro ⟨start, len, h⟩
    have hr := rangeWithin_eq_range h
    exact ⟨s, (hsel s).mpr (by omega)⟩
  · intro ⟨pos, hpos⟩
    have hin := (hsel pos).mp hpos
    refine ⟨s, e - s + 1, ?_⟩
    rw [rangeWithin, if_neg (by omega)]
  · intro start len h pos
    have hr := rangeWithin_eq_range h
    rw [hsel pos]
    omega
  · intro hnone
    have hempty : ¬ s ≤ e := by
      intro hle
      exact hnone ⟨s, (hsel s).mpr (by omega)⟩
    rw [rangeWithin, if_pos (by omega)]

/-- Every range is inside the file, and a spec of the grammar gives what it selects: 0 with just
    those bytes, or 1 if there are none. -/
theorem range_selection (size : Int) (hmax : size ≤ llongMax) :
    (∀ v start len, parseRange v size = .range start len →
      0 ≤ start ∧ start < size ∧ 1 ≤ len ∧ len ≤ size - start) ∧
    ∀ spec : RangeSpec, spec.InDigits → spec.Proper →
      ((∃ start len, parseRange (ascii "bytes=" ++ spec.text) size = .range start len) ↔
        ∃ pos, spec.Selects size pos) ∧
      (∀ start len, parseRange (ascii "bytes=" ++ spec.text) size = .range start len →
        ∀ pos, spec.Selects size pos ↔ start ≤ pos ∧ pos < start + len) ∧
      ((¬ ∃ pos, spec.Selects size pos) →
        parseRange (ascii "bytes=" ++ spec.text) size = .unsatisfiable) := by
  refine ⟨fun v start len h => parseRange_within h, ?_⟩
  intro spec hdigits hproper
  obtain ⟨s, e, hs, he, heq, hsel⟩ := parseRange_spec hmax hdigits hproper
  rw [heq]
  exact rangeWithin_selects hs he hsel

theorem range_selection_ten :
    parseRange (ascii "bytes=2-99999999999999999999") 10 = .range 2 8 ∧
      ((∃ start len, parseRange (ascii "bytes=" ++ (RangeSpec.suffix (decimal 4)).text) 10 =
          .range start len) ↔ ∃ pos, (RangeSpec.suffix (decimal 4)).Selects 10 pos) :=
  ⟨by decide, ((range_selection 10 (by decide)).2 (.suffix (decimal 4)) (decimal_states 4).1
    (show 1 ≤ decimalValue (decimal 4) by rw [(decimal_states 4).2]; decide)).1⟩

/-! ## What is accepted -/

/-- The value is `bytes=` and one spec of the grammar. -/
def InGrammar (v : Bytes) : Prop :=
  ∃ spec : RangeSpec, spec.InDigits ∧ v = ascii "bytes=" ++ spec.text

/-- Behind `bytes=` there is no white space, no plus sign and no second dash. -/
def Unsigned (v : Bytes) : Prop :=
  (∀ b ∈ v.drop 6, isSpace b = false ∧ b ≠ 43) ∧ (v.drop 6).count 45 ≤ 1

theorem IsDigits.unsigned (hds : IsDigits ds) :
    (∀ b ∈ ds, isSpace b = false ∧ b ≠ 43) ∧ ds.count 45 = 0 := by
  refine ⟨fun b hb => ⟨?_, ?_⟩, count_eq_zero.mpr (not_mem_digits hds (by decide))⟩
  · exact isSpace_of_isDigit (((isDigits_iff ds).mp hds).2 b hb)
  · exact ne_of_mem_of_not_mem hb (not_mem_digits hds (by decide))

theorem RangeSpec.text_unsigned (h : spec.InDigits) : Unsigned (ascii "bytes=" ++ spec.text) := by
  have hdash : isSpace 45 = false ∧ (45 : UInt8) ≠ 43 := by decide
  show (∀ b ∈ spec.text, isSpace b = false ∧ b ≠ 43) ∧ spec.text.count 45 ≤ 1
  cases spec with
  | closed =>
    obtain ⟨hfirst, hlast⟩ := h
    refine ⟨?_, ?_⟩
    · intro b hb
      simp only [RangeSpec.text, mem_append, mem_cons] at hb
      obtain hb | rfl | hb := hb
      · exact hfirst.unsigned.1 b hb
      · exact hdash
      · exact hlast.unsigned.1 b hb
    · simp [RangeSpec.text, count_append, hfirst.unsigned.2, hlast.unsigned.2]
  | opened =>
    refine ⟨?_, ?_⟩
    · intro b hb
      simp only [RangeSpec.text, mem_append, mem_singleton] at hb
      obtain hb | rfl := hb
      · exact IsDigits.unsigned h |>.1 b hb
      · exact hdash
    · simp [RangeSpec.text, count_append, IsDigits.unsigned h |>.2]
  | suffix =>
    refine ⟨?_, ?_⟩
    · intro b hb
      obtain rfl | hb := mem_cons.mp hb
      · exact hdash
      · exact IsDigits.unsigned h |>.1 b hb
    · simp [RangeSpec.text, IsDigits.unsigned h |>.2]

theorem InGrammar.unsigned (h : InGrammar v) : Unsigned v := by
  obtain ⟨spec, hspec, rfl⟩ := h
  exact spec.text_unsigned hspec

/-- Without white space and plus signs `strtoll` reads digits, perhaps behind a dash. -/
theorem strtoll_reads_plain (h : (strtoll s).2 ≠ s) (hplain : ∀ b ∈ s, isSpace b = false ∧ b ≠ 43) :
    ∃ ds, IsDigits ds ∧
      (s = ds ++ (strtoll s).2 ∨ s = 45 :: (ds ++ (strtoll s).2) ∧ (strtoll s).1 ≤ 0) := by
  obtain ⟨blanks, sign, ds, heq, hblanks, hds, hsign⟩ := strtoll_reads h
  have hnone : blanks = [] := by
    apply eq_nil_iff_forall_not_mem.mpr
    intro b hb
    have hspace := (hplain b (by rw [heq]; exact mem_append_left _ hb)).1
    rw [hblanks b hb] at hspace
    exact Bool.false_ne_true hspace.symm
  rw [hnone, nil_append] at heq
  refine ⟨ds, hds, ?_⟩
  obtain rfl | rfl | ⟨rfl, hneg⟩ := hsign
  · exact Or.inl heq
  · exact absurd rfl (hplain 43 (by rw [heq]; exact mem_cons_self)).2
  · exact Or.inr ⟨heq, hneg⟩

/-- A value that is accepted and has no sign and no white space is in the grammar. -/
theorem parseRange_inGrammar (h : parseRange v size ≠ .ignored) (hplain : Unsigned v) :
    InGrammar v := by
  obtain ⟨x, u, rfl, hx, hcomma⟩ := parseRange_shape h
  obtain ⟨hclean, hcount⟩ := hplain
  have hdrop : (ascii "bytes=" ++ (x ++ 45 :: u)).drop 6 = x ++ 45 :: u := rfl
  rw [hdrop] at hclean hcount
  have hu : ∀ b ∈ u, isSpace b = false ∧ b ≠ 43 := by
    intro b hb
    exact hclean b (by simp [hb])
  have hdash : 45 ∉ u := by
    intro hmem
    have := count_pos_iff.mpr hmem
    simp only [count_append, count_cons_self] at hcount
    omega
  by_cases hnil : x = []
  · subst hnil
    rw [nil_append] at h hcomma
    rw [parseRange_suffix size hcomma] at h
    split at h
    · exact absurd rfl h
    rename_i hread
    simp only [not_or, not_not, Int.not_le] at hread
    obtain ⟨hmoved, hrest, hvalue⟩ := hread
    obtain ⟨ds, hds, heq | ⟨-, hneg⟩⟩ := strtoll_reads_plain hmoved hu
    · rw [hrest, append_nil] at heq
      subst heq
      exact ⟨.suffix u, hds, rfl⟩
    · omega
  · rw [parseRange_first size hnil hx hcomma] at h
    split at h
    · exact absurd rfl h
    rename_i hread
    simp only [not_or, not_not] at hread
    obtain ⟨hrest, -⟩ := hread
    have hmoved : (strtoll (x ++ 45 :: u)).2 ≠ x ++ 45 :: u := by
      rw [hrest]
      intro heq
      exact hnil (self_eq_append_left.mp heq)
    have hfirst : IsDigits x := by
      obtain ⟨ds, hds, heq | ⟨heq, -⟩⟩ := strtoll_reads_plain hmoved hclean
      · rw [hrest] at heq
        rwa [append_cancel_right heq]
      · rw [hrest, ← cons_append] at heq
        rw [append_cancel_right heq] at hx
        exact absurd mem_cons_self hx
    split at h
    · rename_i hend
      subst hend
      exact ⟨.opened x, hfirst, rfl⟩
    rename_i hne
    split at h
    · exact absurd rfl h
    rename_i hread'
    simp only [not_or, not_not] at hread'
    obtain ⟨hrest', -⟩ := hread'
    have hlast : IsDigits u := by
      obtain ⟨ds, hds, heq | ⟨heq, -⟩⟩ := strtoll_reads_plain (by rw [hrest']; exact Ne.symm hne) hu
      · rw [hrest', append_nil] at heq
        rwa [heq]
      · rw [heq] at hdash
        exact absurd mem_cons_self hdash
    exact ⟨.closed x u, ⟨hfirst, hlast⟩, rfl⟩

/-- The accepted values of the grammar are those without white space, plus signs and a second
    dash. -/
theorem range_grammar_iff (v : Bytes) (size : Int) (h : parseRange v size ≠ .ignored) :
    InGrammar v ↔ Unsigned v :=
  ⟨InGrammar.unsigned, parseRange_inGrammar h⟩

theorem range_grammar_iff_closed :
    parseRange (ascii "bytes=0-1") 5 = .range 0 2 ∧
      (InGrammar (ascii "bytes=0-1") ↔ Unsigned (ascii "bytes=0-1")) :=
  ⟨by decide, range_grammar_iff (ascii "bytes=0-1") 5 (by decide)⟩

/-- White space and a sign are taken for a number, and a negative zero for a last position. -/
theorem signed_range_accepted :
    (parseRange (ascii "bytes= 0-1") 5 = .range 0 2 ∧ ¬ InGrammar (ascii "bytes= 0-1")) ∧
      (parseRange (ascii "bytes=-+5") 5 = .range 0 5 ∧ ¬ InGrammar (ascii "bytes=-+5")) ∧
      parseRange (ascii "bytes=0--0") 5 = .range 0 1 ∧ ¬ InGrammar (ascii "bytes=0--0") := by
  refine ⟨⟨by decide, fun h => ?_⟩, ⟨by decide, fun h => ?_⟩, by decide, fun h => ?_⟩
  · exact absurd (h.unsigned.1 32 (by decide)).1 (by decide)
  · exact absurd rfl (h.unsigned.1 43 (by decide)).2
  · exact absurd h.unsigned.2 (by decide)

end Portico.Http
