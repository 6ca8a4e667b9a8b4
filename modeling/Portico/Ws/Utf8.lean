/-
  The UTF-8 validator of src/ws/ws_utf8.c: a table-driven automaton over bytes, used for text
  messages and for close reasons.

  The table, the decoding step and the loop are as in the source. Proved here is that the loop
  never reads outside the table: from the start state every state it can be in is one of the
  nine rows of the transition part (`utf8Decode_state_lt`, `utf8Run_state`); and that it accepts
  exactly the well-formed text of the Unicode standard (`wsUtf8Valid_iff`): a state stands for
  the byte ranges it still waits for.
-/
import Portico.Ws.Frame

namespace Portico.Ws

open List

/-- `UTF8_ACCEPT`. -/
def utf8Accept : Nat := 0

/-- `UTF8_REJECT`. -/
def utf8Reject : Nat := 12

/-- The first half of `utf8d`: the character class of each byte. -/
def utf8Classes : List Nat :=
  replicate 128 0 ++ replicate 16 1 ++ replicate 16 9 ++ replicate 32 7 ++
    [8, 8] ++ replicate 30 2 ++
    [10, 3, 3, 3, 3, 3, 3, 3, 3, 3, 3, 3, 3, 4, 3, 3] ++ [11, 6, 6, 6, 5] ++ replicate 11 8

/-- The second half of `utf8d`: the next state of each state and class. -/
def utf8Next : List Nat :=
  [0, 12, 24, 36, 60, 96, 84, 12, 12, 12, 48, 72,
   12, 12, 12, 12, 12, 12, 12, 12, 12, 12, 12, 12,
   12, 0, 12, 12, 12, 12, 12, 0, 12, 0, 12, 12,
   12, 24, 12, 12, 12, 12, 12, 24, 12, 24, 12, 12,
   12, 12, 12, 12, 12, 12, 12, 24, 12, 12, 12, 12,
   12, 24, 12, 12, 12, 12, 12, 12, 12, 24, 12, 12,
   12, 12, 12, 12, 12, 12, 12, 36, 12, 36, 12, 12,
   12, 36, 12, 12, 12, 12, 12, 36, 12, 36, 12, 12,
   12, 36, 12, 12, 12, 12, 12, 12, 12, 12, 12, 12]

/-- The state and the code point assembled so far after one byte. -/
def utf8Decode (state codep : Nat) (byte : UInt8) : Nat × Nat :=
  let type := utf8Classes.getD byte.toNat 0
  let codep := if state ≠ utf8Accept then (byte.toNat &&& 0x3f) ||| (codep <<< 6) % 2 ^ 32
    else (0xff >>> type) &&& byte.toNat
  (utf8Next.getD (state + type) 0, codep)

/-- The loop of `ws_utf8_valid`: the state at the end, or `none` at the first rejecting one. -/
def utf8Run : Nat → Nat → Bytes → Option Nat
  | state, _, [] => some state
  | state, codep, b :: bs =>
    let (state, codep) := utf8Decode state codep b
    if state = utf8Reject then none else utf8Run state codep bs

def wsUtf8Valid (s : Bytes) : Bool := utf8Run utf8Accept 0 s == some utf8Accept

theorem getD_of_forall {P : Nat → Prop} {l : List Nat} {d : Nat} (hl : ∀ x ∈ l, P x)
    (hd : P d) (i : Nat) : P (l.getD i d) := by
  rw [getD_eq_getElem?_getD]
  cases h : l[i]? with
  | none => exact hd
  | some x => exact hl x (mem_of_getElem? h)

theorem utf8Classes_lt (i : Nat) : utf8Classes.getD i 0 < 12 :=
  getD_of_forall (P := (· < 12)) (by decide +kernel) (by decide) i

/-- A row of the transition table: a multiple of 12 up to 96. -/
def Utf8Row (state : Nat) : Prop := state % 12 = 0 ∧ state ≤ 96

instance (state : Nat) : Decidable (Utf8Row state) :=
  inferInstanceAs (Decidable (_ ∧ _))

theorem utf8Next_row (i : Nat) : Utf8Row (utf8Next.getD i 0) :=
  getD_of_forall (by decide +kernel) (by decide) i

variable {state : Nat}

/-- From a row of the table both lookups of a step are inside `utf8d`, and the step ends in a
    row of the table. -/
theorem utf8Decode_state_lt (h : Utf8Row state) (codep : Nat) (b : UInt8) :
    b.toNat < utf8Classes.length ∧
      state + utf8Classes.getD b.toNat 0 < utf8Next.length ∧
      Utf8Row (utf8Decode state codep b).1 := by
  have hc := utf8Classes_lt b.toNat
  have hclasses : utf8Classes.length = 256 := by decide +kernel
  have hnext : utf8Next.length = 108 := by decide +kernel
  obtain ⟨_, h96⟩ := h
  refine ⟨?_, by omega, utf8Next_row _⟩
  rw [hclasses]
  exact b.toNat_lt

theorem utf8Run_state :
    ∀ (s : Bytes) (state codep final : Nat), Utf8Row state →
      utf8Run state codep s = some final → Utf8Row final
  | [], _, _, _, hrow, h => by
    cases h
    exact hrow
  | b :: bs, state, codep, final, hrow, h => by
    simp only [utf8Run] at h
    split at h
    · cases h
    · exact utf8Run_state bs _ _ final (utf8Decode_state_lt hrow codep b).2.2 h

/-! ## Well-formed UTF-8 -/

/-- A range of bytes. -/
abbrev ByteRange := UInt8 × UInt8

def ByteRange.Has (r : ByteRange) (b : UInt8) : Prop := r.1 ≤ b ∧ b ≤ r.2

instance (r : ByteRange) (b : UInt8) : Decidable (r.Has b) := inferInstanceAs (Decidable (_ ∧ _))

/-- A trailing byte without further restriction. -/
def tailRange : ByteRange := (0x80, 0xBF)

/-- Table 3-7 of the Unicode standard, row by row: the well-formed byte sequences of the scalar
    values. -/
def utf8Table : List (ByteRange × List ByteRange) :=
  [((0x00, 0x7F), []),
   ((0xC2, 0xDF), [tailRange]),
   ((0xE0, 0xE0), [(0xA0, 0xBF), tailRange]),
   ((0xE1, 0xEC), [tailRange, tailRange]),
   ((0xED, 0xED), [(0x80, 0x9F), tailRange]),
   ((0xEE, 0xEF), [tailRange, tailRange]),
   ((0xF0, 0xF0), [(0x90, 0xBF), tailRange, tailRange]),
   ((0xF1, 0xF3), [tailRange, tailRange, tailRange]),
   ((0xF4, 0xF4), [(0x80, 0x8F), tailRange, tailRange])]

/-- The bytes lie in the ranges one by one. -/
def InRanges (ranges : List ByteRange) (s : Bytes) : Prop := List.Forall₂ ByteRange.Has ranges s

variable {s : Bytes}

theorem InRanges.eq_nil (h : InRanges [] s) : s = [] := by
  cases h
  rfl

theorem InRanges.ranges_eq_nil {ranges : List ByteRange} (h : InRanges ranges []) :
    ranges = [] := by
  cases h
  rfl

/-- A sequence of characters, each by a row of the table. -/
inductive Utf8Text : Bytes → Prop
  | nil : Utf8Text []
  | char {lead : ByteRange} {tail : List ByteRange} {b : UInt8} {bs rest : Bytes}
      (hrow : (lead, tail) ∈ utf8Table) (hlead : lead.Has b) (htail : InRanges tail bs)
      (hrest : Utf8Text rest) : Utf8Text (b :: bs ++ rest)

/-- The bytes that a state of the automaton still waits for. -/
def utf8Owed (state : Nat) : List ByteRange :=
  match state / 12 with
  | 2 => [tailRange]
  | 3 => [tailRange, tailRange]
  | 4 => [(0xA0, 0xBF), tailRange]
  | 5 => [(0x80, 0x9F), tailRange]
  | 6 => [(0x90, 0xBF), tailRange, tailRange]
  | 7 => [tailRange, tailRange, tailRange]
  | 8 => [(0x80, 0x8F), tailRange, tailRange]
  | _ => []

/-- The states that the loop can be in between two bytes. -/
def utf8Waiting : List Nat := [24, 36, 48, 60, 72, 84, 96]

/-- The character classes by ranges. -/
def utf8Class (b : UInt8) : Nat :=
  if b < 0x80 then 0 else if b < 0x90 then 1 else if b < 0xA0 then 9 else if b < 0xC0 then 7
  else if b < 0xC2 then 8 else if b < 0xE0 then 2 else if b = 0xE0 then 10 else if b = 0xED then 4
  else if b < 0xF0 then 3 else if b = 0xF0 then 11 else if b < 0xF4 then 6 else if b = 0xF4 then 5
  else 8

theorem utf8Classes_eq : utf8Classes = (range 256).map fun n => utf8Class (UInt8.ofNat n) := by
  decide +kernel

theorem utf8Classes_getD (b : UInt8) : utf8Classes.getD b.toNat 0 = utf8Class b := by
  have hb : b.toNat < 256 := b.toNat_lt
  rw [utf8Classes_eq, getD_eq_getElem?_getD, getElem?_map, getElem?_range hb]
  simp

/-- The next state, which does not depend on the code point. -/
def utf8Step (state : Nat) (b : UInt8) : Nat := utf8Next.getD (state + utf8Class b) 0

theorem utf8Decode_fst (state codep : Nat) (b : UInt8) :
    (utf8Decode state codep b).1 = utf8Step state b := by
  simp only [utf8Decode, utf8Step, utf8Classes_getD]

/-- From the start state a byte leads to the state that waits for the rest of its row, or to
    rejection if it leads no row. -/
theorem utf8Step_accept : ∀ b : UInt8,
    (∀ row ∈ utf8Table, row.1.Has b → utf8Step utf8Accept b ∈ utf8Accept :: utf8Waiting ∧
      utf8Owed (utf8Step utf8Accept b) = row.2) ∧
    (utf8Step utf8Accept b ≠ utf8Reject → ∃ row ∈ utf8Table, row.1.Has b) := by
  decide +kernel

theorem utf8Step_owed : ∀ state ∈ utf8Waiting, utf8Owed state ≠ [] ∧ ∀ b : UInt8,
    if ((utf8Owed state).headD tailRange).Has b then
      utf8Step state b ∈ utf8Accept :: utf8Waiting ∧
        utf8Owed (utf8Step state b) = (utf8Owed state).tail
    else utf8Step state b = utf8Reject := by
  decide +kernel

/-- A waiting state takes a byte of the first range that it waits for and no other. -/
theorem utf8Step_waiting (h : state ∈ utf8Waiting) :
    ∃ r rs, utf8Owed state = r :: rs ∧ ∀ b,
      (r.Has b → utf8Step state b ∈ utf8Accept :: utf8Waiting ∧
        utf8Owed (utf8Step state b) = rs) ∧
      (¬ r.Has b → utf8Step state b = utf8Reject) := by
  obtain ⟨hne, hstep⟩ := utf8Step_owed state h
  cases howed : utf8Owed state with
  | nil => exact absurd howed hne
  | cons r rs =>
    refine ⟨r, rs, rfl, fun b => ?_⟩
    have hb := hstep b
    rw [howed, headD_cons, tail_cons] at hb
    exact ⟨fun hhas => by rwa [if_pos hhas] at hb, fun hnot => by rwa [if_neg hnot] at hb⟩

theorem utf8Reject_not_mem : utf8Reject ∉ utf8Accept :: utf8Waiting := by decide

theorem utf8Text_cons {b : UInt8} : Utf8Text (b :: s) ↔
    ∃ row ∈ utf8Table, row.1.Has b ∧ ∃ bs rest, s = bs ++ rest ∧ InRanges row.2 bs ∧
      Utf8Text rest := by
  constructor
  · intro h
    generalize hs : b :: s = t at h
    cases h with
    | nil => cases hs
    | char hrow hlead htail hrest =>
      rw [cons_append] at hs
      cases hs
      exact ⟨_, hrow, hlead, _, _, rfl, htail, hrest⟩
  · rintro ⟨row, hrow, hlead, bs, rest, rfl, htail, hrest⟩
    exact .char hrow hlead htail hrest

/-- The start state owes nothing. -/
theorem utf8Text_owed : (∃ bs rest, s = bs ++ rest ∧
    InRanges (utf8Owed utf8Accept) bs ∧ Utf8Text rest) ↔ Utf8Text s := by
  constructor
  · rintro ⟨bs, rest, rfl, hr, ht⟩
    obtain rfl := InRanges.eq_nil hr
    exact ht
  · exact fun ht => ⟨[], s, rfl, .nil, ht⟩

/-- From a state that waits for some ranges the loop accepts bytes in these ranges with
    well-formed text behind them. -/
theorem utf8Run_iff (s : Bytes) : ∀ state codep, state ∈ utf8Accept :: utf8Waiting →
    (utf8Run state codep s = some utf8Accept ↔
      ∃ bs rest, s = bs ++ rest ∧ InRanges (utf8Owed state) bs ∧ Utf8Text rest) := by
  induction s with
  | nil =>
    intro state codep hstate
    rcases mem_cons.mp hstate with rfl | hw
    · simp only [utf8Run, true_iff]
      exact ⟨[], [], rfl, .nil, .nil⟩
    · have hne : state ≠ utf8Accept := by
        rintro rfl
        exact absurd hw (by decide)
      obtain ⟨r, rs, howed, _⟩ := utf8Step_waiting hw
      simp only [utf8Run, Option.some.injEq, hne, false_iff]
      rintro ⟨bs, rest, hs, hr, _⟩
      obtain ⟨rfl, rfl⟩ := append_eq_nil_iff.mp hs.symm
      exact absurd (howed.symm.trans hr.ranges_eq_nil) (by simp)
  | cons b s ih =>
    intro state codep hstate
    simp only [utf8Run, utf8Decode_fst]
    rcases mem_cons.mp hstate with rfl | hw
    · -- a new character: its lead byte decides the row
      obtain ⟨hrows, hlead⟩ := utf8Step_accept b
      rw [utf8Text_owed, utf8Text_cons]
      by_cases hrej : utf8Step utf8Accept b = utf8Reject
      · rw [if_pos hrej]
        simp only [false_iff, reduceCtorEq]
        rintro ⟨row, hrow, hhas, _⟩
        exact utf8Reject_not_mem (hrej ▸ (hrows row hrow hhas).1)
      · rw [if_neg hrej]
        obtain ⟨row, hrow, hhas⟩ := hlead hrej
        obtain ⟨hin, howed⟩ := hrows row hrow hhas
        rw [ih _ _ hin, howed]
        constructor
        · rintro ⟨bs, rest, hs, hr, ht⟩
          exact ⟨row, hrow, hhas, bs, rest, hs, hr, ht⟩
        · rintro ⟨row', hrow', hhas', bs, rest, hs, hr, ht⟩
          rw [← howed, (hrows row' hrow' hhas').2]
          exact ⟨bs, rest, hs, hr, ht⟩
    · -- inside a character: the byte is in the first range owed, or the text is refused
      obtain ⟨r, rs, howed, hstep⟩ := utf8Step_waiting hw
      rw [howed]
      by_cases hhas : r.Has b
      · obtain ⟨hin, hnext⟩ := (hstep b).1 hhas
        have hok : utf8Step state b ≠ utf8Reject := fun hrej => utf8Reject_not_mem (hrej ▸ hin)
        rw [if_neg hok, ih _ _ hin, hnext]
        constructor
        · rintro ⟨bs, rest, rfl, hr, ht⟩
          exact ⟨b :: bs, rest, rfl, .cons hhas hr, ht⟩
        · rintro ⟨bs, rest, hs, hr, ht⟩
          cases hr with
          | cons _ hr =>
            cases hs
            exact ⟨_, rest, rfl, hr, ht⟩
      · rw [if_pos ((hstep b).2 hhas)]
        simp only [false_iff, reduceCtorEq]
        rintro ⟨bs, rest, hs, hr, _⟩
        cases hr with
        | cons hb =>
          cases hs
          exact hhas hb

/-- The validator accepts exactly the well-formed text. -/
theorem wsUtf8Valid_iff (s : Bytes) : wsUtf8Valid s = true ↔ Utf8Text s := by
  rw [wsUtf8Valid, beq_iff_eq, utf8Run_iff s utf8Accept 0 (by decide), utf8Text_owed]

end Portico.Ws
