/-
  The UTF-8 validator of src/ws/ws_utf8.c against the Unicode scalar values.

  Portico.Ws.Utf8 shows that the automaton accepts what Table 3-7 of the Unicode standard calls
  well-formed. Here the table is compared with the encoding of the scalar values (`Char` and its
  `String.utf8EncodeChar`): every encoding follows a row of the table (`utf8EncodeChar_row`), and
  what follows a row is an encoding (`utf8EncodeChar_of_row`).

  Proved: `utf8_valid_iff_scalars`: the validator accepts exactly the concatenations of encoded
  scalar values, and stays inside `utf8d` while it scans.
-/
import Portico.Ws.Utf8

namespace Portico.Ws

/-! ## Encoded scalar values -/

theorem has_ofNat (lo hi : Nat) {n : Nat} (h : lo ≤ n ∧ n ≤ hi ∧ hi < 256) :
    ByteRange.Has (UInt8.ofNat lo, UInt8.ofNat hi) (UInt8.ofNat n) := by
  refine ⟨UInt8.le_iff_toNat_le.mpr ?_, UInt8.le_iff_toNat_le.mpr ?_⟩ <;>
    simp only [UInt8.toNat_ofNat'] <;> omega

variable {b : UInt8}

theorem ByteRange.Has.toNat {r : ByteRange} (h : r.Has b) :
    r.1.toNat ≤ b.toNat ∧ b.toNat ≤ r.2.toNat :=
  ⟨UInt8.le_iff_toNat_le.mp h.1, UInt8.le_iff_toNat_le.mp h.2⟩

theorem utf8EncodeChar_row (c : Char) : ∃ row ∈ utf8Table, ∃ b bs,
    String.utf8EncodeChar c = b :: bs ∧ row.1.Has b ∧ InRanges row.2 bs := by
  have hvalid : c.val.toNat < 55296 ∨ 57343 < c.val.toNat ∧ c.val.toNat < 1114112 := c.valid
  unfold String.utf8EncodeChar
  generalize c.val.toNat = v at hvalid
  dsimp only
  have htail : ∀ k, tailRange.Has (UInt8.ofNat (v / k % 64 + 128)) :=
    fun k => has_ofNat 0x80 0xBF (by omega)
  have hlast : tailRange.Has (UInt8.ofNat (v % 64 + 128)) := has_ofNat 0x80 0xBF (by omega)
  split
  · exact ⟨((0x00, 0x7F), []), by decide, _, _, rfl, has_ofNat 0 0x7F (by omega), .nil⟩
  split
  · exact ⟨((0xC2, 0xDF), [tailRange]), by decide, _, _, rfl, has_ofNat 0xC2 0xDF (by omega),
      .cons hlast .nil⟩
  split
  · -- three bytes: overlong forms end at E0 A0, the surrogates would be ED A0 to ED BF
    rcases Nat.lt_trichotomy (v / 4096) 13 with h | h | h
    · rcases Nat.eq_zero_or_pos (v / 4096) with h0 | h0
      · exact ⟨((0xE0, 0xE0), [(0xA0, 0xBF), tailRange]), by decide, _, _, rfl,
          has_ofNat 0xE0 0xE0 (by omega),
          .cons (has_ofNat 0xA0 0xBF (by omega)) (.cons hlast .nil)⟩
      · exact ⟨((0xE1, 0xEC), [tailRange, tailRange]), by decide, _, _, rfl,
          has_ofNat 0xE1 0xEC (by omega), .cons (htail 64) (.cons hlast .nil)⟩
    · exact ⟨((0xED, 0xED), [(0x80, 0x9F), tailRange]), by decide, _, _, rfl,
        has_ofNat 0xED 0xED (by omega),
        .cons (has_ofNat 0x80 0x9F (by omega)) (.cons hlast .nil)⟩
    · exact ⟨((0xEE, 0xEF), [tailRange, tailRange]), by decide, _, _, rfl,
        has_ofNat 0xEE 0xEF (by omega), .cons (htail 64) (.cons hlast .nil)⟩
  · -- four bytes: overlong forms end at F0 90, the last scalar value begins with F4 8F
    rcases Nat.lt_trichotomy (v / 262144) 4 with h | h | h
    · rcases Nat.eq_zero_or_pos (v / 262144) with h0 | h0
      · exact ⟨((0xF0, 0xF0), [(0x90, 0xBF), tailRange, tailRange]), by decide, _, _, rfl,
          has_ofNat 0xF0 0xF0 (by omega),
          .cons (has_ofNat 0x90 0xBF (by omega)) (.cons (htail 64) (.cons hlast .nil))⟩
      · exact ⟨((0xF1, 0xF3), [tailRange, tailRange, tailRange]), by decide, _, _, rfl,
          has_ofNat 0xF1 0xF3 (by omega),
          .cons (htail 4096) (.cons (htail 64) (.cons hlast .nil))⟩
    · exact ⟨((0xF4, 0xF4), [(0x80, 0x8F), tailRange, tailRange]), by decide, _, _, rfl,
        has_ofNat 0xF4 0xF4 (by omega),
        .cons (has_ofNat 0x80 0x8F (by omega)) (.cons (htail 64) (.cons hlast .nil))⟩
    · omega

theorem exists_char {v : Nat} (h : v.isValidChar) : ∃ c : Char, c.val.toNat = v :=
  ⟨Char.ofNatAux v h, rfl⟩

theorem ofNat_eq_byte {n : Nat} (h : n = b.toNat) : UInt8.ofNat n = b := by
  rw [h, UInt8.ofNat_toNat]

theorem utf8EncodeChar_one (hb : b.toNat ≤ 0x7F) : ∃ c, String.utf8EncodeChar c = [b] := by
  obtain ⟨c, hc⟩ := exists_char (v := b.toNat) (.inl (by omega))
  refine ⟨c, ?_⟩
  unfold String.utf8EncodeChar
  dsimp only
  rw [hc, if_pos hb, UInt8.ofNat_toNat]

theorem utf8EncodeChar_two {b1 : UInt8} (hb : 0xC2 ≤ b.toNat ∧ b.toNat ≤ 0xDF)
    (hb1 : tailRange.Has b1) : ∃ c, String.utf8EncodeChar c = [b, b1] := by
  have h1 : 0x80 ≤ b1.toNat ∧ b1.toNat ≤ 0xBF := hb1.toNat
  have hv : ((b.toNat - 0xC0) * 64 + (b1.toNat - 0x80)).isValidChar := .inl (by omega)
  obtain ⟨c, hc⟩ := exists_char hv
  refine ⟨c, ?_⟩
  unfold String.utf8EncodeChar
  dsimp only
  rw [hc, if_neg (by omega), if_pos (by omega), ofNat_eq_byte (b := b) (by omega),
    ofNat_eq_byte (b := b1) (by omega)]

theorem utf8EncodeChar_three {b1 b2 : UInt8} (hb : 0xE0 ≤ b.toNat ∧ b.toNat ≤ 0xEF)
    (h1 : 0x80 ≤ b1.toNat ∧ b1.toNat ≤ 0xBF) (hb2 : tailRange.Has b2)
    (hlong : b.toNat = 0xE0 → 0xA0 ≤ b1.toNat) (hsurrogate : b.toNat = 0xED → b1.toNat ≤ 0x9F) :
    ∃ c, String.utf8EncodeChar c = [b, b1, b2] := by
  have h2 : 0x80 ≤ b2.toNat ∧ b2.toNat ≤ 0xBF := hb2.toNat
  have hv : ((b.toNat - 0xE0) * 4096 + (b1.toNat - 0x80) * 64 +
      (b2.toNat - 0x80)).isValidChar := by
    unfold Nat.isValidChar
    omega
  obtain ⟨c, hc⟩ := exists_char hv
  refine ⟨c, ?_⟩
  unfold String.utf8EncodeChar
  dsimp only
  rw [hc, if_neg (by omega), if_neg (by omega), if_pos (by omega),
    ofNat_eq_byte (b := b) (by omega), ofNat_eq_byte (b := b1) (by omega),
    ofNat_eq_byte (b := b2) (by omega)]

theorem utf8EncodeChar_four {b1 b2 b3 : UInt8} (hb : 0xF0 ≤ b.toNat ∧ b.toNat ≤ 0xF4)
    (h1 : 0x80 ≤ b1.toNat ∧ b1.toNat ≤ 0xBF) (hb2 : tailRange.Has b2) (hb3 : tailRange.Has b3)
    (hlong : b.toNat = 0xF0 → 0x90 ≤ b1.toNat) (hlast : b.toNat = 0xF4 → b1.toNat ≤ 0x8F) :
    ∃ c, String.utf8EncodeChar c = [b, b1, b2, b3] := by
  have h2 : 0x80 ≤ b2.toNat ∧ b2.toNat ≤ 0xBF := hb2.toNat
  have h3 : 0x80 ≤ b3.toNat ∧ b3.toNat ≤ 0xBF := hb3.toNat
  have hv : ((b.toNat - 0xF0) * 262144 + (b1.toNat - 0x80) * 4096 + (b2.toNat - 0x80) * 64 +
      (b3.toNat - 0x80)).isValidChar := .inr (by omega)
  obtain ⟨c, hc⟩ := exists_char hv
  refine ⟨c, ?_⟩
  unfold String.utf8EncodeChar
  dsimp only
  rw [hc, if_neg (by omega), if_neg (by omega), if_neg (by omega),
    ofNat_eq_byte (b := b) (by omega), ofNat_eq_byte (b := b1) (by omega),
    ofNat_eq_byte (b := b2) (by omega), ofNat_eq_byte (b := b3) (by omega)]

theorem utf8EncodeChar_of_row {row : ByteRange × List ByteRange} (hrow : row ∈ utf8Table)
    {bs : Bytes} (hlead : row.1.Has b) (htail : InRanges row.2 bs) :
    ∃ c, String.utf8EncodeChar c = b :: bs := by
  simp only [utf8Table, List.mem_cons, List.not_mem_nil, or_false] at hrow
  rcases hrow with rfl | rfl | rfl | rfl | rfl | rfl | rfl | rfl | rfl
  · obtain rfl := htail.eq_nil
    exact utf8EncodeChar_one hlead.toNat.2
  · obtain _ | ⟨h1, _ | _⟩ := htail
    exact utf8EncodeChar_two hlead.toNat h1
  · obtain _ | ⟨h1, _ | ⟨h2, _ | _⟩⟩ := htail
    have hb : 0xE0 ≤ b.toNat ∧ b.toNat ≤ 0xE0 := hlead.toNat
    have hb1 : 0xA0 ≤ _ ∧ _ ≤ 0xBF := h1.toNat
    exact utf8EncodeChar_three (by omega) (by omega) h2 (by omega) (by omega)
  · obtain _ | ⟨h1, _ | ⟨h2, _ | _⟩⟩ := htail
    have hb : 0xE1 ≤ b.toNat ∧ b.toNat ≤ 0xEC := hlead.toNat
    have hb1 : 0x80 ≤ _ ∧ _ ≤ 0xBF := h1.toNat
    exact utf8EncodeChar_three (by omega) (by omega) h2 (by omega) (by omega)
  · obtain _ | ⟨h1, _ | ⟨h2, _ | _⟩⟩ := htail
    have hb : 0xED ≤ b.toNat ∧ b.toNat ≤ 0xED := hlead.toNat
    have hb1 : 0x80 ≤ _ ∧ _ ≤ 0x9F := h1.toNat
    exact utf8EncodeChar_three (by omega) (by omega) h2 (by omega) (by omega)
  · obtain _ | ⟨h1, _ | ⟨h2, _ | _⟩⟩ := htail
    have hb : 0xEE ≤ b.toNat ∧ b.toNat ≤ 0xEF := hlead.toNat
    have hb1 : 0x80 ≤ _ ∧ _ ≤ 0xBF := h1.toNat
    exact utf8EncodeChar_three (by omega) (by omega) h2 (by omega) (by omega)
  · obtain _ | ⟨h1, _ | ⟨h2, _ | ⟨h3, _ | _⟩⟩⟩ := htail
    have hb : 0xF0 ≤ b.toNat ∧ b.toNat ≤ 0xF0 := hlead.toNat
    have hb1 : 0x90 ≤ _ ∧ _ ≤ 0xBF := h1.toNat
    exact utf8EncodeChar_four (by omega) (by omega) h2 h3 (by omega) (by omega)
  · obtain _ | ⟨h1, _ | ⟨h2, _ | ⟨h3, _ | _⟩⟩⟩ := htail
    have hb : 0xF1 ≤ b.toNat ∧ b.toNat ≤ 0xF3 := hlead.toNat
    have hb1 : 0x80 ≤ _ ∧ _ ≤ 0xBF := h1.toNat
    exact utf8EncodeChar_four (by omega) (by omega) h2 h3 (by omega) (by omega)
  · obtain _ | ⟨h1, _ | ⟨h2, _ | ⟨h3, _ | _⟩⟩⟩ := htail
    have hb : 0xF4 ≤ b.toNat ∧ b.toNat ≤ 0xF4 := hlead.toNat
    have hb1 : 0x80 ≤ _ ∧ _ ≤ 0x8F := h1.toNat
    exact utf8EncodeChar_four (by omega) (by omega) h2 h3 (by omega) (by omega)

/-- Well-formed text is a sequence of encoded scalar values. -/
theorem utf8Text_iff_chars (s : Bytes) :
    Utf8Text s ↔ ∃ cs : List Char, s = cs.flatMap String.utf8EncodeChar := by
  constructor
  · intro h
    induction h with
    | nil => exact ⟨[], rfl⟩
    | char hrow hlead htail _ ih =>
      obtain ⟨c, hc⟩ := utf8EncodeChar_of_row hrow hlead htail
      obtain ⟨cs, rfl⟩ := ih
      exact ⟨c :: cs, by rw [List.flatMap_cons, hc]⟩
  · rintro ⟨cs, rfl⟩
    induction cs with
    | nil => exact .nil
    | cons c cs ih =>
      obtain ⟨row, hrow, b, bs, hc, hlead, htail⟩ := utf8EncodeChar_row c
      rw [List.flatMap_cons, hc]
      exact .char hrow hlead htail ih

/-! ## The table -/

/-- `utf8d` as one array. -/
def utf8d : List Nat := utf8Classes ++ utf8Next

theorem utf8d_class (b : UInt8) : utf8d.getD b.toNat 0 = utf8Classes.getD b.toNat 0 := by
  have hrow : Utf8Row 0 := by decide
  have hlen : b.toNat < utf8Classes.length := (utf8Decode_state_lt hrow 0 b).1
  rw [utf8d, List.getD_eq_getElem?_getD, List.getD_eq_getElem?_getD, List.getElem?_append_left hlen]

/-- The lookups of `utf8_decode`, by their index in `utf8d`. -/
theorem utf8Decode_index (state codep : Nat) (b : UInt8) :
    (utf8Decode state codep b).1 = utf8d.getD (256 + state + utf8d.getD b.toNat 0) 0 := by
  have hclasses : utf8Classes.length = 256 := by decide +kernel
  rw [utf8d_class, utf8d, List.getD_eq_getElem?_getD, List.getElem?_append_right (by omega),
    hclasses, Nat.add_assoc, Nat.add_sub_cancel_left, ← List.getD_eq_getElem?_getD]
  rfl

/-- For every byte string: `ws_utf8_valid` accepts it iff it is a sequence of Unicode scalar
    values in UTF-8, that is, iff it is well-formed by Table 3-7; and wherever the scan stands,
    both lookups of its next step are inside `utf8d`. -/
theorem utf8_valid_iff_scalars (s : Bytes) :
    (wsUtf8Valid s = true ↔ ∃ cs : List Char, s = cs.flatMap String.utf8EncodeChar) ∧
      (wsUtf8Valid s = true ↔ Utf8Text s) ∧
      ∀ before b behind state, s = before ++ b :: behind →
        utf8Run utf8Accept 0 before = some state →
        b.toNat < utf8d.length ∧ 256 + state + utf8d.getD b.toNat 0 < utf8d.length ∧
          ∀ codep, (utf8Decode state codep b).1 =
            utf8d.getD (256 + state + utf8d.getD b.toNat 0) 0 := by
  refine ⟨(wsUtf8Valid_iff s).trans (utf8Text_iff_chars s), wsUtf8Valid_iff s, ?_⟩
  intro before b behind state _ hrun
  have hrow := utf8Run_state before utf8Accept 0 state (by decide) hrun
  obtain ⟨hclass, hnext, _⟩ := utf8Decode_state_lt hrow 0 b
  have hclasses : utf8Classes.length = 256 := by decide +kernel
  have hlen : utf8d.length = 256 + utf8Next.length := by rw [utf8d, List.length_append, hclasses]
  refine ⟨by omega, ?_, fun codep => utf8Decode_index state codep b⟩
  rw [utf8d_class]
  omega

/-- The euro sign is accepted, the surrogate ED A0 80 is not. -/
theorem utf8_valid_iff_scalars_euro :
    (∃ cs : List Char, ([0xE2, 0x82, 0xAC] : Bytes) = cs.flatMap String.utf8EncodeChar) ∧
      (¬ ∃ cs : List Char, ([0xED, 0xA0, 0x80] : Bytes) = cs.flatMap String.utf8EncodeChar) ∧
      256 + 36 + utf8d.getD 0x82 0 < utf8d.length := by
  have heuro := utf8_valid_iff_scalars [0xE2, 0x82, 0xAC]
  have hsurrogate := utf8_valid_iff_scalars [0xED, 0xA0, 0x80]
  refine ⟨heuro.1.mp (by decide +kernel), fun h => ?_, ?_⟩
  · exact absurd (hsurrogate.1.mpr h) (by decide +kernel)
  · exact (heuro.2.2 [0xE2] 0x82 [0xAC] 36 rfl (by decide +kernel)).2.1

end Portico.Ws
