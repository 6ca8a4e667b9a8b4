/-
  Percent-decoding of paths: `url_decode_path` of src/http/connection.c.

  `Encodes s t` says that `t` is a percent-encoding of `s`: every byte stands for itself, unless it
  is `%`, or is written as `%XX` with digits of either case. The buffer of `cap` bytes holds the
  decoded path and a NUL, so `urlDecodePath` has room for `cap - 1`.

  Proved: `url_decode_path_laws`.
-/
import Mathlib.Tactic.IntervalCases
import Portico.Http.Static

namespace Portico.Http

open Portico.Ws

/-- The digit `x` stands for `n`. -/
def HexDigit (n : Nat) (x : UInt8) : Prop :=
  (ascii "0123456789abcdef")[n]? = some x ∨ (ascii "0123456789ABCDEF")[n]? = some x

inductive Encodes : Bytes → Bytes → Prop
  | nil : Encodes [] []
  | literal {b : UInt8} {s t : Bytes} (hb : b ≠ 37) : Encodes s t → Encodes (b :: s) (b :: t)
  | escape {b x y : UInt8} {s t : Bytes} (hx : HexDigit (b.toNat / 16) x)
      (hy : HexDigit (b.toNat % 16) y) : Encodes s t → Encodes (b :: s) (37 :: x :: y :: t)

theorem hexValue_of_hexDigit {n : Nat} {x : UInt8} (h : HexDigit n x) :
    isXDigit x = true ∧ hexValue x = UInt8.ofNat n := by
  have hn : n < 16 := by
    rcases h with h | h
    · exact (List.getElem?_eq_some_iff.mp h).1
    · exact (List.getElem?_eq_some_iff.mp h).1
  rw [HexDigit] at h
  interval_cases n <;> rcases h with h | h <;> cases h <;> decide

theorem byte_of_digits (b : UInt8) :
    16 * UInt8.ofNat (b.toNat / 16) + UInt8.ofNat (b.toNat % 16) = b := by
  have hb := b.toNat_lt
  apply UInt8.toNat_inj.mp
  simp only [UInt8.toNat_add, UInt8.toNat_mul, UInt8.toNat_ofNat']
  rw [show (16 : UInt8).toNat = 16 from rfl]
  omega

theorem urlDecodePath_plain {b : UInt8} {rest : Bytes}
    (h : ∀ x y rest', (b == 37) = true → rest = x :: y :: rest' →
      (isXDigit x && isXDigit y) = false) (room : Nat) :
    urlDecodePath (room + 1) (b :: rest) = b :: urlDecodePath room rest := by
  rw [urlDecodePath.eq_def]
  dsimp only
  split
  · rename_i x y rest' hb
    rw [if_neg (by simp [h x y rest' hb rfl])]
  · rfl

/-- No escape reaches across a byte that is no digit: what stands in front of it is decoded on
    its own, and the rest with the room that is left. -/
theorem urlDecodePath_append {sep : UInt8} (hsep : isXDigit sep = false) (room : Nat)
    (path rest : Bytes) :
    urlDecodePath room (path ++ sep :: rest) = urlDecodePath room path ++
      urlDecodePath (room - (urlDecodePath room path).length) (sep :: rest) := by
  fun_induction urlDecodePath room path with
  | case1 path => simp [urlDecodePath]
  | case2 room => rfl
  | case3 room b x y rest' hb hhex ih =>
    rw [List.cons_append, List.cons_append, List.cons_append, urlDecodePath, if_pos hhex, ih,
      List.length_cons, Nat.succ_sub_succ]
    · rfl
    · exact hb
  | case4 room b x y rest' hb hhex ih =>
    rw [List.cons_append, urlDecodePath_plain, ih, List.length_cons, Nat.succ_sub_succ]
    · rfl
    · intro x' y' rest'' _ heq
      cases heq
      simpa using hhex
  | case5 room b rest' hshort ih =>
    rw [List.cons_append, urlDecodePath_plain, ih, List.length_cons, Nat.succ_sub_succ]
    · rfl
    · intro x y rest'' hb heq
      cases rest' with
      | nil =>
        cases heq
        simp [hsep]
      | cons c rest' =>
        cases rest' with
        | nil =>
          cases heq
          simp [hsep]
        | cons d rest' => exact absurd rfl (hshort c d rest' hb)

theorem urlDecodePath_length_le (room : Nat) (path : Bytes) :
    (urlDecodePath room path).length ≤ room := by
  fun_induction urlDecodePath room path with
  | case1 | case2 => exact Nat.zero_le _
  | case3 _ _ _ _ _ _ _ ih | case4 _ _ _ _ _ _ _ ih | case5 _ _ _ _ ih => exact Nat.succ_le_succ ih

theorem urlDecodePath_encodes {s t : Bytes} (h : Encodes s t) {room : Nat}
    (hroom : s.length ≤ room) : urlDecodePath room t = s := by
  induction h generalizing room with
  | nil =>
    cases room with
    | zero => rfl
    | succ => rfl
  | @literal b s t hb _ ih =>
    obtain ⟨room, rfl⟩ := Nat.exists_eq_add_of_lt hroom
    rw [urlDecodePath_plain (by simp [hb]), ih (Nat.le_add_right _ _)]
  | @escape b x y s t hx hy _ ih =>
    obtain ⟨room, rfl⟩ := Nat.exists_eq_add_of_lt hroom
    obtain ⟨hxd, hxv⟩ := hexValue_of_hexDigit hx
    obtain ⟨hyd, hyv⟩ := hexValue_of_hexDigit hy
    rw [urlDecodePath, if_pos (by rw [hxd, hyd]; rfl), ih (Nat.le_add_right _ _), hxv, hyv,
      byte_of_digits]
    rfl

/-- For every capacity: a percent-encoding of a byte string that is shorter is decoded to that
    string; what is decoded is always shorter; and wherever a `%` stands that no two digits follow,
    it is kept, if there is room for it, between what is decoded of the bytes on its two sides. -/
theorem url_decode_path_laws (cap : Nat) :
    (∀ s t, Encodes s t → s.length < cap → urlDecodePath (cap - 1) t = s) ∧
    (1 ≤ cap → ∀ t, (urlDecodePath (cap - 1) t).length < cap) ∧
    ∀ pre rest, (∀ x y rest', rest = x :: y :: rest' → (isXDigit x && isXDigit y) = false) →
      (urlDecodePath (cap - 1) pre).length < cap - 1 →
      urlDecodePath (cap - 1) (pre ++ 37 :: rest) = urlDecodePath (cap - 1) pre ++
        37 :: urlDecodePath (cap - 1 - (urlDecodePath (cap - 1) pre).length - 1) rest := by
  refine ⟨fun s t h hlen => urlDecodePath_encodes h (by omega), fun hcap t => ?_, ?_⟩
  · have hle := urlDecodePath_length_le (cap - 1) t
    omega
  · intro pre rest hrest hroom
    rw [urlDecodePath_append (by decide)]
    obtain ⟨room, hleft⟩ := Nat.exists_eq_add_of_lt (Nat.sub_pos_of_lt hroom)
    rw [hleft, Nat.zero_add, urlDecodePath_plain fun x y rest' _ => hrest x y rest']
    rfl

end Portico.Http
