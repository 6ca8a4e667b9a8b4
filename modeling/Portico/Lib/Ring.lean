/-
  Rings with free-running indices of fixed width.

  An index counts up for ever and wraps at `2 ^ w`; the cell it names is found by masking it with
  the ring's size `2 ^ b` less one. `index w n` is the value of the index after `n` increments.

  The rules: as long as two counts are less than `2 ^ w` apart, the indices tell them apart and
  their difference is the difference of the counts; the cell of an index is that of the count.
  `Window` says what the cells between two counts hold; a ring that is not full can take one more.
-/
import Mathlib.Data.Nat.ModEq
import Mathlib.Logic.Function.Basic
import Mathlib.Tactic.Common

namespace Portico.Lib

/-- A `w`-bit index after `n` increments. -/
def index (w n : Nat) : BitVec w := BitVec.ofNat w n

theorem index_succ (w n : Nat) : index w n + 1#w = index w (n + 1) := by
  unfold index
  rw [BitVec.ofNat_add]

/-- Counts less than the ring's size apart have different cells. -/
theorem slot_ne {N a b : Nat} (h : a < b) (hN : b < a + N) : a % N ≠ b % N := by
  intro he
  have hdvd : N ∣ b - a := (Nat.modEq_iff_dvd' (Nat.le_of_lt h)).mp he
  exact absurd (Nat.le_of_dvd (by omega) hdvd) (by omega)

theorem index_ne {w a b : Nat} (h : a < b) (hw : b < a + 2 ^ w) : index w a ≠ index w b := by
  intro he
  have hmod := congrArg BitVec.toNat he
  unfold index at hmod
  rw [BitVec.toNat_ofNat, BitVec.toNat_ofNat] at hmod
  exact slot_ne h hw hmod

/-- The cell of an index is the cell of its count. -/
theorem index_slot {w b : Nat} (hb : b ≤ w) (n : Nat) :
    (index w n &&& BitVec.ofNat w (2 ^ b - 1)).toNat = n % 2 ^ b := by
  have hlt : 2 ^ b - 1 < 2 ^ w :=
    Nat.lt_of_lt_of_le (Nat.sub_lt (Nat.two_pow_pos b) Nat.one_pos)
      (Nat.pow_le_pow_right (by omega) hb)
  unfold index
  rw [BitVec.toNat_and, BitVec.toNat_ofNat, BitVec.toNat_ofNat, Nat.mod_eq_of_lt hlt,
    Nat.and_two_pow_sub_one_eq_mod, Nat.mod_mod_of_dvd _ (Nat.pow_dvd_pow 2 hb)]

variable {α : Type*} {N : Nat} {cells : Nat → α} {lo hi : Nat} {item : Nat → α}

/-- The cells of the counts from `lo` up to `hi` hold their items. -/
def Window (N : Nat) (cells : Nat → α) (lo hi : Nat) (item : Nat → α) : Prop :=
  ∀ k, lo ≤ k → k < hi → cells (k % N) = item k

/-- A ring that is not full takes one more. -/
theorem Window.push (h : Window N cells lo hi item) (hroom : hi < lo + N) {x : α}
    (hx : item hi = x) : Window N (Function.update cells (hi % N) x) lo (hi + 1) item := by
  intro k hlo hk
  by_cases he : k = hi
  · rw [he, Function.update_self, hx]
  · rw [Function.update_of_ne (slot_ne (by omega) (by omega)), h k hlo (by omega)]

theorem Window.drop (h : Window N cells lo hi item) {lo' : Nat} (hlo : lo ≤ lo') :
    Window N cells lo' hi item := fun k hk => h k (Nat.le_trans hlo hk)

theorem Window.congr {item' : Nat → α} (h : Window N cells lo hi item)
    (hitem : ∀ k, k < hi → item' k = item k) : Window N cells lo hi item' :=
  fun k hlo hk => (h k hlo hk).trans (hitem k hk).symm

end Portico.Lib
