/-
  Incremental parsing over a growing buffer, for an arbitrary item parser.

  An `IncParser` looks at the front of a buffer and answers that it needs more input, that the
  input is malformed, or that an item of `n` elements stands there. Its fields say what makes
  such a parser safe to run on a stream that arrives in pieces: an item is never empty and lies
  inside the buffer, and an answer other than "more" does not change when the buffer grows.

  `drain` parses and hands on every item of a buffer, until the parser needs more, the input
  is malformed, or the consumer of the items asks to stop.

  Proved: `drain_append`, draining a longer buffer is draining the shorter one and going on with
  the rest. It is what makes the way a stream is cut into chunks irrelevant.
-/
import Mathlib.Tactic.Common
import Mathlib.Data.List.Basic

namespace Portico.Lib

open List

universe u v w

variable {β : Type u} {φ : Type v} {σ : Type w} {ρ : Type}

/-- What a parser says about the front of a buffer. -/
inductive Front (φ : Type v) where
  | more
  | bad
  | item (n : Nat) (v : φ)

/-- A parser that can be run on a buffer that grows at its end. -/
structure IncParser (β : Type u) (φ : Type v) where
  parse : List β → Front φ
  nil_more : parse [] = .more
  item_bounds : ∀ {bs n v}, parse bs = .item n v → 0 < n ∧ n ≤ bs.length
  stable : ∀ {bs}, parse bs ≠ .more → ∀ cs, parse (bs ++ cs) = parse bs

/-- Why `drain` stopped before the parser asked for more. -/
inductive Stop (ρ : Type) where
  | malformed
  | consumer (r : ρ)
  deriving DecidableEq, Repr

variable (p : IncParser β φ) (consume : σ → φ → σ × Option ρ) {s : σ} {bs : List β}

/-- `drain` with the number of items it may still take; `drain` gives it one for each element
    of the buffer, which is enough (`drainN_fuel`). -/
def drainN : Nat → σ → List β → σ × List β × Option (Stop ρ)
  | 0, s, bs => (s, bs, none)
  | k + 1, s, bs =>
    match p.parse bs with
    | .more => (s, bs, none)
    | .bad => (s, bs, some .malformed)
    | .item n v =>
      match consume s v with
      | (s', none) => drainN k s' (bs.drop n)
      | (s', some r) => (s', bs.drop n, some (.consumer r))

/-- Parse and hand on the items of `bs`: the consumer's state, the unparsed rest, and why it
    stopped (`none`: the parser needs more). -/
def drain (s : σ) (bs : List β) : σ × List β × Option (Stop ρ) :=
  drainN p consume bs.length s bs

theorem drainN_fuel :
    ∀ (k : Nat) (s : σ) (bs : List β), bs.length ≤ k →
      drainN p consume k s bs = drain p consume s bs := by
  intro k
  induction k using Nat.strongRecOn with
  | _ k ih =>
    intro s bs hk
    unfold drain
    match k, bs with
    | 0, [] => rfl
    | 0, b :: bs => simp at hk
    | k + 1, [] => simp [drainN, p.nil_more]
    | k + 1, b :: bs =>
      simp only [length_cons, drainN]
      cases hp : p.parse (b :: bs) with
      | more => rfl
      | bad => rfl
      | item n v =>
        have hn := p.item_bounds hp
        rcases hc : consume s v with ⟨s', _ | r⟩ <;> simp only [hc]
        · have hl : ((b :: bs).drop n).length ≤ bs.length := by
            rw [length_drop, length_cons]; omega
          have hk' : bs.length ≤ k := by simpa using hk
          rw [ih k (Nat.lt_succ_self k) s' _ (Nat.le_trans hl hk')]
          rcases Nat.lt_or_eq_of_le hk' with hlt | heq
          · exact (ih bs.length (by omega) s' _ hl).symm
          · rw [heq]; exact (ih k (Nat.lt_succ_self k) s' _ (by omega)).symm

theorem drain_more (h : p.parse bs = .more) : drain p consume s bs = (s, bs, none) := by
  rw [← drainN_fuel p consume (bs.length + 1) s bs (Nat.le_succ _)]
  simp only [drainN, h]

theorem drain_bad (h : p.parse bs = .bad) : drain p consume s bs = (s, bs, some .malformed) := by
  rw [← drainN_fuel p consume (bs.length + 1) s bs (Nat.le_succ _)]
  simp only [drainN, h]

theorem drain_item {s' : σ} {n : Nat} {v : φ} (h : p.parse bs = .item n v)
    (hc : consume s v = (s', none)) : drain p consume s bs = drain p consume s' (bs.drop n) := by
  rw [← drainN_fuel p consume (bs.length + 1) s bs (Nat.le_succ _)]
  simp only [drainN, h, hc]
  exact drainN_fuel p consume _ _ _ (by rw [length_drop]; omega)

theorem drain_stop {s' : σ} {n : Nat} {v : φ} {r : ρ} (h : p.parse bs = .item n v)
    (hc : consume s v = (s', some r)) :
    drain p consume s bs = (s', bs.drop n, some (.consumer r)) := by
  rw [← drainN_fuel p consume (bs.length + 1) s bs (Nat.le_succ _)]
  simp only [drainN, h, hc]

/-- The rest that `drain` leaves when nothing stopped it is one the parser wants more for. -/
theorem drain_rest_more (s : σ) (bs : List β) :
    ∀ s' rest, drain p consume s bs = (s', rest, none) → p.parse rest = .more := by
  induction h : bs.length using Nat.strongRecOn generalizing s bs with
  | _ l ih =>
    intro s' rest hd
    subst h
    cases hp : p.parse bs with
    | more =>
      rw [drain_more p consume hp] at hd
      cases hd
      exact hp
    | bad =>
      rw [drain_bad p consume hp] at hd
      cases hd
    | item n v =>
      have hn := p.item_bounds hp
      rcases hc : consume s v with ⟨s1, _ | r⟩
      · rw [drain_item p consume hp hc] at hd
        exact ih _ (by rw [length_drop]; omega) s1 _ rfl s' rest hd
      · rw [drain_stop p consume hp hc] at hd
        cases hd

/-- What every item that does not stop the consumer preserves, holds where nothing stopped. -/
theorem drain_invariant {I : σ → Prop}
    (hstep : ∀ s v s', I s → consume s v = (s', none) → I s') (s : σ) (bs : List β) (hs : I s)
    (hd : (drain p consume s bs).2.2 = none) : I (drain p consume s bs).1 := by
  induction h : bs.length using Nat.strongRecOn generalizing s bs with
  | _ l ih =>
    subst h
    cases hp : p.parse bs with
    | more => rw [drain_more p consume hp]; exact hs
    | bad => rw [drain_bad p consume hp] at hd; cases hd
    | item n v =>
      have hn := p.item_bounds hp
      rcases hc : consume s v with ⟨s1, _ | r⟩
      · rw [drain_item p consume hp hc] at hd ⊢
        exact ih _ (by rw [length_drop]; omega) s1 _ (hstep s v s1 hs hc) hd rfl
      · rw [drain_stop p consume hp hc] at hd
        cases hd

theorem drain_rest_suffix (s : σ) (bs : List β) : (drain p consume s bs).2.1 <:+ bs := by
  induction h : bs.length using Nat.strongRecOn generalizing s bs with
  | _ l ih =>
    subst h
    cases hp : p.parse bs with
    | more => simp [drain_more p consume hp]
    | bad => simp [drain_bad p consume hp]
    | item n v =>
      have hn := p.item_bounds hp
      rcases hc : consume s v with ⟨s1, _ | r⟩
      · rw [drain_item p consume hp hc]
        exact (ih _ (by rw [length_drop]; omega) s1 _ rfl).trans (drop_suffix n bs)
      · rw [drain_stop p consume hp hc]
        exact drop_suffix n bs

/-- Draining a longer buffer is draining the shorter one and, if nothing stopped that, going
    on with the rest and the new bytes. -/
theorem drain_append (s : σ) (bs cs : List β) :
    drain p consume s (bs ++ cs) =
      match drain p consume s bs with
      | (s', rest, none) => drain p consume s' (rest ++ cs)
      | (s', rest, some st) => (s', rest ++ cs, some st) := by
  induction h : bs.length using Nat.strongRecOn generalizing s bs with
  | _ l ih =>
    subst h
    cases hp : p.parse bs with
    | more => rw [drain_more p consume hp]
    | bad =>
      have hp' : p.parse (bs ++ cs) = .bad := by rw [p.stable (by rw [hp]; simp), hp]
      rw [drain_bad p consume hp, drain_bad p consume hp']
    | item n v =>
      have hn := p.item_bounds hp
      have hp' : p.parse (bs ++ cs) = .item n v := by rw [p.stable (by rw [hp]; simp), hp]
      have hdrop : (bs ++ cs).drop n = bs.drop n ++ cs :=
        drop_append_of_le_length hn.2
      rcases hc : consume s v with ⟨s1, _ | r⟩
      · rw [drain_item p consume hp hc, drain_item p consume hp' hc, hdrop]
        exact ih _ (by rw [length_drop]; omega) s1 _ rfl
      · rw [drain_stop p consume hp hc, drain_stop p consume hp' hc, hdrop]

end Portico.Lib
