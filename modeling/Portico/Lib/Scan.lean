/-
  Scanners over a buffer that may not be complete yet.

  A scanner looks at the front of a list and answers that it needs more elements, that what it
  sees is malformed, or with a value and the rest of the list. `Exact` says that a scanner's
  answer depends only on the elements it has taken, of which there is at least one; `Peeking`
  is the same for a scanner that stops in front of an element it has looked at. Both keep a
  malformed list malformed when it grows.

  The rules put scanners together: a peeking scanner followed by an exact one is exact.
  `Exact.front` turns an exact scanner into the answer with a count that `Portico.Lib.Incremental`
  works with. `Yields` is what holds of every value that a scanner answers with.
-/
import Portico.Lib.Incremental

namespace Portico.Lib

open List

universe u v w

variable {β : Type u} {φ : Type v} {ψ : Type w}

inductive Scan (β : Type u) (φ : Type v) where
  | more
  | bad
  | done (v : φ) (rest : List β)

namespace Scan

def bind : Scan β φ → (φ → List β → Scan β ψ) → Scan β ψ
  | more, _ => more
  | bad, _ => bad
  | done v rest, q => q v rest

def map (f : φ → ψ) : Scan β φ → Scan β ψ
  | more => more
  | bad => bad
  | done v rest => done (f v) rest

/-- The value with the number of elements taken. -/
def front (s : List β) : Scan β φ → Front φ
  | more => .more
  | bad => .bad
  | done v rest => .item (s.length - rest.length) v

end Scan

/-- The answer depends on the elements taken, and there is one. -/
structure Exact (p : List β → Scan β φ) : Prop where
  bad : ∀ {s}, p s = .bad → ∀ t, p (s ++ t) = .bad
  done : ∀ {s v r}, p s = .done v r →
    ∃ w, w ≠ [] ∧ s = w ++ r ∧ ∀ t, p (w ++ t) = .done v t

/-- The answer depends on the elements taken and on the one behind them. -/
structure Peeking (p : List β → Scan β φ) : Prop where
  bad : ∀ {s}, p s = .bad → ∀ t, p (s ++ t) = .bad
  done : ∀ {s v r}, p s = .done v r →
    ∃ w b r', r = b :: r' ∧ s = w ++ r ∧ ∀ t, p (w ++ b :: t) = .done v (b :: t)

theorem Exact.const_bad : Exact fun _ : List β => (.bad : Scan β φ) :=
  ⟨fun _ _ => rfl, fun h => by cases h⟩

variable {x : Scan β φ}

section Map

variable {p : List β → Scan β φ} (f : φ → ψ)

theorem Scan.map_eq_bad (h : x.map f = .bad) : x = .bad := by
  cases x with
  | more => cases h
  | bad => rfl
  | done => cases h

theorem Scan.map_eq_done {u : ψ} {r : List β} (h : x.map f = .done u r) :
    ∃ v, x = .done v r ∧ u = f v := by
  cases x with
  | more => cases h
  | bad => cases h
  | done v => cases h; exact ⟨v, rfl, rfl⟩

theorem Exact.map (hp : Exact p) : Exact fun s => (p s).map f := by
  refine ⟨fun h t => ?_, fun h => ?_⟩
  · show (p _).map f = _
    rw [hp.bad (Scan.map_eq_bad f h)]
    rfl
  · obtain ⟨v, hv, rfl⟩ := Scan.map_eq_done f h
    obtain ⟨w, hne, hs, hw⟩ := hp.done hv
    refine ⟨w, hne, hs, fun t => ?_⟩
    show (p _).map f = _
    rw [hw]
    rfl

theorem Peeking.map (hp : Peeking p) : Peeking fun s => (p s).map f := by
  refine ⟨fun h t => ?_, fun h => ?_⟩
  · show (p _).map f = _
    rw [hp.bad (Scan.map_eq_bad f h)]
    rfl
  · obtain ⟨v, hv, rfl⟩ := Scan.map_eq_done f h
    obtain ⟨w, b, r', hr, hs, hw⟩ := hp.done hv
    refine ⟨w, b, r', hr, hs, fun t => ?_⟩
    show (p _).map f = _
    rw [hw]
    rfl

end Map

variable {s : List β} {v : φ}

section Bind

variable {p : List β → Scan β φ} {q : φ → List β → Scan β ψ}

theorem Scan.bind_eq_bad (h : x.bind q = .bad) :
    x = .bad ∨ ∃ v r, x = .done v r ∧ q v r = .bad := by
  cases x with
  | more => cases h
  | bad => exact .inl rfl
  | done v r => exact .inr ⟨v, r, rfl, h⟩

theorem Scan.bind_eq_done {u : ψ} {r2 : List β} (h : x.bind q = .done u r2) :
    ∃ v r, x = .done v r ∧ q v r = .done u r2 := by
  cases x with
  | more => cases h
  | bad => cases h
  | done v r => exact ⟨v, r, rfl, h⟩

theorem Exact.append (hp : Exact p) {r : List β} (h : p s = .done v r) (t : List β) :
    p (s ++ t) = .done v (r ++ t) := by
  obtain ⟨w, _, rfl, hw⟩ := hp.done h
  rw [append_assoc, hw]

theorem Peeking.append (hp : Peeking p) {r : List β} (h : p s = .done v r) (t : List β) :
    p (s ++ t) = .done v (r ++ t) := by
  obtain ⟨w, b, r', rfl, rfl, hw⟩ := hp.done h
  rw [append_assoc, cons_append, hw]

/-- A sequence of scanners keeps a malformed list malformed if each of them does and the first
    is not disturbed by more elements. -/
theorem Scan.bind_bad_append (t : List β) (hbad : p s = .bad → p (s ++ t) = .bad)
    (hdone : ∀ v r, p s = .done v r → p (s ++ t) = .done v (r ++ t))
    (hq : ∀ v r, q v r = .bad → q v (r ++ t) = .bad) (h : (p s).bind q = .bad) :
    (p (s ++ t)).bind q = .bad := by
  rcases Scan.bind_eq_bad h with hp | ⟨v, r, hp, hr⟩
  · rw [hbad hp]
    rfl
  · rw [hdone v r hp]
    exact hq v r hr

theorem Exact.bind (hp : Exact p) (hq : ∀ v, Exact (q v)) : Exact fun s => (p s).bind q := by
  refine ⟨fun h t => Scan.bind_bad_append t (hp.bad · t) (fun _ _ hv => hp.append hv t)
    (fun v _ hr => (hq v).bad hr t) h, fun {s u r2} h => ?_⟩
  obtain ⟨v, r, hv, hu⟩ := Scan.bind_eq_done h
  obtain ⟨w, hne, rfl, hw⟩ := hp.done hv
  obtain ⟨w2, _, rfl, hw2⟩ := (hq v).done hu
  refine ⟨w ++ w2, by simp [hne], by rw [append_assoc], fun t => ?_⟩
  show (p _).bind q = _
  rw [append_assoc, hw]
  exact hw2 t

theorem Peeking.bind (hp : Peeking p) (hq : ∀ v, Exact (q v)) : Exact fun s => (p s).bind q := by
  refine ⟨fun h t => Scan.bind_bad_append t (hp.bad · t) (fun _ _ hv => hp.append hv t)
    (fun v _ hr => (hq v).bad hr t) h, fun {s u r2} h => ?_⟩
  obtain ⟨v, r, hv, hu⟩ := Scan.bind_eq_done h
  obtain ⟨w, b, r', rfl, rfl, hw⟩ := hp.done hv
  obtain ⟨w2, hne, hr, hw2⟩ := (hq v).done hu
  -- the element that was looked at is the first one the second scanner takes
  obtain ⟨w3, rfl⟩ : ∃ w3, w2 = b :: w3 := by
    cases w2 with
    | nil => exact absurd rfl hne
    | cons c w3 => cases hr; exact ⟨w3, rfl⟩
  refine ⟨w ++ b :: w3, by simp, by rw [hr, append_assoc], fun t => ?_⟩
  show (p _).bind q = _
  rw [append_assoc, cons_append, hw]
  exact hw2 t

theorem Peeking.bind_peeking (hp : Peeking p) (hq : ∀ v, Peeking (q v)) :
    Peeking fun s => (p s).bind q := by
  refine ⟨fun h t => Scan.bind_bad_append t (hp.bad · t) (fun _ _ hv => hp.append hv t)
    (fun v _ hr => (hq v).bad hr t) h, fun {s u r2} h => ?_⟩
  obtain ⟨v, r, hv, hu⟩ := Scan.bind_eq_done h
  obtain ⟨w, b, r', rfl, rfl, hw⟩ := hp.done hv
  obtain ⟨w2, c, r3, rfl, hr, hw2⟩ := (hq v).done hu
  cases w2 with
  | nil =>
    cases hr
    refine ⟨w, b, r', rfl, rfl, fun t => ?_⟩
    show (p _).bind q = _
    rw [hw]
    exact hw2 t
  | cons d w3 =>
    cases hr
    refine ⟨w ++ b :: w3, c, r3, rfl, by simp, fun t => ?_⟩
    show (p _).bind q = _
    rw [append_assoc, cons_append, hw]
    exact hw2 t

end Bind

section Head

variable {p q : List β → Scan β φ}

/-- Drop an element. -/
def skipOne (p : List β → Scan β φ) : List β → Scan β φ
  | [] => .more
  | _ :: bs => p bs

/-- Which scanner to run is decided by the first element. -/
def byHead (c : β → Bool) (p q : List β → Scan β φ) : List β → Scan β φ
  | [] => .more
  | b :: bs => if c b then p (b :: bs) else q (b :: bs)

theorem Exact.skipOne (hp : Exact p) : Exact (skipOne p) := by
  refine ⟨fun {s} h t => ?_, fun {s v r} h => ?_⟩
  · cases s with
    | nil => cases h
    | cons => exact hp.bad h t
  · cases s with
    | nil => cases h
    | cons b =>
      obtain ⟨w, _, rfl, hw⟩ := hp.done h
      exact ⟨b :: w, by simp, rfl, hw⟩

theorem Peeking.skipOne (hp : Peeking p) : Peeking (skipOne p) := by
  refine ⟨fun {s} h t => ?_, fun {s v r} h => ?_⟩
  · cases s with
    | nil => cases h
    | cons => exact hp.bad h t
  · cases s with
    | nil => cases h
    | cons b =>
      obtain ⟨w, c, r', rfl, rfl, hw⟩ := hp.done h
      exact ⟨b :: w, c, r', rfl, rfl, hw⟩

theorem Exact.byHead (c : β → Bool) (hp : Exact p) (hq : Exact q) : Exact (byHead c p q) := by
  refine ⟨fun {s} h t => ?_, fun {s v r} h => ?_⟩
  · cases s with
    | nil => cases h
    | cons b bs =>
      simp only [Lib.byHead, cons_append] at h ⊢
      split at h
      · rw [if_pos ‹_›]
        exact hp.bad h t
      · rw [if_neg ‹_›]
        exact hq.bad h t
  · cases s with
    | nil => cases h
    | cons b bs =>
      simp only [Lib.byHead] at h
      -- the first element is among those taken, so the choice stays the same
      have hchoice : ∀ x : List β → Scan β φ, Exact x → x (b :: bs) = .done v r →
          ∃ w, b :: bs = (b :: w) ++ r ∧ ∀ t, x (b :: w ++ t) = .done v t := by
        intro x hx hv
        obtain ⟨w, hne, hs, hw⟩ := hx.done hv
        cases w with
        | nil => exact absurd rfl hne
        | cons d w => cases hs; exact ⟨w, rfl, hw⟩
      split at h
      · obtain ⟨w, hs, hw⟩ := hchoice p hp h
        refine ⟨b :: w, by simp, hs, fun t => ?_⟩
        simp only [Lib.byHead, cons_append]
        rw [if_pos ‹_›]
        exact hw t
      · obtain ⟨w, hs, hw⟩ := hchoice q hq h
        refine ⟨b :: w, by simp, hs, fun t => ?_⟩
        simp only [Lib.byHead, cons_append]
        rw [if_neg ‹_›]
        exact hw t

end Head

/-! ## Runs of elements -/

/-- Take elements up to one that `stop` holds for; the list is malformed if one of them is not
    `legal`. -/
def takeUntil (stop legal : β → Bool) : List β → Scan β (List β)
  | [] => .more
  | b :: bs =>
    if stop b then .done [] (b :: bs)
    else if legal b then (takeUntil stop legal bs).map (b :: ·)
    else .bad

section TakeUntil

variable {stop legal : β → Bool}

theorem Peeking.takeUntil : Peeking (takeUntil stop legal) := by
  refine ⟨fun {s} => ?_, fun {s} => ?_⟩
  · induction s with
    | nil => intro h; cases h
    | cons b bs ih =>
      intro h t
      simp only [Lib.takeUntil, cons_append] at h ⊢
      split at h
      · cases h
      rw [if_neg ‹_›]
      split at h
      · rw [if_pos ‹_›, ih (Scan.map_eq_bad _ h)]
        rfl
      · rw [if_neg ‹_›]
  · induction s with
    | nil => intro v r h; cases h
    | cons b bs ih =>
      intro v r h
      simp only [Lib.takeUntil] at h
      split at h
      · cases h
        refine ⟨[], b, bs, rfl, rfl, fun t => ?_⟩
        simp only [nil_append, Lib.takeUntil, if_pos ‹_›]
      split at h
      · obtain ⟨v', hv, rfl⟩ := Scan.map_eq_done _ h
        obtain ⟨w, c, r', rfl, rfl, hw⟩ := ih hv
        refine ⟨b :: w, c, r', rfl, rfl, fun t => ?_⟩
        simp only [cons_append, Lib.takeUntil, hw]
        rw [if_neg ‹_›, if_pos ‹_›]
        rfl
      · cases h

theorem takeUntil_append {w : List β} (hw : ∀ b ∈ w, stop b = false ∧ legal b = true) {c : β}
    (hc : stop c = true) (t : List β) : takeUntil stop legal (w ++ c :: t) = .done w (c :: t) := by
  induction w with
  | nil => simp only [nil_append, takeUntil, if_pos hc]
  | cons b w ih =>
    obtain ⟨hb, hl⟩ := hw b (mem_cons_self ..)
    simp only [cons_append, takeUntil, hb, hl, Bool.false_eq_true, if_false, if_true,
      ih fun d hd => hw d (mem_cons_of_mem b hd), Scan.map]

end TakeUntil

/-! ## Counting -/

/-- The answer depends on the first `n` elements, the item, and a malformed list stays one. -/
structure FrontLocal (p : List β → Front φ) : Prop where
  item : ∀ {s n v}, p s = .item n v → 0 < n ∧ n ≤ s.length ∧
    ∀ s', s'.take n = s.take n → p s' = .item n v
  bad : ∀ {s}, p s = .bad → ∀ t, p (s ++ t) = .bad

theorem Exact.front {p : List β → Scan β φ} (hp : Exact p) :
    FrontLocal fun s => (p s).front s := by
  refine ⟨fun {s n v} h => ?_, fun {s} h t => ?_⟩
  · cases hx : p s with
    | more | bad => rw [hx] at h; cases h
    | done u r =>
      obtain ⟨w, hne, rfl, hw⟩ := hp.done hx
      have hpos := length_pos_of_ne_nil hne
      have hlen : (w ++ r).length - r.length = w.length := by
        rw [length_append]
        omega
      rw [hx] at h
      simp only [Scan.front, hlen, Front.item.injEq] at h
      obtain ⟨rfl, rfl⟩ := h
      refine ⟨hpos, by rw [length_append]; omega, fun s' hs' => ?_⟩
      rw [take_left] at hs'
      have hs : s' = w ++ s'.drop w.length := by
        conv_lhs => rw [← take_append_drop w.length s', hs']
      rw [hs, hw]
      simp only [Scan.front, length_append, Nat.add_sub_cancel]
  · cases hx : p s with
    | more | done => rw [hx] at h; cases h
    | bad => rw [hp.bad hx]; rfl

theorem FrontLocal.item_append {p : List β → Front φ} (hp : FrontLocal p) {n : Nat}
    (h : p s = .item n v) (t : List β) : p (s ++ t) = .item n v :=
  (hp.item h).2.2 _ (take_append_of_le_length (hp.item h).2.1)

/-! ## Values -/

/-- The scanner answers with values that have the property. -/
def Yields (P : φ → Prop) (p : List β → Scan β φ) : Prop := ∀ s v r, p s = .done v r → P v

section Yields

variable {P : φ → Prop} {Q : ψ → Prop} {p q : List β → Scan β φ}

theorem Yields.bind {k : φ → List β → Scan β ψ} (hp : Yields P p)
    (hk : ∀ v, P v → Yields Q (k v)) : Yields Q fun s => (p s).bind k := by
  intro s u r h
  obtain ⟨v, r', hv, hu⟩ := Scan.bind_eq_done h
  exact hk v (hp s v r' hv) r' u r hu

theorem Yields.map {f : φ → ψ} (hp : Yields P p) (hf : ∀ v, P v → Q (f v)) :
    Yields Q fun s => (p s).map f := by
  intro s u r h
  obtain ⟨v, hv, rfl⟩ := Scan.map_eq_done f h
  exact hf v (hp s v r hv)

theorem Yields.skipOne (hp : Yields P p) : Yields P (skipOne p) := by
  intro s v r h
  cases s with
  | nil => cases h
  | cons b bs => exact hp bs v r h

theorem Yields.byHead {c : β → Bool} (hp : Yields P p) (hq : Yields P q) :
    Yields P (byHead c p q) := by
  intro s v r h
  cases s with
  | nil => cases h
  | cons =>
    simp only [Lib.byHead] at h
    split at h
    · exact hp _ v r h
    · exact hq _ v r h

theorem Yields.const_bad : Yields P fun _ : List β => .bad := fun _ _ _ h => by cases h

theorem Yields.anything (p : List β → Scan β φ) : Yields (fun _ => True) p := fun _ _ _ _ => trivial

theorem Yields.takeUntil (stop legal : β → Bool) :
    Yields (fun v => ∀ b ∈ v, stop b = false ∧ legal b = true) (takeUntil stop legal) := by
  intro s
  induction s with
  | nil => intro v r h; cases h
  | cons b bs ih =>
    intro v r h
    simp only [Lib.takeUntil] at h
    split at h
    · cases h
      exact fun _ hb => absurd hb not_mem_nil
    rename_i hstop
    split at h
    · rename_i hlegal
      obtain ⟨v', hv, rfl⟩ := Scan.map_eq_done _ h
      exact forall_mem_cons.mpr ⟨⟨by simpa using hstop, hlegal⟩, ih v' r hv⟩
    · cases h

theorem Yields.front (hp : Yields P p) {n : Nat} (h : (p s).front s = .item n v) : P v := by
  cases hx : p s with
  | more | bad => rw [hx] at h; cases h
  | done u r =>
    rw [hx] at h
    cases h
    exact hp s v r hx

end Yields

end Portico.Lib
