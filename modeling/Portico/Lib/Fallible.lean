/-
  Actions on a state that may fail.

  A failed action has no result, and the state is the one in which it failed: nothing is undone.
  `Triple P m Q F` is a pre- and postcondition for both outcomes: from a state with `P`, a run of
  `m` ends with a result and state that satisfy `Q`, or it fails in a state with `F`. The rules
  follow the way an action is put together. `Preserves I m` is the case of an invariant.
-/
namespace Portico.Lib

universe u v

/-- The state after the action, and its result unless it failed. -/
def Fallible (σ : Type u) (α : Type v) := σ → σ × Option α

namespace Fallible

variable {σ τ : Type u} {α β : Type v}

instance : Monad (Fallible σ) where
  pure a := fun s => (s, some a)
  bind m f := fun s =>
    match m s with
    | (s', some a) => f a s'
    | (s', none) => (s', none)

def ofOption (o : Option α) : Fallible σ α := fun s => (s, o)

def read (f : σ → α) : Fallible σ α := fun s => (s, some (f s))

def modify (f : σ → σ) : Fallible σ PUnit := fun s => (f s, some ⟨⟩)

/-- Goes on only if the test holds. -/
def require (test : Bool) : Fallible σ PUnit := fun s => (s, if test then some ⟨⟩ else none)

/-- An action on a part of the state. -/
def zoom (get : σ → τ) (set : τ → σ → σ) (m : Fallible τ α) : Fallible σ α := fun s =>
  (set (m (get s)).1 s, (m (get s)).2)

variable {m : Fallible σ α} {f : α → Fallible σ β}

theorem bind_of_some {s s' : σ} {a : α} (h : m s = (s', some a)) : (m >>= f) s = f a s' := by
  show (match m s with
    | (s', some a) => f a s'
    | (s', none) => (s', none)) = _
  rw [h]

theorem bind_of_none {s s' : σ} (h : m s = (s', none)) : (m >>= f) s = (s', none) := by
  show (match m s with
    | (s', some a) => f a s'
    | (s', none) => (s', none)) = _
  rw [h]

/-- What holds of the outcome of every run from a state with `P`. -/
def Triple (P : σ → Prop) (m : Fallible σ α) (Q : α → σ → Prop) (F : σ → Prop) : Prop :=
  ∀ s, P s → (m s).2.elim (F (m s).1) fun a => Q a (m s).1

abbrev Preserves (I : σ → Prop) (m : Fallible σ α) : Prop := Triple I m (fun _ => I) I

section Rules

variable {P P' : σ → Prop} {Q Q' : α → σ → Prop} {F F' : σ → Prop}

theorem Triple.imp (h : Triple P' m Q' F') (hp : ∀ s, P s → P' s) (hq : ∀ a s, Q' a s → Q a s)
    (hf : ∀ s, F' s → F s) : Triple P m Q F := by
  intro s hs
  have hm := h s (hp s hs)
  cases hr : (m s).2 with
  | none =>
    rw [hr] at hm
    exact hf _ hm
  | some a =>
    rw [hr] at hm
    exact hq a _ hm

/-- A condition on the state that is left does not depend on the outcome. -/
theorem triple_of_after {I : σ → Prop} (h : ∀ s, P s → I (m s).1) : Triple P m (fun _ => I) I := by
  intro s hs
  cases (m s).2 with
  | none => exact h s hs
  | some => exact h s hs

theorem triple_trivial (m : Fallible σ α) : Triple P m (fun _ _ => True) fun _ => True :=
  triple_of_after fun _ _ => trivial

theorem triple_pure {a : α} (h : ∀ s, P s → Q a s) : Triple P (pure a) Q F := h

theorem triple_read {f : σ → α} (h : ∀ s, P s → Q (f s) s) : Triple P (read f) Q F := h

theorem triple_modify {f : σ → σ} {Q : PUnit → σ → Prop} (h : ∀ s, P s → Q ⟨⟩ (f s)) :
    Triple P (modify f) Q F := h

theorem triple_ofOption {o : Option α} (hs : ∀ a s, o = some a → P s → Q a s)
    (hf : ∀ s, P s → F s) : Triple P (ofOption o) Q F := by
  intro s h
  cases o with
  | none => exact hf s h
  | some a => exact hs a s rfl h

variable {test : Bool}

theorem triple_require {Q : PUnit → σ → Prop} (hs : ∀ s, test = true → P s → Q ⟨⟩ s)
    (hf : ∀ s, P s → F s) : Triple P (require test) Q F := by
  intro s h
  cases test with
  | false => exact hf s h
  | true => exact hs s rfl h

variable {Q : β → σ → Prop}

theorem triple_bind {R : α → σ → Prop} (hm : Triple P m R F) (hf : ∀ a, Triple (R a) (f a) Q F) :
    Triple P (m >>= f) Q F := by
  intro s h
  have hs := hm s h
  -- the outcome of `m` decides whether `f` is run at all
  cases hr : m s with
  | mk s' o =>
    rw [hr] at hs
    cases o with
    | none =>
      rw [bind_of_none hr]
      exact hs
    | some a =>
      rw [bind_of_some hr]
      exact hf a s' hs

/-- What is read is known of the state. -/
theorem triple_bind_read {g : σ → α} (h : ∀ a, Triple (fun s => P s ∧ g s = a) (f a) Q F) :
    Triple P (read g >>= f) Q F :=
  triple_bind (triple_read fun _ hs => ⟨hs, rfl⟩) h

theorem triple_bind_require {f : PUnit → Fallible σ β} (hf : ∀ s, P s → F s)
    (h : test = true → Triple P (f ⟨⟩) Q F) : Triple P (require test >>= f) Q F :=
  triple_bind (R := fun _ s => test = true ∧ P s)
    (triple_require (fun _ ht hs => ⟨ht, hs⟩) hf) fun _ s hs => h hs.1 s hs.2

end Rules

section Preserves

variable {I : σ → Prop}

theorem preserves_pure (a : α) : Preserves I (pure a : Fallible σ α) := fun _ h => h

theorem preserves_read (f : σ → α) : Preserves I (read f) := fun _ h => h

theorem preserves_ofOption (o : Option α) : Preserves I (ofOption o) :=
  triple_ofOption (fun _ _ _ h => h) fun _ h => h

theorem preserves_require (test : Bool) : Preserves I (require test) :=
  triple_require (fun _ _ h => h) fun _ h => h

theorem preserves_bind (hm : Preserves I m) (hf : ∀ a, Preserves I (f a)) :
    Preserves I (m >>= f) := triple_bind hm hf

/-- What holds after both outcomes holds of the state that is left. -/
theorem Triple.after {P : σ → Prop} (h : Triple P m (fun _ => I) I) {s : σ} (hs : P s) :
    I (m s).1 := by
  have hm := h s hs
  cases hr : (m s).2 with
  | none | some =>
    rw [hr] at hm
    exact hm

end Preserves

end Fallible

end Portico.Lib
