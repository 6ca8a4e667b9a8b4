/-
  Runs of a machine with labelled steps.

  A machine is a partial step function `step : σ → α → Option σ`; every choice of the
  environment is part of the label, so a run is determined by its labels. `run` is the state a
  list of labels leads to, if each of them is possible where it stands. `RunMeets` says that
  every step of a run meets a condition on the label and the state before it.

  The rules: what every step (that meets the condition) preserves, every such run preserves.
-/
import Mathlib.Logic.Function.Basic

namespace Portico.Lib

universe u v

variable {σ : Type u} {α : Type v} (step : σ → α → Option σ)

/-- The state at the end of a run. -/
def run : σ → List α → Option σ
  | s, [] => some s
  | s, a :: as =>
    match step s a with
    | none => none
    | some s' => run s' as

/-- Every step of the run meets `ok` in the state before it. -/
def RunMeets (ok : σ → α → Prop) : σ → List α → Prop
  | _, [] => True
  | s, a :: as => ok s a ∧ ∀ s', step s a = some s' → RunMeets ok s' as

variable {step} {as : List α} {I : σ → Prop}

instance RunMeets.decidable {ok : σ → α → Prop} [∀ s a, Decidable (ok s a)] :
    ∀ (s : σ) (as : List α), Decidable (RunMeets step ok s as)
  | _, [] => isTrue trivial
  | s, a :: as =>
    match h : step s a with
    | none =>
      decidable_of_iff (ok s a)
        ⟨fun hok => ⟨hok, fun s' hs => absurd (h.symm.trans hs) (by simp)⟩, fun hm => hm.1⟩
    | some s1 =>
      have : Decidable (RunMeets step ok s1 as) := RunMeets.decidable s1 as
      decidable_of_iff (ok s a ∧ RunMeets step ok s1 as)
        ⟨fun hm => ⟨hm.1, fun s' hs => Option.some.inj (h.symm.trans hs) ▸ hm.2⟩,
          fun hm => ⟨hm.1, hm.2 s1 h⟩⟩

theorem run_cons {s s' : σ} {a : α} (h : run step s (a :: as) = some s') :
    ∃ s1, step s a = some s1 ∧ run step s1 as = some s' := by
  unfold run at h
  cases hs : step s a with
  | none => rw [hs] at h; exact absurd h (by simp)
  | some s1 => rw [hs] at h; exact ⟨s1, rfl, h⟩

theorem run_step {s s1 : σ} {a : α} (h : step s a = some s1) (as : List α) :
    run step s (a :: as) = run step s1 as := by
  rw [run, h]

theorem run_append {s s1 : σ} (h : run step s as = some s1) (bs : List α) :
    run step s (as ++ bs) = run step s1 bs := by
  induction as generalizing s with
  | nil => rw [List.nil_append, Option.some.inj h]
  | cons a as ih =>
    obtain ⟨s2, h2, hrest⟩ := run_cons h
    rw [List.cons_append, run_step h2, ih hrest]

theorem RunMeets.of_forall {ok : α → Prop} :
    ∀ {as : List α} (s : σ), (∀ a ∈ as, ok a) → RunMeets step (fun _ a => ok a) s as := by
  intro as
  induction as with
  | nil => intro _ _; trivial
  | cons a as ih =>
    intro s h
    exact ⟨h a List.mem_cons_self, fun s' _ => ih s' fun b hb => h b (List.mem_cons_of_mem a hb)⟩

/-- An invariant of the steps that meet a condition holds after every run of such steps. -/
theorem run_invariant {ok : σ → α → Prop}
    (hstep : ∀ s a s', I s → ok s a → step s a = some s' → I s') :
    ∀ (as : List α) (s s' : σ), I s → RunMeets step ok s as → run step s as = some s' → I s' := by
  intro as
  induction as with
  | nil =>
    intro s s' hs _ hrun
    exact Option.some.inj hrun ▸ hs
  | cons a as ih =>
    intro s s' hs hok hrun
    obtain ⟨s1, h1, hrest⟩ := run_cons hrun
    exact ih s1 s' (hstep s a s1 hs hok.1 h1) (hok.2 s1 h1) hrest

/-- An invariant of all steps holds after every run. -/
theorem run_invariant_all (hstep : ∀ s a s', I s → step s a = some s' → I s') :
    ∀ (as : List α) (s s' : σ), I s → run step s as = some s' → I s' := by
  intro as
  induction as with
  | nil =>
    intro s s' hs hrun
    exact Option.some.inj hrun ▸ hs
  | cons a as ih =>
    intro s s' hs hrun
    obtain ⟨s1, h1, hrest⟩ := run_cons hrun
    exact ih s1 s' (hstep s a s1 hs h1) hrest

/-- A machine whose steps are those of another one seen through `f`: its runs are the images of
    the other one's runs. -/
theorem run_image {τ : Type*} {step' : τ → α → Option τ} {ok : τ → α → Prop} {f : σ → τ}
    (himage : ∀ s a, I s → step' (f s) a = (step s a).map f)
    (hstep : ∀ s a s', I s → ok (f s) a → step s a = some s' → I s') :
    ∀ (as : List α) (s : σ) (t : τ), I s → RunMeets step' ok (f s) as →
      run step' (f s) as = some t → ∃ s', run step s as = some s' ∧ f s' = t ∧ I s' := by
  intro as
  induction as with
  | nil =>
    intro s t hs _ hrun
    exact ⟨s, rfl, Option.some.inj hrun, hs⟩
  | cons a as ih =>
    intro s t hs hok hrun
    obtain ⟨t1, ht1, hrest⟩ := run_cons hrun
    obtain ⟨s1, hs1, rfl⟩ := Option.map_eq_some_iff.mp ((himage s a hs).symm.trans ht1)
    obtain ⟨s', hrun', h⟩ := ih s1 t (hstep s a s1 hs hok.1 hs1) (hok.2 _ ht1) hrest
    exact ⟨s', by rw [run_step hs1, hrun'], h⟩

/-! ## States with a table -/

/-- An entry of an updated table that is not the new one has been there before. -/
theorem of_update {ι β : Type*} [DecidableEq ι] {f : ι → β} {i j : ι} {b x : β} (hne : b ≠ x)
    (h : Function.update f i b j = x) : j ≠ i ∧ f j = x := by
  by_cases hj : j = i
  · rw [hj, Function.update_self] at h
    exact absurd h hne
  · rw [Function.update_of_ne hj] at h
    exact ⟨hj, h⟩

end Portico.Lib
