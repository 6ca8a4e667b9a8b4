/-
  A tokenizer that keeps one position for all of its callers, as `strtok` of C does.

  A caller runs a loop over the tokens of its own text: its first call starts at that text, and
  each later one goes on at the position that the last call of any caller has left. A position is a
  text's owner and what is still to be scanned of it; the bytes in front of a position are never
  scanned again. A run is a list of callers, each of which makes its next call.

  The rules: a caller that is never interrupted gets the tokens of its text (`solo_run`); in a run
  at whose end no loop is open, every call has scanned the caller's own text just if no call was
  made while another caller's loop was open, and then every caller got the tokens of its text
  (`own_iff_exclusive`, `separate_run`).
-/
import Mathlib.Data.Fintype.Basic
import Portico.Lib.Machine

namespace Portico.Lib

open List

universe u v w x

variable {ι : Type u} {α : Type v} {σ : Type w} {ρ : Type x}

/-! ## Tokens -/

/-- The maximal runs without a delimiter. -/
def tokens (isDelim : α → Bool) (s : List α) : List (List α) :=
  (s.splitOnP isDelim).filter (!·.isEmpty)

/-- The first token, and what stands behind the delimiter that ends it. -/
def nextToken (isDelim : α → Bool) (s : List α) : Option (List α × List α) :=
  match s.dropWhile isDelim with
  | [] => none
  | c :: rest => some (c :: rest.takeWhile (!isDelim ·), (rest.dropWhile (!isDelim ·)).drop 1)

variable {isDelim : α → Bool}

theorem tokens_dropWhile (s : List α) :
    tokens isDelim (s.dropWhile isDelim) = tokens isDelim s := by
  induction s with
  | nil => rfl
  | cons c s ih =>
    rw [dropWhile_cons]
    split
    · rename_i hc
      have hsplit : (c :: s).splitOnP isDelim = [] :: s.splitOnP isDelim :=
        splitOnP_append_cons [] s hc
      rw [ih, tokens, tokens, hsplit]
      rfl
    · rfl

/-- A text that starts with a token. -/
theorem tokens_cons {c : α} (hc : isDelim c = false) (rest : List α) :
    tokens isDelim (c :: rest) = (c :: rest.takeWhile (!isDelim ·)) ::
      tokens isDelim ((rest.dropWhile (!isDelim ·)).drop 1) := by
  have hword : ∀ b ∈ c :: rest.takeWhile (!isDelim ·), isDelim b = false := by
    intro b hb
    obtain rfl | hb := mem_cons.mp hb
    · exact hc
    · simpa using all_eq_true.mp all_takeWhile b hb
  have hsplit : c :: rest =
      (c :: rest.takeWhile (!isDelim ·)) ++ rest.dropWhile (!isDelim ·) := by
    rw [cons_append, takeWhile_append_dropWhile]
  cases hd : rest.dropWhile (!isDelim ·) with
  | nil =>
    rw [hd, append_nil] at hsplit
    conv_lhs => rw [hsplit]
    rw [tokens, splitOnP_eq_singleton hword]
    rfl
  | cons d =>
    have hdelim : isDelim d = true := by
      have := head?_dropWhile_not (!isDelim ·) rest
      rw [hd] at this
      simpa using this
    rw [hd] at hsplit
    conv_lhs => rw [hsplit]
    rw [tokens, splitOnP_append_cons_of_forall_mem hword d hdelim]
    rfl

theorem tokens_of_none {s : List α} (h : nextToken isDelim s = none) : tokens isDelim s = [] := by
  rw [← tokens_dropWhile]
  unfold nextToken at h
  split at h
  · rename_i hs
    rw [hs]
    rfl
  · cases h

theorem tokens_of_some {s tok rest : List α} (h : nextToken isDelim s = some (tok, rest)) :
    tokens isDelim s = tok :: tokens isDelim rest ∧ rest.length < s.length := by
  have hlen := (dropWhile_suffix (p := isDelim) (l := s)).length_le
  rw [← tokens_dropWhile]
  have hhead := head?_dropWhile_not isDelim s
  unfold nextToken at h
  split at h
  · cases h
  rename_i c rest' hs
  rw [hs] at hhead hlen ⊢
  cases h
  refine ⟨tokens_cons (by simpa using hhead) rest', ?_⟩
  have hshort := (dropWhile_suffix (p := (!isDelim ·)) (l := rest')).length_le
  rw [length_cons] at hlen
  rw [length_drop]
  omega

/-! ## Loops -/

/-- A loop over tokens: it goes on with a new state or returns. -/
structure TokenLoop (α : Type v) (σ : Type w) (ρ : Type x) where
  start : σ
  onToken : σ → List α → σ ⊕ ρ
  onEnd : σ → ρ

/-- What the loop returns when it gets these tokens. -/
def TokenLoop.result (loop : TokenLoop α σ ρ) : σ → List (List α) → ρ
  | s, [] => loop.onEnd s
  | s, tok :: toks =>
    match loop.onToken s tok with
    | .inl s' => loop.result s' toks
    | .inr r => r

/-- Where a caller stands. -/
inductive LoopPhase (σ : Type w) (ρ : Type x) where
  | idle
  | looping (s : σ)
  | finished (r : ρ)
  deriving DecidableEq

/-- The caller is between two calls of its loop. -/
def LoopPhase.isLooping : LoopPhase σ ρ → Bool
  | .looping _ => true
  | _ => false

theorem LoopPhase.isLooping_iff {p : LoopPhase σ ρ} : p.isLooping = true ↔ ∃ s, p = .looping s := by
  cases p <;> simp [isLooping]

/-- One round of a loop that scans at `rest`: where the caller stands then, and what is left to be
    scanned. -/
def TokenLoop.round (isDelim : α → Bool) (loop : TokenLoop α σ ρ) (s : σ) (rest : List α) :
    LoopPhase σ ρ × List α :=
  match nextToken isDelim rest with
  | none => (.finished (loop.onEnd s), [])
  | some (tok, rest') =>
    match loop.onToken s tok with
    | .inl s' => (.looping s', rest')
    | .inr r => (.finished r, rest')

/-- A round returns what the whole loop would, or leaves a shorter text with the same result. -/
theorem TokenLoop.round_cases (isDelim : α → Bool) (loop : TokenLoop α σ ρ) (s : σ)
    (rest : List α) :
    (loop.round isDelim s rest).1 = .finished (loop.result s (tokens isDelim rest)) ∨
      ∃ s', (loop.round isDelim s rest).1 = .looping s' ∧
        loop.result s' (tokens isDelim (loop.round isDelim s rest).2) =
          loop.result s (tokens isDelim rest) ∧
        (loop.round isDelim s rest).2.length < rest.length := by
  unfold TokenLoop.round
  cases hnext : nextToken isDelim rest with
  | none =>
    rw [tokens_of_none hnext]
    exact Or.inl rfl
  | some p =>
    obtain ⟨tok, rest'⟩ := p
    obtain ⟨htokens, hlen⟩ := tokens_of_some hnext
    rw [htokens, TokenLoop.result]
    dsimp only
    cases loop.onToken s tok with
    | inl s' => exact Or.inr ⟨s', rfl, rfl, hlen⟩
    | inr => exact Or.inl rfl

/-! ## Callers that share the position -/

/-- The position, where each caller stands, and whose texts its calls have scanned. -/
structure SharedTokens (ι : Type u) (α : Type v) (σ : Type w) (ρ : Type x) where
  position : Option (ι × List α)
  phase : ι → LoopPhase σ ρ
  scanned : ι → List ι

/-- No call was made yet. -/
def SharedTokens.fresh : SharedTokens ι α σ ρ := ⟨none, fun _ => .idle, fun _ => []⟩

/-- What the loop of a caller returns alone. -/
def aloneResult (isDelim : α → Bool) (loop : ι → TokenLoop α σ ρ) (text : ι → List α) (i : ι) : ρ :=
  (loop i).result (loop i).start (tokens isDelim (text i))

/-- Every caller has scanned its own text only, and gets from it what it would get alone. -/
structure Separate (isDelim : α → Bool) (loop : ι → TokenLoop α σ ρ) (text : ι → List α)
    (w : SharedTokens ι α σ ρ) : Prop where
  own : ∀ i, ∀ j ∈ w.scanned i, j = i
  looping : ∀ i s, w.phase i = .looping s → ∃ rest, w.position = some (i, rest) ∧
    (loop i).result s (tokens isDelim rest) = aloneResult isDelim loop text i
  finished : ∀ i r, w.phase i = .finished r → r = aloneResult isDelim loop text i

theorem separate_fresh {loop : ι → TokenLoop α σ ρ} {text : ι → List α} :
    Separate isDelim loop text SharedTokens.fresh where
  own _ _ h := absurd h not_mem_nil
  looping _ _ h := by cases h
  finished _ _ h := by cases h

variable [DecidableEq ι]

/-- The caller's call scans at this position. -/
def SharedTokens.scan (isDelim : α → Bool) (loop : TokenLoop α σ ρ) (w : SharedTokens ι α σ ρ)
    (i : ι) (s : σ) (owner : ι) (rest : List α) : SharedTokens ι α σ ρ :=
  let r := loop.round isDelim s rest
  { position := some (owner, r.2)
    phase := Function.update w.phase i r.1
    scanned := Function.update w.scanned i (w.scanned i ++ [owner]) }

/-- The caller's next call. The first one names the caller's text, and the others go on at the
    position, wherever it is. -/
def nextCall (isDelim : α → Bool) (loop : ι → TokenLoop α σ ρ) (text : ι → List α)
    (w : SharedTokens ι α σ ρ) (i : ι) : Option (SharedTokens ι α σ ρ) :=
  match w.phase i with
  | .idle => some (w.scan isDelim (loop i) i (loop i).start i (text i))
  | .looping s => w.position.map fun p => w.scan isDelim (loop i) i s p.1 p.2
  | .finished _ => none

/-- No other caller's loop is open. -/
def Exclusive (w : SharedTokens ι α σ ρ) (i : ι) : Prop :=
  ∀ j, j ≠ i → (w.phase j).isLooping = false

instance [Fintype ι] (w : SharedTokens ι α σ ρ) (i : ι) : Decidable (Exclusive w i) :=
  inferInstanceAs (Decidable (∀ j, j ≠ i → (w.phase j).isLooping = false))

section Rules

variable {loop : ι → TokenLoop α σ ρ} {text : ι → List α} {w w' : SharedTokens ι α σ ρ} {i : ι}
  {calls : List ι}

theorem SharedTokens.scan_phase_ne {j : ι} (h : j ≠ i) (l : TokenLoop α σ ρ) (s : σ) (owner : ι)
    (rest : List α) : (w.scan isDelim l i s owner rest).phase j = w.phase j :=
  Function.update_of_ne h _ _

theorem SharedTokens.scan_phase_self (i : ι) (l : TokenLoop α σ ρ) (s : σ) (owner : ι)
    (rest : List α) :
    (w.scan isDelim l i s owner rest).phase i = (l.round isDelim s rest).1 :=
  Function.update_self _ _ _

/-- What a call is. -/
theorem nextCall_cases (h : nextCall isDelim loop text w i = some w') :
    ∃ s owner rest, w' = w.scan isDelim (loop i) i s owner rest ∧
      (w.phase i = .idle ∧ s = (loop i).start ∧ owner = i ∧ rest = text i ∨
        w.phase i = .looping s ∧ w.position = some (owner, rest)) := by
  unfold nextCall at h
  split at h
  · rename_i hphase
    exact ⟨_, _, _, (Option.some.inj h).symm, Or.inl ⟨hphase, rfl, rfl, rfl⟩⟩
  · rename_i s hphase
    obtain ⟨p, hp, rfl⟩ := Option.map_eq_some_iff.mp h
    exact ⟨s, p.1, p.2, rfl, Or.inr ⟨hphase, hp⟩⟩
  · cases h

/-- A call while no other loop is open keeps the callers separate. -/
theorem Separate.step (h : Separate isDelim loop text w) (hex : Exclusive w i)
    (hstep : nextCall isDelim loop text w i = some w') : Separate isDelim loop text w' := by
  obtain ⟨s, owner, rest, rfl, hcall⟩ := nextCall_cases hstep
  -- the call scans the caller's own text, where its loop stands
  obtain ⟨rfl, hresult⟩ : owner = i ∧
      (loop i).result s (tokens isDelim rest) = aloneResult isDelim loop text i := by
    obtain ⟨-, rfl, rfl, rfl⟩ | ⟨hphase, hposition⟩ := hcall
    · exact ⟨rfl, rfl⟩
    · obtain ⟨rest', hposition', hresult⟩ := h.looping i s hphase
      cases hposition.symm.trans hposition'
      exact ⟨rfl, hresult⟩
  have hround := (loop owner).round_cases isDelim s rest
  refine ⟨fun j k hk => ?_, fun j s' hj => ?_, fun j r hj => ?_⟩
  · by_cases hne : j = owner
    · subst hne
      rw [SharedTokens.scan] at hk
      simp only [Function.update_self, mem_append, mem_singleton] at hk
      exact hk.elim (h.own j k) id
    · rw [SharedTokens.scan] at hk
      simp only [Function.update_of_ne hne] at hk
      exact h.own j k hk
  · by_cases hne : j = owner
    · subst hne
      rw [SharedTokens.scan_phase_self] at hj
      obtain hfin | ⟨s1, hloop, hres, -⟩ := hround
      · rw [hfin] at hj
        cases hj
      · rw [hloop] at hj
        cases hj
        exact ⟨_, rfl, hres.trans hresult⟩
    · rw [SharedTokens.scan_phase_ne hne] at hj
      exact absurd (LoopPhase.isLooping_iff.mpr ⟨s', hj⟩) (by simp [hex j hne])
  · by_cases hne : j = owner
    · subst hne
      rw [SharedTokens.scan_phase_self] at hj
      obtain hfin | ⟨s1, hloop, -⟩ := hround
      · rw [hfin] at hj
        cases hj
        exact hresult
      · rw [hloop] at hj
        cases hj
    · rw [SharedTokens.scan_phase_ne hne] at hj
      exact h.finished j r hj

/-- The caller's loop is open and the position is in another text, or a call of it has scanned
    another text. -/
def Lost (i : ι) (w : SharedTokens ι α σ ρ) : Prop :=
  (∃ s owner rest, w.phase i = .looping s ∧ w.position = some (owner, rest) ∧ owner ≠ i) ∨
    ∃ j ∈ w.scanned i, j ≠ i

/-- A caller that has lost its text does not get back to it. -/
theorem Lost.step {j : ι} (h : Lost j w) (hstep : nextCall isDelim loop text w i = some w') :
    Lost j w' := by
  obtain ⟨s, owner, rest, rfl, hcall⟩ := nextCall_cases hstep
  by_cases hne : j = i
  · subst hne
    right
    have hscanned : (w.scan isDelim (loop j) j s owner rest).scanned j = w.scanned j ++ [owner] :=
      Function.update_self _ _ _
    rw [hscanned]
    obtain ⟨s', owner', rest', hphase, hposition, hforeign⟩ | ⟨k, hk, hforeign⟩ := h
    · rw [hphase, hposition] at hcall
      obtain ⟨hidle, -⟩ | ⟨-, hsame⟩ := hcall
      · cases hidle
      · cases hsame
        exact ⟨owner, by simp, hforeign⟩
    · exact ⟨k, mem_append_left _ hk, hforeign⟩
  · have hscanned : (w.scan isDelim (loop i) i s owner rest).scanned j = w.scanned j :=
      Function.update_of_ne hne _ _
    rw [Lost, hscanned, SharedTokens.scan_phase_ne hne]
    obtain ⟨s', owner', rest', hphase, hposition, hforeign⟩ | hforeign := h
    · refine Or.inl ⟨s', owner, _, hphase, rfl, ?_⟩
      obtain ⟨-, -, rfl, -⟩ | ⟨-, hsame⟩ := hcall
      · exact fun heq => hne heq.symm
      · cases hposition.symm.trans hsame
        exact hforeign
    · exact Or.inr hforeign

/-- The callers are separate after a run in which no call was made while another loop was open. -/
theorem separate_run
    (hex : RunMeets (nextCall isDelim loop text) Exclusive SharedTokens.fresh calls)
    (hrun : run (nextCall isDelim loop text) SharedTokens.fresh calls = some w) :
    Separate isDelim loop text w :=
  run_invariant (fun _ _ _ h hex hstep => h.step hex hstep) calls _ _ separate_fresh hex hrun

/-- From separate callers, a call while another loop is open makes the other caller lose its
    text. -/
theorem Separate.lost (h : Separate isDelim loop text w) (hex : ¬ Exclusive w i)
    (hstep : nextCall isDelim loop text w i = some w') : ∃ j, Lost j w' := by
  obtain ⟨j, hne, s, hphase⟩ : ∃ j, j ≠ i ∧ ∃ s, w.phase j = .looping s := by
    simpa [Exclusive, LoopPhase.isLooping_iff] using hex
  obtain ⟨rest, hposition, -⟩ := h.looping j s hphase
  obtain ⟨s', owner, rest', rfl, hcall⟩ := nextCall_cases hstep
  refine ⟨j, Or.inl ⟨s, owner, _, ?_, rfl, ?_⟩⟩
  · rw [SharedTokens.scan_phase_ne hne, hphase]
  · obtain ⟨-, -, rfl, -⟩ | ⟨hphase', hposition'⟩ := hcall
    · exact hne.symm
    · -- two open loops cannot both be at the position
      obtain ⟨_, hposition'', -⟩ := h.looping i s' hphase'
      cases hposition.symm.trans hposition''
      exact absurd rfl hne

theorem exclusive_of_own :
    ∀ {w0 : SharedTokens ι α σ ρ}, Separate isDelim loop text w0 →
      run (nextCall isDelim loop text) w0 calls = some w → (∀ i, (w.phase i).isLooping = false) →
      (∀ i, ∀ j ∈ w.scanned i, j = i) →
      RunMeets (nextCall isDelim loop text) Exclusive w0 calls := by
  induction calls with
  | nil =>
    intro w0 _ _ _ _
    trivial
  | cons i calls ih =>
    intro w0 h0 hrun hclosed hown
    obtain ⟨w1, hstep, hrest⟩ := run_cons hrun
    by_cases hex : Exclusive w0 i
    · refine ⟨hex, fun w1' hstep' => ?_⟩
      cases hstep.symm.trans hstep'
      exact ih (h0.step hex hstep) hrest hclosed hown
    · obtain ⟨j, hlost⟩ := h0.lost hex hstep
      have hend : Lost j w :=
        run_invariant_all (fun _ _ _ h hs => Lost.step h hs) calls _ _ hlost hrest
      obtain ⟨s, _, _, hphase, -⟩ | ⟨k, hk, hforeign⟩ := hend
      · exact absurd (LoopPhase.isLooping_iff.mpr ⟨s, hphase⟩) (by simp [hclosed j])
      · exact absurd (hown j k hk) hforeign

/-- In a run at whose end no loop is open, every call has scanned the caller's own text just if no
    call was made while another caller's loop was open. -/
theorem own_iff_exclusive
    (hrun : run (nextCall isDelim loop text) SharedTokens.fresh calls = some w)
    (hclosed : ∀ i, (w.phase i).isLooping = false) :
    (∀ i, ∀ j ∈ w.scanned i, j = i) ↔
      RunMeets (nextCall isDelim loop text) Exclusive SharedTokens.fresh calls :=
  ⟨exclusive_of_own separate_fresh hrun hclosed, fun hex => (separate_run hex hrun).own⟩

/-- A loop whose caller makes all further calls gets the rest of its tokens. -/
theorem solo_scan (isDelim : α → Bool) (loop : ι → TokenLoop α σ ρ) (text : ι → List α) (i : ι)
    (n : Nat) :
    ∀ (w : SharedTokens ι α σ ρ) (s : σ) (rest : List α), rest.length ≤ n →
      ∃ m w', run (nextCall isDelim loop text) (w.scan isDelim (loop i) i s i rest)
          (replicate m i) = some w' ∧
        w'.phase i = .finished ((loop i).result s (tokens isDelim rest)) := by
  induction n with
  | zero =>
    intro w s rest hlen
    refine ⟨0, _, rfl, ?_⟩
    rw [SharedTokens.scan_phase_self]
    obtain hfin | ⟨_, _, _, hshort⟩ := (loop i).round_cases isDelim s rest
    · exact hfin
    · omega
  | succ n ih =>
    intro w s rest hlen
    obtain hfin | ⟨s', hloop, hresult, hshort⟩ := (loop i).round_cases isDelim s rest
    · exact ⟨0, _, rfl, by rw [SharedTokens.scan_phase_self, hfin]⟩
    · obtain ⟨m, w', hrun, hphase⟩ := ih (w.scan isDelim (loop i) i s i rest) s'
        ((loop i).round isDelim s rest).2 (by omega)
      have hstep : nextCall isDelim loop text (w.scan isDelim (loop i) i s i rest) i =
          some ((w.scan isDelim (loop i) i s i rest).scan isDelim (loop i) i s' i
            ((loop i).round isDelim s rest).2) := by
        rw [nextCall, SharedTokens.scan_phase_self, hloop]
        rfl
      exact ⟨m + 1, w', by rw [replicate_succ, run_step hstep, hrun], by rw [hphase, hresult]⟩

/-- A caller that makes all the calls returns what the tokens of its text give. -/
theorem solo_run (isDelim : α → Bool) (loop : ι → TokenLoop α σ ρ) (text : ι → List α) (i : ι) :
    ∃ m w', run (nextCall isDelim loop text) SharedTokens.fresh (replicate m i) = some w' ∧
      w'.phase i = .finished (aloneResult isDelim loop text i) := by
  obtain ⟨m, w', hrun, hphase⟩ := solo_scan isDelim loop text i _ SharedTokens.fresh
    (loop i).start (text i) (Nat.le_refl _)
  exact ⟨m + 1, w', by rw [replicate_succ, run_step rfl, hrun], hphase⟩

end Rules

end Portico.Lib
