/-
  The io_uring backend over whole runs: what the rings guarantee, and that every accepted read
  is enqueued.

  Progress is proved along the trace of any schedule in which the kernel completes what it has
  consumed and the owner reaps again and again (so that its submits, its callbacks and its loops
  come to an end). A completion that is in the ring when a reap begins has been enqueued when the
  next one begins.

  Besides the completions that are not reaped, the ring holds those that `uring_reap` has passed
  and not yet given back. As long as no callback is fired inline, they fit as well
  (`UringInv.occupied`).

  Proved: `uring_rings_sound`.
-/
import Portico.Aio.Uring

namespace Portico.Aio

open Portico.Lib List

variable {z : RingSize} {s s' : Uring} {l : UringLabel}

/-! ## What only grows -/

theorem UringEffect.posted_prefix (he : UringEffect z s l s') : s.posted <+: s'.posted := by
  cases he with
  | submit fails pc =>
    cases pc with
    | enter => cases fails <;> exact prefix_refl _
    | _ => exact prefix_refl _
  | reaping fails pc => rw [(reapStep_frame z s fails pc).posted]
  | complete => exact prefix_append _ _
  | _ => exact prefix_refl _

/-- What the kernel works on stays there until it is posted. -/
theorem UringEffect.kernel (he : UringEffect z s l s') {op : Nat} (hop : op ∈ s.kernel) :
    op ∈ s'.kernel ∨ op ∈ s'.posted.map Completion.op := by
  cases he with
  | submit fails pc =>
    left
    cases pc with
    | enter =>
      cases fails with
      | none => exact mem_append_left _ hop
      | some => exact hop
    | _ => exact hop
  | reaping fails pc =>
    left
    rw [(reapStep_frame z s fails pc).kernel]
    exact hop
  | complete op' =>
    by_cases he : op = op'
    · right
      rw [he, map_append]
      exact mem_append_right _ mem_cons_self
    · exact .inl ((mem_erase_of_ne he).mpr hop)
  | _ => exact .inl hop

/-! ## One reap -/

/-- The first `k` completions are reaped, or the reap under way goes up to them. -/
def Covers (k : Nat) (s : Uring) : Prop :=
  k ≤ s.posted.length ∧ (k ≤ s.reaped ∨ ∃ pc, s.reap = some pc ∧ pc.tail = index 32 k)

theorem Covers.reaping {k : Nat} (h : Covers k s) (hinv : UringInv z s) {pc : ReapPc}
    (hpc : s.reap = some pc) (fails : Option Nat) : Covers k (reapStep z s fails pc) := by
  refine ⟨(reapStep_frame z s fails pc).posted ▸ h.1, ?_⟩
  have hgoes : k ≤ s.reaped ∨ pc.tail = index 32 k := by
    rcases h.2 with hk | ⟨pc', hpc', htail⟩
    · exact .inl hk
    · exact .inr (Option.some.inj (hpc.symm.trans hpc') ▸ htail)
  cases pc with
  | loop head tail =>
    by_cases heq : head = tail
    · -- the loop does not end before it has reached them
      subst heq
      rw [reapStep_loop_done]
      left
      rcases hgoes with hk | htail
      · exact hk
      · by_contra hlt
        refine hinv.ring.not_done hinv.reads (Nat.lt_of_not_le hlt) h.1 ?_
        rw [← show head = index 32 s.reaped from (hinv.ring.reaping _ hpc).head]
        exact htail
    · rw [reapStep_loop_more z s fails heq]
      exact hgoes.imp id fun htail => ⟨_, rfl, htail⟩
  | enqueue =>
    refine hgoes.imp id fun htail => ⟨_, rfl, ?_⟩
    split <;> exact htail
  | callback => exact hgoes.imp id fun htail => ⟨_, rfl, htail⟩
  | next => exact hgoes.imp Nat.le_succ_of_le fun htail => ⟨_, rfl, htail⟩

theorem Covers.step {k : Nat} (h : Covers k s) (hinv : UringInv z s)
    (he : UringEffect z s l s') : Covers k s' := by
  cases he with
  | submit fails pc =>
    cases pc with
    | enter => cases fails <;> exact h
    | _ => exact h
  | reaping fails pc hidle hpc => exact h.reaping hinv hpc fails
  | reap hidle hreap =>
    refine ⟨h.1, .inl (h.2.resolve_right ?_)⟩
    rintro ⟨pc, hpc, -⟩
    simp [hreap] at hpc
  | complete => exact ⟨Nat.le_trans h.1 (by simp), h.2⟩
  | _ => exact h

/-! ## Schedules -/

/-- The instance after `n` moments. -/
def ringMoment (z : RingSize) (sched : Nat → UringLabel) : Nat → Uring :=
  trace (uringStep z) .init sched

/-- The kernel completes what it has consumed, and the owner begins to reap again and again. -/
structure Serving (z : RingSize) (sched : Nat → UringLabel) : Prop where
  completes : ∀ n, ∀ op ∈ (trace (uringStep z) .init sched n).kernel,
    ∃ m, n ≤ m ∧ ∃ res, sched m = .complete op res
  reaps : InfinitelyOften fun n => sched n = .reap ∧
    (trace (uringStep z) .init sched n).submit = none ∧
    (trace (uringStep z) .init sched n).reap = none

section Traces

variable {sched : Nat → UringLabel}

theorem ringMoment_inv (z : RingSize) (sched : Nat → UringLabel) (n : Nat) :
    UringInv z (ringMoment z sched n) :=
  trace_invariant .init (fun _ _ _ h hs => h.step hs) n

theorem ringMoment_succ (z : RingSize) (sched : Nat → UringLabel) (n : Nat) :
    (uringStep z (ringMoment z sched n) (sched n) = none ∧
        ringMoment z sched (n + 1) = ringMoment z sched n) ∨
      UringEffect z (ringMoment z sched n) (sched n) (ringMoment z sched (n + 1)) := by
  rcases trace_succ (uringStep z) .init sched n with h | h
  · exact .inl h
  · exact .inr (uring_effect h)

/-- What every step keeps, holds from some moment on. -/
theorem ringMoment_keeps {I : Uring → Prop} {n m : Nat} (hnm : n ≤ m)
    (hstep : ∀ {s l s'}, UringInv z s → I s → UringEffect z s l s' → I s')
    (hn : I (ringMoment z sched n)) : I (ringMoment z sched m) := by
  induction m, hnm using Nat.le_induction with
  | base => exact hn
  | succ m _ ih =>
    rcases ringMoment_succ z sched m with ⟨-, hsame⟩ | he
    · rw [hsame]
      exact ih
    · exact hstep (ringMoment_inv z sched m) ih he

theorem posted_prefix_of_le {n m : Nat} (hnm : n ≤ m) :
    (ringMoment z sched n).posted <+: (ringMoment z sched m).posted :=
  ringMoment_keeps (I := fun s => (ringMoment z sched n).posted <+: s.posted) hnm
    (fun _ h he => h.trans he.posted_prefix) (prefix_refl _)

/-- The kernel posts what it works on. -/
theorem kernel_posted (hserving : Serving z sched) {n op : Nat}
    (hop : op ∈ (ringMoment z sched n).kernel) :
    ∃ m, n ≤ m ∧ op ∈ (ringMoment z sched m).posted.map Completion.op := by
  obtain ⟨m, hnm, res, hm⟩ := hserving.completes n op hop
  have hkept : op ∈ (ringMoment z sched m).kernel ∨
      op ∈ (ringMoment z sched m).posted.map Completion.op := by
    refine ringMoment_keeps (I := fun s => op ∈ s.kernel ∨ op ∈ s.posted.map Completion.op) hnm
      (fun _ h he => ?_) (.inl hop)
    rcases h with hk | hp
    · exact he.kernel hk
    · exact .inr ((he.posted_prefix.map _).subset hp)
  rcases hkept with hk | hp
  · refine ⟨m + 1, by omega, ?_⟩
    rcases ringMoment_succ z sched m with ⟨hnone, -⟩ | he
    · rw [hm] at hnone
      simp [uringStep, hk] at hnone
    · rw [hm] at he
      generalize ringMoment z sched (m + 1) = s1 at he
      cases he with
      | complete =>
        rw [map_append]
        exact mem_append_right _ mem_cons_self
  · exact ⟨m, hnm, hp⟩

/-- What is posted when a reap begins is enqueued when the next one begins. -/
theorem posted_enqueued (hserving : Serving z sched) {n : Nat} {c : Completion}
    (hc : c ∈ (ringMoment z sched n).posted) :
    ∃ m, n ≤ m ∧ c ∈ (ringMoment z sched m).enqueued := by
  obtain ⟨m1, hnm1, hl, hidle, hreap⟩ := hserving.reaps n
  obtain ⟨m2, hm12, -, -, hreap2⟩ := hserving.reaps (m1 + 1)
  have hbegun : Covers (ringMoment z sched m1).posted.length (ringMoment z sched (m1 + 1)) := by
    rcases ringMoment_succ z sched m1 with ⟨hnone, -⟩ | he
    · rw [hl] at hnone
      simp [uringStep, ringMoment, hidle, hreap] at hnone
    · rw [hl] at he
      have hcqTail := (ringMoment_inv z sched m1).ring.cqTail
      revert he hcqTail
      generalize ringMoment z sched (m1 + 1) = s1
      generalize ringMoment z sched m1 = s0
      intro he hcqTail
      cases he with
      | reap => exact ⟨Nat.le_refl _, .inr ⟨_, rfl, hcqTail⟩⟩
  have hcovers := ringMoment_keeps (I := Covers (ringMoment z sched m1).posted.length) hm12
    (fun hinv h he => h.step hinv he) hbegun
  have hreap2 : (ringMoment z sched m2).reap = none := hreap2
  have hreaped : (ringMoment z sched m1).posted.length ≤ (ringMoment z sched m2).reaped := by
    refine hcovers.2.resolve_right ?_
    rintro ⟨pc, hpc, -⟩
    simp [hreap2] at hpc
  refine ⟨m2, by omega, ?_⟩
  have henqueued := (ringMoment_inv z sched m2).ring.enqueued
  rw [show (ringMoment z sched m2).past = 0 by simp [Uring.past, hreap2], Nat.add_zero]
    at henqueued
  -- all that was posted at `m1` is in front of what is reaped at `m2`
  have hprefix : (ringMoment z sched m1).posted <+: (ringMoment z sched m2).enqueued := by
    rw [henqueued]
    refine prefix_of_prefix_length_le (posted_prefix_of_le (by omega))
      (List.take_prefix _ _) ?_
    rw [length_take]
    exact Nat.le_min.mpr ⟨hreaped, hcovers.1⟩
  exact hprefix.subset ((posted_prefix_of_le hnm1).subset hc)

theorem accepted_enqueued (hserving : Serving z sched) {n op : Nat}
    (hop : op ∈ (ringMoment z sched n).accepted) :
    ∃ m, n ≤ m ∧ op ∈ (ringMoment z sched m).enqueued.map Completion.op := by
  have hledger := (ringMoment_inv z sched n).reads.ledger.mem_iff.mp
    (mem_append_left _ hop)
  obtain ⟨m1, hm1, hposted⟩ : ∃ m, n ≤ m ∧
      op ∈ (ringMoment z sched m).posted.map Completion.op := by
    rcases mem_append.mp hledger with hp | hk
    · exact ⟨n, Nat.le_refl n, hp⟩
    · exact kernel_posted hserving hk
  obtain ⟨c, hc, rfl⟩ := mem_map.mp hposted
  obtain ⟨m2, hm2, henqueued⟩ := posted_enqueued hserving hc
  exact ⟨m2, by omega, mem_map_of_mem henqueued⟩

end Traces

/-! ## What the ring holds -/

/-- No allocation fails in `uring_reap`, so that no callback is fired inline. -/
def Uring.AllocatesInReap (s : Uring) (l : UringLabel) : Prop :=
  ∀ c head tail e, s.reap = some (.enqueue c head tail) → l ≠ .owner (some e)

/-- Without inline callbacks nothing is submitted during a reap, so that also the completions that
    it has not given back yet fit. -/
structure Quiet (z : RingSize) (s : Uring) : Prop where
  idle : ∀ pc, s.reap = some pc → s.submit = none ∧ pc.inCallback = false
  occupied : s.posted.length + s.kernel.length ≤ s.released + z.sqEntries

theorem Quiet.idle_step (h : Quiet z s) (halloc : s.AllocatesInReap l)
    (he : UringEffect z s l s') :
    ∀ pc, s'.reap = some pc → s'.submit = none ∧ pc.inCallback = false := by
  intro pc hpc
  cases he with
  | refuse | complete => exact h.idle pc hpc
  | begin r alloc hidle hreap =>
    have hcallback : pc.inCallback = true := by
      rw [show s.reap = some pc from hpc] at hreap
      simpa using hreap
    exact absurd (hcallback.symm.trans (h.idle pc hpc).2) (by simp)
  | submit fails pc' hpc' =>
    have hsame : (submitStep z s fails pc').reap = s.reap := by
      cases pc' with
      | enter => cases fails <;> rfl
      | _ => rfl
    exact absurd (hpc'.symm.trans (h.idle pc (hsame ▸ hpc)).1) (by simp)
  | reaping fails pc' hidle hpc' =>
    refine ⟨(reapStep_frame z s fails pc').submit.trans hidle, ?_⟩
    cases pc' with
    | loop head tail =>
      by_cases heq : head = tail
      · subst heq
        rw [reapStep_loop_done] at hpc
        cases hpc
      · rw [reapStep_loop_more z s fails heq] at hpc
        cases hpc
        rfl
    | enqueue c head tail =>
      cases fails with
      | none =>
        cases hpc
        rfl
      | some e => exact absurd rfl (halloc c head tail e hpc')
    | callback => exact absurd (h.idle _ hpc').2 (by simp [ReapPc.inCallback])
    | next =>
      cases hpc
      rfl
  | reap hidle =>
    cases hpc
    exact ⟨hidle, rfl⟩

/-- During a reap the kernel only moves what it works on to the completions. -/
theorem Quiet.occupied_step (h : Quiet z s) (hinv : UringInv z s) (hinv' : UringInv z s')
    (he : UringEffect z s l s') :
    s'.posted.length + s'.kernel.length ≤ s'.released + z.sqEntries := by
  cases hr : s'.reap with
  | none =>
    rw [hinv'.ring.released.2 hr]
    exact hinv'.ring.unreaped hinv'.reads
  | some pc =>
    have hoccupied := h.occupied
    cases he with
    | submit fails pc' hpc' =>
      have hsame : (submitStep z s fails pc').reap = s.reap := by
        cases pc' with
        | enter => cases fails <;> rfl
        | _ => rfl
      exact absurd (hpc'.symm.trans (h.idle pc (hsame ▸ hr)).1) (by simp)
    | reaping fails pc' =>
      have hframe := reapStep_frame z s fails pc'
      have hreleased : s.released ≤ (reapStep z s fails pc').released := by
        cases pc' with
        | loop head tail =>
          by_cases heq : head = tail
          · subst heq
            rw [reapStep_loop_done]
            exact hinv.ring.released.1
          · rw [reapStep_loop_more z s fails heq]
        | _ => exact Nat.le_refl _
      rw [hframe.posted, hframe.kernel]
      omega
    | complete op res hop =>
      have hlen := length_erase_of_mem hop
      have hpos := length_pos_of_mem hop
      simp only [length_append, length_singleton]
      omega
    | _ => exact hoccupied

theorem run_quiet {as : List UringLabel} (hrun : run (uringStep z) .init as = some s)
    (halloc : RunMeets (uringStep z) Uring.AllocatesInReap .init as) : Quiet z s := by
  refine (run_invariant (I := fun s => UringInv z s ∧ Quiet z s) (fun s l s' h ha hs => ?_) as .init
    s ⟨.init, fun pc hpc => absurd hpc (by simp [Uring.init]), Nat.zero_le _⟩ halloc hrun).2
  have he := uring_effect hs
  exact ⟨h.1.step hs, h.2.idle_step ha he, h.2.occupied_step h.1 (h.1.step hs) he⟩

/-! ## The rings -/

/-- On the io_uring backend, whatever the interleaving with the kernel and however often the
    indices wrap: an entry that is being filled is not one that the kernel has still to consume;
    the completions that are not reaped fit into the completion ring, and without inline callbacks
    so do those that have not been given back; `inflight` is what was accepted less what was
    reaped; no read is enqueued twice, only accepted ones are, with the kernel's result, and no
    refused one. And if the kernel completes what it consumes and the owner keeps reaping, every
    accepted read is enqueued. -/
theorem uring_rings_sound (z : RingSize) :
    (∀ (as : List UringLabel) (s : Uring), run (uringStep z) .init as = some s →
      (∀ op r tail, s.submit = some (.fill op r tail) → ∀ k, k < (s.sqTail - s.sqHead).toNat →
        z.sqSlot (s.sqHead + BitVec.ofNat 32 k) ≠ z.sqSlot tail) ∧
      s.posted.length - s.reaped ≤ z.cqEntries ∧
      (RunMeets (uringStep z) Uring.AllocatesInReap .init as →
        s.posted.length - s.released ≤ z.cqEntries) ∧
      s.inflight.toNat + s.reaped = s.accepted.length ∧
      (s.enqueued.map Completion.op).Nodup ∧
      (∀ c ∈ s.enqueued, c ∈ s.posted ∧ c.op ∈ s.accepted) ∧
      ∀ x ∈ s.refused, ∀ c ∈ s.enqueued, c.op ≠ x.1) ∧
    ∀ sched : Nat → UringLabel, Serving z sched →
      ∀ n, ∀ op ∈ (trace (uringStep z) .init sched n).accepted, ∃ m, n ≤ m ∧
        op ∈ (trace (uringStep z) .init sched m).enqueued.map Completion.op := by
  refine ⟨fun as s hrun => ?_, fun sched hserving n op hop => accepted_enqueued hserving hop⟩
  obtain ⟨hsq, hreads, hring⟩ := run_uringInv hrun
  have hfits := hring.unreaped hreads
  have hle := z.sqEntries_le
  refine ⟨fun op r tail hpc k hk => ?_, by omega, fun halloc => ?_, hring.inflight, ?_,
    fun c hc => ?_,
    fun x hx c hc he => ?_⟩
  · -- the submission ring is empty
    rw [hpc] at hsq
    rw [hsq.1, BitVec.sub_self] at hk
    exact absurd hk (Nat.not_lt_zero k)
  · have hoccupied := (run_quiet hrun halloc).occupied
    omega
  · have hnodup := (nodup_append'.mp hreads.distinct).1
    -- the ops of the completions are part of what was accepted and consumed, without repetition
    have hposted : (s.posted.map Completion.op).Nodup := by
      have hall : (s.accepted ++ s.entered).Nodup := by
        unfold Uring.entered
        split
        · rename_i op hpc
          have hdistinct := hreads.distinct
          rw [show s.pending = [op] by simp [Uring.pending, hpc, SubmitPc.op]] at hdistinct
          exact hdistinct
        · rw [append_nil]
          exact hnodup
      exact (nodup_append'.mp (hreads.ledger.nodup_iff.mp hall)).1
    rw [hring.enqueued]
    exact hposted.sublist ((take_sublist _ _).map _)
  · refine ⟨?_, hring.accepted c hc⟩
    rw [hring.enqueued] at hc
    exact mem_of_mem_take hc
  · refine (hreads.refused x hx).2 (mem_append_left _ ?_)
    rw [← he]
    exact hring.accepted c hc

def twoEntries : RingSize := ⟨1, 1, by decide, by decide⟩

/-- One read is submitted and completed; from then on the owner reaps again and again. -/
def oneRead (n : Nat) : UringLabel :=
  if n = 0 then .pread ⟨3, true, 1, 0, true⟩ true
  else if n < 5 then .owner none
  else if n = 5 then .complete 0 1
  else if n % 2 = 0 then .reap
  else .owner none

/-- Nothing is submitted, and nothing is left to complete or to reap. -/
def Uring.AtRest (s : Uring) : Prop :=
  s.submit = none ∧ s.reap = none ∧ s.kernel = [] ∧ s.cqHead = s.cqTail

/-- A reap that finds nothing. -/
theorem reap_atRest (h : s.AtRest) :
    ∃ s1 s2, uringStep z s .reap = some s1 ∧ s1.kernel = [] ∧
      uringStep z s1 (.owner none) = some s2 ∧ s2.AtRest := by
  obtain ⟨hsubmit, hreap, hkernel, hcq⟩ := h
  let s1 : Uring := { s with reap := some (.loop s.cqTail s.cqTail) }
  refine ⟨s1, reapStep z s1 none (.loop s.cqTail s.cqTail), ?_, hkernel, ?_, ?_⟩
  · simp [uringStep, hsubmit, hreap, hcq, s1]
  · simp [uringStep, hsubmit, s1]
  · rw [reapStep_loop_done]
    exact ⟨hsubmit, rfl, hkernel, rfl⟩

theorem oneRead_later (k : Nat) :
    oneRead (14 + 2 * k) = .reap ∧ oneRead (14 + 2 * k + 1) = .owner none := by
  unfold oneRead
  refine ⟨?_, ?_⟩
  · rw [if_neg (by omega), if_neg (by omega), if_neg (by omega), if_pos (by omega)]
  · rw [if_neg (by omega), if_neg (by omega), if_neg (by omega), if_neg (by omega)]

theorem ringMoment_oneRead (k : Nat) :
    (ringMoment twoEntries oneRead (14 + 2 * k)).AtRest ∧
      (ringMoment twoEntries oneRead (14 + 2 * k + 1)).kernel = [] := by
  have hsucc : ∀ {n s'}, uringStep twoEntries (ringMoment twoEntries oneRead n) (oneRead n) =
      some s' → ringMoment twoEntries oneRead (n + 1) = s' := fun h => by
    simp only [ringMoment, trace] at h ⊢
    rw [h, Option.getD_some]
  have hround : ∀ j, (ringMoment twoEntries oneRead (14 + 2 * j)).AtRest →
      (ringMoment twoEntries oneRead (14 + 2 * j + 1)).kernel = [] ∧
        (ringMoment twoEntries oneRead (14 + 2 * (j + 1))).AtRest := by
    intro j hj
    obtain ⟨s1, s2, h1, hkernel, h2, hrest⟩ := reap_atRest (z := twoEntries) hj
    have hm1 := hsucc (by rw [(oneRead_later j).1]; exact h1)
    have hm2 : ringMoment twoEntries oneRead (14 + 2 * j + 1 + 1) = s2 :=
      hsucc (by rw [(oneRead_later j).2, hm1]; exact h2)
    exact ⟨hm1 ▸ hkernel, hm2 ▸ hrest⟩
  have hrest : (ringMoment twoEntries oneRead (14 + 2 * k)).AtRest := by
    induction k with
    | zero => exact ⟨rfl, rfl, rfl, rfl⟩
    | succ k ih => exact (hround k ih).2
  exact ⟨hrest, (hround k hrest).1⟩

theorem serving_oneRead : Serving twoEntries oneRead where
  completes := by
    intro n op hop
    by_cases hn : n < 14
    · have hearly : ∀ n, n < 14 → ∀ op ∈ (trace (uringStep twoEntries) .init oneRead n).kernel,
          n ≤ 5 ∧ op = 0 := by decide
      obtain ⟨hle, rfl⟩ := hearly n hn op hop
      exact ⟨5, hle, 1, rfl⟩
    · have hnil : (ringMoment twoEntries oneRead n).kernel = [] := by
        rcases Nat.even_or_odd' (n - 14) with ⟨k, hk | hk⟩
        · rw [show n = 14 + 2 * k by omega]
          exact (ringMoment_oneRead k).1.2.2.1
        · rw [show n = 14 + 2 * k + 1 by omega]
          exact (ringMoment_oneRead k).2
      rw [show (trace (uringStep twoEntries) .init oneRead n).kernel = [] from hnil] at hop
      cases hop
  reaps := fun n => ⟨14 + 2 * n, by omega, (oneRead_later n).1, (ringMoment_oneRead n).1.1,
    (ringMoment_oneRead n).1.2.1⟩

/-- Two reads are in flight, which is what the ring takes; one is completed and not reaped, and a
    third one is refused. -/
def fullRing : List UringLabel :=
  .pread ⟨3, true, 1, 0, true⟩ true :: replicate 4 (.owner none) ++
    .pread ⟨3, true, 1, 8, true⟩ true :: replicate 4 (.owner none) ++
    [.complete 1 1, .pread ⟨3, true, 1, 9, true⟩ true]

theorem uring_rings_sound_oneRead :
    (∃ m, 0 ∈ (trace (uringStep twoEntries) .init oneRead m).enqueued.map Completion.op) ∧
      ∃ s, run (uringStep twoEntries) .init fullRing = some s ∧
        s.refused = [(2, .eagain)] ∧ s.inflight = 2 ∧ s.inflight.toNat + s.reaped = 2 := by
  obtain ⟨hsafe, hlive⟩ := uring_rings_sound twoEntries
  refine ⟨?_, _, rfl, rfl, rfl, (hsafe fullRing _ rfl).2.2.2.1⟩
  obtain ⟨m, -, hm⟩ := hlive oneRead serving_oneRead 5 0 (by decide)
  exact ⟨m, hm⟩

end Portico.Aio
