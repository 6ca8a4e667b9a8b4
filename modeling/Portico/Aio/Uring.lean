/-
  The io_uring backend of the asynchronous file reads: `uring_submit` and `uring_reap` of
  `aio_uring.c`, and the kernel's side of the two rings.

  Model. `Uring` is `uring_state_t` with the rings it maps: 32-bit free-running indices, the
  submission entries and their index array, the completion entries. One thread owns the instance;
  `submit` and `reap` say where it stands in the two functions. A submit runs inside a reap only
  from a callback that `portico_aio_enqueue` fires inline because its allocation failed. Each
  access to a shared index or entry is a step of its own, and the kernel posts completions
  between any two of them. `io_uring_enter` consumes the entry at the kernel's head, or fails
  without consuming it. Completions come in any order, with any result, once for each consumed
  entry; the kernel writes the completion's entry without looking whether it is free.
  The history fields count and record what was accepted, refused, posted, reaped and handed to
  `portico_aio_enqueue`.

  The rings' sizes are powers of two, as the kernel makes them, and the completion ring is at
  least as large as the submission ring (`RingSize`).

  Proved: `uring_effect`, what a step can do; and from it the invariant `UringInv`: outside the
  system call the submission ring is empty (`SqOk`); what was accepted is what the kernel posted
  or still works on (`ReadsInv`); and the completions that are not reaped fit into the submission
  ring, so that none of their entries is written again (`RingInv`).
-/
import Portico.Aio.Threadpool
import Portico.Lib.Fair
import Portico.Lib.Ring

namespace Portico.Aio

open Portico.Lib List

/-! ## The rings -/

structure RingSize where
  sqBits : Nat
  cqBits : Nat
  sq_le_cq : sqBits ≤ cqBits
  small : cqBits ≤ 31

namespace RingSize

def sqEntries (z : RingSize) : Nat := 2 ^ z.sqBits

def cqEntries (z : RingSize) : Nat := 2 ^ z.cqBits

/-- `i & *sq_mask`. -/
def sqSlot (z : RingSize) (i : BitVec 32) : Nat := (i &&& BitVec.ofNat 32 (2 ^ z.sqBits - 1)).toNat

/-- `i & *cq_mask`. -/
def cqSlot (z : RingSize) (i : BitVec 32) : Nat := (i &&& BitVec.ofNat 32 (2 ^ z.cqBits - 1)).toNat

theorem sqEntries_le (z : RingSize) : z.sqEntries ≤ z.cqEntries :=
  Nat.pow_le_pow_right (by omega) z.sq_le_cq

theorem cqEntries_lt (z : RingSize) : z.cqEntries < 2 ^ 32 :=
  Nat.pow_lt_pow_right (by omega) (Nat.lt_succ_of_le z.small)

theorem cqSlot_index (z : RingSize) (n : Nat) : z.cqSlot (index 32 n) = n % z.cqEntries :=
  index_slot (by have := z.small; omega) n

end RingSize

/-- What the backend sets in `struct io_uring_sqe`; `op` is `user_data`, and `len` is 32 bits. -/
structure Sqe where
  op : Nat
  read : Read
deriving DecidableEq, Repr

def Sqe.make (op : Nat) (r : Read) : Sqe := ⟨op, { r with len := r.len % 2 ^ 32 }⟩

/-- Where the owner stands in `uring_submit`; `tail` is its local variable. -/
inductive SubmitPc where
  | fill (op : Nat) (r : Read) (tail : BitVec 32)
  | publish (op : Nat) (tail : BitVec 32)
  | enter (op : Nat) (tail : BitVec 32)
  | takeBack (op : Nat) (tail : BitVec 32) (errno : Nat)
  | count (op : Nat)
deriving DecidableEq, Repr

/-- Where the owner stands in `uring_reap`; `head` and `tail` are its local variables. -/
inductive ReapPc where
  | loop (head tail : BitVec 32)
  | enqueue (c : Completion) (head tail : BitVec 32)
  /-- In a callback that was fired inline. -/
  | callback (head tail : BitVec 32)
  | next (head tail : BitVec 32)
deriving DecidableEq, Repr

structure Uring where
  sqHead : BitVec 32
  sqTail : BitVec 32
  sqArray : Nat → Nat
  sqe : Nat → Sqe
  cqHead : BitVec 32
  cqTail : BitVec 32
  cqe : Nat → Completion
  inflight : BitVec 32
  submit : Option SubmitPc
  reap : Option ReapPc
  -- the reads that the kernel has consumed and not yet completed
  kernel : List Nat
  -- history; `released` is the number of completions given back to the kernel
  calls : Nat
  accepted : List Nat
  refused : List (Nat × Errno)
  posted : List Completion
  reaped : Nat
  released : Nat
  enqueued : List Completion

def Uring.init : Uring where
  sqHead := 0
  sqTail := 0
  sqArray := fun _ => 0
  sqe := fun _ => ⟨0, ⟨0, false, 0, 0, false⟩⟩
  cqHead := 0
  cqTail := 0
  cqe := fun _ => ⟨0, 0⟩
  inflight := 0
  submit := none
  reap := none
  kernel := []
  calls := 0
  accepted := []
  refused := []
  posted := []
  reaped := 0
  released := 0
  enqueued := []

inductive UringLabel where
  /-- The owner calls `portico_aio_pread`; `alloc` says whether its `malloc` succeeds. -/
  | pread (r : Read) (alloc : Bool)
  /-- The owner's next step; `fails` is the errno if the system call or the allocation in it
      fails. -/
  | owner (fails : Option Nat)
  /-- The owner calls `portico_aio_drain`, which calls `uring_reap`. -/
  | reap
  /-- The kernel completes the read `op`. -/
  | complete (op : Nat) (res : Int)

def ReapPc.inCallback : ReapPc → Bool
  | .callback _ _ => true
  | _ => false

def Uring.refuse (s : Uring) (e : Errno) : Uring :=
  { s with calls := s.calls + 1, refused := s.refused ++ [(s.calls, e)] }

/-- `uring_submit` up to the entry it is going to fill. -/
def uringSubmit (z : RingSize) (s : Uring) (r : Read) (alloc : Bool) : Uring :=
  match argError r with
  | some e => s.refuse e
  | none =>
    if z.sqEntries ≤ s.inflight.toNat then s.refuse .eagain
    else if z.sqEntries ≤ (s.sqTail - s.sqHead).toNat then s.refuse .eagain
    else if alloc then { s with submit := some (.fill s.calls r s.sqTail), calls := s.calls + 1 }
    else s.refuse .enomem

/-- `uring_submit` from there on. -/
def submitStep (z : RingSize) (s : Uring) (fails : Option Nat) : SubmitPc → Uring
  | .fill op r tail =>
    { s with
      sqe := Function.update s.sqe (z.sqSlot tail) (.make op r)
      sqArray := Function.update s.sqArray (z.sqSlot tail) (z.sqSlot tail)
      submit := some (.publish op tail) }
  | .publish op tail => { s with sqTail := tail + 1, submit := some (.enter op tail) }
  | .enter op tail =>
    match fails with
    | none =>
      -- the kernel takes the entry at its head
      { s with
        kernel := s.kernel ++ [(s.sqe (s.sqArray (z.sqSlot s.sqHead))).op]
        sqHead := s.sqHead + 1
        submit := some (.count op) }
    | some errno => { s with submit := some (.takeBack op tail errno) }
  | .takeBack op tail errno =>
    { s with sqTail := tail, submit := none, refused := s.refused ++ [(op, .sys errno)] }
  | .count op =>
    { s with inflight := s.inflight + 1, submit := none, accepted := s.accepted ++ [op] }

/-- `uring_reap`. -/
def reapStep (z : RingSize) (s : Uring) (fails : Option Nat) : ReapPc → Uring
  | .loop head tail =>
    if head = tail then { s with cqHead := head, released := s.reaped, reap := none }
    else { s with reap := some (.enqueue (s.cqe (z.cqSlot head)) head tail) }
  | .enqueue c head tail =>
    { s with
      enqueued := s.enqueued ++ [c]
      reap := some (if fails.isNone then .next head tail else .callback head tail) }
  | .callback head tail => { s with reap := some (.next head tail) }
  | .next head tail =>
    { s with
      inflight := s.inflight - 1
      reaped := s.reaped + 1
      reap := some (.loop (head + 1) tail) }

def uringStep (z : RingSize) (s : Uring) : UringLabel → Option Uring
  | .pread r alloc =>
    if s.submit = none ∧ s.reap.all ReapPc.inCallback = true then some (uringSubmit z s r alloc)
    else none
  | .owner fails =>
    match s.submit, s.reap with
    | some pc, _ => some (submitStep z s fails pc)
    | none, some pc => some (reapStep z s fails pc)
    | none, none => none
  | .reap =>
    if s.submit = none ∧ s.reap = none then
      some { s with reap := some (.loop s.cqHead s.cqTail) }
    else none
  | .complete op res =>
    if op ∈ s.kernel then
      some { s with
        kernel := s.kernel.erase op
        cqe := Function.update s.cqe (z.cqSlot s.cqTail) ⟨op, res⟩
        cqTail := s.cqTail + 1
        posted := s.posted ++ [⟨op, res⟩] }
    else none

/-! ## What a step does -/

inductive UringEffect (z : RingSize) (s : Uring) : UringLabel → Uring → Prop where
  | refuse (r : Read) (alloc : Bool) (e : Errno) (hidle : s.submit = none) :
      UringEffect z s (.pread r alloc) (s.refuse e)
  | begin (r : Read) (alloc : Bool) (hidle : s.submit = none)
      (hreap : s.reap.all ReapPc.inCallback = true) (hroom : s.inflight.toNat < z.sqEntries) :
      UringEffect z s (.pread r alloc)
        { s with submit := some (.fill s.calls r s.sqTail), calls := s.calls + 1 }
  | submit (fails : Option Nat) (pc : SubmitPc) (hpc : s.submit = some pc) :
      UringEffect z s (.owner fails) (submitStep z s fails pc)
  | reaping (fails : Option Nat) (pc : ReapPc) (hidle : s.submit = none) (hpc : s.reap = some pc) :
      UringEffect z s (.owner fails) (reapStep z s fails pc)
  | reap (hidle : s.submit = none) (hreap : s.reap = none) :
      UringEffect z s .reap { s with reap := some (.loop s.cqHead s.cqTail) }
  | complete (op : Nat) (res : Int) (hop : op ∈ s.kernel) :
      UringEffect z s (.complete op res)
        { s with
          kernel := s.kernel.erase op
          cqe := Function.update s.cqe (z.cqSlot s.cqTail) ⟨op, res⟩
          cqTail := s.cqTail + 1
          posted := s.posted ++ [⟨op, res⟩] }

variable {z : RingSize} {s s' : Uring} {l : UringLabel}

theorem uring_effect (h : uringStep z s l = some s') : UringEffect z s l s' := by
  cases l with
  | pread r alloc =>
    simp only [uringStep, Option.ite_none_right_eq_some] at h
    obtain ⟨⟨hidle, hreap⟩, h⟩ := h
    cases h
    unfold uringSubmit
    split
    · exact .refuse r alloc _ hidle
    · split
      · exact .refuse r alloc _ hidle
      · split
        · exact .refuse r alloc _ hidle
        · split
          · exact .begin r alloc hidle hreap (by omega)
          · exact .refuse r alloc _ hidle
  | owner fails =>
    simp only [uringStep] at h
    split at h
    · rename_i pc hpc
      cases h
      exact .submit fails pc hpc
    · rename_i pc hidle hpc
      cases h
      exact .reaping fails pc hidle hpc
    · cases h
  | reap =>
    simp only [uringStep, Option.ite_none_right_eq_some] at h
    rw [← Option.some.inj h.2]
    exact .reap h.1.1 h.1.2
  | complete op res =>
    simp only [uringStep, Option.ite_none_right_eq_some] at h
    rw [← Option.some.inj h.2]
    exact .complete op res h.1

theorem reapStep_loop_done (z : RingSize) (s : Uring) (fails : Option Nat) (head : BitVec 32) :
    reapStep z s fails (.loop head head) =
      { s with cqHead := head, released := s.reaped, reap := none } := if_pos rfl

theorem reapStep_loop_more (z : RingSize) (s : Uring) (fails : Option Nat) {head tail : BitVec 32}
    (h : head ≠ tail) :
    reapStep z s fails (.loop head tail) =
      { s with reap := some (.enqueue (s.cqe (z.cqSlot head)) head tail) } := if_neg h

/-- A step of `uring_reap` touches neither the submission ring nor what the kernel writes. -/
structure ReapFrame (s s' : Uring) : Prop where
  sqHead : s'.sqHead = s.sqHead
  sqTail : s'.sqTail = s.sqTail
  sqArray : s'.sqArray = s.sqArray
  sqe : s'.sqe = s.sqe
  cqTail : s'.cqTail = s.cqTail
  cqe : s'.cqe = s.cqe
  submit : s'.submit = s.submit
  kernel : s'.kernel = s.kernel
  calls : s'.calls = s.calls
  accepted : s'.accepted = s.accepted
  refused : s'.refused = s.refused
  posted : s'.posted = s.posted

theorem reapStep_frame (z : RingSize) (s : Uring) (fails : Option Nat) (pc : ReapPc) :
    ReapFrame s (reapStep z s fails pc) := by
  cases pc with
  | loop head tail =>
    by_cases h : head = tail
    · subst h
      rw [reapStep_loop_done]
      constructor <;> rfl
    · rw [reapStep_loop_more z s fails h]
      constructor <;> rfl
  | _ => constructor <;> rfl

/-! ## The submission ring -/

/-- Outside the system call the submission ring is empty; an entry that has been published is at
    the kernel's head, and is the one that was filled. -/
def SqOk (z : RingSize) (s : Uring) : Option SubmitPc → Prop
  | none => s.sqTail = s.sqHead
  | some (.fill _ _ tail) => s.sqTail = s.sqHead ∧ tail = s.sqHead
  | some (.publish op tail) =>
    s.sqTail = s.sqHead ∧ tail = s.sqHead ∧ (s.sqe (s.sqArray (z.sqSlot s.sqHead))).op = op
  | some (.enter op tail) =>
    tail = s.sqHead ∧ (s.sqe (s.sqArray (z.sqSlot s.sqHead))).op = op ∧ s.sqTail = s.sqHead + 1
  | some (.takeBack _ tail _) => tail = s.sqHead
  | some (.count _) => s.sqTail = s.sqHead

variable {pc : SubmitPc}

theorem SqOk.submitStep (h : SqOk z s (some pc)) (fails : Option Nat) :
    SqOk z (submitStep z s fails pc) (submitStep z s fails pc).submit := by
  cases pc with
  | fill =>
    obtain ⟨htail, rfl⟩ := h
    refine ⟨htail, rfl, ?_⟩
    simp only [Aio.submitStep]
    rw [Function.update_self, Function.update_self]
    rfl
  | publish =>
    obtain ⟨htail, rfl, hop⟩ := h
    exact ⟨rfl, hop, rfl⟩
  | enter =>
    obtain ⟨rfl, hop, htail⟩ := h
    cases fails with
    | none => exact htail
    | some => rfl
  | takeBack | count => exact h

theorem SqOk.step (h : SqOk z s s.submit) (he : UringEffect z s l s') : SqOk z s' s'.submit := by
  cases he with
  | refuse => exact h
  | begin r alloc hidle =>
    rw [hidle] at h
    exact ⟨h, h⟩
  | submit fails pc hpc =>
    rw [hpc] at h
    exact h.submitStep fails
  | reaping fails pc hidle =>
    have hframe := reapStep_frame z s fails pc
    rw [hidle] at h
    rw [hframe.submit, hidle]
    exact (hframe.sqTail.trans h).trans hframe.sqHead.symm
  | reap hidle =>
    rw [hidle] at h
    simp only [hidle]
    exact h
  | complete =>
    revert h
    generalize s.submit = pc
    intro h
    cases pc with
    | none => exact h
    | some pc => cases pc <;> exact h

/-! ## The reads -/

def SubmitPc.op : SubmitPc → Nat
  | .fill op _ _ => op
  | .publish op _ => op
  | .enter op _ => op
  | .takeBack op _ _ => op
  | .count op => op

/-- The read that is being submitted. -/
def Uring.pending (s : Uring) : List Nat := (s.submit.map SubmitPc.op).toList

/-- The read that the kernel has consumed and that is not counted yet. -/
def Uring.entered (s : Uring) : List Nat :=
  match s.submit with
  | some (.count op) => [op]
  | _ => []

/-- What was accepted, with what was just consumed, is up to order what the kernel has posted and
    what it still works on. A refused read is none of them. -/
structure ReadsInv (s : Uring) : Prop where
  ledger : (s.accepted ++ s.entered).Perm (s.posted.map Completion.op ++ s.kernel)
  distinct : (s.accepted ++ s.pending).Nodup
  fresh : ∀ op ∈ s.accepted ++ s.pending, op < s.calls
  refused : ∀ x ∈ s.refused, x.1 < s.calls ∧ x.1 ∉ s.accepted ++ s.pending

variable {c : Completion}

section Reads

theorem ReadsInv.init : ReadsInv .init := by
  constructor <;> simp [Uring.init, Uring.pending, Uring.entered]

variable (h : ReadsInv s)

include h

theorem ReadsInv.refuse (e : Errno) : ReadsInv (s.refuse e) where
  ledger := h.ledger
  distinct := h.distinct
  fresh := fun op hop => Nat.lt_succ_of_lt (h.fresh op hop)
  refused := by
    intro x hx
    rcases mem_append.mp hx with hx | hx
    · exact ⟨Nat.lt_succ_of_lt (h.refused x hx).1, (h.refused x hx).2⟩
    · rw [mem_singleton.mp hx]
      exact ⟨Nat.lt_succ_self _, fun hop => Nat.lt_irrefl _ (h.fresh _ hop)⟩

theorem ReadsInv.begin (hidle : s.submit = none) (r : Read) :
    ReadsInv { s with submit := some (.fill s.calls r s.sqTail), calls := s.calls + 1 } := by
  obtain ⟨hledger, hdistinct, hfresh, hrefused⟩ := h
  simp only [Uring.pending, Uring.entered, hidle, Option.map_none, Option.toList_none,
    append_nil] at hledger hdistinct hfresh hrefused
  refine ⟨?_, ?_, fun op hop => ?_, fun x hx => ?_⟩
  · simpa only [Uring.entered, append_nil] using hledger
  · refine hdistinct.append (nodup_singleton _) ?_
    intro op hop hnew
    exact absurd (mem_singleton.mp hnew) (Nat.ne_of_lt (hfresh op hop))
  · rcases mem_append.mp hop with hop | hop
    · exact Nat.lt_succ_of_lt (hfresh op hop)
    · rw [mem_singleton.mp hop]
      exact Nat.lt_succ_self _
  · obtain ⟨hlt, hnot⟩ := hrefused x hx
    refine ⟨Nat.lt_succ_of_lt hlt, fun hop => ?_⟩
    rcases mem_append.mp hop with hop | hop
    · exact hnot hop
    · exact absurd (mem_singleton.mp hop) (Nat.ne_of_lt hlt)

/-- A submit that goes on with the same read. -/
theorem ReadsInv.submitting (hpc : s.submit = some pc) (hpending : s'.pending = [pc.op])
    (hcalls : s'.calls = s.calls) (haccepted : s'.accepted = s.accepted)
    (hrefused : s'.refused = s.refused)
    (hledger : (s.accepted ++ s'.entered).Perm (s'.posted.map Completion.op ++ s'.kernel)) :
    ReadsInv s' := by
  have hold : s.pending = [pc.op] := by simp [Uring.pending, hpc]
  refine ⟨?_, ?_, ?_, ?_⟩
  · rw [haccepted]
    exact hledger
  · rw [haccepted, hpending, ← hold]
    exact h.distinct
  · rw [haccepted, hpending, ← hold, hcalls]
    exact h.fresh
  · rw [haccepted, hpending, ← hold, hcalls, hrefused]
    exact h.refused

theorem ReadsInv.submitStep (hsq : SqOk z s s.submit) (hpc : s.submit = some pc)
    (fails : Option Nat) : ReadsInv (submitStep z s fails pc) := by
  have hold : s.pending = [pc.op] := by simp [Uring.pending, hpc]
  have hledger := h.ledger
  simp only [Uring.entered, hpc] at hledger
  rw [hpc] at hsq
  cases pc with
  | fill | publish => exact h.submitting hpc rfl rfl rfl rfl hledger
  | enter op =>
    cases fails with
    | none =>
      refine h.submitting hpc rfl rfl rfl rfl ?_
      -- what the kernel takes is the read that is submitted
      simp only [Aio.submitStep, Uring.entered]
      rw [hsq.2.1, ← append_assoc]
      rw [append_nil] at hledger
      exact hledger.append_right [op]
    | some => exact h.submitting hpc rfl rfl rfl rfl hledger
  | takeBack op =>
    have hnot : op ∉ s.accepted := fun hop =>
      (nodup_append'.mp h.distinct).2.2 hop (by rw [hold]; exact mem_cons_self)
    refine ⟨?_, ?_, fun op' hop => ?_, fun x hx => ?_⟩
    · simpa only [Aio.submitStep, Uring.entered] using hledger
    · simpa [Aio.submitStep, Uring.pending] using (nodup_append'.mp h.distinct).1
    · simp only [Aio.submitStep, Uring.pending, Option.map_none, Option.toList_none,
        append_nil] at hop
      exact h.fresh op' (mem_append_left _ hop)
    · simp only [Aio.submitStep, Uring.pending, Option.map_none, Option.toList_none,
        append_nil]
      rcases mem_append.mp hx with hx | hx
      · exact ⟨(h.refused x hx).1, fun hop => (h.refused x hx).2 (mem_append_left _ hop)⟩
      · rw [mem_singleton.mp hx]
        exact ⟨h.fresh op (by rw [hold]; simp [SubmitPc.op]), hnot⟩
  | count op =>
    have hsame : (Aio.submitStep z s fails (.count op)).accepted ++
        (Aio.submitStep z s fails (.count op)).pending = s.accepted ++ s.pending := by
      rw [hold]
      simp [Aio.submitStep, Uring.pending, SubmitPc.op]
    refine ⟨?_, ?_, ?_, ?_⟩
    · simpa [Aio.submitStep, Uring.entered] using hledger
    · rw [hsame]
      exact h.distinct
    · rw [hsame]
      exact h.fresh
    · rw [hsame]
      exact h.refused

/-- Only the owner's submits change what the reads are; the kernel moves one from its list to the
    completions. -/
theorem ReadsInv.frame (hsubmit : s'.submit = s.submit) (hcalls : s'.calls = s.calls)
    (haccepted : s'.accepted = s.accepted) (hrefused : s'.refused = s.refused)
    (hposted : (s.posted.map Completion.op ++ s.kernel).Perm
      (s'.posted.map Completion.op ++ s'.kernel)) : ReadsInv s' := by
  have hpending : s'.pending = s.pending := by unfold Uring.pending; rw [hsubmit]
  have hentered : s'.entered = s.entered := by unfold Uring.entered; rw [hsubmit]
  refine ⟨?_, ?_, ?_, ?_⟩
  · rw [haccepted, hentered]
    exact h.ledger.trans hposted
  · rw [haccepted, hpending]
    exact h.distinct
  · rw [haccepted, hpending, hcalls]
    exact h.fresh
  · rw [haccepted, hpending, hcalls, hrefused]
    exact h.refused

theorem ReadsInv.step (hsq : SqOk z s s.submit) (he : UringEffect z s l s') : ReadsInv s' := by
  cases he with
  | refuse r alloc e => exact h.refuse e
  | begin r alloc hidle => exact h.begin hidle r
  | submit fails pc hpc => exact h.submitStep hsq hpc fails
  | reaping fails pc =>
    have hframe := reapStep_frame z s fails pc
    refine h.frame hframe.submit hframe.calls hframe.accepted hframe.refused ?_
    rw [hframe.posted, hframe.kernel]
  | reap => exact h.frame rfl rfl rfl rfl (.refl _)
  | complete op res hop =>
    refine h.frame rfl rfl rfl rfl ?_
    rw [map_append, append_assoc]
    exact (perm_cons_erase hop).append_left _

/-- While nothing is being submitted, what the kernel has posted was accepted. -/
theorem ReadsInv.posted_accepted (hidle : s.submit = none) (hc : c ∈ s.posted) :
    c.op ∈ s.accepted := by
  have hledger := h.ledger
  simp only [Uring.entered, hidle, append_nil] at hledger
  exact hledger.mem_iff.mpr (mem_append_left _ (mem_map_of_mem hc))

end Reads

/-! ## The completion ring -/

def ReapPc.head : ReapPc → BitVec 32
  | .loop head _ => head
  | .enqueue _ head _ => head
  | .callback head _ => head
  | .next head _ => head

def ReapPc.tail : ReapPc → BitVec 32
  | .loop _ tail => tail
  | .enqueue _ _ tail => tail
  | .callback _ tail => tail
  | .next _ tail => tail

/-- The completions that this point of the loop is past, beyond those counted as reaped. -/
def ReapPc.past : ReapPc → Nat
  | .loop _ _ => 0
  | .enqueue _ _ _ => 0
  | .callback _ _ => 1
  | .next _ _ => 1

/-- The loop stands at the completion after the last reaped one, in front of a tail that was
    loaded before; between its test and its increment there is one. -/
structure ReapOk (s : Uring) (pc : ReapPc) : Prop where
  head : pc.head = index 32 s.reaped
  tail : ∃ t, pc.tail = index 32 t ∧ s.reaped ≤ t ∧ t ≤ s.posted.length ∧
    ((∃ head tail, pc = .loop head tail) ∨ s.reaped < t)
  entry : ∀ c head tail, pc = .enqueue c head tail → s.posted[s.reaped]? = some c

def Uring.past (s : Uring) : Nat := (s.reap.map ReapPc.past).getD 0

structure RingInv (z : RingSize) (s : Uring) : Prop where
  inflight : s.inflight.toNat + s.reaped = s.accepted.length
  bound : s.inflight.toNat + s.pending.length ≤ z.sqEntries
  cqTail : s.cqTail = index 32 s.posted.length
  cqHead : s.cqHead = index 32 s.released
  released : s.released ≤ s.reaped ∧ (s.reap = none → s.released = s.reaped)
  reaped : s.reaped ≤ s.posted.length
  window : Window z.cqEntries s.cqe s.reaped s.posted.length fun k => s.posted.getD k ⟨0, 0⟩
  reaping : ∀ pc, s.reap = some pc → ReapOk s pc
  enqueued : s.enqueued = s.posted.take (s.reaped + s.past)
  accepted : ∀ c ∈ s.enqueued, c.op ∈ s.accepted

section Completions

theorem RingInv.init : RingInv z .init where
  inflight := rfl
  bound := Nat.zero_le _
  cqTail := rfl
  cqHead := rfl
  released := ⟨Nat.le_refl _, fun _ => rfl⟩
  reaped := Nat.le_refl _
  window := fun k _ hk => absurd hk (Nat.not_lt_zero k)
  reaping := by simp [Uring.init]
  enqueued := rfl
  accepted := by simp [Uring.init]

theorem entered_le_pending (s : Uring) : s.entered.length ≤ s.pending.length := by
  unfold Uring.entered Uring.pending
  split
  · rename_i op hop
    rw [hop]
    exact Nat.le_refl _
  · exact Nat.zero_le _

variable (h : RingInv z s)

include h

/-- What the kernel has and what is not reaped fits into the submission ring. -/
theorem RingInv.unreaped (hreads : ReadsInv s) :
    s.posted.length + s.kernel.length ≤ s.reaped + z.sqEntries := by
  have hlen := hreads.ledger.length_eq
  rw [length_append, length_append, length_map] at hlen
  have hentered := entered_le_pending s
  have hinflight := h.inflight
  have hbound := h.bound
  omega

/-- Steps that leave the completion ring and the counters as they are. -/
theorem RingInv.frame (hinflight : s'.inflight = s.inflight) (hreaped : s'.reaped = s.reaped)
    (haccepted : s'.accepted = s.accepted) (hcqTail : s'.cqTail = s.cqTail)
    (hcqHead : s'.cqHead = s.cqHead) (hreleased : s'.released = s.released)
    (hposted : s'.posted = s.posted) (hcqe : s'.cqe = s.cqe) (hreap : s'.reap = s.reap)
    (henqueued : s'.enqueued = s.enqueued)
    (hbound : s.inflight.toNat + s'.pending.length ≤ z.sqEntries) : RingInv z s' := by
  obtain ⟨h1, -, h3, h4, h5, h6, h7, h8, h9, h10⟩ := h
  refine ⟨?_, ?_, ?_, ?_, ?_, ?_, ?_, fun pc hpc => ?_, ?_, ?_⟩
  · rw [hinflight, hreaped, haccepted]
    exact h1
  · rw [hinflight]
    exact hbound
  · rw [hcqTail, hposted]
    exact h3
  · rw [hcqHead, hreleased]
    exact h4
  · rw [hreleased, hreaped, hreap]
    exact h5
  · rw [hreaped, hposted]
    exact h6
  · rw [hreaped, hposted, hcqe]
    exact h7
  · obtain ⟨hhead, htail, hentry⟩ := h8 pc (hreap ▸ hpc)
    refine ⟨?_, ?_, ?_⟩
    · rw [hreaped]
      exact hhead
    · rw [hreaped, hposted]
      exact htail
    · rw [hreaped, hposted]
      exact hentry
  · unfold Uring.past
    rw [henqueued, hposted, hreaped, hreap]
    exact h9
  · rw [henqueued, haccepted]
    exact h10

theorem RingInv.submitStep (hpc : s.submit = some pc) (fails : Option Nat) :
    RingInv z (submitStep z s fails pc) := by
  have hpending : s.pending.length = 1 := by simp [Uring.pending, hpc]
  have hbound := h.bound
  rw [hpending] at hbound
  cases pc with
  | fill | publish => exact h.frame rfl rfl rfl rfl rfl rfl rfl rfl rfl rfl hbound
  | enter =>
    cases fails with
    | none | some => exact h.frame rfl rfl rfl rfl rfl rfl rfl rfl rfl rfl hbound
  | takeBack =>
    exact h.frame rfl rfl rfl rfl rfl rfl rfl rfl rfl rfl (Nat.le_of_succ_le hbound)
  | count =>
    have hsucc : (s.inflight + 1).toNat = s.inflight.toNat + 1 := by
      have hlt := z.cqEntries_lt
      have hle := z.sqEntries_le
      rw [BitVec.toNat_add, show (1 : BitVec 32).toNat = 1 from rfl, Nat.mod_eq_of_lt (by omega)]
    obtain ⟨h1, -, h3, h4, h5, h6, h7, h8, h9, h10⟩ := h
    refine ⟨?_, ?_, h3, h4, h5, h6, h7, fun pc hpc => ?_, h9,
      fun c hc => mem_append_left _ (h10 c hc)⟩
    · simp only [Aio.submitStep, length_append, length_singleton]
      omega
    · simp only [Aio.submitStep, Uring.pending, Option.map_none, Option.toList_none,
        length_nil]
      omega
    · obtain ⟨hhead, htail, hentry⟩ := h8 pc hpc
      exact ⟨hhead, htail, hentry⟩

/-- The loop ends at the tail it loaded, also when the indices have wrapped in between. -/
theorem RingInv.not_done (hreads : ReadsInv s) {t : Nat} (hlt : s.reaped < t)
    (hle : t ≤ s.posted.length) : index 32 s.reaped ≠ index 32 t := by
  have hfits := h.unreaped hreads
  have hsq := z.sqEntries_le
  have hcq := z.cqEntries_lt
  exact index_ne hlt (by omega)

theorem RingInv.loop {head tail : BitVec 32} (hpc : s.reap = some (.loop head tail))
    (fails : Option Nat) : RingInv z (reapStep z s fails (.loop head tail)) := by
  obtain ⟨hhead, ⟨t, htail, hrt, htp, -⟩, -⟩ := h.reaping _ hpc
  have hpast : s.past = 0 := by simp [Uring.past, hpc, ReapPc.past]
  have henqueued := h.enqueued
  rw [hpast] at henqueued
  by_cases heq : head = tail
  · -- the consumed entries are given back
    subst heq
    rw [reapStep_loop_done]
    obtain ⟨h1, h2, h3, -, -, h6, h7, -, -, h10⟩ := h
    exact ⟨h1, h2, h3, hhead, ⟨Nat.le_refl _, fun _ => rfl⟩, h6, h7,
      fun pc hpc => absurd hpc (by simp),
      henqueued, h10⟩
  · rw [reapStep_loop_more z s fails heq]
    have hlt : s.reaped < t := by
      refine Nat.lt_of_le_of_ne hrt fun he => heq ?_
      rw [show head = index 32 s.reaped from hhead, show tail = index 32 t from htail, he]
    have hcell : s.cqe (z.cqSlot head) = s.posted.getD s.reaped ⟨0, 0⟩ := by
      rw [show head = index 32 s.reaped from hhead, z.cqSlot_index]
      exact h.window s.reaped (Nat.le_refl _) (by omega)
    obtain ⟨h1, h2, h3, h4, h5, h6, h7, -, -, h10⟩ := h
    refine ⟨h1, h2, h3, h4, ⟨h5.1, fun hn => absurd hn (by simp)⟩, h6, h7, fun pc hpc' => ?_,
      henqueued, h10⟩
    obtain rfl := Option.some.inj hpc'
    refine ⟨hhead, ⟨t, htail, hrt, htp, .inr hlt⟩, fun c head' tail' he => ?_⟩
    obtain ⟨rfl, -, -⟩ := ReapPc.enqueue.inj he
    have hin : s.reaped < s.posted.length := by omega
    rw [hcell, getD_eq_getElem?_getD]
    rw [getElem?_eq_getElem hin, Option.getD_some]

theorem RingInv.enqueue (hreads : ReadsInv s) (hidle : s.submit = none) {head tail : BitVec 32}
    (hpc : s.reap = some (.enqueue c head tail)) (fails : Option Nat) :
    RingInv z (reapStep z s fails (.enqueue c head tail)) := by
  obtain ⟨hhead, ⟨t, htail, hrt, htp, hmore⟩, hentry⟩ := h.reaping _ hpc
  have hlt : s.reaped < t := hmore.resolve_left fun ⟨_, _, he⟩ => absurd he (by simp)
  have hc := hentry c head tail rfl
  have hpast : s.past = 0 := by simp [Uring.past, hpc, ReapPc.past]
  obtain ⟨h1, h2, h3, h4, h5, h6, h7, -, h9, h10⟩ := h
  rw [hpast, Nat.add_zero] at h9
  refine ⟨h1, h2, h3, h4, ⟨h5.1, fun hn => absurd hn (by simp [reapStep])⟩, h6, h7,
    fun pc hpc' => ?_, ?_, fun d hd => ?_⟩
  · obtain rfl := Option.some.inj hpc'
    split
    · exact ⟨hhead, ⟨t, htail, hrt, htp, .inr hlt⟩, fun _ _ _ he => absurd he (by simp)⟩
    · exact ⟨hhead, ⟨t, htail, hrt, htp, .inr hlt⟩, fun _ _ _ he => absurd he (by simp)⟩
  · have hpast' : (reapStep z s fails (.enqueue c head tail)).past = 1 := by
      unfold reapStep Uring.past
      simp only [Option.map_some, Option.getD_some]
      split <;> rfl
    rw [hpast']
    simp only [reapStep]
    rw [h9, take_add_one, hc]
    rfl
  · rcases mem_append.mp hd with hd | hd
    · exact h10 d hd
    · rw [mem_singleton.mp hd]
      exact hreads.posted_accepted hidle (mem_of_getElem? hc)

theorem RingInv.next (hreads : ReadsInv s) (hidle : s.submit = none) {head tail : BitVec 32}
    (hpc : s.reap = some (.next head tail)) (fails : Option Nat) :
    RingInv z (reapStep z s fails (.next head tail)) := by
  obtain ⟨hhead, ⟨t, htail, hrt, htp, hmore⟩, hentry⟩ := h.reaping _ hpc
  have hlt : s.reaped < t := hmore.resolve_left fun ⟨_, _, he⟩ => absurd he (by simp)
  have hpast : s.past = 1 := by simp [Uring.past, hpc, ReapPc.past]
  -- what is reaped was accepted, so that the counter does not wrap
  have hpos : s.posted.length ≤ s.accepted.length := by
    have hlen := hreads.ledger.length_eq
    simp only [Uring.entered, hidle, append_nil, length_append, length_map] at hlen
    omega
  have hpred : (s.inflight - 1).toNat = s.inflight.toNat - 1 := by
    have hinflight := h.inflight
    have hone : (1 : BitVec 32) ≤ s.inflight := by
      rw [BitVec.le_def, show (1 : BitVec 32).toNat = 1 from rfl]
      omega
    rw [BitVec.toNat_sub_of_le hone]
    rfl
  obtain ⟨h1, h2, h3, h4, h5, h6, h7, -, h9, h10⟩ := h
  rw [hpast] at h9
  refine ⟨?_, ?_, h3, h4, ⟨Nat.le_succ_of_le h5.1, fun hn => absurd hn (by simp [reapStep])⟩, ?_,
    h7.drop (Nat.le_succ _), fun pc hpc' => ?_, h9, h10⟩
  · simp only [reapStep]
    omega
  · simp only [reapStep, Uring.pending, hidle, Option.map_none, Option.toList_none,
      length_nil]
    omega
  · simp only [reapStep]
    omega
  · obtain rfl := Option.some.inj hpc'
    refine ⟨?_, ⟨t, htail, hlt, htp, .inl ⟨_, _, rfl⟩⟩, fun _ _ _ he => absurd he (by simp)⟩
    rw [show head = index 32 s.reaped from hhead]
    exact index_succ 32 s.reaped

theorem RingInv.complete (hreads : ReadsInv s) {op : Nat} (res : Int) (hop : op ∈ s.kernel) :
    RingInv z { s with
      kernel := s.kernel.erase op
      cqe := Function.update s.cqe (z.cqSlot s.cqTail) ⟨op, res⟩
      cqTail := s.cqTail + 1
      posted := s.posted ++ [⟨op, res⟩] } := by
  have hroom : s.posted.length < s.reaped + z.cqEntries := by
    have hfits := h.unreaped hreads
    have hkernel := length_pos_of_mem hop
    have hsq := z.sqEntries_le
    omega
  have hlen : (s.posted ++ [(⟨op, res⟩ : Completion)]).length = s.posted.length + 1 := by simp
  have hpast : s.reaped + s.past ≤ s.posted.length := by
    unfold Uring.past
    cases hr : s.reap with
    | none => simpa using h.reaped
    | some pc =>
      obtain ⟨-, ⟨t, -, hrt, htp, hmore⟩, -⟩ := h.reaping pc hr
      simp only [Option.map_some, Option.getD_some]
      rcases hmore with ⟨_, _, rfl⟩ | hlt
      · exact h.reaped
      · have hle : pc.past ≤ 1 := by cases pc <;> simp [ReapPc.past]
        omega
  obtain ⟨h1, h2, h3, h4, h5, h6, h7, h8, h9, h10⟩ := h
  refine ⟨h1, h2, ?_, h4, h5, ?_, ?_, fun pc hpc => ?_, ?_, h10⟩
  · rw [h3, hlen]
    exact index_succ 32 _
  · simp only
    omega
  · rw [hlen, h3, z.cqSlot_index]
    refine Window.push (h7.congr fun k hk => ?_) hroom ?_
    · rw [getD_eq_getElem?_getD, getD_eq_getElem?_getD, getElem?_append_left hk]
    · rw [getD_eq_getElem?_getD, getElem?_concat_length, Option.getD_some]
  · obtain ⟨hhead, ⟨t, htail, hrt, htp, hmore⟩, hentry⟩ := h8 pc hpc
    refine ⟨hhead, ⟨t, htail, hrt, by simp only; omega, hmore⟩, fun c head tail he => ?_⟩
    have hc := hentry c head tail he
    rw [List.getElem?_append_left (List.getElem?_eq_some_iff.mp hc).1, hc]
  · rw [h9]
    exact (take_append_of_le_length hpast).symm

theorem RingInv.step (hreads : ReadsInv s) (he : UringEffect z s l s') : RingInv z s' := by
  cases he with
  | refuse => exact h.frame rfl rfl rfl rfl rfl rfl rfl rfl rfl rfl h.bound
  | begin r alloc hidle hreap hroom =>
    exact h.frame rfl rfl rfl rfl rfl rfl rfl rfl rfl rfl hroom
  | submit fails pc hpc => exact h.submitStep hpc fails
  | reaping fails pc hidle hpc =>
    cases pc with
    | loop => exact h.loop hpc fails
    | enqueue => exact h.enqueue hreads hidle hpc fails
    | callback =>
      obtain ⟨hhead, ⟨t, htail, hrt, htp, hmore⟩, hentry⟩ := h.reaping _ hpc
      have hlt : s.reaped < t := hmore.resolve_left fun ⟨_, _, he⟩ => absurd he (by simp)
      have hpast : s.past = 1 := by simp [Uring.past, hpc, ReapPc.past]
      obtain ⟨h1, h2, h3, h4, h5, h6, h7, -, h9, h10⟩ := h
      rw [hpast] at h9
      refine ⟨h1, h2, h3, h4, ⟨h5.1, fun hn => absurd hn (by simp [reapStep])⟩, h6, h7,
        fun pc hpc' => ?_, h9, h10⟩
      obtain rfl := Option.some.inj hpc'
      exact ⟨hhead, ⟨t, htail, hrt, htp, .inr hlt⟩, fun _ _ _ he => absurd he (by simp)⟩
    | next => exact h.next hreads hidle hpc fails
  | reap hidle hreap =>
    obtain ⟨h1, h2, h3, h4, h5, h6, h7, -, h9, h10⟩ := h
    have hpast : s.past = 0 := by simp [Uring.past, hreap]
    rw [hpast] at h9
    refine ⟨h1, h2, h3, h4, ⟨h5.1, fun hn => absurd hn (by simp)⟩, h6, h7, fun pc hpc => ?_, h9,
      h10⟩
    obtain rfl := Option.some.inj hpc
    refine ⟨?_, ⟨s.posted.length, h3, h6, Nat.le_refl _, .inl ⟨_, _, rfl⟩⟩,
      fun _ _ _ he => absurd he (by simp)⟩
    simp only [ReapPc.head]
    rw [h4, h5.2 hreap]
  | complete op res hop => exact h.complete hreads res hop

end Completions

structure UringInv (z : RingSize) (s : Uring) : Prop where
  submission : SqOk z s s.submit
  reads : ReadsInv s
  ring : RingInv z s

theorem UringInv.init {z : RingSize} : UringInv z .init := ⟨rfl, .init, .init⟩

theorem UringInv.step {z : RingSize} {s s' : Uring} {l : UringLabel} (h : UringInv z s)
    (hs : uringStep z s l = some s') : UringInv z s' :=
  have he := uring_effect hs
  ⟨h.submission.step he, h.reads.step h.submission he, h.ring.step h.reads he⟩

theorem run_uringInv {z : RingSize} {as : List UringLabel} {s : Uring}
    (hrun : run (uringStep z) .init as = some s) : UringInv z s :=
  run_invariant_all (I := UringInv z) (fun _ _ _ h hs => h.step hs) as .init s .init hrun

end Portico.Aio
