/-
  The node pool: every node is on the free list, queued, or owned by one thread.

  `Loc` says where a node is; `PoolInv` that the free list holds free nodes only, once each.
  `ReturnOk`, `ProdOk` and `ConsOk` annotate every program counter with what its thread may rely
  on there: the nodes it owns, and inside the critical section what it has read of the free
  list. `Undisturbed` is what a step of another thread must leave alone for these to stay true.
  `PoolStep` collects what a step on the pool or on an owned node does; `returnNode_pool` and
  `prodStep_pool` say that every step outside the queue is one.
-/
import Portico.Lib.Linked
import Portico.Mpsc.Queue

namespace Portico.Mpsc

open Portico.Lib

variable {μ : Type}

inductive Loc where
  | free
  | owned (t : Thread)
  | queued
  deriving DecidableEq, Repr

structure PoolInv (m : Mem μ) (loc : Node → Loc) (f : List Node) : Prop where
  links : Links m.next m.freeHead f
  nodup : f.Nodup
  free : ∀ n ∈ f, loc n = .free

variable {loc : Node → Loc} {f : List Node} {n : Node} {t : Thread} {m : Mem μ} {pc : ReturnPc}

theorem PoolInv.freeHead_free (h : PoolInv m loc f) (hn : m.freeHead = some n) : loc n = .free := by
  apply h.free
  exact Links.some_mem (hn ▸ h.links)

/-! ## Annotations -/

def ReturnOk (m : Mem μ) (loc : Node → Loc) (t : Thread) (n : Node) : ReturnPc → Prop
  | .clear => loc n = .owned t
  | .lock => loc n = .owned t
  | .loadFree => m.freeLock = some t ∧ loc n = .owned t
  | .storeNext oldHead => m.freeLock = some t ∧ loc n = .owned t ∧ m.freeHead = oldHead
  | .storeFree => m.freeLock = some t ∧ loc n = .owned t ∧ m.next n = m.freeHead
  | .unlock => m.freeLock = some t

def ProdOk (m : Mem μ) (loc : Node → Loc) (t : Thread) : ProdPc μ → Prop
  | .idle => True
  | .getLock _ => True
  | .getLoadFree _ => m.freeLock = some t
  | .getExhausted => m.freeLock = some t
  | .getLoadNext _ n => m.freeLock = some t ∧ m.freeHead = some n
  | .getStoreFree _ n nextFree =>
    m.freeLock = some t ∧ m.freeHead = some n ∧ m.next n = nextFree
  | .getUnlock _ n => m.freeLock = some t ∧ loc n = .owned t
  | .getInit _ n => loc n = .owned t
  | .fill _ n => loc n = .owned t
  | .giveBack n pc => ReturnOk m loc t n pc
  | .enqInit n => loc n = .owned t
  | .enqSwap n => loc n = .owned t ∧ m.next n = none
  | .enqLink _ _ => True
  | .wake => True

def ConsOk (m : Mem μ) (loc : Node → Loc) : ConsPc → Prop
  | .idle => True
  | .readEventfd => True
  | .dequeue _ _ => True
  | .handle _ n => loc n = .owned .consumer
  | .giveBack _ n _ pc => ReturnOk m loc .consumer n pc

structure Undisturbed (t : Thread) (m m' : Mem μ) (loc loc' : Node → Loc) : Prop where
  owned : ∀ n, loc n = .owned t → loc' n = .owned t ∧ m'.next n = m.next n
  locked : m.freeLock = some t → m'.freeLock = some t ∧ m'.freeHead = m.freeHead ∧
    ∀ n, m.freeHead = some n → m'.next n = m.next n

section Frame

variable {m m' : Mem μ} {loc' : Node → Loc}

theorem ReturnOk.frame (hu : Undisturbed t m m' loc loc') (h : ReturnOk m loc t n pc) :
    ReturnOk m' loc' t n pc := by
  cases pc with
  | clear | lock => exact (hu.owned n h).1
  | loadFree => exact ⟨(hu.locked h.1).1, (hu.owned n h.2).1⟩
  | storeNext =>
    obtain ⟨hlock, hfree, _⟩ := hu.locked h.1
    exact ⟨hlock, (hu.owned n h.2.1).1, hfree.trans h.2.2⟩
  | storeFree =>
    obtain ⟨hlock, hfree, _⟩ := hu.locked h.1
    obtain ⟨hloc, hnext⟩ := hu.owned n h.2.1
    exact ⟨hlock, hloc, by rw [hnext, hfree]; exact h.2.2⟩
  | unlock => exact (hu.locked h).1

theorem ProdOk.frame {pc : ProdPc μ} (hu : Undisturbed t m m' loc loc')
    (h : ProdOk m loc t pc) : ProdOk m' loc' t pc := by
  cases pc with
  | idle | getLock | enqLink | wake => trivial
  | getLoadFree | getExhausted => exact (hu.locked h).1
  | getLoadNext =>
    obtain ⟨hlock, hfree, _⟩ := hu.locked h.1
    exact ⟨hlock, hfree.trans h.2⟩
  | getStoreFree _ n =>
    obtain ⟨hlock, hfree, hnext⟩ := hu.locked h.1
    exact ⟨hlock, hfree.trans h.2.1, (hnext n h.2.1).trans h.2.2⟩
  | getUnlock _ n => exact ⟨(hu.locked h.1).1, (hu.owned n h.2).1⟩
  | getInit _ n | fill _ n | enqInit n => exact (hu.owned n h).1
  | giveBack => exact ReturnOk.frame hu h
  | enqSwap n =>
    obtain ⟨hloc, hnext⟩ := hu.owned n h.1
    exact ⟨hloc, hnext.trans h.2⟩

theorem ConsOk.frame {pc : ConsPc} (hu : Undisturbed .consumer m m' loc loc')
    (h : ConsOk m loc pc) : ConsOk m' loc' pc := by
  cases pc with
  | idle | readEventfd | dequeue => trivial
  | handle _ n => exact (hu.owned n h).1
  | giveBack => exact ReturnOk.frame hu h

theorem Undisturbed.refl : Undisturbed t m m loc loc :=
  ⟨fun _ h => ⟨h, rfl⟩, fun h => ⟨h, rfl, fun _ _ => rfl⟩⟩

/-- A step that leaves lock and free list alone, writes links of queued nodes only and moves no
    node of the thread. -/
theorem Undisturbed.of_queue (hpool : PoolInv m loc f) (hlock : m'.freeLock = m.freeLock)
    (hfree : m'.freeHead = m.freeHead) (hnext : ∀ n, loc n ≠ .queued → m'.next n = m.next n)
    (hloc : ∀ n, loc n = .owned t → loc' n = .owned t) : Undisturbed t m m' loc loc' := by
  refine ⟨fun n hn => ⟨hloc n hn, hnext n (by simp [hn])⟩, fun h => ⟨hlock.trans h, hfree, ?_⟩⟩
  intro n hn
  exact hnext n (by simp [hpool.freeHead_free hn])

end Frame

/-! ## Steps outside the queue -/

structure PoolStep (t : Thread) (m m' : Mem μ) (loc loc' : Node → Loc) (f' : List Node) :
    Prop where
  pool : PoolInv m' loc' f'
  others : ∀ t', t' ≠ t → Undisturbed t' m m' loc loc'
  head : m'.head = m.head
  tail : m'.tail = m.tail
  enqueued : m'.enqueued = m.enqueued
  dequeued : m'.dequeued = m.dequeued
  queued : ∀ n, loc n = .queued →
    loc' n = .queued ∧ m'.next n = m.next n ∧ m'.data n = m.data n

section Effects

variable {m : Mem μ}

variable (h : PoolInv m loc f)

include h

theorem PoolStep.nothing : PoolStep t m m loc loc f :=
  ⟨h, fun _ _ => .refl, rfl, rfl, rfl, rfl, fun _ hn => ⟨hn, rfl, rfl⟩⟩

theorem PoolStep.setEventfd (e : Nat) : PoolStep t m { m with eventfd := e } loc loc f :=
  ⟨⟨h.links, h.nodup, h.free⟩,
    fun _ _ => ⟨fun _ hn => ⟨hn, rfl⟩, fun hl => ⟨hl, rfl, fun _ _ => rfl⟩⟩,
    rfl, rfl, rfl, rfl, fun _ hn => ⟨hn, rfl, rfl⟩⟩

/-- Only the lock changes, and no other thread holds it. -/
theorem PoolStep.setLock (l : Option Thread) (hfree : ∀ t', t' ≠ t → m.freeLock ≠ some t') :
    PoolStep t m { m with freeLock := l } loc loc f :=
  ⟨⟨h.links, h.nodup, h.free⟩,
    fun t' ht => ⟨fun _ hn => ⟨hn, rfl⟩, fun hl => absurd hl (hfree t' ht)⟩,
    rfl, rfl, rfl, rfl, fun _ hn => ⟨hn, rfl, rfl⟩⟩

theorem PoolStep.setData (hn : loc n = .owned t) (d : Option μ) :
    PoolStep t m (m.setData n d) loc loc f := by
  refine ⟨⟨h.links, h.nodup, h.free⟩,
    fun _ _ => ⟨fun _ hk => ⟨hk, rfl⟩, fun hl => ⟨hl, rfl, fun _ _ => rfl⟩⟩,
    rfl, rfl, rfl, rfl, fun k hk => ⟨hk, rfl, ?_⟩⟩
  have hkn : k ≠ n := by
    rintro rfl
    simp [hk] at hn
  exact Function.update_of_ne hkn d m.data

theorem PoolStep.setNext (hn : loc n = .owned t) (p : Option Node) :
    PoolStep t m (m.setNext n p) loc loc f := by
  -- a node that is not the thread's own keeps its link
  have hkeep : ∀ k, loc k ≠ .owned t → (m.setNext n p).next k = m.next k := by
    intro k hk
    apply m.setNext_next_of_ne
    rintro rfl
    exact hk hn
  refine ⟨⟨?_, h.nodup, h.free⟩, fun t' ht => ⟨fun k hk => ⟨hk, hkeep k ?_⟩, fun hl => ?_⟩,
    rfl, rfl, rfl, rfl, fun k hk => ⟨hk, hkeep k (by simp [hk]), rfl⟩⟩
  · exact Links.congr (fun k hk => hkeep k (by simp [h.free k hk])) h.links
  · rw [hk]
    exact fun e => ht (Loc.owned.inj e)
  · exact ⟨hl, rfl, fun k hk => hkeep k (by simp [h.freeHead_free hk])⟩

/-- The thread in the critical section takes the first free node. -/
theorem PoolStep.pop (hlock : m.freeLock = some t) (hn : m.freeHead = some n) :
    ∃ f', PoolStep t m { m with freeHead := m.next n } loc
      (Function.update loc n (.owned t)) f' := by
  have hfree := h.freeHead_free hn
  obtain ⟨f', rfl, hlinks⟩ := Links.cons_of_some (hn ▸ h.links)
  obtain ⟨hnf, hnd⟩ := List.nodup_cons.mp h.nodup
  -- nodes that are not free stay where they are
  have hstay : ∀ k, loc k ≠ .free → Function.update loc n (.owned t) k = loc k := by
    intro k hk
    apply Function.update_of_ne
    rintro rfl
    exact hk hfree
  refine ⟨f', ⟨hlinks, hnd, fun k hk => ?_⟩, fun t' ht => ⟨fun k hk => ⟨?_, rfl⟩, fun hl => ?_⟩,
    rfl, rfl, rfl, rfl, fun k hk => ⟨?_, rfl, rfl⟩⟩
  · rw [Function.update_of_ne (fun e : k = n => hnf (e ▸ hk))]
    exact h.free k (List.mem_cons_of_mem n hk)
  · exact (hstay k (by simp [hk])).trans hk
  · exact absurd (Option.some.inj (hl.symm.trans hlock)) ht
  · exact (hstay k (by simp [hk])).trans hk

/-- The thread in the critical section puts its node, already linked, on the free list. -/
theorem PoolStep.push (hlock : m.freeLock = some t) (hn : loc n = .owned t)
    (hnext : m.next n = m.freeHead) :
    PoolStep t m { m with freeHead := some n } loc (Function.update loc n .free) (n :: f) := by
  have hstay : ∀ k, loc k ≠ .owned t → Function.update loc n .free k = loc k := by
    intro k hk
    apply Function.update_of_ne
    rintro rfl
    exact hk hn
  have hnf : n ∉ f := fun hmem => absurd (hn.symm.trans (h.free n hmem)) (by simp)
  refine ⟨⟨⟨rfl, ?_⟩, List.nodup_cons.mpr ⟨hnf, h.nodup⟩, fun k hk => ?_⟩,
    fun t' ht => ⟨fun k hk => ⟨?_, rfl⟩, fun hl => ?_⟩, rfl, rfl, rfl, rfl,
    fun k hk => ⟨?_, rfl, rfl⟩⟩
  · show Links m.next (m.next n) f
    rw [hnext]
    exact h.links
  · rcases List.mem_cons.mp hk with rfl | hk
    · exact Function.update_self _ _ _
    · have hfree := h.free k hk
      exact (hstay k (by simp [hfree])).trans hfree
  · refine (hstay k ?_).trans hk
    rw [hk]
    exact fun e => ht (Loc.owned.inj e)
  · exact absurd (Option.some.inj (hl.symm.trans hlock)) ht
  · exact (hstay k (by simp [hk])).trans hk

end Effects

theorem lock_ne_of_none (h : m.freeLock = none) : ∀ t', t' ≠ t → m.freeLock ≠ some t' := by
  intro t' _
  simp [h]

theorem lock_ne_of_some (h : m.freeLock = some t) : ∀ t', t' ≠ t → m.freeLock ≠ some t' := by
  intro t' ht hl
  exact ht (Option.some.inj (hl.symm.trans h))

theorem returnNode_pool {m' : Mem μ} {r : Option ReturnPc} (h : PoolInv m loc f)
    (hok : ReturnOk m loc t n pc) (hstep : returnNode t n m pc = some (m', r)) :
    ∃ loc' f', PoolStep t m m' loc loc' f' ∧ ∀ pc', r = some pc' → ReturnOk m' loc' t n pc' := by
  cases pc with
  | clear =>
    cases hstep
    refine ⟨loc, f, .setData h hok none, ?_⟩
    rintro _ ⟨rfl⟩
    exact hok
  | lock =>
    unfold returnNode at hstep
    by_cases hl : m.freeLock = none
    · rw [if_pos hl] at hstep
      cases hstep
      refine ⟨loc, f, .setLock h _ (lock_ne_of_none hl), ?_⟩
      rintro _ ⟨rfl⟩
      exact ⟨rfl, hok⟩
    · rw [if_neg hl] at hstep
      cases hstep
  | loadFree =>
    cases hstep
    refine ⟨loc, f, .nothing h, ?_⟩
    rintro _ ⟨rfl⟩
    exact ⟨hok.1, hok.2, rfl⟩
  | storeNext oldHead =>
    cases hstep
    refine ⟨loc, f, .setNext h hok.2.1 oldHead, ?_⟩
    rintro _ ⟨rfl⟩
    exact ⟨hok.1, hok.2.1, (m.setNext_next_self n oldHead).trans hok.2.2.symm⟩
  | storeFree =>
    cases hstep
    refine ⟨_, _, .push h hok.1 hok.2.1 hok.2.2, ?_⟩
    rintro _ ⟨rfl⟩
    exact hok.1
  | unlock =>
    cases hstep
    refine ⟨loc, f, .setLock h none (lock_ne_of_some hok), ?_⟩
    rintro _ ⟨⟩

/-- A producer's step other than the exchange of `tail` and the link behind it. -/
theorem prodStep_pool {m' : Mem μ} {allocOk : Bool} {pc pc' : ProdPc μ} (h : PoolInv m loc f)
    (hok : ProdOk m loc t pc) (hswap : ∀ n, pc ≠ .enqSwap n) (hlink : pc.link = none)
    (hstep : prodStep t allocOk m pc = some (m', pc')) :
    pc'.link = none ∧ ∃ loc' f', PoolStep t m m' loc loc' f' ∧ ProdOk m' loc' t pc' := by
  cases pc with
  | idle => simp [prodStep] at hstep
  | getLock =>
    simp only [prodStep] at hstep
    by_cases hl : m.freeLock = none
    · rw [if_pos hl] at hstep
      cases hstep
      exact ⟨rfl, loc, f, .setLock h _ (lock_ne_of_none hl), rfl⟩
    · rw [if_neg hl] at hstep
      cases hstep
  | getLoadFree =>
    simp only [prodStep] at hstep
    cases hf : m.freeHead with
    | none =>
      rw [hf] at hstep
      cases hstep
      exact ⟨rfl, loc, f, .nothing h, hok⟩
    | some =>
      rw [hf] at hstep
      cases hstep
      exact ⟨rfl, loc, f, .nothing h, hok, hf⟩
  | getExhausted =>
    cases hstep
    exact ⟨rfl, loc, f, .setLock h none (lock_ne_of_some hok), trivial⟩
  | getLoadNext =>
    cases hstep
    exact ⟨rfl, loc, f, .nothing h, hok.1, hok.2, rfl⟩
  | getStoreFree =>
    obtain ⟨hl, hn, rfl⟩ := hok
    cases hstep
    obtain ⟨f', hpop⟩ := PoolStep.pop h hl hn
    exact ⟨rfl, _, f', hpop, hl, Function.update_self _ _ _⟩
  | getUnlock =>
    cases hstep
    exact ⟨rfl, loc, f, .setLock h none (lock_ne_of_some hok.1), hok.2⟩
  | getInit =>
    cases hstep
    have hd := PoolStep.setData h hok (none : Option μ)
    have hn := PoolStep.setNext hd.pool hok none
    refine ⟨rfl, loc, f, ⟨hn.pool, fun t' ht => ⟨(hn.others t' ht).owned,
      (hn.others t' ht).locked⟩, rfl, rfl, rfl, rfl, fun k hk => ?_⟩, hok⟩
    exact ⟨hk, (hn.queued k hk).2.1, (hd.queued k hk).2.2⟩
  | fill msg =>
    unfold prodStep at hstep
    cases allocOk with
    | true =>
      cases hstep
      exact ⟨rfl, loc, f, .setData h hok (some msg), hok⟩
    | false =>
      cases hstep
      exact ⟨rfl, loc, f, .nothing h, hok⟩
  | giveBack n pc =>
    simp only [prodStep] at hstep
    cases hr : returnNode t n m pc with
    | none =>
      rw [hr] at hstep
      cases hstep
    | some res =>
      obtain ⟨m1, r⟩ := res
      rw [hr] at hstep
      obtain ⟨loc', f', hpool, hret⟩ := returnNode_pool h hok hr
      cases r with
      | none =>
        cases hstep
        exact ⟨rfl, loc', f', hpool, trivial⟩
      | some pc1 =>
        cases hstep
        exact ⟨rfl, loc', f', hpool, hret pc1 rfl⟩
  | enqInit n =>
    cases hstep
    exact ⟨rfl, loc, f, .setNext h hok none, hok, m.setNext_next_self n none⟩
  | enqSwap n => exact absurd rfl (hswap n)
  | enqLink => simp [ProdPc.link] at hlink
  | wake =>
    cases hstep
    exact ⟨rfl, loc, f, .setEventfd h _, trivial⟩

/-- Creation links the whole pool into the free list. -/
theorem wsMpscQueueCreate_pool (nodePoolSize : Nat) :
    ∃ f, PoolInv (wsMpscQueueCreate μ nodePoolSize) (fun _ => .free) f := by
  have hlinks : ∀ size k, Links (fun i => if i + 1 < size + k + 1 then some (i + 1) else none)
      (some size) (List.range' size (k + 1)) := by
    intro size k
    induction k generalizing size with
    | zero =>
      refine ⟨rfl, ?_⟩
      show (if size + 1 < size + 0 + 1 then some (size + 1) else none) = none
      rw [if_neg (by omega)]
    | succ k ih =>
      refine ⟨rfl, ?_⟩
      have hsize : size + (k + 1) + 1 = size + 1 + k + 1 := by omega
      rw [hsize]
      show Links _ (if size + 1 < size + 1 + k + 1 then some (size + 1) else none) _
      rw [if_pos (by omega)]
      exact ih (size + 1)
  -- the pool has at least one node
  obtain ⟨k, hk⟩ : ∃ k, (if nodePoolSize = 0 then 1024 else nodePoolSize) = k + 1 := by
    by_cases h0 : nodePoolSize = 0
    · exact ⟨1023, by rw [if_pos h0]⟩
    · exact ⟨nodePoolSize - 1, by rw [if_neg h0]; omega⟩
  refine ⟨List.range' 0 (k + 1), ?_, List.nodup_range', fun _ _ => rfl⟩
  have h0 := hlinks 0 k
  simp only [wsMpscQueueCreate, hk]
  rw [Nat.zero_add] at h0
  exact h0

end Portico.Mpsc
