/-
  A heap as the record of what was allocated and freed.

  A block is the number of its allocation, `allocated` has the owner of each, and `freed` every
  block that was given back, in order: a block freed twice is in it twice, one that leaked is
  not in it. A `Ptr` is a pointer variable together with the heap; what it held before a
  `malloc` is lost. `Evolves` is what an owner's operations through one variable do to the
  heap: they free only blocks of that owner, none twice, and lose none.
-/
import Mathlib.Tactic.Common

namespace Portico.Lib

universe u

structure Ledger (ω : Type u) where
  allocated : List ω
  freed : List Nat

structure Ptr (ω : Type u) where
  block : Option Nat
  heap : Ledger ω

variable {ω : Type u}

namespace Ledger

def empty : Ledger ω := ⟨[], []⟩

structure Ok (h : Ledger ω) : Prop where
  nodup : h.freed.Nodup
  bound : ∀ b ∈ h.freed, b < h.allocated.length

structure Live (h : Ledger ω) (b : Nat) (owner : ω) : Prop where
  owner : h.allocated[b]? = some owner
  not_freed : b ∉ h.freed

theorem Ok.empty : (empty : Ledger ω).Ok := ⟨List.nodup_nil, by simp [Ledger.empty]⟩

def malloc (h : Ledger ω) (owner : ω) : Ledger ω := { h with allocated := h.allocated ++ [owner] }

def free (h : Ledger ω) (b : Nat) : Ledger ω := { h with freed := h.freed ++ [b] }

variable {h : Ledger ω} {b c : Nat} {o owner : ω}

theorem getElem?_malloc : (h.malloc owner).allocated[b]? = some o ↔
    h.allocated[b]? = some o ∨ (b = h.allocated.length ∧ o = owner) := by
  show (h.allocated ++ [owner])[b]? = some o ↔ _
  rcases Nat.lt_trichotomy b h.allocated.length with hlt | rfl | hgt
  · rw [List.getElem?_append_left hlt]
    simp [Nat.ne_of_lt hlt]
  · simp [eq_comm]
  · have hnone : (h.allocated ++ [owner])[b]? = none :=
      List.getElem?_eq_none (by simp; omega)
    have hnone' : h.allocated[b]? = none := List.getElem?_eq_none (by omega)
    rw [hnone, hnone']
    simp [Nat.ne_of_gt hgt]

theorem lt_of_allocated (hb : h.allocated[b]? = some o) : b < h.allocated.length :=
  (List.getElem?_eq_some_iff.mp hb).1

theorem Ok.malloc (hok : h.Ok) : (h.malloc owner).Ok := by
  refine ⟨hok.nodup, fun b hb => ?_⟩
  have hlt := hok.bound b hb
  have hlen : (h.malloc owner).allocated.length = h.allocated.length + 1 := by
    simp [Ledger.malloc]
  omega

/-- The new block can be freed. -/
theorem Ok.live_malloc (hok : h.Ok) : (h.malloc owner).Live h.allocated.length owner :=
  ⟨getElem?_malloc.mpr (.inr ⟨rfl, rfl⟩), fun hb => Nat.lt_irrefl _ (hok.bound _ hb)⟩

theorem mem_free : c ∈ (h.free b).freed ↔ c ∈ h.freed ∨ c = b := by
  simp [Ledger.free]

theorem Ok.free (hok : h.Ok) (hb : h.Live b o) : (h.free b).Ok := by
  refine ⟨?_, fun c hc => ?_⟩
  · refine List.nodup_append.mpr ⟨hok.nodup, by simp, fun c hc d hd => ?_⟩
    rw [List.mem_singleton.mp hd]
    rintro rfl
    exact hb.not_freed hc
  · rcases mem_free.mp hc with hc | rfl
    · exact hok.bound c hc
    · exact lt_of_allocated hb.owner

end Ledger

namespace Ptr

def malloc (m : Ptr ω) (owner : ω) : Ptr ω :=
  { block := some m.heap.allocated.length, heap := m.heap.malloc owner }

/-- `if (p) { free(p); p = NULL; }` -/
def free (m : Ptr ω) : Ptr ω :=
  match m.block with
  | none => m
  | some b => { block := none, heap := m.heap.free b }

/-- A `realloc` that succeeds: the old block is gone and the variable has a new one. -/
def realloc (m : Ptr ω) (owner : ω) : Ptr ω := m.free.malloc owner

/-- What the variable holds can be freed. -/
structure Good (owner : ω) (m : Ptr ω) : Prop where
  ok : m.heap.Ok
  live : ∀ b, m.block = some b → m.heap.Live b owner

/-- The variable holds the only block of the owner that has not been freed. -/
def HoldsRest (owner : ω) (m : Ptr ω) : Prop :=
  ∀ b : Nat, m.heap.allocated[b]? = some owner → b ∈ m.heap.freed ∨ m.block = some b

structure Evolves (owner : ω) (m m' : Ptr ω) : Prop where
  good : m'.Good owner
  keeps : ∀ (b : Nat) (o : ω), m.heap.allocated[b]? = some o → m'.heap.allocated[b]? = some o
  adds : ∀ (b : Nat) (o : ω), m'.heap.allocated[b]? = some o →
    m.heap.allocated[b]? = some o ∨ o = owner
  mono : ∀ b ∈ m.heap.freed, b ∈ m'.heap.freed
  frees : ∀ b ∈ m'.heap.freed, b ∈ m.heap.freed ∨ m'.heap.allocated[b]? = some owner
  rest : m.HoldsRest owner → m'.HoldsRest owner

variable {owner : ω} {m m' m'' : Ptr ω}

theorem Evolves.refl (h : m.Good owner) : m.Evolves owner m :=
  ⟨h, fun _ _ h => h, fun _ _ h => .inl h, fun _ h => h, fun _ h => .inl h, fun h => h⟩

theorem Evolves.trans (h : m.Evolves owner m') (h' : m'.Evolves owner m'') :
    m.Evolves owner m'' := by
  refine ⟨h'.good, fun b o hb => h'.keeps b o (h.keeps b o hb), fun b o hb => ?_,
    fun b hb => h'.mono b (h.mono b hb), fun b hb => ?_, fun hrest => h'.rest (h.rest hrest)⟩
  · rcases h'.adds b o hb with hb | rfl
    · exact h.adds b o hb
    · exact .inr rfl
  · rcases h'.frees b hb with hb | hb
    · exact (h.frees b hb).imp id (h'.keeps b owner)
    · exact .inr hb

/-- Blocks of others stay live. -/
theorem Evolves.live_other (h : m.Evolves owner m') {b : Nat} {o : ω} (ho : o ≠ owner)
    (hlive : m.heap.Live b o) : m'.heap.Live b o := by
  have hb := h.keeps b o hlive.owner
  refine ⟨hb, fun hfreed => ?_⟩
  rcases h.frees b hfreed with hold | hown
  · exact hlive.not_freed hold
  · exact ho (Option.some.inj (hb.symm.trans hown))

theorem getElem?_malloc (m : Ptr ω) (owner o : ω) (b : Nat) :
    (m.malloc owner).heap.allocated[b]? = some o ↔
      m.heap.allocated[b]? = some o ∨ (b = m.heap.allocated.length ∧ o = owner) :=
  Ledger.getElem?_malloc

theorem Good.malloc (h : m.Good owner) : (m.malloc owner).Good owner := by
  refine ⟨h.ok.malloc, fun b hb => ?_⟩
  obtain rfl : m.heap.allocated.length = b := Option.some.inj hb
  exact h.ok.live_malloc

theorem malloc_evolves (h : m.Good owner) (hnull : m.block = none) :
    m.Evolves owner (m.malloc owner) := by
  refine ⟨h.malloc, fun b o hb => ?_, fun b o hb => ?_, fun b hb => hb, fun b hb => .inl hb,
    fun hrest b hb => ?_⟩
  · exact (getElem?_malloc m owner o b).mpr (.inl hb)
  · exact ((getElem?_malloc m owner o b).mp hb).imp id (·.2)
  · rcases (getElem?_malloc m owner owner b).mp hb with hb | ⟨rfl, _⟩
    · exact (hrest b hb).imp id fun hp => absurd (hnull.symm.trans hp) (by simp)
    · exact .inr rfl

theorem free_block (m : Ptr ω) : m.free.block = none := by
  unfold free
  cases hb : m.block with
  | none => exact hb
  | some => rfl

theorem free_evolves (h : m.Good owner) : m.Evolves owner m.free := by
  unfold free
  cases hb : m.block with
  | none => exact .refl h
  | some b =>
    have hlive := h.live b hb
    refine ⟨⟨h.ok.free hlive, fun b' hb' => absurd hb' (by simp)⟩, fun _ _ h => h,
      fun _ _ h => .inl h, fun b' hb' => List.mem_append_left _ hb', fun b' hb' => ?_,
      fun hrest b' hb' => ?_⟩
    · rcases List.mem_append.mp hb' with hb' | hb'
      · exact .inl hb'
      · rw [List.mem_singleton.mp hb']
        exact .inr hlive.owner
    · refine .inl (List.mem_append.mpr ?_)
      exact (hrest b' hb').imp id fun hp => by
        rw [Option.some.inj (hb.symm.trans hp)]
        simp

theorem realloc_evolves (h : m.Good owner) : m.Evolves owner (m.realloc owner) :=
  have hfree := free_evolves h
  hfree.trans (malloc_evolves hfree.good m.free_block)

end Ptr

end Portico.Lib
