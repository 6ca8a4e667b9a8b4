/-
  Hash tables with unordered buckets.

  A table is a bucket of key-value pairs for every hash value; `bucket` is the hash function.
  Insertion appends, lookup takes the first pair with the key, and removal fills the place of
  the first pair with the key from the end of the bucket (`swapRemove`), so the order within a
  bucket is not kept. Nothing keeps a key from being inserted twice.

  `Table.Unique` says that no key is: then removal deletes exactly the pairs with the key
  (`Table.has_remove`), and the table is a map (`Table.find_insert`, `Table.find_remove`).
-/
import Mathlib.Data.List.Nodup
import Mathlib.Logic.Function.Basic

namespace Portico.Lib

open List

open Function (update update_of_ne update_self)

universe u v

variable {α : Type u} {β : Type v}

section SwapRemove

variable [DecidableEq α] {a : α} {l : List (α × β)}

def swapRemove (a : α) : List (α × β) → List (α × β)
  | [] => []
  | e :: l =>
    if e.1 = a then
      match l.getLast? with
      | none => []
      | some z => z :: l.dropLast
    else e :: swapRemove a l

theorem swapRemove_of_not_mem (h : a ∉ l.map Prod.fst) : swapRemove a l = l := by
  induction l with
  | nil => rfl
  | cons e l ih =>
    rw [map_cons, mem_cons, not_or] at h
    rw [swapRemove, if_neg (Ne.symm h.1), ih h.2]

/-- Removal takes one pair with the key away. -/
theorem swapRemove_perm (h : a ∈ l.map Prod.fst) : ∃ e, e.1 = a ∧ (e :: swapRemove a l).Perm l := by
  induction l with
  | nil => cases h
  | cons e l ih =>
    by_cases he : e.1 = a
    · refine ⟨e, he, ?_⟩
      rw [swapRemove, if_pos he]
      apply List.Perm.cons
      cases hl : l.getLast? with
      | none =>
        rw [getLast?_eq_none_iff.mp hl]
      | some z =>
        obtain ⟨l', rfl⟩ := getLast?_eq_some_iff.mp hl
        simp only [dropLast_concat]
        exact (perm_append_singleton z l').symm
    · rw [map_cons, mem_cons] at h
      obtain ⟨d, hd, hperm⟩ := ih (h.resolve_left fun hae => he hae.symm)
      refine ⟨d, hd, ?_⟩
      rw [swapRemove, if_neg he]
      exact (List.Perm.swap e d _).trans (hperm.cons e)

theorem swapRemove_subset : swapRemove a l ⊆ l := by
  by_cases hmem : a ∈ l.map Prod.fst
  · obtain ⟨e, _, hperm⟩ := swapRemove_perm hmem
    exact fun x hx => hperm.subset (mem_cons_of_mem e hx)
  · rw [swapRemove_of_not_mem hmem]
    exact List.Subset.refl l

/-- Where the key first stands, the last pair takes its place. -/
theorem swapRemove_concat (z : α × β) :
    ∀ {i : Nat}, (l ++ [z]).findIdx? (fun e => e.1 = a) = some i →
      swapRemove a (l ++ [z]) = l.set i z := by
  induction l with
  | nil =>
    intro i h
    by_cases hz : z.1 = a
    · rw [nil_append, swapRemove, if_pos hz]
      rfl
    · rw [nil_append, findIdx?_cons, if_neg (by simpa using hz)] at h
      cases h
  | cons e l ih =>
    intro i h
    rw [cons_append, findIdx?_cons] at h
    rw [cons_append, swapRemove]
    by_cases he : e.1 = a
    · rw [if_pos (by simpa using he)] at h
      cases h
      rw [if_pos he, getLast?_concat, dropLast_concat, set_cons_zero]
    · rw [if_neg (by simpa using he)] at h
      obtain ⟨j, hj, rfl⟩ := Option.map_eq_some_iff.mp h
      rw [if_neg he, ih hj, set_cons_succ]

end SwapRemove

/-- A bucket for every hash value. -/
abbrev Table (α : Type u) (β : Type v) : Type (max u v) := Nat → List (α × β)

namespace Table

variable (bucket : α → Nat)

def empty : Table α β := fun _ => []

def insert (t : Table α β) (a : α) (b : β) : Table α β :=
  update t (bucket a) (t (bucket a) ++ [(a, b)])

/-- The pair is in its bucket. -/
def Has (t : Table α β) (a : α) (b : β) : Prop := (a, b) ∈ t (bucket a)

/-- No bucket holds a key twice. -/
def Unique (t : Table α β) : Prop := ∀ a, ((t (bucket a)).map Prod.fst).Nodup

/-- Every pair is in the bucket of its key. -/
def Placed (t : Table α β) : Prop := ∀ i, ∀ e ∈ t i, bucket e.1 = i

variable {bucket} {t : Table α β} {a c : α} {b d : β}

theorem Unique.nodup (h : t.Unique bucket) (hp : t.Placed bucket) (i : Nat) :
    ((t i).map Prod.fst).Nodup := by
  cases ht : t i with
  | nil => exact nodup_nil
  | cons e =>
    have he := hp i e (ht ▸ mem_cons_self ..)
    rw [← ht, ← he]
    exact h e.1

theorem Placed.insert (h : t.Placed bucket) : (t.insert bucket a b).Placed bucket := by
  intro i e he
  unfold Table.insert at he
  by_cases hi : i = bucket a
  · subst hi
    rw [update_self, mem_append, mem_singleton] at he
    rcases he with he | he
    · exact h _ e he
    · rw [he]
  · rw [update_of_ne hi] at he
    exact h i e he

theorem not_has_empty : ¬ (empty : Table α β).Has bucket a b := by
  simp [Has, empty]

theorem unique_empty : (empty : Table α β).Unique bucket := by
  simp [Unique, empty]

theorem has_insert :
    (t.insert bucket a b).Has bucket c d ↔ t.Has bucket c d ∨ (c = a ∧ d = b) := by
  unfold Has insert
  by_cases hb : bucket c = bucket a
  · rw [hb, update_self, mem_append, mem_singleton, Prod.mk.injEq]
  · rw [update_of_ne hb]
    exact ⟨.inl, fun h => h.elim id fun he => absurd (congrArg bucket he.1) hb⟩

theorem Unique.insert (h : t.Unique bucket) (ha : ∀ d, ¬ t.Has bucket a d) :
    (t.insert bucket a b).Unique bucket := by
  intro c
  unfold Table.insert
  by_cases hb : bucket c = bucket a
  · rw [hb, update_self, map_append, map_singleton]
    rw [← concat_eq_append]
    apply (h a).concat
    intro hmem
    obtain ⟨⟨k, v⟩, hkv, rfl⟩ := mem_map.mp hmem
    exact ha v hkv
  · rw [update_of_ne hb]
    exact h c

variable [DecidableEq α]

variable (bucket) in
def find (t : Table α β) (a : α) : Option β :=
  ((t (bucket a)).find? (fun e => e.1 = a)).map Prod.snd

variable (bucket) in
def remove (t : Table α β) (a : α) : Table α β :=
  update t (bucket a) (swapRemove a (t (bucket a)))

theorem has_of_find (h : t.find bucket a = some b) : t.Has bucket a b := by
  unfold find at h
  obtain ⟨⟨k, v⟩, hf, hv⟩ := Option.map_eq_some_iff.mp h
  obtain rfl : k = a := by simpa using find?_some hf
  obtain rfl : v = b := hv
  exact mem_of_find?_eq_some hf

/-- Where no key is stored twice, removal deletes the key and nothing else. -/
theorem has_remove (h : t.Unique bucket) :
    (t.remove bucket a).Has bucket c d ↔ t.Has bucket c d ∧ c ≠ a := by
  unfold Has remove
  by_cases hb : bucket c = bucket a
  · rw [hb, update_self]
    by_cases hmem : a ∈ (t (bucket a)).map Prod.fst
    · obtain ⟨⟨k, v⟩, hk, hperm⟩ := swapRemove_perm hmem
      obtain rfl : k = a := hk
      have hnd : (((k, v) :: swapRemove k (t (bucket k))).map Prod.fst).Nodup :=
        (hperm.map Prod.fst).nodup_iff.mpr (h k)
      rw [map_cons, nodup_cons] at hnd
      constructor
      · intro hcd
        refine ⟨hperm.subset (mem_cons_of_mem _ hcd), ?_⟩
        rintro rfl
        exact hnd.1 (mem_map.mpr ⟨_, hcd, rfl⟩)
      · rintro ⟨hcd, hne⟩
        rcases mem_cons.mp (hperm.symm.subset hcd) with he | hin
        · exact absurd (Prod.mk.inj he).1 hne
        · exact hin
    · rw [swapRemove_of_not_mem hmem]
      refine ⟨fun hcd => ⟨hcd, ?_⟩, fun hcd => hcd.1⟩
      rintro rfl
      exact hmem (mem_map_of_mem hcd)
  · rw [update_of_ne hb]
    exact ⟨fun hcd => ⟨hcd, fun he => hb (congrArg bucket he)⟩, fun hcd => hcd.1⟩

theorem Unique.remove (h : t.Unique bucket) : (t.remove bucket a).Unique bucket := by
  intro c
  unfold Table.remove
  by_cases hb : bucket c = bucket a
  · rw [hb, update_self]
    by_cases hmem : a ∈ (t (bucket a)).map Prod.fst
    · obtain ⟨e, _, hperm⟩ := swapRemove_perm hmem
      have hnd := (hperm.map Prod.fst).nodup_iff.mpr (h a)
      rw [map_cons, nodup_cons] at hnd
      exact hnd.2
    · rw [swapRemove_of_not_mem hmem]
      exact h a
  · rw [update_of_ne hb]
    exact h c

theorem Placed.remove (h : t.Placed bucket) : (t.remove bucket a).Placed bucket := by
  intro i e he
  unfold Table.remove at he
  by_cases hi : i = bucket a
  · subst hi
    rw [update_self] at he
    exact h _ e (swapRemove_subset he)
  · rw [update_of_ne hi] at he
    exact h i e he

theorem find_eq_some_iff (h : t.Unique bucket) :
    t.find bucket a = some b ↔ t.Has bucket a b := by
  refine ⟨has_of_find, fun hab => ?_⟩
  unfold find
  cases hf : (t (bucket a)).find? (fun e => e.1 = a) with
  | none =>
    rw [find?_eq_none] at hf
    exact absurd (decide_eq_true rfl) (hf (a, b) hab)
  | some e =>
    have hmem := mem_of_find?_eq_some hf
    have hkey : e.1 = a := by simpa using find?_some hf
    rw [inj_on_of_nodup_map (h a) hmem hab hkey]
    rfl

theorem not_has_of_find (h : t.Unique bucket) (ha : t.find bucket a = none) (d : β) :
    ¬ t.Has bucket a d := by
  intro hd
  rw [← find_eq_some_iff h, ha] at hd
  cases hd

/-! A table without repeated keys is a map. -/

theorem find_insert (h : t.Unique bucket) (ha : t.find bucket a = none) :
    (t.insert bucket a b).find bucket c = if c = a then some b else t.find bucket c := by
  have habs := not_has_of_find h ha
  apply Option.ext
  intro d
  rw [find_eq_some_iff (h.insert habs), has_insert]
  by_cases hc : c = a
  · subst hc
    rw [if_pos rfl, Option.some.injEq]
    exact ⟨fun hd => hd.elim (fun hh => absurd hh (habs d)) fun he => he.2.symm,
      fun he => .inr ⟨rfl, he.symm⟩⟩
  · rw [if_neg hc, find_eq_some_iff h]
    exact ⟨fun hd => hd.elim id fun he => absurd he.1 hc, .inl⟩

theorem find_remove (h : t.Unique bucket) :
    (t.remove bucket a).find bucket c = if c = a then none else t.find bucket c := by
  apply Option.ext
  intro d
  rw [find_eq_some_iff h.remove, has_remove h]
  by_cases hc : c = a
  · rw [if_pos hc]
    exact ⟨fun hd => absurd hc hd.2, fun hd => by cases hd⟩
  · rw [if_neg hc, find_eq_some_iff h]
    exact ⟨fun hd => hd.1, fun hd => ⟨hd, hc⟩⟩

end Table

end Portico.Lib
