/-
  A table of a fixed number of slots, searched from the front.

  A slot is free or holds a key and a value. `put` overwrites the first slot of the key, or else
  takes the first free slot, and does nothing if there is none; `remove` frees every slot of the
  key; `get` is the value in the first slot of the key.

  `Holding l₀ l ks` says that the keys `ks` have been put into the table `l₀` and none was
  refused. `Holding.put` is the step, and `removeAll_of_grown` says that removing the keys again
  gives back the table as it was, slot for slot.
-/
import Mathlib.Data.Finset.Dedup
import Mathlib.Data.Finset.Card
import Mathlib.Data.List.Forall2

namespace Portico.Lib

universe u v

abbrev Slots (K : Type u) (V : Type v) := List (Option (K × V))

namespace Slots

variable {K : Type u} {V : Type v}

def keys (l : Slots K V) : List K := l.filterMap (Option.map Prod.fst)

def free (l : Slots K V) : Nat := l.countP Option.isNone

/-- Puts an entry into the first slot that passes the test. -/
def setFirst (p : Option (K × V) → Bool) (e : K × V) : Slots K V → Slots K V
  | [] => []
  | s :: l => if p s then some e :: l else s :: setFirst p e l

theorem setFirst_of_findIdx? {p : Option (K × V) → Bool} {e : K × V} {l : Slots K V} {i : Nat}
    (h : l.findIdx? p = some i) : setFirst p e l = l.set i (some e) := by
  induction l generalizing i with
  | nil => exact absurd h (Option.some_ne_none i).symm
  | cons s l ih =>
    rw [List.findIdx?_cons] at h
    rw [setFirst]
    split at h
    · next hs =>
      rw [if_pos hs, ← Option.some.inj h]
      rfl
    · next hs =>
      obtain ⟨j, hj, rfl⟩ := Option.map_eq_some_iff.mp h
      rw [if_neg hs, ih hj]
      rfl

theorem setFirst_of_not_found {p : Option (K × V) → Bool} {e : K × V} {l : Slots K V}
    (h : ∀ s ∈ l, p s = false) : setFirst p e l = l := by
  induction l with
  | nil => rfl
  | cons s l ih =>
    rw [setFirst, h s List.mem_cons_self, if_neg Bool.false_ne_true,
      ih fun t ht => h t (List.mem_cons_of_mem _ ht)]

theorem free_setFirst_isNone (e : K × V) {l : Slots K V} (h : 0 < free l) :
    free (setFirst Option.isNone e l) + 1 = free l := by
  induction l with
  | nil => exact absurd h (Nat.lt_irrefl 0)
  | cons s l ih =>
    have hskip (d : K × V) (m : Slots K V) : free (some d :: m) = free m :=
      List.countP_cons_of_neg Bool.false_ne_true
    cases s with
    | none =>
      rw [setFirst, if_pos Option.isNone_none, hskip]
      exact (List.countP_cons_of_pos Option.isNone_none).symm
    | some d =>
      rw [hskip] at h ⊢
      rw [← ih h]
      exact congrArg (· + 1) (hskip d _)

/-- A slot of a table into which some of the keys `ks` were put, against the slot before. -/
def Grown (ks : List K) (a b : Option (K × V)) : Prop :=
  b = a ∨ a = none ∧ ∃ e, b = some e ∧ e.1 ∈ ks

theorem Grown.mono {ks ks' : List K} (h : ∀ k ∈ ks, k ∈ ks') {a b : Option (K × V)}
    (hg : Grown ks a b) : Grown ks' a b := by
  apply Or.imp_right _ hg
  intro ⟨ha, e, hb, he⟩
  exact ⟨ha, e, hb, h _ he⟩

theorem grown_setFirst {ks : List K} {p : Option (K × V) → Bool} {k : K} {v : V}
    (hk : k ∈ ks) {l₀ l : Slots K V} (h : List.Forall₂ (Grown ks) l₀ l)
    (hp : ∀ a b, a ∈ l₀ → Grown ks a b → p b = true → a = none) :
    List.Forall₂ (Grown ks) l₀ (setFirst p (k, v) l) := by
  induction h with
  | nil => exact List.Forall₂.nil
  | cons hab hl ih =>
    rw [setFirst]
    split
    · next hb =>
      have ha := hp _ _ List.mem_cons_self hab hb
      exact List.Forall₂.cons (Or.inr ⟨ha, (k, v), rfl, hk⟩) hl
    · exact List.Forall₂.cons hab (ih fun a b ha => hp a b (List.mem_cons_of_mem _ ha))

variable [DecidableEq K]

def holds (k : K) : Option (K × V) → Bool
  | some e => e.1 = k
  | none => false

def get (k : K) (l : Slots K V) : Option V := (l.find? (holds k)).bind (Option.map Prod.snd)

def put (k : K) (v : V) (l : Slots K V) : Slots K V :=
  if k ∈ keys l then setFirst (holds k) (k, v) l else setFirst Option.isNone (k, v) l

def remove (k : K) (l : Slots K V) : Slots K V := l.map (Option.filter (·.1 ≠ k))

theorem mem_keys_iff {k : K} {l : Slots K V} : k ∈ keys l ↔ ∃ s ∈ l, holds k s = true := by
  rw [keys, List.mem_filterMap]
  constructor
  · intro ⟨s, hs, h⟩
    obtain ⟨e, rfl, he⟩ := Option.map_eq_some_iff.mp h
    exact ⟨some e, hs, decide_eq_true he⟩
  · intro ⟨s, hs, h⟩
    cases s with
    | none => exact absurd h Bool.false_ne_true
    | some e => exact ⟨some e, hs, congrArg some (of_decide_eq_true h)⟩

theorem holds_eq_some {k : K} {s : Option (K × V)} (h : holds k s = true) :
    ∃ v, s = some (k, v) := by
  cases s with
  | none => exact absurd h Bool.false_ne_true
  | some e => exact ⟨e.2, congrArg some (Prod.ext (of_decide_eq_true h) rfl)⟩

theorem holds_self (k : K) (v : V) : holds k (some (k, v)) = true := decide_eq_true rfl

/-- The entry is found where it was put, if the search does not stop before. -/
theorem get_setFirst {p : Option (K × V) → Bool} {k : K} {v : V} {l : Slots K V}
    (hp : ∃ s ∈ l, p s = true) (hbefore : ∀ s ∈ l, p s = false → holds k s = false) :
    get k (setFirst p (k, v) l) = some v := by
  induction l with
  | nil =>
    obtain ⟨s, hs, -⟩ := hp
    exact absurd hs List.not_mem_nil
  | cons s l ih =>
    rw [setFirst]
    by_cases hs : p s = true
    · rw [if_pos hs, get, List.find?_cons_of_pos (holds_self k v)]
      rfl
    · have hsk : ¬holds k s = true := by
        rw [hbefore s List.mem_cons_self (Bool.eq_false_iff.mpr hs)]
        exact Bool.false_ne_true
      rw [if_neg hs, get, List.find?_cons_of_neg hsk]
      apply ih
      · obtain ⟨t, ht, hpt⟩ := hp
        cases List.mem_cons.mp ht with
        | inl h => exact absurd (h ▸ hpt) hs
        | inr h => exact ⟨t, h, hpt⟩
      · exact fun t ht => hbefore t (List.mem_cons_of_mem _ ht)

theorem get_put_self {k : K} {v : V} {l : Slots K V} (h : k ∈ keys l ∨ 0 < free l) :
    get k (put k v l) = some v := by
  rw [put]
  by_cases hk : k ∈ keys l
  · rw [if_pos hk]
    exact get_setFirst (mem_keys_iff.mp hk) fun _ _ h => h
  · rw [if_neg hk]
    apply get_setFirst (List.countP_pos_iff.mp (h.resolve_left hk))
    intro s hs _
    rw [← Bool.not_eq_true]
    exact fun hh => hk (mem_keys_iff.mpr ⟨s, hs, hh⟩)

theorem get_eq_none {k : K} {l : Slots K V} (h : k ∉ keys l) : get k l = none := by
  rw [get, List.find?_eq_none.mpr]
  · rfl
  · exact fun s hs hh => h (mem_keys_iff.mpr ⟨s, hs, hh⟩)

theorem mem_keys_of_get {k : K} {v : V} {l : Slots K V} (h : get k l = some v) : k ∈ keys l := by
  by_contra hk
  rw [get_eq_none hk] at h
  exact absurd h (Option.some_ne_none v).symm

/-- Overwriting a slot that is not free leaves the number of free ones. -/
theorem free_setFirst_holds (k : K) (v : V) (l : Slots K V) :
    free (setFirst (holds k) (k, v) l) = free l := by
  induction l with
  | nil => rfl
  | cons s l ih =>
    rw [setFirst]
    by_cases hs : holds k s = true
    · obtain ⟨w, rfl⟩ := holds_eq_some hs
      rw [if_pos hs]
      rfl
    · rw [if_neg hs, free, List.countP_cons, free, List.countP_cons]
      exact congrArg (· + _) ih

/-- A key of the grown table was there before or is one of those that were put. -/
theorem mem_keys_of_grown {ks : List K} {l₀ l : Slots K V} (h : List.Forall₂ (Grown ks) l₀ l)
    {k : K} (hk : k ∈ keys l) : k ∈ keys l₀ ∨ k ∈ ks := by
  rw [mem_keys_iff] at hk ⊢
  obtain ⟨s, hs, hks⟩ := hk
  induction h with
  | nil => exact absurd hs List.not_mem_nil
  | cons hab hl ih =>
    cases List.mem_cons.mp hs with
    | inr hs =>
      apply Or.imp_left _ (ih hs)
      exact fun ⟨t, ht, hkt⟩ => ⟨t, List.mem_cons_of_mem _ ht, hkt⟩
    | inl hs =>
      cases hab with
      | inl hba => exact Or.inl ⟨s, hs ▸ hba ▸ List.mem_cons_self, hks⟩
      | inr hput =>
        obtain ⟨-, e, he, hin⟩ := hput
        rw [hs, he] at hks
        exact Or.inr (of_decide_eq_true hks ▸ hin)

/-- The keys `ks` have been put into `l₀`, and none of them was refused. -/
structure Holding (l₀ l : Slots K V) (ks : List K) : Prop where
  grown : List.Forall₂ (Grown ks) l₀ l
  held : ∀ k ∈ ks, k ∈ keys l
  room : free l + ks.toFinset.card = free l₀

theorem Holding.refl (l : Slots K V) : Holding l l [] := by
  refine ⟨List.forall₂_same.mpr fun _ _ => Or.inl rfl, ?_, rfl⟩
  exact fun k hk => absurd hk List.not_mem_nil

theorem keys_setFirst {p : Option (K × V) → Bool} {k j : K} {v : V} {l : Slots K V}
    (hp : ∀ s, p s = true → holds j s = true → j = k) (h : j ∈ keys l) :
    j ∈ keys (setFirst p (k, v) l) := by
  obtain ⟨s, hs, hj⟩ := mem_keys_iff.mp h
  rw [mem_keys_iff]
  induction l with
  | nil => exact absurd hs List.not_mem_nil
  | cons t l ih =>
    rw [setFirst]
    by_cases ht : p t = true
    · rw [if_pos ht]
      cases List.mem_cons.mp hs with
      | inl hst =>
        have hjk := hp t ht (hst ▸ hj)
        exact ⟨some (k, v), List.mem_cons_self, hjk ▸ holds_self k v⟩
      | inr hst => exact ⟨s, List.mem_cons_of_mem _ hst, hj⟩
    · rw [if_neg ht]
      cases List.mem_cons.mp hs with
      | inl hst => exact ⟨s, hst ▸ List.mem_cons_self, hj⟩
      | inr hst =>
        obtain ⟨r, hr, hjr⟩ := ih (mem_keys_iff.mpr ⟨s, hst, hj⟩) hst
        exact ⟨r, List.mem_cons_of_mem _ hr, hjr⟩

theorem keys_put {k j : K} {v : V} {l : Slots K V} (h : j ∈ keys l) : j ∈ keys (put k v l) := by
  rw [put]
  split
  · apply keys_setFirst _ h
    intro s hk hj
    obtain ⟨w, rfl⟩ := holds_eq_some hk
    exact (of_decide_eq_true hj).symm
  · apply keys_setFirst _ h
    intro s hn hj
    obtain ⟨w, rfl⟩ := holds_eq_some hj
    exact absurd hn Bool.false_ne_true

theorem toFinset_concat (ks : List K) (k : K) :
    (ks ++ [k]).toFinset = insert k ks.toFinset := by
  rw [List.toFinset_append, Finset.union_comm]
  rfl

theorem Holding.place {l₀ l : Slots K V} {ks : List K} (h : Holding l₀ l ks) {k : K}
    (hroom : (ks ++ [k]).toFinset.card ≤ free l₀) : k ∈ keys l ∨ 0 < free l := by
  by_cases hk : k ∈ ks
  · exact Or.inl (h.held k hk)
  · right
    rw [toFinset_concat, Finset.card_insert_of_notMem fun hm => hk (List.mem_toFinset.mp hm)]
      at hroom
    have hr := h.room
    omega

theorem Holding.put {l₀ l : Slots K V} {ks : List K} (h : Holding l₀ l ks) {k : K} (v : V)
    (hnew : k ∉ keys l₀) (hroom : (ks ++ [k]).toFinset.card ≤ free l₀) :
    Holding l₀ (put k v l) (ks ++ [k]) := by
  have hplace := h.place hroom
  have hself : k ∈ keys (Slots.put k v l) := mem_keys_of_get (get_put_self hplace)
  have hlast : k ∈ ks ++ [k] := List.mem_append_right _ List.mem_cons_self
  have hgrown : List.Forall₂ (Grown (ks ++ [k])) l₀ l :=
    h.grown.imp fun a b hab => hab.mono fun _ => List.mem_append_left _
  refine ⟨?_, ?_, ?_⟩
  · rw [Slots.put]
    split
    · apply grown_setFirst hlast hgrown
      intro a b ha hab hb
      -- the slot holds `k`, so it is not one of those that were there before
      cases hab with
      | inl hba => exact absurd (mem_keys_iff.mpr ⟨a, ha, hba ▸ hb⟩) hnew
      | inr hr => exact hr.1
    · apply grown_setFirst hlast hgrown
      intro a b _ hab hb
      cases hab with
      | inl hba => exact hba ▸ Option.isNone_iff_eq_none.mp hb
      | inr hr => exact hr.1
  · intro j hj
    cases List.mem_append.mp hj with
    | inl hj => exact keys_put (h.held j hj)
    | inr hj => exact List.mem_singleton.mp hj ▸ hself
  · have hr := h.room
    rw [toFinset_concat]
    by_cases hks : k ∈ ks
    · rw [Slots.put, if_pos (h.held k hks), free_setFirst_holds,
        Finset.insert_eq_of_mem (List.mem_toFinset.mpr hks)]
      exact hr
    · have hkl : k ∉ keys l := fun hkl =>
        (mem_keys_of_grown h.grown hkl).elim hnew hks
      rw [Slots.put, if_neg hkl,
        Finset.card_insert_of_notMem fun hm => hks (List.mem_toFinset.mp hm)]
      have hf := free_setFirst_isNone (k, v) (hplace.resolve_left hkl)
      omega

theorem grown_remove {k : K} {ks : List K} {l₀ l : Slots K V}
    (h : List.Forall₂ (Grown (k :: ks)) l₀ l) (hnew : k ∉ keys l₀) :
    List.Forall₂ (Grown ks) l₀ (remove k l) := by
  induction h with
  | nil => exact List.Forall₂.nil
  | @cons a b l₀ l hab hl ih =>
    have hnew' : k ∉ keys l₀ := by
      intro hk
      obtain ⟨s, hs, hks⟩ := mem_keys_iff.mp hk
      exact hnew (mem_keys_iff.mpr ⟨s, List.mem_cons_of_mem _ hs, hks⟩)
    apply List.Forall₂.cons _ (ih hnew')
    cases hab with
    | inl hba =>
      left
      rw [hba]
      cases a with
      | none => rfl
      | some e =>
        apply Option.filter_some_pos
        apply decide_eq_true
        exact fun he => hnew (mem_keys_iff.mpr ⟨some e, List.mem_cons_self, decide_eq_true he⟩)
    | inr hput =>
      obtain ⟨rfl, e, rfl, he⟩ := hput
      by_cases hek : e.1 = k
      · left
        exact Option.filter_some_neg (by simpa using hek)
      · right
        refine ⟨rfl, e, Option.filter_some_pos (decide_eq_true hek), ?_⟩
        exact (List.mem_cons.mp he).resolve_left hek

/-- Removing the keys that were put gives back the table as it was. -/
theorem removeAll_of_grown {ks : List K} {l₀ l : Slots K V}
    (h : List.Forall₂ (Grown ks) l₀ l) (hnew : ∀ k ∈ ks, k ∉ keys l₀) :
    ks.foldl (fun l k => remove k l) l = l₀ := by
  induction ks generalizing l with
  | nil =>
    induction h with
    | nil => rfl
    | cons hab _ ih =>
      have hab := hab.resolve_right fun ⟨_, _, _, he⟩ => List.not_mem_nil he
      rw [List.foldl_nil] at ih ⊢
      rw [hab, ih fun k hk => absurd hk List.not_mem_nil]
  | cons k ks ih =>
    exact ih (grown_remove h (hnew k List.mem_cons_self))
      fun j hj => hnew j (List.mem_cons_of_mem _ hj)

end Slots

end Portico.Lib
