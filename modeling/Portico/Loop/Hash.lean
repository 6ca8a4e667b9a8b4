/-
  The global connection hash of src/ws/ws_connection.c: 256 buckets, each an array of entries
  that grows by doubling and in which a removal moves the last entry into the hole.

  Model. A bucket's memory is the list of its entries, as long as its capacity; entries that a
  `malloc` or `realloc` has not filled are what `fresh` says. A store behind the end of the list
  would be lost. Sizes and capacities are `uint32_t`, and so is the counter, at its least width.
  Every operation runs under the lock of its one bucket, so a run is a sequence of operations.
  A connection is its slot; the reference counts are those of the slots.

  Proved: `connectionHash_map`, the hash is a finite map as long as a descriptor is inserted only
  while it is absent. On the way, the arrays implement the buckets of `Portico.Lib.Buckets`
  (`HashBucket.Holds`), which is how `Portico.Loop.Model` has this hash.
-/
import Mathlib.Data.Finset.Card
import Mathlib.Data.Finset.Range
import Portico.Loop.Model

namespace Portico.Loop

open Portico.Lib List

/-! ## The hash -/

/-- `ws_hash_entry_t`; no connection stands for NULL. -/
structure HashEntry where
  fd : Fd
  conn : Option Slot
  deriving DecidableEq, Repr

/-- `level1[b]`, `level1_sizes[b]` and `level1_capacities[b]`. -/
structure HashBucket where
  level1 : Option (List HashEntry)
  size : Nat
  capacity : Nat
  deriving DecidableEq, Repr

structure ConnectionHash where
  buckets : Nat → HashBucket
  totalConnections : Nat
  hashCollisions : Nat
  refCount : Slot → Nat

def wsConnectionHashCreate (refCount : Slot → Nat) : ConnectionHash :=
  { buckets := fun _ => ⟨none, 0, 0⟩, totalConnections := 0, hashCollisions := 0
    refCount := refCount }

/-- `realloc` to `n` entries. -/
def reallocEntries (entries : List HashEntry) (n : Nat) (fresh : Nat → HashEntry) :
    List HashEntry :=
  entries.take n ++ (range (n - entries.length)).map fresh

/-- The end of an insertion, into a bucket that has been given room. -/
def ConnectionHash.store (h : ConnectionHash) (bucket : Nat) (b : HashBucket) (fd : Fd)
    (conn : Slot) : ConnectionHash :=
  { h with
    buckets := Function.update h.buckets bucket
      { b with
        level1 := b.level1.map (·.set b.size ⟨fd, some conn⟩)
        size := (b.size + 1) % 2 ^ 32 }
    totalConnections := (h.totalConnections + 1) % 2 ^ 32 }

/-- `fd` is the connection's descriptor; the result stands for 0 or -1. -/
def wsConnectionHashInsert (allocOk : Bool) (fresh : Nat → HashEntry) (h : ConnectionHash)
    (fd : Fd) (conn : Slot) : ConnectionHash × Bool :=
  let bucket := bucketOf fd
  let b := h.buckets bucket
  match b.level1 with
  | none =>
    let grown := { b with level1 := some (reallocEntries [] 32 fresh), capacity := 32 }
    if allocOk then (h.store bucket grown fd conn, true) else (h, false)
  | some entries =>
    if b.capacity ≤ b.size then
      let newCapacity := b.capacity * 2 % 2 ^ 32
      let grown :=
        { b with
          level1 := some (reallocEntries entries newCapacity fresh)
          capacity := newCapacity }
      if allocOk then (h.store bucket grown fd conn, true)
      else ({ h with hashCollisions := h.hashCollisions + 1 }, false)
    else (h.store bucket b fd conn, true)

def wsConnectionHashFind (h : ConnectionHash) (fd : Int) : Option Slot :=
  if fd < 0 then none
  else
    let b := h.buckets (bucketOf fd.toNat)
    match b.level1 with
    | none => none
    | some entries => ((entries.take b.size).find? fun e => e.fd = fd.toNat).bind HashEntry.conn

/-- The lookup, and `ws_connection_ref` on what it found. -/
def wsConnectionHashFindAndRef (h : ConnectionHash) (fd : Int) :
    ConnectionHash × Option Slot :=
  match wsConnectionHashFind h fd with
  | none => (h, none)
  | some x =>
    ({ h with refCount := Function.update h.refCount x ((h.refCount x + 1) % 2 ^ 32) }, some x)

def wsConnectionHashRemove (h : ConnectionHash) (fd : Int) : ConnectionHash × Bool :=
  if fd < 0 then (h, false)
  else
    let bucket := bucketOf fd.toNat
    let b := h.buckets bucket
    match b.level1 with
    | none => (h, false)
    | some entries =>
      match (entries.take b.size).findIdx? (fun e => e.fd = fd.toNat) with
      | none => (h, false)
      | some i =>
        let size := b.size - 1
        let entries :=
          if i < size then entries.set i (entries.getD size ⟨0, none⟩) else entries
        ({ h with
           buckets := Function.update h.buckets bucket
             { b with level1 := some (entries.set size ⟨0, none⟩), size := size }
           totalConnections := (h.totalConnections + (2 ^ 32 - 1)) % 2 ^ 32 },
          true)

/-! ## The arrays implement unordered buckets -/

def entryOf (e : Fd × Slot) : HashEntry := ⟨e.1, some e.2⟩

/-- The first `size` entries of the bucket are the pairs `l`, and they fit. -/
structure HashBucket.Holds (b : HashBucket) (l : List (Fd × Slot)) : Prop where
  used : (b.level1.getD []).take b.size = l.map entryOf
  length : (b.level1.getD []).length = b.capacity
  fits : b.size ≤ b.capacity
  allocated : b.level1 ≠ none → 0 < b.capacity

variable {fd : Fd} {m : Fd → Option Slot} {h : ConnectionHash} {op : HashOp}

namespace HashBucket.Holds

variable {b : HashBucket} {l : List (Fd × Slot)} {entries : List HashEntry}

theorem size_eq (h : b.Holds l) : b.size = l.length := by
  have hlen := congrArg List.length h.used
  rw [length_take, length_map, h.length, Nat.min_eq_left h.fits] at hlen
  exact hlen

theorem unallocated (h : b.Holds l) (hb : b.level1 = none) : l = [] := by
  have hused := h.used
  rw [hb] at hused
  simpa using hused.symm

theorem of_some (h : b.Holds l) (hb : b.level1 = some entries) :
    entries.take l.length = l.map entryOf ∧ entries.length = b.capacity ∧
      l.length ≤ entries.length := by
  have hused := h.used
  have hlen := h.length
  have hfits := h.fits
  rw [hb, Option.getD_some, h.size_eq] at hused
  rw [hb, Option.getD_some] at hlen
  rw [h.size_eq, ← hlen] at hfits
  exact ⟨hused, hlen, hfits⟩

theorem find (h : b.Holds l) (hb : b.level1 = some entries) (fd : Fd) :
    ((entries.take b.size).find? fun e => e.fd = fd).bind HashEntry.conn =
      (l.find? fun e => e.1 = fd).map Prod.snd := by
  rw [h.size_eq, (h.of_some hb).1, find?_map, Option.bind_map]
  have hfun : HashEntry.conn ∘ entryOf = fun e => some e.2 := rfl
  rw [hfun]
  exact Option.map_eq_bind.symm

theorem findIdx (h : b.Holds l) (hb : b.level1 = some entries) (fd : Fd) :
    (entries.take b.size).findIdx? (fun e => e.fd = fd) = l.findIdx? fun e => e.1 = fd := by
  rw [h.size_eq, (h.of_some hb).1, findIdx?_map]
  rfl

/-- A bucket that was allocated or made larger holds the same pairs, with room for one more. -/
theorem grow (h : b.Holds l) {n : Nat} (hn : b.size < n) (fresh : Nat → HashEntry) :
    HashBucket.Holds { b with level1 := some (reallocEntries (b.level1.getD []) n fresh),
                              capacity := n } l := by
  have hle : b.size ≤ (b.level1.getD []).length := h.length ▸ h.fits
  refine ⟨?_, ?_, Nat.le_of_lt hn, fun _ => Nat.zero_lt_of_lt hn⟩
  · show (reallocEntries (b.level1.getD []) n fresh).take b.size = _
    unfold reallocEntries
    rw [take_append_of_le_length (by rw [length_take]; omega), take_take,
      Nat.min_eq_left (Nat.le_of_lt hn)]
    exact h.used
  · show (reallocEntries (b.level1.getD []) n fresh).length = n
    unfold reallocEntries
    rw [length_append, length_take, length_map, length_range]
    omega

/-- An entry written behind the used ones of a bucket with room. -/
theorem store (h : b.Holds l) (hroom : b.size < b.capacity) (hb : b.level1 ≠ none)
    (hsize : b.size + 1 < 2 ^ 32) (fd : Fd) (conn : Slot) :
    HashBucket.Holds { b with level1 := b.level1.map (·.set b.size ⟨fd, some conn⟩),
                              size := (b.size + 1) % 2 ^ 32 } (l ++ [(fd, conn)]) := by
  obtain ⟨entries, hentries⟩ := Option.ne_none_iff_exists'.mp hb
  obtain ⟨hused, hlen, _⟩ := h.of_some hentries
  rw [← h.size_eq] at hused
  rw [Nat.mod_eq_of_lt hsize]
  refine ⟨?_, ?_, hroom, fun _ => h.allocated hb⟩
  · show ((b.level1.map (·.set b.size ⟨fd, some conn⟩)).getD []).take (b.size + 1) = _
    rw [hentries, Option.map_some, Option.getD_some, take_set, map_append, ← hused,
      take_succ_eq_append_getElem (by omega), set_append_right _ _ (by simp)]
    simp [length_take, entryOf, Nat.min_eq_left (show b.size ≤ entries.length by omega)]
  · show ((b.level1.map (·.set b.size ⟨fd, some conn⟩)).getD []).length = _
    rw [hentries, Option.map_some, Option.getD_some, length_set, hlen]

/-- The last entry moved into the hole, and its place cleared. -/
theorem remove (h : b.Holds l) (hb : b.level1 = some entries) {i : Nat}
    (hi : l.findIdx? (fun e => e.1 = fd) = some i) :
    HashBucket.Holds
      { b with
        level1 := some ((if i < b.size - 1 then
            entries.set i (entries.getD (b.size - 1) ⟨0, none⟩) else entries).set
              (b.size - 1) ⟨0, none⟩)
        size := b.size - 1 } (swapRemove fd l) := by
  obtain ⟨hused, hlen, hle⟩ := h.of_some hb
  rcases eq_nil_or_concat l with rfl | ⟨l', z, rfl⟩
  · cases hi
  rw [concat_eq_append] at hi hused hle ⊢
  have hsize : b.size - 1 = l'.length := by
    rw [h.size_eq, concat_eq_append, length_append, length_singleton]
    omega
  have hlt : l'.length < entries.length := by
    rw [length_append, length_singleton] at hle
    omega
  -- the used entries without the last one, and the last one
  rw [length_append, length_singleton, take_succ_eq_append_getElem hlt,
    map_append, map_singleton] at hused
  obtain ⟨hfront, hlast⟩ := append_inj' hused rfl
  rw [singleton_inj] at hlast
  rw [hsize, swapRemove_concat z hi, getD_eq_getElem?_getD, getElem?_eq_getElem hlt,
    Option.getD_some, hlast]
  refine ⟨?_, ?_, ?_, fun _ => h.allocated (by rw [hb]; exact Option.some_ne_none _)⟩
  · rw [Option.getD_some, take_set_of_le (Nat.le_refl _), map_set]
    by_cases hin : i < l'.length
    · rw [if_pos hin, take_set, hfront]
    · rw [if_neg hin, hfront, set_eq_of_length_le (by rw [length_map]; omega)]
  · rw [Option.getD_some, length_set, ← hlen]
    split
    · exact length_set
    · rfl
  · show l'.length ≤ b.capacity
    omega

end HashBucket.Holds

/-- The arrays hold the buckets of a table that has no key twice. -/
structure HashTable (h : ConnectionHash) (t : Table Fd Slot) : Prop where
  holds : ∀ i, (h.buckets i).Holds (t i)
  unique : t.Unique bucketOf
  placed : t.Placed bucketOf

namespace HashTable

variable {t : Table Fd Slot}

theorem create (refCount : Slot → Nat) : HashTable (wsConnectionHashCreate refCount) .empty :=
  ⟨fun _ => ⟨rfl, rfl, Nat.le_refl 0, fun hne => absurd rfl hne⟩, Table.unique_empty,
    fun _ _ he => absurd he not_mem_nil⟩

/-- Only one bucket changes. -/
theorem update (hi : HashTable h t) {t' : Table Fd Slot} {bucket : Nat} {b : HashBucket}
    {l : List (Fd × Slot)} (hb : b.Holds l) (ht : t' = Function.update t bucket l) (i : Nat) :
    (Function.update h.buckets bucket b i).Holds (t' i) := by
  subst ht
  by_cases he : i = bucket
  · subst he
    rw [Function.update_self, Function.update_self]
    exact hb
  · rw [Function.update_of_ne he, Function.update_of_ne he]
    exact hi.holds i

theorem find (hi : HashTable h t) (fd : Int) :
    wsConnectionHashFind h fd = if fd < 0 then none else t.find bucketOf fd.toNat := by
  unfold wsConnectionHashFind
  split
  · rfl
  have hb := hi.holds (bucketOf fd.toNat)
  unfold Table.find
  cases hl : (h.buckets (bucketOf fd.toNat)).level1 with
  | none =>
    simp only [hl]
    rw [hb.unallocated hl]
    rfl
  | some =>
    simp only [hl]
    exact hb.find hl fd.toNat

/-- An insertion into a bucket of fewer than 2^31 entries, with memory to be had. -/
theorem insert (hi : HashTable h t) (habs : t.find bucketOf fd = none)
    (hfew : (t (bucketOf fd)).length < 2 ^ 31) (fresh : Nat → HashEntry) (conn : Slot) :
    HashTable (wsConnectionHashInsert true fresh h fd conn).1 (t.insert bucketOf fd conn) := by
  have hb := hi.holds (bucketOf fd)
  have hsize := hb.size_eq
  -- whichever way the bucket was given room
  have hstored : ∀ b : HashBucket, b.Holds (t (bucketOf fd)) → b.size < b.capacity →
      b.level1 ≠ none →
      HashTable (h.store (bucketOf fd) b fd conn) (t.insert bucketOf fd conn) := by
    intro b hold hroom hne
    have hlt : b.size + 1 < 2 ^ 32 := by
      rw [hold.size_eq]
      omega
    exact ⟨hi.update (hold.store hroom hne hlt fd conn) rfl,
      hi.unique.insert (Table.not_has_of_find hi.unique habs), hi.placed.insert⟩
  simp only [wsConnectionHashInsert]
  cases hl : (h.buckets (bucketOf fd)).level1 with
  | none =>
    have hempty : (h.buckets (bucketOf fd)).size = 0 := by
      rw [hsize, hb.unallocated hl]
      rfl
    have hgrown := hb.grow (n := 32) (by omega) fresh
    rw [hl] at hgrown
    exact hstored _ hgrown (by show (h.buckets (bucketOf fd)).size < 32; omega)
      (Option.some_ne_none _)
  | some =>
    simp only
    have hpos := hb.allocated (by rw [hl]; exact Option.some_ne_none _)
    by_cases hfull : (h.buckets (bucketOf fd)).capacity ≤ (h.buckets (bucketOf fd)).size
    · rw [if_pos hfull]
      have hdouble : (h.buckets (bucketOf fd)).capacity * 2 % 2 ^ 32 =
          (h.buckets (bucketOf fd)).capacity * 2 := Nat.mod_eq_of_lt (by omega)
      have hfits := hb.fits
      have hgrown := hb.grow (n := (h.buckets (bucketOf fd)).capacity * 2) (by omega) fresh
      rw [hl] at hgrown
      rw [hdouble]
      exact hstored _ hgrown
        (by show (h.buckets (bucketOf fd)).size < (h.buckets (bucketOf fd)).capacity * 2; omega)
        (Option.some_ne_none _)
    · rw [if_neg hfull]
      exact hstored _ hb (by omega) (by rw [hl]; exact Option.some_ne_none _)

/-- Whether the descriptor stands in the table, as the search in its bucket sees it. -/
theorem findIdx_isSome (t : Table Fd Slot) (fd : Fd) :
    ((t (bucketOf fd)).findIdx? fun e => e.1 = fd).isSome = (t.find bucketOf fd).isSome := by
  unfold Table.find
  rw [findIdx?_isSome, Option.isSome_map, Bool.eq_iff_iff, any_eq_true,
    find?_isSome]

/-- A removal: what is left, what the counter becomes, and what it says. -/
theorem remove (hi : HashTable h t) {fd : Int} (hfd : 0 ≤ fd) :
    HashTable (wsConnectionHashRemove h fd).1 (t.remove bucketOf fd.toNat) ∧
      (wsConnectionHashRemove h fd).2 = (t.find bucketOf fd.toNat).isSome ∧
      (wsConnectionHashRemove h fd).1.totalConnections =
        if (t.find bucketOf fd.toNat).isSome then (h.totalConnections + (2 ^ 32 - 1)) % 2 ^ 32
        else h.totalConnections := by
  have hb := hi.holds (bucketOf fd.toNat)
  have hsome := findIdx_isSome t fd.toNat
  have hkept : (t (bucketOf fd.toNat)).findIdx? (fun e => e.1 = fd.toNat) = none →
      t.remove bucketOf fd.toNat = t := by
    intro hnone
    unfold Table.remove
    rw [swapRemove_of_not_mem ?_, Function.update_eq_self]
    intro hmem
    obtain ⟨e, he, hfe⟩ := mem_map.mp hmem
    exact absurd hfe (by simpa using findIdx?_eq_none_iff.mp hnone e he)
  simp only [wsConnectionHashRemove]
  rw [if_neg (by omega)]
  cases hl : (h.buckets (bucketOf fd.toNat)).level1 with
  | none =>
    have hnil := hb.unallocated hl
    rw [hnil] at hsome
    simp only
    rw [hkept (by rw [hnil]; rfl), ← hsome]
    exact ⟨hi, rfl, (if_neg Bool.false_ne_true).symm⟩
  | some =>
    simp only [hb.findIdx hl]
    cases hidx : (t (bucketOf fd.toNat)).findIdx? (fun e => e.1 = fd.toNat) with
    | none =>
      rw [hkept hidx, ← hsome, hidx]
      exact ⟨hi, rfl, (if_neg Bool.false_ne_true).symm⟩
    | some =>
      rw [← hsome, hidx]
      exact ⟨⟨hi.update (hb.remove hl hidx) rfl, hi.unique.remove, hi.placed.remove⟩, rfl,
        (if_pos rfl).symm⟩

end HashTable

/-! ## Runs -/

/-- The operations; every insertion here gets the memory it asks for. -/
inductive HashOp where
  | insert (fd : Fd) (conn : Slot) (fresh : Nat → HashEntry)
  | find (fd : Int)
  | findAndRef (fd : Int)
  | remove (fd : Int)

def hashStep (h : ConnectionHash) : HashOp → ConnectionHash
  | .insert fd conn fresh => (wsConnectionHashInsert true fresh h fd conn).1
  | .find _ => h
  | .findAndRef fd => (wsConnectionHashFindAndRef h fd).1
  | .remove fd => (wsConnectionHashRemove h fd).1

def hashRun (refCount : Slot → Nat) (ops : List HashOp) : ConnectionHash :=
  ops.foldl hashStep (wsConnectionHashCreate refCount)

/-- What a finite map makes of an operation. -/
def recordOp (m : Fd → Option Slot) : HashOp → Fd → Option Slot
  | .insert fd conn _ => Function.update m fd (some conn)
  | .remove fd => if fd < 0 then m else Function.update m fd.toNat none
  | .find _ => m
  | .findAndRef _ => m

/-- The connection of each descriptor's last insertion, if it has not been removed since. -/
def contents (ops : List HashOp) : Fd → Option Slot := ops.foldl recordOp fun _ => none

/-- The map at an `int`. -/
def lookup (m : Fd → Option Slot) (fd : Int) : Option Slot := if fd < 0 then none else m fd.toNat

/-- The present descriptors; a descriptor is an `int` that is not negative. -/
def presentFds (m : Fd → Option Slot) : Finset Fd :=
  (Finset.range (2 ^ 31)).filter fun fd => (m fd).isSome

/-- Descriptors are inserted only while they are absent. -/
def AbsentInserts (ops : List HashOp) : Prop :=
  ∀ before fd conn fresh after, ops = before ++ .insert fd conn fresh :: after →
    fd < 2 ^ 31 ∧ contents before fd = none

theorem contents_concat (ops : List HashOp) (op : HashOp) :
    contents (ops ++ [op]) = recordOp (contents ops) op := by
  simp [contents]

theorem hashRun_concat (refCount : Slot → Nat) (ops : List HashOp) (op : HashOp) :
    hashRun refCount (ops ++ [op]) = hashStep (hashRun refCount ops) op := by
  simp [hashRun]

theorem AbsentInserts.init {ops : List HashOp} (h : AbsentInserts (ops ++ [op])) :
    AbsentInserts ops := by
  intro before fd conn fresh after hops
  exact h before fd conn fresh (after ++ [op]) (by rw [hops]; simp)

/-- The hash holds the map `m`: as a table, and by its counter. -/
structure HashHolds (h : ConnectionHash) (m : Fd → Option Slot) : Prop where
  table : ∃ t, HashTable h t ∧ ∀ fd, t.find bucketOf fd = m fd
  small : ∀ fd, (m fd).isSome → fd < 2 ^ 31
  total : h.totalConnections = (presentFds m).card

theorem presentFds_card_le (m : Fd → Option Slot) : (presentFds m).card ≤ 2 ^ 31 :=
  (Finset.card_filter_le _ _).trans_eq (Finset.card_range _)

theorem mem_presentFds (hsmall : ∀ fd, (m fd).isSome → fd < 2 ^ 31) (fd : Fd) :
    fd ∈ presentFds m ↔ (m fd).isSome := by
  unfold presentFds
  rw [Finset.mem_filter, Finset.mem_range]
  exact ⟨And.right, fun h => ⟨hsmall fd h, h⟩⟩

theorem presentFds_insert {conn : Slot} (hsmall : ∀ k, (m k).isSome → k < 2 ^ 31)
    (hsmall' : ∀ k, (Function.update m fd (some conn) k).isSome → k < 2 ^ 31) :
    presentFds (Function.update m fd (some conn)) = insert fd (presentFds m) := by
  apply Finset.ext
  intro k
  rw [Finset.mem_insert, mem_presentFds hsmall', mem_presentFds hsmall]
  by_cases he : k = fd
  · simp [he]
  · simp [he]

theorem presentFds_remove (hsmall : ∀ k, (m k).isSome → k < 2 ^ 31)
    (hsmall' : ∀ k, (Function.update m fd none k).isSome → k < 2 ^ 31) :
    presentFds (Function.update m fd none) = (presentFds m).erase fd := by
  apply Finset.ext
  intro k
  rw [Finset.mem_erase, mem_presentFds hsmall', mem_presentFds hsmall]
  by_cases he : k = fd
  · simp [he]
  · simp [he]

/-- A bucket whose hash lacks a descriptor has fewer entries than there are descriptors. -/
theorem bucket_length_lt {t : Table Fd Slot} (hi : HashTable h t)
    (hsmall : ∀ fd, (t.find bucketOf fd).isSome → fd < 2 ^ 31) (hfd : fd < 2 ^ 31)
    (habs : t.find bucketOf fd = none) (i : Nat) : (t i).length < 2 ^ 31 := by
  have hkeys : (fd :: (t i).map Prod.fst).Nodup := by
    refine nodup_cons.mpr ⟨fun hmem => ?_, hi.unique.nodup hi.placed i⟩
    obtain ⟨⟨k, x⟩, he, rfl⟩ := mem_map.mp hmem
    have hplace := hi.placed i _ he
    exact Table.not_has_of_find hi.unique habs x (by unfold Table.Has; rw [hplace]; exact he)
  have hsub : fd :: (t i).map Prod.fst ⊆ range (2 ^ 31) := by
    intro k hk
    rw [mem_range]
    rcases mem_cons.mp hk with rfl | hk
    · exact hfd
    · obtain ⟨⟨k, x⟩, he, rfl⟩ := mem_map.mp hk
      have hplace := hi.placed i _ he
      have hfound : t.find bucketOf k = some x := by
        rw [Table.find_eq_some_iff hi.unique]
        unfold Table.Has
        rw [hplace]
        exact he
      exact hsmall k (by rw [hfound]; rfl)
  have hlen := (hkeys.subperm hsub).length_le
  rw [length_cons, length_map, length_range] at hlen
  exact hlen

theorem HashHolds.insert (hm : HashHolds h m) (hfd : fd < 2 ^ 31) (habs : m fd = none)
    (fresh : Nat → HashEntry) (conn : Slot) :
    HashHolds (wsConnectionHashInsert true fresh h fd conn).1
      (Function.update m fd (some conn)) := by
  obtain ⟨t, hi, ht⟩ := hm.table
  have hnone : t.find bucketOf fd = none := (ht fd).trans habs
  have hfew := bucket_length_lt hi (fun k hk => hm.small k (ht k ▸ hk)) hfd hnone (bucketOf fd)
  have hsmall : ∀ k, (Function.update m fd (some conn) k).isSome → k < 2 ^ 31 := by
    intro k hk
    by_cases he : k = fd
    · rw [he]
      exact hfd
    · rw [Function.update_of_ne he] at hk
      exact hm.small k hk
  refine ⟨⟨_, hi.insert hnone hfew fresh conn, fun k => ?_⟩, hsmall, ?_⟩
  · rw [Table.find_insert hi.unique hnone, Function.update_apply, ht]
  · have hnew : fd ∉ presentFds m := by
      rw [mem_presentFds hm.small, habs]
      simp
    have hcount : (wsConnectionHashInsert true fresh h fd conn).1.totalConnections =
        (h.totalConnections + 1) % 2 ^ 32 := by
      simp only [wsConnectionHashInsert]
      split
      · rfl
      · split <;> rfl
    have hle := presentFds_card_le m
    rw [hcount, presentFds_insert hm.small hsmall, Finset.card_insert_of_notMem hnew, hm.total]
    exact Nat.mod_eq_of_lt (by omega)

theorem HashHolds.remove (hm : HashHolds h m) (fd : Int) :
    HashHolds (wsConnectionHashRemove h fd).1 (recordOp m (.remove fd)) ∧
      (wsConnectionHashRemove h fd).2 = (lookup m fd).isSome := by
  simp only [recordOp, lookup]
  by_cases hneg : fd < 0
  · simp only [wsConnectionHashRemove, if_pos hneg]
    exact ⟨hm, rfl⟩
  rw [if_neg hneg, if_neg hneg]
  obtain ⟨t, hi, ht⟩ := hm.table
  obtain ⟨hinv, hsays, htotal⟩ := hi.remove (Int.not_lt.mp hneg)
  rw [ht] at hsays htotal
  have hsmall : ∀ k, (Function.update m fd.toNat none k).isSome → k < 2 ^ 31 := by
    intro k hk
    obtain ⟨r, hr⟩ := Option.isSome_iff_exists.mp hk
    exact hm.small k (Option.isSome_of_eq_some (of_update (by simp) hr).2)
  refine ⟨⟨⟨_, hinv, fun k => ?_⟩, hsmall, ?_⟩, hsays⟩
  · rw [Table.find_remove hi.unique, Function.update_apply, ht]
  have hle := presentFds_card_le m
  rw [htotal, presentFds_remove hm.small hsmall, hm.total]
  by_cases hin : (m fd.toNat).isSome
  · have hmem := (mem_presentFds hm.small fd.toNat).mpr hin
    have hpos := Finset.card_pos.mpr ⟨_, hmem⟩
    rw [if_pos hin, Finset.card_erase_of_mem hmem]
    omega
  · rw [if_neg hin, Finset.erase_eq_of_notMem fun hmem =>
      hin ((mem_presentFds hm.small fd.toNat).mp hmem)]

theorem HashHolds.find (hm : HashHolds h m) (fd : Int) :
    wsConnectionHashFind h fd = lookup m fd := by
  obtain ⟨t, hi, ht⟩ := hm.table
  rw [hi.find]
  unfold lookup
  rw [ht]

theorem wsConnectionHashFindAndRef_found (h : ConnectionHash) (fd : Int) :
    (wsConnectionHashFindAndRef h fd).2 = wsConnectionHashFind h fd := by
  unfold wsConnectionHashFindAndRef
  cases wsConnectionHashFind h fd <;> rfl

/-- A reference taken changes no bucket and not the counter. -/
theorem HashHolds.findAndRef (hm : HashHolds h m) (fd : Int) :
    HashHolds (wsConnectionHashFindAndRef h fd).1 m := by
  unfold wsConnectionHashFindAndRef
  cases wsConnectionHashFind h fd with
  | none => exact hm
  | some =>
    obtain ⟨t, hi, ht⟩ := hm.table
    exact ⟨⟨t, ⟨hi.holds, hi.unique, hi.placed⟩, ht⟩, hm.small, hm.total⟩

theorem HashHolds.step (hm : HashHolds h m)
    (hop : ∀ fd conn fresh, op = .insert fd conn fresh → fd < 2 ^ 31 ∧ m fd = none) :
    HashHolds (hashStep h op) (recordOp m op) := by
  cases op with
  | insert fd conn fresh =>
    obtain ⟨hfd, habs⟩ := hop fd conn fresh rfl
    exact hm.insert hfd habs fresh conn
  | find => exact hm
  | findAndRef fd => exact hm.findAndRef fd
  | remove fd => exact (hm.remove fd).1

theorem hashRun_holds (refCount : Slot → Nat) (ops : List HashOp) (hops : AbsentInserts ops) :
    HashHolds (hashRun refCount ops) (contents ops) := by
  induction ops using reverseRecOn with
  | nil =>
    refine ⟨⟨.empty, HashTable.create refCount, fun _ => rfl⟩, fun fd hfd => ?_, ?_⟩
    · cases hfd
    · show 0 = _
      rw [eq_comm, Finset.card_eq_zero]
      exact Finset.filter_eq_empty_iff.mpr fun _ _ => by simp [contents]
  | append_singleton ops op ih =>
    rw [hashRun_concat, contents_concat]
    exact (ih hops.init).step fun fd conn fresh hop => hops ops fd conn fresh [] (by rw [hop])

/-- The hash is a finite map: lookups and removals answer as the map of the insertions and
    removals so far, the counter is its size, and every bucket's entries are distinct and
    within its memory. -/
theorem connectionHash_map (refCount : Slot → Nat) (ops : List HashOp)
    (hops : AbsentInserts ops) :
    (∀ fd, wsConnectionHashFind (hashRun refCount ops) fd = lookup (contents ops) fd) ∧
      (∀ fd, (wsConnectionHashFindAndRef (hashRun refCount ops) fd).2 =
        lookup (contents ops) fd) ∧
      (∀ fd, (wsConnectionHashRemove (hashRun refCount ops) fd).2 = true ↔
        (lookup (contents ops) fd).isSome) ∧
      (hashRun refCount ops).totalConnections = (presentFds (contents ops)).card ∧
      ∀ i, let b := (hashRun refCount ops).buckets i
        (((b.level1.getD []).take b.size).map HashEntry.fd).Nodup ∧
          b.size ≤ b.capacity ∧ (b.level1.getD []).length = b.capacity := by
  have hm := hashRun_holds refCount ops hops
  refine ⟨hm.find, fun fd => ?_, fun fd => ?_, hm.total, fun i => ?_⟩
  · rw [wsConnectionHashFindAndRef_found, hm.find]
  · rw [(hm.remove fd).2]
  · obtain ⟨t, hi, _⟩ := hm.table
    have hb := hi.holds i
    refine ⟨?_, hb.fits, hb.length⟩
    rw [hb.used, map_map]
    exact hi.unique.nodup hi.placed i

/-- A descriptor that was removed and inserted again, with another one in between. -/
def reinserted : List HashOp :=
  [.insert 7 3 fun _ => ⟨0, none⟩, .insert 8 1 fun _ => ⟨0, none⟩, .remove 7,
    .insert 7 4 fun _ => ⟨0, none⟩]

theorem reinserted_absent : AbsentInserts reinserted := by
  intro before fd conn fresh after h
  rcases before with _ | ⟨_, _ | ⟨_, _ | ⟨_, _ | ⟨_, _ | ⟨_, l⟩⟩⟩⟩⟩ <;>
    simp [reinserted] at h
  · obtain ⟨⟨rfl, _⟩, _⟩ := h
    exact ⟨by decide, rfl⟩
  · obtain ⟨rfl, ⟨rfl, _⟩, _⟩ := h
    exact ⟨by decide, by decide⟩
  · obtain ⟨rfl, rfl, rfl, ⟨rfl, _⟩, _⟩ := h
    exact ⟨by decide, by decide⟩

theorem connectionHash_map_reinserted :
    AbsentInserts reinserted ∧
      wsConnectionHashFind (hashRun (fun _ => 1) reinserted) 7 = some 4 ∧
      (hashRun (fun _ => 1) reinserted).totalConnections =
        (presentFds (contents reinserted)).card :=
  ⟨reinserted_absent, (connectionHash_map _ _ reinserted_absent).1 7,
    (connectionHash_map _ _ reinserted_absent).2.2.2.1⟩

end Portico.Loop
