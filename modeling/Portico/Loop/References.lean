/-
  References: the global hash, the reference counts, and slots that come back.

  `HashInv`: the global hash has no key twice, and an entry in it is in the descriptor map too or
  about to be removed. `RefInv`: the count of a registered connection is one plus the number of
  API calls that hold it, until the event thread drops its own reference, and no call holds a
  free slot. Both hold in every run whose steps meet `closesNoPending`.

  Proved: `no_slot_lost`: if no API call holds the connection whenever the event thread drops its
  reference to one (and TLS objects can be made, and the event thread is the only one), then
  every slot is free, registered or the one that is being torn down. A call that still holds the
  connection is the last to drop its reference, and nothing then puts the slot back:
  `slot_lost_to_sender`.
-/
import Mathlib.Data.List.Perm.Basic
import Mathlib.Data.List.Perm.Subperm
import Portico.Loop.Descriptors

namespace Portico.Loop

open Portico.Lib Portico.Ws List
open Function (update update_eq_self update_of_ne update_self)

/-! ## The global hash -/

/-- The entry that `close_connection` is about to remove. -/
def EvPc.removing : EvPc → Option (Fd × Slot)
  | .hashRemove fd x _ => some (fd, x)
  | _ => none

/-- A registered descriptor that has no entry yet, or none any more. -/
def EvPc.bare : EvPc → Option Fd
  | .newHash fd _ => some fd
  | .closeRelease fd _ => some fd
  | _ => none

@[simp] theorem Back.bare_pc (b : Back) : b.pc.bare = none := by cases b <;> rfl

variable {fd : Fd} {x : Slot} {k : Nat} {d : Send} {pc : EvPc}

theorem removing_torn (h : pc.removing = some (fd, x)) : pc.torn = some x := by
  cases pc with
  | hashRemove => exact congrArg some (Prod.mk.inj (Option.some.inj h)).2
  | _ => simp [EvPc.removing] at h

structure HashInv (s : Server) : Prop where
  unique : s.hash.Unique bucketOf
  has : ∀ fd x, s.hash.Has bucketOf fd x → s.fdMap fd = some x ∨ s.ev.removing = some (fd, x)
  bare : ∀ fd, s.ev.bare = some fd → ∀ x, ¬ s.hash.Has bucketOf fd x

variable {cfg : Config} {s s' : Server} {a : Label}

/-- The event thread goes from one place to another without touching the hash. -/
theorem HashInv.leave (h : HashInv s) (hhash : s'.hash = s.hash) (hmap : s'.fdMap = s.fdMap)
    (hrem : s.ev.removing = none) (hbare : s'.ev.bare = none) : HashInv s' := by
  refine ⟨hhash ▸ h.unique, ?_, fun fd hb => absurd (hbare.symm.trans hb) (by simp)⟩
  intro fd x hx
  rw [hhash] at hx
  rw [hmap]
  exact .inl ((h.has fd x hx).resolve_right (fun hr => absurd (hrem.symm.trans hr) (by simp)))

/-- A descriptor without an entry is registered. -/
theorem HashInv.register (h : HashInv s) (hfd : s.fdMap fd = none) (hrem : s.ev.removing = none)
    (hhash : s'.hash = s.hash) (hmap : s'.fdMap = update s.fdMap fd (some x))
    (hbare : s'.ev.bare = some fd) : HashInv s' := by
  have hold : ∀ fd' y, s.hash.Has bucketOf fd' y → s.fdMap fd' = some y ∧ fd' ≠ fd := by
    intro fd' y hy
    have hm : s.fdMap fd' = some y :=
      (h.has fd' y hy).resolve_right (fun hr => absurd (hrem.symm.trans hr) (by simp))
    exact ⟨hm, ne_of_unregistered hfd hm⟩
  refine ⟨hhash ▸ h.unique, ?_, ?_⟩
  · intro fd' y hy
    rw [hhash] at hy
    obtain ⟨hm, hne⟩ := hold fd' y hy
    rw [hmap, update_of_ne hne]
    exact .inl hm
  · intro fd' hb y hy
    rw [hhash] at hy
    exact (hold fd' y hy).2 (Option.some.inj (hbare.symm.trans hb)).symm

/-- A descriptor is taken out of the map; its entry is removed next, or already gone. -/
theorem HashInv.unregister (h : HashInv s) (hfd : s.fdMap fd = some x)
    (hrem : s.ev.removing = none) (hhash : s'.hash = s.hash)
    (hmap : s'.fdMap = update s.fdMap fd none)
    (hnext : s'.ev.removing = some (fd, x) ∨ ∀ y, ¬ s.hash.Has bucketOf fd y)
    (hbare : s'.ev.bare = none) : HashInv s' := by
  refine ⟨hhash ▸ h.unique, ?_, fun fd' hb => absurd (hbare.symm.trans hb) (by simp)⟩
  intro fd' y hy
  rw [hhash] at hy
  have hm : s.fdMap fd' = some y :=
    (h.has fd' y hy).resolve_right (fun hr => absurd (hrem.symm.trans hr) (by simp))
  by_cases he : fd' = fd
  · subst he
    rcases hnext with hnext | hnone
    · rw [hfd] at hm
      exact .inr (Option.some.inj hm ▸ hnext)
    · exact absurd hy (hnone y)
  · rw [hmap, update_of_ne he]
    exact .inl hm

/-- The entry of a descriptor is removed. -/
theorem HashInv.remove (h : HashInv s) (hhash : s'.hash = s.hash.remove bucketOf fd)
    (hmap : s'.fdMap = s.fdMap) (hrem : ∀ p, s.ev.removing = some p → p.1 = fd)
    (hbare : ∀ fd', s'.ev.bare = some fd' → fd' = fd) : HashInv s' := by
  have hhas : ∀ fd' y, s'.hash.Has bucketOf fd' y ↔ s.hash.Has bucketOf fd' y ∧ fd' ≠ fd := by
    intro fd' y
    rw [hhash]
    exact Table.has_remove h.unique
  refine ⟨hhash ▸ h.unique.remove, ?_, ?_⟩
  · intro fd' y hy
    obtain ⟨hy, hne⟩ := (hhas fd' y).mp hy
    rw [hmap]
    exact .inl ((h.has fd' y hy).resolve_right (fun hr => hne (hrem _ hr)))
  · intro fd' hb y hy
    exact ((hhas fd' y).mp hy).2 (hbare fd' hb)

/-- A registered descriptor gets its entry. -/
theorem HashInv.insert (h : HashInv s) (hfd : s.fdMap fd = some x)
    (hnone : ∀ y, ¬ s.hash.Has bucketOf fd y) (hrem : s.ev.removing = none)
    (hhash : s'.hash = s.hash.insert bucketOf fd x) (hmap : s'.fdMap = s.fdMap)
    (hbare : s'.ev.bare = none) : HashInv s' := by
  refine ⟨hhash ▸ h.unique.insert hnone, ?_, fun fd' hb => absurd (hbare.symm.trans hb) (by simp)⟩
  intro fd' y hy
  rw [hhash] at hy
  rw [hmap]
  rcases Table.has_insert.mp hy with hy | ⟨rfl, rfl⟩
  · exact .inl ((h.has fd' y hy).resolve_right (fun hr => absurd (hrem.symm.trans hr) (by simp)))
  · exact .inl hfd

theorem HashInv.move (h : HashInv s) (hslot : SlotInv cfg s) (hfile : FileInv s)
    (hm : Move cfg s a s') : HashInv s' := by
  cases hm with
  | accept | reject | handOver | handOther | otherOpen | otherClose | find | check
  | readGeneration | queueControl | queueData | dropRef | noSlot | tlsFail | dropData | deliver
  | noTarget | complete =>
    exact ⟨h.unique, h.has, h.bare⟩
  | wait | reap | batchEnd | takeWakeup | takeAio | takeConn | stale | hangup | completeClose
  | unrefShared | insertFail | poll | pollFail =>
    exact h.leave rfl rfl (by simp [*, EvPc.removing]) rfl
  | loopEnd hev => exact h.leave rfl rfl (by rcases hev with hev | hev <;> rw [hev] <;> rfl) rfl
  | pass state submit fail e pc hpc =>
    rcases hpc with ⟨hev, rfl⟩ | ⟨hev, rfl⟩ | ⟨hev | hev, rfl⟩ <;>
      exact h.leave rfl rfl (by rw [hev]; rfl) rfl
  | handle state submit fail e x pc hmap hpc =>
    rcases hpc with ⟨hev | hev, rfl⟩ | ⟨hev, rfl⟩ | ⟨hev, rfl⟩ <;>
      exact h.leave rfl rfl (by rw [hev]; rfl) rfl
  | register tls sendOk fd queue x rest hev hq =>
    have hfd : s.fdMap fd = none := ((hfile.fds fd).queued (by simp [hq])).1
    exact h.register hfd (by rw [hev]; rfl) rfl rfl rfl
  | act tls sendOk kind fd x y life queue pc hev hq hmap hpc =>
    rcases hpc with ⟨_, rfl⟩ | ⟨_, rfl⟩ <;> exact h.leave rfl rfl (by rw [hev]; rfl) rfl
  | releaseUnknown ok fd event back hev hmap =>
    refine h.leave rfl ?_ (by rw [hev]; rfl) (Back.bare_pc back)
    show update s.fdMap fd none = s.fdMap
    rw [← hmap, update_eq_self]
  | release ok fd event back x hev hmap =>
    exact h.unregister hmap (by rw [hev]; rfl) rfl rfl (.inl rfl) rfl
  | hashRemove ok fd x back hev =>
    refine h.remove rfl rfl (fun p hp => ?_)
      (fun _ hb => absurd hb (by simp [Server.goTo, EvPc.bare]))
    rw [hev] at hp
    rw [← Option.some.inj hp]
  | unrefLast _ _ back _ hev | mark _ _ back hev =>
    exact h.leave rfl rfl (by rw [hev]; rfl) (Back.bare_pc back)
  | closeHash ok fd x hev =>
    refine h.remove rfl rfl (fun p hp => ?_) (fun fd' hb => (Option.some.inj hb).symm)
    rw [hev] at hp
    simp [EvPc.removing] at hp
  | closeRelease ok fd x hev =>
    exact h.unregister (hslot.working fd x (by rw [hev]; rfl)) (by rw [hev]; rfl) rfl rfl
      (.inr (h.bare fd (by rw [hev]; rfl))) rfl
  | insert fd x hev =>
    exact h.insert (hslot.working fd x (by rw [hev]; rfl)) (h.bare fd (by rw [hev]; rfl))
      (by rw [hev]; rfl) rfl rfl rfl

/-! ## Reference counts -/

/-- The slots of the API calls in progress. -/
def Server.heldSlots (s : Server) : List Slot := s.sends.map Send.slot

/-- The slot whose reference the event thread has still to drop. -/
def EvPc.dropping : EvPc → Option Slot
  | .hashRemove _ x _ => some x
  | .unref x _ => some x
  | _ => none

@[simp] theorem Back.dropping_pc (b : Back) : b.pc.dropping = none := by cases b <;> rfl

/-- The event thread holds a reference to the slot. -/
def Server.Owned (s : Server) (x : Slot) : Prop :=
  (∃ fd, s.fdMap fd = some x) ∨ s.ev.dropping = some x

structure RefInv (s : Server) : Prop where
  count : ∀ x, s.Owned x → (s.conns x).refCount = 1 + s.heldSlots.count x
  free : ∀ x ∈ s.heldSlots, x ∉ s.free

section References

theorem dropping_torn (h : pc.dropping = some x) : pc.torn = some x := by
  cases pc with
  | hashRemove | unref => exact h
  | _ => simp [EvPc.dropping] at h

/-- A call that goes on to its next stage holds the slot that it held. -/
theorem heldSlots_putStage (stage : SendStage) (hd : s.sends[k]? = some d) :
    (s.putStage k d stage).heldSlots = s.heldSlots := by
  unfold Server.heldSlots Server.putStage
  apply ext_getElem?
  intro i
  rw [List.getElem?_map, List.getElem?_map, List.getElem?_set]
  split
  · rename_i he
    subst he
    rw [if_pos (List.getElem?_eq_some_iff.mp hd).1, hd]
    rfl
  · rfl

theorem heldSlots_eraseIdx (hd : s.sends[k]? = some d) :
    s.heldSlots.Perm (d.slot :: (s.sends.eraseIdx k).map Send.slot) := by
  obtain ⟨hk, rfl⟩ := List.getElem?_eq_some_iff.mp hd
  exact ((getElem_cons_eraseIdx_perm hk).map Send.slot).symm

variable (h : RefInv s)

include h

theorem RefInv.keep (hheld : s'.heldSlots = s.heldSlots) (hfree : ∀ x ∈ s'.free, x ∈ s.free)
    (howned : ∀ x, s'.Owned x → s.Owned x ∧ (s'.conns x).refCount = (s.conns x).refCount) :
    RefInv s' := by
  refine ⟨?_, ?_⟩
  · intro x hx
    obtain ⟨hold, hcount⟩ := howned x hx
    rw [hcount, hheld]
    exact h.count x hold
  · intro x hx hmem
    rw [hheld] at hx
    exact h.free x hx (hfree x hmem)

/-- The event thread goes to a place where it is about to drop nothing. -/
theorem RefInv.leave (hheld : s'.heldSlots = s.heldSlots) (hfree : s'.free = s.free)
    (hmap : s'.fdMap = s.fdMap) (hcount : ∀ x, (s'.conns x).refCount = (s.conns x).refCount)
    (hdrop : s'.ev.dropping = none) : RefInv s' := by
  refine h.keep hheld (fun x hx => hfree ▸ hx) ?_
  rintro x (hx | hx)
  · exact ⟨.inl (hmap ▸ hx), hcount x⟩
  · simp [hdrop] at hx

/-- A call takes a reference to a connection that it found in the hash. -/
theorem RefInv.find (hslot : SlotInv cfg s) (hhash : HashInv s) {kind : SendKind} {life : Nat}
    (hfind : s.hash.find bucketOf fd = some x) :
    RefInv { s.setConn x { s.conns x with refCount := (s.conns x).refCount + 1 } with
      sends := s.sends ++ [⟨kind, fd, x, life, .found⟩] } := by
  -- what is in the hash is the event thread's
  have hnot : x ∉ s.free := by
    rcases hhash.has fd x (Table.has_of_find hfind) with hmap | hrem
    · exact (hslot.map fd x hmap).2.1
    · exact (hslot.torn x (removing_torn hrem)).2.1
  have hheld : (s.sends ++ [(⟨kind, fd, x, life, .found⟩ : Send)]).map Send.slot =
      s.heldSlots ++ [x] := by
    rw [map_append]
    rfl
  refine ⟨?_, ?_⟩
  · intro y hy
    have hc := h.count y hy
    show (update s.conns x _ y).refCount =
      1 + (((s.sends ++ [_]).map Send.slot).count y : Int)
    rw [hheld, count_append]
    by_cases he : y = x
    · subst he
      rw [update_self, count_singleton_self]
      simp only [hc]
      omega
    · rw [update_of_ne he, count_singleton, if_neg (by simpa using Ne.symm he), hc]
      omega
  · intro y hy
    have hy1 : y ∈ (s.sends ++ [(⟨kind, fd, x, life, .found⟩ : Send)]).map Send.slot := hy
    rw [hheld, mem_append, mem_singleton] at hy1
    rcases hy1 with hy1 | rfl
    · exact h.free y hy1
    · exact hnot

/-- A call drops its reference. -/
theorem RefInv.dropRef (hd : s.sends[k]? = some d) :
    RefInv { s.setConn d.slot
        { s.conns d.slot with refCount := (s.conns d.slot).refCount - 1 } with
      sends := s.sends.eraseIdx k } := by
  have hperm := heldSlots_eraseIdx hd
  refine ⟨?_, ?_⟩
  · intro y hy
    have hc := h.count y hy
    rw [hperm.count_eq, count_cons] at hc
    show (update s.conns d.slot _ y).refCount =
      1 + (((s.sends.eraseIdx k).map Send.slot).count y : Int)
    by_cases he : y = d.slot
    · subst he
      rw [update_self]
      simp only [beq_self_eq_true, if_true] at hc
      simp only [hc]
      omega
    · rw [update_of_ne he, hc, if_neg (by simpa using Ne.symm he)]
      simp
  · intro y hy
    exact h.free y (hperm.symm.subset (mem_cons_of_mem _ hy))

/-- No call holds a slot whose last reference the event thread drops. -/
theorem RefInv.not_held (hx : s.Owned x) (href : (s.conns x).refCount = 1) : x ∉ s.heldSlots := by
  have hc := h.count x hx
  rw [href] at hc
  exact count_eq_zero.mp (by omega)

/-- A new connection starts with the event thread's reference. -/
theorem RefInv.register {c : Conn} {rest : List Slot} (hfree : s.free = x :: rest)
    (hc : c.refCount = 1) (hmap : s'.fdMap = update s.fdMap fd (some x))
    (hconns : s'.conns = (s.setConn x c).conns) (hheld : s'.heldSlots = s.heldSlots)
    (hrest : s'.free = rest) (hdrop : s'.ev.dropping = none) : RefInv s' := by
  have hnot : x ∉ s.heldSlots := fun hx => h.free x hx (by simp [hfree])
  refine ⟨?_, ?_⟩
  · rintro y (⟨fd', hy⟩ | hy)
    · rw [hheld]
      by_cases he : y = x
      · rw [he, hconns, Server.setConn_self, hc, count_eq_zero.mpr hnot]
        rfl
      · have hold : s.fdMap fd' = some y :=
          (of_update_some (hmap ▸ hy)).resolve_left (fun hnew => he hnew.2) |>.2
        rw [hconns, Server.setConn_of_ne _ _ he]
        exact h.count y (.inl ⟨fd', hold⟩)
    · simp [hdrop] at hy
  · intro y hy hmem
    rw [hheld] at hy
    rw [hrest] at hmem
    exact h.free y hy (by simp [hfree, hmem])

/-- The event thread drops its reference. -/
theorem RefInv.drop (hslot : SlotInv cfg s) {c : Conn} (hx : s.ev.dropping = some x)
    (hmap : s'.fdMap = s.fdMap) (hconns : s'.conns = (s.setConn x c).conns)
    (hheld : s'.heldSlots = s.heldSlots)
    (hfree : ∀ y ∈ s'.free, y ∈ s.free ∨ (y = x ∧ (s.conns x).refCount = 1))
    (hdrop : s'.ev.dropping = none) : RefInv s' := by
  refine ⟨?_, ?_⟩
  · rintro y (⟨fd, hy⟩ | hy)
    · rw [hmap] at hy
      rw [hheld, hconns, Server.setConn_of_ne _ _ (hslot.ne_of_torn hy (dropping_torn hx))]
      exact h.count y (.inl ⟨fd, hy⟩)
    · simp [hdrop] at hy
  · intro y hy hmem
    rw [hheld] at hy
    rcases hfree y hmem with hmem | ⟨rfl, href⟩
    · exact h.free y hy hmem
    · exact h.not_held (.inr hx) href hy

theorem RefInv.move (hslot : SlotInv cfg s) (hhash : HashInv s)
    (hreg : registrationWorks s a = true) (hm : Move cfg s a s') : RefInv s' := by
  have hsame : ∀ {c : Conn} {x : Slot}, c.refCount = (s.conns x).refCount → ∀ y,
      ((s.setConn x c).conns y).refCount = (s.conns y).refCount :=
    fun hc y => s.setConn_same Conn.refCount hc y
  cases hm with
  | accept | reject | handOver | handOther | otherOpen | otherClose | noSlot | dropData | noTarget
  | complete =>
    exact h.keep rfl (fun _ => id) (fun x hx => ⟨hx, rfl⟩)
  | check _ _ _ _ hd | readGeneration _ _ _ hd =>
    exact h.keep (heldSlots_putStage _ hd) (fun _ => id) (fun x hx => ⟨hx, rfl⟩)
  | queueControl _ _ _ hd | queueData _ _ _ hd =>
    exact h.keep (heldSlots_putStage .done hd) (fun _ => id) (fun x hx => ⟨hx, rfl⟩)
  | find kind fd x hfind => exact h.find hslot hhash hfind
  | dropRef k ok d hd => exact h.dropRef hd
  | wait | reap | batchEnd | takeWakeup | takeAio | takeConn | loopEnd | stale | hangup
  | completeClose | closeHash | insert | insertFail | poll =>
    exact h.leave rfl rfl rfl (fun _ => rfl) rfl
  | pass state submit fail e pc hpc =>
    rcases hpc with ⟨_, rfl⟩ | ⟨_, rfl⟩ | ⟨_, rfl⟩ <;> exact h.leave rfl rfl rfl (fun _ => rfl) rfl
  | act tls sendOk kind fd x y life queue pc hev hq hmap hpc =>
    rcases hpc with ⟨_, rfl⟩ | ⟨_, rfl⟩ <;> exact h.leave rfl rfl rfl (fun _ => rfl) rfl
  | handle state submit fail e x pc hmap hpc =>
    rcases hpc with ⟨_, rfl⟩ | ⟨_, rfl⟩ | ⟨_, rfl⟩ <;>
      exact h.leave rfl rfl rfl (hsame (c := { s.conns x with state := state }) rfl) rfl
  | deliver tls sendOk fd x y generation life queue c hev hq hgen hopen hmap hc =>
    refine h.keep rfl (fun _ => id) (fun z hz => ⟨hz, hsame ?_ z⟩)
    rcases hc with rfl | rfl <;> rfl
  | tlsFail sendOk fd queue x rest hev hq hfree =>
    refine h.keep rfl (fun y hy => ?_) ?_
    · rw [hfree]
      exact mem_cons_of_mem _ hy
    · rintro y (⟨fd', hy⟩ | hy)
      · refine ⟨.inl ⟨fd', hy⟩, congrArg Conn.refCount ?_⟩
        exact Server.setConn_of_ne _ _ (hslot.ne_of_free hy hfree)
      · have hy1 : s.ev.dropping = some y := hy
        rw [hev] at hy1
        simp [EvPc.dropping] at hy1
  | register tls sendOk fd queue x rest hev hq hfree =>
    refine h.register (c := newConn s fd x tls) hfree ?_ rfl rfl rfl rfl rfl
    exact newConn_same Conn.refCount (fun _ _ => rfl) s fd x tls
  | releaseUnknown ok fd event back hev hmap =>
    refine h.leave rfl rfl ?_ (fun _ => rfl) (Back.dropping_pc back)
    show update s.fdMap fd none = s.fdMap
    rw [← hmap, update_eq_self]
  | release ok fd event back x hev hmap =>
    refine h.keep rfl (fun _ => id) ?_
    rintro y (⟨fd', hy⟩ | hy)
    · exact ⟨.inl ⟨fd', (of_update_none hy).2⟩, rfl⟩
    · exact ⟨.inl ⟨fd, Option.some.inj hy ▸ hmap⟩, rfl⟩
  | closeRelease ok fd x hev =>
    have hmap : s.fdMap fd = some x := hslot.working fd x (by rw [hev]; rfl)
    refine h.keep rfl (fun _ => id) ?_
    rintro y (⟨fd', hy⟩ | hy)
    · exact ⟨.inl ⟨fd', (of_update_none hy).2⟩, rfl⟩
    · exact ⟨.inl ⟨fd, Option.some.inj hy ▸ hmap⟩, rfl⟩
  | hashRemove ok fd x back hev =>
    refine h.keep rfl (fun _ => id) ?_
    rintro y (hy | hy)
    · exact ⟨.inl hy, rfl⟩
    · exact ⟨.inr (by rw [hev]; exact hy), rfl⟩
  | unrefLast ok x back free hev href hfree =>
    refine h.drop hslot (by rw [hev]; rfl) rfl rfl rfl (fun y hy => ?_) (Back.dropping_pc back)
    have hidx : (s.conns x).poolIndex = x := (hslot.torn x (by rw [hev]; rfl)).2.2.1
    have hy1 : y ∈ free := hy
    rw [hfree, hidx] at hy1
    split at hy1
    · rcases mem_cons.mp hy1 with rfl | hy1
      · exact .inr ⟨rfl, href⟩
      · exact .inl hy1
    · exact .inl hy1
  | unrefShared ok x back hev =>
    exact h.drop hslot (by rw [hev]; rfl) rfl rfl rfl (fun _ => .inl) rfl
  | mark ok x back =>
    exact h.leave rfl rfl rfl (hsame (c := { s.conns x with state := .closed }) rfl)
      (Back.dropping_pc back)
  | pollFail ok fd x hev hadd => simp [registrationWorks, hev, hadd] at hreg

end References

/-- What the event thread, the acceptor and the API callers share. -/
structure SharedInv (cfg : Config) (s : Server) : Prop extends KernelInv cfg s where
  hash : HashInv s
  refs : RefInv s

theorem SharedInv.move {cfg : Config} {s s' : Server} {a : Label} (h : SharedInv cfg s)
    (hcap : cfg.maxConnections ≤ 2 ^ 16) (hok : closesNoPending s a = true)
    (hm : Move cfg s a s') : SharedInv cfg s' := by
  have hreg : registrationWorks s a = true := (Bool.and_eq_true_iff.mp hok).1
  exact ⟨h.toKernelInv.move hcap hok hm, h.hash.move h.slots h.files hm,
    h.refs.move h.slots h.hash hreg hm⟩

theorem SharedInv.init (cfg : Config) : SharedInv cfg (.init cfg) := by
  refine ⟨.init cfg, ⟨Table.unique_empty, ?_, ?_⟩, ⟨?_, ?_⟩⟩
  · intro fd x hx
    exact absurd hx Table.not_has_empty
  · intro fd hb
    simp [Server.init, EvPc.bare] at hb
  · rintro x (⟨fd, hx⟩ | hx)
    · simp [Server.init] at hx
    · simp [Server.init, EvPc.dropping] at hx
  · intro x hx
    exact absurd hx not_mem_nil

/-! ## Slots that come back -/

/-- When the event thread drops its reference to a connection no API call holds it, the TLS
    objects of new connections can be made, and no descriptor is handed to another event thread:
    this one is the only one, so that the entries of the global hash are all its own. -/
def slotsComeBack (s : Server) (a : Label) : Bool :=
  closesNoPending s a &&
    match a, s.ev with
    | .handOther, _ => false
    | .cont _, .unref x _ => !(s.heldSlots.contains x)
    | .message tls _, _ => tls != some false
    | _, _ => true

/-- The cleanup has been left to somebody else. -/
def EvPc.deferred : EvPc → Bool
  | .mark _ _ => true
  | _ => false

structure KeptInv (cfg : Config) (s : Server) : Prop where
  kept : ∀ x, x < cfg.maxConnections →
    x ∈ s.free ∨ (∃ fd, s.fdMap fd = some x) ∨ s.ev.torn = some x
  never : s.ev.deferred = false

/-- There is room on the free stack for a slot that is not on it. -/
theorem SlotInv.free_length_lt (h : SlotInv cfg s) (hx : s.ev.torn = some x) :
    s.free.length < cfg.maxConnections := by
  obtain ⟨hlt, hnot, _, _⟩ := h.torn x hx
  have hsub : x :: s.free ⊆ List.range cfg.maxConnections := by
    intro y hy
    rcases mem_cons.mp hy with rfl | hy
    · exact mem_range.mpr hlt
    · exact mem_range.mpr (h.bound y hy)
  have hle := (subperm_of_subset (nodup_cons.mpr ⟨hnot, h.nodup⟩) hsub).length_le
  rw [length_cons, length_range] at hle
  exact hle

theorem KeptInv.move (h : KeptInv cfg s) (hsh : SharedInv cfg s)
    (hok : slotsComeBack s a = true) (hm : Move cfg s a s') : KeptInv cfg s' := by
  obtain ⟨-, hback⟩ := Bool.and_eq_true_iff.mp hok
  have hslot := hsh.slots
  -- no connection is left to somebody else
  have hnot : ∀ x back, s.ev ≠ .mark x back := fun x back hev => by
    have hnever := h.never
    rw [hev] at hnever
    cases hnever
  refine ⟨fun x hx => ?_, ?_⟩
  · rcases h.kept x hx with hfree | hserves
    · cases slot_move hslot.working hm with
      | stay _ hsame | leave _ _ _ _ _ hsame | mark _ _ _ _ hsame => exact .inl (hsame ▸ hfree)
      | start y fd tls sendOk ha _ _ hpop hmap =>
        rcases hmap with ⟨-, rfl⟩ | ⟨hmap, -⟩
        · subst ha
          cases hback
        · rw [hpop, mem_cons] at hfree
          rcases hfree with rfl | hfree
          · exact .inr (.inl ⟨fd, by rw [hmap, update_self]⟩)
          · exact .inl hfree
      | wipe y back hev _ hpush =>
        rw [if_pos (hslot.free_length_lt (by rw [hev]; rfl))] at hpush
        exact .inl (hpush ▸ mem_cons_of_mem _ hfree)
    · rcases hslot.serves_move hm
        (fun _ _ fd _ _ hq => ((hsh.files.fds fd).queued (by simp [hq])).1) hserves with
        hserves | ⟨back, hev, -, hpush⟩ | ⟨back, hev, -⟩
      · exact .inr hserves
      · have ht : s.ev.torn = some x := by rw [hev]; rfl
        rw [if_pos (hslot.free_length_lt ht), (hslot.torn x ht).2.2.1] at hpush
        exact .inl (hpush ▸ mem_cons_self)
      · exact absurd hev (hnot x back)
  · cases hev' : s'.ev with
    | mark x back =>
      rcases mark_move hm hev' with hev | ⟨hev, href, ok, rfl⟩
      · exact absurd hev (hnot x back)
      · -- nobody holds the connection, so the event thread's is the last reference
        have hx : x ∉ s.heldSlots := by simpa [hev] using hback
        have hc := hsh.refs.count x (.inr (by rw [hev]; rfl))
        rw [count_eq_zero.mpr hx] at hc
        exact absurd hc href
    | _ => rfl

/-- In every run of a server with one event thread whose steps meet `slotsComeBack`, with at most
    2^16 slots: every slot is on the free stack or registered, but for the one that the event
    thread is tearing down. -/
theorem no_slot_lost (cfg : Config) (hcap : cfg.maxConnections ≤ 2 ^ 16) (labels : List Label)
    (s : Server) (hok : RunMeets (Server.step cfg) (slotsComeBack · ·) (.init cfg) labels)
    (hrun : run (Server.step cfg) (.init cfg) labels = some s) :
    ∀ x, x < cfg.maxConnections →
      x ∈ s.free ∨ (∃ fd, s.fdMap fd = some x) ∨ s.ev.torn = some x := by
  have hinit : KeptInv cfg (.init cfg) := ⟨fun x hx => .inl (mem_range.mpr hx), rfl⟩
  have h : SharedInv cfg s ∧ KeptInv cfg s := by
    refine run_invariant (I := fun s => SharedInv cfg s ∧ KeptInv cfg s) ?_ labels _ s
      ⟨.init cfg, hinit⟩ hok hrun
    rintro s a s' ⟨hsh, hkept⟩ hok hstep
    have hm := step_move hstep
    exact ⟨hsh.move hcap (Bool.and_eq_true_iff.mp hok).1 hm, hkept.move hsh hok hm⟩
  exact h.2.kept

/-- A call looks up a connection, queues a message and drops its reference, and only then the
    connection is reaped. -/
theorem no_slot_lost_send_reap :
    let labels : List Label := [.accept 3, .handOver, .wait [.wakeup], .next, .message none true,
      .cont true, .cont true, .next, .next, .find (.control .close) 3, .send 0 true, .send 0 true,
      .send 0 true, .reap 0, .cont true, .cont true, .cont true]
    (run (Server.step ⟨2, 8⟩) (.init ⟨2, 8⟩) labels).map (fun s => (s.free, s.ev)) =
        some ([0, 1], .top) ∧
      ∀ s, run (Server.step ⟨2, 8⟩) (.init ⟨2, 8⟩) labels = some s → ∀ x, x < 2 →
        x ∈ s.free ∨ (∃ fd, s.fdMap fd = some x) ∨ s.ev.torn = some x := by
  refine ⟨by decide +kernel, fun s hrun => ?_⟩
  exact no_slot_lost ⟨2, 8⟩ (by decide) _ s (by decide +kernel) hrun

/-- A call holds the connection while it is reaped, and drops its reference after that. Nobody
    holds a reference any more, the event thread is idle, and the thread's only slot is neither
    free nor registered: the next connection is turned away. -/
theorem slot_lost_to_sender :
    ∃ s, run (Server.step ⟨1, 8⟩) (.init ⟨1, 8⟩) [.accept 3, .handOver, .wait [.wakeup], .next,
        .message none true, .cont true, .cont true, .next, .next,
        .find .data 3, .reap 0, .cont true, .cont true, .cont true, .cont true,
        .send 0 true, .send 0 true,
        .accept 3, .handOver, .wait [.wakeup], .next, .message none true, .next, .next] = some s ∧
      s.sends = [] ∧ s.ev = .top ∧ s.free = [] ∧ (∀ fd, s.fdMap fd = none) ∧
      s.closed = [⟨3, some ⟨0, .thread, true⟩, none⟩, ⟨3, some ⟨1, .thread, false⟩, none⟩] := by
  refine ⟨_, rfl, rfl, rfl, rfl, fun fd => ?_, rfl⟩
  by_cases hfd : fd = 3
  · rw [hfd]
    rfl
  · show update (update (fun _ => none) 3 (some 0)) 3 none fd = none
    rw [update_of_ne hfd, update_of_ne hfd]

end Portico.Loop
