/-
  The store of the http-01 responder (src/acme/acme_responder.c).

  Model. 64 slots, each with its buffers for a token and a key authorization; each operation
  holds the mutex for its whole body and is one step. `Responder.table` is what the slots hold,
  as a table of `Lib.Slots`: the strings in a slot that is not used are never read.

  Proved. Provisioning is `Slots.put` (`table_provision`), for strings that fit the buffers,
  unprovisioning is `Slots.remove` (`table_unprovision`), and a lookup is `Slots.get`
  (`lookup_eq_get`).
-/
import Portico.Acme.Documents
import Portico.Lib.Slots

namespace Portico.Acme

open Portico.Lib Portico.Ws

/-- `struct resp_slot`; the strings fit their buffers. -/
structure RespSlot where
  used : Bool
  token : Bytes
  keyauth : Bytes
  token_fits : token.length < 256
  keyauth_fits : keyauth.length < 512
  deriving DecidableEq

def RespSlot.fill (token keyauth : Bytes) : RespSlot where
  used := true
  token := fit 256 token
  keyauth := fit 512 keyauth
  token_fits := fit_length (by decide) token
  keyauth_fits := fit_length (by decide) keyauth

def RespSlot.empty : RespSlot := ⟨false, [], [], by decide, by decide⟩

/-- `slots[i].used && strcmp(slots[i].token, token) == 0`. -/
def RespSlot.matches (token : Bytes) (s : RespSlot) : Bool := s.used && s.token = token

structure Responder where
  slots : List RespSlot
  size : slots.length = 64
  deriving DecidableEq

def porticoAcmeResponderNew : Responder := ⟨List.replicate 64 .empty, by decide⟩

/-- The loop that looks for a slot, at index `i` with the free slot found so far. -/
def findSlot (token : Bytes) : List RespSlot → Nat → Option Nat → Option Nat
  | [], _, slot => slot
  | s :: rest, i, slot =>
    if s.matches token then some i
    else findSlot token rest (i + 1) (if !s.used && slot.isNone then some i else slot)

def porticoAcmeResponderProvision (token keyauth : Bytes) (r : Responder) : Responder :=
  match findSlot token r.slots 0 none with
  | none => r
  | some i =>
    { slots := r.slots.set i (.fill token keyauth)
      size := by rw [List.length_set]; exact r.size }

def porticoAcmeResponderUnprovision (token : Bytes) (r : Responder) : Responder where
  slots := r.slots.map fun s => if s.matches token then { s with used := false } else s
  size := by rw [List.length_map]; exact r.size

def challengePrefix : Bytes := ascii "/.well-known/acme-challenge/"

def porticoAcmeResponderLookup (r : Responder) (path : Bytes) (cap : Nat) : Option Bytes :=
  if path.take challengePrefix.length ≠ challengePrefix then none
  else
    let token := path.drop challengePrefix.length
    if token = [] then none
    else
      match r.slots.find? (RespSlot.matches token) with
      | none => none
      | some s => if 0 < s.keyauth.length ∧ s.keyauth.length < cap then some s.keyauth else none

/-! ## What the slots hold -/

def RespSlot.entry (s : RespSlot) : Option (Bytes × Bytes) :=
  if s.used then some (s.token, s.keyauth) else none

def Responder.table (r : Responder) : Slots Bytes Bytes := r.slots.map RespSlot.entry

/-- The path at which a server asks for the key authorization of a token. -/
def challengePath (token : Bytes) : Bytes := challengePrefix ++ token

theorem RespSlot.holds_entry (token : Bytes) (s : RespSlot) :
    Slots.holds token s.entry = s.matches token := by
  rw [entry, RespSlot.matches]
  cases s.used with
  | false => rfl
  | true => rfl

theorem RespSlot.entry_isNone (s : RespSlot) : s.entry.isNone = !s.used := by
  rw [entry]
  cases s.used with
  | false => rfl
  | true => rfl

variable {token keyauth : Bytes} {r : Responder}

theorem RespSlot.entry_fill (ht : token.length < 256) (hk : keyauth.length < 512) :
    (fill token keyauth).entry = some (token, keyauth) := by
  show some (fit 256 token, fit 512 keyauth) = _
  rw [fit_of_short ht, fit_of_short hk]

/-- The slot of the token, or else the first that is free. -/
theorem findSlot_eq (token : Bytes) (l : List RespSlot) (i : Nat) (slot : Option Nat) :
    findSlot token l i slot = ((l.findIdx? (RespSlot.matches token)).map (· + i)).or
      (slot.or ((l.findIdx? (!RespSlot.used ·)).map (· + i))) := by
  induction l generalizing i slot with
  | nil =>
    show slot = none.or (slot.or none)
    rw [Option.none_or, Option.or_none]
  | cons s l ih =>
    rw [findSlot, List.findIdx?_cons, List.findIdx?_cons]
    by_cases hm : s.matches token = true
    · rw [if_pos hm, if_pos hm, Option.map_some, Nat.zero_add, Option.some_or]
    · have hshift (o : Option Nat) : (o.map (· + 1)).map (· + i) = o.map (· + (i + 1)) := by
        rw [Option.map_map]
        congr 1
        funext n
        show n + 1 + i = n + (i + 1)
        omega
      rw [if_neg hm, if_neg hm, ih, hshift]
      -- a free slot counts only if none was found before it
      cases hu : s.used with
      | true =>
        rw [Bool.not_true, Bool.false_and, if_neg Bool.false_ne_true, if_neg Bool.false_ne_true,
          hshift]
      | false =>
        cases slot with
        | none => simp
        | some => simp

theorem Responder.mem_keys_iff :
    token ∈ Slots.keys r.table ↔ ∃ s ∈ r.slots, s.matches token = true := by
  rw [Slots.mem_keys_iff, table]
  constructor
  · intro ⟨e, he, hh⟩
    obtain ⟨s, hs, rfl⟩ := List.mem_map.mp he
    exact ⟨s, hs, by rw [← s.holds_entry]; exact hh⟩
  · intro ⟨s, hs, hm⟩
    exact ⟨s.entry, List.mem_map_of_mem hs, by rw [s.holds_entry]; exact hm⟩

theorem table_provision (r : Responder) (ht : token.length < 256) (hk : keyauth.length < 512) :
    (porticoAcmeResponderProvision token keyauth r).table = Slots.put token keyauth r.table := by
  have hentry := RespSlot.entry_fill ht hk
  have hholds : (Slots.holds token ∘ RespSlot.entry) = RespSlot.matches token :=
    funext (RespSlot.holds_entry token)
  have hnone : (Option.isNone ∘ RespSlot.entry) = fun s => !s.used :=
    funext RespSlot.entry_isNone
  have hset (i : Nat) : (r.slots.set i (.fill token keyauth)).map RespSlot.entry =
      r.table.set i (some (token, keyauth)) := by
    rw [List.map_set, hentry, Responder.table]
  rw [porticoAcmeResponderProvision, findSlot_eq, Slots.put]
  cases hfound : r.slots.findIdx? (RespSlot.matches token) with
  | some i =>
    have hkey : token ∈ Slots.keys r.table := by
      obtain ⟨hlt, hmatch, -⟩ := List.findIdx?_eq_some_iff_getElem.mp hfound
      exact Responder.mem_keys_iff.mpr ⟨_, List.getElem_mem hlt, hmatch⟩
    rw [if_pos hkey]
    refine (hset i).trans (Slots.setFirst_of_findIdx? ?_).symm
    rw [Responder.table, List.findIdx?_map, hholds, hfound]
  | none =>
    have hkey : token ∉ Slots.keys r.table := by
      intro hmem
      obtain ⟨s, hs, hm⟩ := Responder.mem_keys_iff.mp hmem
      rw [List.findIdx?_eq_none_iff.mp hfound s hs] at hm
      exact absurd hm Bool.false_ne_true
    rw [if_neg hkey]
    cases hfree : r.slots.findIdx? (!RespSlot.used ·) with
    | some i =>
      refine (hset i).trans (Slots.setFirst_of_findIdx? ?_).symm
      rw [Responder.table, List.findIdx?_map, hnone, hfree]
    | none =>
      refine (Slots.setFirst_of_not_found ?_).symm
      intro e he
      obtain ⟨s, hs, rfl⟩ := List.mem_map.mp he
      rw [s.entry_isNone]
      exact List.findIdx?_eq_none_iff.mp hfree s hs

theorem table_unprovision (token : Bytes) (r : Responder) :
    (porticoAcmeResponderUnprovision token r).table = Slots.remove token r.table := by
  show (r.slots.map _).map RespSlot.entry = (r.slots.map RespSlot.entry).map _
  rw [List.map_map, List.map_map]
  apply List.map_congr_left
  intro s _
  show (if s.matches token then _ else s).entry = s.entry.filter _
  rw [RespSlot.matches, RespSlot.entry, RespSlot.entry]
  cases hu : s.used with
  | false => simp [hu]
  | true =>
    by_cases ht : s.token = token
    · simp [Option.filter, ht]
    · simp [Option.filter, ht, hu]

theorem lookup_eq_get {cap : Nat} (ht : token ≠ []) (hk : keyauth ≠ []) (hcap : 512 ≤ cap) :
    porticoAcmeResponderLookup r (challengePath token) cap = some keyauth ↔
      Slots.get token r.table = some keyauth := by
  have hget : Slots.get token r.table =
      (r.slots.find? (RespSlot.matches token)).bind fun s => s.entry.map Prod.snd := by
    rw [Slots.get, Responder.table, List.find?_map,
      show (Slots.holds token ∘ RespSlot.entry) = RespSlot.matches token from
        funext (RespSlot.holds_entry token), Option.bind_map]
    rfl
  rw [hget, porticoAcmeResponderLookup, challengePath, List.take_left, if_neg (fun h => h rfl),
    List.drop_left]
  dsimp only
  rw [if_neg ht]
  cases hfound : r.slots.find? (RespSlot.matches token) with
  | none => exact Iff.rfl
  | some s =>
    have hused : s.used = true := by
      have hm := List.find?_some hfound
      rw [RespSlot.matches, Bool.and_eq_true] at hm
      exact hm.1
    have hentry : s.entry = some (s.token, s.keyauth) := if_pos hused
    have hfits := s.keyauth_fits
    rw [Option.bind_some, hentry, Option.map_some]
    constructor
    · intro h
      dsimp only at h
      split at h
      · exact h
      · exact absurd h (Option.some_ne_none _).symm
    · intro h
      have hs : s.keyauth = keyauth := Option.some.inj h
      rw [← hs] at hk
      have hpos := List.length_pos_iff.mpr hk
      dsimp only
      rw [if_pos ⟨hpos, by omega⟩]
      exact h

/-- No slot holds a token that does not fit its buffer. -/
theorem Responder.short_of_mem_keys (h : token ∈ Slots.keys r.table) : token.length < 256 := by
  obtain ⟨s, -, hm⟩ := Responder.mem_keys_iff.mp h
  rw [RespSlot.matches, Bool.and_eq_true] at hm
  rw [← of_decide_eq_true hm.2]
  exact s.token_fits

end Portico.Acme
