/-
  The `strtok` calls of `serve_byteranges` (src/http/connection.c), made by requests that are
  served on different event threads (`ws_server_start_internal` of src/ws/ws_server.c starts one
  thread per index).

  Model. Portico.Lib.SharedTokens, with the loop of `serve_byteranges` for every request: it puts
  the ranges together and leaves early at a spec that is too long and at one part too many. A call
  of `strtok` and the round of the loop that uses its token are one step; the token is not touched
  by other calls, which only write behind it. Only requests that reach the loop are callers.

  Proved: `strtok_exclusive_iff`: the requests collect what they would collect alone and tokenise
  their own buffers only, just if no `strtok` call is made while the loop of another request is
  open, as it is on a single event thread.
-/
import Portico.Http.Static
import Portico.Lib.SharedTokens

namespace Portico.Http

open Portico.Lib Portico.Ws

/-- The loop of `serve_byteranges`; it returns `none` for the whole file. -/
def rangesLoop (total : Int) : TokenLoop UInt8 (List (Int × Int)) (Option (List (Int × Int))) where
  start := []
  onToken parts tok :=
    let spec := ascii "bytes=" ++ tok.dropWhile isBlank
    if 80 ≤ spec.length then .inr none
    else match parseRange spec total with
      | .range s l =>
        if multipartMaxRanges ≤ parts.length then .inr none else .inl (parts ++ [(s, l)])
      | _ => .inl parts
  onEnd parts := some parts

/-- It is the loop over the tokens that one request alone goes through. -/
theorem rangesLoop_result (total : Int) (toks : List Bytes) :
    ∀ parts, (rangesLoop total).result parts toks = collectParts total toks parts := by
  induction toks with
  | nil =>
    intro parts
    rfl
  | cons tok toks ih =>
    intro parts
    rw [TokenLoop.result, collectParts]
    simp only [rangesLoop]
    by_cases hlong : 80 ≤ (ascii "bytes=" ++ tok.dropWhile isBlank).length
    · rw [if_pos hlong, if_pos hlong]
    rw [if_neg hlong, if_neg hlong]
    cases parseRange (ascii "bytes=" ++ tok.dropWhile isBlank) total with
    | range =>
      dsimp only
      by_cases hmany : multipartMaxRanges ≤ parts.length
      · rw [if_pos hmany, if_pos hmany]
      · rw [if_neg hmany, if_neg hmany]
        exact ih _
    | ignored => exact ih _
    | unsatisfiable => exact ih _

theorem tokens_comma (v : Bytes) : Lib.tokens (· == 44) v = commaTokens v := by
  rw [Lib.tokens, commaTokens]
  apply List.filter_congr
  intro tok _
  cases tok <;> rfl

section Requests

variable {ι : Type} (text : ι → Bytes) (total : ι → Int)

/-- What the request collects when it is served alone. -/
def collectedAlone (i : ι) : Option (List (Int × Int)) :=
  collectParts (total i) (commaTokens (text i)) []

theorem aloneResult_eq (i : ι) :
    aloneResult (· == 44) (fun i => rangesLoop (total i)) text i = collectedAlone text total i := by
  rw [aloneResult, rangesLoop_result, tokens_comma]
  rfl

variable [DecidableEq ι]

/-- The next `strtok` call of a request, with the text of its range header and the size of its
    file. -/
def strtokCall : SharedTokens ι UInt8 (List (Int × Int)) (Option (List (Int × Int))) → ι →
    Option (SharedTokens ι UInt8 (List (Int × Int)) (Option (List (Int × Int)))) :=
  nextCall (· == 44) (fun i => rangesLoop (total i)) text

/-- A request that makes all the calls collects what the model of `serve_byteranges` collects; and
    in every interleaving of calls that leaves no loop open, all requests collect what they collect
    alone and tokenise their own buffers only, just if no call is made while the loop of another
    request is open. -/
theorem strtok_exclusive_iff :
    (∀ i, ∃ m w, run (strtokCall text total) SharedTokens.fresh (List.replicate m i) = some w ∧
      w.phase i = .finished (collectedAlone text total i)) ∧
    ∀ calls w, run (strtokCall text total) SharedTokens.fresh calls = some w →
      (∀ i, (w.phase i).isLooping = false) →
      ((∀ i, (∀ r, w.phase i = .finished r → r = collectedAlone text total i) ∧
          ∀ j ∈ w.scanned i, j = i) ↔
        RunMeets (strtokCall text total) Exclusive SharedTokens.fresh calls) := by
  refine ⟨fun i => ?_, fun calls w hrun hclosed => ?_⟩
  · rw [← aloneResult_eq]
    exact solo_run (· == 44) (fun i => rangesLoop (total i)) text i
  · rw [strtokCall, ← own_iff_exclusive hrun hclosed]
    refine ⟨fun h i => (h i).2, fun hown i => ⟨fun r hr => ?_, hown i⟩⟩
    have hex := (own_iff_exclusive hrun hclosed).mp hown
    rw [← aloneResult_eq]
    exact (separate_run hex hrun).finished i r hr

end Requests

/-- Two requests for ranges of a file of 5 bytes. -/
def twoTexts : Bool → Bytes
  | false => ascii "0-0,1-1"
  | true => ascii "2-2,3-3"

/-- One request after the other. -/
theorem strtok_exclusive_iff_serial :
    ∃ w, run (strtokCall twoTexts fun _ => 5) SharedTokens.fresh
        [false, false, false, true, true, true] = some w ∧
      ∀ i, (∀ r, w.phase i = .finished r → r = collectedAlone twoTexts (fun _ => 5) i) ∧
        ∀ j ∈ w.scanned i, j = i := by
  refine ⟨_, rfl, ?_⟩
  apply ((strtok_exclusive_iff twoTexts fun _ => 5).2 [false, false, false, true, true, true] _ rfl
    ?_).mpr
  · decide +kernel
  · decide +kernel

/-- With its first call between two calls of the first request, the second one loses its last range
    to it. -/
theorem interleaved_ranges_mixed :
    (∃ w, run (strtokCall twoTexts fun _ => 5) SharedTokens.fresh
        [false, true, false, false, true] = some w ∧
      w.phase false = .finished (some [(0, 1), (3, 1)]) ∧
      w.phase true = .finished (some [(2, 1)]) ∧ w.scanned false = [false, true, true]) ∧
    collectedAlone twoTexts (fun _ => 5) false = some [(0, 1), (1, 1)] ∧
    collectedAlone twoTexts (fun _ => 5) true = some [(2, 1), (3, 1)] := by
  refine ⟨⟨_, rfl, ?_, ?_, ?_⟩, ?_, ?_⟩ <;> decide +kernel

end Portico.Http
