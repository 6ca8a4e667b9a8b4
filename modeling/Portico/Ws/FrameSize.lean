/-
  The size arithmetic of the frame path, for every `max_message_size` a `size_t` can hold.

  `CompleteFrame` says, in numbers that cannot wrap, that a whole frame the header checks accept
  stands at the front of a buffer. `SizesExact` is what `ws_parse_frame` owes to it: a positive
  result exactly for such a frame, equal to header length plus payload length.

  Proved: `frame_sizes_exact_iff`, the arithmetic is exact for every buffer exactly if the limit
  is at most 2^31 - 15. One above it a frame of 2^31 bytes is reported with a negative length, and
  near 2^64 `hard_max` wraps (`frame_sizes_wrap`).
-/
import Portico.Ws.Codec
import Portico.Ws.Receive

namespace Portico.Ws

/-- A whole acceptable frame stands at the front of `data`: RSV bits 0, masked, its declared
    length within the limit, and all of its bytes there. -/
def CompleteFrame (data : Bytes) (maxLen headerLen payloadLen : Nat) : Prop :=
  ∃ b0 b1 rest lengthEnd, data = b0 :: b1 :: rest ∧ (b0 >>> 4) &&& 0x07 = 0 ∧
    (b1 &&& 0x80 != 0) = true ∧
    declaredLength (b1 &&& 0x7F) data = some (lengthEnd, payloadLen) ∧
    headerLen = lengthEnd + 4 ∧ payloadLen ≤ maxLen ∧ headerLen + payloadLen ≤ data.length

/-- The code `ws_parse_frame` returns is the exact length of the frame at the front, and is
    positive for nothing else. -/
structure SizesExact (simd : SimdPath) (maxLen : Nat) (data : Bytes) : Prop where
  positive : 0 < (wsParseFrame simd data maxLen).1 ↔
    ∃ headerLen payloadLen, CompleteFrame data maxLen headerLen payloadLen
  value : ∀ headerLen payloadLen, CompleteFrame data maxLen headerLen payloadLen →
    (wsParseFrame simd data maxLen).1 = headerLen + payloadLen ∧
      (wsParseFrame simd data maxLen).2.1.headerLen = headerLen ∧
      (wsParseFrame simd data maxLen).2.1.payloadLen = payloadLen

/-- `hard_max` of `handle_websocket_frames`. -/
def hardMax (maxMessageSize capacity : Nat) : Nat :=
  max ((maxMessageSize + 64) % 2 ^ 64) capacity

theorem handleWebsocketFrames_hardMax {σ : Type} (cfg : WsConfig)
    (proc : σ → WsFrame → σ × ProcResult) (turns : List Turn) (s : σ) {buf : RecvBuffer}
    (hcap : buf.capacity ≠ 0) (pending : Bytes) :
    handleWebsocketFrames cfg proc turns s buf pending =
      receiveLoop cfg proc (hardMax cfg.maxMessageSize buf.capacity) turns s buf pending :=
  if_neg hcap

variable {data : Bytes} {maxLen : Nat}

/-- A complete frame is one whose header the parser reads and whose bytes are all there. -/
theorem completeFrame_iff {headerLen payloadLen : Nat} :
    CompleteFrame data maxLen headerLen payloadLen ↔
      ∃ frame, wsParseFrameHeader data maxLen = .parsed frame ∧ frame.headerLen = headerLen ∧
        frame.payloadLen = payloadLen ∧ headerLen + payloadLen ≤ data.length := by
  constructor
  · intro hc
    obtain ⟨b0, b1, rest, lengthEnd, hdata, hrsv, hmask, hdecl, hhead, hlimit, hwhole⟩ := hc
    subst hdata
    simp only [wsParseFrameHeader]
    rw [if_neg (by simp [hrsv]), hmask, hdecl]
    simp only [Bool.not_true, Bool.false_eq_true, if_false]
    rw [if_neg (by omega), if_neg (by omega)]
    exact ⟨_, rfl, hhead.symm, rfl, hwhole⟩
  · intro hc
    obtain ⟨frame, hparse, rfl, rfl, hwhole⟩ := hc
    obtain ⟨b0, b1, rest, lengthEnd, hdata, hrsv, hmask, hdecl, _, _, _, _, hhead, _, hmax, _⟩ :=
      wsParseFrameHeader_bytes hparse
    exact ⟨b0, b1, rest, lengthEnd, hdata, hrsv, hmask, hdecl, hhead, hmax, hwhole⟩

variable {simd : SimdPath}

theorem SizesExact.of_absent
    (habsent : ∀ headerLen payloadLen, ¬ CompleteFrame data maxLen headerLen payloadLen)
    (hcode : (wsParseFrame simd data maxLen).1 ≤ 0) : SizesExact simd maxLen data where
  positive := ⟨fun hpos => absurd hpos (Int.not_lt.mpr hcode),
    fun ⟨headerLen, payloadLen, hc⟩ => absurd hc (habsent headerLen payloadLen)⟩
  value := fun headerLen payloadLen hc => absurd hc (habsent headerLen payloadLen)

theorem SizesExact.of_present {frame : WsFrame}
    (hparse : wsParseFrameHeader data maxLen = .parsed frame)
    (hwhole : frame.headerLen + frame.payloadLen ≤ data.length)
    (hcode : (wsParseFrame simd data maxLen).1 = frame.headerLen + frame.payloadLen)
    (hhead : (wsParseFrame simd data maxLen).2.1.headerLen = frame.headerLen)
    (hpay : (wsParseFrame simd data maxLen).2.1.payloadLen = frame.payloadLen) :
    SizesExact simd maxLen data := by
  have h6 := (wsParseFrameHeader_parsed hparse).1
  refine ⟨⟨fun _ => ?_, fun _ => by omega⟩, ?_⟩
  · exact ⟨_, _, completeFrame_iff.mpr ⟨frame, hparse, rfl, rfl, hwhole⟩⟩
  · intro headerLen payloadLen hc
    obtain ⟨frame', hparse', rfl, rfl, _⟩ := completeFrame_iff.mp hc
    rw [hparse] at hparse'
    cases hparse'
    exact ⟨hcode, hhead, hpay⟩

/-- No overflow of the sum and no truncation of the result for a limit that leaves room for the
    longest header below 2^31. -/
theorem sizesExact_of_le (simd : SimdPath) (hmax : maxLen ≤ 2 ^ 31 - 15) (data : Bytes) :
    SizesExact simd maxLen data := by
  have habsent : (∀ frame, wsParseFrameHeader data maxLen ≠ .parsed frame) →
      ∀ headerLen payloadLen, ¬ CompleteFrame data maxLen headerLen payloadLen := by
    intro hno headerLen payloadLen hc
    obtain ⟨frame, hparse, _⟩ := completeFrame_iff.mp hc
    exact hno frame hparse
  by_cases hne : data = []
  · subst hne
    exact .of_absent (habsent fun _ => HeaderResult.noConfusion) (by simp [wsParseFrame])
  have heq := wsParseFrame_eq simd hmax hne
  cases hparse : wsParseFrameHeader data maxLen with
  | incomplete =>
    rw [hparse] at heq habsent
    exact .of_absent (habsent fun _ => HeaderResult.noConfusion) (by rw [heq])
  | malformed =>
    rw [hparse] at heq habsent
    refine .of_absent (habsent fun _ => HeaderResult.noConfusion) ?_
    rw [heq]
    exact Int.neg_nonpos_of_nonneg (by decide)
  | parsed frame =>
    rw [hparse] at heq
    dsimp only at heq
    by_cases hlen : data.length < frame.headerLen + frame.payloadLen
    · rw [if_pos hlen] at heq
      refine .of_absent ?_ (by rw [heq])
      intro headerLen payloadLen hc
      obtain ⟨frame', hparse', rfl, rfl, hwhole⟩ := completeFrame_iff.mp hc
      rw [hparse] at hparse'
      cases hparse'
      omega
    · rw [if_neg hlen] at heq
      refine .of_present hparse (Nat.le_of_not_lt hlen) ?_ ?_ ?_
      · rw [heq]
        exact Int.natCast_add _ _
      · rw [heq]
        rfl
      · rw [heq]
        rfl

/-- The payload of the shortest frame whose length an `int` cannot hold, which has a header of
    14 bytes. -/
def longPayload : Bytes := List.replicate (2 ^ 31 - 14) 0

def longFrame : Bytes := rfcFrame true 0x2 [0, 0, 0, 0] longPayload

theorem longPayload_length : longPayload.length = 2 ^ 31 - 14 := List.length_replicate

theorem longPayload_header : minimalHeaderLen longPayload.length = 14 := by
  rw [longPayload_length, minimalHeaderLen, lengthField, if_neg (by decide), if_neg (by decide),
    beBytes_length]

theorem longFrame_length : longFrame.length = 2 ^ 31 := by
  rw [longFrame, rfcFrame_length _ _ _ rfl, longPayload_header, longPayload_length]
  omega

theorem toInt32_pow : toInt32 (2 ^ 31) = -2 ^ 31 := by decide

theorem longFrame_header (hmax : 2 ^ 31 - 14 ≤ maxLen) :
    wsParseFrameHeader longFrame maxLen =
      .parsed (rfcHeader true 0x2 [0, 0, 0, 0] longPayload) := by
  have hpay := longPayload_length
  have h := wsParseFrameHeader_rfcFrame true (by decide : (0x2 : UInt8) < 16)
    (rfl : [(0 : UInt8), 0, 0, 0].length = 4) (by omega : longPayload.length ≤ maxLen)
    (by omega) []
  rwa [List.append_nil] at h

theorem longFrame_total : (rfcHeader true 0x2 [0, 0, 0, 0] longPayload).headerLen +
    (rfcHeader true 0x2 [0, 0, 0, 0] longPayload).payloadLen = 2 ^ 31 := by
  have hhead : (rfcHeader true 0x2 [0, 0, 0, 0] longPayload).headerLen = 14 := longPayload_header
  have hlen : (rfcHeader true 0x2 [0, 0, 0, 0] longPayload).payloadLen = 2 ^ 31 - 14 :=
    longPayload_length
  rw [hhead, hlen]
  omega

/-- With a limit that admits the long frame, the parser returns a negative number for it. -/
theorem longFrame_code (simd : SimdPath) (hmax : 2 ^ 31 - 14 ≤ maxLen) :
    (wsParseFrame simd longFrame maxLen).1 = -2 ^ 31 := by
  rw [wsParseFrame_header simd (longFrame_header hmax), longFrame_total,
    Nat.mod_eq_of_lt (by decide), longFrame_length, if_neg (by decide)]
  exact toInt32_pow

theorem longFrame_not_exact (simd : SimdPath) (hmax : 2 ^ 31 - 14 ≤ maxLen) :
    ¬ SizesExact simd maxLen longFrame := by
  intro hexact
  have hpos : 0 < (wsParseFrame simd longFrame maxLen).1 :=
    hexact.positive.mpr ⟨_, _, completeFrame_iff.mpr
      ⟨_, longFrame_header hmax, rfl, rfl, by rw [longFrame_total, longFrame_length]⟩⟩
  rw [longFrame_code simd hmax] at hpos
  exact absurd hpos (by decide)

/-- For every limit a `size_t` can hold: on every receive buffer, and for every capacity, the
    code of `ws_parse_frame` is the exact length of a complete acceptable frame and positive for
    nothing else, and `hard_max` is not below the limit, exactly if the limit is at most
    2^31 - 15. -/
theorem frame_sizes_exact_iff (maxMessageSize : Nat) :
    (∀ (simd : SimdPath) (data : Bytes) (capacity : Nat),
      SizesExact simd maxMessageSize data ∧ maxMessageSize ≤ hardMax maxMessageSize capacity) ↔
    maxMessageSize ≤ 2 ^ 31 - 15 := by
  constructor
  · intro h
    apply Nat.le_of_not_lt
    intro hlarge
    exact longFrame_not_exact .scalar (by omega) (h .scalar longFrame 0).1
  · intro hmax simd data capacity
    refine ⟨sizesExact_of_le simd hmax data, ?_⟩
    unfold hardMax
    rw [Nat.mod_eq_of_lt (by omega)]
    omega

/-- The default limit of 1 MiB, with the initial capacity of 16 KiB. -/
theorem frame_sizes_exact_default :
    SizesExact .avx2 (1024 * 1024) [0x82, 0x82, 1, 2, 3, 4, 0x69, 0x6B] ∧
      1024 * 1024 ≤ hardMax (1024 * 1024) 16384 :=
  (frame_sizes_exact_iff (1024 * 1024)).mpr (by decide) .avx2 _ _

/-- One above the bound a complete frame of 2^31 bytes is reported with a negative length. With the
    largest `size_t` as the limit `hard_max` wraps to 63, below the limit. -/
theorem frame_sizes_wrap :
    ((wsParseFrame .scalar longFrame (2 ^ 31 - 14)).1 = -2 ^ 31 ∧
      ¬ SizesExact .scalar (2 ^ 31 - 14) longFrame) ∧
    hardMax (2 ^ 64 - 1) 16384 < 2 ^ 64 - 1 :=
  ⟨⟨longFrame_code .scalar le_rfl, longFrame_not_exact .scalar le_rfl⟩, by decide⟩

end Portico.Ws
