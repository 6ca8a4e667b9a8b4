/-
  The WebSocket frame codec of src/ws/ws_frame.c.

  Model. A buffer is a list of bytes. `wsParseFrameHeader` and `wsParseFrame` read a frame at
  its front as the C functions do, in the same order of checks; `wsParseFrame` also gives the
  buffer back, because the payload is unmasked in place. Lengths are natural numbers; the two
  places where the C arithmetic can wrap are kept: `total_frame_len` is a `size_t`, and the
  returned length is cast to `int`. `wsUnmaskPayload` has the three code paths of the source
  (AVX2, SSE2, scalar), chosen by a `SimdPath`. The debug and error logs are left out, and so
  is `owns_payload`, which the parser always sets to 0.

  Proved: the three unmasking paths are the byte-wise XOR with the repeated key
  (`wsUnmaskPayload_eq`); for limits up to 2^31 - 15 a result other than "need more" does not
  change when bytes are appended and leaves the bytes behind the frame alone. `frameParser`
  packs this as an incremental parser.
-/
import Mathlib.Tactic.Ring
import Portico.Lib.Incremental

namespace Portico.Ws

open Portico.Lib List

abbrev Bytes := List UInt8

/-- A property of bytes is checked number by number. -/
instance decidableForallByte {P : UInt8 → Prop} [DecidablePred P] : Decidable (∀ b, P b) :=
  decidable_of_iff (∀ n < 256, P (UInt8.ofNat n))
    ⟨fun h b => UInt8.ofNat_toNat (x := b) ▸ h b.toNat b.toNat_lt, fun h _ _ => h _⟩

/-- `ws_frame_t`. -/
structure WsFrame where
  fin : Bool
  opcode : UInt8
  masked : Bool
  payloadLen : Nat
  maskKey : Bytes
  payload : Bytes
  headerLen : Nat
  deriving DecidableEq, Repr

/-- The frame after `memset(frame, 0, sizeof(ws_frame_t))`. -/
def WsFrame.zero : WsFrame :=
  { fin := false, opcode := 0, masked := false, payloadLen := 0, maskKey := [], payload := [],
    headerLen := 0 }

/-- A big-endian number. -/
def beNat (bs : Bytes) : Nat := bs.foldl (fun acc b => acc * 256 + b.toNat) 0

/-- What `ws_parse_frame_header` returns: 0, -1, or the header's length (in the frame). -/
inductive HeaderResult where
  | incomplete
  | malformed
  | parsed (frame : WsFrame)
  deriving DecidableEq, Repr

/-- The header's length without the key, and the payload length it declares, by the 7-bit
    length field; `none` while the extended length has not arrived. -/
def declaredLength (len7 : UInt8) (data : Bytes) : Option (Nat × Nat) :=
  if len7 < 126 then some (2, len7.toNat)
  else if len7 = 126 then
    if data.length < 4 then none else some (4, beNat ((data.drop 2).take 2))
  else
    if data.length < 10 then none else some (10, beNat ((data.drop 2).take 8))

def wsParseFrameHeader (data : Bytes) (maxPayloadLen : Nat) : HeaderResult :=
  match data with
  | b0 :: b1 :: _ =>
    let rsvBits := (b0 >>> 4) &&& 0x07
    let masked := b1 &&& 0x80 != 0
    if rsvBits ≠ 0 then .malformed
    else if !masked then .malformed
    else match declaredLength (b1 &&& 0x7F) data with
      | none => .incomplete
      | some (headerLen, payloadLen) =>
        if maxPayloadLen < payloadLen then .malformed
        else if data.length < headerLen + 4 then .incomplete
        else .parsed
          { fin := b0 &&& 0x80 != 0, opcode := b0 &&& 0x0F, masked := masked
            payloadLen := payloadLen, maskKey := (data.drop headerLen).take 4
            payload := [], headerLen := headerLen + 4 }
  | _ => .incomplete

/-! ## Unmasking -/

/-- The byte of the key that falls on payload position `i` (`mask_key[i & 3]`). -/
def keyByte (maskKey : Bytes) (i : Nat) : UInt8 := maskKey.getD (i % 4) 0

/-- One vector or word XOR: a block of bytes against the key repeated along it. -/
def xorBlock (maskKey : Bytes) (block : Bytes) : Bytes :=
  block.mapIdx fun j b => b ^^^ keyByte maskKey j

/-- `n` blocks of `lane` bytes each, and what stands behind them. -/
def xorBlocks (lane : Nat) (maskKey : Bytes) : Nat → Bytes → Bytes × Bytes
  | 0, payload => ([], payload)
  | n + 1, payload =>
    let (done, rest) := xorBlocks lane maskKey n (payload.drop lane)
    (xorBlock maskKey (payload.take lane) ++ done, rest)

/-- The last 1 to 3 bytes, which start at payload position `start`. -/
def xorTail (maskKey : Bytes) (start : Nat) (tail : Bytes) : Bytes :=
  tail.mapIdx fun j b => b ^^^ keyByte maskKey (start + j)

/-- The two vector paths: blocks of `lane` bytes up to `len & ~(lane - 1)`, 32-bit words up to
    `len & ~3`, then single bytes. -/
def wsUnmaskPayloadVector (lane : Nat) (maskKey payload : Bytes) : Bytes :=
  let len := payload.length
  let (blocks, rest) := xorBlocks lane maskKey (len / lane) payload
  let (words, tail) := xorBlocks 4 maskKey ((len / 4 * 4 - len / lane * lane) / 4) rest
  blocks ++ words ++ xorTail maskKey (len / 4 * 4) tail

def wsUnmaskPayloadAvx2 (maskKey payload : Bytes) : Bytes :=
  wsUnmaskPayloadVector 32 maskKey payload

def wsUnmaskPayloadSse2 (maskKey payload : Bytes) : Bytes :=
  wsUnmaskPayloadVector 16 maskKey payload

def wsUnmaskPayloadScalar (maskKey payload : Bytes) : Bytes :=
  let chunks := payload.length / 4
  let (words, tail) := xorBlocks 4 maskKey chunks payload
  words ++ xorTail maskKey (chunks * 4) tail

/-- What the build and `__builtin_cpu_supports` choose. -/
inductive SimdPath where
  | avx2
  | sse2
  | scalar
  deriving DecidableEq, Repr

def wsUnmaskPayload (simd : SimdPath) (maskKey payload : Bytes) : Bytes :=
  match simd with
  | .avx2 => wsUnmaskPayloadAvx2 maskKey payload
  | .sse2 => wsUnmaskPayloadSse2 maskKey payload
  | .scalar => wsUnmaskPayloadScalar maskKey payload

/-- The RFC 6455 §5.3 masking transformation, byte by byte. -/
def maskBytes (maskKey payload : Bytes) : Bytes :=
  payload.mapIdx fun i b => b ^^^ keyByte maskKey i

theorem keyByte_add_mul (maskKey : Bytes) {lane : Nat} (h4 : 4 ∣ lane) (n j : Nat) :
    keyByte maskKey (n * lane + j) = keyByte maskKey j := by
  obtain ⟨k, rfl⟩ := h4
  unfold keyByte
  rw [show n * (4 * k) + j = j + 4 * (n * k) by ring, Nat.add_mul_mod_self_left]

theorem maskBytes_length (maskKey payload : Bytes) :
    (maskBytes maskKey payload).length = payload.length := length_mapIdx

theorem maskBytes_maskBytes (maskKey payload : Bytes) :
    maskBytes maskKey (maskBytes maskKey payload) = payload := by
  apply ext_getElem
  · rw [maskBytes_length, maskBytes_length]
  · intro i _ _
    simp only [maskBytes, getElem_mapIdx]
    rw [UInt8.xor_assoc, UInt8.xor_self, UInt8.xor_zero]

variable {as : Bytes}

/-- Masking a payload whose first part is whole 4-byte groups is masking the parts. -/
theorem maskBytes_append (maskKey : Bytes) (h4 : 4 ∣ as.length) (bs : Bytes) :
    maskBytes maskKey (as ++ bs) = maskBytes maskKey as ++ maskBytes maskKey bs := by
  unfold maskBytes
  rw [mapIdx_append]
  congr 1
  apply mapIdx_eq_mapIdx_iff.mpr
  intro i hi
  have h := keyByte_add_mul maskKey h4 1 i
  rw [Nat.one_mul] at h
  rw [Nat.add_comm, h]

theorem xorBlocks_eq (lane : Nat) (h4 : 4 ∣ lane) (maskKey : Bytes) :
    ∀ (n : Nat) (payload : Bytes), n * lane ≤ payload.length →
      xorBlocks lane maskKey n payload =
        (maskBytes maskKey (payload.take (n * lane)), payload.drop (n * lane)) := by
  intro n
  induction n with
  | zero => intro payload _; simp [xorBlocks, maskBytes]
  | succ n ih =>
    intro payload hlen
    have hmul : (n + 1) * lane = lane + n * lane := by ring
    have hrest : n * lane ≤ (payload.drop lane).length := by
      rw [length_drop]; omega
    have htake : (payload.take lane).length = lane := by
      rw [length_take]; omega
    simp only [xorBlocks, ih _ hrest]
    rw [hmul, take_add, drop_drop,
      maskBytes_append maskKey (by rw [htake]; exact h4)]
    rfl

theorem xorTail_eq (maskKey : Bytes) {start : Nat} (h4 : 4 ∣ start) (tail : Bytes) :
    xorTail maskKey start tail = maskBytes maskKey tail := by
  unfold xorTail maskBytes
  apply mapIdx_eq_mapIdx_iff.mpr
  intro i _
  have h := keyByte_add_mul maskKey h4 1 i
  rw [Nat.one_mul] at h
  rw [h]

theorem wsUnmaskPayloadScalar_eq (maskKey payload : Bytes) :
    wsUnmaskPayloadScalar maskKey payload = maskBytes maskKey payload := by
  have hle : payload.length / 4 * 4 ≤ payload.length := Nat.div_mul_le_self _ _
  have h4 : 4 ∣ payload.length / 4 * 4 := Nat.dvd_mul_left _ _
  unfold wsUnmaskPayloadScalar
  simp only [xorBlocks_eq 4 (Nat.dvd_refl 4) maskKey _ payload hle, xorTail_eq maskKey h4]
  rw [← maskBytes_append maskKey (by rwa [length_take, Nat.min_eq_left hle]),
    take_append_drop]

theorem wsUnmaskPayloadVector_eq (lane : Nat) (h4 : 4 ∣ lane) (maskKey payload : Bytes) :
    wsUnmaskPayloadVector lane maskKey payload = maskBytes maskKey payload := by
  have hb : payload.length / lane * lane ≤ payload.length := Nat.div_mul_le_self _ _
  have hbd : 4 ∣ payload.length / lane * lane := Nat.dvd_trans h4 (Nat.dvd_mul_left _ _)
  have hw : 4 ∣ payload.length / 4 * 4 := Nat.dvd_mul_left _ _
  -- the words the middle loop takes, counted from the end of the blocks
  have hwords : (payload.length / 4 * 4 - payload.length / lane * lane) / 4 * 4 ≤
      (payload.drop (payload.length / lane * lane)).length := by
    rw [length_drop]; omega
  unfold wsUnmaskPayloadVector
  simp only [xorBlocks_eq lane h4 maskKey _ payload hb,
    xorBlocks_eq 4 (Nat.dvd_refl 4) maskKey _ _ hwords, xorTail_eq maskKey hw]
  rw [append_assoc, ← maskBytes_append maskKey
      (by rw [length_take, Nat.min_eq_left hwords]; exact Nat.dvd_mul_left _ _),
    take_append_drop,
    ← maskBytes_append maskKey (by rwa [length_take, Nat.min_eq_left hb]),
    take_append_drop]

/-- Every code path computes the masking transformation. -/
theorem wsUnmaskPayload_eq (simd : SimdPath) (maskKey payload : Bytes) :
    wsUnmaskPayload simd maskKey payload = maskBytes maskKey payload := by
  cases simd with
  | avx2 => exact wsUnmaskPayloadVector_eq 32 ⟨8, rfl⟩ maskKey payload
  | sse2 => exact wsUnmaskPayloadVector_eq 16 ⟨4, rfl⟩ maskKey payload
  | scalar => exact wsUnmaskPayloadScalar_eq maskKey payload

/-! ## Parsing a frame -/

/-- The cast of a `size_t` to `int`. -/
def toInt32 (n : Nat) : Int := Int.bmod n (2 ^ 32)

/-- The returned code, the frame, and the buffer, whose payload bytes are unmasked in place. -/
def wsParseFrame (simd : SimdPath) (data : Bytes) (maxPayloadLen : Nat) :
    Int × WsFrame × Bytes :=
  if data.length = 0 then (-1, .zero, data)
  else match wsParseFrameHeader data maxPayloadLen with
    | .incomplete => (0, .zero, data)
    | .malformed => (-1, .zero, data)
    | .parsed frame =>
      let totalFrameLen := (frame.headerLen + frame.payloadLen) % 2 ^ 64
      if data.length < totalFrameLen then (0, frame, data)
      else if 0 < frame.payloadLen then
        let payload := wsUnmaskPayload simd frame.maskKey
          ((data.drop frame.headerLen).take frame.payloadLen)
        (toInt32 totalFrameLen, { frame with payload := payload },
          data.take frame.headerLen ++ payload ++
            data.drop (frame.headerLen + frame.payloadLen))
      else (toInt32 totalFrameLen, frame, data)

variable {n maxLen : Nat} {len7 : UInt8} {data : Bytes} {frame : WsFrame} {r : Nat × Nat}

theorem toInt32_of_lt (h : n < 2 ^ 31) : toInt32 n = n := by
  unfold toInt32
  rw [Int.bmod_eq_of_le] <;> omega

theorem drop_take_append {m : Nat} (h : n + m ≤ as.length) (bs : Bytes) :
    ((as ++ bs).drop n).take m = (as.drop n).take m := by
  rw [drop_append_of_le_length (by omega),
    take_append_of_le_length (by rw [length_drop]; omega)]

theorem declaredLength_append (h : declaredLength len7 data = some r) (bs : Bytes) :
    declaredLength len7 (data ++ bs) = some r := by
  unfold declaredLength at h ⊢
  split at h
  · rwa [if_pos ‹_›]
  · rw [if_neg ‹_›]
    split at h <;> split at h
    · cases h
    · rw [if_pos ‹_›, if_neg (by rw [length_append]; omega),
        drop_take_append (by omega), h]
    · cases h
    · rw [if_neg ‹_›, if_neg (by rw [length_append]; omega),
        drop_take_append (by omega), h]

theorem declaredLength_bounds (h : declaredLength len7 data = some r) : 2 ≤ r.1 ∧ r.1 ≤ 10 := by
  unfold declaredLength at h
  split at h
  · cases h; simp
  · split at h <;> split at h <;> cases h <;> simp

theorem declaredLength_none (h : declaredLength len7 data = none) : data.length < 10 := by
  unfold declaredLength at h
  split at h
  · cases h
  · split at h <;> split at h
    · omega
    · cases h
    · omega
    · cases h

/-- The header is decided by the bytes it is read from: an answer other than "incomplete" does
    not change when bytes are appended. -/
theorem wsParseFrameHeader_append (h : wsParseFrameHeader data maxLen ≠ .incomplete) (bs : Bytes) :
    wsParseFrameHeader (data ++ bs) maxLen = wsParseFrameHeader data maxLen := by
  match data with
  | [] => exact absurd rfl h
  | [b0] => exact absurd rfl h
  | b0 :: b1 :: rest =>
    simp only [wsParseFrameHeader, cons_append] at h ⊢
    split
    · rfl
    rename_i hrsv
    rw [if_neg hrsv] at h
    split
    · rfl
    rename_i hmask
    rw [if_neg hmask] at h
    cases hd : declaredLength (b1 &&& 0x7F) (b0 :: b1 :: rest) with
    | none => rw [hd] at h; exact absurd rfl h
    | some r =>
      have hd' := declaredLength_append hd bs
      rw [cons_append, cons_append] at hd'
      rw [hd] at h
      simp only [hd'] at h ⊢
      split
      · rfl
      rename_i hmax
      rw [if_neg hmax] at h
      by_cases hkey : (b0 :: b1 :: rest).length < r.1 + 4
      · rw [if_pos hkey] at h; exact absurd rfl h
      · have hkey' : ¬ (b0 :: b1 :: (rest ++ bs)).length < r.1 + 4 := by
          simp only [length_cons, length_append] at hkey ⊢; omega
        have hk := drop_take_append (n := r.1) (m := 4) (Nat.le_of_not_lt hkey) bs
        rw [cons_append, cons_append] at hk
        rw [if_neg hkey, if_neg hkey', hk]

/-- What an accepted header says about the bytes it was read from. -/
theorem wsParseFrameHeader_bytes (h : wsParseFrameHeader data maxLen = .parsed frame) :
    ∃ b0 b1 rest headerLen,
      data = b0 :: b1 :: rest ∧ (b0 >>> 4) &&& 0x07 = 0 ∧ (b1 &&& 0x80 != 0) = true ∧
      declaredLength (b1 &&& 0x7F) data = some (headerLen, frame.payloadLen) ∧
      headerLen + 4 ≤ data.length ∧ frame.fin = (b0 &&& 0x80 != 0) ∧
      frame.opcode = b0 &&& 0x0F ∧ frame.maskKey = (data.drop headerLen).take 4 ∧
      frame.headerLen = headerLen + 4 ∧ frame.masked = true ∧ frame.payloadLen ≤ maxLen ∧
      frame.payload = [] := by
  match data with
  | [] => cases h
  | [b0] => cases h
  | b0 :: b1 :: rest =>
    simp only [wsParseFrameHeader] at h
    split at h
    · cases h
    rename_i hrsv
    split at h
    · cases h
    rename_i hmask
    cases hd : declaredLength (b1 &&& 0x7F) (b0 :: b1 :: rest) with
    | none => rw [hd] at h; cases h
    | some r =>
      obtain ⟨headerLen, payloadLen⟩ := r
      rw [hd] at h
      simp only at h
      split at h
      · cases h
      rename_i hlimit
      split at h
      · cases h
      rename_i hkey
      cases h
      have hmasked : (b1 &&& 0x80 != 0) = true := by simpa using hmask
      exact ⟨b0, b1, rest, headerLen, rfl, by simpa using hrsv, hmasked, hd,
        Nat.le_of_not_lt hkey, rfl, rfl, rfl, rfl, hmasked, Nat.le_of_not_lt hlimit, rfl⟩

theorem wsParseFrameHeader_parsed (h : wsParseFrameHeader data maxLen = .parsed frame) :
    6 ≤ frame.headerLen ∧ frame.headerLen ≤ 14 ∧ frame.headerLen ≤ data.length ∧
      frame.payloadLen ≤ maxLen ∧ frame.payload = [] ∧ frame.maskKey.length = 4 := by
  obtain ⟨b0, b1, rest, headerLen, _, _, _, hdecl, hlen, _, _, hkey, hhead, _, hmax, hnil⟩ :=
    wsParseFrameHeader_bytes h
  have hbounds : 2 ≤ headerLen ∧ headerLen ≤ 10 := declaredLength_bounds hdecl
  refine ⟨by omega, by omega, by omega, hmax, hnil, ?_⟩
  rw [hkey, length_take, length_drop]
  omega

theorem wsParseFrameHeader_incomplete (h : wsParseFrameHeader data maxLen = .incomplete) :
    data.length < maxLen + 14 := by
  match data with
  | [] => simp
  | [b0] => simp
  | b0 :: b1 :: rest =>
    simp only [wsParseFrameHeader] at h
    split at h
    · cases h
    split at h
    · cases h
    cases hd : declaredLength (b1 &&& 0x7F) (b0 :: b1 :: rest) with
    | none =>
      have := declaredLength_none hd
      omega
    | some =>
      have hr := declaredLength_bounds hd
      rw [hd] at h
      simp only at h
      split at h
      · cases h
      split at h
      · omega
      · cases h

/-! ## The parser on a growing buffer -/

/-- The whole frame as `wsParseFrame` returns it, with the payload unmasked. -/
def WsFrame.unmasked (frame : WsFrame) (data : Bytes) : WsFrame :=
  { frame with payload :=
      maskBytes frame.maskKey ((data.drop frame.headerLen).take frame.payloadLen) }

/-- The buffer with the payload of the frame at its front unmasked. -/
def unmaskedBuffer (frame : WsFrame) (data : Bytes) : Bytes :=
  data.take frame.headerLen ++ (frame.unmasked data).payload ++
    data.drop (frame.headerLen + frame.payloadLen)

/-- A header that is complete. -/
theorem wsParseFrame_header (simd : SimdPath)
    (hh : wsParseFrameHeader data maxLen = .parsed frame) :
    wsParseFrame simd data maxLen =
      if data.length < (frame.headerLen + frame.payloadLen) % 2 ^ 64 then (0, frame, data)
      else (toInt32 ((frame.headerLen + frame.payloadLen) % 2 ^ 64), frame.unmasked data,
        unmaskedBuffer frame data) := by
  obtain ⟨h6, _, hle, _, hnil, _⟩ := wsParseFrameHeader_parsed hh
  unfold wsParseFrame
  rw [if_neg (by omega), hh]
  simp only [wsUnmaskPayload_eq]
  split
  · rfl
  split
  · rfl
  -- an empty payload: the buffer is not touched
  have hzero : frame.payloadLen = 0 := by omega
  have hp : (frame.unmasked data).payload = [] := by
    simp [WsFrame.unmasked, hzero, maskBytes]
  have hf : frame.unmasked data = frame := by
    cases frame
    simp only at hnil hzero
    subst hnil hzero
    simp [WsFrame.unmasked, maskBytes]
  rw [unmaskedBuffer, hp, append_nil, hzero, Nat.add_zero, take_append_drop, hf]

/-- The same for a frame whose length neither wraps nor is cut by the cast to `int`. -/
theorem wsParseFrame_parsed (simd : SimdPath)
    (hh : wsParseFrameHeader data maxLen = .parsed frame)
    (hsmall : frame.headerLen + frame.payloadLen < 2 ^ 31) :
    wsParseFrame simd data maxLen =
      if data.length < frame.headerLen + frame.payloadLen then (0, frame, data)
      else (((frame.headerLen + frame.payloadLen : Nat) : Int), frame.unmasked data,
        unmaskedBuffer frame data) := by
  rw [wsParseFrame_header simd hh, Nat.mod_eq_of_lt (by omega), toInt32_of_lt hsmall]

/-- What `wsParseFrame` does with a buffer that is not empty, when neither the sum of the
    lengths nor its cast to `int` can wrap. -/
theorem wsParseFrame_eq (simd : SimdPath) (hmax : maxLen ≤ 2 ^ 31 - 15) (hne : data ≠ []) :
    wsParseFrame simd data maxLen =
      match wsParseFrameHeader data maxLen with
      | .incomplete => (0, .zero, data)
      | .malformed => (-1, .zero, data)
      | .parsed frame =>
        if data.length < frame.headerLen + frame.payloadLen then (0, frame, data)
        else (((frame.headerLen + frame.payloadLen : Nat) : Int), frame.unmasked data,
          unmaskedBuffer frame data) := by
  have hlen : data.length ≠ 0 := fun h => hne (length_eq_zero_iff.mp h)
  cases hh : wsParseFrameHeader data maxLen with
  | incomplete | malformed => rw [wsParseFrame, if_neg hlen, hh]
  | parsed =>
    obtain ⟨_, h14, _, hpl, _⟩ := wsParseFrameHeader_parsed hh
    exact wsParseFrame_parsed simd hh (by omega)

theorem unmaskedFront_length (frame : WsFrame)
    (h : frame.headerLen + frame.payloadLen ≤ data.length) :
    (data.take frame.headerLen ++ (frame.unmasked data).payload).length =
      frame.headerLen + frame.payloadLen := by
  simp only [WsFrame.unmasked, length_append, maskBytes_length, length_take,
    length_drop]
  omega

/-- The bytes behind the frame are left alone. -/
theorem unmaskedBuffer_drop (frame : WsFrame)
    (h : frame.headerLen + frame.payloadLen ≤ data.length) :
    (unmaskedBuffer frame data).drop (frame.headerLen + frame.payloadLen) =
      data.drop (frame.headerLen + frame.payloadLen) := by
  rw [unmaskedBuffer, ← unmaskedFront_length frame h, drop_left]

theorem unmaskedBuffer_length (frame : WsFrame)
    (h : frame.headerLen + frame.payloadLen ≤ data.length) :
    (unmaskedBuffer frame data).length = data.length := by
  rw [unmaskedBuffer, length_append, unmaskedFront_length frame h, length_drop]
  omega

theorem WsFrame.unmasked_append (frame : WsFrame)
    (h : frame.headerLen + frame.payloadLen ≤ data.length) (bs : Bytes) :
    frame.unmasked (data ++ bs) = frame.unmasked data := by
  unfold WsFrame.unmasked
  rw [drop_take_append h]

/-- What the front of a receive buffer holds, as the frame loop of
    `handle_websocket_frames` reads it. -/
def frameFront (simd : SimdPath) (maxLen : Nat) (data : Bytes) : Front WsFrame :=
  if data = [] then .more
  else
    let (code, frame, _) := wsParseFrame simd data maxLen
    if code < 0 then .bad else if code = 0 then .more else .item code.toNat frame

theorem frameFront_eq (simd : SimdPath) (hmax : maxLen ≤ 2 ^ 31 - 15) (hne : data ≠ []) :
    frameFront simd maxLen data =
      match wsParseFrameHeader data maxLen with
      | .incomplete => .more
      | .malformed => .bad
      | .parsed frame =>
        if data.length < frame.headerLen + frame.payloadLen then .more
        else .item (frame.headerLen + frame.payloadLen) (frame.unmasked data) := by
  unfold frameFront
  rw [if_neg hne, wsParseFrame_eq simd hmax hne]
  cases hh : wsParseFrameHeader data maxLen with
  | incomplete => rfl
  | malformed => rfl
  | parsed =>
    have h6 := (wsParseFrameHeader_parsed hh).1
    simp only
    split
    · rfl
    · simp only
      rw [if_neg (by omega), if_neg (by omega), Int.toNat_natCast]

/-- A buffer that holds a whole frame, and the frame. -/
theorem frameFront_item (simd : SimdPath) (hmax : maxLen ≤ 2 ^ 31 - 15)
    (h : frameFront simd maxLen data = .item n frame) :
    ∃ hdr, wsParseFrameHeader data maxLen = .parsed hdr ∧
      n = hdr.headerLen + hdr.payloadLen ∧ n ≤ data.length ∧ frame = hdr.unmasked data := by
  have hne : data ≠ [] := by
    rintro rfl
    cases h
  rw [frameFront_eq simd hmax hne] at h
  cases hh : wsParseFrameHeader data maxLen with
  | incomplete | malformed => rw [hh] at h; cases h
  | parsed hdr =>
    rw [hh] at h
    simp only at h
    split at h
    · cases h
    · cases h
      exact ⟨hdr, rfl, rfl, by omega, rfl⟩

theorem frameFront_append (simd : SimdPath) (hmax : maxLen ≤ 2 ^ 31 - 15)
    (h : frameFront simd maxLen data ≠ .more) (bs : Bytes) :
    frameFront simd maxLen (data ++ bs) = frameFront simd maxLen data := by
  have hne : data ≠ [] := by
    rintro rfl
    exact h rfl
  have hne' : data ++ bs ≠ [] := by simp [hne]
  rw [frameFront_eq simd hmax hne] at h ⊢
  rw [frameFront_eq simd hmax hne']
  have hinc : wsParseFrameHeader data maxLen ≠ .incomplete := by
    intro hi
    rw [hi] at h
    exact h rfl
  rw [wsParseFrameHeader_append hinc]
  cases hh : wsParseFrameHeader data maxLen with
  | incomplete => exact absurd hh hinc
  | malformed => rfl
  | parsed frame =>
    rw [hh] at h
    simp only at h ⊢
    by_cases hl : data.length < frame.headerLen + frame.payloadLen
    · rw [if_pos hl] at h; exact absurd rfl h
    · have hl' : ¬ (data ++ bs).length < frame.headerLen + frame.payloadLen := by
        rw [length_append]; omega
      rw [if_neg hl, if_neg hl', frame.unmasked_append (Nat.le_of_not_lt hl)]

/-- Bytes that are no whole frame yet are fewer than the longest header and payload. -/
theorem frameFront_more_length (simd : SimdPath) (hmax : maxLen ≤ 2 ^ 31 - 15)
    (h : frameFront simd maxLen data = .more) : data.length < maxLen + 14 := by
  by_cases hne : data = []
  · subst hne; simp
  rw [frameFront_eq simd hmax hne] at h
  cases hh : wsParseFrameHeader data maxLen with
  | incomplete => exact wsParseFrameHeader_incomplete hh
  | malformed => rw [hh] at h; cases h
  | parsed =>
    obtain ⟨_, h14, _, hpl, _⟩ := wsParseFrameHeader_parsed hh
    rw [hh] at h
    simp only at h
    split at h
    · omega
    · cases h

/-- `wsParseFrame` as an incremental parser. -/
def frameParser (simd : SimdPath) (maxLen : Nat) (hmax : maxLen ≤ 2 ^ 31 - 15) :
    IncParser UInt8 WsFrame where
  parse := frameFront simd maxLen
  nil_more := rfl
  item_bounds := by
    intro bs n v h
    obtain ⟨hdr, hh, rfl, hle, _⟩ := frameFront_item simd hmax h
    have h6 := (wsParseFrameHeader_parsed hh).1
    exact ⟨by omega, hle⟩
  stable := fun h cs => frameFront_append simd hmax h cs

/-! ## Encoding -/

/-- The `k` low bytes of `n`, most significant first. -/
def beBytes : Nat → Nat → Bytes
  | 0, _ => []
  | k + 1, n => UInt8.ofNat (n / 256 ^ k) :: beBytes k n

/-- The bytes of an unmasked server frame. -/
def wsEncodeFrame (opcode : UInt8) (payload : Bytes) : Bytes :=
  let payloadLen := payload.length
  let first := 0x80 ||| (opcode &&& 0x0F)
  if payloadLen < 126 then first :: UInt8.ofNat payloadLen :: payload
  else if payloadLen ≤ 0xFFFF then first :: 126 :: (beBytes 2 payloadLen ++ payload)
  else first :: 127 :: (beBytes 8 payloadLen ++ payload)

end Portico.Ws
