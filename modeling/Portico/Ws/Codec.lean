/-
  The frame codec against RFC 6455.

  `rfcFrame` is the encoding of a masked frame in RFC 6455 §5.2, with the payload length in the
  shortest of its three forms. `maskFrame` is what a client does to the bytes of
  `ws_encode_frame` to send them.

  Proved: `encoded_frame_parses_back`, the parser reads every frame of the encoder, masked, back
  with its opcode, key and payload and leaves what follows it alone; `parsed_bytes_canonical`, a
  frame that is accepted stands in the buffer in its RFC encoding exactly if its length field has
  the shortest form and the frame is below 2^31 bytes (`CanonicalLength`). The parser does not
  check the form: `long_length_form_accepted`.
-/
import Portico.Ws.Frame

namespace Portico.Ws

open List

/-! ## Big-endian numbers -/

theorem beBytes_length (k n : Nat) : (beBytes k n).length = k := by
  induction k with
  | zero => rfl
  | succ k ih => rw [beBytes, length_cons, ih]

theorem foldl_be (bs : Bytes) (acc : Nat) :
    bs.foldl (fun acc b => acc * 256 + b.toNat) acc = acc * 256 ^ bs.length + beNat bs := by
  induction bs generalizing acc with
  | nil => simp [beNat]
  | cons b bs ih =>
    rw [beNat, foldl_cons, foldl_cons, ih, ih (0 * 256 + b.toNat), length_cons]
    ring

theorem beNat_cons (b : UInt8) (bs : Bytes) :
    beNat (b :: bs) = b.toNat * 256 ^ bs.length + beNat bs := by
  rw [beNat, foldl_cons, foldl_be, Nat.zero_mul, Nat.zero_add]

theorem beNat_lt (bs : Bytes) : beNat bs < 256 ^ bs.length := by
  induction bs with
  | nil => simp [beNat]
  | cons b bs =>
    have hb : b.toNat < 256 := b.toNat_lt
    calc beNat (b :: bs) = b.toNat * 256 ^ bs.length + beNat bs := beNat_cons b bs
      _ < (b.toNat + 1) * 256 ^ bs.length := by rw [Nat.succ_mul]; omega
      _ ≤ 256 * 256 ^ bs.length := Nat.mul_le_mul_right _ hb
      _ = 256 ^ (b :: bs).length := by rw [length_cons, Nat.pow_succ, Nat.mul_comm]

/-- The bytes above the `k` low ones do not matter. -/
theorem beBytes_add_mul (k a n : Nat) : beBytes k (a * 256 ^ k + n) = beBytes k n := by
  induction k generalizing a with
  | zero => rfl
  | succ k ih =>
    have hpow : 0 < 256 ^ k := Nat.pow_pos (by decide)
    have hsplit : a * 256 ^ (k + 1) + n = a * 256 * 256 ^ k + n := by ring
    rw [beBytes, beBytes, hsplit, ih, Nat.mul_comm (a * 256), Nat.mul_add_div hpow]
    congr 1
    apply UInt8.toNat.inj
    simp only [UInt8.toNat_ofNat', Nat.reducePow]
    omega

variable {n maxLen : Nat} {maskKey payload data buffer : Bytes} {opcode : UInt8} {simd : SimdPath}
  {code : Int} {frame : WsFrame}

theorem beNat_beBytes {k : Nat} (h : n < 256 ^ k) : beNat (beBytes k n) = n := by
  induction k generalizing n with
  | zero => simp [beBytes, beNat] at h ⊢; omega
  | succ k ih =>
    have hpow : 0 < 256 ^ k := Nat.pow_pos (by decide)
    have hdiv : n / 256 ^ k < 256 := by
      rw [Nat.div_lt_iff_lt_mul hpow]
      rwa [Nat.pow_succ, Nat.mul_comm] at h
    have hmod := ih (Nat.mod_lt n hpow)
    have hlow : beBytes k n = beBytes k (n % 256 ^ k) := by
      conv => lhs; rw [← Nat.div_add_mod n (256 ^ k), Nat.mul_comm]
      exact beBytes_add_mul k _ _
    rw [beBytes, beNat_cons, beBytes_length, hlow, hmod, UInt8.toNat_ofNat_of_lt' hdiv,
      Nat.mul_comm, Nat.div_add_mod]

/-- A declared length is of 64 bits. -/
theorem declaredLength_lt {len7 : UInt8} {headerLen payloadLen : Nat}
    (h : declaredLength len7 data = some (headerLen, payloadLen)) : payloadLen < 2 ^ 64 := by
  have hle (k : Nat) : beNat ((data.drop 2).take k) < 256 ^ k :=
    (beNat_lt _).trans_le (Nat.pow_le_pow_right (by decide) (length_take_le _ _))
  have h7 := len7.toNat_lt
  unfold declaredLength at h
  split at h
  · cases h
    omega
  · split at h <;> split at h <;> cases h
    · exact (hle 2).trans (by decide)
    · exact hle 8

theorem beBytes_beNat (bs : Bytes) : beBytes bs.length (beNat bs) = bs := by
  induction bs with
  | nil => rfl
  | cons b bs ih =>
    have hpow : 0 < 256 ^ bs.length := Nat.pow_pos (by decide)
    have hlt := beNat_lt bs
    rw [length_cons, beBytes, beNat_cons, beBytes_add_mul, ih, Nat.mul_comm,
      Nat.mul_add_div hpow, Nat.div_eq_of_lt hlt, Nat.add_zero, UInt8.ofNat_toNat]

/-! ## The encoding of RFC 6455 -/

/-- The length field in its shortest form: the 7 bits of the second byte, and the bytes of the
    extended length. -/
def lengthField (n : Nat) : UInt8 × Bytes :=
  if n < 126 then (UInt8.ofNat n, [])
  else if n ≤ 0xFFFF then (126, beBytes 2 n)
  else (127, beBytes 8 n)

/-- A masked frame with RSV bits 0. -/
def rfcFrame (fin : Bool) (opcode : UInt8) (maskKey payload : Bytes) : Bytes :=
  let (len7, extended) := lengthField payload.length
  ((if fin then 0x80 else 0) ||| opcode) :: (0x80 ||| len7) ::
    (extended ++ maskKey ++ maskBytes maskKey payload)

/-- The length of the header of `rfcFrame`. -/
def minimalHeaderLen (payloadLen : Nat) : Nat := 6 + (lengthField payloadLen).2.length

/-- How many bytes of extended length follow the second byte. -/
def extendedLen (len7 : UInt8) : Nat :=
  if len7 < 126 then 0 else if len7 = 126 then 2 else 8

/-- A client's version of a server frame: the mask bit set, the key put behind the length field
    and the payload masked. -/
def maskFrame (maskKey : Bytes) : Bytes → Bytes
  | b0 :: b1 :: rest =>
    let n := extendedLen (b1 &&& 0x7F)
    b0 :: (b1 ||| 0x80) :: (rest.take n ++ maskKey ++ maskBytes maskKey (rest.drop n))
  | short => short

/-! ## The two header bytes -/

theorem firstByte_of_parts : ∀ (fin : Bool) (opcode : UInt8), opcode < 16 →
    ((((if fin then 0x80 else 0) ||| opcode) >>> 4) &&& 0x07 = 0) ∧
      (((if fin then 0x80 else 0) ||| opcode) &&& 0x80 != 0) = fin ∧
      ((if fin then 0x80 else 0) ||| opcode) &&& 0x0F = opcode := by
  decide +kernel

theorem firstByte_parts : ∀ b : UInt8, (b >>> 4) &&& 0x07 = 0 →
    b = (if (b &&& 0x80 != 0) then 0x80 else 0) ||| (b &&& 0x0F) ∧ b &&& 0x0F < 16 := by
  decide +kernel

theorem secondByte_of_parts : ∀ len7 : UInt8, len7 < 128 →
    ((0x80 ||| len7) &&& 0x80 != 0) = true ∧ (0x80 ||| len7) &&& 0x7F = len7 := by
  decide +kernel

theorem secondByte_parts : ∀ b : UInt8, (b &&& 0x80 != 0) = true →
    b = 0x80 ||| (b &&& 0x7F) ∧ b &&& 0x7F < 128 := by
  decide +kernel

/-! ## Parsing an encoded frame -/

theorem lengthField_lt : (lengthField n).1 < 128 := by
  unfold lengthField
  split
  · rename_i h
    rw [UInt8.lt_iff_toNat_lt, UInt8.toNat_ofNat_of_lt' (Nat.lt_trans h (by decide))]
    show n < 128
    omega
  · split
    · exact (by decide : (126 : UInt8) < 128)
    · exact (by decide : (127 : UInt8) < 128)

/-- The length field is read back, whatever follows it. -/
theorem declaredLength_lengthField (hn : n < 2 ^ 64) (b0 b1 : UInt8) (rest : Bytes) :
    declaredLength (lengthField n).1 (b0 :: b1 :: ((lengthField n).2 ++ rest)) =
      some (2 + (lengthField n).2.length, n) := by
  have hext : ∀ k, ((b0 :: b1 :: (beBytes k n ++ rest)).drop 2).take k = beBytes k n := by
    intro k
    show (beBytes k n ++ rest).take k = beBytes k n
    rw [take_left' (beBytes_length k n)]
  unfold lengthField
  split
  · rename_i h
    have hnat : (UInt8.ofNat n).toNat = n := UInt8.toNat_ofNat_of_lt' (Nat.lt_trans h (by decide))
    have hlt : UInt8.ofNat n < 126 := by
      rw [UInt8.lt_iff_toNat_lt, hnat]
      exact h
    simp only [declaredLength, if_pos hlt, hnat, length_nil, Nat.add_zero]
  · split
    · rename_i hle
      simp only [declaredLength]
      rw [if_neg (by decide), if_pos trivial, if_neg (by simp [beBytes_length]), hext,
        beNat_beBytes (by omega), beBytes_length]
    · simp only [declaredLength]
      rw [if_neg (by decide), if_neg (by decide), if_neg (by simp [beBytes_length]), hext,
        beNat_beBytes (by omega), beBytes_length]

theorem rfcFrame_length (fin : Bool) (opcode : UInt8) (payload : Bytes)
    (hkey : maskKey.length = 4) :
    (rfcFrame fin opcode maskKey payload).length =
      minimalHeaderLen payload.length + payload.length := by
  simp only [rfcFrame, minimalHeaderLen, length_cons, length_append, maskBytes_length,
    hkey]
  omega

/-- The header of an encoded frame, as the parser returns it. -/
def rfcHeader (fin : Bool) (opcode : UInt8) (maskKey payload : Bytes) : WsFrame :=
  { fin := fin, opcode := opcode, masked := true, payloadLen := payload.length
    maskKey := maskKey, payload := [], headerLen := minimalHeaderLen payload.length }

/-- The header of an encoded frame is read back. -/
theorem wsParseFrameHeader_rfcFrame (fin : Bool) (hop : opcode < 16) (hkey : maskKey.length = 4)
    (hlen : payload.length ≤ maxLen) (hsmall : payload.length < 2 ^ 64) (trailing : Bytes) :
    wsParseFrameHeader (rfcFrame fin opcode maskKey payload ++ trailing) maxLen =
      .parsed (rfcHeader fin opcode maskKey payload) := by
  obtain ⟨hrsv, hfin, hopcode⟩ := firstByte_of_parts fin opcode hop
  obtain ⟨hmask, hlen7⟩ := secondByte_of_parts (lengthField payload.length).1 lengthField_lt
  have hshape : rfcFrame fin opcode maskKey payload ++ trailing =
      ((if fin then 0x80 else 0) ||| opcode) :: (0x80 ||| (lengthField payload.length).1) ::
        ((lengthField payload.length).2 ++
          (maskKey ++ (maskBytes maskKey payload ++ trailing))) := by
    simp [rfcFrame]
  have hhead : minimalHeaderLen payload.length = 2 + (lengthField payload.length).2.length + 4 := by
    unfold minimalHeaderLen
    omega
  have hdecl := declaredLength_lengthField hsmall ((if fin then 0x80 else 0) ||| opcode)
    (0x80 ||| (lengthField payload.length).1) (maskKey ++ (maskBytes maskKey payload ++ trailing))
  -- the key stands right behind the extended length
  have hkeyAt : (((((if fin then 0x80 else 0) ||| opcode) ::
      (0x80 ||| (lengthField payload.length).1) :: ((lengthField payload.length).2 ++
        (maskKey ++ (maskBytes maskKey payload ++ trailing))) : Bytes).drop
          (2 + (lengthField payload.length).2.length)).take 4) = maskKey := by
    rw [Nat.add_comm, drop_succ_cons, drop_succ_cons, drop_left,
      take_left' hkey]
  rw [hshape]
  simp only [wsParseFrameHeader]
  rw [if_neg (by simp [hrsv]), hmask, hlen7, hdecl]
  simp only [Bool.not_true, Bool.false_eq_true, if_false]
  rw [if_neg (by omega), if_neg (by simp [hkey]; omega), hkeyAt, hfin, hopcode, ← hhead]
  rfl

/-- An encoded frame at the front of a buffer is parsed as a whole, and what stands behind it
    stays. -/
theorem wsParseFrame_rfcFrame (simd : SimdPath) (fin : Bool) (hop : opcode < 16)
    (hkey : maskKey.length = 4) (hlen : payload.length ≤ maxLen) (hmax : maxLen ≤ 2 ^ 31 - 15)
    (trailing : Bytes) :
    ∃ frame buffer,
      wsParseFrame simd (rfcFrame fin opcode maskKey payload ++ trailing) maxLen =
        (((rfcFrame fin opcode maskKey payload).length : Int), frame, buffer) ∧
      frame.fin = fin ∧ frame.opcode = opcode ∧ frame.maskKey = maskKey ∧
      frame.payload = payload ∧
      buffer.drop (rfcFrame fin opcode maskKey payload).length = trailing := by
  have hh := wsParseFrameHeader_rfcFrame fin hop hkey hlen (by omega) trailing
  have htotal := rfcFrame_length fin opcode payload hkey
  have h14 : minimalHeaderLen payload.length ≤ 14 := (wsParseFrameHeader_parsed hh).2.1
  have hsum : (rfcHeader fin opcode maskKey payload).headerLen +
      (rfcHeader fin opcode maskKey payload).payloadLen =
        (rfcFrame fin opcode maskKey payload).length := htotal.symm
  have hfits : (rfcHeader fin opcode maskKey payload).headerLen +
      (rfcHeader fin opcode maskKey payload).payloadLen ≤
        (rfcFrame fin opcode maskKey payload ++ trailing).length := by
    rw [hsum, length_append]
    omega
  have hparse := wsParseFrame_parsed simd hh (by omega)
  have hbuf := unmaskedBuffer_drop _ hfits
  rw [if_neg (Nat.not_lt.mpr hfits), hsum] at hparse
  rw [hsum, drop_left] at hbuf
  refine ⟨_, _, hparse, rfl, rfl, rfl, ?_, hbuf⟩
  -- the payload bytes are the last ones of the frame
  have hpay : ((rfcFrame fin opcode maskKey payload ++ trailing).drop
      (minimalHeaderLen payload.length)).take payload.length = maskBytes maskKey payload := by
    have hsplit : rfcFrame fin opcode maskKey payload ++ trailing =
        (((if fin then 0x80 else 0) ||| opcode) :: (0x80 ||| (lengthField payload.length).1) ::
          ((lengthField payload.length).2 ++ maskKey)) ++
            (maskBytes maskKey payload ++ trailing) := by
      simp [rfcFrame]
    rw [hsplit, drop_left' (by simp [minimalHeaderLen, hkey]; omega),
      take_left' (maskBytes_length _ _)]
  show maskBytes maskKey (((rfcFrame fin opcode maskKey payload ++ trailing).drop
    (minimalHeaderLen payload.length)).take payload.length) = payload
  rw [hpay, maskBytes_maskBytes]

/-- Masking what the encoder produces gives the RFC encoding of the client frame. -/
theorem maskFrame_wsEncodeFrame (hop : opcode < 16) (maskKey : Bytes) (payload : Bytes) :
    maskFrame maskKey (wsEncodeFrame opcode payload) = rfcFrame true opcode maskKey payload := by
  have hand : opcode &&& 0x0F = opcode :=
    (by decide +kernel : ∀ b : UInt8, b < 16 → b &&& 0x0F = b) opcode hop
  have hext : ∀ k, (beBytes k payload.length ++ payload).take k = beBytes k payload.length ∧
      (beBytes k payload.length ++ payload).drop k = payload := fun k =>
    ⟨take_left' (beBytes_length _ _), drop_left' (beBytes_length _ _)⟩
  unfold wsEncodeFrame rfcFrame lengthField
  simp only [hand]
  split
  · rename_i h
    have hnat : (UInt8.ofNat payload.length).toNat = payload.length :=
      UInt8.toNat_ofNat_of_lt' (Nat.lt_trans h (by decide))
    have h7 : ∀ b : UInt8, b < 126 → extendedLen (b &&& 0x7F) = 0 ∧ b ||| 0x80 = 0x80 ||| b := by
      decide +kernel
    obtain ⟨h0, hor⟩ := h7 (UInt8.ofNat payload.length) (by
      rw [UInt8.lt_iff_toNat_lt, hnat]
      exact h)
    simp [maskFrame, h0, hor]
  · split
    · have h2 : extendedLen (126 &&& 0x7F) = 2 := by decide
      simp only [maskFrame, h2, hext]
      rfl
    · have h8 : extendedLen (127 &&& 0x7F) = 8 := by decide
      simp only [maskFrame, h8, hext]
      rfl

/-- For every opcode, payload, key and trailing bytes, and for every code path of the unmasking:
    what `ws_encode_frame` produces, masked by the client, is parsed as one final frame of its
    whole length with that opcode, key and payload, and the trailing bytes stay. -/
theorem encoded_frame_parses_back (simd : SimdPath) (opcode : UInt8) (hop : opcode < 16)
    (payload maskKey trailing : Bytes) (maxPayloadLen : Nat)
    (hlen : payload.length ≤ maxPayloadLen) (hmax : maxPayloadLen ≤ 2 ^ 31 - 15)
    (hkey : maskKey.length = 4) :
    ∃ frame buffer,
      wsParseFrame simd (maskFrame maskKey (wsEncodeFrame opcode payload) ++ trailing)
          maxPayloadLen =
        (((maskFrame maskKey (wsEncodeFrame opcode payload)).length : Int), frame, buffer) ∧
      frame.fin = true ∧ frame.opcode = opcode ∧ frame.maskKey = maskKey ∧
      frame.payload = payload ∧
      buffer.drop (maskFrame maskKey (wsEncodeFrame opcode payload)).length = trailing := by
  rw [maskFrame_wsEncodeFrame hop]
  exact wsParseFrame_rfcFrame simd true hop hkey hlen hmax trailing

/-- A binary frame `05 06 07` under the key `01 02 03 04`, with two bytes behind it. -/
theorem encoded_frame_parses_back_binary :
    maskFrame [1, 2, 3, 4] (wsEncodeFrame 2 [5, 6, 7]) =
        [0x82, 0x83, 1, 2, 3, 4, 4, 4, 4] ∧
      ∃ frame buffer,
        wsParseFrame .sse2 (maskFrame [1, 2, 3, 4] (wsEncodeFrame 2 [5, 6, 7]) ++ [9, 9]) 125 =
          (((maskFrame [1, 2, 3, 4] (wsEncodeFrame 2 [5, 6, 7])).length : Int), frame, buffer) ∧
        frame.fin = true ∧ frame.opcode = 2 ∧ frame.maskKey = [1, 2, 3, 4] ∧
        frame.payload = [5, 6, 7] ∧
        buffer.drop (maskFrame [1, 2, 3, 4] (wsEncodeFrame 2 [5, 6, 7])).length = [9, 9] :=
  ⟨by decide, encoded_frame_parses_back .sse2 2 (by decide) [5, 6, 7] [1, 2, 3, 4] [9, 9] 125
    (by decide) (by decide) (by decide)⟩

/-! ## Accepted bytes -/

/-- The length at the front of `data` is written in its shortest form and, with the header, is
    below 2^31. Only the 64-bit form can reach that. -/
def CanonicalLength : Bytes → Prop
  | _ :: b1 :: rest =>
    if b1 &&& 0x7F < 126 then True
    else if b1 &&& 0x7F = 126 then 126 ≤ beNat (rest.take 2)
    else 65536 ≤ beNat (rest.take 8) ∧ beNat (rest.take 8) + 14 < 2 ^ 31
  | _ => False

instance : DecidablePred CanonicalLength
  | _ :: _ :: _ => by unfold CanonicalLength; infer_instance
  | [_] => isFalse id
  | [] => isFalse id

theorem minimalHeaderLen_eq (n : Nat) :
    minimalHeaderLen n = if n < 126 then 6 else if n ≤ 0xFFFF then 8 else 14 := by
  unfold minimalHeaderLen lengthField
  split
  · rfl
  · split <;> rw [beBytes_length]

variable {b0 b1 : UInt8} {rest : Bytes} {headerLen payloadLen : Nat}

/-- A canonical length is the length field of its value. -/
theorem CanonicalLength.lengthField (hc : CanonicalLength (b0 :: b1 :: rest))
    (h7 : b1 &&& 0x7F < 128)
    (hd : declaredLength (b1 &&& 0x7F) (b0 :: b1 :: rest) = some (headerLen, payloadLen)) :
    lengthField payloadLen = (b1 &&& 0x7F, rest.take (headerLen - 2)) ∧
      headerLen + 4 + payloadLen < 2 ^ 31 := by
  -- the extended length, of which all bytes are there
  have hback {k : Nat} (hk : 2 + k ≤ (b0 :: b1 :: rest).length) :
      beBytes k (beNat (rest.take k)) = rest.take k ∧ beNat (rest.take k) < 256 ^ k := by
    have hlen : (rest.take k).length = k := by
      simp only [length_cons] at hk
      rw [length_take]
      omega
    have hbytes := beBytes_beNat (rest.take k)
    have hlt := beNat_lt (rest.take k)
    rw [hlen] at hbytes hlt
    exact ⟨hbytes, hlt⟩
  simp only [CanonicalLength] at hc
  unfold declaredLength at hd
  unfold Ws.lengthField
  split at hd
  · rename_i hlt
    cases hd
    have hnat : (b1 &&& 0x7F).toNat < 126 := UInt8.lt_iff_toNat_lt.mp hlt
    rw [if_pos hnat, UInt8.ofNat_toNat]
    exact ⟨rfl, by omega⟩
  rw [if_neg ‹_›] at hc
  split at hd
  · rename_i h126
    rw [if_pos h126] at hc
    split at hd
    · cases hd
    cases hd
    simp only [drop_succ_cons, drop_zero]
    obtain ⟨hbytes, hlt⟩ := hback (k := 2) (by omega)
    rw [if_neg (by omega), if_pos (by omega), hbytes, h126]
    exact ⟨rfl, by omega⟩
  · rename_i h126
    rw [if_neg h126] at hc
    split at hd
    · cases hd
    cases hd
    have h127 : b1 &&& 0x7F = 127 :=
      (by decide +kernel : ∀ b : UInt8, b < 128 → ¬ b < 126 → b ≠ 126 → b = 127) _ h7 ‹_› h126
    simp only [drop_succ_cons, drop_zero]
    rw [if_neg (by omega), if_neg (by omega), (hback (k := 8) (by omega)).1, h127]
    exact ⟨rfl, by omega⟩

/-- A length whose header is as short as the payload allows is canonical. -/
theorem canonicalLength_of_minimal
    (hd : declaredLength (b1 &&& 0x7F) (b0 :: b1 :: rest) = some (headerLen, payloadLen))
    (hmin : headerLen + 4 = minimalHeaderLen payloadLen)
    (hsmall : headerLen + 4 + payloadLen < 2 ^ 31) : CanonicalLength (b0 :: b1 :: rest) := by
  rw [minimalHeaderLen_eq] at hmin
  simp only [CanonicalLength]
  unfold declaredLength at hd
  split at hd
  · rw [if_pos ‹_›]
    trivial
  rw [if_neg ‹_›]
  split at hd
  · rw [if_pos ‹_›]
    split at hd
    · cases hd
    cases hd
    simp only [drop_succ_cons, drop_zero] at hmin
    split at hmin
    · omega
    · omega
  · rw [if_neg ‹_›]
    split at hd
    · cases hd
    cases hd
    simp only [drop_succ_cons, drop_zero] at hmin hsmall
    split at hmin
    · omega
    · split at hmin <;> omega

/-- A frame that is returned with a positive code; the code is its length, unless the cast to
    `int` cuts that. -/
theorem wsParseFrame_positive (h : wsParseFrame simd data maxLen = (code, frame, buffer))
    (hpos : 0 < code) :
    ∃ hdr, wsParseFrameHeader data maxLen = .parsed hdr ∧ frame = hdr.unmasked data ∧
      code < 2 ^ 31 ∧ (hdr.headerLen + hdr.payloadLen < 2 ^ 31 →
        code.toNat = hdr.headerLen + hdr.payloadLen ∧
          hdr.headerLen + hdr.payloadLen ≤ data.length) := by
  cases hh : wsParseFrameHeader data maxLen with
  | incomplete | malformed =>
    simp only [wsParseFrame, hh] at h
    split at h <;> cases h <;> exact absurd hpos (by decide)
  | parsed hdr =>
    rw [wsParseFrame_header simd hh] at h
    split at h
    · cases h
      exact absurd hpos (by decide)
    rename_i hle
    simp only [Prod.mk.injEq] at h
    obtain ⟨rfl, rfl, -⟩ := h
    refine ⟨hdr, rfl, rfl, Int.bmod_lt (by decide), fun hsmall => ?_⟩
    rw [Nat.mod_eq_of_lt (by omega)] at hle ⊢
    exact ⟨by rw [toInt32_of_lt hsmall, Int.toNat_natCast], Nat.le_of_not_lt hle⟩

/-- The bytes of an accepted frame are its RFC encoding exactly if its length is canonical. -/
theorem accepted_eq_rfcFrame_iff (h : wsParseFrame simd data maxLen = (code, frame, buffer))
    (hpos : 0 < code) :
    data.take code.toNat = rfcFrame frame.fin frame.opcode frame.maskKey frame.payload ↔
      CanonicalLength data := by
  obtain ⟨hdr, hh, rfl, hcast, hcode⟩ := wsParseFrame_positive h hpos
  obtain ⟨-, -, -, hmax, -, hkey⟩ := wsParseFrameHeader_parsed hh
  obtain ⟨b0, b1, rest, headerLen, rfl, hrsv, hmask, hd, hroom, hfin, hop, hkeyAt, hhl, -, -, -⟩ :=
    wsParseFrameHeader_bytes hh
  obtain ⟨hb0, hop16⟩ := firstByte_parts b0 hrsv
  obtain ⟨hb1, h7⟩ := secondByte_parts b1 hmask
  have hpaylen : (hdr.unmasked (b0 :: b1 :: rest)).payload.length ≤ hdr.payloadLen := by
    simp only [WsFrame.unmasked, maskBytes_length, length_take]
    omega
  constructor
  · intro heq
    -- what is parsed is an encoding, and so its header is that of the encoding
    have hback := wsParseFrameHeader_rfcFrame hdr.fin (hop ▸ hop16) hkey
      (hpaylen.trans hmax) (hpaylen.trans_lt (declaredLength_lt hd))
      ((b0 :: b1 :: rest).drop code.toNat)
    have hlen := (congrArg List.length heq).trans (rfcFrame_length _ _ _ hkey)
    rw [length_take] at hlen
    rw [show rfcFrame hdr.fin hdr.opcode hdr.maskKey _ = _ from heq.symm, take_append_drop,
      hh] at hback
    have hsame := HeaderResult.parsed.inj hback
    have hpay : hdr.payloadLen = (hdr.unmasked (b0 :: b1 :: rest)).payload.length :=
      congrArg WsFrame.payloadLen hsame
    have hhead : hdr.headerLen = minimalHeaderLen hdr.payloadLen := by
      rw [hpay]
      exact congrArg WsFrame.headerLen hsame
    refine canonicalLength_of_minimal hd (hhl ▸ hhead) ?_
    rw [← hpay, ← hhead, hhl] at hlen
    omega
  · intro hc
    obtain ⟨hfield, hsmall⟩ := hc.lengthField h7 hd
    obtain ⟨hcode, hle⟩ := hcode (hhl ▸ hsmall)
    have hpaylen : (hdr.unmasked (b0 :: b1 :: rest)).payload.length = hdr.payloadLen := by
      simp only [WsFrame.unmasked, maskBytes_length, length_take, length_drop]
      omega
    obtain ⟨k, rfl⟩ : ∃ k, headerLen = k + 2 :=
      ⟨headerLen - 2, (Nat.sub_add_cancel (declaredLength_bounds hd).1).symm⟩
    simp only [length_cons] at hroom hle
    -- the buffer from the second byte on: extended length, key, masked payload
    have hmasked : maskBytes hdr.maskKey (hdr.unmasked (b0 :: b1 :: rest)).payload =
        (rest.drop (k + 4)).take hdr.payloadLen := by
      show maskBytes hdr.maskKey (maskBytes hdr.maskKey _) = _
      rw [maskBytes_maskBytes, hhl]
      rfl
    have hrest : rest.take (k + 4 + hdr.payloadLen) =
        rest.take k ++ hdr.maskKey ++ (rest.drop (k + 4)).take hdr.payloadLen := by
      rw [hkeyAt, take_add, take_add]
      rfl
    rw [hcode, rfcFrame, hpaylen, hfield]
    show (b0 :: b1 :: rest).take (hdr.headerLen + hdr.payloadLen) =
      ((if hdr.fin then 0x80 else 0) ||| hdr.opcode) :: (0x80 ||| (b1 &&& 0x7F)) ::
        (rest.take (k + 2 - 2) ++ hdr.maskKey ++
          maskBytes hdr.maskKey (hdr.unmasked (b0 :: b1 :: rest)).payload)
    rw [hmasked, hfin, hop, ← hb0, ← hb1, hhl,
      show k + 2 + 4 + hdr.payloadLen = k + 4 + hdr.payloadLen + 2 by omega,
      take_succ_cons, take_succ_cons, hrest]
    rfl

/-- For every buffer on which the parser returns `n > 0`: RSV bits are 0 and the frame is masked,
    and the first `n` bytes are the RFC encoding of the frame (with the shortest length form)
    exactly if the length in the buffer is canonical; and two buffers with such lengths whose
    frames agree in FIN, opcode, key and payload have the same bytes there. -/
theorem parsed_bytes_canonical (simd : SimdPath) (data : Bytes) (maxLen : Nat) (code : Int)
    (frame : WsFrame) (buffer : Bytes)
    (h : wsParseFrame simd data maxLen = (code, frame, buffer)) (hpos : 0 < code) :
    (frame.opcode < 16 ∧ frame.masked = true ∧
      (data.take code.toNat = rfcFrame frame.fin frame.opcode frame.maskKey frame.payload ↔
        CanonicalLength data)) ∧
    ∀ (simd' : SimdPath) (data' : Bytes) (maxLen' : Nat) (code' : Int) (frame' : WsFrame)
      (buffer' : Bytes), wsParseFrame simd' data' maxLen' = (code', frame', buffer') →
      0 < code' → CanonicalLength data → CanonicalLength data' →
      frame'.fin = frame.fin → frame'.opcode = frame.opcode →
      frame'.maskKey = frame.maskKey → frame'.payload = frame.payload →
      data'.take code'.toNat = data.take code.toNat := by
  obtain ⟨hdr, hh, hframe, -⟩ := wsParseFrame_positive h hpos
  obtain ⟨b0, b1, _, _, _, hrsv, _, _, _, _, hop, _, _, hmasked, _⟩ :=
    wsParseFrameHeader_bytes hh
  have hopcode : frame.opcode < 16 := by
    rw [hframe]
    show hdr.opcode < 16
    rw [hop]
    exact (firstByte_parts b0 hrsv).2
  refine ⟨⟨hopcode, ?_, accepted_eq_rfcFrame_iff h hpos⟩, ?_⟩
  · rw [hframe]
    exact hmasked
  · intro simd' data' maxLen' code' frame' buffer' h' hpos' hc hc' hfin hop' hkey hpay
    rw [(accepted_eq_rfcFrame_iff h hpos).mpr hc, (accepted_eq_rfcFrame_iff h' hpos').mpr hc',
      hfin, hop', hkey, hpay]

/-- The two-byte frame `hi` under the key `01 02 03 04`. -/
theorem parsed_bytes_canonical_hi :
    let frame : WsFrame := { fin := true, opcode := 2, masked := true, payloadLen := 2
                             maskKey := [1, 2, 3, 4], payload := [0x68, 0x69], headerLen := 6 }
    wsParseFrame .scalar [0x82, 0x82, 1, 2, 3, 4, 0x69, 0x6B] 125 =
        (8, frame, [0x82, 0x82, 1, 2, 3, 4, 0x68, 0x69]) ∧
      [0x82, 0x82, 1, 2, 3, 4, 0x69, 0x6B] =
        rfcFrame frame.fin frame.opcode frame.maskKey frame.payload :=
  ⟨by decide, (parsed_bytes_canonical .scalar [0x82, 0x82, 1, 2, 3, 4, 0x69, 0x6B] 125 8 _
    [0x82, 0x82, 1, 2, 3, 4, 0x68, 0x69] (by decide) (by decide)).1.2.2.mpr (by decide)⟩

/-- The same payload with its length 2 in the 16-bit form is accepted too: the bytes are not the
    encoding of the frame, and two byte strings parse to the same frame. -/
theorem long_length_form_accepted :
    let short : Bytes := [0x82, 0x82, 1, 2, 3, 4, 0x69, 0x6B]
    let long : Bytes := [0x82, 0xFE, 0, 2, 1, 2, 3, 4, 0x69, 0x6B]
    (wsParseFrame .scalar short 125).1 = 8 ∧ (wsParseFrame .scalar long 125).1 = 10 ∧
      let f := (wsParseFrame .scalar short 125).2.1
      let g := (wsParseFrame .scalar long 125).2.1
      (g.fin, g.opcode, g.maskKey, g.payload) = (f.fin, f.opcode, f.maskKey, f.payload) ∧
      long.take 10 ≠ rfcFrame g.fin g.opcode g.maskKey g.payload ∧
      long.take 10 ≠ short.take 8 := by
  decide

end Portico.Ws
