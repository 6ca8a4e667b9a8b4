/-
  The unmasking loops of src/ws/ws_frame.c at the level of 32-bit words.

  Model. Portico.Ws.Frame gives the effect of a vector or word XOR on the bytes of a block
  (`xorBlock`). Here is the operation itself on a little-endian machine: the block is loaded as
  32-bit words, `mask32` is the key loaded the same way, each word is XORed with it (a vector
  register holds `mask32` in every lane), and the words are stored.

  Proved: `xorBlock_eq_xorWords`, the two are the same; `unmask_paths_agree`, all three paths are
  the XOR with the repeated key, byte by byte, and each undoes each.
-/
import Portico.Ws.Frame

namespace Portico.Ws

/-- A load of four bytes as a `uint32_t`. -/
def loadLe (b0 b1 b2 b3 : UInt8) : UInt32 :=
  UInt32.ofNat (b0.toNat + 2 ^ 8 * b1.toNat + 2 ^ 16 * b2.toNat + 2 ^ 24 * b3.toNat)

/-- The store of a `uint32_t`. -/
def storeLe (w : UInt32) : Bytes :=
  [w.toUInt8, (w >>> 8).toUInt8, (w >>> 16).toUInt8, (w >>> 24).toUInt8]

/-- The words of a block, each XORed with `mask32`. -/
def xorWords (mask32 : UInt32) : Bytes → Bytes
  | b0 :: b1 :: b2 :: b3 :: rest =>
    storeLe (loadLe b0 b1 b2 b3 ^^^ mask32) ++ xorWords mask32 rest
  | _ => []

theorem storeLe_loadLe (b0 b1 b2 b3 : UInt8) :
    storeLe (loadLe b0 b1 b2 b3) = [b0, b1, b2, b3] := by
  have h0 : b0.toNat < 2 ^ 8 := b0.toNat_lt
  have h1 : b1.toNat < 2 ^ 8 := b1.toNat_lt
  have h2 : b2.toNat < 2 ^ 8 := b2.toNat_lt
  have h3 : b3.toNat < 2 ^ 8 := b3.toNat_lt
  have hbyte : ∀ {a b : UInt8}, a.toNat = b.toNat → a = b := UInt8.toNat_inj.mp
  unfold storeLe loadLe
  congr 1
  · apply hbyte
    simp
  congr 1
  · apply hbyte
    simp [Nat.shiftRight_eq_div_pow]
    omega
  congr 1
  · apply hbyte
    simp [Nat.shiftRight_eq_div_pow]
    omega
  congr 1
  · apply hbyte
    simp [Nat.shiftRight_eq_div_pow]
    omega

/-- A word XOR is the XOR of the bytes. -/
theorem storeLe_xor (v w : UInt32) :
    storeLe (v ^^^ w) = List.zipWith (· ^^^ ·) (storeLe v) (storeLe w) := by
  unfold storeLe
  simp [UInt32.shiftRight_xor]

theorem xorBlock_eq_xorWords (k0 k1 k2 k3 : UInt8) :
    ∀ block : Bytes, 4 ∣ block.length →
      xorBlock [k0, k1, k2, k3] block = xorWords (loadLe k0 k1 k2 k3) block := by
  intro block
  induction block using xorWords.induct with
  | case1 b0 b1 b2 b3 rest ih =>
    intro h4
    have hrest : 4 ∣ rest.length := (Nat.dvd_add_left (Nat.dvd_refl 4)).mp h4
    have hword : 4 ∣ [b0, b1, b2, b3].length := Nat.dvd_refl 4
    rw [xorWords, storeLe_xor, storeLe_loadLe, storeLe_loadLe, ← ih hrest]
    exact maskBytes_append [k0, k1, k2, k3] hword rest
  | case2 block hshort =>
    intro h4
    match block, hshort, h4 with
    | [], _, _ => rfl
    | [_], _, h4 => simp at h4
    | [_, _], _, h4 => simp at h4
    | [_, _, _], _, h4 => simp at h4
    | b0 :: b1 :: b2 :: b3 :: rest, hshort, _ => exact absurd rfl (hshort b0 b1 b2 b3 rest)

theorem keyByte_ofFn (k : Fin 4 → UInt8) (i : Nat) :
    keyByte (List.ofFn k) i = k (Fin.ofNat 4 i) := by
  unfold keyByte
  rw [List.getD_eq_getElem?_getD, List.getElem?_ofFn, dif_pos (Nat.mod_lt i (by decide))]
  rfl

/-- For every payload and key: the i-th byte that each of the three paths leaves is the i-th byte
    of the payload XORed with byte i mod 4 of the key, and each path undoes each. The blocks that
    the loops XOR are what the 32-bit words do. -/
theorem unmask_paths_agree (k : Fin 4 → UInt8) (payload : Bytes) :
    let masked := payload.mapIdx fun i b => b ^^^ k (Fin.ofNat 4 i)
    wsUnmaskPayloadAvx2 (List.ofFn k) payload = masked ∧
      wsUnmaskPayloadSse2 (List.ofFn k) payload = masked ∧
      wsUnmaskPayloadScalar (List.ofFn k) payload = masked ∧
      (∀ first second, wsUnmaskPayload second (List.ofFn k)
        (wsUnmaskPayload first (List.ofFn k) payload) = payload) ∧
      ∀ block, 4 ∣ block.length →
        xorBlock (List.ofFn k) block = xorWords (loadLe (k 0) (k 1) (k 2) (k 3)) block := by
  intro masked
  have hmasked : maskBytes (List.ofFn k) payload = masked := by
    unfold maskBytes
    simp only [keyByte_ofFn, masked]
  refine ⟨?_, ?_, ?_, fun first second => ?_, fun block h4 => ?_⟩
  · exact (wsUnmaskPayload_eq .avx2 _ payload).trans hmasked
  · exact (wsUnmaskPayload_eq .sse2 _ payload).trans hmasked
  · exact (wsUnmaskPayload_eq .scalar _ payload).trans hmasked
  · rw [wsUnmaskPayload_eq, wsUnmaskPayload_eq, maskBytes_maskBytes]
  · exact xorBlock_eq_xorWords (k 0) (k 1) (k 2) (k 3) block h4

/-- The masked "Hello" of RFC 6455 §5.7. -/
theorem unmask_paths_agree_hello :
    let k : Fin 4 → UInt8 := fun i => [0x37, 0xfa, 0x21, 0x3d].getD i 0
    let hello : Bytes := [0x48, 0x65, 0x6c, 0x6c, 0x6f]
    wsUnmaskPayloadAvx2 (List.ofFn k) hello = [0x7f, 0x9f, 0x4d, 0x51, 0x58] ∧
      wsUnmaskPayload .scalar (List.ofFn k) (wsUnmaskPayload .sse2 (List.ofFn k) hello) = hello ∧
      xorWords (loadLe 0x37 0xfa 0x21 0x3d) [0x48, 0x65, 0x6c, 0x6c] =
        [0x7f, 0x9f, 0x4d, 0x51] := by
  intro k hello
  obtain ⟨havx2, _, _, hundo, hwords⟩ := unmask_paths_agree k hello
  refine ⟨havx2.trans (by decide), hundo .sse2 .scalar, ?_⟩
  exact (hwords [0x48, 0x65, 0x6c, 0x6c] (by decide)).symm.trans (by decide)

end Portico.Ws
