import Bcachefs.Proofs.Btree.Consts

/-!
# `Bcachefs.Proofs.Btree.FastUnpack`: the byte-aligned unpackers read what the stream reads

On a node whose format ends every field on a byte boundary, `__bch2_bkey_unpack_key_b`
and `__bkey_unpack_pos_b` do not walk the bit stream: each field is one 8-byte load
and one shift, with the constants `btree_node_set_format` recorded, and the header of
the unpacked key is one 32-bit load and one add. The theorems:

* `foldl_unpack_field_fast_set_format`: the six fast reads of a node set to a valid
  format are the six bit-stream reads from the top of the key (`readFields`);
* `unpack_key_b_header`: the header trick. The load starts one byte in front of the
  key, so after the shift its bytes are `u64s`, the format byte and `type`, with a zero
  byte on top for `pad`; adding `BKEY_U64s - key_u64s` to the first and
  `KEY_FORMAT_CURRENT - KEY_FORMAT_LOCAL_BTREE` to the second gives the header
  `__bch2_bkey_unpack_key` writes, as long as the first add does not carry, which is
  what `u64s - key_u64s + BKEY_U64s ≤ U8_MAX` says, and the key is in the node's own
  format, so the second does not reach `needs_whiteout`;
* `__bch2_bkey_unpack_key_b_eq` and `__bkey_unpack_pos_b_eq`: the fast unpackers and
  the bit-stream ones agree, the position on every key and the whole key under the two
  conditions of the header trick.
-/

set_option autoImplicit false
set_option linter.style.nameCheck false

namespace Bcachefs.Proofs.Btree

open Bcachefs.Bits

/-- The position of a key after setting all six fields is the first three values. -/
theorem foldl_bkey_set_field_p (g : Fin 6 → UInt64) (out : bkey) :
    (bkey_fields.foldl (fun out id => bkey_set_field out id (g id)) out).p =
      { inode := g BKEY_FIELD_INODE, offset := g BKEY_FIELD_OFFSET,
        snapshot := (g BKEY_FIELD_SNAPSHOT).toUInt32 } := by
  simp [bkey_fields, bkey_set_field, BKEY_FIELD_INODE, BKEY_FIELD_OFFSET,
    BKEY_FIELD_SNAPSHOT, BKEY_FIELD_SIZE, BKEY_FIELD_VERSION_HI, BKEY_FIELD_VERSION_LO]

/-- `__bkey_unpack_pos` reads the three fields `__bch2_bkey_unpack_key` reads first,
in any format. -/
theorem __bkey_unpack_pos_eq_p (f : bkey_format) (k : bkey_packed) :
    __bkey_unpack_pos f k = (__bch2_bkey_unpack_key f k).p := by
  simp [__bkey_unpack_pos, __bch2_bkey_unpack_key, unpack_key_fields, bkey_fields,
    bkey_set_field, BKEY_FIELD_INODE, BKEY_FIELD_OFFSET, BKEY_FIELD_SNAPSHOT, BKEY_FIELD_SIZE,
    BKEY_FIELD_VERSION_HI, BKEY_FIELD_VERSION_LO]

/-- `__bkey_unpack_pos_b` is the position `__bch2_bkey_unpack_key_b` unpacks, on any
node. -/
theorem __bkey_unpack_pos_b_eq_p (b : btree) (k : bkey_packed) :
    __bkey_unpack_pos_b b k = (__bch2_bkey_unpack_key_b b k).p := by
  unfold __bkey_unpack_pos_b __bch2_bkey_unpack_key_b
  by_cases haligned : b.byte_aligned_fields = true
  · rw [if_neg (by simp [haligned]), if_neg (by simp [haligned])]
    dsimp only
    rw [foldl_bkey_set_field_p]
  · rw [if_pos (by simp [haligned]), if_pos (by simp [haligned])]
    exact __bkey_unpack_pos_eq_p _ _

/-! ### The header trick -/

section Header

variable (k : bkey_packed)

/-- The 32-bit load from the byte in front of the key, shifted down a byte: the key's
bytes `0 .. 2`. -/
theorem toNat_hdr : (get_unaligned_le32 k (-1) >>> 8).toNat = leVal k.bytes 0 3 := by
  have h := leVal_add_div k.bytes (-1) 1 3 0
  rw [show (-1 : Int) + ((1 : Nat) : Int) = 0 by omega, pow_zero, Nat.div_one] at h
  rw [UInt32.toNat_shiftRight, get_unaligned_le32, UInt32.toNat_ofNat',
    Nat.mod_eq_of_lt (leVal_lt _ _ 4)]
  simpa [Nat.shiftRight_eq_div_pow] using h

/-- The constant added to the header: `BKEY_U64s - key_u64s` in byte `0` and
`KEY_FORMAT_CURRENT - KEY_FORMAT_LOCAL_BTREE` in byte `1`. The or is an add, since the
difference of lengths stays in its byte. -/
theorem toNat_hdr_add (n : UInt8) (hn : n.toNat ≤ BKEY_U64s) :
    ((BKEY_U64s.toUInt32 - n.toUInt32) |||
        ((KEY_FORMAT_CURRENT - KEY_FORMAT_LOCAL_BTREE).toUInt32 <<< 8)).toNat =
      BKEY_U64s - n.toNat + 256 := by
  -- one closed fact per packed length
  have hc : ∀ m : Fin 6, ((BKEY_U64s.toUInt32 - (m.val.toUInt8).toUInt32) |||
      ((KEY_FORMAT_CURRENT - KEY_FORMAT_LOCAL_BTREE).toUInt32 <<< 8)).toNat =
        BKEY_U64s - m.val + 256 := by
    decide
  have h := hc ⟨n.toNat, by rw [BKEY_U64s] at hn; omega⟩
  simpa using h

/-- The header after the add, as a number: no byte carries into the next. -/
theorem toNat_unpack_hdr (n : UInt8) (hn : n.toNat ≤ BKEY_U64s) :
    (get_unaligned_le32 k (-1) >>> 8 + ((BKEY_U64s.toUInt32 - n.toUInt32) |||
      ((KEY_FORMAT_CURRENT - KEY_FORMAT_LOCAL_BTREE).toUInt32 <<< 8))).toNat =
      (k.bytes 0).toNat + (BKEY_U64s - n.toNat) + 256 * ((k.bytes 1).toNat + 1) +
        65536 * (k.bytes 2).toNat := by
  have h3 : leVal k.bytes 0 3 =
      (k.bytes 0).toNat + 256 * ((k.bytes 1).toNat + 256 * (k.bytes 2).toNat) := by
    simp only [leVal_succ, leVal_zero]
    norm_num
  have hb0 := (k.bytes 0).toNat_lt
  have hb1 := (k.bytes 1).toNat_lt
  have hb2 := (k.bytes 2).toNat_lt
  rw [UInt32.toNat_add, toNat_hdr, toNat_hdr_add n hn, h3, BKEY_U64s]
  rw [BKEY_U64s] at hn
  omega

/-- The header trick: the four bytes of the sum are the header of the unpacked key, for
a key in the node's format whose length does not carry. -/
theorem unpack_key_b_header (n : UInt8) (hn : n.toNat ≤ BKEY_U64s)
    (hfmt : k.format = KEY_FORMAT_LOCAL_BTREE)
    (hu : k.u64s.toNat + BKEY_U64s - n.toNat ≤ U8_MAX) :
    let hdr := get_unaligned_le32 k (-1) >>> 8 + ((BKEY_U64s.toUInt32 - n.toUInt32) |||
      ((KEY_FORMAT_CURRENT - KEY_FORMAT_LOCAL_BTREE).toUInt32 <<< 8))
    ({ u64s := hdr.toUInt8
       format := BitVec.ofNat 7 ((hdr >>> 8).toUInt8.toNat % 128)
       needs_whiteout := decide (128 ≤ (hdr >>> 8).toUInt8.toNat)
       type := (hdr >>> 16).toUInt8
       pad := (hdr >>> 24).toUInt8
       bversion := ⟨0, 0⟩
       size := 0
       p := ⟨0, 0, 0⟩ } : bkey) =
      { u64s := BKEY_U64s.toUInt8 + k.u64s - n
        format := KEY_FORMAT_CURRENT
        needs_whiteout := k.needs_whiteout
        type := k.type
        pad := 0
        bversion := ⟨0, 0⟩
        size := 0
        p := ⟨0, 0, 0⟩ } := by
  intro hdr
  have hv : hdr.toNat = (k.bytes 0).toNat + (BKEY_U64s - n.toNat) +
      256 * ((k.bytes 1).toNat + 1) + 65536 * (k.bytes 2).toNat := toNat_unpack_hdr k n hn
  have hb0 := (k.bytes 0).toNat_lt
  have hb1 := (k.bytes 1).toNat_lt
  have hb2 := (k.bytes 2).toNat_lt
  -- the format byte is `0` or `128`: only `needs_whiteout` may be set
  simp only [bkey_packed.format, KEY_FORMAT_LOCAL_BTREE] at hfmt
  simp only [bkey_packed.u64s, U8_MAX] at hu
  rw [BKEY_U64s] at hn hu hv
  have hbyte : ∀ s : Nat, s < 32 →
      (hdr >>> s.toUInt32).toUInt8.toNat = hdr.toNat / 2 ^ s % 256 := by
    intro s hs
    rw [UInt32.toNat_toUInt8, UInt32.toNat_shiftRight, Nat.shiftRight_eq_div_pow]
    simp [Nat.mod_eq_of_lt hs]
  have h8 := hbyte 8 (by norm_num)
  have h16 := hbyte 16 (by norm_num)
  have h24 := hbyte 24 (by norm_num)
  simp only [bkey.mk.injEq, and_true]
  refine ⟨?u64s, ?format, ?needs_whiteout, ?type, ?pad⟩
  case u64s =>
    apply UInt8.toNat_inj.mp
    rw [UInt32.toNat_toUInt8, hv, UInt8.toNat_sub, UInt8.toNat_add]
    simp [BKEY_U64s, bkey_packed.u64s]
    omega
  case format =>
    show BitVec.ofNat 7 ((hdr >>> (8 : Nat).toUInt32).toUInt8.toNat % 128) = BitVec.ofNat 7 1
    rw [h8, hv]
    congr 1
    omega
  case needs_whiteout =>
    rw [bkey_packed.needs_whiteout, show ((8 : UInt32)) = (8 : Nat).toUInt32 from rfl, h8, hv]
    simp only [decide_eq_decide]
    omega
  case type =>
    apply UInt8.toNat_inj.mp
    rw [show ((16 : UInt32)) = (16 : Nat).toUInt32 from rfl, h16, hv, bkey_packed.type]
    omega
  case pad =>
    apply UInt8.toNat_inj.mp
    rw [show ((24 : UInt32)) = (24 : Nat).toUInt32 from rfl, h24, hv]
    simp
    omega

end Header

/-! ### A node set to a valid format -/

section Node

variable {f : bkey_format} (hf : FormatValid f) (b : btree) (k : bkey_packed)
include hf

/-- The six fast reads of a node set to a valid format, with `byte_aligned_fields` left
set, are the six bit-stream reads from the top of the key. -/
theorem foldl_unpack_field_fast_set_format
    (haligned : (btree_node_set_format b f).byte_aligned_fields = true) (out : bkey) :
    bkey_fields.foldl (fun out id => bkey_set_field out id
        (unpack_field_fast k ((btree_node_set_format b f).unpack.get id) (f.field_offset.get id))) out =
      readFields f (keyVal k f.key_u64s.toNat) bkey_fields (64 * f.key_u64s.toNat) out := by
  have hroom := hf.room
  rw [formatBits_eq_fieldsBits, KEY_PACKED_BITS_START] at hroom
  exact foldl_unpack_field_fast k _ f _ bkey_fields _ out
    (btree_node_set_format_consts b f hf haligned) (fun i _ => hf.bits_le i) (by omega) le_rfl

/-- The position `__bch2_bkey_unpack_key_b` unpacks is `__bkey_unpack_pos`'s, on every
key, whichever path the node takes. -/
theorem __bch2_bkey_unpack_key_b_p :
    (__bch2_bkey_unpack_key_b (btree_node_set_format b f) k).p = __bkey_unpack_pos f k := by
  rw [__bkey_unpack_pos_eq hf]
  unfold __bch2_bkey_unpack_key_b
  by_cases haligned : (btree_node_set_format b f).byte_aligned_fields = true
  · rw [if_neg (by simp [haligned])]
    simp only [btree_node_set_format_format]
    rw [foldl_unpack_field_fast_set_format hf b k haligned]
    exact readFields_p ..
  · rw [if_pos (by simp [haligned]), btree_node_set_format_format, __bch2_bkey_unpack_key_eq hf]
    exact readFields_p ..

/-- `__bkey_unpack_pos_b` on a node set to a valid format is `__bkey_unpack_pos`. -/
theorem __bkey_unpack_pos_b_eq :
    __bkey_unpack_pos_b (btree_node_set_format b f) k = __bkey_unpack_pos f k := by
  rw [__bkey_unpack_pos_b_eq_p, __bch2_bkey_unpack_key_b_p hf]

/-- `__bch2_bkey_unpack_key_b` on a node set to a valid format writes the key
`__bch2_bkey_unpack_key` writes, for a key in the node's format whose unpacked length
fits its byte. -/
theorem __bch2_bkey_unpack_key_b_eq (hfmt : k.format = KEY_FORMAT_LOCAL_BTREE)
    (hu : k.u64s.toNat + BKEY_U64s - f.key_u64s.toNat ≤ U8_MAX) :
    __bch2_bkey_unpack_key_b (btree_node_set_format b f) k = __bch2_bkey_unpack_key f k := by
  unfold __bch2_bkey_unpack_key_b
  by_cases haligned : (btree_node_set_format b f).byte_aligned_fields = true
  · rw [if_neg (by simp [haligned])]
    simp only [btree_node_set_format_format]
    rw [foldl_unpack_field_fast_set_format hf b k haligned, __bch2_bkey_unpack_key_eq hf]
    -- the fields are read alike: what is left is the header
    congr 1
    exact unpack_key_b_header k f.key_u64s hf.key_u64s_le hfmt hu
  · rw [if_pos (by simp [haligned]), btree_node_set_format_format]

end Node

end Bcachefs.Proofs.Btree
