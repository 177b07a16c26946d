import Bcachefs.Btree.Pack

/-!
# `Bcachefs.Btree.Node`: a node's format, its unpack constants and the fast paths

A btree node packs its keys in one format. `btree_node_set_format` (`btree/bset.h`)
installs it: it stores the format, the width of the position fields
(`nr_key_bits`), and runs `bch2_compute_bkey_unpack_consts`, which decides whether
every field of the format ends on a byte boundary (`byte_aligned_fields`) and, if
so, records for each field the byte at which an 8-byte little-endian load ends
exactly at the field's top (`byte_offset`, signed: the load may start in front of
the key) and the shift that brings the field down (`shift_right`, `64` for a field
with no bits).

The fast paths read and write fields through those constants instead of walking the
bit stream:

* `unpack_field_fast` / `pack_field_fast`: one unaligned load, one shift;
* `__bch2_bkey_unpack_key_b`: the header by one 32-bit load that starts a byte in
  front of the key and one add, then the six fields;
* `__bkey_unpack_pos_b`: the three position fields;
* `bch2_bkey_pack_pos`: one range check per field, then three `pack_field_fast`;
* `bch2_bkey_pack_pos_lossy`: the underflow roll-up and an overflow cascade in place of
  the range checks, then the same stores.

Each falls back to the bit-stream function of `Btree/Pack.lean` when
`byte_aligned_fields` is clear. `struct btree` has many more members; the model
keeps the ones these functions read.
-/

set_option autoImplicit false
set_option linter.style.nameCheck false

namespace Bcachefs

open Bcachefs.Bits

/-- `struct bkey_unpack_field`. -/
structure bkey_unpack_field where
  byte_offset : Int8
  /-- 64 - bits, or 64 if field has no bits in packed -/
  shift_right : UInt8
deriving DecidableEq, Repr

/-- The members of `struct btree` the key code reads. -/
structure btree where
  nr_key_bits : UInt8
  format : bkey_format
  byte_aligned_fields : Bool
  unpack : Vector bkey_unpack_field 6

/-- The loop of `bch2_compute_bkey_unpack_consts` over the fields `is`, with
`bit_offset` the bit below which the fields seen so far end. It returns the final
`byte_aligned_fields` and `unpack[]`; a field wider than 64 bits or one whose top
bit is not the top bit of a byte clears `byte_aligned_fields` and ends the loop. -/
def compute_unpack_fields (format : bkey_format) :
    List (Fin 6) → UInt32 → Vector bkey_unpack_field 6 → Bool × Vector bkey_unpack_field 6
  | [], _, unpack => (true, unpack)
  | i :: is, bit_offset, unpack =>
      let bits := (format.bits_per_field.get i).toUInt32
      -- sentinel: skip load, return offset
      let unpack := unpack.set i ⟨0, 64⟩ (bkey_field_lt i)
      if bits = 0 then compute_unpack_fields format is bit_offset unpack
      else if bits > 64 then (false, unpack)
      else
        let bit_offset := bit_offset - bits
        let field_msb_bit := bit_offset + bits - 1
        if field_msb_bit % 8 ≠ 7 then (false, unpack)
        else
          -- load 8 bytes ending at the field's MSB byte + 1
          let unpack := unpack.set i
            ⟨((field_msb_bit + 1) / 8 - 8).toUInt8.toInt8, (64 - bits).toUInt8⟩ (bkey_field_lt i)
          compute_unpack_fields format is bit_offset unpack

/-- `bch2_compute_bkey_unpack_consts`, little-endian. -/
def bch2_compute_bkey_unpack_consts (b : btree) : btree :=
  let bit_offset : UInt32 := b.format.key_u64s.toUInt32 * 64
  let (byte_aligned_fields, unpack) :=
    compute_unpack_fields b.format (List.finRange 6) bit_offset b.unpack
  { b with byte_aligned_fields := byte_aligned_fields, unpack := unpack }

/-- `btree_node_set_format`, without the compiled unpack function (compiled unpack
is disabled in the source) and the reset of the lookup tables. -/
def btree_node_set_format (b : btree) (f : bkey_format) : btree :=
  let b := { b with format := f, nr_key_bits := (bkey_format_key_bits f).toUInt8 }
  bch2_compute_bkey_unpack_consts b

attribute [grind] compute_unpack_fields

/-! ### Fast paths -/

/-- `unpack_field_fast`. -/
def unpack_field_fast (bytes : bkey_packed) (uf : bkey_unpack_field) (offset : UInt64) :
    UInt64 :=
  if uf.shift_right = 64 then offset
  else
    let raw := get_unaligned_le64 bytes uf.byte_offset.toInt
    -- field ends at top of register; shr brings it to bit 0 cleanly
    (raw >>> uf.shift_right.toUInt64) + offset

/-- `pack_field_fast`: or `v` into the field's bits of the same 8-byte window. -/
def pack_field_fast (bytes : bkey_packed) (uf : bkey_unpack_field) (v : UInt64) :
    bkey_packed :=
  let raw := get_unaligned_le64 bytes uf.byte_offset.toInt
  let raw := raw ||| (v <<< (uf.shift_right &&& 63).toUInt64)
  put_unaligned_le64 bytes raw uf.byte_offset.toInt

/-- `__bch2_bkey_unpack_key_b`, little-endian. The header is one 32-bit load from the
byte in front of the key, shifted down a byte, plus `BKEY_U64s - key_u64s` in byte `0`
and `KEY_FORMAT_CURRENT - KEY_FORMAT_LOCAL_BTREE` in byte `1`; its four bytes are
`u64s`, the format byte, `type` and `pad`. -/
def __bch2_bkey_unpack_key_b (b : btree) (in_ : bkey_packed) : bkey :=
  if !b.byte_aligned_fields then __bch2_bkey_unpack_key b.format in_
  else
    let hdr : UInt32 := get_unaligned_le32 in_ (-1) >>> 8
    let hdr := hdr + ((BKEY_U64s.toUInt32 - b.format.key_u64s.toUInt32) |||
      ((KEY_FORMAT_CURRENT - KEY_FORMAT_LOCAL_BTREE).toUInt32 <<< 8))
    let out : bkey :=
      { u64s := hdr.toUInt8
        format := BitVec.ofNat 7 ((hdr >>> 8).toUInt8.toNat % 128)
        needs_whiteout := decide (128 ≤ (hdr >>> 8).toUInt8.toNat)
        type := (hdr >>> 16).toUInt8
        pad := (hdr >>> 24).toUInt8
        bversion := ⟨0, 0⟩
        size := 0
        p := ⟨0, 0, 0⟩ }
    bkey_fields.foldl
      (fun out id => bkey_set_field out id
        (unpack_field_fast in_ (b.unpack.get id) (b.format.field_offset.get id)))
      out

/-- `__bkey_unpack_pos_b`, little-endian. -/
def __bkey_unpack_pos_b (b : btree) (in_ : bkey_packed) : bpos :=
  if !b.byte_aligned_fields then __bkey_unpack_pos b.format in_
  else
    { inode := unpack_field_fast in_ (b.unpack.get BKEY_FIELD_INODE)
        (b.format.field_offset.get BKEY_FIELD_INODE)
      offset := unpack_field_fast in_ (b.unpack.get BKEY_FIELD_OFFSET)
        (b.format.field_offset.get BKEY_FIELD_OFFSET)
      snapshot := (unpack_field_fast in_ (b.unpack.get BKEY_FIELD_SNAPSHOT)
        (b.format.field_offset.get BKEY_FIELD_SNAPSHOT)).toUInt32 }

/-- `bch2_bkey_pack_pos`: on a byte-aligned format, one range check per field (an
offset above the value wraps the difference to a value too wide for the field), then
the zeroed key words, three `pack_field_fast` and the header; otherwise
`__bch2_bkey_pack_pos_exact`. -/
def bch2_bkey_pack_pos (out : bkey_packed) (in_ : bpos) (b : btree) : Bool × bkey_packed :=
  let f := b.format
  if b.byte_aligned_fields then
    let i_v := in_.inode - f.field_offset.get BKEY_FIELD_INODE
    let o_v := in_.offset - f.field_offset.get BKEY_FIELD_OFFSET
    let s_v := in_.snapshot.toUInt64 - f.field_offset.get BKEY_FIELD_SNAPSHOT
    let fail := decide (fls64 i_v > (f.bits_per_field.get BKEY_FIELD_INODE).toNat) ||
      decide (fls64 o_v > (f.bits_per_field.get BKEY_FIELD_OFFSET).toNat) ||
      decide (fls64 s_v > (f.bits_per_field.get BKEY_FIELD_SNAPSHOT).toNat)
    if fail then (false, out)
    else
      let out := zero_words out f.key_u64s.toNat
      let out := pack_field_fast out (b.unpack.get BKEY_FIELD_INODE) i_v
      let out := pack_field_fast out (b.unpack.get BKEY_FIELD_OFFSET) o_v
      let out := pack_field_fast out (b.unpack.get BKEY_FIELD_SNAPSHOT) s_v
      let out := set_u64s out f.key_u64s
      let out := set_format out KEY_FORMAT_LOCAL_BTREE
      let out := set_type out KEY_TYPE_deleted
      (true, out)
  else __bch2_bkey_pack_pos_exact out in_ f

attribute [grind] __bch2_bkey_unpack_key_b bch2_bkey_pack_pos

/-! ### Lossy packing -/

/-- `__bch2_bkey_pack_pos_lossy`: pack a position rounded down to one the node's format
holds. After the roll-up, `set_inc_field_lossy` packs each field; a field it clamps raises
the fields below it to their largest value. -/
def __bch2_bkey_pack_pos_lossy (out : bkey_packed) (in_ : bpos) (b : btree) :
    bkey_pack_pos_ret × bkey_packed :=
  let f := b.format
  let state := pack_state_init f
  let out := zero_words out f.key_u64s.toNat
  match pack_pos_roll_up f in_ with
  | none => (.BKEY_PACK_POS_FAIL, out)
  | some (in_, exact) =>
      let (ok, state, out) := set_inc_field_lossy out state BKEY_FIELD_INODE in_.inode
      let (in_, exact) :=
        if ok then (in_, exact)
        else ({ in_ with offset := KEY_OFFSET_MAX, snapshot := KEY_SNAPSHOT_MAX }, false)
      let (ok, state, out) := set_inc_field_lossy out state BKEY_FIELD_OFFSET in_.offset
      let (in_, exact) :=
        if ok then (in_, exact) else ({ in_ with snapshot := KEY_SNAPSHOT_MAX }, false)
      let (ok, state, out) :=
        set_inc_field_lossy out state BKEY_FIELD_SNAPSHOT in_.snapshot.toUInt64
      let exact := exact && ok
      let out := pack_state_finish state out
      let out := set_u64s out f.key_u64s
      let out := set_format out KEY_FORMAT_LOCAL_BTREE
      let out := set_type out KEY_TYPE_deleted
      (if exact then .BKEY_PACK_POS_EXACT else .BKEY_PACK_POS_SMALLER, out)

/-- `bch2_bkey_pack_pos_lossy`: on a byte-aligned format, the roll-up, then the overflow
cascade (a field above its range takes its largest value, and so does every field below
it), then three `pack_field_fast` and the header; otherwise `__bch2_bkey_pack_pos_lossy`.
A roll-up that fails returns before the key is touched. -/
def bch2_bkey_pack_pos_lossy (out : bkey_packed) (in_ : bpos) (b : btree) :
    bkey_pack_pos_ret × bkey_packed :=
  let f := b.format
  if b.byte_aligned_fields then
    match pack_pos_roll_up f in_ with
    | none => (.BKEY_PACK_POS_FAIL, out)
    | some (in_, exact) =>
        let i_v := in_.inode - f.field_offset.get BKEY_FIELD_INODE
        let o_v := in_.offset - f.field_offset.get BKEY_FIELD_OFFSET
        let s_v := in_.snapshot.toUInt64 - f.field_offset.get BKEY_FIELD_SNAPSHOT
        let i_bits := (f.bits_per_field.get BKEY_FIELD_INODE).toNat
        let o_bits := (f.bits_per_field.get BKEY_FIELD_OFFSET).toNat
        let s_bits := (f.bits_per_field.get BKEY_FIELD_SNAPSHOT).toNat
        let (i_v, o_v, s_v, exact) :=
          if fls64 i_v > i_bits then
            (u64_bitmask i_bits, u64_bitmask o_bits, u64_bitmask s_bits, false)
          else if fls64 o_v > o_bits then (i_v, u64_bitmask o_bits, u64_bitmask s_bits, false)
          else if fls64 s_v > s_bits then (i_v, o_v, u64_bitmask s_bits, false)
          else (i_v, o_v, s_v, exact)
        let out := zero_words out f.key_u64s.toNat
        let out := pack_field_fast out (b.unpack.get BKEY_FIELD_INODE) i_v
        let out := pack_field_fast out (b.unpack.get BKEY_FIELD_OFFSET) o_v
        let out := pack_field_fast out (b.unpack.get BKEY_FIELD_SNAPSHOT) s_v
        let out := set_u64s out f.key_u64s
        let out := set_format out KEY_FORMAT_LOCAL_BTREE
        let out := set_type out KEY_TYPE_deleted
        (if exact then .BKEY_PACK_POS_EXACT else .BKEY_PACK_POS_SMALLER, out)
  else __bch2_bkey_pack_pos_lossy out in_ b

/-- `bkey_unpack_pos`: the position of a key of the node, packed or not. -/
def bkey_unpack_pos (b : btree) (src : bkey_packed) : bpos :=
  if src.is_packed then __bkey_unpack_pos_b b src else (bkey_cast src).p

attribute [grind] bch2_bkey_pack_pos_lossy

end Bcachefs
