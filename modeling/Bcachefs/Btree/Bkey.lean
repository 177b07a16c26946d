import Bcachefs.Bits.LeBytes

/-!
# `Bcachefs.Btree.Bkey`: keys, positions and packed formats

The data model of `fs/bcachefs_format.h` and `fs/btree/bkey.h` that the packing code
reads and writes.

* `bpos`, `bversion`, `bkey`: the unpacked key, field for field, with the C widths
  (`__u64`, `__u32`, the 7-bit `format` bitfield).
* `bkey_packed`: a key as the code reaches it through a `struct bkey_packed *`, the
  memory seen from that pointer. Its header is bytes `0`, `1` and `2` (`u64s`, the
  `format:7, needs_whiteout:1` byte, `type`); the packed fields are the words
  `0 .. key_u64s - 1` read most significant word first. The model is the
  little-endian layout, where `high_word_offset` is `key_u64s - 1` and
  `high_bit_offset` is `0`.
* `bkey_format`, `bch2_bkey_format_current`, `bch2_bkey_format_field_overflows` and
  `bch2_bkey_format_invalid`, the format a btree node packs its keys in and the
  check every format passes before it is used.
* `bkey_field` / `bkey_set_field`: the `bkey_fields()` x-macro table, the six
  fields in the order the packing code streams them.
* `bpos_cmp`, the order of the btree.

Fixed-width integers are `UInt8`, `UInt32` and `UInt64` where the code's
arithmetic on them can wrap; bit counts and loop counters that stay far below
their type's range are `Nat`.
-/

set_option autoImplicit false

namespace Bcachefs

open Bcachefs.Bits

/-! ### Constants -/

/-- `sizeof(struct bkey) / sizeof(__u64)`: the unpacked key is 40 bytes. -/
def BKEY_U64s : Nat := 5

def U8_MAX : Nat := 255

def KEY_PACKED_BITS_START : Nat := 24

def KEY_FORMAT_LOCAL_BTREE : Nat := 0

def KEY_FORMAT_CURRENT : Nat := 1

def BKEY_NR_FIELDS : Nat := 6

/-- Numerals of `Fin 6`, the field indices, through this instance: a numeral then holds
a constant where `NeZero.succ` would leave a proof term of its own. -/
@[instance] theorem bkey_nr_fields_ne_zero : NeZero (6 : Nat) := ⟨by decide⟩

/-- The `bch_bkey_fields` enumeration, as the array index the code uses it as. -/
def BKEY_FIELD_INODE : Fin 6 := 0
def BKEY_FIELD_OFFSET : Fin 6 := 1
def BKEY_FIELD_SNAPSHOT : Fin 6 := 2
def BKEY_FIELD_SIZE : Fin 6 := 3
def BKEY_FIELD_VERSION_HI : Fin 6 := 4
def BKEY_FIELD_VERSION_LO : Fin 6 := 5

/-- A field is in bounds of every per-field array (`bits_per_field`, `field_offset`,
`field_min`, `unpack`): the bound `Vector.set` takes, once for all writes. -/
theorem bkey_field_lt (i : Fin 6) : (i : Nat) < 6 := i.isLt

/-- `KEY_TYPE_deleted`, the type the position packers give their keys. -/
def KEY_TYPE_deleted : UInt8 := 0

/-- `KEY_OFFSET_MAX`, `(__u64)~0ULL`. -/
def KEY_OFFSET_MAX : UInt64 := ~~~0

/-- `KEY_SNAPSHOT_MAX`, `(__u32)~0U`. -/
def KEY_SNAPSHOT_MAX : UInt32 := ~~~0

/-! ### Unpacked keys -/

structure bpos where
  inode : UInt64
  offset : UInt64
  snapshot : UInt32
deriving DecidableEq, Repr

structure bversion where
  hi : UInt32
  lo : UInt64
deriving DecidableEq, Repr

/-- `struct bkey`. `format` is the 7-bit bitfield sharing a byte with
`needs_whiteout`; `pad` is `pad[0]`. -/
structure bkey where
  u64s : UInt8
  format : BitVec 7
  needs_whiteout : Bool
  type : UInt8
  pad : UInt8
  bversion : bversion
  size : UInt32
  p : bpos
deriving DecidableEq, Repr

/-- `cmp_int(l, r)`: `1`, `0` or `-1`. -/
def cmp_int {α : Type} [LT α] [DecidableLT α] (l r : α) : Int :=
  (if r < l then 1 else 0) - (if l < r then 1 else 0)

/-- `bpos_cmp`: inode, then offset, then snapshot (each `cmp_int ?: …`). -/
def bpos_cmp (l r : bpos) : Int :=
  let c := cmp_int l.inode r.inode
  if c ≠ 0 then c else
  let c := cmp_int l.offset r.offset
  if c ≠ 0 then c else
  cmp_int l.snapshot r.snapshot

/-- The value of field `id` as the packing code reads it: `in->field`, widened to
`u64` (the `bkey_fields()` table). -/
def bkey_field (k : bkey) (id : Fin 6) : UInt64 :=
  match id with
  | 0 => k.p.inode
  | 1 => k.p.offset
  | 2 => k.p.snapshot.toUInt64
  | 3 => k.size.toUInt64
  | 4 => k.bversion.hi.toUInt64
  | 5 => k.bversion.lo

/-- `out->field = v`: the assignment truncates to the field's own width. -/
def bkey_set_field (k : bkey) (id : Fin 6) (v : UInt64) : bkey :=
  match id with
  | 0 => { k with p := { k.p with inode := v } }
  | 1 => { k with p := { k.p with offset := v } }
  | 2 => { k with p := { k.p with snapshot := v.toUInt32 } }
  | 3 => { k with size := v.toUInt32 }
  | 4 => { k with bversion := { k.bversion with hi := v.toUInt32 } }
  | 5 => { k with bversion := { k.bversion with lo := v } }

/-- The order `bkey_fields()` lists the fields in, which is the order they are
streamed in, most significant first. -/
def bkey_fields : List (Fin 6) :=
  [BKEY_FIELD_INODE, BKEY_FIELD_OFFSET, BKEY_FIELD_SNAPSHOT, BKEY_FIELD_SIZE,
    BKEY_FIELD_VERSION_HI, BKEY_FIELD_VERSION_LO]

attribute [grind] cmp_int bkey_set_field

/-- Writing back every field read from `k` copies `k`'s fields and nothing else: no
field's truncation loses a bit of a value that came from that field. -/
theorem foldl_bkey_set_field_self (k o : bkey) :
    bkey_fields.foldl (fun o id => bkey_set_field o id (bkey_field k id)) o =
      { o with bversion := k.bversion, size := k.size, p := k.p } := by
  simp [bkey_fields, bkey_set_field, bkey_field, BKEY_FIELD_INODE, BKEY_FIELD_OFFSET,
    BKEY_FIELD_SNAPSHOT, BKEY_FIELD_SIZE, BKEY_FIELD_VERSION_HI, BKEY_FIELD_VERSION_LO]

/-! ### Packed keys -/

/-- A key reached through a `struct bkey_packed *`: the memory seen from the
pointer. Byte `0` is the key's first byte; negative addresses are the bytes in
front of it. -/
structure bkey_packed where
  bytes : Int → UInt8

namespace bkey_packed

def u64s (k : bkey_packed) : UInt8 := k.bytes 0

/-- The `format:7` bitfield, the low bits of byte `1`. -/
def format (k : bkey_packed) : Nat := (k.bytes 1).toNat % 128

/-- The `needs_whiteout:1` bitfield, the top bit of byte `1`. -/
def needs_whiteout (k : bkey_packed) : Bool := decide (128 ≤ (k.bytes 1).toNat)

def type (k : bkey_packed) : UInt8 := k.bytes 2

/-- `bkey_packed(k)`: the key is in its node's format, not a `struct bkey`. -/
def is_packed (k : bkey_packed) : Bool := k.format != KEY_FORMAT_CURRENT

end bkey_packed

/-- `get_unaligned_le64(bytes + a)`: the little-endian `u64` at byte `a` of the key,
`a` negative for a load that starts in front of it. -/
def get_unaligned_le64 (k : bkey_packed) (a : Int) : UInt64 := UInt64.ofNat (leVal k.bytes a 8)

/-- `put_unaligned_le64(v, bytes + a)`. -/
def put_unaligned_le64 (k : bkey_packed) (v : UInt64) (a : Int) : bkey_packed :=
  ⟨storeLe k.bytes a 8 v.toNat⟩

/-- `get_unaligned((const u32 *) (bytes + a))` on a little-endian machine. -/
def get_unaligned_le32 (k : bkey_packed) (a : Int) : UInt32 := UInt32.ofNat (leVal k.bytes a 4)

/-- `*p` for a `u64 *p` into the key: the little-endian word at word index `p`. -/
def load_word (k : bkey_packed) (p : Int) : UInt64 :=
  UInt64.ofNat (leVal k.bytes (8 * p) 8)

/-- `*p = v` for a `u64 *p` into the key. -/
def store_word (k : bkey_packed) (p : Int) (v : UInt64) : bkey_packed :=
  ⟨storeLe k.bytes (8 * p) 8 v.toNat⟩

/-- A loaded word is its little-endian window. -/
theorem load_word_toNat (k : bkey_packed) (p : Int) :
    (load_word k p).toNat = leVal k.bytes (8 * p) 8 := by
  rw [load_word, UInt64.toNat_ofNat', Nat.mod_eq_of_lt (leVal_lt _ _ 8)]

/-- A stored word reads back. -/
theorem leVal_store_word_self (k : bkey_packed) (p : Int) (v : UInt64) :
    leVal (store_word k p v).bytes (8 * p) 8 = v.toNat := by
  rw [store_word, leVal_storeLe_self, Nat.mod_eq_of_lt v.toNat_lt]

/-- A word store leaves every byte outside the word alone. -/
theorem store_word_bytes_of_not_mem (k : bkey_packed) (p : Int) (v : UInt64) {x : Int}
    (hx : x < 8 * p ∨ 8 * p + 8 ≤ x) : (store_word k p v).bytes x = k.bytes x :=
  storeLe_of_not_mem _ _ (by push_cast; omega)

/-- `out->u64s = v`. -/
def set_u64s (k : bkey_packed) (v : UInt8) : bkey_packed := ⟨storeLe k.bytes 0 1 v.toNat⟩

/-- `out->format = v`: the low seven bits of byte `1`, keeping `needs_whiteout`. -/
def set_format (k : bkey_packed) (v : Nat) : bkey_packed :=
  ⟨storeLe k.bytes 1 1 ((k.bytes 1).toNat / 128 * 128 + v % 128)⟩

/-- `out->needs_whiteout = v`: the top bit of byte `1`, keeping `format`. -/
def set_needs_whiteout (k : bkey_packed) (v : Bool) : bkey_packed :=
  ⟨storeLe k.bytes 1 1 ((k.bytes 1).toNat % 128 + (if v then 128 else 0))⟩

/-- `out->type = v`. -/
def set_type (k : bkey_packed) (v : UInt8) : bkey_packed := ⟨storeLe k.bytes 2 1 v.toNat⟩

/-- `out->u64s = v` writes byte `0` only. -/
@[simp] theorem set_u64s_bytes (k : bkey_packed) (v : UInt8) (x : Int) :
    (set_u64s k v).bytes x = if x = 0 then v else k.bytes x := by
  show storeLe k.bytes 0 1 v.toNat x = _
  rw [storeLe_one, UInt8.ofNat_toNat]

/-- `out->format = v` writes byte `1` only, keeping its top bit. -/
@[simp] theorem set_format_bytes (k : bkey_packed) (v : Nat) (x : Int) :
    (set_format k v).bytes x =
      if x = 1 then UInt8.ofNat ((k.bytes 1).toNat / 128 * 128 + v % 128) else k.bytes x := by
  show storeLe k.bytes 1 1 _ x = _
  rw [storeLe_one]

/-- `out->needs_whiteout = v` writes byte `1` only, keeping its low seven bits. -/
@[simp] theorem set_needs_whiteout_bytes (k : bkey_packed) (v : Bool) (x : Int) :
    (set_needs_whiteout k v).bytes x =
      if x = 1 then UInt8.ofNat ((k.bytes 1).toNat % 128 + (if v then 128 else 0))
      else k.bytes x := by
  show storeLe k.bytes 1 1 _ x = _
  rw [storeLe_one]

/-- `out->type = v` writes byte `2` only. -/
@[simp] theorem set_type_bytes (k : bkey_packed) (v : UInt8) (x : Int) :
    (set_type k v).bytes x = if x = 2 then v else k.bytes x := by
  show storeLe k.bytes 2 1 v.toNat x = _
  rw [storeLe_one, UInt8.ofNat_toNat]

/-- `*(const struct bkey *) k`: the memory at the key read as a `struct bkey`, in the
little-endian layout: `u64s`, the format byte, `type`, `pad`, then `bversion.lo`,
`bversion.hi`, `size`, and `p` with `snapshot` lowest and `inode` highest. -/
def bkey_cast (k : bkey_packed) : bkey where
  u64s := k.u64s
  format := BitVec.ofNat 7 k.format
  needs_whiteout := k.needs_whiteout
  type := k.type
  pad := k.bytes 3
  bversion := ⟨UInt32.ofNat (leVal k.bytes 12 4), UInt64.ofNat (leVal k.bytes 4 8)⟩
  size := UInt32.ofNat (leVal k.bytes 16 4)
  p := ⟨UInt64.ofNat (leVal k.bytes 32 8), UInt64.ofNat (leVal k.bytes 24 8),
    UInt32.ofNat (leVal k.bytes 20 4)⟩

/-! ### Formats -/

/-- `struct bkey_format`; `field_offset` is `__le64`, read on a little-endian
machine as it is stored. -/
structure bkey_format where
  key_u64s : UInt8
  nr_fields : UInt8
  bits_per_field : Vector UInt8 6
  field_offset : Vector UInt64 6
deriving DecidableEq, Repr

/-- `BKEY_FORMAT_CURRENT`: every field at the width of its `struct bkey` member,
with offset `0`. -/
def bch2_bkey_format_current : bkey_format where
  key_u64s := 5
  nr_fields := 6
  bits_per_field := #v[64, 64, 32, 32, 32, 64]
  field_offset := #v[0, 0, 0, 0, 0, 0]

/-- `DIV_ROUND_UP(n, d)`. -/
def DIV_ROUND_UP (n d : Nat) : Nat := (n + d - 1) / d

/-- `fls64`: the 1-based index of the most significant set bit, `0` for `0`. -/
def fls64 (x : UInt64) : Nat := if x = 0 then 0 else x.toNat.log2 + 1

/-- `~((~0ULL << 1) << (bits - 1))`, the all-ones mask of `bits` bits for
`1 ≤ bits ≤ 64`, written to avoid a shift by 64. -/
def mask_of_bits (bits : Nat) : UInt64 := ~~~(((~~~0 : UInt64) <<< 1) <<< (bits - 1).toUInt64)

/-- `u64_bitmask` (`util.h`): the low `bits` bits set, for `bits ≤ 64`; no shift is by
`64`. -/
def u64_bitmask (bits : Nat) : UInt64 :=
  if bits ≠ 0 then (~~~0 : UInt64) >>> (64 - bits).toUInt64 else 0

/-- `bch2_bkey_format_field_overflows`: can field `i` of `f` represent a value
larger than the unpacked field holds? -/
def bch2_bkey_format_field_overflows (f : bkey_format) (i : Fin 6) : Bool :=
  let f_bits := (f.bits_per_field.get i).toNat
  let unpacked_bits := (bch2_bkey_format_current.bits_per_field.get i).toNat
  let unpacked_mask := mask_of_bits unpacked_bits
  let field_offset := f.field_offset.get i
  if f_bits > unpacked_bits then true
  else if f_bits = unpacked_bits ∧ field_offset ≠ 0 then true
  else
    -- `~((~0ULL << (f_bits - 1)) << 1)`: the same mask, shifted the other way round
    let f_mask : UInt64 :=
      if f_bits ≠ 0 then ~~~(((~~~0 : UInt64) <<< (f_bits - 1).toUInt64) <<< 1) else 0
    decide (((field_offset + f_mask) &&& unpacked_mask) < field_offset)

/-- The message `bch2_bkey_format_invalid` prints for an overflowing field. -/
def field_too_large_msg (f : bkey_format) (i : Fin 6) : String :=
  let unpacked_max := mask_of_bits (bch2_bkey_format_current.bits_per_field.get i).toNat
  let packed_bits := min 64 (f.bits_per_field.get i).toNat
  let packed_max : UInt64 := if packed_bits ≠ 0 then mask_of_bits packed_bits else 0
  "field " ++ toString i ++ " too large: " ++ toString packed_max ++ " + " ++
    toString (f.field_offset.get i) ++ " > " ++ toString unpacked_max

/-- The field loop of `bch2_bkey_format_invalid`: every field is checked for
overflow in turn, and its width is added to `bits`. -/
def format_invalid_fields (f : bkey_format) : List (Fin 6) → Nat → Except String Nat
  | [], bits => .ok bits
  | i :: is, bits =>
      if bch2_bkey_format_field_overflows f i then .error (field_too_large_msg f i)
      else format_invalid_fields f is (bits + (f.bits_per_field.get i).toNat)

/-- `bch2_bkey_format_invalid`: `.ok ()` where the C function returns `0`, and the
text it prints into `err` where it returns `-BCH_ERR_invalid`. -/
def bch2_bkey_format_invalid (f : bkey_format) : Except String Unit :=
  if f.nr_fields.toNat ≠ BKEY_NR_FIELDS then
    .error ("incorrect number of fields: got " ++ toString f.nr_fields ++ ", should be " ++
      toString BKEY_NR_FIELDS)
  else
    -- `nr_fields` is `6` from here on, so the loop runs over every field.
    match format_invalid_fields f (List.finRange 6) KEY_PACKED_BITS_START with
    | .error e => .error e
    | .ok bits =>
        if f.key_u64s.toNat ≠ DIV_ROUND_UP bits 64 then
          .error ("incorrect key_u64s: got " ++ toString f.key_u64s ++ ", should be " ++
            toString (DIV_ROUND_UP bits 64))
        else .ok ()

/-- `bkey_format_key_bits`: the width of the position fields. -/
def bkey_format_key_bits (f : bkey_format) : Nat :=
  (f.bits_per_field.get BKEY_FIELD_INODE).toNat + (f.bits_per_field.get BKEY_FIELD_OFFSET).toNat +
    (f.bits_per_field.get BKEY_FIELD_SNAPSHOT).toNat

attribute [grind] fls64 bch2_bkey_format_field_overflows

end Bcachefs
