import Bcachefs.Btree.Bkey
import Bcachefs.Util.Limits

/-!
# `Bcachefs.Btree.FormatState`: building a format from the keys it must hold

When a btree node is written or split, the code picks the format its keys will be packed
in: `bch2_bkey_format_init` starts a `bkey_format_state`, `bch2_bkey_format_add_key` and
`bch2_bkey_format_add_pos` widen the range of each field to take in a key or a position,
and `bch2_bkey_format_done` turns the ranges into a format.

`bch2_bkey_format_done` runs two loops over the six fields. The first gives each field
the width of its range (`fls64(max - min)`) and the range's minimum as its offset,
through `set_format_field`, which caps the width at the unpacked member's and moves the
offset down where the offset plus the field's range would not fit the member. The
second spends the bits left over in the last word on rounding fields up to whole bytes,
in field order, which makes the byte-aligned fast paths usable; it goes through
`set_format_field` again, so a rounded field may get a lower offset, or none when it
reaches the member's width.

The state's `field_min[i] = min(field_min[i], field_max[i])` write of the first loop is
only read by that loop; the model keeps it local.
-/

set_option autoImplicit false
set_option linter.style.nameCheck false

namespace Bcachefs

/-- `struct bkey_format_state`: the range of each field so far. -/
structure bkey_format_state where
  field_min : Vector UInt64 6
  field_max : Vector UInt64 6
deriving DecidableEq, Repr

/-- `bch2_bkey_format_init`: empty ranges, except that a size of `0` must be storable. -/
def bch2_bkey_format_init : bkey_format_state where
  field_min := (Vector.replicate 6 U64_MAX).set BKEY_FIELD_SIZE 0 (bkey_field_lt _)
  field_max := Vector.replicate 6 0

/-- `__bkey_format_add`: widen the range of `field` to take in `v`. -/
def __bkey_format_add (s : bkey_format_state) (field : Fin 6) (v : UInt64) :
    bkey_format_state where
  field_min := s.field_min.set field (min (s.field_min.get field) v) (bkey_field_lt field)
  field_max := s.field_max.set field (max (s.field_max.get field) v) (bkey_field_lt field)

/-- `bch2_bkey_format_add_key`: every field of the key, in `bkey_fields()` order. -/
def bch2_bkey_format_add_key (s : bkey_format_state) (k : bkey) : bkey_format_state :=
  bkey_fields.foldl (fun s id => __bkey_format_add s id (bkey_field k id)) s

/-- `bch2_bkey_format_add_pos`: the three position fields. -/
def bch2_bkey_format_add_pos (s : bkey_format_state) (p : bpos) : bkey_format_state :=
  let s := __bkey_format_add s BKEY_FIELD_INODE p.inode
  let s := __bkey_format_add s BKEY_FIELD_OFFSET p.offset
  __bkey_format_add s BKEY_FIELD_SNAPSHOT p.snapshot.toUInt64

/-- `round_up(x, y)` for a power of two `y`, on an `unsigned` promoted from a narrower
type: `((x - 1) | (y - 1)) + 1`, where `x - 1` is `-1` for `x = 0`, so that `0` rounds
to `0`. -/
def round_up (x y : Nat) : Nat := if x = 0 then 0 else ((x - 1) ||| (y - 1)) + 1

/-- `set_format_field`: give field `i` at most the unpacked member's width, and an
offset low enough that the offset plus any value of the width fits the member; a field
as wide as its member has no offset. -/
def set_format_field (f : bkey_format) (i : Fin 6) (bits : Nat) (offset : UInt64) :
    bkey_format :=
  let unpacked_bits := (bch2_bkey_format_current.bits_per_field.get i).toNat
  let unpacked_max := mask_of_bits unpacked_bits
  let bits := min bits unpacked_bits
  let offset : UInt64 :=
    if bits = unpacked_bits then 0
    else min offset (unpacked_max - (((1 : UInt64) <<< bits.toUInt64) - 1))
  { f with
    bits_per_field := f.bits_per_field.set i bits.toUInt8 (bkey_field_lt i)
    field_offset := f.field_offset.set i offset (bkey_field_lt i) }

/-- The first loop of `bch2_bkey_format_done`: each field gets the width of its range
and the range's minimum as its offset; `bits` adds up the widths. -/
def format_done_fields (s : bkey_format_state) :
    List (Fin 6) → Nat → bkey_format → Nat × bkey_format
  | [], bits, ret => (bits, ret)
  | i :: is, bits, ret =>
      let field_min := min (s.field_min.get i) (s.field_max.get i)
      let ret := set_format_field ret i (fls64 (s.field_max.get i - field_min)) field_min
      format_done_fields s is (bits + (ret.bits_per_field.get i).toNat) ret

/-- The second loop of `bch2_bkey_format_done`: with `bits` spare bits left in the last
word, round each field up to a whole number of bytes while the spare bits last. -/
def format_round_fields : List (Fin 6) → Nat → bkey_format → bkey_format
  | [], _, ret => ret
  | i :: is, bits, ret =>
      let r := round_up (ret.bits_per_field.get i).toNat 8 - (ret.bits_per_field.get i).toNat
      if r ≤ bits then
        format_round_fields is (bits - r)
          (set_format_field ret i ((ret.bits_per_field.get i).toNat + r) (ret.field_offset.get i))
      else format_round_fields is bits ret

/-- `bch2_bkey_format_done`. -/
def bch2_bkey_format_done (s : bkey_format_state) : bkey_format :=
  let ret : bkey_format :=
    { key_u64s := 0
      nr_fields := BKEY_NR_FIELDS.toUInt8
      bits_per_field := Vector.replicate 6 0
      field_offset := Vector.replicate 6 0 }
  let (bits, ret) := format_done_fields s (List.finRange 6) KEY_PACKED_BITS_START ret
  let ret := { ret with key_u64s := (DIV_ROUND_UP bits 64).toUInt8 }
  -- if we have enough spare bits, round fields up to nearest byte
  let bits := ret.key_u64s.toNat * 64 - bits
  format_round_fields (List.finRange 6) bits ret

/-- One call a caller makes on the state before `bch2_bkey_format_done`. -/
inductive format_add where
  | key (k : bkey)
  | pos (p : bpos)
deriving DecidableEq, Repr

/-- Apply one call. -/
def format_add_apply (s : bkey_format_state) : format_add → bkey_format_state
  | .key k => bch2_bkey_format_add_key s k
  | .pos p => bch2_bkey_format_add_pos s p

/-- The state after `bch2_bkey_format_init` and the calls `ops`, in order. -/
def format_state_of (ops : List format_add) : bkey_format_state :=
  ops.foldl format_add_apply bch2_bkey_format_init

end Bcachefs
