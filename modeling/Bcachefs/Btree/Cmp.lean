import Bcachefs.Btree.Node

/-!
# `Bcachefs.Btree.Cmp`: comparing packed keys

`btree/bkey_cmp.h` compares two keys of a node without unpacking them when both are
packed: the position fields are the top `nr_key_bits` bits of the packed stream,
inode above offset above snapshot, so `__bkey_cmp_bits` compares the two streams as
one big number, a word at a time from the high word down, and shifts the last,
partial word so that only key bits take part. The portable version is modelled; the
x86 assembly computes the same.

When one of the keys is a `struct bkey` (format byte `KEY_FORMAT_CURRENT`), the
other is unpacked and the positions are compared with `bpos_cmp`.
-/

set_option autoImplicit false
set_option linter.style.nameCheck false

namespace Bcachefs

/-- The loop of the portable `__bkey_cmp_bits`: `l_v` and `r_v` are the words at `l`
and `r`, and `nr_key_bits`, at least one, bits are left to compare from the top of
those words down. -/
def __bkey_cmp_bits_loop (lk rk : bkey_packed) (l r : Int) (l_v r_v : UInt64)
    (nr_key_bits : Nat) : Int :=
  if nr_key_bits < 64 then
    -- the last word: only its top `nr_key_bits` bits are key bits
    cmp_int (l_v >>> (64 - nr_key_bits).toUInt64) (r_v >>> (64 - nr_key_bits).toUInt64)
  else if nr_key_bits - 64 = 0 ∨ l_v ≠ r_v then cmp_int l_v r_v
  else
    __bkey_cmp_bits_loop lk rk (next_word l) (next_word r)
      (load_word lk (next_word l)) (load_word rk (next_word r)) (nr_key_bits - 64)
termination_by nr_key_bits
decreasing_by omega

/-- `__bkey_cmp_bits`, portable version: compare the top `nr_key_bits` bits of the
streams whose high words are at `l` in `lk` and `r` in `rk`. -/
def __bkey_cmp_bits (lk rk : bkey_packed) (l r : Int) (nr_key_bits : Nat) : Int :=
  if nr_key_bits = 0 then 0
  else
    -- for big endian, skip past header
    let nr_key_bits := nr_key_bits + high_bit_offset
    let l_v := load_word lk l &&& ((~~~0 : UInt64) >>> high_bit_offset.toUInt64)
    let r_v := load_word rk r &&& ((~~~0 : UInt64) >>> high_bit_offset.toUInt64)
    __bkey_cmp_bits_loop lk rk l r l_v r_v nr_key_bits

/-- `__bch2_bkey_cmp_packed_format_checked_inlined`: both keys packed in `b`'s format. -/
def __bch2_bkey_cmp_packed_format_checked_inlined (l r : bkey_packed) (b : btree) : Int :=
  __bkey_cmp_bits l r (high_word_offset b.format) (high_word_offset b.format)
    b.nr_key_bits.toNat

/-- `bch2_bkey_cmp_packed` (`bch2_bkey_cmp_packed_inlined`): compare two keys of `b`,
each packed or a `struct bkey`. In the mixed case the packed one is unpacked with
`__bch2_bkey_unpack_key_b` (`__bkey_unpack_key_format_checked`, compiled unpack being
disabled). -/
def bch2_bkey_cmp_packed (b : btree) (l r : bkey_packed) : Int :=
  if l.is_packed && r.is_packed then __bch2_bkey_cmp_packed_format_checked_inlined l r b
  else
    let (lk, rk) :=
      if l.is_packed then (__bch2_bkey_unpack_key_b b l, bkey_cast r)
      else if r.is_packed then (bkey_cast l, __bch2_bkey_unpack_key_b b r)
      else (bkey_cast l, bkey_cast r)
    bpos_cmp lk.p rk.p

attribute [grind] __bkey_cmp_bits_loop

end Bcachefs
