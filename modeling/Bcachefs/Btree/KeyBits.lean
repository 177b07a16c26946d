import Bcachefs.Btree.Cmp
import Bcachefs.Util.Eytzinger

/-!
# `Bcachefs.Btree.KeyBits`: bit scans over the position bits of packed keys

The position of a packed key is the top `nr_key_bits` bits of its packed stream, one number
spread over the key's words from the high word down (`Btree.Cmp`). Three helpers of
`btree/bkey.c` walk that number a word at a time:

* `bch2_bkey_greatest_differing_bit` compares two keys from the high word down and returns
  the index of the most significant bit at which they differ, counted from the least
  significant key bit: the bset code builds its search tree's exponents from it;
* `bch2_bkey_ffs` seeks down to the word holding the least significant key bit, then walks
  back up and returns the index of the first set bit;
* `bkey_packed_successor` copies a key and adds one to its position bits, carrying from the
  word of the least significant key bit up, and fails when they are all ones.

Words are word indices into the key (`Btree.Pack`): `nth_word(p, n)` is `p - n` on a
little-endian machine, where `high_bit_offset` is `0`, so that `word_bits`, the stream bits of
the high word, is `64` like those of every other word. The debug checks (`EBUG_ON`) are left
out.
-/

set_option autoImplicit false
set_option linter.style.nameCheck false

namespace Bcachefs

/-- `nth_word(p, n)`: `n` words lower in memory. -/
def nth_word (p n : Int) : Int := p - n

/-- `prev_word(p)`, `nth_word(p, -1)`: one word higher in memory. -/
def prev_word (p : Int) : Int := nth_word p (-1)

/-- `__ffs64`: the index of the lowest set bit of a word. -/
def __ffs64 (word : UInt64) : Nat := (__ffs word).toNat

/-! ### The most significant differing bit -/

/-- The loop of `bch2_bkey_greatest_differing_bit`: `l_v` and `r_v` are the words at `l` and
`r`, and `nr_key_bits` key bits are left from the top of them down. -/
def greatest_differing_bit_loop (lk rk : bkey_packed) (l r : Int) (l_v r_v : UInt64)
    (nr_key_bits : Nat) : Nat :=
  if nr_key_bits = 0 then 0
  else if nr_key_bits < 64 then
    -- the last word: only its top `nr_key_bits` bits are key bits
    let l_v := l_v >>> (64 - nr_key_bits).toUInt64
    let r_v := r_v >>> (64 - nr_key_bits).toUInt64
    if l_v ≠ r_v then fls64 (l_v ^^^ r_v) - 1
    else
      greatest_differing_bit_loop lk rk (next_word l) (next_word r)
        (load_word lk (next_word l)) (load_word rk (next_word r)) 0
  else if l_v ≠ r_v then fls64 (l_v ^^^ r_v) - 1 + (nr_key_bits - 64)
  else
    greatest_differing_bit_loop lk rk (next_word l) (next_word r)
      (load_word lk (next_word l)) (load_word rk (next_word r)) (nr_key_bits - 64)
termination_by nr_key_bits
decreasing_by all_goals omega

/-- `bch2_bkey_greatest_differing_bit(b, l_k, r_k)`. -/
def bch2_bkey_greatest_differing_bit (b : btree) (l_k r_k : bkey_packed) : Nat :=
  let l := high_word_offset b.format
  let r := high_word_offset b.format
  -- for big endian, skip past header
  let l_v := load_word l_k l &&& ((~~~0 : UInt64) >>> high_bit_offset.toUInt64)
  let r_v := load_word r_k r &&& ((~~~0 : UInt64) >>> high_bit_offset.toUInt64)
  greatest_differing_bit_loop l_k r_k l r l_v r_v b.nr_key_bits.toNat

attribute [grind] greatest_differing_bit_loop

/-! ### The first set bit -/

/-- The first loop of `bch2_bkey_ffs`: `while (offset > 64) { p = next_word(p); offset -= 64; }`,
down to the word of the least significant key bit. -/
def ffs_seek (p : Int) (offset : Nat) : Int × Nat :=
  if offset > 64 then ffs_seek (next_word p) (offset - 64) else (p, offset)
termination_by offset
decreasing_by omega

/-- The second loop of `bch2_bkey_ffs`: the key bits of word `p` from bit `offset` up, then
the words above, `ret` key bits having been passed. The measure also counts an `offset` of
`64` or more, from which a step passes no bit and resets it. -/
def bch2_bkey_ffs_loop (k : bkey_packed) (p : Int) (nr_key_bits ret offset : Nat) : Nat :=
  if nr_key_bits = 0 then 0
  else
    let bits := if nr_key_bits + offset < 64 then nr_key_bits else 64 - offset
    let mask := ((~~~0 : UInt64) >>> (64 - bits).toUInt64) <<< offset.toUInt64
    if load_word k p &&& mask ≠ 0 then ret + __ffs64 (load_word k p &&& mask) - offset
    else bch2_bkey_ffs_loop k (prev_word p) (nr_key_bits - bits) (ret + bits) 0
termination_by nr_key_bits + (if 64 ≤ offset then 1 else 0)
decreasing_by all_goals split_ifs <;> omega

/-- `bch2_bkey_ffs(b, k)`. -/
def bch2_bkey_ffs (b : btree) (k : bkey_packed) : Nat :=
  let nr_key_bits := b.nr_key_bits.toNat
  let (p, offset) := ffs_seek (high_word_offset b.format) nr_key_bits
  bch2_bkey_ffs_loop k p nr_key_bits 0 (64 - offset)

attribute [grind] ffs_seek bch2_bkey_ffs_loop

/-! ### The successor -/

/-- The loop of `bkey_packed_successor` on `out`: the key bits of word `p` from bit `offset`
up, then the words above. A word whose key bits are not all ones takes the carry; one whose
are has them cleared, and the carry goes on. -/
def bkey_packed_successor_loop (out : bkey_packed) (p : Int) (nr_key_bits offset : Nat) :
    Bool × bkey_packed :=
  if nr_key_bits = 0 then (false, out)
  else
    let bits := min (64 - offset) nr_key_bits
    let mask := ((~~~0 : UInt64) >>> (64 - bits).toUInt64) <<< offset.toUInt64
    if load_word out p &&& mask ≠ mask then
      (true, store_word out p (load_word out p + ((1 : UInt64) <<< offset.toUInt64)))
    else
      bkey_packed_successor_loop (store_word out p (load_word out p &&& ~~~mask)) (prev_word p)
        (nr_key_bits - bits) 0
termination_by nr_key_bits + (if 64 ≤ offset then 1 else 0)
decreasing_by split_ifs <;> omega

/-- `bkey_packed_successor(out, b, k)`: whether it succeeded, and `*out` after it. The struct
assignment `*out = *k` copies the `BKEY_U64s` words of a `struct bkey_packed`. -/
def bkey_packed_successor (out : bkey_packed) (b : btree) (k : bkey_packed) :
    Bool × bkey_packed :=
  let nr_key_bits := b.nr_key_bits.toNat
  if nr_key_bits = 0 then (false, out)
  else
    let out := memcpy_u64s out 0 k 0 BKEY_U64s
    let first_bit := high_bit_offset + nr_key_bits - 1
    let p := nth_word (high_word_offset b.format) (first_bit >>> 6 : Nat)
    let offset := 63 - (first_bit &&& 63)
    bkey_packed_successor_loop out p nr_key_bits offset

attribute [grind] bkey_packed_successor_loop

end Bcachefs
