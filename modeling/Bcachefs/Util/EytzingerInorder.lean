import Bcachefs.Util.Eytzinger
import Bcachefs.Util.Fifo

/-!
# `Bcachefs.Util.EytzingerInorder`: the Eytzinger tree in order

Besides its searches, `util/eytzinger.h` walks the implicit tree of `size` nodes in inorder,
the order of the sorted array it stores:

* `eytzinger1_first` and `eytzinger1_last` are the first and the last node: the first node of
  the last level, and the last node of the last full level (`rounddown_pow_of_two`).
* `eytzinger1_next` goes to the first node of the right subtree, shifting the right child
  down to the last level and back up one when that is past `size`; without a right subtree it
  drops the node's trailing one bits and one more (`ffz`). `eytzinger1_prev` is its mirror.
  Past the last node and before the first they give `0`.
* `__eytzinger1_to_inorder` takes node `2 ^ b + r` to `(2 * r + 1) << (fls(size) - b)`, its
  position in the complete tree of the same depth, then takes off the nodes missing from the
  last level before it with a branch-free sign-bit trick on `extra = eytzinger1_extra(size)`.
  `__inorder_to_eytzinger1` undoes it.
* `eytzinger1_for_each` is the `for` loop of the macro, from the first node while the node is
  not `0`; the model returns the nodes its body runs on.

The zero-based functions are the one-based ones on `i + 1`, less one; `eytzinger0_for_each`
and `eytzinger0_for_each_prev`, which walks back from the last node, stop at `-1`.

Node numbers are `unsigned` (`UInt32`), and `int` is `Int32`, whose `>>` shifts in the sign bit
as gcc's does. The bit helpers of `include/linux/bitops.h` take an `unsigned long`: the
`unsigned` arguments are widened to `UInt64` as in C, and their results narrowed back where
the C assigns them to an `unsigned`. A shift of an `unsigned` by 32 or more is undefined in C;
the model takes the count modulo 32, as the shift of `UInt32` does. The loops run on fuel
(`Loop.While`); `none` is a loop that does not stop. The `EYTZINGER_BUG_ON` checks are left
out.
-/

set_option autoImplicit false
set_option linter.style.nameCheck false

namespace Bcachefs

open Bcachefs.Loop

/-! ### Bit helpers -/

/-- `__builtin_clzl`: the leading zero bits of an `unsigned long`. It is undefined for `0` in C;
the model gives 64. -/
def __builtin_clzl (x : UInt64) : UInt64 := if x = 0 then 64 else (63 - x.toNat.log2).toUInt64

/-- `__fls` (`include/linux/bitops.h`): the index of the most significant set bit. -/
def __fls (word : UInt64) : UInt64 := 64 - 1 - __builtin_clzl word

/-- `rounddown_pow_of_two` (`include/linux/bitops.h`): `1UL << (fls_long(n) - 1)`, undefined
in C for `0`. `fls_long` is the one of `Util.Fifo`. -/
def rounddown_pow_of_two (n : UInt64) : UInt64 :=
  (1 : UInt64) <<< (fls_long n.toNat - 1).toUInt64

/-! ### One-based indexing -/

def eytzinger1_left_child (i : UInt32) : UInt32 := eytzinger1_child i 0

def eytzinger1_right_child (i : UInt32) : UInt32 := eytzinger1_child i 1

def eytzinger1_first (size : UInt32) : UInt32 :=
  if size ≠ 0 then (rounddown_pow_of_two size.toUInt64).toUInt32 else 0

def eytzinger1_last (size : UInt32) : UInt32 :=
  (rounddown_pow_of_two (size + 1).toUInt64 - 1).toUInt32

def eytzinger1_next (i size : UInt32) : UInt32 :=
  if eytzinger1_right_child i ≤ size then
    let i := eytzinger1_right_child i
    let i := i <<< (__fls size.toUInt64 - __fls i.toUInt64).toUInt32
    i >>> (if i > size then 1 else 0)
  else
    -- `ffz(i)` is `__ffs(~(i))`, the complement taken on the `unsigned`
    i >>> (__ffs (~~~i).toUInt64 + 1).toUInt32

def eytzinger1_prev (i size : UInt32) : UInt32 :=
  if eytzinger1_left_child i ≤ size then
    let i := eytzinger1_left_child i + 1
    let i := i <<< (__fls size.toUInt64 - __fls i.toUInt64).toUInt32
    let i := i - 1
    i >>> (if i > size then 1 else 0)
  else
    i >>> (__ffs i.toUInt64 + 1).toUInt32

/-- `eytzinger1_extra(size)`: twice the nodes of the last level. `size + 1` is computed on the
`unsigned`, the rest on the `unsigned long` of `rounddown_pow_of_two`. -/
def eytzinger1_extra (size : UInt32) : UInt32 :=
  if size ≠ 0 then (((size + 1).toUInt64 - rounddown_pow_of_two size.toUInt64) <<< 1).toUInt32
  else 0

def __eytzinger1_to_inorder (i size extra : UInt32) : UInt32 :=
  let b := (__fls i.toUInt64).toUInt32
  let shift := (__fls size.toUInt64).toUInt32 - b
  let i := i ^^^ ((1 : UInt32) <<< b)
  let i := i <<< 1
  let i := i ||| 1
  let i := i <<< shift
  -- sign bit trick: `if (i > extra) i -= (i - extra) >> 1;`
  let s := (extra - i).toInt32
  i + ((s >>> 1) &&& (s >>> 31)).toUInt32

def __inorder_to_eytzinger1 (i size extra : UInt32) : UInt32 :=
  -- sign bit trick: `if (i > extra) i += i - extra;`
  let s := (extra - i).toInt32
  let i := i - (s &&& (s >>> 31)).toUInt32
  let shift := (__ffs i.toUInt64).toUInt32
  let i := i >>> (shift + 1)
  i ||| ((1 : UInt32) <<< (__fls size.toUInt64 - shift.toUInt64).toUInt32)

def eytzinger1_to_inorder (i size : UInt32) : UInt32 :=
  __eytzinger1_to_inorder i size (eytzinger1_extra size)

def inorder_to_eytzinger1 (i size : UInt32) : UInt32 :=
  __inorder_to_eytzinger1 i size (eytzinger1_extra size)

/-- One iteration of `eytzinger1_for_each`: the body runs on `_i`, then `_i` moves on. The
state is `_i` and the nodes the body has run on. -/
def eytzinger1_for_each_step (size : UInt32) (s : UInt32 × List UInt32) : UInt32 × List UInt32 :=
  (eytzinger1_next s.1 size, s.2 ++ [s.1])

/-- `eytzinger1_for_each(_i, _size)`: the nodes the loop body runs on, in order. -/
def eytzinger1_for_each (size : UInt32) : Option (List UInt32) :=
  (whileLoop (fun s => s.1 != 0) (eytzinger1_for_each_step size) EYTZINGER_WALK_FUEL
    (eytzinger1_first size, [])).map (·.2)

/-! ### Zero-based indexing -/

def eytzinger0_child (i child : UInt32) : UInt32 := (i <<< 1) + 1 + child

def eytzinger0_left_child (i : UInt32) : UInt32 := eytzinger0_child i 0

def eytzinger0_right_child (i : UInt32) : UInt32 := eytzinger0_child i 1

def eytzinger0_first (size : UInt32) : UInt32 := eytzinger1_first size - 1

def eytzinger0_last (size : UInt32) : UInt32 := eytzinger1_last size - 1

def eytzinger0_next (i size : UInt32) : UInt32 := eytzinger1_next (i + 1) size - 1

def eytzinger0_prev (i size : UInt32) : UInt32 := eytzinger1_prev (i + 1) size - 1

def eytzinger0_extra (size : UInt32) : UInt32 := eytzinger1_extra size

def __eytzinger0_to_inorder (i size extra : UInt32) : UInt32 :=
  __eytzinger1_to_inorder (i + 1) size extra - 1

def __inorder_to_eytzinger0 (i size extra : UInt32) : UInt32 :=
  __inorder_to_eytzinger1 (i + 1) size extra - 1

def eytzinger0_to_inorder (i size : UInt32) : UInt32 :=
  __eytzinger0_to_inorder i size (eytzinger0_extra size)

def inorder_to_eytzinger0 (i size : UInt32) : UInt32 :=
  __inorder_to_eytzinger0 i size (eytzinger0_extra size)

/-- One iteration of `eytzinger0_for_each`. -/
def eytzinger0_for_each_step (size : UInt32) (s : UInt32 × List UInt32) : UInt32 × List UInt32 :=
  (eytzinger0_next s.1 size, s.2 ++ [s.1])

/-- `eytzinger0_for_each(_i, _size)`: the loop stops at `(_i) != -1`, the `-1` converted to an
`unsigned`. -/
def eytzinger0_for_each (size : UInt32) : Option (List UInt32) :=
  (whileLoop (fun s => s.1 != (-1 : Int32).toUInt32) (eytzinger0_for_each_step size)
    EYTZINGER_WALK_FUEL (eytzinger0_first size, [])).map (·.2)

/-- One iteration of `eytzinger0_for_each_prev`. -/
def eytzinger0_for_each_prev_step (size : UInt32) (s : UInt32 × List UInt32) :
    UInt32 × List UInt32 :=
  (eytzinger0_prev s.1 size, s.2 ++ [s.1])

/-- `eytzinger0_for_each_prev(_i, _size)`: from the last node back, while the node is not `-1`. -/
def eytzinger0_for_each_prev (size : UInt32) : Option (List UInt32) :=
  (whileLoop (fun s => s.1 != (-1 : Int32).toUInt32) (eytzinger0_for_each_prev_step size)
    EYTZINGER_WALK_FUEL (eytzinger0_last size, [])).map (·.2)

end Bcachefs
