import Mathlib.Logic.Function.Basic
import Mathlib.Algebra.Group.Nat.Defs

/-!
# `Bcachefs.Util.Fifo`: the FIFO macros

`util/fifo.h` keeps a FIFO in a buffer of a power of two entries, `mask + 1`, at least its
`size`. `front` and `back` run free in the index type (`u16`, `u32`, `u64` or `size_t`: here
`BitVec w`) and wrap at its width; only `idx & mask` names a slot. The buffer is a function
from slots to entries. Each macro that changes the FIFO returns the FIFO after it with what
the macro evaluates to: a push its success, a pop the entry it took (`none` when it found the
FIFO empty, and then `i` is not written).

Arithmetic on index values follows C's promotions: an index type narrower than `int` is
promoted to `int`, so `size * 2` and `mask + 1` do not wrap there, while `u32`, `u64` and
`size_t` wrap at their own width (`index_expr`). An assignment back to a field truncates to
the index type (`BitVec.ofNat`).

`fifo_grow` takes the outcome of its `kvmalloc`, with the new buffer's contents, which the
macro then overwrites with two copies of the old buffer.
-/

set_option autoImplicit false

namespace Bcachefs

/-- `__FIFO(type, index_type)`, with a `w`-bit index type. -/
structure fifo (α : Type) (w : Nat) where
  front : BitVec w
  back : BitVec w
  size : BitVec w
  mask : BitVec w
  data : Nat → α

/-- The bits of `x` up to its highest set bit, counting at most `b` of them. -/
def fls_bits : Nat → Nat → Nat
  | 0, _ => 0
  | b + 1, x => if x = 0 then 0 else fls_bits b (x / 2) + 1

/-- `fls_long`: the position of the highest set bit of an `unsigned long`, counting from
`1`; `0` for `0`. -/
def fls_long (x : Nat) : Nat := fls_bits 64 x

/-- `roundup_pow_of_two` (`__roundup_pow_of_two`): `1UL << fls_long(n - 1)`, undefined in C
for `0`. -/
def roundup_pow_of_two (n : Nat) : Nat := 2 ^ fls_long (n - 1)

/-- The value of an index expression such as `size * 2` or `mask + 1`: an index type narrower
than `int` is promoted to `int`, where these do not overflow; `u32`, `u64` and `size_t` wrap at
their own width. -/
def index_expr (w n : Nat) : Nat := if w < 32 then n else n % 2 ^ w

variable {α : Type} {w : Nat}

/-- `fifo_buf_size`, in entries. -/
def fifo_buf_size (f : fifo α w) : Nat :=
  if f.size ≠ 0 then roundup_pow_of_two f.size.toNat else 0

/-- `init_fifo`, given the buffer `kvmalloc` returned. -/
def init_fifo (size : BitVec w) (data : Nat → α) : fifo α w :=
  { front := 0, back := 0, size := size,
    mask := if size ≠ 0 then BitVec.ofNat w (roundup_pow_of_two size.toNat - 1) else 0,
    data := data }

/-- `fifo_used`: `back - front` in the index type. -/
def fifo_used (f : fifo α w) : BitVec w := f.back - f.front

/-- `fifo_free`. -/
def fifo_free (f : fifo α w) : BitVec w := f.size - fifo_used f

/-- `fifo_empty`. -/
def fifo_empty (f : fifo α w) : Bool := f.front == f.back

/-- `fifo_full`. -/
def fifo_full (f : fifo α w) : Bool := fifo_used f == f.size

/-- `fifo_entry`: the entry in the slot of index `idx`. -/
def fifo_entry (f : fifo α w) (idx : BitVec w) : α := f.data (idx &&& f.mask).toNat

/-- `fifo_peek_front`. -/
def fifo_peek_front (f : fifo α w) : α := fifo_entry f f.front

/-- `fifo_peek_back`. -/
def fifo_peek_back (f : fifo α w) : α := fifo_entry f (f.back - 1)

/-- `fifo_entry_idx_abs(fifo, p)` for `p = &data[slot]`: the index of `front`'s epoch, or of
`back`'s for a slot below `front`'s, plus the slot. The sum is below `2 ^ w` and does not
wrap. -/
def fifo_entry_idx_abs (f : fifo α w) (slot : Nat) : Nat :=
  ((if slot ≥ (f.front &&& f.mask).toNat then f.front else f.back) &&& ~~~f.mask).toNat + slot

/-- `fifo_idx_entry`: the entry `i` places after `front`. The sum is masked, so that its
wrapping at the index type's width changes nothing. -/
def fifo_idx_entry (f : fifo α w) (i : Nat) : α :=
  f.data ((f.front + BitVec.ofNat w i) &&& f.mask).toNat

/-- `fifo_push_back`: `fifo_push_back_ref` and the store through it. -/
def fifo_push_back (f : fifo α w) (new : α) : fifo α w × Bool :=
  if fifo_full f then (f, false)
  else
    ({ f with back := f.back + 1, data := Function.update f.data (f.back &&& f.mask).toNat new },
      true)

/-- `fifo_push_front`: `fifo_push_front_ref` and the store through it. -/
def fifo_push_front (f : fifo α w) (new : α) : fifo α w × Bool :=
  if fifo_full f then (f, false)
  else
    ({ f with
        front := f.front - 1
        data := Function.update f.data ((f.front - 1) &&& f.mask).toNat new }, true)

/-- `fifo_pop_front`. -/
def fifo_pop_front (f : fifo α w) : fifo α w × Option α :=
  if fifo_empty f then (f, none)
  else ({ f with front := f.front + 1 }, some (f.data (f.front &&& f.mask).toNat))

/-- `fifo_pop_back`. -/
def fifo_pop_back (f : fifo α w) : fifo α w × Option α :=
  if fifo_empty f then (f, none)
  else ({ f with back := f.back - 1 }, some (f.data ((f.back - 1) &&& f.mask).toNat))

/-- `fifo_grow`, given the outcome of `kvmalloc(_osize * 2)`: `__fifo_grow` copies the old
buffer to the start of the new one and again at `mask + 1`, and sets `size` to `size * 2` and
`mask` to `roundup_pow_of_two(size * 2) - 1`. -/
def fifo_grow (f : fifo α w) (new_data : Option (Nat → α)) : fifo α w × Bool :=
  match new_data with
  | none => (f, false)
  | some d =>
    let old_size := fifo_buf_size f
    let new_size := index_expr w (f.size.toNat * 2)
    -- `_new_data + (fifo)->mask + 1` is pointer arithmetic: the offset does not wrap at the
    -- index type's width
    let off := f.mask.toNat + 1
    -- the second `memcpy` lands after the first, and wins where they overlap
    let data := fun j =>
      if off ≤ j ∧ j < off + old_size then f.data (j - off)
      else if j < old_size then f.data j
      else d j
    ({ f with
        size := BitVec.ofNat w new_size
        mask := BitVec.ofNat w (roundup_pow_of_two new_size - 1)
        data := data }, true)

attribute [grind] fifo_push_back fifo_push_front fifo_pop_front fifo_pop_back fifo_grow

end Bcachefs
