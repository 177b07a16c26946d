import Bcachefs.Loop.While
import Mathlib.Algebra.Group.Nat.Defs

/-!
# `Bcachefs.Util.Eytzinger`: searching an array in Eytzinger order

`util/eytzinger.h` keeps a sorted array as the complete binary tree of its one-based
indices: node `n` has the children `2 * n` and `2 * n + 1` (`eytzinger1_child`), and the
zero-based array `base` holds node `n` at `base[n - 1]` (`base1 = base - size`). A search
walks down from node `1` while the node is in the array, to the right child when the node's
element lies on the search's side, and reads its answer off the node number it stops at:

* `eytzinger0_find_le`, `eytzinger0_find_gt` and `eytzinger0_find_ge` never stop early. They
  drop the trailing zero bits of the node they stop at (`__ffs(n)`), or its trailing one
  bits (`__ffs(n + 1)`), and the bit above them, which goes back up to the last node the
  walk went right at, or left at.
* `eytzinger1_find` stops at a node that compares equal; `eytzinger0_find` calls it on the
  array seen one-based.

Node numbers are `unsigned` (`UInt32`); the bound `nr` is a `size_t` (`UInt64`) in the first
three and an `unsigned` in `eytzinger1_find`. The array is the memory at `base`, a function
on indices: the read of `base[-1]` a walk makes from node `0`, after its node number wraps
round, reads index `0` here. `cmp` is a comparison of the C sort, whose sign orders two
elements. A shift by 32 or more is undefined in C; the model takes the count modulo 32, as
x86 does and as the shift of `UInt32` does.

Each `while` loop runs on fuel (`Loop.While`). Its state is a node number, so a loop that has
not stopped after `2 ^ 32 + 1` tests has come back to a node it was at and never stops:
`none` is a loop that does not stop.
-/

set_option autoImplicit false
set_option linter.style.nameCheck false

namespace Bcachefs

open Bcachefs.Loop

/-- The trailing zero bits of `x`, counting at most `w` of them. -/
def ctz_bits : Nat → Nat → Nat
  | 0, _ => 0
  | w + 1, x => if x % 2 = 1 then 0 else ctz_bits w (x / 2) + 1

/-- `__builtin_ctzl`: the trailing zero bits of an `unsigned long`. It is undefined for `0`
in C; the model gives 64. -/
def __builtin_ctzl (x : UInt64) : UInt64 := (ctz_bits 64 x.toNat).toUInt64

/-- `__ffs` (`include/linux/bitops.h`): the index of the lowest set bit. -/
def __ffs (word : UInt64) : UInt64 := __builtin_ctzl word

/-- `eytzinger1_child`. -/
def eytzinger1_child (i child : UInt32) : UInt32 := (i <<< 1) + child

/-- A node count the fuel of a walk covers: the `2 ^ 32` node numbers, and one test more. -/
def EYTZINGER_WALK_FUEL : Nat := 2 ^ 32 + 1

attribute [grind] ctz_bits

section Find

variable {α : Type} (base : Nat → α)

/-- The walk of the three searches that never stop early, from `n = 1`:
`while (n <= nr) n = eytzinger1_child(n, right(n));`, where `right` reads the node's
element at `base1 + n * size`. -/
def eytzinger0_descend (nr : UInt64) (right : UInt32 → Bool) : Option UInt32 :=
  whileLoop (fun n => decide (n.toUInt64 ≤ nr))
    (fun n => eytzinger1_child n (if right n then 1 else 0)) EYTZINGER_WALK_FUEL 1

/-- `eytzinger0_find_le`: the greatest node `<= search`, `-1` if there is none. -/
def eytzinger0_find_le (nr : UInt64) (cmp : α → α → Int) (search : α) : Option Int32 :=
  (eytzinger0_descend nr fun n => decide (cmp (base (n.toNat - 1)) search ≤ 0)).map fun n =>
    let n := n >>> (__ffs n.toUInt64 + 1).toUInt32
    (n - 1).toInt32

/-- `eytzinger0_find_gt`: the smallest node `> search`, `-1` if there is none. -/
def eytzinger0_find_gt (nr : UInt64) (cmp : α → α → Int) (search : α) : Option Int32 :=
  (eytzinger0_descend nr fun n => decide (cmp (base (n.toNat - 1)) search ≤ 0)).map fun n =>
    let n := n >>> (__ffs (n + 1).toUInt64 + 1).toUInt32
    (n - 1).toInt32

/-- `eytzinger0_find_ge`: the smallest node `>= search`, `-1` if there is none. -/
def eytzinger0_find_ge (nr : UInt64) (cmp : α → α → Int) (search : α) : Option Int32 :=
  (eytzinger0_descend nr fun n => decide (cmp (base (n.toNat - 1)) search < 0)).map fun n =>
    let n := n >>> (__ffs (n + 1).toUInt64 + 1).toUInt32
    (n - 1).toInt32

/-- One iteration of `eytzinger1_find`'s loop on the node and whether it was found: stop at
a node that compares equal, else go to the child on the search's side. -/
def eytzinger1_find_step (cmp_fn : α → α → Int) (search : α) (s : UInt32 × Bool) :
    UInt32 × Bool :=
  let cmp := cmp_fn search (base s.1.toNat)
  if cmp = 0 then (s.1, true) else (eytzinger1_child s.1 (if cmp > 0 then 1 else 0), false)

/-- `eytzinger1_find`: a node comparing equal to `search`, `0` if there is none; `base` is
seen one-based. -/
def eytzinger1_find (nr : UInt32) (cmp_fn : α → α → Int) (search : α) : Option Int32 :=
  (whileLoop (fun s => !s.2 && decide (s.1 ≤ nr)) (eytzinger1_find_step base cmp_fn search)
      EYTZINGER_WALK_FUEL (1, false)).map fun s =>
    if s.2 then s.1.toInt32 else 0

/-- `eytzinger0_find`: `eytzinger1_find` on `base - size`, `-1` if there is none. -/
def eytzinger0_find (nr : UInt32) (cmp_fn : α → α → Int) (search : α) : Option Int32 :=
  (eytzinger1_find (fun i => base (i - 1)) nr cmp_fn search).map (· - 1)

end Find

end Bcachefs
