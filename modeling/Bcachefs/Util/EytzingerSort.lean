import Bcachefs.Util.EytzingerInorder
import Bcachefs.Sorting.Heap

/-!
# `Bcachefs.Util.EytzingerSort`: sorting an array into Eytzinger order

`eytzinger1_sort_r` (`util/eytzinger.c`) is a bottom-up heapsort of `n` elements run on their
places in inorder, `1` to `n`: every compare and every swap of the places `l` and `r` goes to
the nodes `inorder_to_eytzinger1(l, n)` and `inorder_to_eytzinger1(r, n)` of the array. The
sort leaves the elements in increasing order along the inorder, which is the order the
Eytzinger searches assume.

Each round of the sort has three loops: the descent to a leaf along the larger children
(`j = cmp(k, k + 1) > 0 ? k : k + 1`, so a tie goes right), the backtrack to the place of the
sifted element, and the shift of the elements on the way. The heapify rounds backtrack while
`j != i`; the sort rounds, which sift the root, backtrack while `j >= 1` and shift while
`j > 1`, so their backtrack can go past the root to `0`.

The array is a function on indices: element `k` of `base1` is `base1 k`, and `base1` of
`eytzinger0_sort_r` is `base - size`, element `k` of which is element `k - 1` of `base`. The
comparison is `cmp`, which returns an `int`, and a swap exchanges two elements (the choice of
`swap_func` by alignment is left out, as are `size`, `priv` and `cond_resched`). The loop
counters are `unsigned`; the index arithmetic of `inorder_to_eytzinger1` is right only below
`2 ^ 31` elements, where no counter reaches `2 ^ 32`, and they are `Nat` here. The loops run on
fuel (`Loop.While`) that the proofs show is enough.
-/

set_option autoImplicit false
set_option linter.style.nameCheck false

namespace Bcachefs

open Bcachefs.Loop Bcachefs.Sorting

variable {α : Type} (cmp : α → α → Int)

/-- `eytzinger1_do_cmp(base1, n, size, cmp_func, priv, l, r)`: compare the elements at the
places `l` and `r` of the inorder. -/
def eytzinger1_do_cmp (base1 : Nat → α) (n l r : Nat) : Int :=
  cmp (base1 (inorder_to_eytzinger1 l.toUInt32 n.toUInt32).toNat)
    (base1 (inorder_to_eytzinger1 r.toUInt32 n.toUInt32).toNat)

/-- `eytzinger1_do_swap(base1, n, size, swap_func, priv, l, r)`: swap them. -/
def eytzinger1_do_swap (base1 : Nat → α) (n l r : Nat) : Nat → α :=
  swapAt base1 (inorder_to_eytzinger1 l.toUInt32 n.toUInt32).toNat
    (inorder_to_eytzinger1 r.toUInt32 n.toUInt32).toNat

/-- The body of both descents, with `k = j * 2`:
`j = eytzinger1_do_cmp(base1, n, size, cmp_func, priv, k, k + 1) > 0 ? k : k + 1;`. -/
def eytzinger1_path_step (base1 : Nat → α) (n j : Nat) : Nat :=
  if eytzinger1_do_cmp cmp base1 n (j * 2) (j * 2 + 1) > 0 then j * 2 else j * 2 + 1

/-! ### Heapify -/

/-- `for (j = i; k = j * 2, k < n;) ...; if (j * 2 == n) j *= 2;`: the sift-down path from `i`
to a leaf. -/
def eytzinger1_heapify_path (base1 : Nat → α) (n i : Nat) : Option Nat :=
  (whileLoop (fun j => decide (j * 2 < n)) (eytzinger1_path_step cmp base1 n) (n + 1) i).map
    fun j => if j * 2 = n then j * 2 else j

/-- `while (j != i && eytzinger1_do_cmp(base1, n, size, cmp_func, priv, i, j) >= 0) j /= 2;` -/
def eytzinger1_heapify_backtrack (base1 : Nat → α) (n i j : Nat) : Option Nat :=
  whileLoop (fun j => j != i && decide (eytzinger1_do_cmp cmp base1 n i j ≥ 0)) (· / 2) (j + 1) j

/-- `for (k = j; j != i;) { j /= 2; eytzinger1_do_swap(base1, n, size, swap_func, priv, j, k); }` -/
def eytzinger1_heapify_shift (base1 : Nat → α) (n i k : Nat) : Option (Nat → α) :=
  (whileLoop (fun s : Nat × (Nat → α) => s.1 != i)
      (fun s => (s.1 / 2, eytzinger1_do_swap s.2 n (s.1 / 2) k)) (k + 1) (k, base1)).map Prod.snd

/-- The body of the heapify loop, for `i`. -/
def eytzinger1_heapify_round (base1 : Nat → α) (n i : Nat) : Option (Nat → α) :=
  (eytzinger1_heapify_path cmp base1 n i).bind fun j =>
    (eytzinger1_heapify_backtrack cmp base1 n i j).bind fun k => eytzinger1_heapify_shift base1 n i k

/-- `for (i = n / 2; i >= 1; --i)`: the heapify rounds from `i` down to `1`. -/
def eytzinger1_heapify (n : Nat) : Nat → (Nat → α) → Option (Nat → α)
  | 0, base1 => some base1
  | i + 1, base1 => (eytzinger1_heapify_round cmp base1 n (i + 1)).bind (eytzinger1_heapify n i)

/-! ### Sort -/

/-- `for (j = 1; k = j * 2, k + 1 < i;) ...; if (j * 2 + 1 == i) j *= 2;`: the sift-down path
from the root to a leaf of `[1, i - 1]`. -/
def eytzinger1_sort_path (base1 : Nat → α) (n i : Nat) : Option Nat :=
  (whileLoop (fun j => decide (j * 2 + 1 < i)) (eytzinger1_path_step cmp base1 n) i 1).map
    fun j => if j * 2 + 1 = i then j * 2 else j

/-- `while (j >= 1 && eytzinger1_do_cmp(base1, n, size, cmp_func, priv, 1, j) >= 0) j /= 2;` -/
def eytzinger1_sort_backtrack (base1 : Nat → α) (n j : Nat) : Option Nat :=
  whileLoop (fun j => decide (j ≥ 1) && decide (eytzinger1_do_cmp cmp base1 n 1 j ≥ 0)) (· / 2)
    (j + 1) j

/-- `for (k = j; j > 1;) { j /= 2; eytzinger1_do_swap(base1, n, size, swap_func, priv, j, k); }` -/
def eytzinger1_sort_shift (base1 : Nat → α) (n k : Nat) : Option (Nat → α) :=
  (whileLoop (fun s : Nat × (Nat → α) => decide (s.1 > 1))
      (fun s => (s.1 / 2, eytzinger1_do_swap s.2 n (s.1 / 2) k)) (k + 1) (k, base1)).map Prod.snd

/-- The body of the sort loop, for `i`: `eytzinger1_do_swap(base1, n, size, swap_func, priv, 1,
i)`, then the sift of the new root. -/
def eytzinger1_sort_round (base1 : Nat → α) (n i : Nat) : Option (Nat → α) :=
  let base1 := eytzinger1_do_swap base1 n 1 i
  (eytzinger1_sort_path cmp base1 n i).bind fun j =>
    (eytzinger1_sort_backtrack cmp base1 n j).bind fun k => eytzinger1_sort_shift base1 n k

/-- `for (i = n; i > 1; --i)`: the sort rounds from `i` down to `2`. -/
def eytzinger1_sort_rounds (n : Nat) : Nat → (Nat → α) → Option (Nat → α)
  | i + 2, base1 => (eytzinger1_sort_round cmp base1 n (i + 2)).bind (eytzinger1_sort_rounds n (i + 1))
  | _, base1 => some base1

/-- `eytzinger1_sort_r(base1, n, size, cmp_func, swap_func, priv)`. -/
def eytzinger1_sort_r (base1 : Nat → α) (n : Nat) : Option (Nat → α) :=
  (eytzinger1_heapify cmp n (n / 2) base1).bind (eytzinger1_sort_rounds cmp n n)

/-- `eytzinger0_sort_r(base, n, size, cmp_func, swap_func, priv)`: `base1 = base - size`. -/
def eytzinger0_sort_r (base : Nat → α) (n : Nat) : Option (Nat → α) :=
  (eytzinger1_sort_r cmp (fun k => base (k - 1)) n).map fun base1 k => base1 (k + 1)

/-- `eytzinger0_sort(base, n, size, cmp_func, swap_func)`: `eytzinger0_sort_r` through
`_CMP_WRAPPER`, which calls `cmp_func`. -/
def eytzinger0_sort (base : Nat → α) (n : Nat) : Option (Nat → α) := eytzinger0_sort_r cmp base n

end Bcachefs
