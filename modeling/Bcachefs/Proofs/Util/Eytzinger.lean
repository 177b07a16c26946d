import Bcachefs.Util.Eytzinger
import Bcachefs.Tree.Eytzinger
import Bcachefs.Btree.Bkey

/-!
# The Eytzinger searches find the boundary of the search in inorder

For an array whose inorder is sorted by a comparison that is a total preorder
(`CmpPreorder`), the walk of `eytzinger0_find_le`, `eytzinger0_find_gt` and
`eytzinger0_find_ge` goes right exactly at the nodes on the search's side, which form a
prefix of the inorder. `Tree.descend_spec` says where such a walk ends; this module connects
the code's walk on `unsigned` node numbers to it and reads the answers back:

* `eytzinger0_descend_spec`: the walk of the three searches, on machine words, ends where
  the walk on numbers does, while `nr < 2 ^ 31` keeps every child's number in 32 bits.
* `shiftRight_ffs_eq_subtreePred`, `shiftRight_ffs_succ_eq_subtreeSucc`: dropping the
  trailing zero bits (`__ffs(n)`) or one bits (`__ffs(n + 1)`) of the node, and the bit
  above them, is the node just before the subtree, or just after it, for node numbers
  below `2 ^ 31`, where the shift count stays below 32.
* `eytzinger0_find_le_spec`, `eytzinger0_find_gt_spec`, `eytzinger0_find_ge_spec`: the last
  node `<= search`, the first `> search` and the first `>= search` in inorder, `-1` for none.
* `eytzinger1_find_spec`, `eytzinger0_find_spec`: a node comparing equal, if there is one.

The bounds are where the code's arithmetic stays in range. Past them, the walk of
`eytzinger0_find_gt` over `2 ^ 30 - 1` nodes that are all at most the search ends at node
`2 ^ 31 - 1`, and `__ffs(n + 1) + 1` is 32: `eytzinger0_find_gt_shift_wraps`.
-/

set_option autoImplicit false
set_option linter.style.nameCheck false

namespace Bcachefs.Proofs.Util

open Bcachefs Bcachefs.Loop Bcachefs.Tree

/-! ### Comparisons -/

/-- A comparison of the C sort that is a total preorder: `x ≤ y` is `cmp x y ≤ 0`, which is
transitive, and the sign turns round with the arguments. -/
structure CmpPreorder {α : Type} (cmp : α → α → Int) : Prop where
  trans : ∀ {x y z : α}, cmp x y ≤ 0 → cmp y z ≤ 0 → cmp x z ≤ 0
  swap : ∀ {x y : α}, 0 ≤ cmp x y ↔ cmp y x ≤ 0

/-- `cmp_int` on numbers is a total preorder. -/
theorem cmpPreorder_cmp_int : CmpPreorder (cmp_int : Nat → Nat → Int) where
  -- each `cmp_int` is `-1`, `0` or `1` by the order of the numbers
  trans := by
    intro x y z hxy hyz
    unfold cmp_int at *
    split_ifs at * <;> omega
  swap := by
    intro x y
    unfold cmp_int
    split_ifs <;> omega

namespace CmpPreorder

variable {α : Type} {cmp : α → α → Int} (hc : CmpPreorder cmp)
include hc

/-- `≤` then `<` is `<`. -/
theorem lt_of_le_of_lt {x y z : α} (hxy : cmp x y ≤ 0) (hyz : cmp y z < 0) : cmp x z < 0 := by
  by_contra h
  have hzx : cmp z x ≤ 0 := hc.swap.1 (by omega)
  have hzy : cmp z y ≤ 0 := hc.trans hzx hxy
  have := hc.swap.2 hzy
  omega

/-- A search above an element is above every element before it. -/
theorem pos_of_le_of_pos {s x y : α} (hxy : cmp x y ≤ 0) (hy : 0 < cmp s y) : 0 < cmp s x := by
  by_contra h
  have := hc.trans (by omega : cmp s x ≤ 0) hxy
  omega

/-- A search below an element is below every element after it. -/
theorem neg_of_le_of_neg {s x y : α} (hxy : cmp x y ≤ 0) (hx : cmp s x < 0) : cmp s y < 0 := by
  by_contra h
  have hys : cmp y s ≤ 0 := hc.swap.1 (by omega)
  have := hc.swap.2 (hc.trans hxy hys)
  omega

end CmpPreorder

/-! ### Node numbers on 32 bits -/

/-- `eytzinger1_child(i, b)` is `2 * i + b` while that fits in 32 bits. -/
theorem toNat_eytzinger1_child {i b : UInt32} (h : 2 * i.toNat + b.toNat < 2 ^ 32) :
    (eytzinger1_child i b).toNat = 2 * i.toNat + b.toNat := by
  unfold eytzinger1_child
  rw [UInt32.toNat_add, UInt32.toNat_shiftLeft, UInt32.toNat_one, Nat.shiftLeft_eq,
    show 2 ^ (1 % 32) = 2 from rfl]
  omega

/-- An `unsigned` below `2 ^ 31` read as an `int` keeps its value. -/
theorem toInt_toInt32_of_lt {x : UInt32} (h : x.toNat < 2 ^ 31) : x.toInt32.toInt = x.toNat := by
  rw [← Int32.toInt_toBitVec]
  simp [UInt32.toInt32, Int32.toBitVec, BitVec.toInt]
  omega

/-- `return n - 1;` of an `unsigned` node below `2 ^ 31`, as an `int`: `-1` for node `0`. -/
theorem toInt_toInt32_sub_one {x : UInt32} (h : x.toNat < 2 ^ 31) :
    (x - 1).toInt32.toInt = (x.toNat : Int) - 1 := by
  rcases Nat.eq_zero_or_pos x.toNat with h0 | h0
  · obtain rfl : x = 0 := UInt32.toNat_inj.1 h0
    decide
  -- a node of at least `1`: `n - 1` does not wrap
  · have hsub : (x - 1).toNat = x.toNat - 1 :=
      UInt32.toNat_sub_of_le _ _ (UInt32.le_iff_toNat_le.2 (by simp; omega))
    rw [toInt_toInt32_of_lt (by omega), hsub]
    omega

/-! ### The walk of the three searches -/

/-- The walk on node numbers is the walk of `Tree.descend` on numbers, while no child's
number overflows: below `2 ^ 31` it fits in 32 bits. -/
theorem eytzinger0_descend_toNat {nr : UInt64} {right : UInt32 → Bool} {p : Nat → Bool}
    (hnr : nr.toNat < 2 ^ 31) (hright : ∀ n : UInt32, n.toNat ≤ nr.toNat → right n = p n.toNat) :
    (eytzinger0_descend nr right).map UInt32.toNat = descend nr.toNat p EYTZINGER_WALK_FUEL 1 := by
  symm
  unfold eytzinger0_descend descend
  refine whileLoop_map UInt32.toNat (fun _ => True) (fun n _ => ?_) (fun n _ hc => ⟨?_, trivial⟩)
    (s := (1 : UInt32)) trivial
  · simp [UInt64.le_iff_toNat_le]
  -- a node of the tree: its child's number fits in 32 bits
  · have hle : n.toNat ≤ nr.toNat := by simpa [UInt64.le_iff_toNat_le] using hc
    rw [hright n hle, descendStep]
    cases p n.toNat
    · rw [if_neg (by decide), toNat_eytzinger1_child (by simp; omega)]
      rfl
    · rw [if_pos rfl, toNat_eytzinger1_child (by simp; omega)]
      rfl

/-- Where the walk of the three searches ends, for a side predicate `p` that holds on a
prefix of the inorder: one level below the tree, just after the last node where `p` holds
and just before the first where it fails. -/
theorem eytzinger0_descend_spec {nr : UInt64} {right : UInt32 → Bool} {p : Nat → Bool}
    (hnr : nr.toNat < 2 ^ 31) (hright : ∀ n : UInt32, n.toNat ≤ nr.toNat → right n = p n.toNat)
    (hp : (inorder nr.toNat 1).Pairwise fun x y => p y = true → p x = true) :
    ∃ n : UInt32, eytzinger0_descend nr right = some n ∧ nr.toNat < n.toNat ∧
      n.toNat ≤ 2 * nr.toNat + 1 ∧
      subtreePred n.toNat = ((inorder nr.toNat 1).filter p).getLast?.getD 0 ∧
      subtreeSucc n.toNat = ((inorder nr.toNat 1).filter fun x => !p x).head?.getD 0 := by
  have hsim := eytzinger0_descend_toNat hnr hright
  -- `EYTZINGER_WALK_FUEL` covers the levels of any tree below `2 ^ 31`
  obtain ⟨k, hk⟩ := @descend_isSome nr.toNat p EYTZINGER_WALK_FUEL (by
    have := Nat.log_le_self 2 nr.toNat
    unfold EYTZINGER_WALK_FUEL
    omega)
  rw [hk] at hsim
  obtain ⟨n, hn, rfl⟩ := Option.map_eq_some_iff.1 hsim
  exact ⟨n, hn, (descend_bounds hk).1, (descend_bounds hk).2, descend_spec hp hk⟩

/-! ### Dropping the trailing bits -/

/-- A positive number below `2 ^ k` has fewer than `k` trailing zero bits. -/
theorem ctz_bits_lt {w x k : Nat} (hx : 0 < x) (hk : x < 2 ^ k) : ctz_bits w x < k := by
  induction w generalizing x k with
  | zero =>
    rcases k with _ | k
    · simp at hk
      omega
    · simp [ctz_bits]
  | succ w ih =>
    rw [ctz_bits]
    rcases k with _ | k
    · simp at hk
      omega
    -- an odd number has no trailing zero, an even one has one more than its half
    split_ifs with hodd
    · omega
    · have := ih (x := x / 2) (k := k) (by omega) (by rw [Nat.pow_succ] at hk; omega)
      omega

/-- The bits of a node below its lowest set bit, and that bit, lead from its parent's
right child up to the parent: what is left is `subtreePred x`. -/
theorem div_ctz_bits_eq_subtreePred {w x : Nat} (hx : 0 < x) (hw : x < 2 ^ w) :
    x / 2 ^ (ctz_bits w x + 1) = subtreePred x := by
  induction w generalizing x with
  | zero =>
    simp at hw
    omega
  | succ w ih =>
    rw [ctz_bits]
    split_ifs with hodd
    · -- a right child, or the root
      rcases Nat.lt_or_ge x 2 with h1 | h1
      · obtain rfl : x = 1 := by omega
        simp
      · have h := subtreePred_right (c := x / 2) (by omega)
        rw [show 2 * (x / 2) + 1 = x by omega] at h
        rw [h]
        omega
    · -- a left child: the parent has the same node before its subtree
      have hx2 : 0 < x / 2 := by omega
      have h := subtreePred_left hx2
      rw [show 2 * (x / 2) = x by omega] at h
      rw [h, ← ih hx2 (by rw [Nat.pow_succ] at hw; omega), Nat.pow_succ', ← Nat.div_div_eq_div_mul]

/-- The same for the trailing one bits: what is left is `subtreeSucc x`. -/
theorem div_ctz_bits_succ_eq_subtreeSucc {w x : Nat} (hx : 0 < x) (hw : x + 1 < 2 ^ w) :
    x / 2 ^ (ctz_bits w (x + 1) + 1) = subtreeSucc x := by
  induction w generalizing x with
  | zero =>
    simp at hw
  | succ w ih =>
    rw [ctz_bits]
    split_ifs with hodd
    · -- a left child
      have h := subtreeSucc_left (c := x / 2) (by omega)
      rw [show 2 * (x / 2) = x by omega] at h
      rw [h]
      omega
    · -- a right child, or the root
      rw [show (x + 1) / 2 = x / 2 + 1 by omega]
      rcases Nat.lt_or_ge x 2 with h1 | h1
      · obtain rfl : x = 1 := by omega
        rw [subtreeSucc_one]
        exact Nat.div_eq_of_lt (Nat.one_lt_two_pow (by omega))
      · have hx2 : 0 < x / 2 := by omega
        have h := subtreeSucc_right hx2
        rw [show 2 * (x / 2) + 1 = x by omega] at h
        rw [h, ← ih hx2 (by rw [Nat.pow_succ] at hw; omega), Nat.pow_succ',
          ← Nat.div_div_eq_div_mul]

/-- `__ffs(x) + 1` as a shift count, for `0 < x < 2 ^ 31`: at most 31. -/
theorem toNat_ffs_add_one {x : UInt64} (h0 : 0 < x.toNat) (h : x.toNat < 2 ^ 31) :
    (__ffs x + 1).toUInt32.toNat = ctz_bits 64 x.toNat + 1 := by
  have hlt := ctz_bits_lt (w := 64) h0 h
  unfold __ffs __builtin_ctzl
  rw [UInt64.toNat_toUInt32, UInt64.toNat_add, Nat.toUInt64_eq, UInt64.toNat_ofNat',
    UInt64.toNat_one]
  omega

/-- `n >>= __ffs(n) + 1` takes a node below `2 ^ 31` to the node just before its subtree. -/
theorem shiftRight_ffs_eq_subtreePred {n : UInt32} (h0 : 0 < n.toNat) (h : n.toNat < 2 ^ 31) :
    (n >>> (__ffs n.toUInt64 + 1).toUInt32).toNat = subtreePred n.toNat := by
  have hc := toNat_ffs_add_one (x := n.toUInt64) (by simpa using h0) (by simpa using h)
  rw [UInt32.toNat_toUInt64] at hc
  have hlt := ctz_bits_lt (w := 64) h0 h
  rw [UInt32.toNat_shiftRight, hc, Nat.mod_eq_of_lt (by omega), Nat.shiftRight_eq_div_pow]
  exact div_ctz_bits_eq_subtreePred h0 (by omega)

/-- `n >>= __ffs(n + 1) + 1` takes a node below `2 ^ 31 - 1` to the node just after its
subtree. -/
theorem shiftRight_ffs_succ_eq_subtreeSucc {n : UInt32} (h0 : 0 < n.toNat)
    (h : n.toNat + 1 < 2 ^ 31) :
    (n >>> (__ffs (n + 1).toUInt64 + 1).toUInt32).toNat = subtreeSucc n.toNat := by
  have h1 : (n + 1).toUInt64.toNat = n.toNat + 1 := by
    rw [UInt32.toNat_toUInt64, UInt32.toNat_add, UInt32.toNat_one]
    omega
  have hc := toNat_ffs_add_one (x := (n + 1).toUInt64) (by omega) (by omega)
  rw [h1] at hc
  have hlt := ctz_bits_lt (w := 64) (by omega : 0 < n.toNat + 1) h
  rw [UInt32.toNat_shiftRight, hc, Nat.mod_eq_of_lt (by omega), Nat.shiftRight_eq_div_pow]
  exact div_ctz_bits_succ_eq_subtreeSucc h0 (by omega)

/-! ### The three searches -/

section Searches

variable {α : Type} {base : Nat → α} {nr : UInt64} {cmp : α → α → Int} {search : α}

/-- The last node of the inorder whose element is `<= search`, `0` for none. -/
def lastLe (base : Nat → α) (nr : Nat) (cmp : α → α → Int) (search : α) : Nat :=
  ((inorder nr 1).filter fun i => decide (cmp (base (i - 1)) search ≤ 0)).getLast?.getD 0

/-- The first node of the inorder whose element is `> search`, `0` for none. -/
def firstGt (base : Nat → α) (nr : Nat) (cmp : α → α → Int) (search : α) : Nat :=
  ((inorder nr 1).filter fun i => decide (0 < cmp (base (i - 1)) search)).head?.getD 0

/-- The first node of the inorder whose element is `>= search`, `0` for none. -/
def firstGe (base : Nat → α) (nr : Nat) (cmp : α → α → Int) (search : α) : Nat :=
  ((inorder nr 1).filter fun i => decide (0 ≤ cmp (base (i - 1)) search)).head?.getD 0

variable (hcmp : CmpPreorder cmp)
  (hsorted : ((inorder nr.toNat 1).map fun i => base (i - 1)).Pairwise fun x y => cmp x y ≤ 0)
include hcmp hsorted

omit hcmp in
/-- Sorted elements make a side predicate that holds on an initial segment of the inorder. -/
theorem side_pairwise_of_sorted {q : Int → Prop} [DecidablePred q]
    (hq : ∀ {x y : α}, cmp x y ≤ 0 → q (cmp y search) → q (cmp x search)) :
    (inorder nr.toNat 1).Pairwise fun x y =>
      decide (q (cmp (base (y - 1)) search)) = true → decide (q (cmp (base (x - 1)) search)) = true := by
  refine (List.pairwise_map.1 hsorted).imp fun hxy hy => ?_
  simp only [decide_eq_true_eq] at hy ⊢
  exact hq hxy hy

/-- On elements sorted along the inorder, `eytzinger0_find_le` returns the index of the last element
`<= search`, `-1` for none. -/
theorem eytzinger0_find_le_spec (hnr : nr.toNat < 2 ^ 30) :
    (eytzinger0_find_le base nr cmp search).map Int32.toInt =
      some ((lastLe base nr.toNat cmp search : Int) - 1) := by
  obtain ⟨n, hn, hlo, hhi, hpred, -⟩ := eytzinger0_descend_spec (show nr.toNat < 2 ^ 31 by omega) (fun _ _ => rfl)
    (side_pairwise_of_sorted hsorted (q := (· ≤ 0)) fun hxy hy => hcmp.trans hxy hy)
  unfold eytzinger0_find_le
  rw [hn, Option.map_some, Option.map_some]
  -- `n >>= __ffs(n) + 1` takes the walk's end to the last node the search is above
  have hstrip := shiftRight_ffs_eq_subtreePred (n := n) (by omega) (by omega)
  have hlt : (n >>> (__ffs n.toUInt64 + 1).toUInt32).toNat < 2 ^ 31 := by
    have := subtreePred_le n.toNat
    omega
  rw [toInt_toInt32_sub_one hlt, hstrip, hpred]
  rfl

/-- On elements sorted along the inorder, `eytzinger0_find_gt` returns the index of the first
element `> search`, `-1` for none. -/
theorem eytzinger0_find_gt_spec (hnr : nr.toNat < 2 ^ 30 - 1) :
    (eytzinger0_find_gt base nr cmp search).map Int32.toInt =
      some ((firstGt base nr.toNat cmp search : Int) - 1) := by
  obtain ⟨n, hn, hlo, hhi, -, hsucc⟩ := eytzinger0_descend_spec (show nr.toNat < 2 ^ 31 by omega) (fun _ _ => rfl)
    (side_pairwise_of_sorted hsorted (q := (· ≤ 0)) fun hxy hy => hcmp.trans hxy hy)
  unfold eytzinger0_find_gt
  rw [hn, Option.map_some, Option.map_some]
  -- `n >>= __ffs(n + 1) + 1` takes the walk's end to the first node the search is below
  have hstrip := shiftRight_ffs_succ_eq_subtreeSucc (n := n) (by omega) (by omega)
  have hlt : (n >>> (__ffs (n + 1).toUInt64 + 1).toUInt32).toNat < 2 ^ 31 := by
    have := subtreeSucc_le n.toNat
    omega
  -- the walk went left at the nodes whose element is not `<= search`
  have hf : (inorder nr.toNat 1).filter (fun i => !decide (cmp (base (i - 1)) search ≤ 0)) =
      (inorder nr.toNat 1).filter (fun i => decide (0 < cmp (base (i - 1)) search)) :=
    List.filter_congr fun i _ => by
      rw [Bool.eq_iff_iff]
      simp
  rw [toInt_toInt32_sub_one hlt, hstrip, hsucc, hf]
  rfl

/-- On elements sorted along the inorder, `eytzinger0_find_ge` returns the index of the first
element `>= search`, `-1` for none. -/
theorem eytzinger0_find_ge_spec (hnr : nr.toNat < 2 ^ 30 - 1) :
    (eytzinger0_find_ge base nr cmp search).map Int32.toInt =
      some ((firstGe base nr.toNat cmp search : Int) - 1) := by
  obtain ⟨n, hn, hlo, hhi, -, hsucc⟩ := eytzinger0_descend_spec (show nr.toNat < 2 ^ 31 by omega) (fun _ _ => rfl)
    (side_pairwise_of_sorted hsorted (q := (· < 0)) fun hxy hy => hcmp.lt_of_le_of_lt hxy hy)
  unfold eytzinger0_find_ge
  rw [hn, Option.map_some, Option.map_some]
  -- the walk goes right while the element is `< search`; the strip then finds the first that is not
  have hstrip := shiftRight_ffs_succ_eq_subtreeSucc (n := n) (by omega) (by omega)
  have hlt : (n >>> (__ffs (n + 1).toUInt64 + 1).toUInt32).toNat < 2 ^ 31 := by
    have := subtreeSucc_le n.toNat
    omega
  have hf : (inorder nr.toNat 1).filter (fun i => !decide (cmp (base (i - 1)) search < 0)) =
      (inorder nr.toNat 1).filter (fun i => decide (0 ≤ cmp (base (i - 1)) search)) :=
    List.filter_congr fun i _ => by
      rw [Bool.eq_iff_iff]
      simp
  rw [toInt_toInt32_sub_one hlt, hstrip, hsucc, hf]
  rfl

end Searches

/-! ### The search for an equal element -/

section Find

variable {α : Type} {base : Nat → α} {nr : UInt32} {cmp : α → α → Int} {search : α}

/-- What one iteration of `eytzinger1_find` does: stop at the node when it compares equal,
else go to the right child when the search is above it and to the left one when below. -/
theorem eytzinger1_find_step_cases (i : UInt32) :
    (cmp search (base i.toNat) = 0 ∧ eytzinger1_find_step base cmp search (i, false) = (i, true)) ∨
    (0 < cmp search (base i.toNat) ∧
      eytzinger1_find_step base cmp search (i, false) = (eytzinger1_child i 1, false)) ∨
    (cmp search (base i.toNat) < 0 ∧
      eytzinger1_find_step base cmp search (i, false) = (eytzinger1_child i 0, false)) := by
  unfold eytzinger1_find_step
  dsimp only
  -- `cmp` is `0`, positive or negative
  split_ifs with h0 hpos
  · exact .inl ⟨h0, rfl⟩
  · exact .inr (.inl ⟨hpos, rfl⟩)
  · exact .inr (.inr ⟨by omega, rfl⟩)

/-- The invariant of `eytzinger1_find`'s loop: a node found equal, or a walk at most one
level below the array, with the nodes the search is above on its left and those it is
below on its right. -/
def FindInv (base : Nat → α) (nr : Nat) (cmp : α → α → Int) (search : α) :
    UInt32 × Bool → Prop
  | (i, true) => 0 < i.toNat ∧ i.toNat ≤ nr ∧ cmp search (base i.toNat) = 0
  | (i, false) => i.toNat ≤ 2 * nr + 1 ∧
      WalkSplit nr i.toNat (fun x => 0 < cmp search (base x)) (fun x => cmp search (base x) < 0)

/-- The levels the walk has still to go down, none once it has found the node. -/
def findMeasure (nr : Nat) : UInt32 × Bool → Nat
  | (_, true) => 0
  | (i, false) => Nat.log 2 nr + 2 - Nat.log 2 i.toNat

attribute [grind] findMeasure

/-- One iteration keeps the invariant and goes one level down, or stops. -/
theorem findInv_step (hcmp : CmpPreorder cmp) (hnr : nr.toNat < 2 ^ 31)
    (hsorted : (inorder nr.toNat 1).Pairwise fun x y => cmp (base x) (base y) ≤ 0)
    {s : UInt32 × Bool} (hs : FindInv base nr.toNat cmp search s)
    (hc : (!s.2 && decide (s.1 ≤ nr)) = true) :
    FindInv base nr.toNat cmp search (eytzinger1_find_step base cmp search s) ∧
      findMeasure nr.toNat (eytzinger1_find_step base cmp search s) < findMeasure nr.toNat s := by
  obtain ⟨i, _ | _⟩ := s
  · have hle : i.toNat ≤ nr.toNat := by simpa [UInt32.le_iff_toNat_le] using hc
    obtain ⟨-, hw⟩ := hs
    have hlog : Nat.log 2 i.toNat ≤ Nat.log 2 nr.toNat := Nat.log_mono_right hle
    obtain ⟨hbefore, hafter⟩ := hw.pairwise hle hsorted
    rcases @eytzinger1_find_step_cases α base cmp search i with
      ⟨h0, hstep⟩ | ⟨hpos, hstep⟩ | ⟨hneg, hstep⟩
    · rw [hstep]
      exact ⟨⟨hw.pos, hle, h0⟩, by simp only [findMeasure]; omega⟩
    · -- the search is above node `i`, and so above its left subtree
      have hch : (eytzinger1_child i 1).toNat = 2 * i.toNat + 1 :=
        toNat_eytzinger1_child (by simp; omega)
      rw [hstep]
      refine ⟨⟨by rw [hch]; omega, ?_⟩, ?_⟩
      · rw [hch]
        exact hw.right hle (fun x hx => hcmp.pos_of_le_of_pos (hbefore x hx) hpos) hpos
      · simp only [findMeasure]
        rw [hch, log_two_child hw.pos (by omega)]
        omega
    · -- the search is below node `i`, and so below its right subtree
      have hch : (eytzinger1_child i 0).toNat = 2 * i.toNat := by
        rw [toNat_eytzinger1_child (by simp; omega)]
        rfl
      rw [hstep]
      refine ⟨⟨by rw [hch]; omega, ?_⟩, ?_⟩
      · rw [hch]
        exact hw.left hle (fun y hy => hcmp.neg_of_le_of_neg (hafter y hy) hneg) hneg
      · simp only [findMeasure]
        rw [hch, show 2 * i.toNat = 2 * i.toNat + 0 by rfl, log_two_child hw.pos (by omega)]
        omega
  -- a node found ends the loop
  · simp at hc

/-- `eytzinger1_find` on an array seen one-based: the node of an element comparing equal, or
`0` when none does. -/
theorem eytzinger1_find_spec (hcmp : CmpPreorder cmp) (hnr : nr.toNat < 2 ^ 31)
    (hsorted : ((inorder nr.toNat 1).map base).Pairwise fun x y => cmp x y ≤ 0) :
    ∃ r : Int32, eytzinger1_find base nr cmp search = some r ∧
      ((r.toInt = 0 ∧ ∀ i, 0 < i → i ≤ nr.toNat → cmp search (base i) ≠ 0) ∨
        (0 < r.toInt ∧ r.toInt ≤ nr.toNat ∧ cmp search (base r.toInt.toNat) = 0)) := by
  have hsorted' := List.pairwise_map.1 hsorted
  have hI0 : FindInv base nr.toNat cmp search (1, false) :=
    ⟨by simp, by rw [UInt32.toNat_one]; exact WalkSplit.root _ _ _⟩
  obtain ⟨s, hs⟩ : ∃ s, whileLoop (fun s => !s.2 && decide (s.1 ≤ nr))
      (eytzinger1_find_step base cmp search) EYTZINGER_WALK_FUEL (1, false) = some s :=
    whileLoop_isSome_of_measure (FindInv base nr.toNat cmp search) (findMeasure nr.toNat)
      (fun s h hc => findInv_step hcmp hnr hsorted' h hc) hI0 (by
        have := Nat.log_le_self 2 nr.toNat
        simp only [findMeasure, UInt32.toNat_one, Nat.log_one_right, EYTZINGER_WALK_FUEL]
        omega)
  obtain ⟨hI, hc⟩ := whileLoop_inv (FindInv base nr.toNat cmp search)
    (fun s h hc => (findInv_step hcmp hnr hsorted' h hc).1) hI0 hs
  refine ⟨_, by unfold eytzinger1_find; rw [hs]; rfl, ?_⟩
  obtain ⟨i, _ | _⟩ := s
  · -- the walk fell off the array: every node is on one side of the search
    obtain ⟨-, hw⟩ := hI
    have hlt : nr.toNat < i.toNat := by simpa [UInt32.le_iff_toNat_le] using hc
    obtain ⟨L, R, heq, hL, hR, -, -⟩ := hw.eq_append hlt
    refine .inl ⟨rfl, fun j hj0 hjle hj => ?_⟩
    have hmem : j ∈ inorder nr.toNat 1 := mem_inorder_one.2 ⟨hj0, hjle⟩
    rw [heq, List.mem_append] at hmem
    rcases hmem with hm | hm
    · have := hL j hm
      omega
    · have := hR j hm
      omega
  -- the loop stopped on a node comparing equal
  · obtain ⟨h0, hle, heq⟩ := hI
    refine .inr ?_
    simp only [if_true]
    rw [toInt_toInt32_of_lt (by omega)]
    exact ⟨by omega, by omega, by simpa using heq⟩

/-- `eytzinger0_find`: the index of an element comparing equal, or `-1` when none does. -/
theorem eytzinger0_find_spec (hcmp : CmpPreorder cmp) (hnr : nr.toNat < 2 ^ 31)
    (hsorted : ((inorder nr.toNat 1).map fun i => base (i - 1)).Pairwise fun x y => cmp x y ≤ 0) :
    ∃ r : Int32, eytzinger0_find base nr cmp search = some r ∧
      ((r.toInt = -1 ∧ ∀ i < nr.toNat, cmp search (base i) ≠ 0) ∨
        (0 ≤ r.toInt ∧ r.toInt < nr.toNat ∧ cmp search (base r.toInt.toNat) = 0)) := by
  obtain ⟨r, hr, h⟩ :=
    @eytzinger1_find_spec α (fun i => base (i - 1)) nr cmp search hcmp hnr hsorted
  refine ⟨r - 1, by unfold eytzinger0_find; rw [hr]; rfl, ?_⟩
  -- `r - 1` does not wrap: `r` is a node, or `0`
  have hsub : (r - 1).toInt = r.toInt - 1 := by
    have hlo := Int32.le_toInt r
    have hhi := Int32.toInt_lt r
    rw [Int32.toInt_sub, show (1 : Int32).toInt = 1 from rfl]
    exact Int.bmod_eq_of_le (by omega) (by omega)
  rcases h with ⟨h0, hnone⟩ | ⟨hpos, hle, heq⟩
  · refine .inl ⟨by omega, fun i hi => ?_⟩
    simpa using hnone (i + 1) (by omega) (by omega)
  · refine .inr ⟨by omega, by omega, ?_⟩
    rw [hsub, show (r.toInt - 1).toNat = r.toInt.toNat - 1 by omega]
    exact heq

end Find

/-! ### The searches of an array of `nr` elements -/

/-- The searches of an array in Eytzinger order, for a count `nr` of elements up to
`2 ^ 30 - 2`: `find_le`, `find_gt` and `find_ge` give the last element `<= search`, the first
`> search` and the first `>= search` in inorder (as an index, `-1` for none), and
`eytzinger0_find` and `eytzinger1_find` an element comparing equal if there is one. -/
theorem eytzinger0_searches_spec {α : Type} (base : Nat → α) (nr : Nat) (cmp : α → α → Int)
    (search : α) (hcmp : CmpPreorder cmp) (hnr : nr ≤ 2 ^ 30 - 2)
    (hsorted : ((inorder nr 1).map fun i => base (i - 1)).Pairwise fun x y => cmp x y ≤ 0) :
    (eytzinger0_find_le base nr.toUInt64 cmp search).map Int32.toInt =
        some ((lastLe base nr cmp search : Int) - 1) ∧
      (eytzinger0_find_gt base nr.toUInt64 cmp search).map Int32.toInt =
        some ((firstGt base nr cmp search : Int) - 1) ∧
      (eytzinger0_find_ge base nr.toUInt64 cmp search).map Int32.toInt =
        some ((firstGe base nr cmp search : Int) - 1) ∧
      (∃ r : Int32, eytzinger0_find base nr.toUInt32 cmp search = some r ∧
        ((r.toInt = -1 ∧ ∀ i < nr, cmp search (base i) ≠ 0) ∨
          (0 ≤ r.toInt ∧ r.toInt < nr ∧ cmp search (base r.toInt.toNat) = 0))) ∧
      (∃ r : Int32, eytzinger1_find (fun i => base (i - 1)) nr.toUInt32 cmp search = some r ∧
        ((r.toInt = 0 ∧ ∀ i, 0 < i → i ≤ nr → cmp search (base (i - 1)) ≠ 0) ∨
          (0 < r.toInt ∧ r.toInt ≤ nr ∧ cmp search (base (r.toInt.toNat - 1)) = 0))) := by
  have h64 : nr.toUInt64.toNat = nr := by
    rw [Nat.toUInt64_eq, UInt64.toNat_ofNat']
    omega
  have h32 : nr.toUInt32.toNat = nr := by
    rw [Nat.toUInt32_eq, UInt32.toNat_ofNat']
    omega
  have hs64 := h64.symm ▸ hsorted
  have hs32 := h32.symm ▸ hsorted
  -- below `2 ^ 30` the count fits both the `u64` and the `u32` parameters
  refine ⟨?_, ?_, ?_, ?_, ?_⟩
  · rw [eytzinger0_find_le_spec hcmp hs64 (by omega), h64]
  · rw [eytzinger0_find_gt_spec hcmp hs64 (by omega), h64]
  · rw [eytzinger0_find_ge_spec hcmp hs64 (by omega), h64]
  · simpa only [h32] using eytzinger0_find_spec hcmp (by omega) hs32
  · simpa only [h32] using
      @eytzinger1_find_spec α (fun i => base (i - 1)) nr.toUInt32 cmp search hcmp (by omega) hs32

/-- Six elements laid out in eytzinger order: `10, 20, ..., 60` along the inorder
`4, 2, 5, 1, 6, 3` of the nodes. -/
def eytzinger_six (i : Nat) : Nat := [40, 20, 60, 10, 30, 50].getD i 0

/-- The search for `30`, at node `5`: every search walks down two levels. -/
theorem eytzinger0_searches_spec_six :
    (eytzinger0_find_le eytzinger_six (6 : Nat).toUInt64 cmp_int 30).map Int32.toInt =
        some ((lastLe eytzinger_six 6 cmp_int 30 : Int) - 1) ∧
      (eytzinger0_find_gt eytzinger_six (6 : Nat).toUInt64 cmp_int 30).map Int32.toInt =
        some ((firstGt eytzinger_six 6 cmp_int 30 : Int) - 1) ∧
      (eytzinger0_find_ge eytzinger_six (6 : Nat).toUInt64 cmp_int 30).map Int32.toInt =
        some ((firstGe eytzinger_six 6 cmp_int 30 : Int) - 1) ∧
      (∃ r : Int32, eytzinger0_find eytzinger_six (6 : Nat).toUInt32 cmp_int 30 = some r ∧
        ((r.toInt = -1 ∧ ∀ i < 6, cmp_int 30 (eytzinger_six i) ≠ 0) ∨
          (0 ≤ r.toInt ∧ r.toInt < 6 ∧ cmp_int 30 (eytzinger_six r.toInt.toNat) = 0))) ∧
      (∃ r : Int32, eytzinger1_find (fun i => eytzinger_six (i - 1)) (6 : Nat).toUInt32 cmp_int 30 = some r ∧
        ((r.toInt = 0 ∧ ∀ i, 0 < i → i ≤ 6 → cmp_int 30 (eytzinger_six (i - 1)) ≠ 0) ∨
          (0 < r.toInt ∧ r.toInt ≤ 6 ∧ cmp_int 30 (eytzinger_six (r.toInt.toNat - 1)) = 0))) :=
  eytzinger0_searches_spec eytzinger_six 6 cmp_int 30 cmpPreorder_cmp_int (by norm_num)
    (by rw [show inorder 6 1 = [4, 2, 5, 1, 6, 3] by simp [inorder_of_le, inorder_of_lt]]; decide)

/-- Past the bound: `2 ^ 30 - 1` elements all equal to the search, so none above it. The walk
of `eytzinger0_find_gt` goes right at every node and stops at node `2 ^ 31 - 1`;
`__ffs(n + 1) + 1` is 32, a shift the C leaves undefined and x86 takes as no shift, and the
search returns `2 ^ 31 - 2` in place of `-1`. -/
theorem eytzinger0_find_gt_shift_wraps :
    ((inorder (2 ^ 30 - 1) 1).map fun _ => (0 : Nat)).Pairwise (fun x y => cmp_int x y ≤ 0) ∧
      firstGt (fun _ => (0 : Nat)) (2 ^ 30 - 1) cmp_int 0 = 0 ∧
      eytzinger0_find_gt (fun _ => (0 : Nat)) (2 ^ 30 - 1) cmp_int 0 = some 2147483646 :=
  ⟨List.pairwise_map.2 (List.pairwise_of_forall fun _ _ => by simp [cmp_int]),
    by simp [firstGt, cmp_int], by decide⟩

end Bcachefs.Proofs.Util
