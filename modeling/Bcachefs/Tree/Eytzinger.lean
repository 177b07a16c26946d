import Bcachefs.Loop.While
import Mathlib.Data.Nat.Log

/-!
# `Bcachefs.Tree.Eytzinger`: searching the implicit tree of an array

An array in Eytzinger order holds a complete binary tree: node `i` (one-based,
`1 ≤ i ≤ nr`) has the children `2 * i` and `2 * i + 1`. The order the layout encodes is the
tree's inorder, `inorder nr i` for the subtree at `i`.

A search walks down from the root, to the right child where a predicate holds at the node
and to the left one where it does not, until it falls off the tree at a node past `nr`.
When the predicate holds on a prefix of the inorder and fails after it, the walk ends
between the last node where it holds and the first where it fails, and both are read off
the node the walk ends at: `subtreePred n` is the node just before the subtree at `n` in
inorder (the deepest ancestor with `n` in its right subtree), `subtreeSucc n` the node just
after it (the deepest ancestor with `n` in its left subtree). The invariant is `WalkSplit`:
the inorder is the nodes left of the current subtree, the subtree, and the nodes right of
it, with what is known of each side.

* `inorder_of_le`, `inorder_of_lt`: the traversal's two equations.
* `mem_inorder_one`: the traversal from the root lists exactly the nodes `1..nr`.
* `WalkSplit.right`, `WalkSplit.left`: one step of a walk keeps the invariant.
* `descend_spec`: where the walk of a monotone predicate ends.
* `descend_isSome`, `descend_bounds`: it ends within `Nat.log 2 nr + 2` tests, one level
  below the tree.
-/

set_option autoImplicit false

namespace Bcachefs.Tree

open Bcachefs.Loop

/-! ### The inorder traversal -/

/-- The nodes of the subtree at `i` of the tree on the nodes `1..nr`, in inorder. -/
def inorder (nr i : Nat) : List Nat :=
  if 0 < i ∧ i ≤ nr then inorder nr (2 * i) ++ i :: inorder nr (2 * i + 1) else []
termination_by nr + 1 - i

attribute [grind] inorder

/-- A node of the tree: its left subtree, the node, its right subtree. -/
theorem inorder_of_le {nr i : Nat} (h0 : 0 < i) (h : i ≤ nr) :
    inorder nr i = inorder nr (2 * i) ++ i :: inorder nr (2 * i + 1) := by
  rw [inorder, if_pos ⟨h0, h⟩]

/-- Below the tree the subtree is empty. -/
theorem inorder_of_lt {nr i : Nat} (h : nr < i) : inorder nr i = [] := by
  rw [inorder, if_neg (by omega)]

/-- A subtree holds its root and nodes below it, up to `nr`. -/
theorem le_of_mem_inorder {nr i x : Nat} : x ∈ inorder nr i → 0 < i ∧ i ≤ x ∧ x ≤ nr := by
  fun_induction inorder nr i with
  | case1 i hi ihl ihr =>
    intro h
    rw [List.mem_append, List.mem_cons] at h
    -- a node of a child's subtree, the root, or a node of the other child's
    rcases h with h | rfl | h
    · have := ihl h
      omega
    · omega
    · have := ihr h
      omega
  | case2 i hi =>
    intro h
    cases h

/-- A node of the tree is in its own subtree. -/
theorem mem_inorder_self {nr x : Nat} (h0 : 0 < x) (h : x ≤ nr) : x ∈ inorder nr x := by
  rw [inorder_of_le h0 h]
  simp

/-- The subtree of a node of a subtree lies in that subtree. -/
theorem inorder_subset {nr i j : Nat} : j ∈ inorder nr i → ∀ x ∈ inorder nr j, x ∈ inorder nr i := by
  fun_induction inorder nr i with
  | case1 i hi ihl ihr =>
    intro hj x hx
    rw [List.mem_append, List.mem_cons] at hj
    -- the subtree of `j` is inside a child's subtree, or is the whole one
    rcases hj with hj | rfl | hj
    · exact List.mem_append_left _ (ihl hj x hx)
    · rwa [← inorder_of_le hi.1 hi.2]
    · exact List.mem_append_right _ (List.mem_cons_of_mem _ (ihr hj x hx))
  | case2 i hi =>
    intro hj
    cases hj

/-- The traversal from the root lists the nodes `1..nr`. -/
theorem mem_inorder_one {nr x : Nat} : x ∈ inorder nr 1 ↔ 0 < x ∧ x ≤ nr := by
  constructor
  · intro h
    have := le_of_mem_inorder h
    omega
  · rintro ⟨h0, h⟩
    induction x using Nat.strong_induction_on with
    | _ x ih =>
      by_cases hx : x = 1
      · subst hx
        exact mem_inorder_self h0 h
      -- `x` is a child of `x / 2`, whose subtree is in the root's
      have hp : x / 2 ∈ inorder nr 1 := ih (x / 2) (by omega) (by omega) (by omega)
      refine inorder_subset hp x ?_
      rw [inorder_of_le (by omega) (by omega)]
      rcases Nat.mod_two_eq_zero_or_one x with hx2 | hx2
      · refine List.mem_append_left _ ?_
        rw [show 2 * (x / 2) = x by omega]
        exact mem_inorder_self h0 h
      · refine List.mem_append_right _ (List.mem_cons_of_mem _ ?_)
        rw [show 2 * (x / 2) + 1 = x by omega]
        exact mem_inorder_self h0 h

/-! ### The nodes just before and after a subtree -/

/-- The node just before the subtree at `n` in inorder: the deepest ancestor whose right
subtree holds `n`, `0` when there is none. -/
def subtreePred (n : Nat) : Nat :=
  if n ≤ 1 then 0 else if n % 2 = 1 then n / 2 else subtreePred (n / 2)

/-- The node just after the subtree at `n` in inorder: the deepest ancestor whose left
subtree holds `n`, `0` when there is none. -/
def subtreeSucc (n : Nat) : Nat :=
  if n ≤ 1 then 0 else if n % 2 = 0 then n / 2 else subtreeSucc (n / 2)

attribute [grind] subtreePred subtreeSucc

/-- Nothing comes before the whole tree. -/
@[simp] theorem subtreePred_one : subtreePred 1 = 0 := by
  rw [subtreePred, if_pos le_rfl]

/-- Nothing comes after the whole tree. -/
@[simp] theorem subtreeSucc_one : subtreeSucc 1 = 0 := by
  rw [subtreeSucc, if_pos le_rfl]

/-- The node before a right subtree is its parent. -/
theorem subtreePred_right {c : Nat} (hc : 0 < c) : subtreePred (2 * c + 1) = c := by
  rw [subtreePred, if_neg (by omega), if_pos (by omega)]
  omega

/-- A left subtree has the node before its parent's subtree before it. -/
theorem subtreePred_left {c : Nat} (hc : 0 < c) : subtreePred (2 * c) = subtreePred c := by
  rw [subtreePred, if_neg (by omega), if_neg (by omega), show 2 * c / 2 = c by omega]

/-- The node after a left subtree is its parent. -/
theorem subtreeSucc_left {c : Nat} (hc : 0 < c) : subtreeSucc (2 * c) = c := by
  rw [subtreeSucc, if_neg (by omega), if_pos (by omega)]
  omega

/-- A right subtree has the node after its parent's subtree after it. -/
theorem subtreeSucc_right {c : Nat} (hc : 0 < c) : subtreeSucc (2 * c + 1) = subtreeSucc c := by
  rw [subtreeSucc, if_neg (by omega), if_neg (by omega), show (2 * c + 1) / 2 = c by omega]

/-- The node before a subtree is above its root. -/
theorem subtreePred_le (n : Nat) : subtreePred n ≤ n / 2 := by
  induction n using Nat.strong_induction_on with
  | _ n ih =>
    rw [subtreePred]
    -- the root, a right child, or a left child that passes the question up
    split_ifs with h1 h2
    · omega
    · omega
    · have := ih (n / 2) (by omega)
      omega

/-- The node after a subtree is above its root. -/
theorem subtreeSucc_le (n : Nat) : subtreeSucc n ≤ n / 2 := by
  induction n using Nat.strong_induction_on with
  | _ n ih =>
    rw [subtreeSucc]
    -- the root, a left child, or a right child that passes the question up
    split_ifs with h1 h2
    · omega
    · omega
    · have := ih (n / 2) (by omega)
      omega

/-! ### The invariant of a walk -/

section Walk

variable {nr c : Nat} {P Q : Nat → Prop}

/-- A walk at node `c`: the inorder of the tree is the nodes left of the subtree at `c`, on
which `P` holds, the subtree, and the nodes right of it, on which `Q` holds. The last node
on the left is `subtreePred c` and the first on the right `subtreeSucc c`, `0` standing
for none. -/
structure WalkSplit (nr c : Nat) (P Q : Nat → Prop) : Prop where
  pos : 0 < c
  split : ∃ L R, inorder nr 1 = L ++ inorder nr c ++ R ∧ (∀ x ∈ L, P x) ∧ (∀ x ∈ R, Q x) ∧
    L.getLast?.getD 0 = subtreePred c ∧ R.head?.getD 0 = subtreeSucc c

/-- A walk starts at the root with nothing on either side. -/
theorem WalkSplit.root (nr : Nat) (P Q : Nat → Prop) : WalkSplit nr 1 P Q :=
  ⟨by omega, [], [], by simp, by simp, by simp, by simp, by simp⟩

/-- Going right from `c`: `c` and its left subtree join the nodes on the left. -/
theorem WalkSplit.right (hs : WalkSplit nr c P Q) (hc : c ≤ nr)
    (hl : ∀ x ∈ inorder nr (2 * c), P x) (hP : P c) : WalkSplit nr (2 * c + 1) P Q := by
  obtain ⟨L, R, h, hL, hR, hlast, hhead⟩ := hs.split
  refine ⟨by omega, L ++ (inorder nr (2 * c) ++ [c]), R, ?_, ?_, hR, ?_, ?_⟩
  · rw [h, inorder_of_le hs.pos hc]
    simp
  · intro x hx
    rw [List.mem_append, List.mem_append, List.mem_singleton] at hx
    rcases hx with hx | hx | rfl
    exacts [hL x hx, hl x hx, hP]
  -- the new last node on the left is `c`, and the first on the right is unchanged
  · rw [subtreePred_right hs.pos]
    simp
  · rw [subtreeSucc_right hs.pos]
    exact hhead

/-- Going left from `c`: `c` and its right subtree join the nodes on the right. -/
theorem WalkSplit.left (hs : WalkSplit nr c P Q) (hc : c ≤ nr)
    (hr : ∀ x ∈ inorder nr (2 * c + 1), Q x) (hQ : Q c) : WalkSplit nr (2 * c) P Q := by
  obtain ⟨L, R, h, hL, hR, hlast, hhead⟩ := hs.split
  have hc0 := hs.pos
  refine ⟨by omega, L, c :: inorder nr (2 * c + 1) ++ R, ?_, hL, ?_, ?_, ?_⟩
  · rw [h, inorder_of_le hs.pos hc]
    simp
  · intro x hx
    rw [List.cons_append, List.mem_cons, List.mem_append] at hx
    rcases hx with rfl | hx | hx
    exacts [hQ, hr x hx, hR x hx]
  -- the last node on the left is unchanged, and the new first on the right is `c`
  · rw [subtreePred_left hs.pos]
    exact hlast
  · rw [subtreeSucc_left hs.pos]
    simp

/-- A relation that holds between every two nodes in inorder holds between the nodes of
the left subtree of `c` and `c`, and between `c` and the nodes of its right subtree. -/
theorem WalkSplit.pairwise {r : Nat → Nat → Prop} (hs : WalkSplit nr c P Q) (hc : c ≤ nr)
    (hr : (inorder nr 1).Pairwise r) :
    (∀ x ∈ inorder nr (2 * c), r x c) ∧ ∀ y ∈ inorder nr (2 * c + 1), r c y := by
  obtain ⟨L, R, h, -⟩ := hs.split
  rw [h, inorder_of_le hs.pos hc] at hr
  -- the subtree at `c` is a piece of the whole inorder, so the relation holds inside it
  have hsub : (inorder nr (2 * c) ++ c :: inorder nr (2 * c + 1)).Pairwise r :=
    hr.sublist ((List.infix_append L _ R).sublist)
  rw [List.pairwise_append, List.pairwise_cons] at hsub
  exact ⟨fun x hx => hsub.2.2 x hx c List.mem_cons_self, hsub.2.1.1⟩

/-- At the end of a walk, below the tree, the inorder is the two sides. -/
theorem WalkSplit.eq_append (hs : WalkSplit nr c P Q) (hc : nr < c) :
    ∃ L R, inorder nr 1 = L ++ R ∧ (∀ x ∈ L, P x) ∧ (∀ x ∈ R, Q x) ∧
      L.getLast?.getD 0 = subtreePred c ∧ R.head?.getD 0 = subtreeSucc c := by
  obtain ⟨L, R, h, hL, hR, hlast, hhead⟩ := hs.split
  rw [inorder_of_lt hc, List.append_nil] at h
  exact ⟨L, R, h, hL, hR, hlast, hhead⟩

end Walk

/-! ### The walk of a predicate -/

section Descend

variable (nr : Nat) (p : Nat → Bool)

/-- One step of the walk: to the right child where `p` holds, to the left one otherwise. -/
def descendStep (n : Nat) : Nat := 2 * n + (p n).toNat

/-- The walk from node `n` while it is on the tree, testing that at most `fuel` times. -/
def descend (fuel n : Nat) : Option Nat :=
  whileLoop (fun n => decide (n ≤ nr)) (descendStep p) fuel n

variable {nr p}

/-- The walk's invariant, for a predicate that holds on a prefix of the inorder. -/
theorem descendStep_split (hp : (inorder nr 1).Pairwise (fun x y => p y = true → p x = true))
    {c : Nat} (hs : WalkSplit nr c (p · = true) (p · = false)) (hc : c ≤ nr) :
    WalkSplit nr (descendStep p c) (p · = true) (p · = false) := by
  obtain ⟨hbefore, hafter⟩ := hs.pairwise hc hp
  unfold descendStep
  cases hpc : p c
  · -- `p` fails at `c`, and so on everything after `c`
    refine hs.left hc (fun y hy => ?_) hpc
    cases hpy : p y
    · rfl
    · exact absurd (hafter y hy hpy) (by simp [hpc])
  · exact hs.right hc (fun x hx => hbefore x hx hpc) hpc

/-- Where the walk of a predicate that holds on a prefix of the inorder ends: just after the
last node where it holds, and just before the first where it fails. -/
theorem descend_spec (hp : (inorder nr 1).Pairwise (fun x y => p y = true → p x = true))
    {fuel n : Nat} (h : descend nr p fuel 1 = some n) :
    subtreePred n = ((inorder nr 1).filter p).getLast?.getD 0 ∧
      subtreeSucc n = ((inorder nr 1).filter (fun x => !p x)).head?.getD 0 := by
  obtain ⟨hs, hn⟩ := whileLoop_inv (fun c => WalkSplit nr c (p · = true) (p · = false))
    (fun c hs hc => descendStep_split hp hs (of_decide_eq_true hc)) (WalkSplit.root nr _ _) h
  obtain ⟨L, R, heq, hL, hR, hlast, hhead⟩ := hs.eq_append (by simpa using hn)
  -- `p` holds on the left side and fails on the right
  have hfL : L.filter p = L := List.filter_eq_self.2 hL
  have hfR : R.filter p = [] := List.filter_eq_nil_iff.2 (fun x hx => by simp [hR x hx])
  have hgL : L.filter (fun x => !p x) = [] := List.filter_eq_nil_iff.2 (fun x hx => by simp [hL x hx])
  have hgR : R.filter (fun x => !p x) = R := List.filter_eq_self.2 (fun x hx => by simp [hR x hx])
  rw [heq, List.filter_append, List.filter_append, hfL, hfR, hgL, hgR, List.append_nil,
    List.nil_append]
  exact ⟨hlast.symm, hhead.symm⟩

/-- A child is one level below its parent. -/
theorem log_two_child {n b : Nat} (hn : 0 < n) (hb : b ≤ 1) :
    Nat.log 2 (2 * n + b) = Nat.log 2 n + 1 := by
  have hlo := Nat.pow_log_le_self 2 (Nat.pos_iff_ne_zero.1 hn)
  have hhi := Nat.lt_pow_succ_log_self (by decide : 1 < 2) n
  -- `2 ^ (log n + 1) ≤ 2 * n + b < 2 ^ (log n + 2)`
  refine Nat.log_eq_of_pow_le_of_lt_pow ?_ ?_
  · rw [Nat.pow_succ]
    omega
  · rw [Nat.pow_succ 2 (Nat.log 2 n + 1)]
    omega

/-- The walk falls off the tree after at most `Nat.log 2 nr + 1` steps: each goes one level
down. -/
theorem descend_isSome {fuel : Nat} (hfuel : Nat.log 2 nr + 1 < fuel) :
    ∃ n, descend nr p fuel 1 = some n := by
  refine whileLoop_isSome_of_measure (fun n => 0 < n) (fun n => Nat.log 2 nr + 1 - Nat.log 2 n)
    (fun n hn hc => ⟨?_, ?_⟩) (by omega) (by simpa using hfuel)
  · unfold descendStep
    omega
  -- a node of the tree is at most at the tree's last level
  · have hle : Nat.log 2 n ≤ Nat.log 2 nr := Nat.log_mono_right (of_decide_eq_true hc)
    rw [descendStep, log_two_child hn (Bool.toNat_le _)]
    omega

/-- The walk ends below the tree, at most one level below its last level. -/
theorem descend_bounds {fuel n : Nat} (h : descend nr p fuel 1 = some n) :
    nr < n ∧ n ≤ 2 * nr + 1 := by
  -- each step from a node of the tree stays within one level below it
  obtain ⟨hn, hc⟩ := whileLoop_inv (fun n => n ≤ 2 * nr + 1)
    (fun c _ hc => by
      have := of_decide_eq_true hc
      have := Bool.toNat_le (p c)
      unfold descendStep
      omega) (by omega) h
  exact ⟨by simpa using hc, hn⟩

end Descend

end Bcachefs.Tree
