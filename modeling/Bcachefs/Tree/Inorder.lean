import Bcachefs.Tree.Eytzinger
import Mathlib.Data.List.Sort
import Mathlib.Tactic.Ring

/-!
# `Bcachefs.Tree.Inorder`: positions and neighbours in the inorder of the implicit tree

`Tree.Eytzinger` lists the nodes `1..nr` of the implicit tree (children `2 * i` and
`2 * i + 1`) in inorder. Here each node's place in that list is given in closed form, and so
is the node after and before it.

* Positions. In the complete tree of depth `K` a node at depth `d` is an odd multiple of
  `2 ^ (K - d)` along the inorder (`completePos`): the subtree of a node lies within that
  distance of it, left subtree below and right subtree above (`completePos_inorder`), so the
  positions grow along the inorder. The tree on `1..nr` lacks only nodes of its last level,
  all after the `nr + 1 - 2 ^ K` it has; `inorderPos` takes the missing ones before a node
  off its position. `map_inorderPos_inorder`: along the inorder the positions are
  `1, 2, …, nr`. `length_inorder_one` counts the nodes.
* Neighbours. `leftmost` and `rightmost` descend to the first and last node of a subtree.
  The node after `i` is the first of its right subtree, or else `subtreeSucc i`
  (`inorderNext`); the node before it the last of its left subtree, or else
  `subtreePred i` (`inorderPrev`). `inorderNext_of_eq` and `inorderPrev_of_eq` say so of
  every two neighbours of the inorder, and `inorderNext_getLast` and `inorderPrev_head` that
  the last node has no next and the first no previous, `0` standing for none. Every node is
  the end of a walk from the root (`walkSplit_of_le`), whose split of the inorder puts the
  two neighbours next to its subtree.

Nothing here names the file system.
-/

set_option autoImplicit false

namespace Bcachefs.Tree

/-! ### Depths -/

/-- A right child is one level below its parent. -/
theorem log2_two_mul_add_one {c : Nat} (hc : c ≠ 0) : Nat.log2 (2 * c + 1) = Nat.log2 c + 1 := by
  rw [Nat.log2_eq_iff (by omega)]
  have hlo := Nat.log2_self_le hc
  have hhi := Nat.lt_log2_self (n := c)
  constructor
  · rw [Nat.pow_succ]
    omega
  · rw [Nat.pow_succ 2 (Nat.log2 c + 1)]
    omega

/-- A node is at least the power of two of its depth, and below the next. -/
theorem two_pow_log2_le_lt {c : Nat} (hc : c ≠ 0) :
    2 ^ Nat.log2 c ≤ c ∧ c < 2 * 2 ^ Nat.log2 c := by
  have hhi := Nat.lt_log2_self (n := c)
  rw [Nat.pow_succ] at hhi
  exact ⟨Nat.log2_self_le hc, by omega⟩

/-! ### Positions in the complete tree -/

/-- The position, from `1`, of node `i` in the inorder of the complete tree of depth `K`: node
`2 ^ d + r` at depth `d` is the `(2 * r + 1)`-th multiple of `2 ^ (K - d)`. -/
def completePos (K i : Nat) : Nat := (2 * (i - 2 ^ Nat.log2 i) + 1) * 2 ^ (K - Nat.log2 i)

section Children

variable {K c : Nat} (hc : c ≠ 0) (hK : Nat.log2 c < K)
include hc hK

/-- The left child is half the subtree's width below its parent. -/
theorem completePos_left :
    completePos K (2 * c) + 2 ^ (K - Nat.log2 c - 1) = completePos K c := by
  have hb := two_pow_log2_le_lt hc
  obtain ⟨e, he⟩ : ∃ e, K - Nat.log2 c = e + 1 := ⟨K - Nat.log2 c - 1, by omega⟩
  rw [completePos, completePos, Nat.log2_two_mul hc, show K - (Nat.log2 c + 1) = e by omega,
    show K - Nat.log2 c - 1 = e by omega, he, Nat.pow_succ 2 (Nat.log2 c),
    show 2 * c - 2 ^ Nat.log2 c * 2 = 2 * (c - 2 ^ Nat.log2 c) by omega, Nat.pow_succ]
  ring

/-- The right child is half the subtree's width above its parent. -/
theorem completePos_right :
    completePos K (2 * c + 1) = completePos K c + 2 ^ (K - Nat.log2 c - 1) := by
  have hb := two_pow_log2_le_lt hc
  obtain ⟨e, he⟩ : ∃ e, K - Nat.log2 c = e + 1 := ⟨K - Nat.log2 c - 1, by omega⟩
  rw [completePos, completePos, log2_two_mul_add_one hc, show K - (Nat.log2 c + 1) = e by omega,
    show K - Nat.log2 c - 1 = e by omega, he, Nat.pow_succ 2 (Nat.log2 c),
    show 2 * c + 1 - 2 ^ Nat.log2 c * 2 = 2 * (c - 2 ^ Nat.log2 c) + 1 by omega, Nat.pow_succ]
  ring

end Children

/-- The subtree of a node of depth at most `K` lies within `2 ^ (K - depth)` of the node
along the complete tree's inorder, and its positions grow along its own inorder. The
induction follows the traversal: each child's subtree fills one half of its parent's
interval, the left one below the parent and the right one above it. -/
theorem completePos_inorder {nr K : Nat} (hK : nr < 2 ^ (K + 1)) {c : Nat} :
    c ≠ 0 → Nat.log2 c ≤ K →
      (∀ x ∈ inorder nr c, completePos K c < completePos K x + 2 ^ (K - Nat.log2 c) ∧
        completePos K x < completePos K c + 2 ^ (K - Nat.log2 c)) ∧
      ((inorder nr c).map (completePos K)).Pairwise (· < ·) := by
  fun_induction inorder nr c with
  | case1 c hcn ihl ihr =>
    intro hc hd
    by_cases hleaf : 2 * c ≤ nr
    · -- an inner node: both children are at most at depth `K`
      have hdK : Nat.log2 c < K := by
        have := Nat.log2_self_le (show 2 * c ≠ 0 by omega)
        rw [Nat.log2_two_mul hc] at this
        by_contra hge
        have : 2 ^ (K + 1) ≤ 2 ^ (Nat.log2 c + 1) := Nat.pow_le_pow_right (by decide) (by omega)
        omega
      have hw : 2 ^ (K - Nat.log2 c) = 2 * 2 ^ (K - Nat.log2 c - 1) := by
        rw [← Nat.pow_succ']
        congr 1
        omega
      have hpos := Nat.two_pow_pos (K - Nat.log2 c - 1)
      obtain ⟨hlin, hlp⟩ := ihl (by omega) (by rw [Nat.log2_two_mul hc]; omega)
      obtain ⟨hrin, hrp⟩ := ihr (by omega) (by rw [log2_two_mul_add_one hc]; omega)
      rw [Nat.log2_two_mul hc, show K - (Nat.log2 c + 1) = K - Nat.log2 c - 1 by omega] at hlin
      rw [log2_two_mul_add_one hc, show K - (Nat.log2 c + 1) = K - Nat.log2 c - 1 by omega] at hrin
      have hl := completePos_left (K := K) hc hdK
      have hr := completePos_right (K := K) hc hdK
      refine ⟨fun x hx => ?_, ?_⟩
      · rw [List.mem_append, List.mem_cons] at hx
        rcases hx with hx | rfl | hx
        · have := hlin x hx
          omega
        · omega
        · have := hrin x hx
          omega
      · rw [List.map_append, List.map_cons, List.pairwise_append, List.pairwise_cons]
        refine ⟨hlp, ⟨fun y hy => ?_, hrp⟩, fun x hx y hy => ?_⟩
        · obtain ⟨y', hy', rfl⟩ := List.mem_map.mp hy
          have := hrin y' hy'
          omega
        · obtain ⟨x', hx', rfl⟩ := List.mem_map.mp hx
          have := hlin x' hx'
          rw [List.mem_cons] at hy
          rcases hy with rfl | hy
          · omega
          · obtain ⟨y', hy', rfl⟩ := List.mem_map.mp hy
            have := hrin y' hy'
            omega
    · -- a leaf: its subtree is itself
      rw [inorder_of_lt (by omega), inorder_of_lt (by omega)]
      have := Nat.two_pow_pos (K - Nat.log2 c)
      refine ⟨fun x hx => ?_, by simp⟩
      rw [List.nil_append, List.mem_singleton] at hx
      subst hx
      omega
  | case2 c hcn =>
    intro _ _
    simp

/-- The nodes from the root lie at the positions `1 .. 2 ^ (K + 1) - 1` of the complete tree of
depth `K`, in increasing order. -/
theorem completePos_inorder_one {nr K : Nat} (hK : nr < 2 ^ (K + 1)) :
    (∀ x ∈ inorder nr 1, 0 < completePos K x ∧ completePos K x < 2 ^ (K + 1)) ∧
      ((inorder nr 1).map (completePos K)).Pairwise (· < ·) := by
  have h1 : Nat.log2 1 = 0 := by decide
  obtain ⟨hin, hpw⟩ := completePos_inorder hK (c := 1) (by decide) (by rw [h1]; exact Nat.zero_le K)
  have hroot : completePos K 1 = 2 ^ K := by simp [completePos, h1]
  refine ⟨fun x hx => ?_, hpw⟩
  have := hin x hx
  rw [hroot, h1, Nat.sub_zero] at this
  rw [Nat.pow_succ]
  omega

/-- A node lies no deeper than the last level. -/
theorem log2_le_of_mem_inorder {nr x : Nat} (hx : x ∈ inorder nr 1) : Nat.log2 x ≤ Nat.log2 nr := by
  have hxn := mem_inorder_one.mp hx
  have := (Nat.log2_lt (show x ≠ 0 by omega) (k := Nat.log2 nr + 1)).mpr
    (lt_of_le_of_lt hxn.2 Nat.lt_log2_self)
  omega

/-- No node is listed twice. -/
theorem inorder_one_nodup (nr : Nat) : (inorder nr 1).Nodup := by
  have hpw := (completePos_inorder_one (K := Nat.log2 nr) Nat.lt_log2_self).2
  rw [List.pairwise_map] at hpw
  exact hpw.imp fun h => fun heq => absurd (heq ▸ h) (Nat.lt_irrefl _)

/-- The inorder from the root is a permutation of `1..nr`. -/
theorem inorder_one_perm (nr : Nat) : (inorder nr 1).Perm (List.range' 1 nr) :=
  (List.perm_ext_iff_of_nodup (inorder_one_nodup nr) List.nodup_range').mpr fun x => by
    rw [mem_inorder_one, List.mem_range'_1]
    omega

/-- The tree on `1..nr` has `nr` nodes. -/
theorem length_inorder_one (nr : Nat) : (inorder nr 1).length = nr := by
  rw [(inorder_one_perm nr).length_eq, List.length_range']

/-! ### Positions in the tree on `1..nr` -/

/-- The position, from `1`, of node `i` in the inorder of the tree on the nodes `1..nr`: its
position in the complete tree of the same depth `K`, less the nodes of the last level missing
before it. The last level has its first `nr + 1 - 2 ^ K` nodes, at the odd positions below
`2 * (nr + 1 - 2 ^ K)`; above that every other position is a missing one. -/
def inorderPos (nr i : Nat) : Nat :=
  let extra := 2 * (nr + 1 - 2 ^ Nat.log2 nr)
  let p := completePos (Nat.log2 nr) i
  if p ≤ extra then p else p - (p - extra) / 2

attribute [grind] inorderPos

section Positions

variable {nr : Nat}

/-- A node past the last node of the last level is above the last level: its position in the
complete tree is even. -/
theorem completePos_le_or_even {x : Nat} (hx : x ∈ inorder nr 1) :
    completePos (Nat.log2 nr) x ≤ 2 * (nr + 1 - 2 ^ Nat.log2 nr) ∨
      completePos (Nat.log2 nr) x % 2 = 0 := by
  have hxn := mem_inorder_one.mp hx
  have hd := log2_le_of_mem_inorder hx
  have hb := two_pow_log2_le_lt (show x ≠ 0 by omega)
  rcases Nat.lt_or_ge (Nat.log2 x) (Nat.log2 nr) with hlt | hge
  · -- above the last level the position is a multiple of a power of two above one
    right
    rw [completePos, show Nat.log2 nr - Nat.log2 x = Nat.log2 nr - Nat.log2 x - 1 + 1 by omega,
      Nat.pow_succ]
    exact Nat.mul_mod_left _ _ |> fun h => by rw [← Nat.mul_assoc]; exact h
  · -- on the last level: the node is one of the first `nr + 1 - 2 ^ K`
    left
    have hK : Nat.log2 x = Nat.log2 nr := by omega
    have hbn := two_pow_log2_le_lt (show nr ≠ 0 by omega)
    rw [completePos, hK, Nat.sub_self, pow_zero, Nat.mul_one]
    omega

/-- The positions of the nodes are `1..nr`. -/
theorem inorderPos_mem {x : Nat} (hx : x ∈ inorder nr 1) : 1 ≤ inorderPos nr x ∧ inorderPos nr x ≤ nr := by
  have hxn := mem_inorder_one.mp hx
  have hb := two_pow_log2_le_lt (show nr ≠ 0 by omega)
  have hp := (completePos_inorder_one (K := Nat.log2 nr) Nat.lt_log2_self).1 x hx
  have hpar := completePos_le_or_even hx
  rw [Nat.pow_succ] at hp
  unfold inorderPos
  dsimp only
  split_ifs <;> omega

/-- The positions grow with the positions in the complete tree. -/
theorem inorderPos_lt_inorderPos {x y : Nat} (hx : x ∈ inorder nr 1) (hy : y ∈ inorder nr 1)
    (h : completePos (Nat.log2 nr) x < completePos (Nat.log2 nr) y) :
    inorderPos nr x < inorderPos nr y := by
  have hpx := completePos_le_or_even hx
  have hpy := completePos_le_or_even hy
  unfold inorderPos
  dsimp only
  split_ifs <;> omega

/-- Along the inorder of the tree on `1..nr` the positions are `1, 2, …, nr`: `inorderPos`
gives each node its place in the traversal. -/
theorem map_inorderPos_inorder (nr : Nat) :
    (inorder nr 1).map (inorderPos nr) = List.range' 1 nr := by
  have hpw : ((inorder nr 1).map (inorderPos nr)).Pairwise (· < ·) := by
    rw [List.pairwise_map]
    have hcp := (completePos_inorder_one (K := Nat.log2 nr) Nat.lt_log2_self).2
    rw [List.pairwise_map] at hcp
    exact hcp.imp_of_mem fun hx hy h => inorderPos_lt_inorderPos hx hy h
  -- the positions are `nr` distinct numbers of `1..nr`, so they are all of them
  have hsub : (inorder nr 1).map (inorderPos nr) ⊆ List.range' 1 nr := by
    intro v hv
    obtain ⟨x, hx, rfl⟩ := List.mem_map.mp hv
    have := inorderPos_mem hx
    rw [List.mem_range'_1]
    omega
  have hperm := (List.subperm_of_subset hpw.nodup hsub).perm_of_length_le
    (by rw [List.length_map, length_inorder_one, List.length_range'])
  exact hpw.eq_of_mem_iff List.pairwise_lt_range' fun a => hperm.mem_iff

/-- Every position `1..nr` is a node's. -/
theorem exists_inorderPos_eq {j : Nat} (h0 : 0 < j) (hj : j ≤ nr) :
    ∃ x ∈ inorder nr 1, inorderPos nr x = j := by
  have hmem : j ∈ (inorder nr 1).map (inorderPos nr) := by
    rw [map_inorderPos_inorder, List.mem_range'_1]
    omega
  exact List.mem_map.mp hmem

end Positions

/-! ### Neighbours -/

/-- In a list without repeats an element splits the list one way only. -/
theorem split_eq_of_nodup {α : Type} {l L₁ L₂ R₁ R₂ : List α} {x : α} (hl : l.Nodup)
    (h₁ : l = L₁ ++ x :: R₁) (h₂ : l = L₂ ++ x :: R₂) : L₁ = L₂ ∧ R₁ = R₂ := by
  subst h₁
  induction L₁ generalizing L₂ with
  | nil =>
    cases L₂ with
    | nil => simpa using h₂
    | cons b L₂ =>
      -- `x` would occur twice
      rw [List.nil_append, List.cons_append, List.cons.injEq] at h₂
      rw [List.nil_append, List.nodup_cons, h₂.2] at hl
      exact absurd (List.mem_append_right _ List.mem_cons_self) (h₂.1 ▸ hl.1)
  | cons a L₁ ih =>
    cases L₂ with
    | nil =>
      rw [List.nil_append, List.cons_append, List.cons.injEq] at h₂
      rw [List.cons_append, List.nodup_cons] at hl
      exact absurd (List.mem_append_right _ List.mem_cons_self) (h₂.1 ▸ hl.1)
    | cons b L₂ =>
      rw [List.cons_append, List.cons_append, List.cons.injEq] at h₂
      obtain ⟨hL, hR⟩ := ih (List.nodup_cons.mp (List.cons_append .. ▸ hl)).2 h₂.2
      exact ⟨by rw [h₂.1, hL], hR⟩

/-- Both neighbours of a split are on the list. -/
theorem mem_of_eq_append_cons_cons {α : Type} {l L R : List α} {x y : α}
    (h : l = L ++ x :: y :: R) : x ∈ l ∧ y ∈ l := by
  subst h
  simp

/-- Every node of the tree is where a walk from the root can be. -/
theorem walkSplit_of_le {nr c : Nat} (h0 : 0 < c) (hc : c ≤ nr) :
    WalkSplit nr c (fun _ => True) (fun _ => True) := by
  induction c using Nat.strong_induction_on with
  | _ c ih =>
    by_cases h1 : c = 1
    · subst h1
      exact WalkSplit.root nr _ _
    -- the walk to the parent goes on to `c`
    have hp := ih (c / 2) (by omega) (by omega) (by omega)
    rcases Nat.mod_two_eq_zero_or_one c with h2 | h2
    · have := hp.left (by omega) (fun _ _ => trivial) trivial
      rwa [show 2 * (c / 2) = c by omega] at this
    · have := hp.right (by omega) (fun _ _ => trivial) trivial
      rwa [show 2 * (c / 2) + 1 = c by omega] at this

/-- A node no deeper than another below it. -/
theorem log2_le_log2_of_le {a b : Nat} (ha : a ≠ 0) (h : a ≤ b) : Nat.log2 a ≤ Nat.log2 b := by
  have := (Nat.log2_lt ha (k := Nat.log2 b + 1)).mpr (lt_of_le_of_lt h Nat.lt_log2_self)
  omega

/-- The inorder around node `x`: the nodes before its subtree end with `subtreePred x`, those
after it start with `subtreeSucc x`. -/
theorem inorder_one_split {nr x : Nat} (h0 : 0 < x) (hx : x ≤ nr) :
    ∃ L R, inorder nr 1 = L ++ inorder nr (2 * x) ++ x :: (inorder nr (2 * x + 1) ++ R) ∧
      L.getLast?.getD 0 = subtreePred x ∧ R.head?.getD 0 = subtreeSucc x := by
  obtain ⟨L, R, h, -, -, hlast, hhead⟩ := (walkSplit_of_le h0 hx).split
  refine ⟨L, R, ?_, hlast, hhead⟩
  rw [h, inorder_of_le h0 hx]
  simp

/-- The first node of the subtree at `c`: down the left children while they are on the tree. -/
def leftmost (nr c : Nat) : Nat := if 0 < c ∧ 2 * c ≤ nr then leftmost nr (2 * c) else c
termination_by nr + 1 - c

/-- The last node of the subtree at `c`: down the right children while they are on the tree. -/
def rightmost (nr c : Nat) : Nat := if 0 < c ∧ 2 * c + 1 ≤ nr then rightmost nr (2 * c + 1) else c
termination_by nr + 1 - c

/-- The subtree at a node starts with its leftmost node. -/
theorem head_inorder {nr c : Nat} (h0 : 0 < c) (hc : c ≤ nr) :
    (inorder nr c).head? = some (leftmost nr c) := by
  fun_induction leftmost nr c with
  | case1 c h ih =>
    rw [inorder_of_le h0 hc, List.head?_append, ih (by omega) h.2]
    rfl
  | case2 c h =>
    rw [inorder_of_le h0 hc, inorder_of_lt (by omega)]
    rfl

/-- The subtree at a node ends with its rightmost node. -/
theorem getLast_inorder {nr c : Nat} (h0 : 0 < c) (hc : c ≤ nr) :
    (inorder nr c).getLast? = some (rightmost nr c) := by
  fun_induction rightmost nr c with
  | case1 c h ih =>
    rw [inorder_of_le h0 hc, List.getLast?_append_cons, List.getLast?_cons, ih (by omega) h.2]
    rfl
  | case2 c h =>
    rw [inorder_of_le h0 hc, inorder_of_lt (show nr < 2 * c + 1 by omega)]
    simp

/-- The first node below `c` is `c` shifted down to the depth of `nr`, or to the level above
when that is past `nr`. -/
theorem leftmost_eq {nr c : Nat} (h0 : 0 < c) (hc : c ≤ nr) :
    leftmost nr c =
      if c * 2 ^ (Nat.log2 nr - Nat.log2 c) ≤ nr then c * 2 ^ (Nat.log2 nr - Nat.log2 c)
      else c * 2 ^ (Nat.log2 nr - Nat.log2 c) / 2 := by
  have hcn := log2_le_log2_of_le (by omega) hc
  fun_induction leftmost nr c with
  | case1 c h ih =>
    -- one step down: the left child is one level deeper
    have hd := log2_le_log2_of_le (by omega) h.2
    rw [Nat.log2_two_mul (by omega)] at hd
    rw [ih (by omega) h.2 (by rw [Nat.log2_two_mul (by omega)]; omega), Nat.log2_two_mul (by omega),
      show 2 * c * 2 ^ (Nat.log2 nr - (Nat.log2 c + 1)) = c * 2 ^ (Nat.log2 nr - Nat.log2 c) by
        rw [show Nat.log2 nr - Nat.log2 c = Nat.log2 nr - (Nat.log2 c + 1) + 1 by omega,
          Nat.pow_succ]
        ring]
  | case2 c h =>
    -- no left child: `nr` is on the level of `c` or the next
    have hb := two_pow_log2_le_lt (show c ≠ 0 by omega)
    have hup : Nat.log2 nr < Nat.log2 c + 2 := (Nat.log2_lt (by omega)).mpr (by
      rw [Nat.pow_succ, Nat.pow_succ]
      omega)
    rcases (show Nat.log2 nr = Nat.log2 c ∨ Nat.log2 nr = Nat.log2 c + 1 by omega) with hK | hK
    · rw [hK, Nat.sub_self, pow_zero, Nat.mul_one, if_pos hc]
    · rw [hK, show Nat.log2 c + 1 - Nat.log2 c = 1 by omega, pow_one, if_neg (by omega)]
      omega

/-- The last node below `c` is the last one of the level of `nr` below `c`, or of the level
above when that is past `nr`. -/
theorem rightmost_eq {nr c : Nat} (h0 : 0 < c) (hc : c ≤ nr) :
    rightmost nr c =
      if (c + 1) * 2 ^ (Nat.log2 nr - Nat.log2 c) - 1 ≤ nr then
        (c + 1) * 2 ^ (Nat.log2 nr - Nat.log2 c) - 1
      else ((c + 1) * 2 ^ (Nat.log2 nr - Nat.log2 c) - 1) / 2 := by
  have hcn := log2_le_log2_of_le (by omega) hc
  fun_induction rightmost nr c with
  | case1 c h ih =>
    have hd := log2_le_log2_of_le (by omega) h.2
    rw [log2_two_mul_add_one (by omega)] at hd
    rw [ih (by omega) h.2 (by rw [log2_two_mul_add_one (by omega)]; omega),
      log2_two_mul_add_one (by omega),
      show (2 * c + 1 + 1) * 2 ^ (Nat.log2 nr - (Nat.log2 c + 1)) =
          (c + 1) * 2 ^ (Nat.log2 nr - Nat.log2 c) by
        rw [show Nat.log2 nr - Nat.log2 c = Nat.log2 nr - (Nat.log2 c + 1) + 1 by omega,
          Nat.pow_succ]
        ring]
  | case2 c h =>
    have hb := two_pow_log2_le_lt (show c ≠ 0 by omega)
    have hup : Nat.log2 nr < Nat.log2 c + 2 := (Nat.log2_lt (by omega)).mpr (by
      rw [Nat.pow_succ, Nat.pow_succ]
      omega)
    rcases (show Nat.log2 nr = Nat.log2 c ∨ Nat.log2 nr = Nat.log2 c + 1 by omega) with hK | hK
    · rw [hK, Nat.sub_self, pow_zero, Nat.mul_one, Nat.add_sub_cancel, if_pos hc]
    · rw [hK, show Nat.log2 c + 1 - Nat.log2 c = 1 by omega, pow_one, if_neg (by omega)]
      omega

/-- The first node of the tree is the first of its last level. -/
theorem leftmost_one {nr : Nat} (h : 0 < nr) : leftmost nr 1 = 2 ^ Nat.log2 nr := by
  have h1 : Nat.log2 1 = 0 := by decide
  rw [leftmost_eq (by decide) h, h1, Nat.sub_zero, Nat.one_mul,
    if_pos (Nat.log2_self_le (by omega))]

/-- The last node of the tree is the last of its last full level. -/
theorem rightmost_one {nr : Nat} (h : 0 < nr) : rightmost nr 1 = 2 ^ Nat.log2 (nr + 1) - 1 := by
  have h1 : Nat.log2 1 = 0 := by decide
  have hb := two_pow_log2_le_lt (show nr ≠ 0 by omega)
  rw [rightmost_eq (by decide) h, h1, Nat.sub_zero, show (1 + 1) * 2 ^ Nat.log2 nr =
    2 ^ (Nat.log2 nr + 1) by rw [Nat.pow_succ]; ring]
  split_ifs with hfull
  · -- a complete tree: its last level is full
    have hnr : nr + 1 = 2 ^ (Nat.log2 nr + 1) := by rw [Nat.pow_succ]; omega
    rw [hnr, Nat.log2_two_pow]
  · have hK : Nat.log2 (nr + 1) = Nat.log2 nr := by
      rw [Nat.log2_eq_iff (by omega)]
      rw [Nat.pow_succ] at hfull ⊢
      omega
    rw [hK, Nat.pow_succ]
    omega

/-- The node after `i` in inorder: the first node of its right subtree, or else the node just
after its subtree, `0` when there is none. -/
def inorderNext (nr i : Nat) : Nat :=
  if 2 * i + 1 ≤ nr then leftmost nr (2 * i + 1) else subtreeSucc i

/-- The node before `i` in inorder: the last node of its left subtree, or else the node just
before its subtree, `0` when there is none. -/
def inorderPrev (nr i : Nat) : Nat :=
  if 2 * i ≤ nr then rightmost nr (2 * i) else subtreePred i

attribute [grind] inorderNext inorderPrev

section Neighbours

variable {nr : Nat} {L R : List Nat} {x y : Nat}

/-- The node after `x` in the inorder is `inorderNext nr x`. -/
theorem inorderNext_of_eq (h : inorder nr 1 = L ++ x :: y :: R) : inorderNext nr x = y := by
  have hx := mem_inorder_one.mp (mem_of_eq_append_cons_cons h).1
  obtain ⟨A, D, hs, -, hD⟩ := inorder_one_split hx.1 hx.2
  obtain ⟨-, hyR⟩ := split_eq_of_nodup (inorder_one_nodup nr) h (by rw [hs, List.append_assoc])
  unfold inorderNext
  split_ifs with hc
  · -- the right subtree is there: `y` is its first node
    rw [inorder_of_le (by omega) hc] at hyR
    have := congrArg List.head? hyR
    rw [List.head?_cons, List.head?_append, ← inorder_of_le (by omega) hc,
      head_inorder (by omega) hc] at this
    exact (Option.some.inj this).symm
  · rw [inorder_of_lt (by omega), List.nil_append] at hyR
    rw [← hD, ← hyR]
    rfl

/-- The last node of the inorder has no next. -/
theorem inorderNext_getLast (h : inorder nr 1 = L ++ [x]) : inorderNext nr x = 0 := by
  have hx := mem_inorder_one.mp (h ▸ List.mem_append_right L (List.mem_singleton_self x))
  obtain ⟨A, D, hs, -, hD⟩ := inorder_one_split hx.1 hx.2
  obtain ⟨-, hR⟩ := split_eq_of_nodup (inorder_one_nodup nr) h (by rw [hs, List.append_assoc])
  have hC : inorder nr (2 * x + 1) = [] := (List.append_eq_nil_iff.mp hR.symm).1
  have hnr : nr < 2 * x + 1 := by
    by_contra hle
    rw [inorder_of_le (by omega) (by omega)] at hC
    simp at hC
  rw [inorderNext, if_neg (by omega), ← hD, (List.append_eq_nil_iff.mp hR.symm).2]
  rfl

/-- The node before `y` in the inorder is `inorderPrev nr y`. -/
theorem inorderPrev_of_eq (h : inorder nr 1 = L ++ x :: y :: R) : inorderPrev nr y = x := by
  have h' : inorder nr 1 = (L ++ [x]) ++ y :: R := by rw [h]; simp
  have hy := mem_inorder_one.mp (mem_of_eq_append_cons_cons h).2
  obtain ⟨A, D, hs, hA, -⟩ := inorder_one_split hy.1 hy.2
  obtain ⟨hLA, -⟩ := split_eq_of_nodup (inorder_one_nodup nr) h' hs
  unfold inorderPrev
  split_ifs with hc
  · -- the left subtree is there: `x` is its last node
    have := congrArg List.getLast? hLA
    simp only [List.getLast?_append, List.getLast?_singleton, getLast_inorder (by omega) hc,
      Option.some_or] at this
    exact (Option.some.inj this).symm
  · rw [inorder_of_lt (by omega), List.append_nil] at hLA
    rw [← hA, ← hLA]
    simp

/-- The first node of the inorder has no previous. -/
theorem inorderPrev_head (h : inorder nr 1 = x :: R) : inorderPrev nr x = 0 := by
  have h' : inorder nr 1 = [] ++ x :: R := h
  have hx := mem_inorder_one.mp (h ▸ List.mem_cons_self)
  obtain ⟨A, D, hs, hA, -⟩ := inorder_one_split hx.1 hx.2
  obtain ⟨hL, -⟩ := split_eq_of_nodup (inorder_one_nodup nr) h' hs
  have hB : inorder nr (2 * x) = [] := (List.append_eq_nil_iff.mp hL.symm).2
  have hnr : nr < 2 * x := by
    by_contra hle
    rw [inorder_of_le (by omega) (by omega)] at hB
    simp at hB
  rw [inorderPrev, if_neg (by omega), ← hA, (List.append_eq_nil_iff.mp hL.symm).1]
  rfl

end Neighbours

end Bcachefs.Tree
