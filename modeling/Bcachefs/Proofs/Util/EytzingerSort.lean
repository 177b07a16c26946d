import Bcachefs.Util.EytzingerSort
import Bcachefs.Sorting.HeapOne
import Bcachefs.Proofs.Util.EytzingerInorder

/-!
# `eytzinger0_sort` sorts the array along the inorder

`eytzinger1_sort_r` is the one-based heapsort of `Sorting.HeapOne` run on the array read
through `inorder_to_eytzinger1`. For `0 < n` and `n + 1 < 2 ^ 31`, where the index arithmetic
is right, `inorder_to_eytzinger1(·, n)` is a bijection of `[1, n]` (`eytzinger1_bijOn`), which
extends to a permutation `σ` of all indices. Read through `σ`, a compare of the places `l` and
`r` is a compare of the slots `l` and `r` (`eytzinger1_do_cmp_eq`) and a swap is a swap
(`eytzinger1_do_swap_comp`), so each loop of the code is the library's loop on `base1 ∘ σ`:

* the descents, with the comparisons `cmpGt` (`> 0`, a tie goes right) and `cmpGe` (`>= 0`)
  for `pick` and `ge` (`eytzinger1_heapify_path_eq`, `eytzinger1_sort_path_eq`);
* the heapify backtrack and shift (`eytzinger1_heapify_backtrack_eq`,
  `eytzinger1_heapify_shift_comp`);
* the sort rounds' backtrack, which goes on past the root to `0` where the library stops at
  the root, and their shift, which then does nothing, as the library's does from the root
  (`eytzinger1_sort_backtrack_eq`, `eytzinger1_sort_shift_comp`).

`eytzinger1_sort_r_comp` assembles them: the code's result read through `σ` is the library's
sort of `base1 ∘ σ`. From `heapSort1_spec`, `eytzinger1_sort_r_spec` says the sort permutes
`[1, n]` and leaves the elements nondecreasing along the inorder, and `eytzinger0_sort_spec`
says it of `eytzinger0_sort` in the order `eytzinger0_for_each` visits the nodes.
-/

set_option autoImplicit false
set_option linter.style.nameCheck false

namespace Bcachefs.Proofs.Util

open Bcachefs Bcachefs.Loop Bcachefs.Sorting Bcachefs.Tree

/-! ### The index map is a bijection of `[1, n]` -/

section Index

variable {n : Nat} (h0 : 0 < n) (hn : n + 1 < 2 ^ 31)
include h0 hn

/-- `inorder_to_eytzinger1(l, n)` is the node at place `l` of the inorder of the tree on
`[1, n]`. -/
theorem inorder_to_eytzinger1_place {l : Nat} (hl : 1 ≤ l) (hln : l ≤ n) :
    (inorder_to_eytzinger1 l.toUInt32 n.toUInt32).toNat ∈ inorder n 1 ∧
      inorderPos n (inorder_to_eytzinger1 l.toUInt32 n.toUInt32).toNat = l := by
  have hsz : n.toUInt32.toNat = n := toNat_toUInt32_of_lt (by omega)
  have hl' : l.toUInt32.toNat = l := toNat_toUInt32_of_lt (by omega)
  -- below `2 ^ 32` neither `n` nor `l` wraps as a word
  have h := @inorder_to_eytzinger1_mem n.toUInt32 (by omega) (by omega) l.toUInt32 (by omega)
    (by omega)
  rw [hsz, hl'] at h
  exact h

/-- A node is at the place of its position in the inorder. -/
theorem inorder_to_eytzinger1_inorderPos {y : Nat} (hy : y ∈ inorder n 1) :
    (inorder_to_eytzinger1 (inorderPos n y).toUInt32 n.toUInt32).toNat = y := by
  have hsz : n.toUInt32.toNat = n := toNat_toUInt32_of_lt (by omega)
  have hpn := (inorderPos_mem hy).2
  exact @inorder_to_eytzinger1_toNat n.toUInt32 (by omega) (by omega) (inorderPos n y).toUInt32 y
    (by rw [hsz]; exact hy) (by rw [toNat_toUInt32_of_lt (by omega), hsz])

/-- `inorder_to_eytzinger1(·, n)` maps the places `[1, n]` one to one onto the nodes `[1, n]`. -/
theorem eytzinger1_bijOn :
    Set.BijOn (fun l => (inorder_to_eytzinger1 l.toUInt32 n.toUInt32).toNat) (Set.Ico 1 (n + 1))
      (Set.Ico 1 (n + 1)) := by
  have hsz : n.toUInt32.toNat = n := toNat_toUInt32_of_lt (by omega)
  refine ⟨fun l hl => ?_, fun l hl l' hl' heq => ?_, fun y hy => ?_⟩
  -- the node at a place of `[1, n]` is a node of `[1, n]`
  · obtain ⟨hmem, -⟩ := inorder_to_eytzinger1_place h0 hn hl.1 (by have := hl.2; omega)
    have := mem_inorder_one.mp hmem
    exact ⟨this.1, Nat.lt_succ_of_le this.2⟩
  · -- two places with one node have one position in the inorder
    have h₁ := (inorder_to_eytzinger1_place h0 hn hl.1 (by have := hl.2; omega)).2
    have h₂ := (inorder_to_eytzinger1_place h0 hn hl'.1 (by have := hl'.2; omega)).2
    dsimp only at heq
    rw [← h₁, ← h₂, heq]
  -- each node is the one at its own position
  · have hy' : y ∈ inorder n 1 := mem_inorder_one.mpr ⟨hy.1, by have := hy.2; omega⟩
    obtain ⟨hp1, hpn⟩ := inorderPos_mem hy'
    exact ⟨inorderPos n y, ⟨hp1, by omega⟩, inorder_to_eytzinger1_inorderPos h0 hn hy'⟩

/-- The inorder of the tree on `[1, n]` is the nodes at the places `1` to `n`. -/
theorem inorder_eq_map_range' :
    inorder n 1 =
      (List.range' 1 n).map fun l => (inorder_to_eytzinger1 l.toUInt32 n.toUInt32).toNat := by
  rw [← map_inorderPos_inorder n, List.map_map]
  conv_lhs => rw [← List.map_id (inorder n 1)]
  exact List.map_congr_left fun y hy => (inorder_to_eytzinger1_inorderPos h0 hn hy).symm

end Index

/-! ### The comparisons of the code -/

variable {α : Type}

/-- `cmp(x, y) > 0`: the descents go to the left child on it. -/
def cmpGt (cmp : α → α → Int) (x y : α) : Bool := decide (cmp x y > 0)

/-- `cmp(x, y) >= 0`: the backtracks go up on it. -/
def cmpGe (cmp : α → α → Int) (x y : α) : Bool := decide (cmp x y ≥ 0)

/-- A comparison that is a total preorder finds every element equal to itself. -/
theorem cmp_self_eq_zero {cmp : α → α → Int} (hcmp : CmpPreorder cmp) (x : α) : cmp x x = 0 := by
  have := @CmpPreorder.swap _ _ hcmp x x
  omega

/-- A total preorder `cmp` gives the library's sort order, with `> 0` to pick the left child and `>=
0` to go up. -/
theorem sortOrder_cmp {cmp : α → α → Int} (hcmp : CmpPreorder cmp) :
    SortOrder (cmpGt cmp) (cmpGe cmp) where
  total x y := by
    have := @CmpPreorder.swap _ _ hcmp x y
    simp only [cmpGe, decide_eq_true_eq]
    omega
  -- `cmp y x ≥ 0` chains through the preorder, read the other way
  trans x y z hxy hyz := by
    simp only [cmpGe, decide_eq_true_eq] at hxy hyz ⊢
    exact hcmp.swap.2 (hcmp.trans (hcmp.swap.1 hyz) (hcmp.swap.1 hxy))
  pick_true x y h := by
    simp only [cmpGt, cmpGe, decide_eq_true_eq] at h ⊢
    omega
  pick_false x y h := by
    simp only [cmpGt, cmpGe, decide_eq_false_iff_not, decide_eq_true_eq] at h ⊢
    exact hcmp.swap.2 (by omega)

/-! ### Each loop of the code is the library's loop through `σ` -/

section Simulation

variable (cmp : α → α → Int) {n : Nat} {σ : Equiv.Perm Nat}
  (hσ : ∀ l, 1 ≤ l → l ≤ n → σ l = (inorder_to_eytzinger1 l.toUInt32 n.toUInt32).toNat)
include hσ

/-- A compare of two places is a compare of the slots `σ` gives them. -/
theorem eytzinger1_do_cmp_eq (base1 : Nat → α) {l r : Nat} (hl : 1 ≤ l ∧ l ≤ n)
    (hr : 1 ≤ r ∧ r ≤ n) :
    eytzinger1_do_cmp cmp base1 n l r = cmp ((base1 ∘ σ) l) ((base1 ∘ σ) r) := by
  rw [eytzinger1_do_cmp, Function.comp_apply, Function.comp_apply, hσ l hl.1 hl.2,
    hσ r hr.1 hr.2]

omit hσ in
/-- A swap of two places, read through `σ`, is the swap of the slots. -/
theorem eytzinger1_do_swap_comp (base1 : Nat → α) {l r : Nat} (hl : 1 ≤ l ∧ l ≤ n)
    (hr : 1 ≤ r ∧ r ≤ n)
    (hσ : ∀ l, 1 ≤ l → l ≤ n → σ l = (inorder_to_eytzinger1 l.toUInt32 n.toUInt32).toNat) :
    eytzinger1_do_swap base1 n l r ∘ σ = swapAt (base1 ∘ σ) l r := by
  rw [eytzinger1_do_swap, ← hσ l hl.1 hl.2, ← hσ r hr.1 hr.2, swapAt_comp_perm]

/-- The body of the descents is the library's, on a slot whose children are in `[1, n]`. -/
theorem eytzinger1_path_step_eq (base1 : Nat → α) {j : Nat} (hj : 1 ≤ j) (hjn : j * 2 + 1 ≤ n) :
    eytzinger1_path_step cmp base1 n j =
      if cmpGt cmp ((base1 ∘ σ) (j * 2)) ((base1 ∘ σ) (j * 2 + 1)) then j * 2 else j * 2 + 1 := by
  rw [eytzinger1_path_step, eytzinger1_do_cmp_eq cmp hσ base1 ⟨by omega, by omega⟩
    ⟨by omega, hjn⟩]
  simp only [cmpGt, decide_eq_true_eq]

/-- The heapify descent of the code is the library's on the array read through `σ`. -/
theorem eytzinger1_heapify_path_eq (base1 : Nat → α) {i : Nat} (hi : 1 ≤ i) :
    eytzinger1_heapify_path cmp base1 n i = siftDescend1 (cmpGt cmp) (base1 ∘ σ) n i := by
  unfold eytzinger1_heapify_path siftDescend1
  congr 1
  -- the slots stay from `1` on, and a body runs only when both children are in the heap
  refine whileLoop_congr (fun j => 1 ≤ j) (fun j hj hc => ⟨?_, ?_⟩) hi
  · exact eytzinger1_path_step_eq cmp hσ base1 hj (by have := of_decide_eq_true hc; omega)
  · split <;> omega

/-- The sort descent of the code, bounded by `i`, is the library's into `[1, i - 1]`. -/
theorem eytzinger1_sort_path_eq (base1 : Nat → α) {i : Nat} (hi : 2 ≤ i) (hin : i ≤ n) :
    eytzinger1_sort_path cmp base1 n i = siftDescend1 (cmpGt cmp) (base1 ∘ σ) (i - 1) 1 := by
  unfold eytzinger1_sort_path siftDescend1
  -- `k + 1 < i` is `k < i - 1`, and `j * 2 + 1 == i` is `j * 2 == i - 1`
  have hcond : (fun j => decide (j * 2 < i - 1)) = fun j => decide (j * 2 + 1 < i) :=
    funext fun j => by simp only [decide_eq_decide]; omega
  have hlast : (fun j => if j * 2 = i - 1 then j * 2 else j) =
      fun j => if j * 2 + 1 = i then j * 2 else j :=
    funext fun j => by simp only [show (j * 2 = i - 1) = (j * 2 + 1 = i) by
      apply propext; omega]
  rw [hcond, hlast, Nat.sub_add_cancel (by omega : 1 ≤ i)]
  congr 1
  refine whileLoop_congr (fun j => 1 ≤ j) (fun j hj hc => ⟨?_, ?_⟩) (Nat.le_refl 1)
  · exact eytzinger1_path_step_eq cmp hσ base1 hj (by have := of_decide_eq_true hc; omega)
  · split <;> omega

section Path

variable {m i k : Nat} (base1 : Nat → α) (hi : 1 ≤ i) (him : i ≤ m) (hmn : m ≤ n)
  (hk : ∀ l < k, pathPos1 (cmpGt cmp) (base1 ∘ σ) m i l * 2 ≤ m)
include hi him hmn hk

omit hσ in
/-- Every slot of the descent's path up to step `k` is a place of `[1, n]`. -/
theorem pathPos1_mem {l : Nat} (hl : l ≤ k) :
    1 ≤ pathPos1 (cmpGt cmp) (base1 ∘ σ) m i l ∧ pathPos1 (cmpGt cmp) (base1 ∘ σ) m i l ≤ n :=
  ⟨le_trans hi (le_pathPos1 hi hk l hl), le_trans (pathPos1_le hk him l hl) hmn⟩

omit hσ hi him hmn in
/-- Off the start of the path, the parent of a slot of it is the slot before. -/
theorem half_pathPos1_of_ne {l : Nat} (hl : l ≤ k)
    (hne : pathPos1 (cmpGt cmp) (base1 ∘ σ) m i l ≠ i) :
    ∃ l' < l, pathPos1 (cmpGt cmp) (base1 ∘ σ) m i l / 2 = pathPos1 (cmpGt cmp) (base1 ∘ σ) m i l' := by
  obtain ⟨l, rfl⟩ : ∃ l', l = l' + 1 := ⟨l - 1, by
    rcases l with _ | l
    · exact absurd (pathPos1_zero i) hne
    · rfl⟩
  exact ⟨l, Nat.lt_succ_self l, half_pathPos1_succ hk (by omega)⟩

/-- The heapify backtrack walks up the path from its leaf as the library's does: on the path
the two conditions agree. -/
theorem eytzinger1_heapify_backtrack_eq :
    eytzinger1_heapify_backtrack cmp base1 n i (pathPos1 (cmpGt cmp) (base1 ∘ σ) m i k) =
      siftBacktrack1 (cmpGe cmp) (base1 ∘ σ) i (pathPos1 (cmpGt cmp) (base1 ∘ σ) m i k) := by
  let P := pathPos1 (cmpGt cmp) (base1 ∘ σ) m i
  have hcond : ∀ j, (∃ l ≤ k, j = P l) →
      (j != i && decide (eytzinger1_do_cmp cmp base1 n i j ≥ 0)) =
        (j != i && cmpGe cmp ((base1 ∘ σ) i) ((base1 ∘ σ) j)) := by
    rintro j ⟨l, hl, rfl⟩
    rw [eytzinger1_do_cmp_eq cmp hσ base1 ⟨hi, by omega⟩
      (pathPos1_mem cmp base1 hi him hmn hk hl), cmpGe]
  have hstep : ∀ j, (∃ l ≤ k, j = P l) →
      (j != i && cmpGe cmp ((base1 ∘ σ) i) ((base1 ∘ σ) j)) = true →
      id j / 2 = id (j / 2) ∧ ∃ l ≤ k, j / 2 = P l := by
    rintro j ⟨l, hl, rfl⟩ hc
    simp only [Bool.and_eq_true, bne_iff_ne, ne_eq] at hc
    obtain ⟨l', hl', hhalf⟩ := half_pathPos1_of_ne cmp base1 hk hl hc.1
    exact ⟨rfl, l', by omega, hhalf⟩
  have h := @whileLoop_map Nat (fun j => j != i && cmpGe cmp ((base1 ∘ σ) i) ((base1 ∘ σ) j))
    (· / 2) Nat (fun j => j != i && decide (eytzinger1_do_cmp cmp base1 n i j ≥ 0)) (· / 2) id
    (fun j => ∃ l ≤ k, j = P l) hcond hstep (P k + 1) (P k) ⟨k, Nat.le_refl k, rfl⟩
  unfold eytzinger1_heapify_backtrack siftBacktrack1
  simpa using h

/-- A shift of the code from slot `j` of the path, under a condition that agrees with
`j != i` on the path, is the library's rotation read through `σ`: along the path every swap is
one of two slots of `[1, n]`. -/
theorem eytzinger1_shift_comp (c : Nat → Bool) {j : Nat} (hjk : j ≤ k)
    (hc : ∀ l ≤ j, c (pathPos1 (cmpGt cmp) (base1 ∘ σ) m i l) =
      (pathPos1 (cmpGt cmp) (base1 ∘ σ) m i l != i)) :
    (whileLoop (fun s : Nat × (Nat → α) => c s.1)
        (fun s => (s.1 / 2, eytzinger1_do_swap s.2 n (s.1 / 2) (pathPos1 (cmpGt cmp) (base1 ∘ σ) m i j)))
        (pathPos1 (cmpGt cmp) (base1 ∘ σ) m i j + 1) (pathPos1 (cmpGt cmp) (base1 ∘ σ) m i j, base1)).map
      (fun s => s.2 ∘ σ) =
      siftRotate1 i (pathPos1 (cmpGt cmp) (base1 ∘ σ) m i j) (base1 ∘ σ) := by
  let P := pathPos1 (cmpGt cmp) (base1 ∘ σ) m i
  let F : Nat × (Nat → α) → Nat × (Nat → α) := fun s => (s.1, s.2 ∘ σ)
  have hcond : ∀ s : Nat × (Nat → α), (∃ l ≤ j, s.1 = P l) → ((F s).1 != i) = c s.1 := by
    rintro ⟨t, b⟩ ⟨l, hl, ht⟩
    dsimp only at ht ⊢
    rw [ht, hc l hl]
  have hstep : ∀ s : Nat × (Nat → α), (∃ l ≤ j, s.1 = P l) → c s.1 = true →
      ((F s).1 / 2, swapAt (F s).2 ((F s).1 / 2) (P j)) =
        F (s.1 / 2, eytzinger1_do_swap s.2 n (s.1 / 2) (P j)) ∧ ∃ l ≤ j, s.1 / 2 = P l := by
    rintro ⟨t, b⟩ ⟨l, hl, ht⟩ hct
    dsimp only at ht hct
    subst ht
    rw [hc l hl, bne_iff_ne] at hct
    obtain ⟨l', hl', hhalf⟩ := half_pathPos1_of_ne cmp base1 hk (by omega) hct
    refine ⟨?_, l', by omega, hhalf⟩
    simp only [F]
    rw [show P l / 2 = P l' from hhalf, eytzinger1_do_swap_comp b (pathPos1_mem cmp base1 hi him hmn hk (by omega))
      (pathPos1_mem cmp base1 hi him hmn hk hjk) hσ]
  have h := @whileLoop_map (Nat × (Nat → α)) (fun s => c s.1)
    (fun s => (s.1 / 2, eytzinger1_do_swap s.2 n (s.1 / 2) (P j))) (Nat × (Nat → α))
    (fun s => s.1 != i) (fun s => (s.1 / 2, swapAt s.2 (s.1 / 2) (P j))) F
    (fun s => ∃ l ≤ j, s.1 = P l) hcond hstep (P j + 1) (P j, base1) ⟨j, Nat.le_refl j, rfl⟩
  unfold siftRotate1
  rw [show ((P j, base1 ∘ σ) : Nat × (Nat → α)) = F (P j, base1) from rfl, h, Option.map_map]
  rfl

/-- The heapify shift of the code, read through `σ`, is the library's rotation. -/
theorem eytzinger1_heapify_shift_comp {j : Nat} (hjk : j ≤ k) :
    (eytzinger1_heapify_shift base1 n i (pathPos1 (cmpGt cmp) (base1 ∘ σ) m i j)).map (· ∘ σ) =
      siftRotate1 i (pathPos1 (cmpGt cmp) (base1 ∘ σ) m i j) (base1 ∘ σ) := by
  rw [eytzinger1_heapify_shift, Option.map_map]
  exact eytzinger1_shift_comp cmp hσ base1 hi him hmn hk (· != i) hjk fun _ _ => rfl

end Path

section SortRounds

variable {m k : Nat} (base1 : Nat → α) (hm : 1 ≤ m) (hmn : m ≤ n)
  (hk : ∀ l < k, pathPos1 (cmpGt cmp) (base1 ∘ σ) m 1 l * 2 ≤ m)
include hm hmn hk

/-- The sort backtrack runs through the slot where the library's stops and, from the root,
goes on to `0`: the root is at least itself. -/
theorem eytzinger1_sort_backtrack_eq (hcmp : CmpPreorder cmp) {j : Nat} (hjk : j ≤ k)
    (hback : siftBacktrack1 (cmpGe cmp) (base1 ∘ σ) 1 (pathPos1 (cmpGt cmp) (base1 ∘ σ) m 1 k) =
      some (pathPos1 (cmpGt cmp) (base1 ∘ σ) m 1 j))
    (hstop : j = 0 ∨ cmpGe cmp ((base1 ∘ σ) 1) ((base1 ∘ σ) (pathPos1 (cmpGt cmp) (base1 ∘ σ) m 1 j)) =
      false) :
    eytzinger1_sort_backtrack cmp base1 n (pathPos1 (cmpGt cmp) (base1 ∘ σ) m 1 k) =
      some (if j = 0 then 0 else pathPos1 (cmpGt cmp) (base1 ∘ σ) m 1 j) := by
  let P := pathPos1 (cmpGt cmp) (base1 ∘ σ) m 1
  let goOn : Nat → Bool := fun j => decide (j ≥ 1) && decide (eytzinger1_do_cmp cmp base1 n 1 j ≥ 0)
  have hcmp1 : ∀ l ≤ k, eytzinger1_do_cmp cmp base1 n 1 (P l) =
      cmp ((base1 ∘ σ) 1) ((base1 ∘ σ) (P l)) := fun l hl =>
    eytzinger1_do_cmp_eq cmp hσ base1 ⟨Nat.le_refl 1, by omega⟩
      (pathPos1_mem cmp base1 (Nat.le_refl 1) hm hmn hk hl)
  -- the code's loop stops on its own fuel: it halves a slot of at least `1`
  obtain ⟨r, hr⟩ := @whileLoop_isSome_of_measure Nat goOn (· / 2) (fun _ => True) id
    (fun j _ hc => ⟨trivial, by
      simp only [goOn, Bool.and_eq_true, decide_eq_true_eq] at hc
      exact Nat.div_lt_self (by omega) (by decide)⟩) (P k + 1) (P k) trivial (Nat.lt_succ_self _)
  -- on the path its condition holds wherever the library's does
  have hstep : ∀ t, (∃ l ≤ k, t = P l) → (t != 1 && cmpGe cmp ((base1 ∘ σ) 1) ((base1 ∘ σ) t)) = true →
      goOn t = true ∧ ∃ l ≤ k, t / 2 = P l := by
    rintro t ⟨l, hl, rfl⟩ hc
    simp only [Bool.and_eq_true, bne_iff_ne, ne_eq] at hc
    obtain ⟨l', hl', hhalf⟩ := half_pathPos1_of_ne cmp base1 hk hl hc.1
    have hP1 := (pathPos1_mem cmp base1 (Nat.le_refl 1) hm hmn hk hl).1
    refine ⟨?_, l', by omega, hhalf⟩
    simp only [goOn, hcmp1 l hl, Bool.and_eq_true, decide_eq_true_eq]
    exact ⟨hP1, by simpa [cmpGe] using hc.2⟩
  -- from where the library stops, the code stops at once, or takes the root to `0`
  have hrest : whileLoop goOn (· / 2) 2 (P j) = some (if j = 0 then 0 else P j) := by
    by_cases hj0 : j = 0
    · subst hj0
      have hc : goOn (P 0) = true := by
        simp only [goOn, hcmp1 0 (Nat.zero_le k), Bool.and_eq_true, decide_eq_true_eq]
        exact ⟨Nat.le_refl 1, by rw [show P 0 = 1 from rfl, cmp_self_eq_zero hcmp]⟩
      rw [whileLoop_succ_of_cond hc, if_pos rfl]
      rw [show P 0 = 1 from rfl]
      exact whileLoop_succ_of_not_cond (by simp [goOn]) 0
    · have hge := hstop.resolve_left hj0
      have hc : goOn (P j) = false := by
        simp only [goOn, hcmp1 j hjk]
        simp only [cmpGe] at hge
        rw [hge, Bool.and_false]
      rw [whileLoop_succ_of_not_cond hc, if_neg hj0]
  have hseq := whileLoop_seq (fun t => ∃ l ≤ k, t = P l) hstep ⟨k, Nat.le_refl k, rfl⟩ hback hrest
  unfold eytzinger1_sort_backtrack
  rw [hr, whileLoop_eq_of_some hr hseq]

/-- The sort shift of the code, read through `σ`, is the library's rotation to the root. -/
theorem eytzinger1_sort_shift_comp {j : Nat} (hjk : j ≤ k) :
    (eytzinger1_sort_shift base1 n (pathPos1 (cmpGt cmp) (base1 ∘ σ) m 1 j)).map (· ∘ σ) =
      siftRotate1 1 (pathPos1 (cmpGt cmp) (base1 ∘ σ) m 1 j) (base1 ∘ σ) := by
  rw [eytzinger1_sort_shift, Option.map_map]
  refine eytzinger1_shift_comp cmp hσ base1 (Nat.le_refl 1) hm hmn hk (fun t => decide (t > 1)) hjk
    fun l hl => ?_
  -- on the path, `j > 1` is `j != 1`
  have := (pathPos1_mem cmp base1 (Nat.le_refl 1) hm hmn hk (Nat.le_trans hl hjk)).1
  rw [Bool.eq_iff_iff, decide_eq_true_eq, bne_iff_ne, ne_eq]
  omega

end SortRounds

/-! ### The rounds and the loops -/

/-- A heapify round, read through `σ`, is the library's sift of slot `i`. -/
theorem eytzinger1_heapify_round_comp (base1 : Nat → α) {i : Nat} (hi : 1 ≤ i) (hin : i ≤ n) :
    (eytzinger1_heapify_round cmp base1 n i).map (· ∘ σ) =
      sift1 (cmpGt cmp) (cmpGe cmp) (base1 ∘ σ) n i := by
  obtain ⟨k, hdesc, -, hk⟩ := @siftDescend1_spec _ (cmpGt cmp) (base1 ∘ σ) n i hi
  obtain ⟨j, hjk, hback, -, -⟩ :=
    @siftBacktrack1_spec _ (cmpGt cmp) (cmpGe cmp) (base1 ∘ σ) n i k hi hk
  -- descent, backtrack and shift, each the library's through `σ`
  unfold eytzinger1_heapify_round sift1
  rw [eytzinger1_heapify_path_eq cmp hσ base1 hi, hdesc, Option.bind_some, Option.bind_some,
    eytzinger1_heapify_backtrack_eq cmp hσ base1 hi hin (Nat.le_refl n) hk, hback,
    Option.bind_some, Option.bind_some]
  exact eytzinger1_heapify_shift_comp cmp hσ base1 hi hin (Nat.le_refl n) hk hjk

omit hσ in
/-- From `0` and from the root the sort shift does nothing. -/
theorem eytzinger1_sort_shift_of_le_one (base1 : Nat → α) {k : Nat} (hk : k ≤ 1) :
    eytzinger1_sort_shift base1 n k = some base1 := by
  rw [eytzinger1_sort_shift, whileLoop_succ_of_not_cond (by simp; omega)]
  rfl

/-- A sort round, read through `σ`, is the library's: the swap of the root with `i`, and the
sift of the root into `[1, i - 1]`. -/
theorem eytzinger1_sort_round_comp (hcmp : CmpPreorder cmp) (base1 : Nat → α) {i : Nat}
    (hi : 2 ≤ i) (hin : i ≤ n) :
    (eytzinger1_sort_round cmp base1 n i).map (· ∘ σ) =
      sift1 (cmpGt cmp) (cmpGe cmp) (swapAt (base1 ∘ σ) 1 i) (i - 1) 1 := by
  have hswap := eytzinger1_do_swap_comp base1 ⟨Nat.le_refl 1, by omega⟩ ⟨by omega, hin⟩ hσ
  unfold eytzinger1_sort_round
  rw [← hswap]
  generalize eytzinger1_do_swap base1 n 1 i = f
  obtain ⟨k, hdesc, -, hk⟩ := @siftDescend1_spec _ (cmpGt cmp) (f ∘ σ) (i - 1) 1 (Nat.le_refl 1)
  obtain ⟨j, hjk, hback, -, hstop⟩ :=
    @siftBacktrack1_spec _ (cmpGt cmp) (cmpGe cmp) (f ∘ σ) (i - 1) 1 k (Nat.le_refl 1) hk
  unfold sift1
  dsimp only
  rw [eytzinger1_sort_path_eq cmp hσ f hi hin, hdesc, Option.bind_some, Option.bind_some,
    eytzinger1_sort_backtrack_eq cmp hσ f (by omega) (by omega) hk hcmp hjk hback hstop, hback,
    Option.bind_some, Option.bind_some]
  by_cases hj0 : j = 0
  · -- the backtrack went past the root: the code shifts from `0`, the library from the root
    subst hj0
    rw [if_pos rfl, eytzinger1_sort_shift_of_le_one f (Nat.zero_le 1),
      ← eytzinger1_sort_shift_of_le_one f (le_of_eq (pathPos1_zero 1))]
    exact eytzinger1_sort_shift_comp cmp hσ f (by omega) (by omega) hk hjk
  · rw [if_neg hj0]
    exact eytzinger1_sort_shift_comp cmp hσ f (by omega) (by omega) hk hjk

/-- The heapify loop from `i` down, read through `σ`, is the library's. -/
theorem eytzinger1_heapify_comp :
    ∀ i (base1 : Nat → α), i ≤ n →
      (eytzinger1_heapify cmp n i base1).map (· ∘ σ) =
        heapify1 (cmpGt cmp) (cmpGe cmp) n i (base1 ∘ σ) := by
  intro i
  induction i with
  | zero => intro base1 _; rfl
  | succ i ih =>
      intro base1 hin
      -- a round, then the loop on what it left
      rw [eytzinger1_heapify, heapify1, Option.map_bind,
        ← eytzinger1_heapify_round_comp cmp hσ base1 (by omega) hin, Option.bind_map]
      congr 1
      funext b
      exact ih b (by omega)

/-- The sort rounds from `i` down, read through `σ`, are the library's. -/
theorem eytzinger1_sort_rounds_comp (hcmp : CmpPreorder cmp) :
    ∀ i (base1 : Nat → α), i ≤ n →
      (eytzinger1_sort_rounds cmp n i base1).map (· ∘ σ) =
        extract1 (cmpGt cmp) (cmpGe cmp) i (base1 ∘ σ) := by
  intro i
  induction i using Nat.strongRecOn with
  | ind i ih =>
      intro base1 hin
      -- the rounds stop at the root, as the library's do
      rcases i with _ | _ | i
      · rfl
      · rfl
      · rw [eytzinger1_sort_rounds, extract1, Option.map_bind,
          show i + 1 = i + 2 - 1 from rfl, ← eytzinger1_sort_round_comp cmp hσ hcmp base1
            (by omega) hin, Option.bind_map]
        congr 1
        funext b
        exact ih (i + 1) (by omega) b (by omega)

/-- `eytzinger1_sort_r`, read through `σ`, is the one-based heapsort of the array read through
`σ`, with the descent going left on `cmp > 0` and the backtrack going up on `cmp >= 0`. -/
theorem eytzinger1_sort_r_comp (hcmp : CmpPreorder cmp) (base1 : Nat → α) :
    (eytzinger1_sort_r cmp base1 n).map (· ∘ σ) =
      heapSort1 (cmpGt cmp) (cmpGe cmp) (base1 ∘ σ) n := by
  -- heapify from `n / 2`, then the sort rounds from `n`
  rw [eytzinger1_sort_r, heapSort1, Option.map_bind,
    ← eytzinger1_heapify_comp cmp hσ (n / 2) base1 (Nat.div_le_self n 2), Option.bind_map]
  congr 1
  funext b
  exact eytzinger1_sort_rounds_comp cmp hσ hcmp n b (Nat.le_refl n)

omit hσ in
/-- Three elements: the inorder of the tree on `[1, 3]` is `2, 1, 3`, so `σ` swaps `1` and `2`. -/
theorem eytzinger1_sort_r_comp_three :
    (eytzinger1_sort_r cmp_int (fun k => 3 - k) 3).map (· ∘ Equiv.swap 1 2) =
      heapSort1 (cmpGt cmp_int) (cmpGe cmp_int) ((fun k => 3 - k) ∘ Equiv.swap 1 2) 3 :=
  eytzinger1_sort_r_comp cmp_int (fun l h1 h3 => by interval_cases l <;> decide)
    cmpPreorder_cmp_int _

end Simulation

/-! ### The sort -/

section Sorted

variable {cmp : α → α → Int} (hcmp : CmpPreorder cmp) {n : Nat} (h0 : 0 < n) (hn : n + 1 < 2 ^ 31)
include hcmp h0 hn

/-- `eytzinger1_sort_r` permutes `[1, n]` and leaves the elements nondecreasing along the
places of the inorder. -/
theorem eytzinger1_sort_r_spec (base1 : Nat → α) :
    ∃ r, eytzinger1_sort_r cmp base1 n = some r ∧ PermOn 1 (n + 1) base1 r ∧
      ∀ l l', 1 ≤ l → l < l' → l' ≤ n →
        0 ≤ cmp (r (inorder_to_eytzinger1 l'.toUInt32 n.toUInt32).toNat)
          (r (inorder_to_eytzinger1 l.toUInt32 n.toUInt32).toNat) := by
  -- a permutation of all indices that is the index map on `[1, n]`
  obtain ⟨σ, hσι, hσout⟩ := exists_perm_eqOn_of_bijOn (eytzinger1_bijOn h0 hn)
  have hσ : ∀ l, 1 ≤ l → l ≤ n → σ l = (inorder_to_eytzinger1 l.toUInt32 n.toUInt32).toNat :=
    fun l h1 h2 => hσι l h1 (Nat.lt_succ_of_le h2)
  obtain ⟨g, hg, hsorted, hperm⟩ := heapSort1_spec (sortOrder_cmp hcmp) (base1 ∘ σ) n
  have hcomp := eytzinger1_sort_r_comp cmp hσ hcmp base1
  rw [hg, Option.map_eq_some_iff] at hcomp
  obtain ⟨r, hr, rfl⟩ := hcomp
  refine ⟨r, hr, ?_, fun l l' hl hll' hl' => ?_⟩
  · -- the library permutes `base1 ∘ σ`; read back through `σ.symm` that permutes `base1`
    have h := PermOn.of_comp_perm hσout hperm
    rwa [Function.comp_assoc, Equiv.self_comp_symm, Function.comp_id] at h
  · have h := hsorted l l' hl hll' (by omega)
    simp only [cmpGe, Function.comp_apply, decide_eq_true_eq] at h
    rwa [hσ l hl (by omega), hσ l' (by omega) hl'] at h

/-- `eytzinger0_sort` permutes the `n` elements and leaves them nondecreasing along the inorder
of the tree on `[1, n]`, node `x` at index `x - 1`. -/
theorem eytzinger0_sort_inorder (base : Nat → α) :
    ∃ base', eytzinger0_sort cmp base n = some base' ∧
      ((List.range n).map base').Perm ((List.range n).map base) ∧
      ((inorder n 1).map fun x => base' (x - 1)).Pairwise fun x y => 0 ≤ cmp y x := by
  obtain ⟨r, hr, hperm, hsorted⟩ := eytzinger1_sort_r_spec hcmp h0 hn fun k => base (k - 1)
  refine ⟨fun k => r (k + 1), by rw [eytzinger0_sort, eytzinger0_sort_r, hr, Option.map_some], ?_,
    ?_⟩
  · -- element `k` of `base` is element `k + 1` of `base1`
    have h := hperm.perm_map_range' (Nat.le_add_left 1 n)
    rw [Nat.add_sub_cancel, List.range'_eq_map_range, List.map_map, List.map_map] at h
    simpa [Function.comp_def, Nat.add_comm 1] using h
  · -- along the inorder the nodes are those at the places `1` to `n`
    have hnode : ∀ x ∈ inorder n 1, x - 1 + 1 = x := fun x hx =>
      Nat.sub_add_cancel (mem_inorder_one.mp hx).1
    rw [List.map_congr_left fun x hx => congrArg r (hnode x hx), inorder_eq_map_range' h0 hn,
      List.map_map, List.pairwise_map]
    exact (List.pairwise_lt_range' 1).imp_of_mem fun hl hl' hll' =>
      hsorted _ _ (List.mem_range'_1.mp hl).1 hll' (by have := List.mem_range'_1.mp hl'; omega)

/-- `eytzinger0_sort` permutes the `n` elements and leaves them nondecreasing in the order
`eytzinger0_for_each` visits the nodes. -/
theorem eytzinger0_sort_spec (base : Nat → α) :
    ∃ base', eytzinger0_sort cmp base n = some base' ∧
      ((List.range n).map base').Perm ((List.range n).map base) ∧
      ∃ l, eytzinger0_for_each n.toUInt32 = some l ∧
        (l.map fun i => base' i.toNat).Pairwise fun x y => 0 ≤ cmp y x := by
  have hsz : n.toUInt32.toNat = n := toNat_toUInt32_of_lt (by omega)
  obtain ⟨base', hsort, hperm, hsorted⟩ := eytzinger0_sort_inorder hcmp h0 hn base
  -- the loop visits the nodes of the inorder less one
  refine ⟨base', hsort, hperm, ((inorder n 1).map Nat.toUInt32).map (· - 1), ?_, ?_⟩
  · rw [eytzinger0_for_each_eq_map, @eytzinger1_for_each_eq n.toUInt32 (by omega) (by omega), hsz,
      Option.map_some]
  · -- the loop visits node `x` as index `x - 1`
    have hnode : ∀ x ∈ inorder n 1, (x.toUInt32 - 1).toNat = x - 1 := fun x hx => by
      have hx' := mem_inorder_one.mp hx
      have hxw : x.toUInt32.toNat = x := toNat_toUInt32_of_lt (by omega)
      have hle : 1 ≤ x.toUInt32 := by rw [UInt32.le_iff_toNat_le, hxw]; simp; omega
      rw [UInt32.toNat_sub_of_le _ _ hle, hxw]
      simp
    simp only [List.map_map, Function.comp_def]
    rwa [List.map_congr_left fun x hx => congrArg base' (hnode x hx)]

omit hcmp h0 hn in
/-- Three elements in decreasing order. -/
theorem eytzinger0_sort_spec_three :
    ∃ base', eytzinger0_sort cmp_int (fun k => 3 - k) 3 = some base' ∧
      ((List.range 3).map base').Perm ((List.range 3).map fun k => 3 - k) ∧
      ∃ l, eytzinger0_for_each (3 : Nat).toUInt32 = some l ∧
        (l.map fun i => base' i.toNat).Pairwise fun x y => 0 ≤ cmp_int y x :=
  eytzinger0_sort_spec cmpPreorder_cmp_int (by norm_num) (by norm_num) _

end Sorted

end Bcachefs.Proofs.Util
