import Bcachefs.Sorting.Heap
import Mathlib.Logic.Equiv.Set
import Mathlib.Data.Set.Function
import Mathlib.Order.Interval.Set.Basic

/-!
# `Bcachefs.Sorting.HeapOne`: bottom-up heapsort on a one-based heap

The heapsort of `Sorting.Heap` with the heap on the slots `[1, m]`: the children of `j` are
`2 j` and `2 j + 1` and its parent is `j / 2`. The descent to a leaf takes the child that
`pick` chooses, which need not be the one `ge` would: a descent that goes left only on a
strictly larger left child breaks ties the other way from one that goes left on a larger or
equal one. `SortOrder pick ge` says what the proofs need of the two: `ge` is total and
transitive, and `pick` chooses a child that is at least its sibling.

* `sift1_spec`: the sift from `i` puts `[i, m]` in heap order by a permutation of `[i, m]`,
  from the descent's path (`pathPos1`), the stop of the backtrack and what the rotation moves
  (`Rotated1`);
* `heapify1_spec` and `extract1_spec`: the two loops of the sort, the first with the heap
  order from `i` on, the second with `ExtractInv1`, a heap in front of a sorted tail;
* `heapSort1_spec`: the sort stops with `[1, n]` sorted by `ge` and permuted.

The last section is about reading an array through a permutation of its indices: a swap of
the slots `σ l` and `σ r` is a swap of `l` and `r` in the array read through `σ`
(`swapAt_comp_perm`), a bijection of `[lo, hi)` extends to a permutation that fixes the rest
(`exists_perm_eqOn_of_bijOn`), and a permutation of `[lo, hi)` read through such a
permutation is one of the array itself (`PermOn.of_comp_perm`).
-/

set_option autoImplicit false

namespace Bcachefs.Sorting

open Bcachefs.Loop

variable {α : Type*}

section Defs

variable (pick ge : α → α → Bool)

/-- One step of the descent from `j` in the heap `[1, m]`: to the child `pick` chooses when
both are in the heap, to a last child without a sibling, and nowhere from a leaf. -/
def descendNext1 (f : Nat → α) (m j : Nat) : Nat :=
  if j * 2 < m then (if pick (f (j * 2)) (f (j * 2 + 1)) then j * 2 else j * 2 + 1)
  else if j * 2 = m then j * 2 else j

/-- The slot the descent from `i` is at after `l` steps. -/
def pathPos1 (f : Nat → α) (m i l : Nat) : Nat := (descendNext1 pick f m)^[l] i

/-- The descent: to the chosen child while both children are in the heap, then to a last
child that has no sibling. -/
def siftDescend1 (f : Nat → α) (m i : Nat) : Option Nat :=
  (whileLoop (fun j => decide (j * 2 < m))
      (fun j => if pick (f (j * 2)) (f (j * 2 + 1)) then j * 2 else j * 2 + 1) (m + 1) i).map
    fun j => if j * 2 = m then j * 2 else j

/-- The backtrack: up from `j` towards `i` while the entry at `i` is at least the one at `j`. -/
def siftBacktrack1 (f : Nat → α) (i j : Nat) : Option Nat :=
  whileLoop (fun j => j != i && ge (f i) (f j)) (· / 2) (j + 1) j

/-- The rotation: from `k` up to `i`, each step swapping the parent with `k`, which moves the
entries of the way from `i` to `k` up one level and the entry at `i` to `k`. -/
def siftRotate1 (i k : Nat) (f : Nat → α) : Option (Nat → α) :=
  (whileLoop (fun s : Nat × (Nat → α) => s.1 != i) (fun s => (s.1 / 2, swapAt s.2 (s.1 / 2) k))
      (k + 1) (k, f)).map Prod.snd

/-- Sift the entry at `i` down into the heap `[1, m]`. -/
def sift1 (f : Nat → α) (m i : Nat) : Option (Nat → α) :=
  (siftDescend1 pick f m i).bind fun j => (siftBacktrack1 ge f i j).bind fun k => siftRotate1 i k f

/-- Build the heap `[1, m]`: sift `i`, `i - 1`, ..., `1`. -/
def heapify1 (m : Nat) : Nat → (Nat → α) → Option (Nat → α)
  | 0, f => some f
  | i + 1, f => (sift1 pick ge f m (i + 1)).bind (heapify1 m i)

/-- Take the heap `[1, i]` apart: while it has two entries, swap the root to `i` and sift the
new root into `[1, i - 1]`. -/
def extract1 : Nat → (Nat → α) → Option (Nat → α)
  | i + 2, f => (sift1 pick ge (swapAt f 1 (i + 2)) (i + 1) 1).bind (extract1 (i + 1))
  | _, f => some f

/-- The sort of the slots `[1, n]`. -/
def heapSort1 (f : Nat → α) (n : Nat) : Option (Nat → α) :=
  (heapify1 pick ge n (n / 2) f).bind (extract1 pick ge n)

/-- The entry at `q` is at least each of its children in `[1, m]`. -/
def HeapAt1 (f : Nat → α) (m q : Nat) : Prop :=
  ∀ c, (c = q * 2 ∨ c = q * 2 + 1) → c ≤ m → ge (f q) (f c) = true

/-- Every slot from `i` on is in heap order. -/
def HeapFrom1 (f : Nat → α) (m i : Nat) : Prop := ∀ q, i ≤ q → HeapAt1 ge f m q

/-- The slots `[lo, hi)` are sorted by `ge`. -/
def SortedOn (f : Nat → α) (lo hi : Nat) : Prop :=
  ∀ i j, lo ≤ i → i < j → j < hi → ge (f j) (f i) = true

attribute [grind] descendNext1 siftDescend1 heapify1 extract1

/-- What the sort needs of its comparisons: `ge` is a total preorder, and the child `pick`
chooses is at least its sibling. -/
structure SortOrder : Prop where
  total : ∀ x y, ge x y = true ∨ ge y x = true
  trans : ∀ x y z, ge x y = true → ge y z = true → ge x z = true
  pick_true : ∀ x y, pick x y = true → ge x y = true
  pick_false : ∀ x y, pick x y = false → ge y x = true

end Defs

/-- A total comparison finds every element at least itself. -/
theorem SortOrder.refl {pick ge : α → α → Bool} (h : SortOrder pick ge) (x : α) :
    ge x x = true :=
  (h.total x x).elim id id

/-! ## The path of the descent -/

section Path

variable {pick : α → α → Bool} {f : Nat → α} {m : Nat}

/-- The path starts at `i`. -/
theorem pathPos1_zero (i : Nat) : pathPos1 pick f m i 0 = i := rfl

/-- Each step of the path is one step of the descent. -/
theorem pathPos1_succ (i l : Nat) :
    pathPos1 pick f m i (l + 1) = descendNext1 pick f m (pathPos1 pick f m i l) :=
  Function.iterate_succ_apply' _ _ _

/-- From a slot with a child in the heap, the descent goes to a child in the heap. -/
theorem descendNext1_child {j : Nat} (h : j * 2 ≤ m) :
    (descendNext1 pick f m j = j * 2 ∨ descendNext1 pick f m j = j * 2 + 1) ∧
      descendNext1 pick f m j ≤ m := by
  unfold descendNext1
  -- two children in the heap, or a last child without a sibling
  by_cases h2 : j * 2 < m
  · rw [if_pos h2]
    split_ifs <;> omega
  · rw [if_neg h2, if_pos (by omega)]
    omega

/-- From a slot with a child in the heap, the descent's parent is the slot. -/
theorem half_descendNext1 {j : Nat} (h : j * 2 ≤ m) : descendNext1 pick f m j / 2 = j := by
  rcases (@descendNext1_child _ pick f _ _ h).1 with h' | h' <;> rw [h'] <;> omega

/-- The descent goes to a child at least as large as each child in the heap. -/
theorem ge_descendNext1 {ge : α → α → Bool} (hord : SortOrder pick ge) {j : Nat}
    (h : j * 2 ≤ m) {c : Nat} (hc : c = j * 2 ∨ c = j * 2 + 1) (hcm : c ≤ m) :
    ge (f (descendNext1 pick f m j)) (f c) = true := by
  unfold descendNext1
  by_cases h2 : j * 2 < m
  · rw [if_pos h2]
    cases hp : pick (f (j * 2)) (f (j * 2 + 1))
    · -- the right child: its sibling is no larger
      rw [if_neg (by simp)]
      rcases hc with rfl | rfl
      · exact hord.pick_false _ _ hp
      · exact hord.refl _
    · rw [if_pos rfl]
      rcases hc with rfl | rfl
      · exact hord.refl _
      · exact hord.pick_true _ _ hp
  · -- a last child without a sibling: it is the only child in the heap
    rw [if_neg h2, if_pos (by omega), show c = j * 2 by omega]
    exact hord.refl _

variable {i k : Nat} (hi : 1 ≤ i) (hk : ∀ l < k, pathPos1 pick f m i l * 2 ≤ m)
include hk

/-- Before the leaf, each next slot of the path is a child, in the heap, of the slot before. -/
theorem pathPos1_succ_child {l : Nat} (hl : l < k) :
    (pathPos1 pick f m i (l + 1) = pathPos1 pick f m i l * 2 ∨
        pathPos1 pick f m i (l + 1) = pathPos1 pick f m i l * 2 + 1) ∧
      pathPos1 pick f m i (l + 1) ≤ m := by
  rw [pathPos1_succ]
  exact descendNext1_child (hk l hl)

/-- Before the leaf, the parent of each next slot of the path is the slot before. -/
theorem half_pathPos1_succ {l : Nat} (hl : l < k) :
    pathPos1 pick f m i (l + 1) / 2 = pathPos1 pick f m i l := by
  rw [pathPos1_succ]
  exact half_descendNext1 (hk l hl)

/-- From a slot of the heap the path stays in the heap. -/
theorem pathPos1_le (him : i ≤ m) (l : Nat) (hl : l ≤ k) : pathPos1 pick f m i l ≤ m := by
  rcases l with _ | l
  · exact him
  · exact (pathPos1_succ_child hk (by omega)).2

include hi

/-- From a slot of at least `1` the path stays at or above `1`. -/
theorem one_le_pathPos1 (l : Nat) (hl : l ≤ k) : 1 ≤ pathPos1 pick f m i l := by
  induction l with
  | zero => exact hi
  | succ l ih =>
      have := ih (by omega)
      rcases (pathPos1_succ_child hk (show l < k by omega)).1 with h | h <;> omega

/-- The path climbs strictly up to the leaf. -/
theorem pathPos1_lt_pathPos1 {l l' : Nat} (hll' : l < l') (hl' : l' ≤ k) :
    pathPos1 pick f m i l < pathPos1 pick f m i l' := by
  induction l' with
  | zero => omega
  | succ l' ih =>
      -- each step goes to a child, so further down
      have hstep : pathPos1 pick f m i l' < pathPos1 pick f m i (l' + 1) := by
        have := one_le_pathPos1 hi hk l' (by omega)
        rcases (pathPos1_succ_child hk (show l' < k by omega)).1 with h | h <;> omega
      rcases Nat.lt_succ_iff_lt_or_eq.mp hll' with h | rfl
      · exact Nat.lt_trans (ih h (by omega)) hstep
      · exact hstep

/-- No slot is on the path twice. -/
theorem pathPos1_inj {l l' : Nat} (hl : l ≤ k) (hl' : l' ≤ k)
    (h : pathPos1 pick f m i l = pathPos1 pick f m i l') : l = l' := by
  rcases Nat.lt_trichotomy l l' with hll' | hll' | hll'
  · exact absurd h (Nat.ne_of_lt (pathPos1_lt_pathPos1 hi hk hll' hl'))
  · exact hll'
  · exact absurd h.symm (Nat.ne_of_lt (pathPos1_lt_pathPos1 hi hk hll' hl))

/-- The path stays at or below its start `i`. -/
theorem le_pathPos1 (l : Nat) (hl : l ≤ k) : i ≤ pathPos1 pick f m i l := by
  rcases Nat.eq_zero_or_pos l with rfl | hpos
  · exact Nat.le_refl i
  · exact Nat.le_of_lt (pathPos1_lt_pathPos1 hi hk hpos hl)

/-- A child of a slot on the path is on the path only as the next slot. -/
theorem eq_succ_of_child_pathPos1 {l l' : Nat} (hl : l ≤ k) (hl' : l' ≤ k)
    (hc : pathPos1 pick f m i l' = pathPos1 pick f m i l * 2 ∨
      pathPos1 pick f m i l' = pathPos1 pick f m i l * 2 + 1) : l' = l + 1 := by
  rcases l' with _ | l'
  · -- the start of the path is below every slot of it
    have h₁ := le_pathPos1 hi hk l hl
    have h₂ := one_le_pathPos1 hi hk l hl
    rw [pathPos1_zero] at hc
    omega
  · have hhalf := half_pathPos1_succ hk (show l' < k by omega)
    have : pathPos1 pick f m i l' = pathPos1 pick f m i l := by
      rw [← hhalf]
      omega
    rw [pathPos1_inj hi hk (by omega) hl this]

/-- A slot from `i` on whose child is on the path is on it too, one step earlier. -/
theorem pathPos1_of_child {q l' : Nat} (hq : i ≤ q) (hl' : l' ≤ k)
    (hc : pathPos1 pick f m i l' = q * 2 ∨ pathPos1 pick f m i l' = q * 2 + 1) :
    ∃ l, l' = l + 1 ∧ q = pathPos1 pick f m i l := by
  rcases l' with _ | l
  · rw [pathPos1_zero] at hc
    omega
  -- the parent of the child is `q`, and the slot before
  · refine ⟨l, rfl, ?_⟩
    rw [← half_pathPos1_succ hk (show l < k by omega)]
    omega

end Path

/-! ## The three loops of the sift -/

/-- What the rotation leaves: the sifted entry at the stop `j`, each entry above it on the
path moved up one slot, and every other slot as it was. -/
structure Rotated1 (pick : α → α → Bool) (f : Nat → α) (m i j : Nat) (g : Nat → α) : Prop where
  stop : g (pathPos1 pick f m i j) = f i
  above : ∀ l < j, g (pathPos1 pick f m i l) = f (pathPos1 pick f m i (l + 1))
  off : ∀ q, (∀ l ≤ j, q ≠ pathPos1 pick f m i l) → g q = f q

section Loops

variable {pick ge : α → α → Bool} (f : Nat → α) (m : Nat)

/-- The descent stops at the first leaf of the path, after `k` steps. -/
theorem siftDescend1_spec {i : Nat} (hi : 1 ≤ i) :
    ∃ k, siftDescend1 pick f m i = some (pathPos1 pick f m i k) ∧
      m < pathPos1 pick f m i k * 2 ∧ ∀ l < k, pathPos1 pick f m i l * 2 ≤ m := by
  -- the loop keeps to the path, through slots that are not leaves
  let I : Nat → Prop := fun j =>
    ∃ l, j = pathPos1 pick f m i l ∧ ∀ l' < l, pathPos1 pick f m i l' * 2 ≤ m
  let next : Nat → Nat := fun j => if pick (f (j * 2)) (f (j * 2 + 1)) then j * 2 else j * 2 + 1
  have hstep : ∀ j, I j → decide (j * 2 < m) = true → I (next j) ∧ m - next j < m - j := by
    rintro j ⟨l, rfl, hl⟩ hc
    have hc' : pathPos1 pick f m i l * 2 < m := of_decide_eq_true hc
    have hpos := one_le_pathPos1 hi hl l (Nat.le_refl l)
    have hnext : descendNext1 pick f m (pathPos1 pick f m i l) = next (pathPos1 pick f m i l) := by
      rw [descendNext1, if_pos hc']
    refine ⟨⟨l + 1, by rw [pathPos1_succ, hnext], fun l' hl' => ?_⟩, ?_⟩
    · rcases Nat.lt_succ_iff_lt_or_eq.mp hl' with hl' | rfl
      · exact hl l' hl'
      · omega
    · simp only [next]
      split_ifs <;> omega
  have hI0 : I i := ⟨0, rfl, fun l hl => absurd hl (Nat.not_lt_zero l)⟩
  obtain ⟨j, hj⟩ := whileLoop_isSome_of_measure I (fun j => m - j) hstep hI0
    (show m - i < m + 1 by omega)
  obtain ⟨⟨l, rfl, hl⟩, hexit⟩ := whileLoop_inv I (fun j hj hc => (hstep j hj hc).1) hI0 hj
  have hexit' : ¬ pathPos1 pick f m i l * 2 < m := by simpa using hexit
  unfold siftDescend1
  rw [hj, Option.map_some]
  by_cases hlast : pathPos1 pick f m i l * 2 = m
  · -- a last child without a sibling is one more step, to a leaf
    have hpos := one_le_pathPos1 hi hl l (Nat.le_refl l)
    have hsucc : pathPos1 pick f m i (l + 1) = pathPos1 pick f m i l * 2 := by
      rw [pathPos1_succ, descendNext1, if_neg hexit', if_pos hlast]
    refine ⟨l + 1, by rw [if_pos hlast, hsucc], by omega, fun l' hl' => ?_⟩
    rcases Nat.lt_succ_iff_lt_or_eq.mp hl' with hl' | rfl
    · exact hl l' hl'
    · omega
  · exact ⟨l, by rw [if_neg hlast], by omega, hl⟩

variable {i k : Nat} (hi : 1 ≤ i) (hk : ∀ l < k, pathPos1 pick f m i l * 2 ≤ m)
include hi hk

/-- The backtrack stops on the path at `j`: the sifted entry is at least every entry below
`j` on the path, and smaller than the entry at `j` unless `j` is the start. -/
theorem siftBacktrack1_spec :
    ∃ j ≤ k, siftBacktrack1 ge f i (pathPos1 pick f m i k) = some (pathPos1 pick f m i j) ∧
      (∀ l, j < l → l ≤ k → ge (f i) (f (pathPos1 pick f m i l)) = true) ∧
      (j = 0 ∨ ge (f i) (f (pathPos1 pick f m i j)) = false) := by
  -- the loop walks up the path; the sifted entry is at least everything passed
  let I : Nat → Prop := fun j => ∃ l ≤ k, j = pathPos1 pick f m i l ∧
    ∀ l', l < l' → l' ≤ k → ge (f i) (f (pathPos1 pick f m i l')) = true
  have hstep : ∀ j, I j → (j != i && ge (f i) (f j)) = true → I (j / 2) ∧ j / 2 < j := by
    rintro j ⟨l, hlk, rfl, hl⟩ hc
    simp only [Bool.and_eq_true, bne_iff_ne, ne_eq] at hc
    obtain ⟨hne, hge⟩ := hc
    obtain ⟨l, rfl⟩ : ∃ l', l = l' + 1 := ⟨l - 1, by
      rcases l with _ | l
      · exact absurd (pathPos1_zero i) hne
      · rfl⟩
    have hhalf := half_pathPos1_succ hk (show l < k by omega)
    have hlt := pathPos1_lt_pathPos1 hi hk (Nat.lt_succ_self l) hlk
    refine ⟨⟨l, by omega, hhalf, fun l' hl' hl'k => ?_⟩, by rw [hhalf]; exact hlt⟩
    rcases Nat.lt_or_ge (l + 1) l' with h | h
    · exact hl l' h hl'k
    · rw [show l' = l + 1 by omega]
      exact hge
  have hI0 : I (pathPos1 pick f m i k) :=
    ⟨k, Nat.le_refl k, rfl, fun l' hl' hl'k => absurd hl'k (by omega)⟩
  obtain ⟨c, hc⟩ := whileLoop_isSome_of_measure I id hstep hI0 (Nat.lt_succ_self _)
  obtain ⟨⟨j, hjk, rfl, hj⟩, hexit⟩ := whileLoop_inv I (fun j hj hc => (hstep j hj hc).1) hI0 hc
  refine ⟨j, hjk, hc, hj, ?_⟩
  simp only [Bool.and_eq_false_iff, bne_eq_false_iff_eq] at hexit
  rcases hexit with h | h
  · exact Or.inl (pathPos1_inj hi hk hjk (Nat.zero_le k) h)
  · exact Or.inr h

/-- The rotation from the stop `j` up to `i` stops, leaves the entries as `Rotated1` says, and
permutes `[i, m]`. -/
theorem siftRotate1_spec (him : i ≤ m) {j : Nat} (hjk : j ≤ k) :
    ∃ g, siftRotate1 i (pathPos1 pick f m i j) f = some g ∧ Rotated1 pick f m i j g ∧
      PermOn i (m + 1) f g := by
  -- after the swaps up to slot `t` of the path: the entry of `t` sits at `j`
  let P := pathPos1 pick f m i
  let I : Nat × (Nat → α) → Prop := fun s => ∃ t ≤ j, s.1 = P t ∧ s.2 (P j) = f (P t) ∧
    (∀ l, t ≤ l → l < j → s.2 (P l) = f (P (l + 1))) ∧
    (∀ q, (∀ l, t ≤ l → l ≤ j → q ≠ P l) → s.2 q = f q) ∧ PermOn i (m + 1) f s.2
  have hpos : ∀ l ≤ k, i ≤ P l ∧ P l < m + 1 :=
    fun l hl => ⟨le_pathPos1 hi hk l hl, Nat.lt_succ_of_le (pathPos1_le hk him l hl)⟩
  have hstep : ∀ s, I s → (s.1 != i) = true →
      I (s.1 / 2, swapAt s.2 (s.1 / 2) (P j)) ∧ s.1 / 2 < s.1 := by
    rintro ⟨b, g⟩ ⟨t, htj, hb, hstop, habove, hoff, hperm⟩ hne
    simp only [bne_iff_ne, ne_eq] at hne hb
    subst hb
    obtain ⟨t, rfl⟩ : ∃ t', t = t' + 1 := ⟨t - 1, by
      rcases t with _ | t
      · exact absurd (pathPos1_zero i) hne
      · rfl⟩
    have hhalf : P (t + 1) / 2 = P t := half_pathPos1_succ hk (show t < k by omega)
    have hlt := pathPos1_lt_pathPos1 hi hk (Nat.lt_succ_self t) (show t + 1 ≤ k by omega)
    simp only [hhalf]
    dsimp only at hstop habove hoff hperm ⊢
    refine ⟨⟨t, by omega, rfl, ?_, fun l htl hlj => ?_, fun q hq => ?_, ?_⟩, hlt⟩ <;> dsimp only
    · -- the slot `t` was untouched so far, and its entry now sits at `j`
      rw [swapAt_apply, Equiv.swap_apply_right]
      exact hoff _ fun l htl hlj h => by
        have := pathPos1_inj hi hk (by omega) (by omega) h
        omega
    · rcases Nat.lt_or_ge t l with h | h
      · have hne_l : P l ≠ P t :=
          fun e => by have := pathPos1_inj hi hk (by omega) (by omega) e; omega
        have hne_lj : P l ≠ P j :=
          fun e => by have := pathPos1_inj hi hk (by omega) hjk e; omega
        rw [swapAt_apply, Equiv.swap_apply_of_ne_of_ne hne_l hne_lj]
        exact habove l (by omega) hlj
      · rw [show l = t by omega, swapAt_apply, Equiv.swap_apply_left]
        exact hstop
    · have hq_t : q ≠ P t := hq t (Nat.le_refl t) (by omega)
      have hq_j : q ≠ P j := hq j (by omega) (Nat.le_refl j)
      rw [swapAt_apply, Equiv.swap_apply_of_ne_of_ne hq_t hq_j]
      exact hoff q fun l htl hlj => hq l (by omega) hlj
    · exact hperm.trans (PermOn.of_swapAt g (hpos t (by omega)) (hpos j hjk))
  have hI0 : I (P j, f) :=
    ⟨j, Nat.le_refl j, rfl, rfl, fun l hjl hlj => absurd hlj (by omega), fun q _ => rfl,
      PermOn.refl i (m + 1) f⟩
  obtain ⟨r, hr⟩ := whileLoop_isSome_of_measure I Prod.fst hstep hI0 (Nat.lt_succ_self _)
  obtain ⟨⟨t, htj, hb, hstop, habove, hoff, hperm⟩, hexit⟩ :=
    whileLoop_inv I (fun s hs hc => (hstep s hs hc).1) hI0 hr
  simp only [bne_eq_false_iff_eq] at hexit
  -- the walk ended at the start of the path
  have ht : t = 0 := pathPos1_inj hi hk (by omega) (Nat.zero_le k) (hb.symm.trans hexit)
  subst ht
  refine ⟨r.2, by unfold siftRotate1; rw [hr, Option.map_some], ⟨hstop, fun l hl => habove l
    (Nat.zero_le l) hl, fun q hq => hoff q fun l _ hl => hq l hl⟩, hperm⟩

end Loops

/-! ## The sift -/

section Sift

variable {pick ge : α → α → Bool} (hord : SortOrder pick ge)
include hord

/-- The sift puts the slot `i` in heap order over slots that were in order below it, by a
permutation of `[i, m]`. -/
theorem sift1_spec (f : Nat → α) {m i : Nat} (hi : 1 ≤ i) (him : i ≤ m)
    (hheap : HeapFrom1 ge f m (i + 1)) :
    ∃ g, sift1 pick ge f m i = some g ∧ HeapFrom1 ge g m i ∧ PermOn i (m + 1) f g := by
  obtain ⟨k, hdesc, hleaf, hk⟩ := siftDescend1_spec f m hi
  obtain ⟨j, hjk, hback, hbelow, hstopj⟩ := @siftBacktrack1_spec _ pick ge f m i k hi hk
  obtain ⟨g, hrot, hR, hperm⟩ := siftRotate1_spec f m hi hk him hjk
  refine ⟨g, by unfold sift1; rw [hdesc, Option.bind_some, hback, Option.bind_some, hrot], ?_,
    hperm⟩
  have hP : ∀ l < k, (pathPos1 pick f m i (l + 1) = pathPos1 pick f m i l * 2 ∨ pathPos1 pick f m i (l + 1) = pathPos1 pick f m i l * 2 + 1) ∧ pathPos1 pick f m i (l + 1) ≤ m :=
    fun l hl => pathPos1_succ_child hk hl
  -- off the path from `i` to `j`, the rotation changes nothing
  have hoff : ∀ q, (∀ l ≤ k, q ≠ pathPos1 pick f m i l) → g q = f q :=
    fun q hq => hR.off q fun l hl => hq l (by omega)
  have hoff_succ : ∀ l, j < l → l ≤ k → g (pathPos1 pick f m i l) = f (pathPos1 pick f m i l) :=
    fun l hjl hlk => hR.off _ fun l' hl' e => by
      have := pathPos1_inj hi hk hlk (by omega) e
      omega
  -- a child in the heap of a slot on the path is the next slot, or off the path
  have hchild : ∀ l, l ≤ k → ∀ c, (c = pathPos1 pick f m i l * 2 ∨ c = pathPos1 pick f m i l * 2 + 1) →
      c = pathPos1 pick f m i (l + 1) ∨ ∀ l' ≤ k, c ≠ pathPos1 pick f m i l' := by
    intro l hl c hc
    by_cases hon : ∃ l' ≤ k, c = pathPos1 pick f m i l'
    · obtain ⟨l', hl', rfl⟩ := hon
      exact Or.inl (by rw [eq_succ_of_child_pathPos1 hi hk hl hl' hc])
    · exact Or.inr fun l' hl' e => hon ⟨l', hl', e⟩
  have hfrom : ∀ l, 1 ≤ l → l ≤ k → i + 1 ≤ pathPos1 pick f m i l :=
    fun l h1 hl => pathPos1_lt_pathPos1 hi hk h1 hl
  -- a slot of the path above the leaf has its descent child in the heap
  have hnotleaf : ∀ l ≤ k, ∀ c, (c = pathPos1 pick f m i l * 2 ∨ c = pathPos1 pick f m i l * 2 + 1) → c ≤ m → l < k := by
    intro l hl c hc hcm
    rcases Nat.lt_or_ge l k with h | h
    · exact h
    · have : l = k := by omega
      subst this
      omega
  intro q hq c hc hcm
  by_cases hon : ∃ l ≤ k, q = pathPos1 pick f m i l
  · obtain ⟨l, hlk, rfl⟩ := hon
    have hlk' := hnotleaf l hlk c hc hcm
    rcases Nat.lt_trichotomy l j with hlj | rfl | hjl
    · -- above the stop: the slot now holds the next entry of the path
      rw [hR.above l hlj]
      rcases hchild l hlk c hc with rfl | hcoff
      · by_cases hnext : l + 1 < j
        · rw [hR.above (l + 1) hnext]
          exact hheap _ (hfrom (l + 1) (by omega) (by omega)) _ (hP (l + 1) (by omega)).1
            (hP (l + 1) (by omega)).2
        · rw [show l + 1 = j by omega, hR.stop]
          exact (hord.total _ _).resolve_left (by
            rcases hstopj with h0 | h
            · omega
            · rw [h]; decide)
      · rw [hoff c hcoff, pathPos1_succ]
        exact ge_descendNext1 hord (hk l hlk') hc hcm
    · -- the stop: the sifted entry, at least everything below it on the path
      rw [hR.stop]
      have hnext : ge (f i) (f (pathPos1 pick f m i (l + 1))) = true := hbelow (l + 1) (by omega) (by omega)
      rcases hchild l hlk c hc with rfl | hcoff
      · rw [hoff_succ (l + 1) (by omega) (by omega)]
        exact hnext
      · rw [hoff c hcoff]
        exact hord.trans _ _ _ hnext (by rw [pathPos1_succ]; exact ge_descendNext1 hord (hk l hlk') hc hcm)
    · -- below the stop nothing moved
      rw [hoff_succ l hjl hlk]
      have hgc : g c = f c := by
        rcases hchild l hlk c hc with rfl | hcoff
        · exact hoff_succ (l + 1) (by omega) (by omega)
        · exact hoff c hcoff
      rw [hgc]
      exact hheap _ (hfrom l (by omega) hlk) c hc hcm
  · -- off the path: the slot and its children are untouched
    have hqoff : ∀ l ≤ k, q ≠ pathPos1 pick f m i l := fun l hl e => hon ⟨l, hl, e⟩
    have hcoff : ∀ l' ≤ k, c ≠ pathPos1 pick f m i l' := by
      intro l' hl' e
      obtain ⟨l, rfl, hql⟩ := pathPos1_of_child hi hk hq hl' (by rw [← e]; exact hc)
      exact hqoff l (by omega) hql
    rw [hoff q hqoff, hoff c hcoff]
    have hqi : i + 1 ≤ q := by
      have := hqoff 0 (Nat.zero_le k)
      rw [show pathPos1 pick f m i 0 = i from rfl] at this
      omega
    exact hheap q hqi c hc hcm

/-- The root of a heap is at least every entry of it. -/
theorem ge_root1 {f : Nat → α} {m : Nat} (h : HeapFrom1 ge f m 1) :
    ∀ p, 1 ≤ p → p ≤ m → ge (f 1) (f p) = true := by
  intro p
  induction p using Nat.strongRecOn with
  | ind p ih =>
      intro hp hpm
      rcases Nat.lt_or_ge p 2 with hp2 | hp2
      · rw [show p = 1 by omega]
        exact hord.refl _
      · -- up one level to the parent, which is in order over `p`
        exact hord.trans _ _ _ (ih (p / 2) (by omega) (by omega) (by omega))
          (h (p / 2) (by omega) p (by omega) hpm)

end Sift

/-! ## The sort -/

section SortLoops

variable {pick ge : α → α → Bool} (hord : SortOrder pick ge)
include hord

/-- The build loop: sifting `i`, ..., `1` over a heap in order from `i + 1` leaves a heap. -/
theorem heapify1_spec {m : Nat} (f₀ : Nat → α) :
    ∀ i (f : Nat → α), i ≤ m → HeapFrom1 ge f m (i + 1) → PermOn 1 (m + 1) f₀ f →
      ∃ g, heapify1 pick ge m i f = some g ∧ HeapFrom1 ge g m 1 ∧ PermOn 1 (m + 1) f₀ g := by
  intro i
  induction i with
  | zero => exact fun f _ hheap hperm => ⟨f, rfl, hheap, hperm⟩
  | succ i ih =>
      intro f him hheap hperm
      -- sift slot `i + 1`, then the loop goes on from `i`
      obtain ⟨g, hsift, hgheap, hgperm⟩ := sift1_spec hord f (by omega) him hheap
      obtain ⟨r, hr, hrheap, hrperm⟩ :=
        ih g (by omega) hgheap (hperm.trans (hgperm.widen (by omega) (Nat.le_refl _)))
      exact ⟨r, by rw [heapify1, hsift, Option.bind_some, hr], hrheap, hrperm⟩

/-- What the extraction keeps, for the input `f₀` of `n` entries: the array is a permutation
of the input, `[1, i]` is a heap, `[i + 1, n]` is sorted, and no entry of the heap is above an
entry of the sorted part. -/
structure ExtractInv1 (ge : α → α → Bool) (f₀ : Nat → α) (n i : Nat) (f : Nat → α) : Prop where
  perm : PermOn 1 (n + 1) f₀ f
  le : i ≤ n
  heap : HeapFrom1 ge f i 1
  sorted : SortedOn ge f (i + 1) (n + 1)
  cross : ∀ p q, 1 ≤ p → p ≤ i → i < q → q ≤ n → ge (f q) (f p) = true

/-- One round of the extraction: the root goes to the end of the heap, and the sift of the
new root restores the heap in front of it. -/
theorem extractInv1_step {f₀ f : Nat → α} {n i : Nat} (hinv : ExtractInv1 ge f₀ n (i + 2) f) :
    ∃ g, sift1 pick ge (swapAt f 1 (i + 2)) (i + 1) 1 = some g ∧ ExtractInv1 ge f₀ n (i + 1) g := by
  have hroot := ge_root1 hord hinv.heap
  have hn := hinv.le
  -- after the swap the slots from `2` on are still in order within `[1, i + 1]`
  have hheap2 : HeapFrom1 ge (swapAt f 1 (i + 2)) (i + 1) 2 := by
    intro q hq c hc hcm
    rw [swapAt_apply, swapAt_apply, Equiv.swap_apply_of_ne_of_ne (by omega) (by omega),
      Equiv.swap_apply_of_ne_of_ne (by omega) (by omega)]
    exact hinv.heap q (by omega) c hc (by omega)
  obtain ⟨g, hsift, hgheap, hgperm⟩ := sift1_spec hord _ (Nat.le_refl 1) (by omega) hheap2
  -- the sift moved nothing from `i + 2` on
  have htail : ∀ q, i + 2 ≤ q → g q = if q = i + 2 then f 1 else f q := by
    intro q hq
    obtain ⟨σ, hσ, rfl⟩ := hgperm
    rw [Function.comp_apply, hσ q (Or.inr hq), swapAt_apply]
    split_ifs with h
    · rw [h, Equiv.swap_apply_right]
    · rw [Equiv.swap_apply_of_ne_of_ne (by omega) h]
  refine ⟨g, hsift, ⟨?_, by omega, hgheap, fun p q hp hpq hq => ?_, fun p q hp hpi hiq hq => ?_⟩⟩
  · exact hinv.perm.trans ((PermOn.of_swapAt f ⟨Nat.le_refl 1, by omega⟩ ⟨by omega, by omega⟩).trans
      (hgperm.widen (Nat.le_refl 1) (by omega)))
  · rw [htail p (by omega), htail q (by omega), if_neg (by omega)]
    split_ifs with h
    · exact hinv.cross 1 q (Nat.le_refl 1) (by omega) (by omega) (by omega)
    · exact hinv.sorted p q (by omega) hpq hq
  · -- an entry of the new heap came from the old heap
    obtain ⟨k', hk', hgp⟩ := hgperm.apply p
    have hk'lt : 1 ≤ k' ∧ k' ≤ i + 1 := by omega
    have hfrom : ∃ r, 1 ≤ r ∧ r ≤ i + 2 ∧ swapAt f 1 (i + 2) k' = f r := by
      by_cases h1 : k' = 1
      · exact ⟨i + 2, by omega, Nat.le_refl _, by rw [h1, swapAt_apply, Equiv.swap_apply_left]⟩
      · exact ⟨k', by omega, by omega, by
          rw [swapAt_apply, Equiv.swap_apply_of_ne_of_ne h1 (by omega)]⟩
    obtain ⟨r, hr1, hri, hfr⟩ := hfrom
    rw [hgp, hfr, htail q (by omega)]
    split_ifs with h
    · exact hroot r hr1 hri
    · exact hinv.cross r q hr1 hri (by omega) hq

/-- The run lemma of the extraction: from a state of the invariant, the loop stops with the
input sorted. -/
theorem extract1_spec {f₀ : Nat → α} {n : Nat} :
    ∀ i (f : Nat → α), ExtractInv1 ge f₀ n i f →
      ∃ g, extract1 pick ge i f = some g ∧ SortedOn ge g 1 (n + 1) ∧ PermOn 1 (n + 1) f₀ g := by
  intro i
  induction i using Nat.strongRecOn with
  | ind i ih =>
      intro f hinv
      rcases i with _ | _ | i
      · exact ⟨f, rfl, fun p q hp hpq hq => hinv.sorted p q (by omega) hpq hq, hinv.perm⟩
      · -- one entry left in the heap: it is below the sorted tail
        refine ⟨f, rfl, fun p q hp hpq hq => ?_, hinv.perm⟩
        by_cases hp1 : p = 1
        · exact hinv.cross p q hp (by omega) (by omega) (by omega)
        · exact hinv.sorted p q (by omega) hpq hq
      · obtain ⟨g, hsift, hinv'⟩ := extractInv1_step hord hinv
        obtain ⟨r, hr, hsorted, hperm⟩ := ih (i + 1) (by omega) g hinv'
        exact ⟨r, by rw [extract1, hsift, Option.bind_some, hr], hsorted, hperm⟩

/-- The sort stops, and leaves the slots `[1, n]` sorted by `ge` and permuted. -/
theorem heapSort1_spec (f : Nat → α) (n : Nat) :
    ∃ g, heapSort1 pick ge f n = some g ∧ SortedOn ge g 1 (n + 1) ∧ PermOn 1 (n + 1) f g := by
  -- the slots past `n / 2` have no children in the heap
  have hleaves : HeapFrom1 ge f n (n / 2 + 1) := fun q hq c hc hcn => by omega
  obtain ⟨h, hheapify, hheap, hperm⟩ :=
    heapify1_spec hord f (n / 2) f (by omega) hleaves (PermOn.refl 1 (n + 1) f)
  obtain ⟨g, hg, hsorted, hgperm⟩ := extract1_spec hord n h
    ⟨hperm, Nat.le_refl n, hheap, fun p q _ hpq hq => by omega, fun p q _ _ hnq hq => by omega⟩
  exact ⟨g, by rw [heapSort1, hheapify, Option.bind_some, hg], hsorted, hgperm⟩

end SortLoops

/-! ## Arrays read through a permutation of their indices -/

/-- Swapping the slots `σ l` and `σ r` swaps `l` and `r` in the array read through `σ`. -/
theorem swapAt_comp_perm (f : Nat → α) (σ : Equiv.Perm Nat) (l r : Nat) :
    swapAt f (σ l) (σ r) ∘ σ = swapAt (f ∘ σ) l r := by
  funext x
  simp only [Function.comp_apply, swapAt_apply, Equiv.swap_apply_def, σ.injective.eq_iff]
  split_ifs <;> rfl

/-- A map that is a bijection of `[lo, hi)` is a permutation there that fixes the rest. -/
theorem exists_perm_eqOn_of_bijOn {ι : Nat → Nat} {lo hi : Nat}
    (h : Set.BijOn ι (Set.Ico lo hi) (Set.Ico lo hi)) :
    ∃ σ : Equiv.Perm Nat, (∀ k, lo ≤ k → k < hi → σ k = ι k) ∧
      ∀ k, k < lo ∨ hi ≤ k → σ k = k := by
  classical
  -- the bijection as a permutation of the subtype, extended by the identity
  refine ⟨Equiv.Perm.ofSubtype (Set.BijOn.equiv ι h), fun k hlo hhi => ?_, fun k hk => ?_⟩
  · rw [Equiv.Perm.ofSubtype_apply_of_mem _ (show k ∈ Set.Ico lo hi from ⟨hlo, hhi⟩)]
    rfl
  · exact Equiv.Perm.ofSubtype_apply_of_not_mem _ (by simp only [Set.mem_Ico]; omega)

/-- A permutation of `[lo, hi)` of the array read through `σ`, read back, is a permutation of
`[lo, hi)` of the array, when `σ` fixes the slots outside. -/
theorem PermOn.of_comp_perm {lo hi : Nat} {f g : Nat → α} {σ : Equiv.Perm Nat}
    (hσ : ∀ k, k < lo ∨ hi ≤ k → σ k = k) (h : PermOn lo hi (f ∘ σ) g) :
    PermOn lo hi f (g ∘ σ.symm) := by
  obtain ⟨τ, hτ, rfl⟩ := h
  have hσsymm : ∀ k, k < lo ∨ hi ≤ k → σ.symm k = k := fun k hk => by
    rw [Equiv.symm_apply_eq, hσ k hk]
  -- conjugate `τ` by `σ`; outside the range each of them is the identity
  refine ⟨σ.symm.trans (τ.trans σ), fun k hk => ?_, rfl⟩
  simp only [Equiv.trans_apply, hσsymm k hk, hτ k hk, hσ k hk]

/-- The entries `[lo, hi)` of a permutation of `[lo, hi)`, read as a list, are a permutation of
the original's. -/
theorem PermOn.perm_map_range' {lo hi : Nat} {f g : Nat → α} (h : PermOn lo hi f g)
    (hlh : lo ≤ hi) :
    ((List.range' lo (hi - lo)).map g).Perm ((List.range' lo (hi - lo)).map f) := by
  have hall := (h.widen (Nat.zero_le lo) (Nat.le_refl hi)).perm_map_range
  -- below `lo` the two arrays agree, so the permutation is of the rest
  have hlow : (List.range lo).map g = (List.range lo).map f := by
    obtain ⟨σ, hσ, rfl⟩ := h
    refine List.map_congr_left fun k hk => ?_
    rw [Function.comp_apply, hσ k (Or.inl (List.mem_range.mp hk))]
  have hsplit : List.range hi = List.range lo ++ List.range' lo (hi - lo) := by
    rw [List.range_eq_range', List.range_eq_range']
    conv_lhs => rw [← Nat.add_sub_cancel' hlh, ← List.range'_append_1, Nat.zero_add]
  rw [hsplit, List.map_append, List.map_append, hlow] at hall
  exact (List.perm_append_left_iff _).mp hall

end Bcachefs.Sorting
