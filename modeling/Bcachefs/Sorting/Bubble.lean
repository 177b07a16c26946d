import Bcachefs.Sorting.Heap

/-!
# `Bcachefs.Sorting.Bubble`: the `bubble_sort` macro

`bubble_sort(base, nr, cmp)` of `util.h` passes over a shrinking prefix `[0, last]` of the
array, each pass swapping the adjacent entries `i, i + 1` with `cmp(base[i], base[i + 1]) > 0`,
until a pass swaps nothing or the prefix is down to one entry. As in `Sorting.Heap` the array
is a function on indices.

For a `cmp` whose "not above" relation is transitive and for which "above" is asymmetric
(`CmpOrder`), `bubbleSort_spec` shows the sort leaves the first `nr` entries sorted and
permuted. The proof is the textbook one: a pass moves a largest entry of the prefix to the
prefix's end and leaves the rest of the array alone (`bubblePass_max`, `bubblePass_frame`); a
pass that swaps nothing left the prefix sorted pair by pair (`bubblePass_no_swap`); and the
outer loop keeps the entries past the prefix sorted and no smaller than any in it
(`BubbleInv`).
-/

set_option autoImplicit false

namespace Bcachefs.Sorting

variable {α : Type*} (cmp : α → α → Int)

/-- One compare-and-swap step of the inner loop at `i`; the flag records a swap. -/
def bubbleStep (s : (Nat → α) × Bool) (i : Nat) : (Nat → α) × Bool :=
  if cmp (s.1 i) (s.1 (i + 1)) > 0 then (swapAt s.1 i (i + 1), true) else s

/-- The inner loop `for (_i = 0; _i < _last; _i++)`, after `_swapped = false`. -/
def bubblePass (f : Nat → α) (last : Nat) : (Nat → α) × Bool :=
  (List.range last).foldl (bubbleStep cmp) (f, false)

/-- The outer loop `for (_last = nr - 1; _last > 0 && _swapped; --_last)`. -/
def bubbleLoop : Nat → (Nat → α) → (Nat → α)
  | 0, f => f
  | last + 1, f =>
      let s := bubblePass cmp f (last + 1)
      if s.2 then bubbleLoop last s.1 else s.1

/-- `bubble_sort(base, nr, cmp)`. -/
def bubbleSort (f : Nat → α) (nr : Nat) : Nat → α :=
  bubbleLoop cmp (nr - 1) f

attribute [grind] bubbleStep

/-- The laws the sort needs of `cmp`: "above" is asymmetric and "not above" transitive. -/
structure CmpOrder : Prop where
  not_gt_of_gt : ∀ x y, cmp x y > 0 → cmp y x ≤ 0
  le_trans : ∀ x y z, cmp x y ≤ 0 → cmp y z ≤ 0 → cmp x z ≤ 0

/-- The first `nr` entries are in `cmp` order. -/
def SortedBy (f : Nat → α) (nr : Nat) : Prop :=
  ∀ i j, i < j → j < nr → cmp (f i) (f j) ≤ 0

/-- What the outer loop keeps at `last`: the array is a permutation of the input, and each
entry past `last` is no smaller than any entry before it. -/
structure BubbleInv (f₀ : Nat → α) (nr last : Nat) (f : Nat → α) : Prop where
  perm : PermOn 0 nr f₀ f
  sorted_past : ∀ i j, i < j → j < nr → last < j → cmp (f i) (f j) ≤ 0

/-! ### One pass -/

/-- A pass of `m + 1` steps is the pass of `m` followed by step `m`. -/
theorem bubblePass_succ (f : Nat → α) (m : Nat) :
    bubblePass cmp f (m + 1) = bubbleStep cmp (bubblePass cmp f m) m := by
  rw [bubblePass, List.range_succ, List.foldl_append, List.foldl_cons, List.foldl_nil]
  rfl

/-- A pass of `m` steps touches only the entries up to `m`. -/
theorem bubblePass_frame (f : Nat → α) {m k : Nat} (hk : m < k) :
    (bubblePass cmp f m).1 k = f k := by
  induction m with
  | zero => rfl
  | succ m ih =>
      rw [bubblePass_succ, bubbleStep]
      split
      · dsimp only
        rw [swapAt_apply, Equiv.swap_apply_of_ne_of_ne (by omega) (by omega)]
        exact ih (by omega)
      · exact ih (by omega)

/-- A pass of `m` steps permutes the entries `[0, m]`. -/
theorem bubblePass_perm (f : Nat → α) (m : Nat) : PermOn 0 (m + 1) f (bubblePass cmp f m).1 := by
  induction m with
  | zero => exact PermOn.refl 0 1 f
  | succ m ih =>
      rw [bubblePass_succ, bubbleStep]
      have ih' := ih.widen (Nat.le_refl 0) (Nat.le_succ (m + 1))
      split
      · exact ih'.trans (PermOn.of_swapAt _ ⟨Nat.zero_le m, by omega⟩ ⟨Nat.zero_le _, by omega⟩)
      · exact ih'

variable {cmp}

/-- After a pass of `m` steps the entry at `m` is a largest of the entries up to it. -/
theorem bubblePass_max (hc : CmpOrder cmp) (f : Nat → α) {m t : Nat} (ht : t < m) :
    cmp ((bubblePass cmp f m).1 t) ((bubblePass cmp f m).1 m) ≤ 0 := by
  induction m generalizing t with
  | zero => omega
  | succ m ih =>
      rw [bubblePass_succ, bubbleStep]
      set g := (bubblePass cmp f m).1
      split
      · -- the largest so far moves up to `m + 1`, past the entry it was compared with
        rename_i hgt
        dsimp only
        rw [swapAt_apply, swapAt_apply, Equiv.swap_apply_right]
        by_cases htm : t = m
        · subst htm
          rw [Equiv.swap_apply_left]
          exact hc.not_gt_of_gt _ _ hgt
        · rw [Equiv.swap_apply_of_ne_of_ne htm (by omega)]
          exact ih (by omega)
      · -- the entry at `m + 1` is at least the largest so far
        rename_i hle
        have hle' : cmp (g m) (g (m + 1)) ≤ 0 := Int.not_lt.mp hle
        by_cases htm : t = m
        · subst htm
          exact hle'
        · exact hc.le_trans _ _ _ (ih (by omega)) hle'

/-- A pass that swaps nothing left the array as it was, sorted pair by pair up to `m`. -/
theorem bubblePass_no_swap (f : Nat → α) {m : Nat} (h : (bubblePass cmp f m).2 = false) :
    (bubblePass cmp f m).1 = f ∧ ∀ i, i < m → cmp (f i) (f (i + 1)) ≤ 0 := by
  induction m with
  | zero => exact ⟨rfl, fun i hi => absurd hi (Nat.not_lt_zero i)⟩
  | succ m ih =>
      rw [bubblePass_succ, bubbleStep] at h ⊢
      split at h
      · cases h
      · rename_i hle
        obtain ⟨hf, hadj⟩ := ih h
        rw [if_neg hle]
        refine ⟨hf, fun i hi => ?_⟩
        by_cases him : i = m
        · subst him
          rw [hf] at hle
          exact Int.not_lt.mp hle
        · exact hadj i (by omega)

/-- Pairwise order of neighbours gives order on the whole prefix. -/
theorem sortedBy_of_adjacent (hc : CmpOrder cmp) {f : Nat → α} {e : Nat}
    (hadj : ∀ i, i + 1 < e → cmp (f i) (f (i + 1)) ≤ 0) : SortedBy cmp f e := by
  intro i j hij hj
  induction j with
  | zero => omega
  | succ j ih =>
      by_cases hji : i = j
      · subst hji
        exact hadj i hj
      · exact hc.le_trans _ _ _ (ih (by omega) (by omega)) (hadj j hj)

/-! ### The outer loop -/

/-- A pass over `[0, last + 1]` brings the invariant down to `last`. -/
theorem bubbleInv_pass (hc : CmpOrder cmp) {f₀ f : Nat → α} {nr last : Nat}
    (hI : BubbleInv cmp f₀ nr (last + 1) f) (hlast : last + 1 < nr) :
    BubbleInv cmp f₀ nr last (bubblePass cmp f (last + 1)).1 := by
  have hperm := bubblePass_perm cmp f (last + 1)
  refine ⟨hI.perm.trans (hperm.widen (Nat.le_refl 0) (by omega)), fun i j hij hj hlj => ?_⟩
  by_cases hjl : j = last + 1
  · subst hjl
    exact bubblePass_max hc f hij
  · -- `j` is past the pass; the entry at `i` came from an index before `j`
    rw [bubblePass_frame cmp f (show last + 1 < j by omega)]
    obtain ⟨k, hk, hki⟩ := hperm.apply i
    rw [hki]
    exact hI.sorted_past k j (by omega) hj (by omega)

/-- The outer loop stops with the array sorted and permuted. -/
theorem bubbleLoop_spec (hc : CmpOrder cmp) {f₀ : Nat → α} {nr : Nat} :
    ∀ (last : Nat) (f : Nat → α), last < nr → BubbleInv cmp f₀ nr last f →
      SortedBy cmp (bubbleLoop cmp last f) nr ∧ PermOn 0 nr f₀ (bubbleLoop cmp last f) := by
  intro last
  induction last with
  | zero =>
      intro f _ hI
      exact ⟨fun i j hij hj => hI.sorted_past i j hij hj (by omega), hI.perm⟩
  | succ last ih =>
      intro f hlast hI
      rw [bubbleLoop]
      cases hs : (bubblePass cmp f (last + 1)).2 with
      | true =>
          rw [if_pos rfl]
          exact ih _ (by omega) (bubbleInv_pass hc hI hlast)
      | false =>
          -- no swap: the prefix was already sorted pair by pair
          rw [if_neg Bool.false_ne_true]
          obtain ⟨hf, hadj⟩ := bubblePass_no_swap f hs
          rw [hf]
          refine ⟨fun i j hij hj => ?_, hI.perm⟩
          by_cases hjl : j ≤ last + 1
          · exact sortedBy_of_adjacent (e := last + 2) hc (fun k hk => hadj k (by omega)) i j hij
              (by omega)
          · exact hI.sorted_past i j hij hj (by omega)

/-- `bubble_sort` leaves the first `nr` entries sorted by `cmp` and permuted. -/
theorem bubbleSort_spec (hc : CmpOrder cmp) (f : Nat → α) (nr : Nat) :
    SortedBy cmp (bubbleSort cmp f nr) nr ∧ PermOn 0 nr f (bubbleSort cmp f nr) := by
  rw [bubbleSort]
  by_cases hnr : nr = 0
  · subst hnr
    exact ⟨fun i j _ hj => absurd hj (Nat.not_lt_zero j), PermOn.refl 0 0 f⟩
  · exact bubbleLoop_spec hc (nr - 1) f (by omega)
      ⟨PermOn.refl 0 nr f, fun i j _ hj hlj => absurd hlj (by omega)⟩

end Bcachefs.Sorting
