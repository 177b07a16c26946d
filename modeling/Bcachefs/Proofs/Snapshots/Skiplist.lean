import Bcachefs.Snapshots.Skiplist
import Bcachefs.Proofs.Snapshots.IsAncestor
import Bcachefs.Data.VectorGet

/-!
# `Bcachefs.Proofs.Snapshots.Skiplist`: creating and splicing keep the skiplists valid

The skiplist invariant is the one `bch2_snapshot_validate` and the fast ancestor test rely
on: each node with a parent has three nonzero ancestors of its parent in its skiplist, in
ascending order, and each root has an all-zero skiplist (`SkipsAncestors`, `SkipsSorted`,
`RootSkipsZero`). Both writers draw skiplist entries at random from a node's ancestors,
bounded by a depth field, so they also need the depths to count the ancestors
(`DepthsConsistent`); `check_snapshots` re-derives them before interior nodes are deleted.

* `bch2_snapshot_skiplist_get_spec`: a draw within the depth is a nonzero ancestor.
* `create_snapids_spec`: creating children keeps the whole table invariant
  (`SnapshotTableInv`), bitmaps included, one `bch2_mark_snapshot` at a time.
* `bch2_fix_child_of_deleted_snapshot_spec`: a surviving node gets the number of its
  surviving ancestors as depth, and a skiplist of surviving ancestors, or of zeros when
  none survives.

Without consistent depths a draw can walk past the root to `0` (`create_snapid_zero_skip`).
-/

set_option autoImplicit false
set_option linter.style.nameCheck false

namespace Bcachefs.Proofs.Snapshots

open Bcachefs.Loop Bcachefs.Forest Bcachefs.Sorting Bcachefs.Data

variable {t : snapshot_table}

/-! ### Sorting a skiplist -/

/-- `cmp_le32` is positive exactly on a greater left argument. -/
theorem cmp_le32_pos_iff (l r : UInt32) : cmp_le32 l r > 0 ↔ r < l := by
  simp only [cmp_le32, cmp_int, UInt32.lt_iff_toNat_lt]
  -- the three results of `cmp_int`, read on the values
  split <;> split <;> omega

/-- `cmp_le32` is at most zero exactly on a left argument at most the right. -/
theorem cmp_le32_nonpos_iff (l r : UInt32) : cmp_le32 l r ≤ 0 ↔ l ≤ r := by
  simp only [cmp_le32, cmp_int, UInt32.lt_iff_toNat_lt, UInt32.le_iff_toNat_le]
  split <;> split <;> omega

/-- `cmp_le32` is a comparison the bubble sort sorts by. -/
theorem cmpOrder_cmp_le32 : CmpOrder cmp_le32 where
  not_gt_of_gt x y h := by
    rw [cmp_le32_pos_iff] at h
    exact (cmp_le32_nonpos_iff y x).mpr (UInt32.le_of_lt h)
  le_trans x y z hxy hyz := by
    rw [cmp_le32_nonpos_iff] at hxy hyz ⊢
    exact UInt32.le_trans hxy hyz

/-- The sorted skiplist is in ascending order, and each entry is one of the input's. -/
theorem bubble_sort_skip_spec (v : Vector UInt32 3) :
    ((bubble_sort_skip v).get 0 ≤ (bubble_sort_skip v).get 1 ∧
      (bubble_sort_skip v).get 1 ≤ (bubble_sort_skip v).get 2) ∧
    ∀ i : Fin 3, ∃ j : Fin 3, (bubble_sort_skip v).get i = v.get j := by
  obtain ⟨hsorted, hperm⟩ :=
    bubbleSort_spec cmpOrder_cmp_le32 (fun i => if h : i < 3 then v[i] else 0) 3
  refine ⟨⟨?_, ?_⟩, fun i => ?_⟩
  · exact (cmp_le32_nonpos_iff _ _).mp (hsorted 0 1 (by decide) (by decide))
  · exact (cmp_le32_nonpos_iff _ _).mp (hsorted 1 2 (by decide) (by decide))
  · -- each sorted entry is an input entry, at an index below 3
    obtain ⟨k, hk, hki⟩ := hperm.apply i
    have hk3 : k < 3 := by omega
    refine ⟨⟨k, hk3⟩, ?_⟩
    simp only [bubble_sort_skip, get_ofFn]
    rw [hki, dif_pos hk3]
    rfl

/-! ### Chains of parents -/

/-- The table has no entry for `0`, which is then its own parent. -/
def ZeroAbsent (t : snapshot_table) : Prop := __snapshot_t t 0 = none

/-- Each entry's depth is the number of its ancestors other than itself: its `depth`th
parent is a root. -/
def DepthsConsistent (t : snapshot_table) : Prop :=
  ∀ id s, __snapshot_t t id = some s →
    (__bch2_snapshot_parent t)^[s.depth.toNat] id ≠ 0 ∧
      (__bch2_snapshot_parent t)^[s.depth.toNat + 1] id = 0

/-- Ancestors share the tree of the node, what `check_snapshot_tree` keeps. -/
def TreesConsistent (t : snapshot_table) : Prop :=
  ∀ id a s sa, __snapshot_t t id = some s → __snapshot_t t a = some sa →
    SnapshotAncestor t id a → s.tree = sa.tree

/-- The invariants of the table that creation keeps: those of the fast ancestor test, sorted
skiplists, consistent depths and no entry for `0`. -/
structure SnapshotTableInv (t : snapshot_table) : Prop where
  valid : SnapshotTableValid t
  skips_sorted : SkipsSorted t
  depths : DepthsConsistent t
  zero_absent : ZeroAbsent t

/-- With no entry for `0`, the parent of `0` is `0`. -/
theorem parent_zero (hz : ZeroAbsent t) : __bch2_snapshot_parent t 0 = 0 :=
  parent_of_none hz

/-- With no entry for `0`, an id with an entry is not `0`. -/
theorem ne_zero_of_entry (hz : ZeroAbsent t) {id : UInt32} {s : snapshot_t}
    (h : __snapshot_t t id = some s) : id ≠ 0 := by
  rintro rfl
  rw [hz] at h
  cases h

/-- The ancestors of an entry other than `0` are its first `depth` parents and itself. -/
theorem snapshotAncestor_iff_iterate_le (hz : ZeroAbsent t) (hd : DepthsConsistent t)
    {id a : UInt32} {s : snapshot_t} (h : __snapshot_t t id = some s) (ha : a ≠ 0) :
    SnapshotAncestor t id a ↔ ∃ n ≤ s.depth.toNat, (__bch2_snapshot_parent t)^[n] id = a := by
  rw [SnapshotAncestor, isAncestor_iff_iterate (parent_zero hz)]
  -- past the depth the walk is at `0`, which is not `a`
  constructor
  · rintro ⟨n, rfl⟩
    refine ⟨n, Nat.not_lt.mp fun hn => ha ?_, rfl⟩
    exact iterate_eq_null_of_le (parent_zero hz) hn (hd id s h).2
  · rintro ⟨n, -, rfl⟩
    exact ⟨n, rfl⟩

/-- The parents of an entry up to its depth are not `0`. -/
theorem iterate_ne_zero_of_le (hz : ZeroAbsent t) (hd : DepthsConsistent t) {id : UInt32}
    {s : snapshot_t} (h : __snapshot_t t id = some s) {n : Nat} (hn : n ≤ s.depth.toNat) :
    (__bch2_snapshot_parent t)^[n] id ≠ 0 := fun h0 =>
  (hd id s h).1 (iterate_eq_null_of_le (parent_zero hz) hn h0)

/-- Distinct steps up a chain reach distinct nodes, until `0`. -/
theorem iterate_injective (hz : ZeroAbsent t) (hp : ParentsAbove t) {id : UInt32} {n m : Nat}
    (hm : (__bch2_snapshot_parent t)^[m] id ≠ 0)
    (heq : (__bch2_snapshot_parent t)^[n] id = (__bch2_snapshot_parent t)^[m] id) : n = m := by
  have hn : (__bch2_snapshot_parent t)^[n] id ≠ 0 := heq ▸ hm
  -- a longer walk ranks strictly higher, so two walks that meet took the same number of steps
  rcases Nat.lt_trichotomy n m with hlt | heq' | hgt
  · have := rank_iterate_lt (rankIncreasing hp) (parent_zero hz) hlt hm
    rw [heq] at this
    exact absurd this (Nat.lt_irrefl _)
  · exact heq'
  · have := rank_iterate_lt (rankIncreasing hp) (parent_zero hz) hgt hn
    rw [heq] at this
    exact absurd this (Nat.lt_irrefl _)

/-! ### The draws of `bch2_snapshot_skiplist_get` -/

/-- A draw of `get_random_u32_below(ceil)` is at most `ceil`: below it, or `0` for a ceiling of `0`.
-/
theorem toNat_le_of_random_result {ceil r : UInt32} (hr : get_random_u32_below_result ceil r) :
    r.toNat ≤ ceil.toNat := by
  unfold get_random_u32_below_result at hr
  -- a ceiling of `0` draws `0`; any other draws below it
  split at hr
  · rw [hr, UInt32.toNat_zero]
    exact Nat.zero_le _
  · exact Nat.le_of_lt (UInt32.lt_iff_toNat_lt.mp hr)

/-- A draw within the depth of `id` is a nonzero ancestor of `id`. -/
theorem bch2_snapshot_skiplist_get_spec (hz : ZeroAbsent t) (hd : DepthsConsistent t)
    {id r : UInt32} {s : snapshot_t} (h : __snapshot_t t id = some s)
    (hr : get_random_u32_below_result s.depth r) :
    bch2_snapshot_skiplist_get t id r ≠ 0 ∧
      SnapshotAncestor t id (bch2_snapshot_skiplist_get t id r) := by
  have hid := ne_zero_of_entry hz h
  rw [bch2_snapshot_skiplist_get, if_neg hid, h, Option.elim_some]
  -- a node with a parent draws its `r`th parent, within its depth
  by_cases hroot : s.parent ≠ 0
  · rw [if_pos hroot, bch2_snapshot_nth_parent]
    refine ⟨iterate_ne_zero_of_le hz hd h (toNat_le_of_random_result hr), ?_⟩
    exact (isAncestor_iff_iterate (parent_zero hz)).mpr ⟨_, rfl⟩
  · -- a root draws itself
    rw [if_neg hroot]
    exact ⟨hid, isAncestor_refl id⟩

/-- The random draws of `create_snapids` for a child of `parent` are all within its depth. -/
def CreateDraws (t : snapshot_table) (parent : UInt32) (r : Fin 3 → UInt32) : Prop :=
  parent = 0 ∨ ∃ s, __snapshot_t t parent = some s ∧ ∀ j, get_random_u32_below_result s.depth (r j)

/-- The skiplist of a new child: zeros under no parent, else sorted nonzero ancestors of the
parent. -/
theorem create_snapid_entry_skip (hz : ZeroAbsent t) (hd : DepthsConsistent t)
    {parent tree : UInt32} {r : Fin 3 → UInt32} (hr : CreateDraws t parent r) :
    let e := create_snapid_entry t parent tree r
    (parent = 0 → ∀ i : Fin 3, e.skip.get i = 0) ∧
      (parent ≠ 0 → ∀ i : Fin 3, e.skip.get i ≠ 0 ∧ SnapshotAncestor t parent (e.skip.get i)) ∧
      (e.skip.get 0 ≤ e.skip.get 1 ∧ e.skip.get 1 ≤ e.skip.get 2) := by
  intro e
  obtain ⟨hsorted, hfrom⟩ :=
    bubble_sort_skip_spec (Vector.ofFn fun j => bch2_snapshot_skiplist_get t parent (r j))
  have he : e.skip = bubble_sort_skip
      (Vector.ofFn fun j => bch2_snapshot_skiplist_get t parent (r j)) := rfl
  -- each entry is one of the three draws
  have hdraw : ∀ i : Fin 3, ∃ j, e.skip.get i = bch2_snapshot_skiplist_get t parent (r j) := by
    intro i
    obtain ⟨j, hj⟩ := hfrom i
    refine ⟨j, ?_⟩
    rw [he, hj, get_ofFn]
  refine ⟨fun h0 i => ?_, fun hne i => ?_, hsorted⟩
  · obtain ⟨j, hj⟩ := hdraw i
    rw [hj, bch2_snapshot_skiplist_get, if_pos h0]
  · obtain ⟨j, hj⟩ := hdraw i
    obtain ⟨s, hs, hrs⟩ := hr.resolve_left hne
    rw [hj]
    exact bch2_snapshot_skiplist_get_spec hz hd hs (hrs j)

/-! ### Writing an entry -/

/-- Distinct ids have distinct slots `U32_MAX - id`. -/
theorem snapshot_idx_inj {x y : UInt32} (h : (U32_MAX - x).toNat = (U32_MAX - y).toNat) :
    x = y := by
  rw [toNat_U32_MAX_sub, toNat_U32_MAX_sub] at h
  have hx := x.toNat_lt
  have hy := y.toNat_lt
  exact UInt32.toNat_inj.mp (by omega)

/-- The entry written at `id` is read back. -/
theorem snapshot_t_set_self (t : snapshot_table) (id : UInt32) (v : snapshot_t) :
    __snapshot_t (bch2_snapshot_t_set t id v) id = some v := by
  rw [__snapshot_t, bch2_snapshot_t_set]
  dsimp only
  rw [if_pos (by omega), if_pos rfl]

/-- Writing `id` keeps every other entry the table holds. -/
theorem snapshot_t_set_of_ne {id x : UInt32} {v s : snapshot_t} (hx : x ≠ id)
    (h : __snapshot_t t x = some s) : __snapshot_t (bch2_snapshot_t_set t id v) x = some s := by
  rw [__snapshot_t] at h ⊢
  split at h
  · rename_i hlt
    cases h
    rw [bch2_snapshot_t_set]
    dsimp only
    -- the table grows to hold `id`, and the slot of `x` is another one
    rw [if_pos (by omega), if_neg (fun h => hx (snapshot_idx_inj h)), if_pos hlt]
  · cases h

/-- Every other entry after writing `id` is one the table held, or a zeroed one it grew. -/
theorem snapshot_t_set_cases {id x : UInt32} {v s : snapshot_t} (hx : x ≠ id)
    (h : __snapshot_t (bch2_snapshot_t_set t id v) x = some s) :
    __snapshot_t t x = some s ∨ __snapshot_t t x = none ∧ s = snapshot_t_zero := by
  rw [__snapshot_t, bch2_snapshot_t_set] at h
  dsimp only at h
  rw [if_neg (fun h => hx (snapshot_idx_inj h))] at h
  split at h
  · cases h
    rw [__snapshot_t]
    -- a slot the table held keeps its entry; a slot the growth added is zeroed
    by_cases hlt : (U32_MAX - x).toNat < t.nr
    · rw [if_pos hlt, if_pos hlt]
      exact Or.inl rfl
    · rw [if_neg hlt, if_neg hlt]
      exact Or.inr ⟨rfl, rfl⟩
  · cases h

/-- Writing `id` changes the parent of `id` only. -/
theorem parent_set (t : snapshot_table) (id : UInt32) (v : snapshot_t) (x : UInt32) :
    __bch2_snapshot_parent (bch2_snapshot_t_set t id v) x =
      if x = id then v.parent else __bch2_snapshot_parent t x := by
  by_cases hx : x = id
  · subst hx
    rw [if_pos rfl, parent_of_some (snapshot_t_set_self t x v)]
  · rw [if_neg hx]
    cases h : __snapshot_t (bch2_snapshot_t_set t id v) x with
    | none =>
        rw [parent_of_none h]
        cases h' : __snapshot_t t x with
        | none => rw [parent_of_none h']
        | some s => rw [snapshot_t_set_of_ne hx h'] at h; cases h
    | some s =>
        rw [parent_of_some h]
        -- the entry of `x` after the write is its old one or a zeroed one, whose parent is `0`
        rcases snapshot_t_set_cases hx h with h' | ⟨h', rfl⟩
        · rw [parent_of_some h']
        · rw [parent_of_none h']
          rfl

/-- Writing a nonzero id adds no entry for `0`. -/
theorem zeroAbsent_set (hz : ZeroAbsent t) {id : UInt32} (hid : id ≠ 0) (v : snapshot_t) :
    ZeroAbsent (bch2_snapshot_t_set t id v) := by
  unfold ZeroAbsent at hz ⊢
  rw [__snapshot_t] at hz ⊢
  rw [bch2_snapshot_t_set]
  dsimp only at hz ⊢
  have hnr := (Nat.not_lt.mp fun h => by rw [if_pos h] at hz; cases hz)
  -- slot `U32_MAX - 0` is past the table, and `id`'s slot is below it
  have hid' : 0 < id.toNat := by
    rcases Nat.eq_zero_or_pos id.toNat with h | h
    · exact absurd (UInt32.toNat_inj.mp (h.trans UInt32.toNat_zero.symm)) hid
    · exact h
  rw [if_neg]
  rw [toNat_U32_MAX_sub, toNat_U32_MAX_sub] at *
  rw [UInt32.toNat_zero] at *
  omega

/-- Writing `id` twice leaves the second entry. -/
theorem snapshot_t_set_set (t : snapshot_table) (id : UInt32) (v w : snapshot_t) :
    bch2_snapshot_t_set (bch2_snapshot_t_set t id v) id w = bch2_snapshot_t_set t id w := by
  unfold bch2_snapshot_t_set
  congr 1
  · exact Nat.max_eq_left (Nat.le_max_right _ _)
  -- slot by slot: the written slot holds the second entry, and the growth is the same
  · funext i
    dsimp only
    by_cases hi : i = (U32_MAX - id).toNat
    · rw [if_pos hi, if_pos hi]
    · rw [if_neg hi, if_neg hi, if_neg hi]
      by_cases hlt : i < t.nr
      · rw [if_pos (Nat.lt_of_lt_of_le hlt (Nat.le_max_left _ _)), if_pos hlt]
      · rw [if_neg hlt]
        split <;> rfl

/-! ### A fresh id -/

section Fresh

variable {id : UInt32} (hfresh : ∀ x s, __snapshot_t t x = some s → s.parent ≠ id)
include hfresh

/-- No walk up from another node reaches an id that is no entry's parent. -/
theorem ne_of_snapshotAncestor {x y : UInt32} (hx : x ≠ id) (h : SnapshotAncestor t x y)
    (hy : y ≠ 0) : y ≠ id := by
  -- induction on the walk up from `x`: each node reached is a parent of one with an entry, so not `id`
  induction h with
  | refl => exact hx
  | tail _ hwy _ =>
      obtain ⟨-, rfl⟩ := hwy
      cases hw : __snapshot_t t _ with
      | none => exact absurd (parent_of_none hw) hy
      | some s =>
          rw [parent_of_some hw]
          exact hfresh _ s hw

/-- Writing a fresh id changes no ancestor of another node. -/
theorem snapshotAncestor_set_iff {x a : UInt32} (hx : x ≠ id) (v : snapshot_t) :
    SnapshotAncestor (bch2_snapshot_t_set t id v) x a ↔ SnapshotAncestor t x a := by
  unfold SnapshotAncestor
  refine isAncestor_congr fun y hy hy0 => ?_
  rw [parent_set, if_neg (ne_of_snapshotAncestor hfresh hx hy hy0)]

/-- Writing a fresh id changes no walk up from another node. -/
theorem iterate_parent_set (hz : ZeroAbsent t) (hid : id ≠ 0) {x : UInt32} (hx : x ≠ id)
    (v : snapshot_t) (n : Nat) :
    (__bch2_snapshot_parent (bch2_snapshot_t_set t id v))^[n] x =
      (__bch2_snapshot_parent t)^[n] x := by
  induction n with
  | zero => rw [Function.iterate_zero_apply, Function.iterate_zero_apply]
  | succ n ih =>
      rw [Function.iterate_succ_apply', Function.iterate_succ_apply', ih, parent_set]
      -- the `n`th parent is `0` or an ancestor of `x`, so not the fresh id
      have hne : (__bch2_snapshot_parent t)^[n] x ≠ id := by
        by_cases h0 : (__bch2_snapshot_parent t)^[n] x = 0
        · rw [h0]
          exact Ne.symm hid
        · exact ne_of_snapshotAncestor hfresh hx
            ((isAncestor_iff_iterate (parent_zero hz)).mpr ⟨n, rfl⟩) h0
      rw [if_neg hne]

/-- Writing a fresh id changes no other node's bitmap walk. -/
theorem mark_set (hz : ZeroAbsent t) {x : UInt32} (hx : x ≠ id) (v : snapshot_t) (fuel : Nat) :
    bch2_mark_snapshot_is_ancestor (bch2_snapshot_t_set t id v) x fuel =
      bch2_mark_snapshot_is_ancestor t x fuel := by
  unfold bch2_mark_snapshot_is_ancestor
  rw [parent_set, if_neg hx]
  -- the walk stays on the ancestors of `x`, where the parents agree
  have hinit : SnapshotAncestor t x (__bch2_snapshot_parent t x) := by
    by_cases hx0 : x = 0
    · rw [hx0, parent_zero hz]
      exact isAncestor_refl 0
    · exact isAncestor_parent hx0
  rw [whileLoop_congr (fun s : UInt32 × BitVec 128 => SnapshotAncestor t x s.1)
    (fun s hI hc => ?_) hinit]
  simp only [Bool.and_eq_true, bne_iff_ne, ne_eq] at hc
  refine ⟨?_, hI.trans (isAncestor_parent hc.1)⟩
  rw [parent_set, if_neg (ne_of_snapshotAncestor hfresh hx hI hc.1)]

end Fresh

/-! ### Marking a new node -/

/-- The bitmap walk of `bch2_mark_snapshot` stops within 129 steps: each step goes up or to
`0`, and the walk leaves the 128 ids above the node. -/
theorem bch2_mark_snapshot_is_ancestor_isSome (hp : ParentsAbove t) (id : UInt32) {fuel : Nat}
    (hfuel : 129 < fuel) : ∃ bm, bch2_mark_snapshot_is_ancestor t id fuel = some bm := by
  -- the next parent is `0` or above `id`; the measure is the room left in the window
  have hstep : ∀ s : UInt32 × BitVec 128, (s.1 = 0 ∨ id < s.1) →
      (s.1 != 0 && s.1 - id - 1 < IS_ANCESTOR_BITMAP) = true →
      (__bch2_snapshot_parent t s.1 = 0 ∨ id < __bch2_snapshot_parent t s.1) ∧
        (if __bch2_snapshot_parent t s.1 = 0 then 0
          else 129 - ((__bch2_snapshot_parent t s.1).toNat - id.toNat)) <
        (if s.1 = 0 then 0 else 129 - (s.1.toNat - id.toNat)) := by
    intro s hI hc
    simp only [Bool.and_eq_true, bne_iff_ne, ne_eq, decide_eq_true_eq] at hc
    have hlt := hI.resolve_left hc.1
    have hwin := UInt32.lt_iff_toNat_lt.mp hc.2
    rw [toNat_sub_sub_one hlt, toNat_IS_ANCESTOR_BITMAP] at hwin
    have hlt' := UInt32.lt_iff_toNat_lt.mp hlt
    refine ⟨(parent_eq_zero_or_lt hp s.1).imp_right (UInt32.lt_trans hlt), ?_⟩
    rw [if_neg hc.1]
    rcases parent_eq_zero_or_lt hp s.1 with h0 | hup
    · rw [if_pos h0]
      omega
    · have hup' := UInt32.lt_iff_toNat_lt.mp hup
      rw [if_neg (fun h => by rw [h, UInt32.toNat_zero] at hup'; omega)]
      omega
  obtain ⟨⟨q, bm⟩, h⟩ := @whileLoop_isSome_of_measure (UInt32 × BitVec 128)
    (fun s => s.1 != 0 && s.1 - id - 1 < IS_ANCESTOR_BITMAP)
    (fun s => (__bch2_snapshot_parent t s.1, s.2 ||| BitVec.twoPow 128 (s.1 - id - 1).toNat))
    (fun s => s.1 = 0 ∨ id < s.1)
    (fun s => if s.1 = 0 then 0 else 129 - (s.1.toNat - id.toNat))
    hstep fuel (__bch2_snapshot_parent t id, 0) (parent_eq_zero_or_lt hp id)
    (by dsimp only; split <;> omega)
  exact ⟨bm, by rw [bch2_mark_snapshot_is_ancestor, h]; rfl⟩

/-- Every entry after writing `id` is the new one, an old one, or a zeroed one the table
grew. -/
theorem snapshot_t_set_entry_cases {id : UInt32} {w : snapshot_t} (x : UInt32) (s : snapshot_t)
    (h : __snapshot_t (bch2_snapshot_t_set t id w) x = some s) :
    x = id ∧ s = w ∨ x ≠ id ∧ __snapshot_t t x = some s ∨
      x ≠ id ∧ __snapshot_t t x = none ∧ s = snapshot_t_zero := by
  by_cases hx : x = id
  · subst hx
    rw [snapshot_t_set_self] at h
    exact Or.inl ⟨rfl, (Option.some.inj h).symm⟩
  · rcases snapshot_t_set_cases hx h with h' | ⟨h', rfl⟩
    · exact Or.inr (Or.inl ⟨hx, h'⟩)
    · exact Or.inr (Or.inr ⟨hx, h', rfl⟩)

/-- Writing an entry whose parent is `0` or above it keeps every parent above its child. -/
theorem parentsAbove_set (hp : ParentsAbove t) {id : UInt32} {w : snapshot_t}
    (hw : w.parent = 0 ∨ id < w.parent) : ParentsAbove (bch2_snapshot_t_set t id w) := by
  intro x s h
  rcases snapshot_t_set_entry_cases x s h with ⟨rfl, rfl⟩ | ⟨-, h'⟩ | ⟨-, -, rfl⟩
  · exact hw
  · exact hp x s h'
  · exact Or.inl rfl

/-- What a new entry must be for its id to keep the invariants: its parent above it, a
valid sorted skiplist, and a depth one more than its parent's. -/
structure FreshEntry (t : snapshot_table) (id : UInt32) (v : snapshot_t) : Prop where
  parent_above : v.parent = 0 ∨ id < v.parent
  skips : v.parent ≠ 0 → ∀ i : Fin 3, v.skip.get i ≠ 0 ∧ SnapshotAncestor t v.parent (v.skip.get i)
  root_skips : v.parent = 0 → ∀ i : Fin 3, v.skip.get i = 0
  sorted : v.skip.get 0 ≤ v.skip.get 1 ∧ v.skip.get 1 ≤ v.skip.get 2
  depth : v.parent = 0 ∧ v.depth = 0 ∨
    ∃ sp, __snapshot_t t v.parent = some sp ∧ v.depth.toNat = sp.depth.toNat + 1

/-- The entry's bitmap plays no part in its freshness. -/
theorem FreshEntry.with_is_ancestor {id : UInt32} {v : snapshot_t} (hv : FreshEntry t id v)
    (bm : BitVec 128) : FreshEntry t id { v with is_ancestor := bm } :=
  ⟨hv.parent_above, hv.skips, hv.root_skips, hv.sorted, hv.depth⟩

/-- Each entry of the all-zero skiplist is `0`. -/
theorem zero_skip_get (i : Fin 3) : (Vector.replicate 3 (0 : UInt32)).get i = 0 := by
  revert i
  decide

/-- The all-zero skiplist is sorted. -/
theorem zero_skip_sorted : (Vector.replicate 3 (0 : UInt32)).get 0 ≤ (Vector.replicate 3 (0 : UInt32)).get 1 ∧
    (Vector.replicate 3 (0 : UInt32)).get 1 ≤ (Vector.replicate 3 (0 : UInt32)).get 2 := by
  decide

/-- The zeroed entry's skiplist is all zero. -/
theorem snapshot_t_zero_skip (i : Fin 3) : snapshot_t_zero.skip.get i = 0 := zero_skip_get i

section Mark

variable (hinv : SnapshotTableInv t) {id : UInt32} (hid : id ≠ 0)
  (hfresh : ∀ x s, __snapshot_t t x = some s → s.parent ≠ id)
include hinv hid hfresh

/-- Writing a fresh entry whose bitmap is the one its parents give keeps the invariants. -/
theorem snapshotTableInv_set {w : snapshot_t} (hw : FreshEntry t id w) {fuel : Nat}
    (hbm : bch2_mark_snapshot_is_ancestor (bch2_snapshot_t_set t id w) id fuel =
      some w.is_ancestor) :
    SnapshotTableInv (bch2_snapshot_t_set t id w) := by
  have hz := hinv.zero_absent
  have hv := hinv.valid
  have hcases := @snapshot_t_set_entry_cases t id w
  have hwp : w.parent ≠ 0 → w.parent ≠ id := fun h0 h => by
    have hlt := hw.parent_above.resolve_left h0
    rw [h] at hlt
    exact UInt32.lt_irrefl id hlt
  -- each invariant, split on whether an entry is the new one, an old one, or one the growth zeroed
  refine ⟨⟨?_, ?_, ?_, ?_⟩, ?_, ?_, zeroAbsent_set hz hid w⟩
  · -- parents above
    exact parentsAbove_set hv.parents_above hw.parent_above
  · -- skiplists of nodes with a parent
    intro x s h hpar i
    rcases hcases x s h with ⟨rfl, rfl⟩ | ⟨-, h'⟩ | ⟨-, -, rfl⟩
    · obtain ⟨hne, hanc⟩ := hw.skips hpar i
      exact ⟨hne, (snapshotAncestor_set_iff hfresh (hwp hpar) _).mpr hanc⟩
    · obtain ⟨hne, hanc⟩ := hv.skips_ancestors x s h' hpar i
      exact ⟨hne, (snapshotAncestor_set_iff hfresh (hfresh x s h') _).mpr hanc⟩
    · exact absurd rfl hpar
  · -- skiplists of roots
    intro x s h hroot i
    rcases hcases x s h with ⟨rfl, rfl⟩ | ⟨-, h'⟩ | ⟨-, -, rfl⟩
    · exact hw.root_skips hroot i
    · exact hv.root_skips_zero x s h' hroot i
    · exact snapshot_t_zero_skip i
  · -- bitmaps
    intro x s h
    rcases hcases x s h with ⟨rfl, rfl⟩ | ⟨hx, h'⟩ | ⟨hx, h', rfl⟩
    · exact ⟨fuel, hbm⟩
    · obtain ⟨f, hf⟩ := hv.bitmaps_marked x s h'
      exact ⟨f, by rw [mark_set hfresh hz hx]; exact hf⟩
    · refine ⟨1, ?_⟩
      rw [bch2_mark_snapshot_is_ancestor, parent_set, if_neg hx, parent_of_none h']
      rfl
  · -- sorted skiplists
    intro x s h
    rcases hcases x s h with ⟨rfl, rfl⟩ | ⟨-, h'⟩ | ⟨-, -, rfl⟩
    · exact hw.sorted
    · exact hinv.skips_sorted x s h'
    · exact ⟨UInt32.le_refl 0, UInt32.le_refl 0⟩
  · -- depths: the new node's chain is its parent's, one step longer
    intro x s h
    rcases hcases x s h with ⟨rfl, rfl⟩ | ⟨hx, h'⟩ | ⟨hx, h', rfl⟩
    · rcases hw.depth with ⟨h0, hd0⟩ | ⟨sp, hsp, hdep⟩
      · rw [hd0, UInt32.toNat_zero, Function.iterate_zero_apply, Function.iterate_one,
          parent_set, if_pos rfl, h0]
        exact ⟨hid, rfl⟩
      · have hp0 := ne_zero_of_entry hz hsp
        rw [hdep, Function.iterate_succ_apply, Function.iterate_succ_apply, parent_set, if_pos rfl,
          iterate_parent_set hfresh hz hid (hwp hp0), iterate_parent_set hfresh hz hid (hwp hp0)]
        exact hinv.depths _ sp hsp
    · rw [iterate_parent_set hfresh hz hid hx, iterate_parent_set hfresh hz hid hx]
      exact hinv.depths x s h'
    · have hd0 : snapshot_t_zero.depth.toNat = 0 := rfl
      rw [hd0]
      refine ⟨?_, ?_⟩
      · rw [Function.iterate_zero_apply]
        exact ne_zero_of_entry (zeroAbsent_set hz hid w) h
      · rw [Function.iterate_one, parent_set, if_neg hx, parent_of_none h']

/-- `bch2_mark_snapshot` of a fresh entry stops and keeps the invariants, and every other
entry. -/
theorem bch2_mark_snapshot_fresh {v : snapshot_t} (hv : FreshEntry t id v) {fuel : Nat}
    (hfuel : 129 < fuel) :
    ∃ t', bch2_mark_snapshot t id v fuel = some t' ∧ SnapshotTableInv t' ∧
      (∀ x s, __snapshot_t t x = some s → x ≠ id → __snapshot_t t' x = some s) ∧
      (∀ x s, __snapshot_t t' x = some s → x ≠ id →
        __snapshot_t t x = some s ∨ __snapshot_t t x = none ∧ s = snapshot_t_zero) := by
  obtain ⟨bm, hbm⟩ := bch2_mark_snapshot_is_ancestor_isSome
    (parentsAbove_set hinv.valid.parents_above hv.parent_above) id hfuel
  -- the bitmap does not change the parents the walk reads
  have hpar : __bch2_snapshot_parent (bch2_snapshot_t_set t id { v with is_ancestor := bm }) =
      __bch2_snapshot_parent (bch2_snapshot_t_set t id v) := by
    funext x
    rw [parent_set, parent_set]
  have hbm' : bch2_mark_snapshot_is_ancestor (bch2_snapshot_t_set t id { v with is_ancestor := bm })
      id fuel = some bm := by
    unfold bch2_mark_snapshot_is_ancestor
    rw [hpar]
    exact hbm
  refine ⟨bch2_snapshot_t_set t id { v with is_ancestor := bm }, ?_,
    snapshotTableInv_set hinv hid hfresh (hv.with_is_ancestor bm) hbm',
    fun x s h hx => snapshot_t_set_of_ne hx h, fun x s h hx => snapshot_t_set_cases hx h⟩
  rw [bch2_mark_snapshot, hbm, Option.map_some, snapshot_t_set_set]

end Mark

/-! ### Creating children -/

/-- The ids up a chain grow by at least one a step. -/
theorem toNat_iterate_ge (hz : ZeroAbsent t) (hp : ParentsAbove t) {x : UInt32} {n : Nat}
    (h : (__bch2_snapshot_parent t)^[n] x ≠ 0) :
    x.toNat + n ≤ ((__bch2_snapshot_parent t)^[n] x).toNat := by
  -- induction on the number of steps: each step to a nonzero parent goes up by at least one
  induction n with
  | zero => rw [Function.iterate_zero_apply]; omega
  | succ n ih =>
      have hn : (__bch2_snapshot_parent t)^[n] x ≠ 0 := fun h0 =>
        h (iterate_eq_null_of_le (parent_zero hz) (Nat.le_succ n) h0)
      rw [Function.iterate_succ_apply'] at h ⊢
      have hlt := UInt32.lt_iff_toNat_lt.mp ((parent_eq_zero_or_lt hp _).resolve_left h)
      have := ih hn
      omega

/-- A depth leaves room for one more: the chain climbs one id a step from an id above `0`. -/
theorem toNat_depth_add_one (hinv : SnapshotTableInv t) {x : UInt32} {s : snapshot_t}
    (h : __snapshot_t t x = some s) : (s.depth + 1).toNat = s.depth.toNat + 1 := by
  have hge := toNat_iterate_ge hinv.zero_absent hinv.valid.parents_above (hinv.depths x s h).1
  have hx : x.toNat ≠ 0 := fun h0 =>
    ne_zero_of_entry hinv.zero_absent h (UInt32.toNat_inj.mp (h0.trans UInt32.toNat_zero.symm))
  have hlt := ((__bch2_snapshot_parent t)^[s.depth.toNat] x).toNat_lt
  rw [UInt32.toNat_add, UInt32.toNat_one]
  exact Nat.mod_eq_of_lt (by omega)

/-- The entries below the id the iterator is on are zeroed ones. -/
def ZeroBelow (t : snapshot_table) (first : UInt32) : Prop :=
  ∀ x s, __snapshot_t t x = some s → x < first → s = snapshot_t_zero

/-- `first - 1` does not wrap for a nonzero `first`. -/
theorem toNat_sub_one {first : UInt32} (hfirst : first ≠ 0) :
    (first - 1).toNat = first.toNat - 1 := by
  have h0 : first.toNat ≠ 0 := fun h => hfirst (UInt32.toNat_inj.mp (h.trans UInt32.toNat_zero.symm))
  rw [UInt32.toNat_sub_of_le _ _ (UInt32.le_iff_toNat_le.mpr (by rw [UInt32.toNat_one]; omega)),
    UInt32.toNat_one]

/-- `first - 1` is below a nonzero `first`. -/
theorem sub_one_lt_self {first : UInt32} (hfirst : first ≠ 0) : first - 1 < first := by
  have h0 : first.toNat ≠ 0 := fun h => hfirst (UInt32.toNat_inj.mp (h.trans UInt32.toNat_zero.symm))
  apply UInt32.lt_iff_toNat_lt.mpr
  rw [toNat_sub_one hfirst]
  omega

section Create

variable (hinv : SnapshotTableInv t) {parent tree first : UInt32}
include hinv

/-- The slot below the lowest id is no entry's parent. -/
theorem create_fresh (hfirst : first ≠ 0) (hfirst1 : first - 1 ≠ 0) (hbelow : ZeroBelow t first) :
    ∀ x s, __snapshot_t t x = some s → s.parent ≠ first - 1 := by
  intro x s h
  -- entries below the lowest id are zeroed, with parent `0`; those above have their parent above them
  by_cases hx : x < first
  · rw [hbelow x s h hx]
    exact Ne.symm hfirst1
  · rcases hinv.valid.parents_above x s h with h0 | hup
    · rw [h0]
      exact Ne.symm hfirst1
    · intro heq
      rw [heq] at hup
      exact hx (UInt32.lt_trans hup (sub_one_lt_self hfirst))

/-- The entry `create_snapids` makes for a child of `parent` at the slot below the lowest id
is a fresh one. -/
theorem create_snapid_entry_fresh (hfirst : first ≠ 0) (hparent : parent = 0 ∨ first ≤ parent)
    {r : Fin 3 → UInt32} (hr : CreateDraws t parent r) :
    FreshEntry t (first - 1) (create_snapid_entry t parent tree r) := by
  obtain ⟨hzero, hskips, hsorted⟩ :=
    @create_snapid_entry_skip t hinv.zero_absent hinv.depths parent tree r hr
  refine ⟨hparent.imp_right fun h => UInt32.lt_of_lt_of_le (sub_one_lt_self hfirst) h, hskips,
    hzero, hsorted, ?_⟩
  -- the depth is `0` under no parent, else one more than the parent's
  by_cases hp0 : parent = 0
  · exact Or.inl ⟨hp0, by rw [create_snapid_entry, bch2_snapshot_depth, if_neg (not_not.mpr hp0)]⟩
  · obtain ⟨sp, hsp, -⟩ := hr.resolve_left hp0
    refine Or.inr ⟨sp, hsp, ?_⟩
    show (bch2_snapshot_depth t parent).toNat = _
    rw [bch2_snapshot_depth, if_pos hp0, hsp, Option.elim_some]
    exact toNat_depth_add_one hinv hsp

end Create

/-- `create_snapids` with room below the lowest id for every child stops, and keeps the
invariants: each new entry is fresh when it is marked. The induction is on the draws, one
child a step, with the table and the iterator's id generalized. -/
theorem create_snapids_spec {parent tree : UInt32} {fuel : Nat} (hfuel : 129 < fuel)
    (rs : List (Fin 3 → UInt32)) :
    ∀ (t : snapshot_table) (first : UInt32), SnapshotTableInv t → ZeroBelow t first →
      (parent = 0 ∨ first ≤ parent) → (∀ r ∈ rs, CreateDraws t parent r) →
      rs.length < first.toNat →
      ∃ t', create_snapids t parent tree first rs fuel = some t' ∧ SnapshotTableInv t' := by
  induction rs with
  | nil => exact fun t _ hinv _ _ _ _ => ⟨t, rfl, hinv⟩
  | cons r rs ih =>
      intro t first hinv hbelow hparent hdraws hlen
      rw [List.length_cons] at hlen
      have hfirst : first ≠ 0 := fun h => by rw [h, UInt32.toNat_zero] at hlen; omega
      have hsub := toNat_sub_one hfirst
      have hfirst1 : first - 1 ≠ 0 := fun h => by rw [h, UInt32.toNat_zero] at hsub; omega
      have hlt := sub_one_lt_self hfirst
      obtain ⟨t', hmark, hinv', hkeep, hnew⟩ := bch2_mark_snapshot_fresh hinv hfirst1
        (create_fresh hinv hfirst hfirst1 hbelow)
        (@create_snapid_entry_fresh t hinv parent tree first hfirst hparent r
          (hdraws r List.mem_cons_self))
        hfuel
      rw [create_snapids, if_neg hfirst1, hmark, Option.bind_some]
      -- the parent's entry, and with it the draws, is one the step kept
      have hpne : parent ≠ 0 → parent ≠ first - 1 := fun hp0 heq =>
        absurd (hparent.resolve_left hp0) (by rw [heq]; exact UInt32.not_le.mpr hlt)
      refine ih t' (first - 1) hinv' ?_ ?_ ?_ (by omega)
      · intro x s h hx
        rcases hnew x s h (UInt32.ne_of_lt hx) with h' | ⟨-, rfl⟩
        · exact hbelow x s h' (UInt32.lt_trans hx hlt)
        · rfl
      · exact hparent.imp_right fun h => UInt32.le_of_lt (UInt32.lt_of_lt_of_le hlt h)
      · intro r' hr'
        rcases hdraws r' (List.mem_cons_of_mem r hr') with hp0 | ⟨sp, hsp, hd⟩
        · exact Or.inl hp0
        · have hp0 : parent ≠ 0 := fun h0 => by rw [h0, hinv.zero_absent] at hsp; cases hsp
          exact Or.inr ⟨sp, hkeep parent sp hsp (hpne hp0), hd⟩

/-! ### Splicing out deleted ancestors -/

/-- What `bch2_fix_child_of_deleted_snapshot` needs of the delete list: each id once, each
with a live child (the `0` `interior_delete_has_id` returns means "not listed") and a table
entry. -/
structure DeleteListValid (t : snapshot_table) (deleted : List snapshot_interior_delete) :
    Prop where
  ids_nodup : (deleted.map (·.id)).Nodup
  live_child : ∀ i ∈ deleted, i.live_child ≠ 0
  entries : ∀ i ∈ deleted, ∃ si, __snapshot_t t i.id = some si

/-- `interior_delete_has_id` is nonzero exactly on the ids of the delete list, when every entry has
a live child. -/
theorem interior_delete_has_id_ne_zero_iff {deleted : List snapshot_interior_delete}
    (hlive : ∀ i ∈ deleted, i.live_child ≠ 0) (x : UInt32) :
    interior_delete_has_id deleted x ≠ 0 ↔ x ∈ deleted.map (·.id) := by
  rw [interior_delete_has_id]
  -- `find?` finds an entry exactly when the id is on the list, and a found entry has a live child
  cases h : deleted.find? (fun i => i.id == x) with
  | none =>
      rw [List.find?_eq_none] at h
      rw [Option.elim_none]
      refine ⟨fun h0 => absurd rfl h0, fun hx => ?_⟩
      obtain ⟨i, hi, rfl⟩ := List.mem_map.mp hx
      exact absurd (beq_self_eq_true i.id) (h i hi)
  | some i =>
      have hi := List.mem_of_find?_eq_some h
      have hix := List.find?_some h
      rw [beq_iff_eq] at hix
      rw [Option.elim_some]
      exact ⟨fun _ => List.mem_map.mpr ⟨i, hi, hix⟩, fun _ => hlive i hi⟩

/-- How many of the ids `P^[m] k, ..., P^[d] k` up the chain of `k` are not on the delete
list. -/
def keptFrom (t : snapshot_table) (deleted : List snapshot_interior_delete) (k : UInt32)
    (d m : Nat) : Nat :=
  (List.range' m (d + 1 - m)).countP fun j =>
    interior_delete_has_id deleted ((__bch2_snapshot_parent t)^[j] k) == 0

section Kept

variable {deleted : List snapshot_interior_delete} {k : UInt32} {d : Nat}

/-- Past `d` nothing is counted. -/
theorem keptFrom_of_lt {m : Nat} (h : d < m) : keptFrom t deleted k d m = 0 := by
  rw [keptFrom, show d + 1 - m = 0 by omega, List.range'_zero, List.countP_nil]

/-- `keptFrom` counts the id at `m`, if kept, and those above it. -/
theorem keptFrom_eq {m : Nat} (h : m ≤ d) :
    keptFrom t deleted k d m = keptFrom t deleted k d (m + 1) +
      if interior_delete_has_id deleted ((__bch2_snapshot_parent t)^[m] k) = 0 then 1 else 0 := by
  rw [keptFrom, keptFrom, show d + 1 - m = (d + 1 - (m + 1)) + 1 by omega, List.range'_succ,
    List.countP_cons]
  simp only [beq_iff_eq]

/-- A start with an id kept from it on is at most `d`. -/
theorem le_of_keptFrom_pos {m : Nat} (h : 0 < keptFrom t deleted k d m) : m ≤ d :=
  Nat.not_lt.mp fun hlt => absurd (keptFrom_of_lt hlt) (Nat.pos_iff_ne_zero.mp h)

/-- A deleted id at `m` does not count. -/
theorem keptFrom_succ_of_deleted {m : Nat} (h : m ≤ d)
    (hdel : interior_delete_has_id deleted ((__bch2_snapshot_parent t)^[m] k) ≠ 0) :
    keptFrom t deleted k d (m + 1) = keptFrom t deleted k d m := by
  rw [keptFrom_eq h, if_neg hdel]
  rfl

/-- A kept id at `m` counts one. -/
theorem keptFrom_succ_of_kept {m : Nat} (h : m ≤ d)
    (hkept : interior_delete_has_id deleted ((__bch2_snapshot_parent t)^[m] k) = 0) :
    keptFrom t deleted k d (m + 1) + 1 = keptFrom t deleted k d m := by
  rw [keptFrom_eq h, if_pos hkept]

end Kept

/-! The walks of `bch2_snapshot_nth_parent_skip` go up the chain `P^[m] k` of a node `k` of
depth `d`; `keptFrom` bounds how far they get. -/

section Walk

variable {deleted : List snapshot_interior_delete} {k : UInt32} {d : Nat} (hz : ZeroAbsent t)
  (hp : ParentsAbove t) (hroot : (__bch2_snapshot_parent t)^[d] k ≠ 0)
include hz hp hroot

omit hp in
/-- Up to the depth the walk up from `k` stays on nonzero ids. -/
theorem iterate_ne_zero_of_le_depth {m : Nat} (hm : m ≤ d) : (__bch2_snapshot_parent t)^[m] k ≠ 0 :=
  fun h0 => hroot (iterate_eq_null_of_le (parent_zero hz) hm h0)

/-- The first loop skips the deleted ids from `P^[m] k` on, to the first one kept. It stops
before `d`, since some id from `m` on is kept. -/
theorem skip_deleted_spec {m : Nat} (hm : 0 < keptFrom t deleted k d m) {fuel : Nat}
    (hfuel : 2 ^ 32 ≤ fuel) :
    ∃ m', m ≤ m' ∧ m' ≤ d ∧
      interior_delete_has_id deleted ((__bch2_snapshot_parent t)^[m'] k) = 0 ∧
      keptFrom t deleted k d m' = keptFrom t deleted k d m ∧
      skip_deleted t deleted fuel ((__bch2_snapshot_parent t)^[m] k) =
        some ((__bch2_snapshot_parent t)^[m'] k) := by
  let I : UInt32 → Prop := fun x => ∃ m', m ≤ m' ∧ x = (__bch2_snapshot_parent t)^[m'] k ∧
    keptFrom t deleted k d m' = keptFrom t deleted k d m
  -- a deleted id is below `d`, and its parent is the next id up, higher and still counted
  have hstep : ∀ x, I x → (interior_delete_has_id deleted x != 0) = true →
      I (__bch2_snapshot_parent t x) ∧
        2 ^ 32 - (__bch2_snapshot_parent t x).toNat < 2 ^ 32 - x.toNat := by
    rintro x ⟨m', hmm', rfl, hk⟩ hc
    rw [bne_iff_ne] at hc
    have hm'd := le_of_keptFrom_pos (hk ▸ hm)
    have hlt : m' < d := Nat.lt_of_le_of_ne hm'd fun h => by
      subst h
      rw [← keptFrom_succ_of_deleted hm'd hc, keptFrom_of_lt (Nat.lt_succ_self _)] at hk
      omega
    have hup := (parent_eq_zero_or_lt hp _).resolve_left
      (by
        rw [← Function.iterate_succ_apply' (__bch2_snapshot_parent t)]
        exact iterate_ne_zero_of_le_depth hz hroot hlt)
    refine ⟨⟨m' + 1, by omega, (Function.iterate_succ_apply' _ _ _).symm,
      (keptFrom_succ_of_deleted hm'd hc).trans hk⟩, ?_⟩
    have := UInt32.lt_iff_toNat_lt.mp hup
    have := (__bch2_snapshot_parent t ((__bch2_snapshot_parent t)^[m'] k)).toNat_lt
    omega
  have hI : I ((__bch2_snapshot_parent t)^[m] k) := ⟨m, Nat.le_refl m, rfl, rfl⟩
  have hm0 : ((__bch2_snapshot_parent t)^[m] k).toNat ≠ 0 := fun h =>
    iterate_ne_zero_of_le_depth hz hroot (le_of_keptFrom_pos hm)
      (UInt32.toNat_inj.mp (h.trans UInt32.toNat_zero.symm))
  obtain ⟨r, hr⟩ := @whileLoop_isSome_of_measure UInt32
    (fun id => interior_delete_has_id deleted id != 0) (__bch2_snapshot_parent t) I
    (fun x => 2 ^ 32 - x.toNat) hstep fuel _ hI (by omega)
  obtain ⟨⟨m', hmm', rfl, hk⟩, hexit⟩ := whileLoop_inv I (fun x hx hc => (hstep x hx hc).1) hI hr
  rw [bne_eq_false_iff_eq] at hexit
  exact ⟨m', hmm', le_of_keptFrom_pos (hk ▸ hm), hexit, hk, hr⟩

/-- The second loop: `n` steps, each to the parent and on past the deleted ids, from a kept
id with more than `n` kept ids from it on, end on a kept id. The induction is on `n`, from
any start. -/
theorem nth_parent_skip_steps_spec {fuel : Nat} (hfuel : 2 ^ 32 ≤ fuel) (n : Nat) :
    ∀ m, interior_delete_has_id deleted ((__bch2_snapshot_parent t)^[m] k) = 0 →
      n < keptFrom t deleted k d m →
      ∃ m', m ≤ m' ∧ m' ≤ d ∧
        interior_delete_has_id deleted ((__bch2_snapshot_parent t)^[m'] k) = 0 ∧
        nth_parent_skip_steps t deleted fuel n ((__bch2_snapshot_parent t)^[m] k) =
          some ((__bch2_snapshot_parent t)^[m'] k) := by
  induction n with
  | zero => exact fun m hkept hn => ⟨m, Nat.le_refl m, le_of_keptFrom_pos hn, hkept, rfl⟩
  | succ n ih =>
      intro m hkept hn
      have hmd := le_of_keptFrom_pos (Nat.lt_of_le_of_lt (Nat.zero_le _) hn)
      have hsucc := keptFrom_succ_of_kept hmd hkept
      have hpos : 0 < keptFrom t deleted k d (m + 1) := by omega
      obtain ⟨m', hmm', -, hkept', hk', hskip⟩ := skip_deleted_spec hz hp hroot hpos hfuel
      obtain ⟨m'', hm'm'', hm''d, hkept'', hsteps⟩ := ih m' hkept' (by omega)
      refine ⟨m'', by omega, hm''d, hkept'', ?_⟩
      rw [nth_parent_skip_steps, ← Function.iterate_succ_apply' (__bch2_snapshot_parent t), hskip, Option.bind_some, hsteps]

/-- `bch2_snapshot_nth_parent_skip` from the parent of `k`, for `n` below the number of kept
proper ancestors, ends on a kept proper ancestor. -/
theorem bch2_snapshot_nth_parent_skip_spec {n : UInt32}
    (hn : n.toNat < keptFrom t deleted k d 1) {fuel : Nat} (hfuel : 2 ^ 32 ≤ fuel) :
    ∃ m, 1 ≤ m ∧ m ≤ d ∧
      interior_delete_has_id deleted ((__bch2_snapshot_parent t)^[m] k) = 0 ∧
      bch2_snapshot_nth_parent_skip t (__bch2_snapshot_parent t k) n deleted fuel =
        some ((__bch2_snapshot_parent t)^[m] k) := by
  -- the first loop reaches the first kept proper ancestor, the second goes `n` kept ones further
  have hpos : 0 < keptFrom t deleted k d 1 := by omega
  obtain ⟨m', hm', -, hkept', hk', hskip⟩ := skip_deleted_spec hz hp hroot hpos hfuel
  obtain ⟨m, hm'm, hmd, hkept, hsteps⟩ :=
    nth_parent_skip_steps_spec hz hp hroot hfuel n.toNat m' hkept' (by omega)
  refine ⟨m, by omega, hmd, hkept, ?_⟩
  have h1 : __bch2_snapshot_parent t k = (__bch2_snapshot_parent t)^[1] k :=
    congrFun (Function.iterate_one _).symm k
  rw [bch2_snapshot_nth_parent_skip, h1, hskip, Option.bind_some, hsteps]

end Walk

/-! ### Counting the deleted ancestors -/

/-- Two lists without duplicates have as many members of each other. -/
theorem countP_mem_comm {α : Type*} [DecidableEq α] {l₁ l₂ : List α} (h₁ : l₁.Nodup)
    (h₂ : l₂.Nodup) : l₁.countP (· ∈ l₂) = l₂.countP (· ∈ l₁) := by
  rw [List.countP_eq_length_filter, List.countP_eq_length_filter]
  refine List.Perm.length_eq ((List.perm_ext_iff_of_nodup (h₁.filter _) (h₂.filter _)).mpr
    fun a => ?_)
  simp only [List.mem_filter, decide_eq_true_eq]
  exact and_comm

/-- The fold of `nr_deleted_ancestors` counts the entries its test answers `true` for, when it
answers for every entry. The induction is on the list, the count so far generalized. -/
theorem foldlM_count {β : Type*} (g : β → Option Bool) (q : β → Bool) (l : List β)
    (hq : ∀ i ∈ l, g i = some (q i)) (acc : UInt32) :
    l.foldlM (fun nr i => (g i).map fun b => nr + if b then 1 else 0) acc =
      some (acc + UInt32.ofNat (l.countP q)) := by
  induction l generalizing acc with
  | nil =>
      rw [List.foldlM_nil, List.countP_nil]
      exact congrArg some (UInt32.add_zero acc).symm
  | cons a l ih =>
      rw [List.foldlM_cons, hq a List.mem_cons_self, Option.map_some, Option.bind_eq_bind,
        Option.bind_some, ih (fun i hi => hq i (List.mem_cons_of_mem a hi)), List.countP_cons,
        UInt32.ofNat_add, UInt32.add_assoc, UInt32.add_comm (if q a = true then 1 else 0)]
      -- the count grows by one on an entry the test answers `true` for
      cases q a <;> rfl

/-- The proper ancestors of `k`, its first `d` parents. -/
def ancestorChain (t : snapshot_table) (k : UInt32) (d : Nat) : List UInt32 :=
  (List.range' 1 d).map fun j => (__bch2_snapshot_parent t)^[j] k

/-- The chain of `k` holds its `j`th parents for `1 ≤ j ≤ d`. -/
theorem mem_ancestorChain {k x : UInt32} {d : Nat} :
    x ∈ ancestorChain t k d ↔ ∃ j, 1 ≤ j ∧ j ≤ d ∧ (__bch2_snapshot_parent t)^[j] k = x := by
  rw [ancestorChain, List.mem_map]
  -- `List.range' 1 d` is `1, ..., d`
  constructor
  · rintro ⟨j, hj, rfl⟩
    obtain ⟨i, hi, rfl⟩ := List.mem_range'.mp hj
    exact ⟨1 + 1 * i, by omega, by omega, rfl⟩
  · rintro ⟨j, h1, hd, rfl⟩
    exact ⟨j, List.mem_range'.mpr ⟨j - 1, by omega, by omega⟩, rfl⟩

section Chain

variable (hinv : SnapshotTableInv t) {k : UInt32} {s : snapshot_t} (hk : __snapshot_t t k = some s)
include hinv hk

/-- The chain of an entry has no id twice: parents are above their children. -/
theorem ancestorChain_nodup : (ancestorChain t k s.depth.toNat).Nodup := by
  refine List.Nodup.map_on (fun i hi j hj heq => ?_) List.nodup_range'
  obtain ⟨j', hj', rfl⟩ := List.mem_range'.mp hj
  exact iterate_injective hinv.zero_absent hinv.valid.parents_above
    (iterate_ne_zero_of_le hinv.zero_absent hinv.depths hk (by omega)) heq

/-- The ancestors of `k` other than itself are its chain. -/
theorem snapshotAncestor_iff_mem_ancestorChain {x : UInt32} (hx : x ≠ 0) (hxk : x ≠ k) :
    SnapshotAncestor t k x ↔ x ∈ ancestorChain t k s.depth.toNat := by
  rw [snapshotAncestor_iff_iterate_le hinv.zero_absent hinv.depths hk hx, mem_ancestorChain]
  constructor
  · rintro ⟨j, hj, rfl⟩
    refine ⟨j, Nat.pos_of_ne_zero fun h0 => hxk ?_, hj, rfl⟩
    rw [h0, Function.iterate_zero_apply]
  · rintro ⟨j, -, hj, rfl⟩
    exact ⟨j, hj, rfl⟩

/-- The ancestors of the parent of `k` are its chain. -/
theorem snapshotAncestor_parent_iff_mem {x : UInt32} (hx : x ≠ 0) :
    SnapshotAncestor t (__bch2_snapshot_parent t k) x ↔ x ∈ ancestorChain t k s.depth.toNat := by
  rw [SnapshotAncestor, isAncestor_iff_iterate (parent_zero hinv.zero_absent), mem_ancestorChain]
  -- an ancestor of the parent is the parent's `n`th parent, the `n + 1`th of `k`, within the depth
  constructor
  · rintro ⟨n, rfl⟩
    rw [← Function.iterate_succ_apply] at hx ⊢
    refine ⟨n + 1, by omega, Nat.not_lt.mp fun hlt => hx ?_, rfl⟩
    exact iterate_eq_null_of_le (parent_zero hinv.zero_absent) hlt (hinv.depths k s hk).2
  · rintro ⟨j, h1, -, rfl⟩
    refine ⟨j - 1, ?_⟩
    rw [← Function.iterate_succ_apply, Nat.succ_eq_add_one, Nat.sub_add_cancel h1]

end Chain

/-- Asked about a nonzero id, `bch2_snapshot_is_ancestor` answers whether it is an ancestor,
whether or not `check_snapshots` will run. -/
theorem bch2_snapshot_is_ancestor_spec (hv : SnapshotTableValid t) (check_snapshots_will_run : Bool)
    {id ancestor : UInt32} (ha : ancestor ≠ 0) {fuel : Nat} (hfuel : ancestor.toNat < fuel) :
    ∃ r, bch2_snapshot_is_ancestor check_snapshots_will_run t id ancestor fuel = some r ∧
      (r = true ↔ SnapshotAncestor t id ancestor) := by
  rw [bch2_snapshot_is_ancestor]
  by_cases hid : id = ancestor
  · rw [if_pos hid, hid]
    exact ⟨true, rfl, iff_of_true rfl (isAncestor_refl ancestor)⟩
  · rw [if_neg hid]
    -- both tests answer the question, the early one on the parents, the other on the skiplists and bitmaps
    cases check_snapshots_will_run with
    | true => exact __bch2_snapshot_is_ancestor_early_spec hv.parents_above id ancestor ha hfuel
    | false => exact __bch2_snapshot_is_ancestor_spec hv id ancestor ha hfuel

section Count

variable (hinv : SnapshotTableInv t)
  {deleted : List snapshot_interior_delete} (hD : DeleteListValid t deleted) {k : UInt32}
  {s : snapshot_t} (hk : __snapshot_t t k = some s) (hkD : interior_delete_has_id deleted k = 0)
include hinv hD hk hkD

/-- The test of `bch2_fix_child_of_deleted_snapshot` on one entry of the delete list: same
tree and ancestor, which is whether the entry is on the chain of `k`. -/
theorem deleted_ancestor_test (check_snapshots_will_run : Bool) {fuel : Nat}
    (hfuel : 2 ^ 32 ≤ fuel) (htrees : TreesConsistent t) (i : snapshot_interior_delete)
    (hi : i ∈ deleted) :
    (if bch2_snapshots_same_tree t k i.id then
        bch2_snapshot_is_ancestor check_snapshots_will_run t k i.id fuel
      else some false) = some (decide (i.id ∈ ancestorChain t k s.depth.toNat)) := by
  obtain ⟨si, hsi⟩ := hD.entries i hi
  have hi0 := ne_zero_of_entry hinv.zero_absent hsi
  -- `k` is not on the list, so not the entry
  have hik : i.id ≠ k := fun h => by
    rw [← h] at hkD
    exact (interior_delete_has_id_ne_zero_iff hD.live_child i.id).mpr
      (List.mem_map.mpr ⟨i, hi, rfl⟩) hkD
  have hiff := snapshotAncestor_iff_mem_ancestorChain hinv hk hi0 hik
  have hf : i.id.toNat < fuel := by
    have := i.id.toNat_lt
    omega
  obtain ⟨b, hb, hbiff⟩ : ∃ r, bch2_snapshot_is_ancestor check_snapshots_will_run t k i.id fuel =
      some r ∧ (r = true ↔ SnapshotAncestor t k i.id) :=
    bch2_snapshot_is_ancestor_spec hinv.valid check_snapshots_will_run hi0 hf
  have hb' : b = decide (i.id ∈ ancestorChain t k s.depth.toNat) := by
    rw [Bool.eq_iff_iff, hbiff, hiff, decide_eq_true_iff]
  have htree : bch2_snapshots_same_tree t k i.id = (s.tree == si.tree) := by
    rw [bch2_snapshots_same_tree, beq_false_of_ne (Ne.symm hik), Bool.false_or, hk, hsi]
    rfl
  by_cases hanc : SnapshotAncestor t k i.id
  · -- an ancestor shares the tree
    rw [htree, beq_iff_eq.mpr (htrees k i.id s si hk hsi hanc), if_pos rfl, hb, hb']
  · have hfalse : decide (i.id ∈ ancestorChain t k s.depth.toNat) = false :=
      decide_eq_false (fun h => hanc (hiff.mpr h))
    rw [hfalse]
    cases bch2_snapshots_same_tree t k i.id
    · rfl
    · rw [if_pos rfl, hb, hb', hfalse]

/-- `nr_deleted_ancestors` counts the entries of the delete list on the chain of `k`. -/
theorem nr_deleted_ancestors_spec (check_snapshots_will_run : Bool) {fuel : Nat}
    (hfuel : 2 ^ 32 ≤ fuel) (htrees : TreesConsistent t) :
    nr_deleted_ancestors check_snapshots_will_run t k deleted fuel =
      some (UInt32.ofNat (deleted.countP fun i => decide (i.id ∈ ancestorChain t k s.depth.toNat))) := by
  rw [nr_deleted_ancestors]
  -- the fold counts the entries the per-entry test answers `true` for
  have := foldlM_count _ _ deleted
    (deleted_ancestor_test hinv hD hk hkD check_snapshots_will_run hfuel htrees) 0
  rw [UInt32.zero_add] at this
  exact this

omit hkD in
/-- The deleted and the kept proper ancestors of `k` make up its depth: seen from the delete
list and from the chain, the deleted ones are the same ids, each once. -/
theorem countP_deleted_add_keptFrom :
    (deleted.countP fun i => decide (i.id ∈ ancestorChain t k s.depth.toNat)) +
      keptFrom t deleted k s.depth.toNat 1 = s.depth.toNat := by
  -- the chain's length is the depth; its ids split into kept and deleted
  have hlen := List.length_eq_countP_add_countP
    (fun x => interior_delete_has_id deleted x == 0) (l := ancestorChain t k s.depth.toNat)
  rw [ancestorChain, List.length_map, List.length_range', ← ancestorChain] at hlen
  have hkept : keptFrom t deleted k s.depth.toNat 1 = (ancestorChain t k s.depth.toNat).countP
      fun x => interior_delete_has_id deleted x == 0 := by
    rw [keptFrom, Nat.add_sub_cancel, ancestorChain, List.countP_map]
    rfl
  have hdel : ((ancestorChain t k s.depth.toNat).countP fun x =>
      decide ¬((interior_delete_has_id deleted x == 0) = true)) =
      (deleted.map (·.id)).countP (· ∈ ancestorChain t k s.depth.toNat) := by
    rw [← countP_mem_comm (ancestorChain_nodup hinv hk) hD.ids_nodup]
    refine List.countP_congr fun x _ => ?_
    rw [decide_eq_true_iff, beq_iff_eq, decide_eq_true_iff, ← ne_eq,
      interior_delete_has_id_ne_zero_iff hD.live_child]
  have hmap : (deleted.countP fun i => decide (i.id ∈ ancestorChain t k s.depth.toNat)) =
      (deleted.map (·.id)).countP (· ∈ ancestorChain t k s.depth.toNat) := by
    rw [List.countP_map]
    rfl
  rw [hmap, ← hdel, hkept]
  omega

end Count

/-! ### The skiplist of a surviving node -/

/-- An id a skiplist of a node under `parent` may hold once the deleted ids are spliced out: a
nonzero ancestor of `parent` not on the delete list. -/
def KeptAncestor (t : snapshot_table) (deleted : List snapshot_interior_delete)
    (parent x : UInt32) : Prop :=
  x ≠ 0 ∧ interior_delete_has_id deleted x = 0 ∧ SnapshotAncestor t parent x

/-- The skiplist of a node under `parent` once the deleted ids are spliced out: empty for a
node left with no ancestor, else sorted kept ancestors. -/
structure SkiplistAfterDelete (t : snapshot_table) (deleted : List snapshot_interior_delete)
    (parent : UInt32) (v : snapshot_t) : Prop where
  root : v.depth = 0 → ∀ i : Fin 3, v.skip.get i = 0
  kept : v.depth ≠ 0 → ∀ i : Fin 3, KeptAncestor t deleted parent (v.skip.get i)
  sorted : v.skip.get 0 ≤ v.skip.get 1 ∧ v.skip.get 1 ≤ v.skip.get 2

/-- The draws of `bch2_fix_child_of_deleted_snapshot` for a node left with `depth` ancestors:
values `get_random_u32_below(depth - 1)` can return, where it is called. -/
def FixDraws (depth : Nat) (r : Fin 3 → UInt32) : Prop :=
  1 < depth → ∀ j, get_random_u32_below_result (UInt32.ofNat (depth - 1)) (r j)

/-- Sorting keeps what holds of all three entries. -/
theorem bubble_sort_skip_forall {Q : UInt32 → Prop} {v : Vector UInt32 3} (h : ∀ i : Fin 3, Q (v.get i))
    (i : Fin 3) : Q ((bubble_sort_skip v).get i) := by
  obtain ⟨j, hj⟩ := (bubble_sort_skip_spec v).2 i
  rw [hj]
  exact h j

/-- A draw of `get_random_u32_below(n - 1)` for `1 < n` is below `n`. -/
theorem toNat_lt_of_random_result {n : Nat} (hn : 1 < n) (hlt : n < 2 ^ 32) {r : UInt32}
    (hr : get_random_u32_below_result (UInt32.ofNat (n - 1)) r) : r.toNat < n := by
  have hceil : (UInt32.ofNat (n - 1)).toNat = n - 1 := UInt32.toNat_ofNat_of_lt' (by
    rw [UInt32.size]
    omega)
  have := toNat_le_of_random_result hr
  omega

section Fix

variable (hinv : SnapshotTableInv t) {deleted : List snapshot_interior_delete}
  (hD : DeleteListValid t deleted) {k : UInt32} {s : snapshot_t} (hk : __snapshot_t t k = some s)
  {fuel : Nat} (hfuel : 2 ^ 32 ≤ fuel)
include hinv hD hk hfuel

/-- One entry of the loop over the skiplist, for a node left with some ancestors: a deleted
entry is replaced by a kept ancestor, and a kept one stays. -/
theorem fix_skip_entry_spec (hK : 0 < keptFrom t deleted k s.depth.toNat 1) {depth : UInt32}
    (hdepth : depth.toNat = keptFrom t deleted k s.depth.toNat 1) (i : Fin 3) {ρ : UInt32}
    (hρ : 1 < keptFrom t deleted k s.depth.toNat 1 →
      get_random_u32_below_result (UInt32.ofNat (keptFrom t deleted k s.depth.toNat 1 - 1)) ρ) :
    ∃ x, fix_skip_entry t deleted (__bch2_snapshot_parent t k) depth fuel (s.skip.get i) ρ = some x ∧
      KeptAncestor t deleted s.parent x := by
  -- the new depth is the number of kept ancestors; a draw below it picks one
  have hcount := countP_deleted_add_keptFrom hinv hD hk
  have hP : __bch2_snapshot_parent t k = s.parent := parent_of_some hk
  have hpar : s.parent ≠ 0 := by
    rw [← hP, ← Function.iterate_one (__bch2_snapshot_parent t)]
    exact iterate_ne_zero_of_le hinv.zero_absent hinv.depths hk (by omega)
  rw [fix_skip_entry]
  by_cases hdel : interior_delete_has_id deleted (s.skip.get i) ≠ 0
  · -- a deleted entry: the `n`th kept ancestor, `n` below the number kept
    rw [if_pos hdel]
    have hn : (if depth > 1 then ρ else 0).toNat < keptFrom t deleted k s.depth.toNat 1 := by
      by_cases h1 : depth > 1
      · rw [if_pos h1]
        have h1' := UInt32.lt_iff_toNat_lt.mp h1
        rw [UInt32.toNat_one] at h1'
        exact toNat_lt_of_random_result (by omega) (by have := s.depth.toNat_lt; omega)
          (hρ (by omega))
      · rw [if_neg h1, UInt32.toNat_zero]
        exact hK
    obtain ⟨m, h1, hmd, hkept, heq⟩ := bch2_snapshot_nth_parent_skip_spec hinv.zero_absent
      hinv.valid.parents_above (hinv.depths k s hk).1 hn hfuel
    have hm0 := iterate_ne_zero_of_le hinv.zero_absent hinv.depths hk hmd
    refine ⟨_, heq, hm0, hkept, ?_⟩
    rw [← hP, snapshotAncestor_parent_iff_mem hinv hk hm0]
    exact mem_ancestorChain.mpr ⟨m, h1, hmd, rfl⟩
  · -- a kept entry stays: it was an ancestor of the parent already
    rw [if_neg hdel]
    obtain ⟨hne, hanc⟩ := hinv.valid.skips_ancestors k s hk hpar i
    exact ⟨_, rfl, hne, not_not.mp hdel, hanc⟩

omit hfuel in
/-- A node none of whose ancestors is deleted keeps its skiplist. -/
theorem skiplistAfterDelete_of_none_deleted
    (hnone : (deleted.countP fun i => decide (i.id ∈ ancestorChain t k s.depth.toNat)) = 0) :
    SkiplistAfterDelete t deleted s.parent s := by
  have hP : __bch2_snapshot_parent t k = s.parent := parent_of_some hk
  refine ⟨fun h0 => ?_, fun h0 i => ?_, hinv.skips_sorted k s hk⟩
  · -- depth `0`: a root
    have hroot := (hinv.depths k s hk).2
    rw [h0, UInt32.toNat_zero, Function.iterate_one, hP] at hroot
    exact hinv.valid.root_skips_zero k s hk hroot
  · have hd : 1 ≤ s.depth.toNat := Nat.pos_of_ne_zero fun h =>
      h0 (UInt32.toNat_inj.mp (h.trans UInt32.toNat_zero.symm))
    have hpar : s.parent ≠ 0 := by
      rw [← hP, ← Function.iterate_one (__bch2_snapshot_parent t)]
      exact iterate_ne_zero_of_le hinv.zero_absent hinv.depths hk hd
    obtain ⟨hne, hanc⟩ := hinv.valid.skips_ancestors k s hk hpar i
    refine ⟨hne, Decidable.by_contra fun hdel => ?_, hanc⟩
    -- a deleted entry would be a deleted ancestor
    obtain ⟨j, hj, hjid⟩ := List.mem_map.mp
      ((interior_delete_has_id_ne_zero_iff hD.live_child _).mp hdel)
    have hmem : s.skip.get i ∈ ancestorChain t k s.depth.toNat := by
      rw [← snapshotAncestor_parent_iff_mem hinv hk hne, hP]
      exact hanc
    rw [List.countP_eq_zero] at hnone
    exact hnone j hj (decide_eq_true (hjid ▸ hmem))

/-- `bch2_fix_child_of_deleted_snapshot` on a node not itself deleted, for every draw: the new
depth is the number of its kept proper ancestors, only the depth and the skiplist change, and
the skiplist is one of the tree without the deleted ids. -/
theorem bch2_fix_child_of_deleted_snapshot_spec (htrees : TreesConsistent t)
    (hkD : interior_delete_has_id deleted k = 0) (check_snapshots_will_run : Bool)
    {r : Fin 3 → UInt32} (hr : FixDraws (keptFrom t deleted k s.depth.toNat 1) r) :
    ∃ s', bch2_fix_child_of_deleted_snapshot check_snapshots_will_run t k s deleted r fuel =
        some s' ∧ { s with depth := s'.depth, skip := s'.skip } = s' ∧
      s'.depth.toNat = keptFrom t deleted k s.depth.toNat 1 ∧
      SkiplistAfterDelete t deleted s.parent s' := by
  -- the depth less the deleted ancestors is the number kept, which does not wrap
  have hcount := countP_deleted_add_keptFrom hinv hD hk
  have hd32 := s.depth.toNat_lt
  rw [bch2_fix_child_of_deleted_snapshot, if_neg (not_not.mpr hkD),
    nr_deleted_ancestors_spec hinv hD hk hkD check_snapshots_will_run hfuel htrees,
    Option.bind_some]
  have hndel : (UInt32.ofNat (deleted.countP fun i => decide (i.id ∈ ancestorChain t k s.depth.toNat))).toNat =
      deleted.countP fun i => decide (i.id ∈ ancestorChain t k s.depth.toNat) :=
    UInt32.toNat_ofNat_of_lt' (by rw [UInt32.size]; omega)
  by_cases hn0 : (deleted.countP fun i => decide (i.id ∈ ancestorChain t k s.depth.toNat)) = 0
  · -- no deleted ancestor: the key is left alone
    have hz : UInt32.ofNat (deleted.countP fun i => decide (i.id ∈ ancestorChain t k s.depth.toNat)) = 0 :=
      UInt32.toNat_inj.mp (by rw [hndel, hn0, UInt32.toNat_zero])
    rw [if_pos hz]
    exact ⟨s, rfl, rfl, by omega, skiplistAfterDelete_of_none_deleted hinv hD hk hn0⟩
  · have hnz : UInt32.ofNat (deleted.countP fun i => decide (i.id ∈ ancestorChain t k s.depth.toNat)) ≠ 0 :=
      fun h => hn0 (by rw [← hndel, h, UInt32.toNat_zero])
    rw [if_neg hnz]
    have hdepth : (s.depth - UInt32.ofNat (deleted.countP fun i =>
        decide (i.id ∈ ancestorChain t k s.depth.toNat))).toNat = keptFrom t deleted k s.depth.toNat 1 := by
      rw [UInt32.toNat_sub_of_le _ _ (UInt32.le_iff_toNat_le.mpr (by omega)), hndel]
      omega
    by_cases hz0 : s.depth - UInt32.ofNat (deleted.countP fun i =>
        decide (i.id ∈ ancestorChain t k s.depth.toNat)) = 0
    · -- every ancestor deleted: the node becomes a root
      rw [if_pos hz0]
      exact ⟨_, rfl, rfl, hdepth, fun _ => zero_skip_get, fun h => absurd hz0 h, zero_skip_sorted⟩
    · rw [if_neg hz0]
      have hK : 0 < keptFrom t deleted k s.depth.toNat 1 := by
        rw [← hdepth]
        exact Nat.pos_of_ne_zero fun h => hz0 (UInt32.toNat_inj.mp (h.trans UInt32.toNat_zero.symm))
      obtain ⟨a, ha, hga⟩ := fix_skip_entry_spec hinv hD hk hfuel hK hdepth 0 fun h => hr h 0
      obtain ⟨b, hb, hgb⟩ := fix_skip_entry_spec hinv hD hk hfuel hK hdepth 1 fun h => hr h 1
      obtain ⟨c, hc, hgc⟩ := fix_skip_entry_spec hinv hD hk hfuel hK hdepth 2 fun h => hr h 2
      have hall : ∀ i : Fin 3, KeptAncestor t deleted s.parent ((Vector.ofFn ![a, b, c]).get i) := by
        intro i
        rw [get_ofFn]
        fin_cases i
        exacts [hga, hgb, hgc]
      dsimp only
      rw [ha, Option.bind_some, hb, Option.bind_some, hc, Option.map_some]
      exact ⟨_, rfl, rfl, hdepth, fun h => absurd h hz0, fun _ => bubble_sort_skip_forall hall,
        (bubble_sort_skip_spec _).1⟩

end Fix

/-! ### Both writers together -/

/-- From a table with valid, sorted skiplists and depths that count the ancestors, creating
children with `create_snapids` keeps all of it, and `bch2_fix_child_of_deleted_snapshot`
gives a surviving node a sorted skiplist of surviving ancestors (zeros when none survives),
for every outcome of the random draws. -/
theorem snapshot_skiplists_stay_valid :
    (∀ (t : snapshot_table) (parent tree first : UInt32) (rs : List (Fin 3 → UInt32))
        (fuel : Nat), SnapshotTableInv t → ZeroBelow t first → (parent = 0 ∨ first ≤ parent) →
        (∀ r ∈ rs, CreateDraws t parent r) → rs.length < first.toNat → 129 < fuel →
        ∃ t', create_snapids t parent tree first rs fuel = some t' ∧ SnapshotTableInv t') ∧
    (∀ (t : snapshot_table) (deleted : List snapshot_interior_delete) (k : UInt32)
        (s : snapshot_t) (r : Fin 3 → UInt32) (check_snapshots_will_run : Bool) (fuel : Nat),
        SnapshotTableInv t → TreesConsistent t → DeleteListValid t deleted →
        __snapshot_t t k = some s → interior_delete_has_id deleted k = 0 →
        FixDraws (keptFrom t deleted k s.depth.toNat 1) r → 2 ^ 32 ≤ fuel →
        ∃ s', bch2_fix_child_of_deleted_snapshot check_snapshots_will_run t k s deleted r fuel =
            some s' ∧ { s with depth := s'.depth, skip := s'.skip } = s' ∧
          s'.depth.toNat = keptFrom t deleted k s.depth.toNat 1 ∧
          SkiplistAfterDelete t deleted s.parent s') :=
  -- the two halves are the specs of the two writers
  ⟨fun _ _ _ _ rs _ hinv hbelow hparent hdraws hlen hfuel =>
      create_snapids_spec hfuel rs _ _ hinv hbelow hparent hdraws hlen,
    fun _ _ _ _ _ check _ hinv htrees hD hk hkD hr hfuel =>
      bch2_fix_child_of_deleted_snapshot_spec hinv hD hk hfuel htrees hkD check hr⟩

/-- The root `U32_MAX` of a new tree, as `create_snapids` makes it. -/
def root_entry : snapshot_t :=
  { state := .SNAPSHOT_ID_live, parent := 0, skip := Vector.replicate 3 0, depth := 0, tree := 1,
    is_ancestor := 0 }

/-- A table whose one entry is the root `U32_MAX`. -/
def one_root_table : snapshot_table := ⟨1, fun _ => root_entry⟩

/-- The one entry of `one_root_table` is the root `U32_MAX`. -/
theorem one_root_table_entry {id : UInt32} {s : snapshot_t}
    (h : __snapshot_t one_root_table id = some s) : id = U32_MAX ∧ s = root_entry := by
  rw [__snapshot_t] at h
  -- only slot `0`, the id `U32_MAX`, is in the table
  split at h
  · rename_i hlt
    have hid := id.toNat_lt
    rw [toNat_U32_MAX_sub] at hlt
    refine ⟨UInt32.toNat_inj.mp ?_, (Option.some.inj h).symm⟩
    show id.toNat = 4294967295
    change _ < 1 at hlt
    omega
  · cases h

/-- The root has no parent. -/
theorem one_root_table_parent : __bch2_snapshot_parent one_root_table U32_MAX = 0 := rfl

/-- `one_root_table` has no entry for `0`. -/
theorem one_root_table_zero_absent : ZeroAbsent one_root_table := by
  show __snapshot_t one_root_table 0 = none
  decide

/-- `one_root_table` keeps the invariants. -/
theorem snapshotTableInv_one_root_table : SnapshotTableInv one_root_table := by
  refine ⟨⟨fun id s h => ?_, fun id s h hp => ?_, fun id s h _ => ?_, fun id s h => ?_⟩,
    fun id s h => ?_, fun id s h => ?_, one_root_table_zero_absent⟩ <;>
    obtain ⟨rfl, rfl⟩ := one_root_table_entry h
  -- each invariant of the one root: no parent, an all-zero skiplist, depth `0`
  · exact Or.inl rfl
  · exact absurd rfl hp
  · exact zero_skip_get
  · exact ⟨1, rfl⟩
  · exact zero_skip_sorted
  · exact ⟨by decide, one_root_table_parent⟩

instance (ceil r : UInt32) : Decidable (get_random_u32_below_result ceil r) := by
  unfold get_random_u32_below_result
  infer_instance

instance (depth : Nat) (r : Fin 3 → UInt32) : Decidable (FixDraws depth r) := by
  unfold FixDraws
  infer_instance

/-- A table that holds no id below `first`, its entries being those from `first` up. -/
theorem zeroBelow_of_nr_le {first : UInt32} (hnr : t.nr ≤ (U32_MAX - first).toNat + 1) :
    ZeroBelow t first := by
  intro x s h hx
  rw [__snapshot_t] at h
  -- an id below `first` has its slot past the table
  split at h
  · rename_i hlt
    have hf := first.toNat_lt
    rw [UInt32.lt_iff_toNat_lt] at hx
    rw [toNat_U32_MAX_sub] at hlt hnr
    omega
  · cases h

/-- In a table all of whose slots are in one tree, every entry is in it. -/
theorem tree_eq_of_entry {tr : UInt32} (h : ∀ i < t.nr, (t.s i).tree = tr) {id : UInt32}
    {s : snapshot_t} (hs : __snapshot_t t id = some s) : s.tree = tr := by
  rw [__snapshot_t] at hs
  split at hs
  · rename_i hlt
    rw [← Option.some.inj hs]
    exact h _ hlt
  · cases hs

/-- A table all of whose entries are in one tree. -/
theorem treesConsistent_of_tree_eq {tr : UInt32} (h : ∀ i < t.nr, (t.s i).tree = tr) :
    TreesConsistent t := fun _ _ _ _ hs ha _ =>
  (tree_eq_of_entry h hs).trans (tree_eq_of_entry h ha).symm

/-- One child created under `parent`, the lowest id in use, with the draws `r`; the table as
it was should that fail. -/
def create_child (t : snapshot_table) (parent : UInt32) (r : Fin 3 → UInt32) : snapshot_table :=
  (create_snapids t parent 1 parent [r] 130).getD t

/-- Creating one child under the lowest id in use, with draws within the parent's depth, keeps the
invariants. -/
theorem snapshotTableInv_create_child {parent : UInt32} {r : Fin 3 → UInt32}
    (hinv : SnapshotTableInv t) (hnr : t.nr ≤ (U32_MAX - parent).toNat + 1)
    (hp : (__snapshot_t t parent).isSome)
    (hr : ∀ j, get_random_u32_below_result ((__snapshot_t t parent).getD snapshot_t_zero).depth (r j))
    (h1 : 1 < parent.toNat) : SnapshotTableInv (create_child t parent r) := by
  -- one step of `create_snapids_spec`, under the parent, which has an entry
  obtain ⟨e, he⟩ := Option.isSome_iff_exists.mp hp
  rw [he, Option.getD_some] at hr
  obtain ⟨t', ht', hinv'⟩ := create_snapids_spec (by decide : 129 < 130) [r] t parent hinv
    (zeroBelow_of_nr_le hnr) (Or.inr (UInt32.le_refl _))
    (fun r' hr' => by rw [List.mem_singleton.mp hr']; exact Or.inr ⟨e, he, hr⟩)
    (by rw [List.length_singleton]; exact h1)
  rw [create_child, ht', Option.getD_some]
  exact hinv'

/-- The chain `U32_MAX`, `U32_MAX - 1`, `U32_MAX - 2`, `U32_MAX - 3` that `create_snapids`
grows from the one root, a child at a time; the last draws its skiplist from both ancestors
above its parent. -/
def chain_table : snapshot_table :=
  create_child (create_child (create_child one_root_table U32_MAX fun _ => 0) (U32_MAX - 1)
    fun _ => 0) (U32_MAX - 2) ![0, 1, 1]

/-- `chain_table` keeps the invariants: each of its three children was created within them. -/
theorem snapshotTableInv_chain_table : SnapshotTableInv chain_table :=
  snapshotTableInv_create_child
    (snapshotTableInv_create_child
      (snapshotTableInv_create_child snapshotTableInv_one_root_table
        (by decide) (by decide) (by decide) (by decide))
      (by decide +kernel) (by decide +kernel) (by decide +kernel) (by decide))
    (by decide +kernel) (by decide +kernel) (by decide +kernel) (by decide)

/-- Two children of `U32_MAX - 3`, the end of the chain, with the skiplists they draw. -/
def family_table : snapshot_table :=
  (create_snapids chain_table (U32_MAX - 3) 1 (U32_MAX - 3) [![0, 1, 2], ![2, 2, 1]] 130).getD
    chain_table

/-- The entry of the first of them, `U32_MAX - 4`, whose skiplist holds `U32_MAX - 2`. -/
def family_child : snapshot_t := (__snapshot_t family_table (U32_MAX - 4)).getD snapshot_t_zero

/-- Children of `U32_MAX - 3` that draw their skiplists from the three ancestors above it; and
the fix of the first once `U32_MAX - 2` is deleted, which draws the kept ancestor
`U32_MAX - 1` in place of the deleted one. -/
theorem snapshot_skiplists_stay_valid_chain :
    (∃ t', create_snapids chain_table (U32_MAX - 3) 1 (U32_MAX - 3) [![0, 1, 2], ![2, 2, 1]] 130 =
        some t' ∧ SnapshotTableInv t') ∧
      ∃ s', bch2_fix_child_of_deleted_snapshot false family_table (U32_MAX - 4) family_child
          [⟨U32_MAX - 2, U32_MAX - 3⟩] ![0, 1, 0] (2 ^ 32) = some s' ∧
        { family_child with depth := s'.depth, skip := s'.skip } = s' ∧
        s'.depth.toNat = keptFrom family_table [⟨U32_MAX - 2, U32_MAX - 3⟩] (U32_MAX - 4)
          family_child.depth.toNat 1 ∧
        SkiplistAfterDelete family_table [⟨U32_MAX - 2, U32_MAX - 3⟩] family_child.parent s' := by
  have hdraws : ∀ r ∈ [![0, 1, 2], ![2, 2, 1]], CreateDraws chain_table (U32_MAX - 3) r := by
    have he : __snapshot_t chain_table (U32_MAX - 3) =
        some ((__snapshot_t chain_table (U32_MAX - 3)).getD snapshot_t_zero) := by
      decide +kernel
    intro r hr
    simp only [List.mem_cons, List.not_mem_nil, or_false] at hr
    rcases hr with rfl | rfl
    · exact Or.inr ⟨_, he, by decide +kernel⟩
    · exact Or.inr ⟨_, he, by decide +kernel⟩
  have hcreate := snapshot_skiplists_stay_valid.1 chain_table (U32_MAX - 3) 1 (U32_MAX - 3)
    [![0, 1, 2], ![2, 2, 1]] 130 snapshotTableInv_chain_table (zeroBelow_of_nr_le (by decide +kernel))
    (Or.inr (UInt32.le_refl _)) hdraws (by decide) (by decide)
  -- the table the creation leaves is `family_table`
  have hfamily : SnapshotTableInv family_table := by
    obtain ⟨t', ht', hinv'⟩ := hcreate
    rw [family_table, ht', Option.getD_some]
    exact hinv'
  refine ⟨hcreate, snapshot_skiplists_stay_valid.2 family_table [⟨U32_MAX - 2, U32_MAX - 3⟩]
    (U32_MAX - 4) family_child ![0, 1, 0] false (2 ^ 32) hfamily
    (treesConsistent_of_tree_eq
      (by decide +kernel : ∀ i < family_table.nr, (family_table.s i).tree = 1)) ⟨by decide, by decide, ?_⟩
    (by decide +kernel) (by decide) (by decide +kernel) (Nat.le_refl _)⟩
  intro i hi
  rw [List.mem_singleton.mp hi]
  exact Option.isSome_iff_exists.mp (by decide +kernel)

/-- The child `U32_MAX - 1` of the root `U32_MAX`, with a valid skiplist and bitmap but a depth
of `5` where it has one ancestor. -/
def depth_skew_child : snapshot_t :=
  { state := .SNAPSHOT_ID_live, parent := U32_MAX, skip := Vector.replicate 3 U32_MAX,
    depth := 5, tree := 1, is_ancestor := BitVec.twoPow 128 0 }

/-- The root `U32_MAX` (entry 0) and its child `U32_MAX - 1` (entry 1). -/
def depth_skew_table : snapshot_table where
  nr := 2
  s i := if i = 1 then depth_skew_child else root_entry

/-- The slots of `depth_skew_table`. -/
theorem depth_skew_table_s (i : Nat) :
    depth_skew_table.s i = if i = 1 then depth_skew_child else root_entry := rfl

/-- The two entries of `depth_skew_table`: the root and its child. -/
theorem depth_skew_table_entry {id : UInt32} {s : snapshot_t}
    (h : __snapshot_t depth_skew_table id = some s) :
    id = U32_MAX ∧ s = root_entry ∨ id = U32_MAX - 1 ∧ s = depth_skew_child := by
  rw [__snapshot_t] at h
  split at h
  · rename_i hlt
    have hid := id.toNat_lt
    rw [← Option.some.inj h, depth_skew_table_s]
    change (U32_MAX - id).toNat < 2 at hlt
    -- slot `1` is the child `U32_MAX - 1`, slot `0` the root `U32_MAX`
    by_cases h1 : (U32_MAX - id).toNat = 1
    · rw [if_pos h1]
      refine Or.inr ⟨UInt32.toNat_inj.mp ?_, rfl⟩
      rw [toNat_U32_MAX_sub] at h1
      show id.toNat = 4294967294
      omega
    · rw [if_neg h1]
      refine Or.inl ⟨UInt32.toNat_inj.mp ?_, rfl⟩
      rw [toNat_U32_MAX_sub] at h1 hlt
      show id.toNat = 4294967295
      omega
  · cases h

/-- `depth_skew_table` passes every check of the fast ancestor test: only its child's depth is
wrong. -/
theorem depth_skew_table_valid : SnapshotTableValid depth_skew_table := by
  refine ⟨fun id s h => ?_, fun id s h hp => ?_, fun id s h hp => ?_, fun id s h => ?_⟩ <;>
    rcases depth_skew_table_entry h with ⟨rfl, rfl⟩ | ⟨rfl, rfl⟩
  -- each check, for the root and for the child
  · exact Or.inl rfl
  · exact Or.inr (by decide)
  · exact absurd rfl hp
  · -- the child's skiplist is its parent three times
    intro i
    have hi : depth_skew_child.skip.get i = U32_MAX := by
      revert i
      decide
    rw [hi]
    exact ⟨by decide, isAncestor_refl _⟩
  · exact zero_skip_get
  · exact absurd hp (by decide)
  · exact ⟨1, rfl⟩
  · exact ⟨3, by decide +kernel⟩

/-- Depths that do not count the ancestors break `create_snapids`: every other invariant holds
and the draws are below the parent's depth, yet the child of `U32_MAX - 1` draws its second
ancestor, past the root, and gets `0` in its skiplist. -/
theorem create_snapid_zero_skip :
    SnapshotTableValid depth_skew_table ∧ SkipsSorted depth_skew_table ∧
      ZeroAbsent depth_skew_table ∧ ZeroBelow depth_skew_table (U32_MAX - 1) ∧
      CreateDraws depth_skew_table (U32_MAX - 1) (fun _ => 2) ∧
      ∃ t', create_snapids depth_skew_table (U32_MAX - 1) 1 (U32_MAX - 1) [fun _ => 2] 130 =
        some t' ∧ ¬ SkipsAncestors t' := by
  have hrun : ((create_snapids depth_skew_table (U32_MAX - 1) 1 (U32_MAX - 1) [fun _ => 2]
      130).bind fun t' => __snapshot_t t' (U32_MAX - 2)).map (fun e => (e.parent, e.skip.get 0)) =
      some (U32_MAX - 1, 0) := by
    decide +kernel
  -- the run is evaluated once; the rest are the invariants the table keeps
  have hzero : ZeroAbsent depth_skew_table := by
    show __snapshot_t depth_skew_table 0 = none
    decide
  have hdraw : get_random_u32_below_result depth_skew_child.depth 2 := by
    rw [get_random_u32_below_result, if_neg (by decide)]
    decide
  refine ⟨depth_skew_table_valid, fun id s h => ?_, hzero, fun id s h hlt => ?_,
    Or.inr ⟨depth_skew_child, by decide, fun _ => hdraw⟩, ?_⟩
  · rcases depth_skew_table_entry h with ⟨-, rfl⟩ | ⟨-, rfl⟩
    · exact zero_skip_sorted
    · decide
  · rcases depth_skew_table_entry h with ⟨rfl, -⟩ | ⟨rfl, -⟩ <;> exact absurd hlt (by decide)
  · -- the new entry has a parent and a zero skiplist entry
    cases hc : create_snapids depth_skew_table (U32_MAX - 1) 1 (U32_MAX - 1) [fun _ => 2] 130 with
    | none => rw [hc] at hrun; cases hrun
    | some t' =>
        refine ⟨t', rfl, fun hskips => ?_⟩
        rw [hc, Option.bind_some] at hrun
        cases he : __snapshot_t t' (U32_MAX - 2) with
        | none => rw [he] at hrun; cases hrun
        | some e =>
            rw [he, Option.map_some, Option.some.injEq, Prod.mk.injEq] at hrun
            have hpar : e.parent ≠ 0 := by rw [hrun.1]; decide
            exact (hskips _ e he hpar 0).1 hrun.2

end Bcachefs.Proofs.Snapshots
