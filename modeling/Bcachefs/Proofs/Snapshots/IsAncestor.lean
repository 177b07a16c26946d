import Bcachefs.Snapshots.Snapshot
import Bcachefs.Forest.Chain

/-!
# `Bcachefs.Proofs.Snapshots.IsAncestor`: the fast ancestor test agrees with the walk

The parent pointers of a snapshot table form a forest (`Forest.Chain`) with null node `0`,
ranked by the ids themselves once every parent is `0` or above its child. Over such a
table:

* `__bch2_snapshot_is_ancestor_early_spec`: the parent walk stops and answers whether
  `ancestor` lies on the way up from `id`;
* `bch2_mark_snapshot_is_ancestor_spec`: the bitmap `bch2_mark_snapshot` computes has bit
  `a - id - 1` set exactly for the ancestors `a` of `id` within 128 ids;
* `__bch2_snapshot_is_ancestor_spec`: when moreover every skiplist entry of a node with a
  parent is a nonzero ancestor and roots have empty skiplists (`SnapshotTableValid`), the
  skiplist walk stops within 128 ids below `ancestor` (`skiplist_walk_spec`), so the bitmap
  is read within its 128 bits, and gives the same answer;
* `__bch2_snapshot_is_ancestor_eq_early`: hence the two tests agree.

Roots need their empty skiplists: `get_ancestor_below` jumps to any skiplist entry not above
the target, and a root has no ancestor to jump to (`is_ancestor_ne_early_root_skip`).
-/

set_option autoImplicit false
set_option linter.style.nameCheck false

namespace Bcachefs.Proofs.Snapshots

open Bcachefs.Loop Bcachefs.Forest

variable {t : snapshot_table}

/-! ### Parents -/

/-- The parent of an id the table holds is its entry's parent. -/
theorem parent_of_some {id : UInt32} {s : snapshot_t} (h : __snapshot_t t id = some s) :
    __bch2_snapshot_parent t id = s.parent := by
  rw [__bch2_snapshot_parent, h, Option.elim_some]

/-- An id the table does not hold has parent `0`, as `__bch2_snapshot_parent` returns for a missing
entry. -/
theorem parent_of_none {id : UInt32} (h : __snapshot_t t id = none) :
    __bch2_snapshot_parent t id = 0 := by
  rw [__bch2_snapshot_parent, h, Option.elim_none]

/-- `ancestor` is `id` or lies on the parent pointers up from `id`. -/
def SnapshotAncestor (t : snapshot_table) (id ancestor : UInt32) : Prop :=
  IsAncestor (__bch2_snapshot_parent t) 0 id ancestor

/-- Every parent is `0` or above its child, what `bch2_snapshot_validate` checks of each
key. -/
def ParentsAbove (t : snapshot_table) : Prop :=
  ∀ id s, __snapshot_t t id = some s → s.parent = 0 ∨ id < s.parent

/-- Every skiplist entry of a node with a parent is a nonzero ancestor of the parent. -/
def SkipsAncestors (t : snapshot_table) : Prop :=
  ∀ id s, __snapshot_t t id = some s → s.parent ≠ 0 →
    ∀ i : Fin 3, s.skip.get i ≠ 0 ∧ SnapshotAncestor t s.parent (s.skip.get i)

/-- Roots have empty skiplists, as `create_snapids` makes them. -/
def RootSkipsZero (t : snapshot_table) : Prop :=
  ∀ id s, __snapshot_t t id = some s → s.parent = 0 → ∀ i : Fin 3, s.skip.get i = 0

/-- Each entry's bitmap is the one `bch2_mark_snapshot` computes from the parents. -/
def BitmapsMarked (t : snapshot_table) : Prop :=
  ∀ id s, __snapshot_t t id = some s → ∃ fuel, bch2_mark_snapshot_is_ancestor t id fuel = some s.is_ancestor

/-- Each skiplist is sorted ascending, what `bch2_snapshot_validate` checks; the walk does not
rely on it. -/
def SkipsSorted (t : snapshot_table) : Prop :=
  ∀ id s, __snapshot_t t id = some s → s.skip.get 0 ≤ s.skip.get 1 ∧ s.skip.get 1 ≤ s.skip.get 2

/-- The table invariants the skiplist walk relies on. -/
structure SnapshotTableValid (t : snapshot_table) : Prop where
  parents_above : ParentsAbove t
  skips_ancestors : SkipsAncestors t
  root_skips_zero : RootSkipsZero t
  bitmaps_marked : BitmapsMarked t

/-- Snapshot ids are ranked by their value as naturals, and no two share one. -/
theorem toNat_injective : Function.Injective UInt32.toNat := fun _ _ h => UInt32.toNat_inj.mp h

/-- A walk up the ids that stops at `0` or at `bound`: when each step goes to `0` or above,
fuel above `bound` is enough. -/
theorem whileLoop_up_isSome (body : UInt32 → UInt32) (hbody : ∀ y, y ≠ 0 → body y = 0 ∨ y < body y)
    (bound y : UInt32) {fuel : Nat} (hfuel : bound.toNat < fuel) :
    ∃ r, whileLoop (fun y => y != 0 && y < bound) body fuel y = some r := by
  -- the distance from `bound`, or `0` once the walk is at `0`
  refine @whileLoop_isSome_of_measure UInt32 (fun y => y != 0 && y < bound) body (fun _ => True)
    (fun y => if y = 0 then 0 else bound.toNat - y.toNat) (fun y _ hc => ⟨trivial, ?_⟩) fuel y
    trivial (by split <;> omega)
  simp only [Bool.and_eq_true, bne_iff_ne, ne_eq, decide_eq_true_eq] at hc
  have hlt := UInt32.lt_iff_toNat_lt.mp hc.2
  rcases hbody y hc.1 with h0 | hup
  · rw [h0, if_pos rfl, if_neg hc.1]
    omega
  · have hup' := UInt32.lt_iff_toNat_lt.mp hup
    rw [if_neg hc.1, if_neg (fun h => by rw [h, UInt32.toNat_zero] at hup'; omega)]
    omega

section Parents

variable (hp : ParentsAbove t)
include hp

/-- Every parent is `0` or above its child, for held and missing ids alike. -/
theorem parent_eq_zero_or_lt (id : UInt32) :
    __bch2_snapshot_parent t id = 0 ∨ id < __bch2_snapshot_parent t id := by
  cases h : __snapshot_t t id with
  | none => exact Or.inl (parent_of_none h)
  | some s =>
      rw [parent_of_some h]
      exact hp id s h

/-- With parents above their children the forest is ranked by the ids. -/
theorem rankIncreasing : RankIncreasing (__bch2_snapshot_parent t) 0 UInt32.toNat := fun id _ =>
  (parent_eq_zero_or_lt hp id).imp_right UInt32.lt_iff_toNat_lt.mp

/-- An ancestor other than `0` is at least the node. -/
theorem le_of_snapshotAncestor {id a : UInt32} (h : SnapshotAncestor t id a) (ha : a ≠ 0) :
    id.toNat ≤ a.toNat :=
  rank_le_of_isAncestor (rankIncreasing hp) h ha

/-- Where a walk up stops, at `0` or at the target or above it, the target lies ahead exactly
when the walk is on it. -/
theorem snapshotAncestor_iff_eq {id a : UInt32} (ha : a ≠ 0) (hexit : id = 0 ∨ a ≤ id) :
    SnapshotAncestor t id a ↔ id = a :=
  isAncestor_iff_eq_of_exit (rankIncreasing hp) toNat_injective ha
    (hexit.imp_right UInt32.le_iff_toNat_le.mp)

/-- The parent walk of `__bch2_snapshot_is_ancestor_early` stops within `ancestor` steps and
answers whether `ancestor` is an ancestor of `id`. -/
theorem __bch2_snapshot_is_ancestor_early_spec (id ancestor : UInt32) (ha : ancestor ≠ 0)
    {fuel : Nat} (hfuel : ancestor.toNat < fuel) :
    ∃ r, __bch2_snapshot_is_ancestor_early t id ancestor fuel = some r ∧
      (r = true ↔ SnapshotAncestor t id ancestor) := by
  obtain ⟨y, hy⟩ := whileLoop_up_isSome _ (fun y _ => parent_eq_zero_or_lt hp y) ancestor id hfuel
  -- the walk keeps whether `ancestor` lies ahead
  obtain ⟨hinv, hexit⟩ := whileLoop_inv
    (fun y => SnapshotAncestor t id ancestor ↔ SnapshotAncestor t y ancestor)
    (fun y hI hc => by
      simp only [Bool.and_eq_true, bne_iff_ne, ne_eq, decide_eq_true_eq] at hc
      rw [hI]
      exact isAncestor_iff_parent hc.1 (fun h => by rw [h] at hc; exact UInt32.lt_irrefl _ hc.2))
    Iff.rfl hy
  refine ⟨y == ancestor, by rw [__bch2_snapshot_is_ancestor_early, hy]; rfl, ?_⟩
  rw [hinv, beq_iff_eq, snapshotAncestor_iff_eq hp ha]
  simp only [Bool.and_eq_false_iff, bne_eq_false_iff_eq, decide_eq_false_iff_not, UInt32.not_lt] at hexit
  exact hexit

end Parents

/-! ### The bitmap -/

/-- Below `p` the bit index `p - id - 1` does not wrap. -/
theorem toNat_sub_sub_one {p id : UInt32} (h : id < p) :
    (p - id - 1).toNat = p.toNat - id.toNat - 1 := by
  have h' := UInt32.lt_iff_toNat_lt.mp h
  have hsub : (p - id).toNat = p.toNat - id.toNat := UInt32.toNat_sub_of_le _ _ (UInt32.le_of_lt h)
  rw [UInt32.toNat_sub_of_le _ _ (UInt32.le_iff_toNat_le.mpr (by rw [hsub, UInt32.toNat_one]; omega)),
    hsub, UInt32.toNat_one]

/-- The bitmap covers the 128 ids above a node. -/
theorem toNat_IS_ANCESTOR_BITMAP : IS_ANCESTOR_BITMAP.toNat = 128 := rfl

/-- What the marking walk of `bch2_mark_snapshot` knows at the next parent `q`, with the
bitmap `bm` so far: `q` is `0` or an ancestor above `id`, and the bits set are those of the
ancestors passed before `q`. -/
def MarkInv (t : snapshot_table) (id q : UInt32) (bm : BitVec 128) : Prop :=
  (q = 0 ∨ SnapshotAncestor t id q ∧ id < q) ∧
    ∀ k < 128, (bm.getLsbD k = true ↔
      ∃ a, Below (__bch2_snapshot_parent t) 0 UInt32.toNat id q a ∧ (a - id - 1).toNat = k)

/-- An ancestor strictly between a node and the walk's position is not `0`. -/
theorem ne_zero_of_below {id q a : UInt32}
    (h : Below (__bch2_snapshot_parent t) 0 UInt32.toNat id q a) : a ≠ 0 := by
  rintro rfl
  exact Nat.not_lt_zero _ h.2.1

section Mark

variable (hp : ParentsAbove t) {id : UInt32} (hid : id ≠ 0)
include hp hid

/-- The marking walk starts at the parent of `id` with an empty bitmap. -/
theorem markInv_init : MarkInv t id (__bch2_snapshot_parent t id) 0 := by
  refine ⟨(parent_eq_zero_or_lt hp id).imp_right fun hlt => ⟨isAncestor_parent hid, hlt⟩, ?_⟩
  intro k _
  rw [show (0 : BitVec 128).getLsbD k = false from BitVec.getLsbD_zero, Bool.false_eq_true,
    false_iff]
  rintro ⟨a, ha, -⟩
  exact not_below_parent (rankIncreasing hp) (ne_zero_of_below ha) ha

omit hid in
/-- One step of the marking walk: record the parent `q` and move on to its parent. -/
theorem markInv_step {q : UInt32} {bm : BitVec 128} (hI : MarkInv t id q bm)
    (hc : (q != 0 && q - id - 1 < IS_ANCESTOR_BITMAP) = true) :
    MarkInv t id (__bch2_snapshot_parent t q) (bm ||| BitVec.twoPow 128 (q - id - 1).toNat) := by
  simp only [Bool.and_eq_true, bne_iff_ne, ne_eq, decide_eq_true_eq] at hc
  obtain ⟨hq0, hwin⟩ := hc
  obtain ⟨hanc, hlt⟩ := hI.1.resolve_left hq0
  have hwin' : (q - id - 1).toNat < 128 := UInt32.lt_iff_toNat_lt.mp hwin
  have hlt' := UInt32.lt_iff_toNat_lt.mp hlt
  -- the next position is `0` or the parent of `q`, still an ancestor above `id`
  refine ⟨(parent_eq_zero_or_lt hp q).imp_right fun hq =>
    ⟨hanc.trans (isAncestor_parent hq0), UInt32.lt_trans hlt hq⟩, fun k hk => ?_⟩
  -- the bits now set are the old ones and the bit of `q`, which has just been passed
  rw [BitVec.getLsbD_or, BitVec.getLsbD_twoPow, Bool.or_eq_true, hI.2 k hk]
  simp only [Bool.and_eq_true, decide_eq_true_eq]
  constructor
  · rintro (⟨a, ha, rfl⟩ | ⟨-, rfl⟩)
    · exact ⟨a, (below_parent_iff (rankIncreasing hp) toNat_injective hq0
        (ne_zero_of_below ha) hanc hlt').mp (Or.inl ha), rfl⟩
    · exact ⟨q, (below_parent_iff (rankIncreasing hp) toNat_injective hq0 hq0 hanc hlt').mp
        (Or.inr rfl), rfl⟩
  -- an ancestor below the parent of `q` is below `q` or is `q` itself
  · rintro ⟨a, ha, rfl⟩
    rcases (below_parent_iff (rankIncreasing hp) toNat_injective hq0 (ne_zero_of_below ha)
      hanc hlt').mpr ha with ha' | rfl
    · exact Or.inl ⟨a, ha', rfl⟩
    · exact Or.inr ⟨hwin', rfl⟩

/-- The bitmap `bch2_mark_snapshot` computes has bit `a - id - 1` set exactly for the
ancestors `a` of `id` within 128 ids above it. -/
theorem bch2_mark_snapshot_is_ancestor_spec {fuel : Nat} {bm : BitVec 128}
    (h : bch2_mark_snapshot_is_ancestor t id fuel = some bm) {a : UInt32} (hlt : id < a)
    (hwin : a.toNat ≤ id.toNat + 128) :
    bm.getLsbD (a - id - 1).toNat = true ↔ SnapshotAncestor t id a := by
  obtain ⟨⟨q, bm'⟩, hloop, rfl⟩ := Option.map_eq_some_iff.mp h
  obtain ⟨⟨hq, hbits⟩, hexit⟩ := whileLoop_inv (fun s : UInt32 × BitVec 128 => MarkInv t id s.1 s.2)
    (fun s hI hc => markInv_step hp hI hc) (markInv_init hp hid) hloop
  dsimp only at hq hbits hexit
  have hlt' := UInt32.lt_iff_toNat_lt.mp hlt
  have hk : (a - id - 1).toNat = a.toNat - id.toNat - 1 := toNat_sub_sub_one hlt
  rw [hbits _ (by omega)]
  constructor
  · rintro ⟨a', ha', heq⟩
    -- two ancestors above `id` with the same bit are the same
    have ha'lt : id.toNat < a'.toNat := ha'.2.1
    rw [toNat_sub_sub_one (UInt32.lt_iff_toNat_lt.mpr ha'lt), hk] at heq
    rw [← toNat_injective (show a'.toNat = a.toNat by omega)]
    exact ha'.1
  · intro hanc
    refine ⟨a, ⟨hanc, hlt', ?_⟩, rfl⟩
    -- the walk stopped at `0` or at an ancestor past the window, so above `a`
    rcases hq with h0 | ⟨-, hq'⟩
    · exact Or.inl h0
    · right
      simp only [Bool.and_eq_false_iff, bne_eq_false_iff_eq, decide_eq_false_iff_not,
        UInt32.not_lt] at hexit
      have hq'' := UInt32.lt_iff_toNat_lt.mp hq'
      have hq0 : q ≠ 0 := by
        rintro rfl
        rw [UInt32.toNat_zero] at hq''
        omega
      have hout := UInt32.le_iff_toNat_le.mp (hexit.resolve_left hq0)
      rw [toNat_IS_ANCESTOR_BITMAP, toNat_sub_sub_one hq'] at hout
      omega

end Mark

/-! ### The skiplist walk -/

section Skiplist

variable (hv : SnapshotTableValid t)
include hv

/-- `get_ancestor_below` moves to the parent, or, from a node with a parent, to a nonzero
ancestor of the parent that is not above the target. -/
theorem get_ancestor_below_spec {y : UInt32} (ancestor : UInt32) :
    get_ancestor_below t y ancestor = __bch2_snapshot_parent t y ∨
      __bch2_snapshot_parent t y ≠ 0 ∧
        SnapshotAncestor t (__bch2_snapshot_parent t y) (get_ancestor_below t y ancestor) ∧
        get_ancestor_below t y ancestor ≤ ancestor ∧ get_ancestor_below t y ancestor ≠ 0 := by
  cases h : __snapshot_t t y with
  | none =>
      left
      rw [get_ancestor_below, h, Option.elim_none, parent_of_none h]
  | some s =>
      rw [get_ancestor_below, h, Option.elim_some, parent_of_some h]
      by_cases hroot : s.parent = 0
      · -- a root's skiplist is all `0`, so the first test already picks `0`, its parent
        have hz := hv.root_skips_zero y s h hroot
        have h2 : s.skip.get 2 = 0 := hz 2
        left
        rw [if_pos (by rw [h2]; exact UInt32.zero_le), h2, hroot]
      · have hs := hv.skips_ancestors y s h hroot
        have hskip : ∀ i : Fin 3, s.skip.get i ≤ ancestor →
            s.skip.get i = s.parent ∨ s.parent ≠ 0 ∧ SnapshotAncestor t s.parent (s.skip.get i) ∧
              s.skip.get i ≤ ancestor ∧ s.skip.get i ≠ 0 :=
          fun i hle => Or.inr ⟨hroot, (hs i).2, hle, (hs i).1⟩
        -- the three skiplist tests, highest entry first
        by_cases h2 : s.skip.get 2 ≤ ancestor
        · rw [if_pos h2]
          exact hskip 2 h2
        rw [if_neg h2]
        by_cases h1 : s.skip.get 1 ≤ ancestor
        · rw [if_pos h1]
          exact hskip 1 h1
        rw [if_neg h1]
        by_cases h0 : s.skip.get 0 ≤ ancestor
        · rw [if_pos h0]
          exact hskip 0 h0
        rw [if_neg h0]
        exact Or.inl rfl

/-- Each jump of the skiplist walk goes to `0` or up. -/
theorem get_ancestor_below_eq_zero_or_lt (y ancestor : UInt32) :
    get_ancestor_below t y ancestor = 0 ∨ y < get_ancestor_below t y ancestor := by
  rcases get_ancestor_below_spec hv ancestor (y := y) with h | ⟨hpar, hanc, -, hne⟩
  · rw [h]
    exact parent_eq_zero_or_lt hv.parents_above y
  · right
    have hlt := (parent_eq_zero_or_lt hv.parents_above y).resolve_left hpar
    have hle := le_of_snapshotAncestor hv.parents_above hanc hne
    exact UInt32.lt_iff_toNat_lt.mpr (Nat.lt_of_lt_of_le (UInt32.lt_iff_toNat_lt.mp hlt) hle)

/-- A jump from below the target keeps whether the target lies ahead. -/
theorem snapshotAncestor_get_ancestor_below_iff {y ancestor : UInt32} (hy : y ≠ 0)
    (hya : y ≠ ancestor) :
    SnapshotAncestor t y ancestor ↔ SnapshotAncestor t (get_ancestor_below t y ancestor) ancestor :=
  isAncestor_iff_of_jump (rankIncreasing hv.parents_above) toNat_injective hy hya
    ((get_ancestor_below_spec hv ancestor).imp_right fun ⟨_, hanc, hle, hne⟩ =>
      ⟨(isAncestor_parent hy).trans hanc, UInt32.le_iff_toNat_le.mp hle, hne⟩)

/-- Within 128 ids below the target, the bitmap answers whether it is an ancestor. -/
theorem test_ancestor_bitmap_spec {y ancestor : UInt32} (hy : y ≠ 0) (hlt : y < ancestor)
    (hwin : ancestor.toNat ≤ y.toNat + 128) :
    test_ancestor_bitmap t y ancestor = true ↔ SnapshotAncestor t y ancestor := by
  cases h : __snapshot_t t y with
  | none =>
      -- an id the table does not hold has parent `0`, so no ancestor but itself
      rw [test_ancestor_bitmap, h, Option.elim_none, Bool.false_eq_true, false_iff]
      intro hanc
      have hya : y ≠ ancestor := UInt32.ne_of_lt hlt
      rw [SnapshotAncestor, isAncestor_iff_parent hy hya, parent_of_none h] at hanc
      have h0 := eq_of_isAncestor_null hanc
      rw [h0] at hlt
      exact UInt32.not_lt_zero hlt
  | some s =>
      rw [test_ancestor_bitmap, h, Option.elim_some]
      obtain ⟨fuel, hm⟩ := hv.bitmaps_marked y s h
      exact bch2_mark_snapshot_is_ancestor_spec hv.parents_above hy hm hlt hwin

/-- The skiplist phase of the fast test: it stops within `ancestor` jumps at `0` or within 128
ids below `ancestor`, and keeps whether `ancestor` lies ahead. -/
theorem skiplist_walk_spec (id ancestor : UInt32) {fuel : Nat} (hfuel : ancestor.toNat < fuel) :
    ∃ y, (if ancestor ≥ IS_ANCESTOR_BITMAP then
        whileLoop (fun id => id != 0 && id < ancestor - IS_ANCESTOR_BITMAP)
          (fun id => get_ancestor_below t id ancestor) fuel id
      else some id) = some y ∧
      (SnapshotAncestor t id ancestor ↔ SnapshotAncestor t y ancestor) ∧
      (y = 0 ∨ ancestor.toNat ≤ y.toNat + 128) := by
  by_cases hbig : ancestor ≥ IS_ANCESTOR_BITMAP
  · rw [if_pos hbig]
    have hbig' : 128 ≤ ancestor.toNat := UInt32.le_iff_toNat_le.mp hbig
    have hbound : (ancestor - IS_ANCESTOR_BITMAP).toNat = ancestor.toNat - 128 := by
      rw [UInt32.toNat_sub_of_le _ _ hbig, toNat_IS_ANCESTOR_BITMAP]
    have hf : (ancestor - IS_ANCESTOR_BITMAP).toNat < fuel := by
      rw [hbound]
      omega
    obtain ⟨y, hy⟩ := whileLoop_up_isSome (fun y => get_ancestor_below t y ancestor)
      (fun y _ => get_ancestor_below_eq_zero_or_lt hv y ancestor) _ id hf
    -- each jump starts below the window, so off `ancestor`
    obtain ⟨hinv, hexit⟩ := whileLoop_inv
      (fun y => SnapshotAncestor t id ancestor ↔ SnapshotAncestor t y ancestor)
      (fun y hI hc => by
        simp only [Bool.and_eq_true, bne_iff_ne, ne_eq, decide_eq_true_eq] at hc
        have hlt := UInt32.lt_iff_toNat_lt.mp hc.2
        rw [hI]
        exact snapshotAncestor_get_ancestor_below_iff hv hc.1 (fun h => by rw [h] at hlt; omega))
      Iff.rfl hy
    refine ⟨y, hy, hinv, ?_⟩
    simp only [Bool.and_eq_false_iff, bne_eq_false_iff_eq, decide_eq_false_iff_not,
      UInt32.not_lt] at hexit
    exact hexit.imp_right fun h => by
      have := UInt32.le_iff_toNat_le.mp h
      omega
  · rw [if_neg hbig]
    have hsmall : ancestor.toNat < 128 := by
      rw [← toNat_IS_ANCESTOR_BITMAP]
      exact UInt32.lt_iff_toNat_lt.mp (UInt32.not_le.mp hbig)
    exact ⟨id, rfl, Iff.rfl, Or.inr (by omega)⟩

/-- The skiplist and bitmap test of `__bch2_snapshot_is_ancestor` stops within `ancestor`
jumps and answers whether `ancestor` is an ancestor of `id`. -/
theorem __bch2_snapshot_is_ancestor_spec (id ancestor : UInt32) (ha : ancestor ≠ 0) {fuel : Nat}
    (hfuel : ancestor.toNat < fuel) :
    ∃ r, __bch2_snapshot_is_ancestor false t id ancestor fuel = some r ∧
      (r = true ↔ SnapshotAncestor t id ancestor) := by
  obtain ⟨y, hy, hinv, hwin⟩ := skiplist_walk_spec hv id ancestor hfuel
  -- past the skiplist phase the source tests the bitmap or compares the ids
  refine ⟨if y != 0 && y < ancestor then test_ancestor_bitmap t y ancestor else y == ancestor,
    by rw [__bch2_snapshot_is_ancestor, if_neg Bool.false_ne_true]; dsimp only; rw [hy]; rfl, ?_⟩
  rw [hinv]
  by_cases hin : y ≠ 0 ∧ y < ancestor
  · -- the walk stopped within the bitmap's window
    have hc : (y != 0 && y < ancestor) = true := by
      simp only [Bool.and_eq_true, bne_iff_ne, decide_eq_true_eq]
      exact hin
    rw [if_pos hc]
    exact test_ancestor_bitmap_spec hv hin.1 hin.2 (hwin.resolve_left hin.1)
  -- the walk stopped at `0` or at `ancestor` or past it: an id comparison answers
  · have hexit : y = 0 ∨ ancestor ≤ y := by
      by_cases hy0 : y = 0
      · exact Or.inl hy0
      · exact Or.inr (UInt32.not_lt.mp fun h => hin ⟨hy0, h⟩)
    have hc : (y != 0 && y < ancestor) = false := by
      simp only [Bool.and_eq_false_iff, bne_eq_false_iff_eq, decide_eq_false_iff_not,
        UInt32.not_lt]
      exact hexit
    rw [if_neg (by rw [hc]; exact Bool.false_ne_true), beq_iff_eq,
      snapshotAncestor_iff_eq hv.parents_above ha hexit]

end Skiplist

/-! ### The two tests agree -/

/-- Below the target `0` the walk's loop test is false at every id. -/
theorem cond_zero_eq_false (y : UInt32) : (y != 0 && decide (y < 0)) = false := by
  rw [decide_eq_false UInt32.not_lt_zero, Bool.and_false]

/-- Asked about `0`, the walk stops at once and answers whether `id` is `0`. -/
theorem __bch2_snapshot_is_ancestor_early_zero (id : UInt32) (fuel : Nat) :
    __bch2_snapshot_is_ancestor_early t id 0 (fuel + 1) = some (id == 0) := by
  rw [__bch2_snapshot_is_ancestor_early,
    @whileLoop_succ_of_not_cond _ (fun y => y != 0 && y < 0) _ id (cond_zero_eq_false id)]
  rfl

/-- Asked about `0`, the fast test does not walk and answers whether `id` is `0`. -/
theorem __bch2_snapshot_is_ancestor_zero (id : UInt32) (fuel : Nat) :
    __bch2_snapshot_is_ancestor false t id 0 fuel = some (id == 0) := by
  rw [__bch2_snapshot_is_ancestor, if_neg Bool.false_ne_true]
  dsimp only
  rw [if_neg (by decide), Option.map_some, cond_zero_eq_false, if_neg Bool.false_ne_true]

/-- On a valid table the fast test of `__bch2_snapshot_is_ancestor` stops on the fuel the
parent walk needs, and both give the same answer, whether or not `check_snapshots` will run. -/
theorem __bch2_snapshot_is_ancestor_eq_early (hv : SnapshotTableValid t)
    (check_snapshots_will_run : Bool) (id ancestor : UInt32) {fuel : Nat}
    (hfuel : ancestor.toNat < fuel) :
    ∃ r, __bch2_snapshot_is_ancestor check_snapshots_will_run t id ancestor fuel = some r ∧
      __bch2_snapshot_is_ancestor_early t id ancestor fuel = some r := by
  by_cases ha : ancestor = 0
  · subst ha
    obtain ⟨n, rfl⟩ : ∃ n, fuel = n + 1 := ⟨fuel - 1, by omega⟩
    refine ⟨id == 0, ?_, __bch2_snapshot_is_ancestor_early_zero id n⟩
    cases check_snapshots_will_run with
    | true => exact __bch2_snapshot_is_ancestor_early_zero id n
    | false => exact __bch2_snapshot_is_ancestor_zero id _
  · obtain ⟨r', hr', hanc'⟩ :=
      __bch2_snapshot_is_ancestor_early_spec hv.parents_above id ancestor ha hfuel
    refine ⟨r', ?_, hr'⟩
    cases check_snapshots_will_run with
    | true => exact hr'
    | false =>
        obtain ⟨r, hr, hanc⟩ := __bch2_snapshot_is_ancestor_spec hv id ancestor ha hfuel
        -- both answers say whether `ancestor` is an ancestor of `id`
        rw [hr, Bool.eq_iff_iff.mpr (hanc.trans hanc'.symm)]

/-! ### A table whose one root has a skiplist -/

/-- The table index `U32_MAX - id` of an id does not wrap. -/
theorem toNat_U32_MAX_sub (id : UInt32) : (U32_MAX - id).toNat = 4294967295 - id.toNat := by
  have h := id.toNat_lt
  rw [UInt32.toNat_sub_of_le _ _
    (UInt32.le_iff_toNat_le.mpr (by rw [show U32_MAX.toNat = 4294967295 from rfl]; omega))]
  rfl

/-- The child `U32_MAX - 30` of the root `U32_MAX`, with its bitmap bit for the root. -/
def skip_root_child : snapshot_t :=
  { state := .SNAPSHOT_ID_live, parent := U32_MAX, skip := Vector.replicate 3 U32_MAX,
    depth := 1, tree := 1, is_ancestor := BitVec.twoPow 128 29 }

/-- The root `U32_MAX` (entry 0) with the child `U32_MAX - 30` (entry 30), and the root
`U32_MAX - 129` (entry 129) with all three skiplist entries `askip`; the other entries are
empty. -/
def skip_root_table (askip : UInt32) : snapshot_table where
  nr := 130
  s i :=
    if i = 30 then skip_root_child
    else if i = 129 then
      { state := .SNAPSHOT_ID_live, parent := 0, skip := Vector.replicate 3 askip, depth := 0,
        tree := 2, is_ancestor := 0 }
    else if i = 0 then
      { state := .SNAPSHOT_ID_live, parent := 0, skip := Vector.replicate 3 0, depth := 0, tree := 1,
        is_ancestor := 0 }
    else
      { state := .SNAPSHOT_ID_empty, parent := 0, skip := Vector.replicate 3 0, depth := 0, tree := 0,
        is_ancestor := 0 }

section SkipRootTable

variable {askip : UInt32}

/-- Every entry but the child's has parent `0`, an empty bitmap, and a skiplist of `askip` or of
`0`. -/
theorem skip_root_table_ne {i : Nat} (h : i ≠ 30) :
    ((skip_root_table askip).s i).parent = 0 ∧ ((skip_root_table askip).s i).is_ancestor = 0 ∧
      (((skip_root_table askip).s i).skip = Vector.replicate 3 askip ∨
        ((skip_root_table askip).s i).skip = Vector.replicate 3 0) := by
  simp only [skip_root_table, if_neg h]
  -- the root with the skiplist `askip`, or one of the entries with skiplist `0`
  by_cases h129 : i = 129
  · rw [if_pos h129]
    exact ⟨rfl, rfl, Or.inl rfl⟩
  · rw [if_neg h129]
    split <;> exact ⟨rfl, rfl, Or.inr rfl⟩

/-- Entry 30 is the child `U32_MAX - 30`. -/
theorem skip_root_table_30 : (skip_root_table askip).s 30 = skip_root_child := rfl

/-- The entry of a held id is the one at index `U32_MAX - id`. -/
theorem skip_root_table_entry {id : UInt32} {s : snapshot_t}
    (h : __snapshot_t (skip_root_table askip) id = some s) :
    s = (skip_root_table askip).s (U32_MAX - id).toNat := by
  rw [__snapshot_t] at h
  split at h
  · exact (Option.some.inj h).symm
  · cases h

/-- Index 30 is the id `U32_MAX - 30` and no other. -/
theorem skip_root_table_idx {id : UInt32} : (U32_MAX - id).toNat = 30 ↔ id = U32_MAX - 30 := by
  have h := id.toNat_lt
  constructor
  · intro h30
    apply UInt32.toNat_inj.mp
    rw [toNat_U32_MAX_sub] at h30 ⊢
    show id.toNat = 4294967295 - 30
    omega
  · rintro rfl
    rfl

/-- Only `U32_MAX - 30` has a parent. -/
theorem skip_root_table_parent (id : UInt32) :
    __bch2_snapshot_parent (skip_root_table askip) id = if id = U32_MAX - 30 then U32_MAX else 0 := by
  by_cases h30 : id = U32_MAX - 30
  · subst h30
    rfl
  · rw [if_neg h30]
    cases h : __snapshot_t (skip_root_table askip) id with
    | none => exact parent_of_none h
    -- every held id but the child reads an entry with parent `0`
    | some s =>
        rw [parent_of_some h, skip_root_table_entry h]
        exact (skip_root_table_ne (mt skip_root_table_idx.mp h30)).1

/-- The table's parents are `0` or above their children, whatever the root's skiplist. -/
theorem skip_root_table_parents_above : ParentsAbove (skip_root_table askip) := by
  intro id s h
  rw [← parent_of_some h, skip_root_table_parent]
  -- only the child has a parent, and `U32_MAX` is above it
  by_cases h30 : id = U32_MAX - 30
  · rw [if_pos h30, h30]
    exact Or.inr (by decide)
  · exact Or.inl (if_neg h30)

/-- The child's skiplist holds only its parent, so every skiplist names ancestors. -/
theorem skip_root_table_skips_ancestors : SkipsAncestors (skip_root_table askip) := by
  intro id s h hpar
  -- only the child has a parent, so only its skiplist is checked
  have h30 : id = U32_MAX - 30 := by
    rw [← parent_of_some h, skip_root_table_parent] at hpar
    by_cases h30 : id = U32_MAX - 30
    · exact h30
    · exact absurd (if_neg h30) hpar
  have hs := skip_root_table_entry h
  rw [skip_root_table_idx.mpr h30, skip_root_table_30] at hs
  subst hs
  -- the child's skiplist is its parent `U32_MAX` three times
  intro i
  have hi : skip_root_child.skip.get i = U32_MAX := by
    revert i
    decide
  rw [hi]
  exact ⟨by decide, isAncestor_refl _⟩

/-- The child's bitmap marks its parent `U32_MAX`, the only ancestor it has; the roots mark none. -/
theorem skip_root_table_bitmaps_marked : BitmapsMarked (skip_root_table askip) := by
  intro id s h
  have hs := skip_root_table_entry h
  by_cases h30 : id = U32_MAX - 30
  · rw [skip_root_table_idx.mpr h30, skip_root_table_30] at hs
    subst hs h30
    -- the child's walk marks `U32_MAX` and stops at its parent `0`
    refine ⟨2, ?_⟩
    rw [bch2_mark_snapshot_is_ancestor]
    simp only [skip_root_table_parent]
    decide +kernel
  -- a node without a parent marks nothing
  · rw [hs, (@skip_root_table_ne askip _ (mt skip_root_table_idx.mp h30)).2.1]
    refine ⟨1, ?_⟩
    rw [bch2_mark_snapshot_is_ancestor, skip_root_table_parent, if_neg h30]
    rfl

/-- Every skiplist of the table is constant, so sorted. -/
theorem skip_root_table_skips_sorted : SkipsSorted (skip_root_table askip) := by
  intro id s h
  have hs := skip_root_table_entry h
  by_cases h30 : (U32_MAX - id).toNat = 30
  · rw [h30, skip_root_table_30] at hs
    rw [hs]
    decide
  · obtain ⟨-, -, hsk⟩ := @skip_root_table_ne askip _ h30
    rw [← hs] at hsk
    rcases hsk with hsk | hsk <;> rw [hsk] <;> exact ⟨UInt32.le_refl _, UInt32.le_refl _⟩

end SkipRootTable

/-- With the root's skiplist empty the table is valid. -/
theorem skip_root_table_valid : SnapshotTableValid (skip_root_table 0) where
  parents_above := skip_root_table_parents_above
  skips_ancestors := skip_root_table_skips_ancestors
  bitmaps_marked := skip_root_table_bitmaps_marked
  root_skips_zero := by
    intro id s h hroot
    have hs := skip_root_table_entry h
    -- the child is the only entry with a parent, so a root is another entry
    have h30 : (U32_MAX - id).toNat ≠ 30 := fun h30 => by
      rw [hs, h30] at hroot
      exact absurd hroot (by decide)
    obtain ⟨-, -, hsk⟩ := @skip_root_table_ne 0 _ h30
    rw [← hs] at hsk
    intro i
    rcases hsk with hsk | hsk <;> rw [hsk] <;> revert i <;> decide

/-- On the valid table with an empty root skiplist, the fast test and the parent walk agree on
whether `U32_MAX` is an ancestor of the other root. -/
theorem is_ancestor_eq_early_skip_root_table :
    SnapshotTableValid (skip_root_table 0) ∧ U32_MAX.toNat < 4294967296 ∧
      ∃ r, __bch2_snapshot_is_ancestor false (skip_root_table 0) (U32_MAX - 129) U32_MAX
          4294967296 = some r ∧
        __bch2_snapshot_is_ancestor_early (skip_root_table 0) (U32_MAX - 129) U32_MAX
          4294967296 = some r :=
  ⟨skip_root_table_valid, by decide,
    __bch2_snapshot_is_ancestor_eq_early skip_root_table_valid false _ _ (by decide)⟩

/-- A root whose skiplist holds a snapshot of another tree: every condition but
`RootSkipsZero` holds, and the skiplist jumps from the root `U32_MAX - 129` into the tree of
`U32_MAX`, where the bitmap finds `U32_MAX`, while the parent walk stops at `0`. -/
theorem is_ancestor_ne_early_root_skip :
    ParentsAbove (skip_root_table (U32_MAX - 30)) ∧ SkipsAncestors (skip_root_table (U32_MAX - 30)) ∧
      SkipsSorted (skip_root_table (U32_MAX - 30)) ∧ BitmapsMarked (skip_root_table (U32_MAX - 30)) ∧
      __bch2_snapshot_is_ancestor false (skip_root_table (U32_MAX - 30)) (U32_MAX - 129) U32_MAX
        4294967296 = some true ∧
      __bch2_snapshot_is_ancestor_early (skip_root_table (U32_MAX - 30)) (U32_MAX - 129) U32_MAX
        4294967296 = some false :=
  ⟨skip_root_table_parents_above, skip_root_table_skips_ancestors, skip_root_table_skips_sorted,
    skip_root_table_bitmaps_marked, by decide +kernel, by decide +kernel⟩

end Bcachefs.Proofs.Snapshots
