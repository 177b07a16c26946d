import Bcachefs.Snapshots.TreeNext
import Bcachefs.Proofs.Snapshots.IsAncestor

/-!
# The walk from a node leaves the node's subtree

`__for_each_snapshot_child` stops at the first id above `start`, which ends a subtree only
when `start` is a root. Children are stored the larger first, so a node that is its
parent's first child and has a sibling has a sibling below it: from a leaf, the walk climbs
to the parent and goes down to that sibling (`__bch2_snapshot_tree_next_leaf_sibling`),
which passes the test `id <= start`. The sibling is no descendant of `start`
(`not_isAncestor_sibling`): the body runs on a node outside the subtree
(`__for_each_snapshot_child_leaf_sibling`).

`bch2_snapshot_tree_keys_to_text` prints the subtree of the node it is given with this walk,
and `bch2_snapshot_node_check_deletable` gives it the interior node it refuses to delete;
`snapshot_tree_max_depth` reads the depths of the same nodes. In a tree whose root `9` has the
children `8` and `5`, and `8` the child `7`, the walk from `8` runs on `8`, `7` and `5`
(`for_each_snapshot_child_sibling`).
-/

set_option autoImplicit false
set_option linter.style.nameCheck false

namespace Bcachefs.Proofs.Snapshots

open Bcachefs Bcachefs.Loop Bcachefs.Forest

/-- From a leaf whose parent has a second child other than the leaf, the walk steps to that
child, at the same depth: one climb, then the test finds the child. -/
theorem __bch2_snapshot_tree_next_leaf_sibling {t : snapshot_table} {start : UInt32}
    {s sp : snapshot_t} (hs : __snapshot_t t start = some s)
    (hleaf : s.children.get ⟨0, Nat.zero_lt_two⟩ = 0) (hp : s.parent ≠ 0)
    (hsp : __snapshot_t t s.parent = some sp) (hr : sp.children.get ⟨1, Nat.one_lt_two⟩ ≠ 0)
    (hne : sp.children.get ⟨1, Nat.one_lt_two⟩ ≠ start) (depth : UInt32) :
    __bch2_snapshot_tree_next t start depth = some (sp.children.get ⟨1, Nat.one_lt_two⟩, depth) := by
  have hpar : __bch2_snapshot_parent t start = s.parent := by
    rw [__bch2_snapshot_parent, hs]
    rfl
  have hleft : bch2_snapshot_left_child t start = some 0 := by
    rw [bch2_snapshot_left_child, bch2_snapshot_child, hs, Option.map_some, hleaf]
  have hright : bch2_snapshot_right_child t s.parent = some (sp.children.get ⟨1, Nat.one_lt_two⟩) := by
    rw [bch2_snapshot_right_child, bch2_snapshot_child, hsp, Option.map_some]
  -- one climb finds the sibling, and the next test stops the climb
  have hfound : (sp.children.get ⟨1, Nat.one_lt_two⟩ != 0 &&
      sp.children.get ⟨1, Nat.one_lt_two⟩ != start) = true := by
    rw [Bool.and_eq_true, bne_iff_ne, bne_iff_ne]
    exact ⟨hr, hne⟩
  have hclimb : tree_next_climb t (start, depth, 0) =
      some (start, depth, sp.children.get ⟨1, Nat.one_lt_two⟩) := by
    rw [tree_next_climb]
    dsimp only
    rw [hpar, hright, Option.map_some, if_pos hfound, UInt32.sub_add_cancel]
  obtain ⟨k, hk⟩ : ∃ k, SNAPSHOT_WALK_FUEL = k + 1 + 1 :=
    ⟨2 ^ 32 - 1, by unfold SNAPSHOT_WALK_FUEL; omega⟩
  -- the climb's test holds at the leaf, whose parent is nonzero, and fails once a child is found
  have hgo : Option.elim (some (start, depth, (0 : UInt32))) false
      (fun s => s.2.2 == 0 && __bch2_snapshot_parent t s.1 != 0) = true := by
    rw [Option.elim_some]
    dsimp only
    rw [hpar]
    simp only [beq_self_eq_true, Bool.true_and, bne_iff_ne, ne_eq]
    exact hp
  have hstop : Option.elim (some (start, depth, sp.children.get ⟨1, Nat.one_lt_two⟩)) false
      (fun s => s.2.2 == 0 && __bch2_snapshot_parent t s.1 != 0) = false := by
    rw [Option.elim_some]
    dsimp only
    rw [beq_eq_false_iff_ne.2 hr, Bool.false_and]
  rw [__bch2_snapshot_tree_next, hleft, Option.bind_some, if_neg (by simp), hk, whileLoop,
    if_pos hgo, Option.bind_some, hclimb, whileLoop, if_neg (by rw [hstop]; decide),
    Option.bind_some, Option.map_some]

/-- In a forest whose parents are above their children, a second child of `start`'s parent
`p` is no descendant of `start`: its ancestors are itself, `p` and those of `p`, all other than
`start`. -/
theorem not_isAncestor_sibling {t : snapshot_table}
    (hrank : RankIncreasing (__bch2_snapshot_parent t) 0 UInt32.toNat) {start p r : UInt32}
    (hs0 : start ≠ 0) (hstart : start < p) (hr : r ≠ start) (hr0 : r ≠ 0)
    (hrp : __bch2_snapshot_parent t r = p) :
    ¬ IsAncestor (__bch2_snapshot_parent t) 0 r start := by
  intro h
  rw [isAncestor_iff_parent hr0 hr, hrp] at h
  -- `start` is an ancestor of `p`, so it ranks at least as high as `p`, which is above it
  have hle := rank_le_of_isAncestor hrank h hs0
  rw [UInt32.lt_iff_toNat_lt] at hstart
  omega

/-- The loop of `__for_each_snapshot_child` from `start`, with `fuel` tests left, from the
state `o`: the id the body runs on next, its depth, and the ids the body has run on. -/
def for_each_snapshot_child_loop (t : snapshot_table) (start : UInt32) (fuel : Nat)
    (o : Option (UInt32 × UInt32 × List (UInt32 × UInt32))) :
    Option (Option (UInt32 × UInt32 × List (UInt32 × UInt32))) :=
  whileLoop (fun o => o.elim false fun s => s.1 != 0 && s.1 ≤ start)
    (fun o => o.bind fun s =>
      (__bch2_snapshot_tree_next t s.1 s.2.1).map fun r => (r.1, r.2, s.2.2 ++ [(s.1, s.2.1)]))
    fuel o

/-- `__for_each_snapshot_child` is its walk from the start with `SNAPSHOT_WALK_FUEL` steps, keeping
the nodes visited. -/
theorem for_each_snapshot_child_eq_loop (t : snapshot_table) (start depth : UInt32) :
    __for_each_snapshot_child t start depth =
      (for_each_snapshot_child_loop t start SNAPSHOT_WALK_FUEL (some (start, depth, []))).bind
        fun o => o.map fun s => s.2.2 := rfl

/-- The list a walk of `__for_each_snapshot_child` has built only grows: from a state whose
list starts with `P`, the loop reaches only states whose lists do. -/
theorem for_each_snapshot_child_loop_prefix {t : snapshot_table} {start : UInt32}
    (P : List (UInt32 × UInt32)) {fuel : Nat}
    {o r : Option (UInt32 × UInt32 × List (UInt32 × UInt32))}
    (ho : ∀ s, o = some s → P <+: s.2.2)
    (h : for_each_snapshot_child_loop t start fuel o = some r) :
    ∀ s, r = some s → P <+: s.2.2 := by
  refine (whileLoop_inv (fun o => ∀ s, o = some s → P <+: s.2.2) ?_ ho h).1
  intro o hI _ s' hs'
  obtain ⟨s, rfl, hbody⟩ := Option.bind_eq_some_iff.1 hs'
  obtain ⟨q, -, rfl⟩ := Option.map_eq_some_iff.1 hbody
  exact (hI s rfl).trans (List.prefix_append _ _)

/-- The root `9` of a tree with the two leaves `8` and `5`, the larger first. -/
def sibling_root : snapshot_t :=
  { state := .SNAPSHOT_ID_live, parent := 0, skip := #v[0, 0, 0], depth := 0, tree := 1,
    is_ancestor := 0, children := #v[8, 5] }

/-- A leaf under `9`, with the bitmap that marks `9`. -/
def sibling_leaf (is_ancestor : BitVec 128) : snapshot_t :=
  { state := .SNAPSHOT_ID_live, parent := 9, skip := #v[9, 9, 9], depth := 1, tree := 1,
    is_ancestor := is_ancestor }

/-- The table of the tree `9`; the ids `6` and `7` are empty. -/
def sibling_table : snapshot_table where
  nr := (U32_MAX - 5).toNat + 1
  s := fun idx =>
    if idx = (U32_MAX - 9).toNat then sibling_root
    else if idx = (U32_MAX - 8).toNat then sibling_leaf 1
    else if idx = (U32_MAX - 5).toNat then sibling_leaf 8
    else
      { state := .SNAPSHOT_ID_empty, parent := 0, skip := #v[0, 0, 0], depth := 0, tree := 0,
        is_ancestor := 0 }

/-- Every parent in the sibling fixture other than `0` has a larger id than its child. -/
theorem parentsAbove_sibling_table : ParentsAbove sibling_table := by
  intro id s h
  rw [__snapshot_t] at h
  split at h
  · rw [← Option.some.inj h]
    have hid := id.toNat_lt
    simp only [sibling_table]
    split_ifs with h9 h8 h5
    · exact Or.inl rfl
    · -- the two leaves are below their parent `9`
      rw [toNat_U32_MAX_sub, toNat_U32_MAX_sub] at h8
      exact Or.inr (UInt32.lt_iff_toNat_lt.mpr (by change _ < 9; change _ = 4294967287 at h8; omega))
    · rw [toNat_U32_MAX_sub, toNat_U32_MAX_sub] at h5
      exact Or.inr (UInt32.lt_iff_toNat_lt.mpr (by change _ < 9; change _ = 4294967290 at h5; omega))
    · exact Or.inl rfl
  · cases h

/-- A tree of snapshot `9`, the root of tree `1`: `9` has the children `8` and `5`, the
larger first, and `8` has the child `7`. Each node's skiplist holds its ancestors, and bit
`a - id - 1` of its bitmap is set for each ancestor `a`. The table holds the ids from `5` up;
`6` and those above `9` are empty. -/
def interior_table : snapshot_table where
  nr := (U32_MAX - 5).toNat + 1
  s := fun idx =>
    if idx = (U32_MAX - 9).toNat then
      { state := .SNAPSHOT_ID_live, parent := 0, skip := #v[0, 0, 0], depth := 0, tree := 1,
        is_ancestor := 0, children := #v[8, 5] }
    else if idx = (U32_MAX - 8).toNat then
      { state := .SNAPSHOT_ID_live, parent := 9, skip := #v[9, 9, 9], depth := 1, tree := 1,
        is_ancestor := 1, children := #v[7, 0] }
    else if idx = (U32_MAX - 7).toNat then
      { state := .SNAPSHOT_ID_live, parent := 8, skip := #v[8, 8, 9], depth := 2, tree := 1,
        is_ancestor := 3 }
    else if idx = (U32_MAX - 5).toNat then
      { state := .SNAPSHOT_ID_live, parent := 9, skip := #v[9, 9, 9], depth := 1, tree := 1,
        is_ancestor := 8 }
    else
      { state := .SNAPSHOT_ID_empty, parent := 0, skip := #v[0, 0, 0], depth := 0, tree := 0,
        is_ancestor := 0 }

/-- The keys of the table pass `bch2_snapshot_validate`, and the walk from the interior node
`8`, which `bch2_snapshot_node_check_deletable` prints when it refuses to delete it, runs its
body on `8`, on its child `7` and then on `5`, the sibling of `8`, which is no descendant of
`8`. -/
theorem for_each_snapshot_child_sibling :
    [9, 8, 7, 5].all (fun id => (__snapshot_t interior_table id).elim false
      fun s => (bch2_snapshot_validate ⟨0, id.toUInt64, 0⟩ s true).toBool) = true ∧
    __for_each_snapshot_child interior_table 8 0 = some [(8, 0), (7, 1), (5, 0)] ∧
      ¬ IsAncestor (__bch2_snapshot_parent interior_table) 0 5 8 := by
  refine ⟨by decide +kernel, by decide +kernel, fun h => ?_⟩
  -- the ancestors of `5` are `5`, `9` and the null id
  rw [isAncestor_iff_parent (by decide) (by decide),
    show __bch2_snapshot_parent interior_table 5 = 9 by decide,
    isAncestor_iff_parent (by decide) (by decide),
    show __bch2_snapshot_parent interior_table 9 = 0 by decide] at h
  exact absurd (eq_of_isAncestor_null h) (by decide)

end Bcachefs.Proofs.Snapshots
