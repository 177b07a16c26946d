import Bcachefs.Snapshots.Snapshot
import Bcachefs.Sorting.Bubble
import Bcachefs.Btree.Bkey
import Mathlib.Logic.Function.Iterate

/-!
# `Bcachefs.Snapshots.Skiplist`: the skiplists of new and surviving snapshot nodes

Two places write a node's skiplist.

* `create_snapids` (`snapshots/snapshot.c`) gives each new child of `parent` three entries
  from `bch2_snapshot_skiplist_get(c, parent)`, a random ancestor of `parent` at most its
  depth up (or `parent` itself for a root, `0` for no parent), and sorts them with
  `bubble_sort`. The key's trigger `bch2_mark_snapshot` then copies the key into the
  in-memory table and computes the entry's ancestor bitmap.
* `bch2_fix_child_of_deleted_snapshot` (`snapshots/delete.c`), run on every node before
  interior nodes with one live child are spliced out, lowers a node's depth by the number of
  its ancestors on the delete list and replaces each skiplist entry on the list by the
  `n`th ancestor that is not (`bch2_snapshot_nth_parent_skip`), `n` drawn below the new
  depth less one.

Random draws are arguments here: `r` stands for the value `get_random_u32_below` returned,
and `get_random_u32_below_result` says which values it can return. The snapshot key's value
is modelled by the table entry it becomes, since `bch2_mark_snapshot` copies the fields these
functions read and write.
-/

set_option autoImplicit false

namespace Bcachefs

open Bcachefs.Loop Bcachefs.Sorting

/-- The values `get_random_u32_below(ceil)` returns (`include/linux/random.h`): `0` when
`ceil ≤ 1`, any value below `ceil` otherwise. -/
def get_random_u32_below_result (ceil r : UInt32) : Prop :=
  if ceil ≤ 1 then r = 0 else r < ceil

/-- `bch2_snapshot_nth_parent`: `while (n--) id = __bch2_snapshot_parent(t, id);`. -/
def bch2_snapshot_nth_parent (t : snapshot_table) (id n : UInt32) : UInt32 :=
  (__bch2_snapshot_parent t)^[n.toNat] id

/-- `bch2_snapshot_depth`: one more than the depth of `parent`, `0` for no parent. -/
def bch2_snapshot_depth (t : snapshot_table) (parent : UInt32) : UInt32 :=
  if parent ≠ 0 then (__snapshot_t t parent).elim 0 (fun s => s.depth) + 1 else 0

/-- `bch2_snapshot_skiplist_get`: the `r`th ancestor of `id`, `r` being the value
`get_random_u32_below(s->depth)` returned; `id` itself for a root. -/
def bch2_snapshot_skiplist_get (t : snapshot_table) (id r : UInt32) : UInt32 :=
  if id = 0 then 0
  else (__snapshot_t t id).elim 0 fun s =>
    if s.parent ≠ 0 then bch2_snapshot_nth_parent t id r else id

/-- `cmp_le32`. -/
def cmp_le32 (l r : UInt32) : Int := cmp_int l r

/-- `bubble_sort(skip, ARRAY_SIZE(skip), cmp_le32)`. -/
def bubble_sort_skip (skip : Vector UInt32 3) : Vector UInt32 3 :=
  let f := bubbleSort cmp_le32 (fun i => if h : i < 3 then skip[i] else 0) 3
  Vector.ofFn fun i => f i

/-- An entry of a grown table that nothing has written: `kvzalloc`ed zeros. -/
def snapshot_t_zero : snapshot_t where
  state := .SNAPSHOT_ID_empty
  parent := 0
  skip := Vector.replicate 3 0
  depth := 0
  tree := 0
  is_ancestor := 0

/-- `*bch2_snapshot_t_mut(c, id) = v`: the entry of `id` set, the table grown with zeroed
entries to hold it. -/
def bch2_snapshot_t_set (t : snapshot_table) (id : UInt32) (v : snapshot_t) : snapshot_table where
  nr := max t.nr ((U32_MAX - id).toNat + 1)
  s i := if i = (U32_MAX - id).toNat then v else if i < t.nr then t.s i else snapshot_t_zero

/-- `bch2_mark_snapshot` of the snapshot key of `id` whose fields make the entry `v`: copy them
into the table, then compute the entry's `is_ancestor` bitmap from the parents. -/
def bch2_mark_snapshot (t : snapshot_table) (id : UInt32) (v : snapshot_t) (fuel : Nat) :
    Option snapshot_table :=
  let t' := bch2_snapshot_t_set t id v
  (bch2_mark_snapshot_is_ancestor t' id fuel).map fun bm =>
    bch2_snapshot_t_set t' id { v with is_ancestor := bm }

/-- The key `create_snapids` writes for a new child of `parent` in `tree`, as its table entry
before the bitmap: `r j` is the value the `j`th `bch2_snapshot_skiplist_get` drew. -/
def create_snapid_entry (t : snapshot_table) (parent tree : UInt32) (r : Fin 3 → UInt32) :
    snapshot_t where
  state := .SNAPSHOT_ID_live
  parent := parent
  skip := bubble_sort_skip (Vector.ofFn fun j => bch2_snapshot_skiplist_get t parent (r j))
  depth := bch2_snapshot_depth t parent
  tree := tree
  is_ancestor := 0

/-- `create_snapids`: one new child of `parent` for each element of `rs`, the random draws of
that child. `first` is the id the iterator is on, at first the lowest snapshot id in use
(`bch2_btree_iter_peek` from `POS_MIN`); each child takes the slot below
(`bch2_btree_iter_prev_slot`). `none` is `ENOSPC_snapshot_create`, when that slot is `0`, or
a bitmap walk out of fuel. -/
def create_snapids (t : snapshot_table) (parent tree first : UInt32) :
    List (Fin 3 → UInt32) → Nat → Option snapshot_table
  | [], _ => some t
  | r :: rs, fuel =>
      if first - 1 = 0 then none
      else (bch2_mark_snapshot t (first - 1) (create_snapid_entry t parent tree r) fuel).bind
        fun t' => create_snapids t' parent tree (first - 1) rs fuel

attribute [grind] get_random_u32_below_result bch2_snapshot_skiplist_get bch2_snapshot_t_set

/-- `struct snapshot_interior_delete`: a node to splice out and the live child its keys go
to. -/
structure snapshot_interior_delete where
  id : UInt32
  live_child : UInt32
deriving DecidableEq, Repr

/-- `interior_delete_has_id`: the `live_child` of the first entry for `id`, `0` if there is
none. -/
def interior_delete_has_id (l : List snapshot_interior_delete) (id : UInt32) : UInt32 :=
  (l.find? fun i => i.id == id).elim 0 fun i => i.live_child

/-- `bch2_snapshots_same_tree`. -/
def bch2_snapshots_same_tree (t : snapshot_table) (id1 id2 : UInt32) : Bool :=
  id1 == id2 ||
    (__snapshot_t t id1).elim false fun s1 => (__snapshot_t t id2).elim false fun s2 =>
      s1.tree == s2.tree

/-- `bch2_snapshot_is_ancestor`. -/
def bch2_snapshot_is_ancestor (check_snapshots_will_run : Bool) (t : snapshot_table)
    (id ancestor : UInt32) (fuel : Nat) : Option Bool :=
  if id = ancestor then some true
  else __bch2_snapshot_is_ancestor check_snapshots_will_run t id ancestor fuel

/-- The first loop of `bch2_snapshot_nth_parent_skip`, and the inner one of the second: walk
up past the ids on the delete list. -/
def skip_deleted (t : snapshot_table) (skip : List snapshot_interior_delete) (fuel : Nat)
    (id : UInt32) : Option UInt32 :=
  whileLoop (fun id => interior_delete_has_id skip id != 0) (__bch2_snapshot_parent t) fuel id

/-- The second loop of `bch2_snapshot_nth_parent_skip`: `n` times, step to the parent and on
past the deleted ids (`do { ... } while (...)`). -/
def nth_parent_skip_steps (t : snapshot_table) (skip : List snapshot_interior_delete)
    (fuel : Nat) : Nat → UInt32 → Option UInt32
  | 0, id => some id
  | n + 1, id =>
      (skip_deleted t skip fuel (__bch2_snapshot_parent t id)).bind
        (nth_parent_skip_steps t skip fuel n)

/-- `bch2_snapshot_nth_parent_skip`: the `n`th ancestor of `id` not on the delete list,
counting from the first such at or above `id`. -/
def bch2_snapshot_nth_parent_skip (t : snapshot_table) (id n : UInt32)
    (skip : List snapshot_interior_delete) (fuel : Nat) : Option UInt32 :=
  (skip_deleted t skip fuel id).bind (nth_parent_skip_steps t skip fuel n.toNat)

/-- The body of the loop over `skip[j]` in `bch2_fix_child_of_deleted_snapshot`: an entry on
the delete list is replaced, `r` being the value `get_random_u32_below(depth - 1)` drew. -/
def fix_skip_entry (t : snapshot_table) (deleted : List snapshot_interior_delete)
    (parent depth : UInt32) (fuel : Nat) (id r : UInt32) : Option UInt32 :=
  if interior_delete_has_id deleted id ≠ 0 then
    bch2_snapshot_nth_parent_skip t parent (if depth > 1 then r else 0) deleted fuel
  else some id

/-- The count of `bch2_fix_child_of_deleted_snapshot`: the entries of the delete list in the
tree of `id` that are its ancestors. -/
def nr_deleted_ancestors (check_snapshots_will_run : Bool) (t : snapshot_table) (id : UInt32)
    (deleted : List snapshot_interior_delete) (fuel : Nat) : Option UInt32 :=
  deleted.foldlM (fun nr i =>
    (if bch2_snapshots_same_tree t id i.id then
        bch2_snapshot_is_ancestor check_snapshots_will_run t id i.id fuel
      else some false).map fun b => nr + if b then 1 else 0) 0

/-- `bch2_fix_child_of_deleted_snapshot` on the snapshot key of `id`, whose value is the entry
`s`: the key's new value, `s` itself where the code leaves the key alone. `r j` is the value
drawn for `skip[j]`. -/
def bch2_fix_child_of_deleted_snapshot (check_snapshots_will_run : Bool) (t : snapshot_table)
    (id : UInt32) (s : snapshot_t) (deleted : List snapshot_interior_delete)
    (r : Fin 3 → UInt32) (fuel : Nat) : Option snapshot_t :=
  if interior_delete_has_id deleted id ≠ 0 then some s
  else
    (nr_deleted_ancestors check_snapshots_will_run t id deleted fuel).bind fun nr =>
      if nr = 0 then some s
      else
        let depth := s.depth - nr
        if depth = 0 then some { s with depth := depth, skip := Vector.replicate 3 0 }
        else
          let parent := __bch2_snapshot_parent t id
          let fix := fix_skip_entry t deleted parent depth fuel
          (fix (s.skip.get 0) (r 0)).bind fun a => (fix (s.skip.get 1) (r 1)).bind fun b =>
            (fix (s.skip.get 2) (r 2)).map fun c =>
              { s with depth := depth, skip := bubble_sort_skip (Vector.ofFn ![a, b, c]) }

end Bcachefs
