import Bcachefs.Snapshots.Snapshot
import Bcachefs.Btree.Bkey

/-!
# `Bcachefs.Snapshots.TreeNext`: walking a snapshot tree

`__bch2_snapshot_tree_next` (`snapshots/snapshot.c`) steps through a snapshot tree in
preorder: to the node's first child, `children[0]`, if it has one; else up the parents, to
the first parent whose second child, `children[1]`, is neither `0` nor the node the walk came
up from, and down to that child. It counts the levels it goes down and up in `*depth`, an
`unsigned`. `__for_each_snapshot_child` (`snapshots/snapshot.h`) runs its body from `start`
on while the id is nonzero and not above `start`: the ids of a subtree are below its root.

`bch2_snapshot_child` reads the entry of `id` with no check: for an id the table does not
hold the code dereferences `NULL`, and the model gives `none`. Each loop runs on fuel
(`Loop.While`). The ids a loop passes through are a function of the id alone, so a loop that
has not stopped after `2 ^ 32 + 1` tests has come back to an id it was at and never stops:
`none` is also such a loop.

The walk relies on the rules `bch2_snapshot_validate` checks of each key of the snapshots
btree: a parent above the node, the children below it, the larger first and distinct.
-/

set_option autoImplicit false
set_option linter.style.nameCheck false

namespace Bcachefs

open Bcachefs.Loop

/-- `bch2_snapshot_child`: `children[child]` of the entry of `id`. -/
def bch2_snapshot_child (t : snapshot_table) (id : UInt32) (child : Fin 2) : Option UInt32 :=
  (__snapshot_t t id).map fun s => s.children.get child

/-- `bch2_snapshot_left_child`. -/
def bch2_snapshot_left_child (t : snapshot_table) (id : UInt32) : Option UInt32 :=
  bch2_snapshot_child t id ⟨0, Nat.zero_lt_two⟩

/-- `bch2_snapshot_right_child`. -/
def bch2_snapshot_right_child (t : snapshot_table) (id : UInt32) : Option UInt32 :=
  bch2_snapshot_child t id ⟨1, Nat.one_lt_two⟩

/-- A fuel each walk of a snapshot tree stops within if it stops at all: the `2 ^ 32` ids,
and one test more. -/
def SNAPSHOT_WALK_FUEL : Nat := 2 ^ 32 + 1

/-- One iteration of the climb of `__bch2_snapshot_tree_next`, from `id`, whose parent is
nonzero: `(*depth)--`, then to the parent's second child `n` if `n && n != id`, with
`(*depth)++`, else on from the parent. The state is the node, `*depth`, and the child found,
`0` while there is none. -/
def tree_next_climb (t : snapshot_table) (s : UInt32 × UInt32 × UInt32) :
    Option (UInt32 × UInt32 × UInt32) :=
  let parent := __bch2_snapshot_parent t s.1
  (bch2_snapshot_right_child t parent).map fun n =>
    if n != 0 && n != s.1 then (s.1, s.2.1 - 1 + 1, n) else (parent, s.2.1 - 1, 0)

/-- `__bch2_snapshot_tree_next`: the next id, `0` past the tree's last, and `*depth`. -/
def __bch2_snapshot_tree_next (t : snapshot_table) (id depth : UInt32) :
    Option (UInt32 × UInt32) :=
  (bch2_snapshot_left_child t id).bind fun n =>
    if n != 0 then some (n, depth + 1)
    else
      (whileLoop (fun o => o.elim false fun s => s.2.2 == 0 && __bch2_snapshot_parent t s.1 != 0)
          (fun o => o.bind (tree_next_climb t)) SNAPSHOT_WALK_FUEL (some (id, depth, 0))).bind
        fun o => o.map fun s => (s.2.2, s.2.1)

/-- `__for_each_snapshot_child(c, t, start, &depth, id)`: the ids its body runs on, each
with the `depth` the body reads, from `depth` at first. -/
def __for_each_snapshot_child (t : snapshot_table) (start depth : UInt32) :
    Option (List (UInt32 × UInt32)) :=
  (whileLoop (fun o => o.elim false fun s => s.1 != 0 && s.1 ≤ start)
      (fun o => o.bind fun s =>
        (__bch2_snapshot_tree_next t s.1 s.2.1).map fun r => (r.1, r.2, s.2.2 ++ [(s.1, s.2.1)]))
      SNAPSHOT_WALK_FUEL (some (start, depth, []))).bind
    fun o => o.map fun s => s.2.2

/-! ### The rules of a snapshot key -/

/-- `bkey_lt`: positions by inode, then offset; the snapshot field is not compared. -/
def bkey_lt (l r : bpos) : Bool :=
  if l.inode != r.inode then l.inode < r.inode else l.offset < r.offset

/-- `bkey_gt`. -/
def bkey_gt (l r : bpos) : Bool := bkey_lt r l

/-- The `BCH_FSCK_ERR_*` ids `bch2_snapshot_validate` reports. -/
inductive bch_fsck_err where
  | snapshot_pos_bad
  | snapshot_parent_bad
  | snapshot_children_not_normalized
  | snapshot_child_duplicate
  | snapshot_child_bad
  | snapshot_skiplist_not_normalized
  | snapshot_skiplist_bad
deriving DecidableEq, Repr

/-- `bch2_snapshot_validate` on the key at `p` whose value has the fields of `s`: the first
rule it breaks (`bkey_fsck_err_on` jumps to the exit), else `0`. `has_skip` is
`bkey_has_field(k.k, snapshot, skip)`, false for keys written before the skiplist. -/
def bch2_snapshot_validate (p : bpos) (s : snapshot_t) (has_skip : Bool) :
    Except bch_fsck_err Unit := do
  if bkey_gt p ⟨0, U32_MAX.toUInt64, 0⟩ || bkey_lt p ⟨0, 1, 0⟩ then
    throw .snapshot_pos_bad
  let id := s.parent
  if id != 0 && id.toUInt64 ≤ p.offset then throw .snapshot_parent_bad
  if s.children.get 0 < s.children.get 1 then throw .snapshot_children_not_normalized
  if s.children.get 0 != 0 && s.children.get 0 == s.children.get 1 then
    throw .snapshot_child_duplicate
  -- `for (i = 0; i < 2; i++)`: one error for either child
  if s.children.toList.any fun id => p.offset ≤ id.toUInt64 then throw .snapshot_child_bad
  if has_skip then
    if s.skip.get 0 > s.skip.get 1 || s.skip.get 1 > s.skip.get 2 then
      throw .snapshot_skiplist_not_normalized
    if s.skip.toList.any fun id => id != 0 && id < s.parent then
      throw .snapshot_skiplist_bad

end Bcachefs
