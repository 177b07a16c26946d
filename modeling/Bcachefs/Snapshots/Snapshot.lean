import Mathlib
import Bcachefs.Loop.While
import Bcachefs.Util.Limits

/-!
# `Bcachefs.Snapshots.Snapshot`: the in-memory snapshot table and ancestor lookups

Snapshots form a forest in which a parent's id is above its children's. The in-memory table
(`snapshots/types.h`) holds one `snapshot_t` per id, entry `U32_MAX - id` for snapshot `id`,
so the newest (smallest) ids sit at the end. Each entry carries its parent, a skiplist of
three ancestors and a bitmap of its ancestors among the next 128 ids.

`snapshots/snapshot.c` asks whether `ancestor` is an ancestor of `id` in two ways:

* `__bch2_snapshot_is_ancestor_early` walks the parent pointers;
* `__bch2_snapshot_is_ancestor` jumps with the skiplist (`get_ancestor_below`) until it is
  within 128 ids of `ancestor`, then reads the bitmap (`test_ancestor_bitmap`), unless the
  `check_snapshots` recovery pass will run, in which case it walks.

The bitmap is the one `bch2_mark_snapshot` computes when it loads an entry
(`bch2_mark_snapshot_is_ancestor`). Each `while` loop of the code runs on fuel here
(`Loop.While`): `none` is a loop that has not stopped within it.

Of `struct snapshot_t` the model keeps the fields these functions, and the tree traversal of
`Snapshots.TreeNext`, read.
-/

set_option autoImplicit false
set_option linter.style.nameCheck false

namespace Bcachefs

open Bcachefs.Loop

/-- `IS_ANCESTOR_BITMAP`: the ids above an entry its bitmap covers. -/
def IS_ANCESTOR_BITMAP : UInt32 := 128

/-- `enum snapshot_id_state`. -/
inductive snapshot_id_state where
  | SNAPSHOT_ID_empty
  | SNAPSHOT_ID_live
  | SNAPSHOT_ID_deleted
deriving DecidableEq, Repr

/-- Numerals of `Fin 3`, the skiplist slots, through this instance: a numeral then holds a
constant where `NeZero.succ` would leave a proof term of its own. -/
@[instance] theorem skiplist_size_ne_zero : NeZero (3 : Nat) := ⟨by decide⟩

/-- `struct snapshot_t`, with `is_ancestor` as one 128-bit word. -/
structure snapshot_t where
  state : snapshot_id_state
  parent : UInt32
  /-- random ancestors, sorted ascending -/
  skip : Vector UInt32 3
  depth : UInt32
  tree : UInt32
  is_ancestor : BitVec 128
  /-- the children, the larger first; a new node has none -/
  children : Vector UInt32 2 := Vector.replicate 2 0
deriving DecidableEq, Repr

/-- `struct snapshot_table`: `nr` entries, snapshot `id` at `U32_MAX - id`. -/
structure snapshot_table where
  nr : Nat
  s : Nat → snapshot_t

/-- `__snapshot_t`: the entry of `id`, if the table holds it. The functions below read it
with `Option.elim`, the model of `s ? ... : ...`. -/
def __snapshot_t (t : snapshot_table) (id : UInt32) : Option snapshot_t :=
  let idx := U32_MAX - id
  if idx.toNat < t.nr then some (t.s idx.toNat) else none

/-- `__bch2_snapshot_parent`: the parent of `id`, `0` for an id the table does not hold. -/
def __bch2_snapshot_parent (t : snapshot_table) (id : UInt32) : UInt32 :=
  (__snapshot_t t id).elim 0 fun s => s.parent

/-- `__bch2_snapshot_is_ancestor_early`: walk the parents of `id` while they are below
`ancestor`. -/
def __bch2_snapshot_is_ancestor_early (t : snapshot_table) (id ancestor : UInt32) (fuel : Nat) :
    Option Bool :=
  (whileLoop (fun id => id != 0 && id < ancestor) (__bch2_snapshot_parent t) fuel id).map
    fun id => id == ancestor

/-- `get_ancestor_below`: the highest skiplist entry not above `ancestor`, else the
parent. -/
def get_ancestor_below (t : snapshot_table) (id ancestor : UInt32) : UInt32 :=
  (__snapshot_t t id).elim 0 fun s =>
    if (s.skip.get 2) ≤ ancestor then (s.skip.get 2)
    else if (s.skip.get 1) ≤ ancestor then (s.skip.get 1)
    else if (s.skip.get 0) ≤ ancestor then (s.skip.get 0)
    else s.parent

/-- `test_ancestor_bitmap`: bit `ancestor - id - 1` of the bitmap of `id`. -/
def test_ancestor_bitmap (t : snapshot_table) (id ancestor : UInt32) : Bool :=
  (__snapshot_t t id).elim false fun s => s.is_ancestor.getLsbD (ancestor - id - 1).toNat

/-- `__bch2_snapshot_is_ancestor`. `check_snapshots_will_run` is
`recovery_pass_will_run(c, BCH_RECOVERY_PASS_check_snapshots)`. -/
def __bch2_snapshot_is_ancestor (check_snapshots_will_run : Bool) (t : snapshot_table)
    (id ancestor : UInt32) (fuel : Nat) : Option Bool :=
  if check_snapshots_will_run then __bch2_snapshot_is_ancestor_early t id ancestor fuel
  else
    let id? :=
      if ancestor ≥ IS_ANCESTOR_BITMAP then
        whileLoop (fun id => id != 0 && id < ancestor - IS_ANCESTOR_BITMAP)
          (fun id => get_ancestor_below t id ancestor) fuel id
      else some id
    id?.map fun id =>
      if id != 0 && id < ancestor then test_ancestor_bitmap t id ancestor else id == ancestor

/-- The `is_ancestor` loop of `bch2_mark_snapshot`: walk up from `id`, setting bit
`parent - id - 1` for each ancestor `parent` while it is within 128 ids. The state is the
next parent and the bitmap so far. -/
def bch2_mark_snapshot_is_ancestor (t : snapshot_table) (id : UInt32) (fuel : Nat) :
    Option (BitVec 128) :=
  (whileLoop (fun s : UInt32 × BitVec 128 => s.1 != 0 && s.1 - id - 1 < IS_ANCESTOR_BITMAP)
      (fun s => (__bch2_snapshot_parent t s.1, s.2 ||| BitVec.twoPow 128 (s.1 - id - 1).toNat))
      fuel (__bch2_snapshot_parent t id, 0)).map Prod.snd

attribute [grind] __snapshot_t __bch2_snapshot_is_ancestor

end Bcachefs
