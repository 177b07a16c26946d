import Bcachefs.Loop.While
import Mathlib.Algebra.Group.Nat.Defs

/-!
# `Bcachefs.Commands.Migrate`: the space `bcachefs migrate` marks unusable

`bcachefs migrate` (`src/commands/migrate.rs`) builds a file system inside the free space of
an existing one. It reserves a file on the host file system and reads the file's physical
extents with FIEMAP, sorted and merged (`ranges_sort_merge`, as `fiemap_iter` calls it). The
new file system may allocate only inside those extents: `mark_unreserved_space` marks as
`nouse` every bucket of device 0 that holds a byte of a hole between them below the end of the
device (`for_each_hole`, `mark_nouse_range`), and the buckets of the default superblock
layout.

Byte addresses and sectors are `u64` (`UInt64`), the bucket size the member's `u16`, widened to
`u32` as the code does. The `nouse` bitmap is unbounded here (`Nat → Bool`): `rust_set_bit`
sets a bit past the `nbuckets` it was allocated for all the same. The loop of
`mark_nouse_range` runs on fuel (`Loop.whileLoop`), `none` being a loop that never stops. Not
modelled: FIEMAP itself and the extent flags `fiemap_iter` rejects, which end the command.
-/

set_option autoImplicit false

namespace Bcachefs.Migrate

open Bcachefs.Loop

/-- `BCH_SB_SECTOR`: the sector of the first superblock. -/
def BCH_SB_SECTOR : UInt64 := 8

/-- `struct range` (`CRange`): the bytes `[start, end)`; `end` is `end_` here. -/
structure CRange where
  start : UInt64
  end_ : UInt64
deriving DecidableEq, Repr

/-- One range of `ranges_sort_merge`'s loop into the merged ones, kept last first: a range
that starts at or before the end of the last merged one extends it (`last_mut`), any other is
pushed. -/
def ranges_merge_step (merged : List CRange) (r : CRange) : List CRange :=
  match merged with
  | last :: rest =>
    if last.end_ ≥ r.start then { last with end_ := max last.end_ r.end_ } :: rest
    else r :: merged
  | [] => [r]

/-- `ranges_sort_merge`: a stable sort by start, then the merge. -/
def ranges_sort_merge (ranges : List CRange) : List CRange :=
  ((ranges.mergeSort fun a b => a.start ≤ b.start).foldl ranges_merge_step []).reverse

/-- One range of `for_each_hole`'s loop, on the holes found so far (last first) and `pos`. -/
def for_each_hole_step (s : List CRange × UInt64) (r : CRange) : List CRange × UInt64 :=
  (if r.start > s.2 then { start := s.2, end_ := r.start } :: s.1 else s.1, r.end_)

/-- `for_each_hole(ranges, max)`: the holes between the ranges, from `0`, and after the last
one up to `max`. -/
def for_each_hole (ranges : List CRange) (max : UInt64) : List CRange :=
  let s := ranges.foldl for_each_hole_step ([], 0)
  (if s.2 < max then { start := s.2, end_ := max } :: s.1 else s.1).reverse

/-- `sector_to_bucket`. -/
def sector_to_bucket (bucket_size : UInt32) (sector : UInt64) : UInt64 :=
  sector / bucket_size.toUInt64

/-- `bucket_to_sector`. -/
def bucket_to_sector (bucket_size : UInt32) (bucket : UInt64) : UInt64 :=
  bucket * bucket_size.toUInt64

/-- `rust_set_bit(nr, addr)`, on a bitmap without bound. -/
def set_bit (nouse : Nat → Bool) (nr : UInt64) : Nat → Bool :=
  fun n => if n = nr.toNat then true else nouse n

/-- A fuel the loop of `mark_nouse_range` stops within if it stops at all: in `2 ^ 64`
iterations the bucket takes every value, and the test reads nothing else. -/
def MARK_NOUSE_FUEL : Nat := 2 ^ 64

/-- One iteration of `mark_nouse_range`'s loop: mark the bucket, go to the next. -/
def mark_nouse_step (s : (Nat → Bool) × UInt64) : (Nat → Bool) × UInt64 :=
  (set_bit s.1 s.2, s.2 + 1)

/-- `mark_nouse_range(ca, sector_from, sector_to)`: a `loop` that marks the bucket of
`sector_from` and the next ones, and breaks once the next starts at or past `sector_to`. -/
def mark_nouse_range (bucket_size : UInt32) (nouse : Nat → Bool) (sector_from sector_to : UInt64) :
    Option (Nat → Bool) :=
  (whileLoop (fun s => bucket_to_sector bucket_size s.2 < sector_to) mark_nouse_step
    MARK_NOUSE_FUEL (mark_nouse_step (nouse, sector_to_bucket bucket_size sector_from))).map
    (·.1)

/-- `mark_unreserved_space` on device 0, of `bucket_size` sectors a bucket, `nbuckets` buckets
and the superblock layout's `sb_max_size_bits`, from its `nouse` bitmap. -/
def mark_unreserved_space (bucket_size : UInt16) (nbuckets : UInt64) (sb_max_size_bits : UInt8)
    (extents : List CRange) (nouse : Nat → Bool) : Option (Nat → Bool) := do
  let bucket_size := bucket_size.toUInt32
  let max_bytes := bucket_to_sector bucket_size nbuckets <<< 9
  let nouse ← (for_each_hole extents max_bytes).foldlM (fun nouse (hole : CRange) =>
      if hole.start = hole.end_ then some nouse
      else mark_nouse_range bucket_size nouse (hole.start >>> 9)
        ((hole.end_ + ((1 : UInt64) <<< 9) - 1) >>> 9))
    nouse
  let sb_size := (1 : UInt64) <<< sb_max_size_bits.toUInt64
  mark_nouse_range bucket_size nouse 0 (BCH_SB_SECTOR + sb_size * 2)

end Bcachefs.Migrate
