import Mathlib

/-!
# `Bcachefs.Alloc.Bucket`: one bucket's alloc key and the writers that change it

A bucket's state is its `bch_alloc_v4` value (`alloc/format.h`). Three writers change it,
and every change passes through the transactional phase of `bch2_trigger_alloc`
(`alloc/background.c`), which normalises the new value before it is committed:

* `__mark_pointer` (`alloc/buckets.c`): a pointer into the bucket is inserted or
  overwritten, and its sectors are added to or taken from one of the bucket's counts
  (`bch2_bucket_ref_update` checks the pointer's generation against the bucket's first);
* `__discard_mark_free` (`alloc/discard.c`): a discarded `need_discard` bucket becomes free;
* `bch2_alloc_write_oldest_gen` (`btree/check.c`, run by `bch2_gc_gens`): the oldest
  generation a pointer into the bucket may still have.

`alloc_data_type` computes a bucket's type from its counts and its generation gap; the
trigger makes the `need_discard` state sticky (a bucket that held data must be discarded
before it is reused) and defers the generation bump that invalidates old pointers through
the `NEED_INC_GEN` flag, until the bucket is empty and not open.

The model keeps the members of `bch_alloc_v4` these functions read or write: `io_time`,
the backpointer flags and `nr_external_backpointers` are left out, and the trigger's other
effects (the freespace, need_discard and LRU indexes, accounting, the atomic phase's
journal sequence bookkeeping) are not modelled. Generations are `UInt8` as in the source,
so all generation arithmetic wraps.
-/

set_option autoImplicit false
set_option linter.style.nameCheck false

namespace Bcachefs

/-- `enum bch_data_type` (`alloc/accounting_format.h`). -/
inductive bch_data_type where
  | BCH_DATA_free
  | BCH_DATA_sb
  | BCH_DATA_journal
  | BCH_DATA_btree
  | BCH_DATA_user
  | BCH_DATA_cached
  | BCH_DATA_parity
  | BCH_DATA_stripe
  | BCH_DATA_need_gc_gens
  | BCH_DATA_need_discard
  | BCH_DATA_unstriped
  | BCH_DATA_multiple
deriving DecidableEq, Repr

open bch_data_type

/-- `data_type_is_empty`: the types of a bucket that holds no data. -/
def data_type_is_empty : bch_data_type → Bool
  | BCH_DATA_free | BCH_DATA_need_gc_gens | BCH_DATA_need_discard => true
  | _ => false

/-- `bucket_data_type`: cached and stripe data are user data from the bucket's side. -/
def bucket_data_type : bch_data_type → bch_data_type
  | BCH_DATA_cached | BCH_DATA_stripe => BCH_DATA_user
  | t => t

/-- `bucket_data_type_mismatch`. -/
def bucket_data_type_mismatch (bucket ptr : bch_data_type) : Bool :=
  !data_type_is_empty bucket && bucket != BCH_DATA_multiple &&
    bucket_data_type bucket != bucket_data_type ptr

attribute [grind] data_type_is_empty bucket_data_type bucket_data_type_mismatch

/-- The members of `struct bch_alloc_v4` the allocator's state machine reads and writes;
`need_discard` and `need_inc_gen` are the `BCH_ALLOC_V4_NEED_DISCARD` and
`BCH_ALLOC_V4_NEED_INC_GEN` bits of `flags`. -/
structure bch_alloc_v4 where
  journal_seq_nonempty : UInt64
  need_discard : Bool
  need_inc_gen : Bool
  generation : UInt8
  oldest_gen : UInt8
  data_type : bch_data_type
  dirty_sectors : UInt32
  cached_sectors : UInt32
  stripe_refcount : UInt32
  journal_seq_empty : UInt64
  stripe_sectors : UInt32
deriving DecidableEq, Repr

/-- `BUCKET_GC_GEN_MAX`: how out of date a pointer's generation is allowed to be. -/
def BUCKET_GC_GEN_MAX : Nat := 96

/-- `U32_MAX`, as the number the sector-count check compares with. -/
def U32_MAX_NAT : Nat := 2 ^ 32 - 1

/-- `alloc_gc_gen`: the `u8` gap between the bucket's generation and the oldest one a
pointer into it may have. -/
def alloc_gc_gen (a : bch_alloc_v4) : UInt8 := a.generation - a.oldest_gen

/-- `bch2_bucket_sectors_total` (an `s64` of three `u32`). -/
def bch2_bucket_sectors_total (a : bch_alloc_v4) : Nat :=
  a.stripe_sectors.toNat + a.dirty_sectors.toNat + a.cached_sectors.toNat

/-- `bch2_bucket_sectors_dirty`. -/
def bch2_bucket_sectors_dirty (a : bch_alloc_v4) : Nat :=
  a.stripe_sectors.toNat + a.dirty_sectors.toNat

/-- `alloc_data_type`: the type a bucket has, from its counts and generation gap, with
`data_type` a hint for the kind of data it holds. An empty bucket keeps the hint
`need_discard`; otherwise it is free, or waits for `gc_gens` when its gap is too wide. -/
def alloc_data_type (a : bch_alloc_v4) (data_type : bch_data_type) : bch_data_type :=
  if a.data_type = BCH_DATA_multiple then BCH_DATA_multiple
  else if a.stripe_refcount ≠ 0 then
    if data_type = BCH_DATA_parity then data_type else BCH_DATA_stripe
  else if bch2_bucket_sectors_dirty a ≠ 0 then bucket_data_type data_type
  else if a.cached_sectors ≠ 0 then BCH_DATA_cached
  else if data_type = BCH_DATA_need_discard then BCH_DATA_need_discard
  else if BUCKET_GC_GEN_MAX ≤ (alloc_gc_gen a).toNat then BCH_DATA_need_gc_gens
  else BCH_DATA_free

/-- `alloc_data_type_set`. -/
def alloc_data_type_set (a : bch_alloc_v4) (data_type : bch_data_type) : bch_alloc_v4 :=
  { a with data_type := alloc_data_type a data_type }

/-- `gen_cmp`: the difference of two generations as an `s8`. -/
def gen_cmp (a b : UInt8) : Int := (a - b).toInt8.toInt

/-- `gen_after`: how many generations `a` is after `b`, `0` if it is not. -/
def gen_after (a b : UInt8) : Int := max 0 (gen_cmp a b)

attribute [grind] alloc_data_type

/-! ### The writers -/

/-- The members of a decoded pointer `__mark_pointer` reads: `p->ptr.generation`,
`p->ptr.cached` and `p->has_ec`. -/
structure extent_ptr_decoded where
  generation : UInt8
  cached : Bool
  has_ec : Bool
deriving DecidableEq, Repr

/-- The outcome of `bch2_bucket_ref_update` on the bucket's type and one of its counts. -/
inductive ref_update where
  /-- A negative return: the transaction fails and nothing is committed. -/
  | err
  /-- `1`, a stale cached pointer: there is nothing to account, and the caller skips it. -/
  | stale
  /-- `0`, with the bucket's type and count as the update leaves them. -/
  | ok (data_type : bch_data_type) (sectors : UInt32)
deriving DecidableEq, Repr

/-- `bucket_ref_update_err`: an error when inserting; an overwrite's error is ignored
(`ret = 0`) and leaves the bucket as it is. -/
def bucket_ref_update_err (inserting : Bool) (bucket_data_type : bch_data_type)
    (bucket_sectors : UInt32) : ref_update :=
  if inserting then .err else .ok bucket_data_type bucket_sectors

/-- `__bch2_bucket_ref_update`, the slow path: a pointer newer than the bucket, too stale,
or stale and dirty is an error; a stale cached pointer is skipped; a pointer of another
kind of data turns the bucket to `multiple`; a count out of `u32` range is an error. -/
def __bch2_bucket_ref_update (ptr : extent_ptr_decoded) (sectors : Int)
    (ptr_data_type : bch_data_type) (b_gen : UInt8) (bucket_data_type : bch_data_type)
    (bucket_sectors : UInt32) : ref_update :=
  let inserting := decide (0 < sectors)
  if 0 < gen_after ptr.generation b_gen then
    bucket_ref_update_err inserting bucket_data_type bucket_sectors
  -- `gen_cmp(...) > BUCKET_GC_GEN_MAX`: the `int` is compared as `unsigned`
  else if (BUCKET_GC_GEN_MAX : Int) < gen_cmp b_gen ptr.generation % 2 ^ 32 then
    bucket_ref_update_err inserting bucket_data_type bucket_sectors
  else if b_gen ≠ ptr.generation ∧ ptr.cached then .stale
  else if b_gen ≠ ptr.generation then
    bucket_ref_update_err inserting bucket_data_type bucket_sectors
  else
    let bucket_data_type :=
      if bucket_data_type_mismatch bucket_data_type ptr_data_type then BCH_DATA_multiple
      else bucket_data_type
    -- `(u64) *bucket_sectors + sectors > U32_MAX`
    if (U32_MAX_NAT : Int) < bucket_sectors.toNat + sectors ∨
        bucket_sectors.toNat + sectors < 0 then
      bucket_ref_update_err inserting bucket_data_type bucket_sectors
    else .ok bucket_data_type (bucket_sectors.toNat + sectors).toNat.toUInt32

/-- `bch2_bucket_ref_update`: the fast path adds the sectors when the pointer's generation
is the bucket's, the data agrees and the count stays in range. -/
def bch2_bucket_ref_update (ptr : extent_ptr_decoded) (sectors : Int)
    (ptr_data_type : bch_data_type) (b_gen : UInt8) (bucket_data_type : bch_data_type)
    (bucket_sectors : UInt32) : ref_update :=
  if b_gen ≠ ptr.generation ∨ bucket_data_type_mismatch bucket_data_type ptr_data_type ∨
      (U32_MAX_NAT : Int) < bucket_sectors.toNat + sectors ∨
      bucket_sectors.toNat + sectors < 0 then
    __bch2_bucket_ref_update ptr sectors ptr_data_type b_gen bucket_data_type bucket_sectors
  else .ok bucket_data_type (bucket_sectors.toNat + sectors).toNat.toUInt32

/-- `__mark_pointer`: the pointer's sectors go to the stripe, dirty or cached count, and an
insert then retypes the bucket for the pointer's data. The value returned is what the
transaction commits: on an error nothing; for a stale cached pointer, which the caller
skips, the alloc key `bch2_trans_start_alloc_update` queued, unchanged. -/
def __mark_pointer (p : extent_ptr_decoded) (sectors : Int) (ptr_data_type : bch_data_type)
    (a : bch_alloc_v4) (insert : Bool) : Option bch_alloc_v4 :=
  let dst := if p.has_ec then a.stripe_sectors
    else if !p.cached then a.dirty_sectors else a.cached_sectors
  match bch2_bucket_ref_update p sectors ptr_data_type a.generation a.data_type dst with
  | .err => none
  | .stale => some a
  | .ok data_type n =>
      let a := if p.has_ec then { a with data_type, stripe_sectors := n }
        else if !p.cached then { a with data_type, dirty_sectors := n }
        else { a with data_type, cached_sectors := n }
      some (if insert then alloc_data_type_set a ptr_data_type else a)

/-- `__discard_mark_free`: only a `need_discard` bucket may be marked free (anything else
sends the filesystem emergency read-only); the discard bookkeeping is cleared. -/
def __discard_mark_free (a : bch_alloc_v4) : Option bch_alloc_v4 :=
  if a.data_type ≠ BCH_DATA_need_discard then none
  else
    let a := { a with need_discard := false, data_type := BCH_DATA_free,
                      journal_seq_nonempty := 0, journal_seq_empty := 0 }
    some (alloc_data_type_set a a.data_type)

/-- `bch2_alloc_write_oldest_gen`: `gc_gens` records the oldest generation a pointer into
the bucket still has; an unchanged value is not written. -/
def bch2_alloc_write_oldest_gen (a : bch_alloc_v4) (oldest_gen : UInt8) : Option bch_alloc_v4 :=
  if a.oldest_gen = oldest_gen then none else some { a with oldest_gen }

attribute [grind] __bch2_bucket_ref_update bch2_bucket_ref_update __mark_pointer __discard_mark_free

/-! ### The trigger -/

/-- The first block of the transactional phase of `bch2_trigger_alloc` after the type is
recomputed: a bucket that held data and is now empty must be discarded before it is
reused; superblock and journal buckets are not discarded. -/
def alloc_trigger_need_discard (old_a new_a : bch_alloc_v4) : bch_alloc_v4 :=
  if !data_type_is_empty old_a.data_type && data_type_is_empty new_a.data_type &&
      old_a.data_type != BCH_DATA_sb && old_a.data_type != BCH_DATA_journal then
    { new_a with data_type := BCH_DATA_need_discard }
  else new_a

/-- The next block: a bucket that starts to hold data owes a generation bump and a discard
(the error logged when it is not open changes nothing). -/
def alloc_trigger_nonempty (old_a new_a : bch_alloc_v4) : bch_alloc_v4 :=
  if data_type_is_empty old_a.data_type && !data_type_is_empty new_a.data_type then
    { new_a with need_inc_gen := true, need_discard := true }
  else new_a

/-- The repair of a free bucket with discard bookkeeping left: back to `need_discard` when
it still needs a discard, otherwise its journal sequence numbers are cleared. -/
def alloc_trigger_free_bookkeeping (new_a : bch_alloc_v4) : bch_alloc_v4 :=
  if new_a.data_type = BCH_DATA_free ∧
      (new_a.need_discard ∨ new_a.journal_seq_nonempty ≠ 0 ∨ new_a.journal_seq_empty ≠ 0) then
    if new_a.need_discard then { new_a with data_type := BCH_DATA_need_discard }
    else { new_a with journal_seq_nonempty := 0, journal_seq_empty := 0 }
  else new_a

/-- The deferred generation bump: an empty bucket that owes one and is not open
(`bch2_bucket_is_open_safe`) takes it, the oldest generation following when no pointer
can be older, and its type is recomputed for the new gap. -/
def alloc_trigger_inc_gen (new_a : bch_alloc_v4) (is_open : Bool) : bch_alloc_v4 :=
  if data_type_is_empty new_a.data_type && new_a.need_inc_gen && !is_open then
    let new_a :=
      if new_a.oldest_gen = new_a.generation ∧ bch2_bucket_sectors_total new_a = 0 then
        { new_a with oldest_gen := new_a.oldest_gen + 1 }
      else new_a
    let new_a := { new_a with generation := new_a.generation + 1, need_inc_gen := false }
    alloc_data_type_set new_a new_a.data_type
  else new_a

/-- The transactional phase of `bch2_trigger_alloc` on the bucket's old and new values,
`is_open` being `bch2_bucket_is_open_safe`: the type is recomputed, then the blocks above
run in the source's order. The warnings of the source change nothing and are left out. -/
def bch2_trigger_alloc_transactional (old_a new_a : bch_alloc_v4) (is_open : Bool) :
    bch_alloc_v4 :=
  let new_a := alloc_data_type_set new_a new_a.data_type
  let new_a := alloc_trigger_need_discard old_a new_a
  let new_a := alloc_trigger_nonempty old_a new_a
  let new_a := alloc_trigger_free_bookkeeping new_a
  alloc_trigger_inc_gen new_a is_open

attribute [grind] alloc_trigger_need_discard alloc_trigger_nonempty alloc_trigger_free_bookkeeping alloc_trigger_inc_gen

/-- The updates of one bucket the allocator's state machine is made of. -/
inductive bucket_update where
  /-- A pointer is inserted (`insert`) or overwritten, with `bucket_len` sectors of data
  of type `ptr_data_type` (`bch2_trigger_pointer`). -/
  | mark_pointer (p : extent_ptr_decoded) (bucket_len : UInt32) (ptr_data_type : bch_data_type)
      (insert : Bool)
  | discard_mark_free
  | write_oldest_gen (oldest_gen : UInt8)
deriving DecidableEq, Repr

/-- The value a writer asks to commit, `none` when it writes nothing or fails. -/
def bucket_update.write (a : bch_alloc_v4) : bucket_update → Option bch_alloc_v4
  | .mark_pointer p bucket_len ptr_data_type insert =>
      -- `*sectors = insert ? bp.v.bucket_len : -(s64) bp.v.bucket_len`
      let sectors : Int := if insert then bucket_len.toNat else -(bucket_len.toNat : Int)
      __mark_pointer p sectors ptr_data_type a insert
  | .discard_mark_free => __discard_mark_free a
  | .write_oldest_gen oldest_gen => bch2_alloc_write_oldest_gen a oldest_gen

/-- One committed update: the writer's value through the trigger's transactional phase;
a failed or empty write leaves the bucket as it was. -/
def bucket_step (a : bch_alloc_v4) (u : bucket_update) (is_open : Bool) : bch_alloc_v4 :=
  match u.write a with
  | some new_a => bch2_trigger_alloc_transactional a new_a is_open
  | none => a

/-- A run of committed updates, each with what `bch2_bucket_is_open_safe` answers when it
runs. -/
def bucket_run (a : bch_alloc_v4) (us : List (bucket_update × Bool)) : bch_alloc_v4 :=
  us.foldl (fun a u => bucket_step a u.1 u.2) a

attribute [grind] bucket_step

/-- No updates leave the bucket as it is. -/
@[simp] theorem bucket_run_nil (a : bch_alloc_v4) : bucket_run a [] = a := rfl

/-- A run is its first update, then the rest from there. -/
@[simp] theorem bucket_run_cons (a : bch_alloc_v4) (u : bucket_update × Bool)
    (us : List (bucket_update × Bool)) :
    bucket_run a (u :: us) = bucket_run (bucket_step a u.1 u.2) us := rfl

/-- Two runs in a row are one run of both. -/
theorem bucket_run_append (a : bch_alloc_v4) (us vs : List (bucket_update × Bool)) :
    bucket_run a (us ++ vs) = bucket_run (bucket_run a us) vs :=
  List.foldl_append

end Bcachefs
