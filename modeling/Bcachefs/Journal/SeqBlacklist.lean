import Bcachefs.Util.EytzingerSort
import Bcachefs.Util.Eytzinger
import Bcachefs.Util.Limits
import Bcachefs.Btree.Bkey

/-!
# `Bcachefs.Journal.SeqBlacklist`: the blacklist of journal sequence numbers

`journal/seq_blacklist.c` records the journal sequence numbers that recovery found newer than
the newest journal entry written, so that the btree code goes on ignoring the updates they
carry. The superblock keeps them as a list of half-open ranges `[start, end)`
(`struct journal_seq_blacklist_entry`), which `bch2_sb_journal_seq_blacklist_validate`
accepts when every range is nonempty and each ends at or before the next starts. In memory
they are a table of the same ranges sorted by start into Eytzinger order
(`bch2_blacklist_table_initialize`, through `eytzinger0_sort`), which the lookups search:

* `bch2_journal_seq_is_blacklisted` takes the last range starting at or before `seq`
  (`eytzinger0_find_le`) and marks it dirty when asked;
* `bch2_journal_seq_next_blacklisted` takes the first range ending after `seq`
  (`eytzinger0_find_gt` on the ends);
* `bch2_journal_seq_next_nonblacklisted` hops from range to range until `seq` is in none;
* `bch2_journal_last_blacklisted_seq` reads the end of the last range in the inorder.

`bch2_journal_seq_blacklist_add` merges `[start, end)` into the superblock list: its loop
skips the ranges that end before `start`, takes out and merges every range that overlaps or
touches the new one, stops at the first range that starts after `end`, and inserts the merged
range there. `bch2_blacklist_entries_gc` walks the table in inorder beside the superblock
list, checks that they agree, and keeps the ranges that are dirty or reach the oldest
sequence number found on disk.

Of `struct bch_fs` the model has the superblock field (`none` when it is absent), the table
(`none` before it is built) and `journal.oldest_seq_found_ondisk`. The calls whose outcome
this file does not decide are arguments: whether `bch2_sb_realloc` can grow the superblock
buffers when `bch2_sb_field_resize` grows the field (a field that does not grow fits the
buffers it is in, so that resize succeeds), what `bch2_write_super` returns, and whether
`kzalloc` of a new table succeeds. A failure returns its error (`blacklist_err`) with the
file system as the code leaves it: the superblock edited in memory and the old table, after
a failed write or allocation. Left out: `sb_lock`, the feature bit `add` sets, which nothing
here reads, and `bch2_sb_journal_seq_blacklist_to_text`. A `BUG_ON` that compares the table
with the superblock list is a `none`, as is the read of a range past the end of the list;
the proofs show that neither happens. The loops that run `eytzinger0_sort` and the searches
are those of `Util.EytzingerSort` and `Util.Eytzinger`, on fuel, and `none` is also a loop
that does not stop.
-/

set_option autoImplicit false
set_option linter.style.nameCheck false

namespace Bcachefs.Journal

open Bcachefs.Loop

/-- `struct journal_seq_blacklist_entry`: the blacklisted sequence numbers `[start, end)`. -/
structure journal_seq_blacklist_entry where
  start : UInt64
  «end» : UInt64
deriving DecidableEq, Repr

/-- `struct journal_seq_blacklist_table_entry`. -/
structure journal_seq_blacklist_table_entry where
  start : UInt64
  «end» : UInt64
  dirty : Bool
deriving DecidableEq, Repr, Inhabited

/-- `struct journal_seq_blacklist_table`: `nr` entries, element `i` at `entries i`. -/
structure journal_seq_blacklist_table where
  nr : Nat
  entries : Nat → journal_seq_blacklist_table_entry

/-- What the blacklist code reads and writes of `struct bch_fs`. -/
structure bch_fs where
  /-- The superblock field `journal_seq_blacklist`, `none` when the superblock has none. -/
  journal_seq_blacklist : Option (List journal_seq_blacklist_entry)
  journal_seq_blacklist_table : Option journal_seq_blacklist_table
  /-- `c->journal.oldest_seq_found_ondisk`. -/
  oldest_seq_found_ondisk : UInt64

/-- `blacklist_nr_entries(bl)`. -/
def blacklist_nr_entries : Option (List journal_seq_blacklist_entry) → Nat
  | none => 0
  | some bl => bl.length

/-! ### Validation -/

/-- The text `bch2_sb_journal_seq_blacklist_validate` prints for an entry `i` whose range is
empty: `"entry %u start >= end (%llu >= %llu)"`. -/
def blacklist_start_end_msg (i : Nat) (e : journal_seq_blacklist_entry) : String :=
  "entry " ++ toString i ++ " start >= end (" ++ toString e.start ++ " >= " ++
    toString e.«end» ++ ")"

/-- The text it prints when entry `i - 1` ends after entry `i` starts:
`"entry %u out of order with next entry (%llu > %llu)"`, with `i` the later entry. -/
def blacklist_order_msg (i : Nat) (e e' : journal_seq_blacklist_entry) : String :=
  "entry " ++ toString i ++ " out of order with next entry (" ++ toString e.«end» ++ " > " ++
    toString e'.start ++ ")"

/-- The loop of `bch2_sb_journal_seq_blacklist_validate` from entry `i` on: the text it prints
into `err` where it returns `-BCH_ERR_invalid_sb_journal_seq_blacklist`. -/
def blacklist_validate_from : List journal_seq_blacklist_entry → Nat → Except String Unit
  | [], _ => .ok ()
  | e :: rest, i =>
    if e.start ≥ e.«end» then .error (blacklist_start_end_msg i e)
    else
      match rest with
      | [] => .ok ()
      | e' :: _ =>
        if e.«end» > e'.start then .error (blacklist_order_msg (i + 1) e e')
        else blacklist_validate_from rest (i + 1)

/-- `bch2_sb_journal_seq_blacklist_validate`. -/
def bch2_sb_journal_seq_blacklist_validate (bl : List journal_seq_blacklist_entry) :
    Except String Unit :=
  blacklist_validate_from bl 0

/-! ### The table -/

/-- `journal_seq_blacklist_table_cmp`: by start. -/
def journal_seq_blacklist_table_cmp (l r : journal_seq_blacklist_table_entry) : Int :=
  cmp_int l.start r.start

/-- `journal_seq_blacklist_table_end_cmp`: by end. -/
def journal_seq_blacklist_table_end_cmp (l r : journal_seq_blacklist_table_entry) : Int :=
  cmp_int l.«end» r.«end»

/-- The entries the loop of `bch2_blacklist_table_initialize` copies from the superblock
list; the table is `kzalloc`ed, so they are not dirty, and past `nr` it is zero. -/
def blacklist_table_entries (bl : List journal_seq_blacklist_entry) :
    Nat → journal_seq_blacklist_table_entry := fun i =>
  match bl[i]? with
  | some e => { start := e.start, «end» := e.«end», dirty := false }
  | none => default

/-- The errors of this file: `-ENOSPC_sb_journal_seq_blacklist` when the superblock cannot
grow, `-ENOMEM_blacklist_table_init` when the table's `kzalloc` fails, and a nonzero return
`ret` of `bch2_write_super`. -/
inductive blacklist_err where
  | ENOSPC_sb_journal_seq_blacklist
  | ENOMEM_blacklist_table_init
  | write_super (ret : Int)
deriving DecidableEq, Repr

/-- `bch2_blacklist_table_initialize`, given whether `kzalloc` of the table succeeds: with no
superblock field it leaves the table as it is; a failed allocation leaves the old table. -/
def bch2_blacklist_table_initialize (c : bch_fs) (alloc_ok : Bool) :
    Option (Except blacklist_err Unit × bch_fs) :=
  match c.journal_seq_blacklist with
  | none => some (.ok (), c)
  | some bl =>
    if !alloc_ok then some (.error .ENOMEM_blacklist_table_init, c)
    else
      (eytzinger0_sort journal_seq_blacklist_table_cmp (blacklist_table_entries bl)
          bl.length).map fun entries =>
        (.ok (), { c with journal_seq_blacklist_table := some { nr := bl.length, entries := entries } })

attribute [grind] bch2_blacklist_table_initialize

/-! ### Lookups -/

/-- The search key `{ .start = seq }`. -/
def blacklist_search_start (seq : UInt64) : journal_seq_blacklist_table_entry :=
  { start := seq, «end» := 0, dirty := false }

/-- The search key `{ .end = seq }`. -/
def blacklist_search_end (seq : UInt64) : journal_seq_blacklist_table_entry :=
  { start := 0, «end» := seq, dirty := false }

/-- `bch2_journal_seq_next_blacklisted`. -/
def bch2_journal_seq_next_blacklisted (c : bch_fs) (seq : UInt64) : Option UInt64 :=
  match c.journal_seq_blacklist_table with
  | none => some U64_MAX
  | some t =>
    (eytzinger0_find_gt t.entries t.nr.toUInt64 journal_seq_blacklist_table_end_cmp
        (blacklist_search_end seq)).map fun idx =>
      if idx < 0 then U64_MAX else max seq (t.entries idx.toNatClampNeg).start

/-- The `while (true)` loop of `bch2_journal_seq_next_nonblacklisted`, on fuel. -/
def next_nonblacklisted_loop (t : journal_seq_blacklist_table) : Nat → UInt64 → Option UInt64
  | 0, _ => none
  | fuel + 1, seq =>
    (eytzinger0_find_le t.entries t.nr.toUInt64 journal_seq_blacklist_table_cmp
        (blacklist_search_start seq)).bind fun idx =>
      if idx < 0 || (t.entries idx.toNatClampNeg).«end» ≤ seq then some seq
      else next_nonblacklisted_loop t fuel (t.entries idx.toNatClampNeg).«end»

/-- `bch2_journal_seq_next_nonblacklisted`. Each round of the loop moves `seq` up, so `2 ^ 64`
rounds are enough for any run that stops. -/
def bch2_journal_seq_next_nonblacklisted (c : bch_fs) (seq : UInt64) : Option UInt64 :=
  match c.journal_seq_blacklist_table with
  | none => some seq
  | some t => next_nonblacklisted_loop t (2 ^ 64) seq

/-- `bch2_journal_seq_is_blacklisted`: the answer, and the file system with the range found
marked dirty when `dirty` is set. The `BUG_ON(t->entries[idx].start > seq)` is left out: the
search returns a range that starts at or before `seq`. -/
def bch2_journal_seq_is_blacklisted (c : bch_fs) (seq : UInt64) (dirty : Bool) :
    Option (Bool × bch_fs) :=
  match c.journal_seq_blacklist_table with
  | none => some (false, c)
  | some t =>
    (eytzinger0_find_le t.entries t.nr.toUInt64 journal_seq_blacklist_table_cmp
        (blacklist_search_start seq)).map fun idx =>
      if idx < 0 then (false, c)
      else
        let e := t.entries idx.toNatClampNeg
        if seq ≥ e.«end» then (false, c)
        else if dirty then
          (true, { c with journal_seq_blacklist_table := some { t with
            entries := Function.update t.entries idx.toNatClampNeg { e with dirty := true } } })
        else (true, c)

/-- `bch2_journal_last_blacklisted_seq`. -/
def bch2_journal_last_blacklisted_seq (c : bch_fs) : UInt64 :=
  match c.journal_seq_blacklist_table with
  | none => 0
  | some t => if t.nr = 0 then 0 else (t.entries (eytzinger0_last t.nr.toUInt32).toNat).«end» - 1

attribute [grind] bch2_journal_seq_next_blacklisted bch2_journal_seq_is_blacklisted bch2_journal_last_blacklisted_seq

/-! ### Adding a range -/

/-- The variables of the loop of `bch2_journal_seq_blacklist_add`: the entries `bl->start[0..nr)`,
the index `i`, and the range being added, widened by each entry merged into it. -/
structure blacklist_add_state where
  entries : List journal_seq_blacklist_entry
  i : Nat
  start : UInt64
  «end» : UInt64

/-- `while (i < nr)`, with the `break` on `end < le64_to_cpu(e->start)`. -/
def blacklist_add_cond (s : blacklist_add_state) : Bool :=
  match s.entries[s.i]? with
  | none => false
  | some e => !decide (s.«end» < e.start)

/-- The body: an entry that ends before `start` is passed over; any other is merged into
`[start, end)` and removed (`array_remove_item`). -/
def blacklist_add_step (s : blacklist_add_state) : blacklist_add_state :=
  match s.entries[s.i]? with
  | none => s
  | some e =>
    if s.start > e.«end» then { s with i := s.i + 1 }
    else
      { s with entries := s.entries.eraseIdx s.i, start := min s.start e.start,
               «end» := max s.«end» e.«end» }

/-- `sb_blacklist_u64s(nr)`: the `u64`s of a field of `nr` entries, its 8-byte header and
16 bytes an entry. -/
def sb_blacklist_u64s (nr : Nat) : Nat := (8 + 16 * nr) / 8

/-- Whether `bch2_sb_field_resize` of the blacklist field to `u64s` succeeds, given whether
growing the superblock buffers does. A field no larger than the one there fits the buffers
that hold it: `bch2_sb_realloc` returns early, for the superblock and for each member's. -/
def blacklist_resize_ok (field : Option (List journal_seq_blacklist_entry)) (u64s : Nat)
    (grow_ok : Bool) : Bool :=
  decide (u64s ≤ (field.map fun bl => sb_blacklist_u64s bl.length).getD 0) || grow_ok

/-- `bch2_journal_seq_blacklist_add`, given the outcomes of growing the superblock, of
`bch2_write_super` and of the table's `kzalloc`: the loop, at most one round per entry; the
resize to `nr + 1` entries; the merged range in at `i` (`array_insert_item`); the write; and
the table built again. -/
def bch2_journal_seq_blacklist_add (c : bch_fs) (start «end» : UInt64) (grow_ok : Bool)
    (write_super : Int) (alloc_ok : Bool) : Option (Except blacklist_err Unit × bch_fs) :=
  let bl := c.journal_seq_blacklist.getD []
  (whileLoop blacklist_add_cond blacklist_add_step (bl.length + 1)
      { entries := bl, i := 0, start := start, «end» := «end» }).bind fun s =>
    if !blacklist_resize_ok c.journal_seq_blacklist (sb_blacklist_u64s (s.entries.length + 1))
        grow_ok then
      -- the loop edits the field in place (`array_remove_item`), and a resize fails only when
      -- it grows the field, after a loop that removed nothing: the field is `bl->start[0..nr)`
      some (.error .ENOSPC_sb_journal_seq_blacklist,
        { c with journal_seq_blacklist := c.journal_seq_blacklist.map fun _ => s.entries })
    else
      let c := { c with journal_seq_blacklist := some (s.entries.insertIdx s.i ⟨s.start, s.«end»⟩) }
      -- `try(bch2_write_super(c))`, then `try(bch2_blacklist_table_initialize(c))`
      if write_super ≠ 0 then some (.error (.write_super write_super), c)
      else bch2_blacklist_table_initialize c alloc_ok

attribute [grind] blacklist_add_cond

/-! ### Garbage collection -/

/-- The loop of `bch2_blacklist_entries_gc` over the nodes `eytzinger0_for_each` visits, with
`src` walking the superblock list: the entries it keeps, in order. -/
def blacklist_gc_scan (t : journal_seq_blacklist_table) (oldest_seq_found_ondisk : UInt64) :
    List UInt32 → List journal_seq_blacklist_entry → Option (List journal_seq_blacklist_entry)
  | [], _ => some []
  | i :: is, src :: srcs =>
    let e := t.entries i.toNat
    -- the two `BUG_ON`s: the table's entry at `i` is the superblock's entry at `src`
    if e.start ≠ src.start ∨ e.«end» ≠ src.«end» then none
    else
      (blacklist_gc_scan t oldest_seq_found_ondisk is srcs).map fun kept =>
        if e.dirty || decide (e.«end» ≥ oldest_seq_found_ondisk) then src :: kept else kept
  -- `src` past the end of the list
  | _ :: _, [] => none

/-- `bch2_blacklist_entries_gc`: whether the list shrank, and the file system. A list that
becomes empty is resized to no field at all; the table is left as it is. -/
def bch2_blacklist_entries_gc (c : bch_fs) : Option (Bool × bch_fs) :=
  match c.journal_seq_blacklist with
  | none => some (false, c)
  | some bl =>
    match c.journal_seq_blacklist_table with
    -- `t->nr` of a table that is not there
    | none => none
    | some t =>
      if bl.length ≠ t.nr then none
      else
        (eytzinger0_for_each bl.length.toUInt32).bind fun is =>
          (blacklist_gc_scan t c.oldest_seq_found_ondisk is bl).map fun kept =>
            if kept.length = bl.length then (false, c)
            else (true, { c with journal_seq_blacklist := if kept = [] then none else some kept })

end Bcachefs.Journal
