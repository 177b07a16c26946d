import Bcachefs.Btree.WriteBuffer

/-!
# `Bcachefs.Btree.JournalKeys`: sorting the journal's keys for replay

`bch2_journal_keys_sort` (`btree/journal_overlay.c`) collects one `struct journal_key` per key
that replay takes from the journal entries it read, in the entries' order of sequence numbers.
An entry whose sequence number lies in a rewind range `(to, from]` is rewound: its
`BCH_JSET_ENTRY_overwrite` entries, the values its transactions overwrote, stand for it, in
place of its `BCH_JSET_ENTRY_btree_keys` entries. The keys are then sorted by the heapsort of
`lib/sort.c` (`sort_r`) under `journal_sort_key_cmp`, and `__journal_keys_sort` keeps, of each
run of keys at one position, the last one; accounting keys are all kept.

A `journal_key` refers to its key through the entry's radix index and the key's offset in
the entry (`journal_key_k`); the model carries the key it refers to beside those two numbers.
The memory-pressure path, where a failed `darray_push` sorts and compacts the keys collected
so far before going on, is left out: the model collects every key, then sorts once.
-/

set_option autoImplicit false
set_option linter.style.nameCheck false

namespace Bcachefs

/-- `struct journal_key`; `k` is the key `journal_key_k` reads, the allocated copy or the key
at `journal_offset` in the entry at `journal_seq_offset`. -/
structure journal_key where
  journal_seq_offset : UInt32
  journal_offset : UInt32
  btree_id : UInt8
  level : UInt8
  allocated : Bool
  rewind : Bool
  k : bkey_i
deriving DecidableEq, Repr

/-- A key for slots past the end of the array; the sort never reads one. -/
def journal_key_zero : journal_key :=
  ⟨0, 0, 0, 0, false, false, btree_write_buffered_key_zero.k⟩

/-- `journal_key_k`. -/
def journal_key_k (k : journal_key) : bkey_i := k.k

/-- `__journal_key_btree_cmp`: deeper levels first, then by btree. -/
def __journal_key_btree_cmp (l_btree_id l_level : UInt8) (r : journal_key) : Int :=
  let c := -cmp_int l_level r.level
  if c ≠ 0 then c else cmp_int l_btree_id r.btree_id

/-- `__journal_key_cmp`. -/
def __journal_key_cmp (l_btree_id l_level : UInt8) (l_pos : bpos) (r : journal_key) : Int :=
  let c := __journal_key_btree_cmp l_btree_id l_level r
  if c ≠ 0 then c else bpos_cmp l_pos (journal_key_k r).k.p

/-- `journal_key_cmp`: the btree, the level and the position of two keys. -/
def journal_key_cmp (l r : journal_key) : Int :=
  __journal_key_cmp l.btree_id l.level (journal_key_k l).k.p r

/-- `journal_sort_key_cmp`: at one position, allocated keys last, and the others by where
they are in the journal, the other way round when both are rewound. -/
def journal_sort_key_cmp (l r : journal_key) : Int :=
  let rewind : Int := if l.rewind && r.rewind then -1 else 1
  let c := journal_key_cmp l r
  if c ≠ 0 then c
  else if l.allocated || r.allocated then cmp_int l.allocated.toNat r.allocated.toNat
  else
    let c := cmp_int l.journal_seq_offset r.journal_seq_offset
    (if c ≠ 0 then c else cmp_int l.journal_offset r.journal_offset) * rewind

/-- The loop of `__journal_keys_sort` after the sort: a key that is not an accounting key is
dropped when the next key is at the same position. -/
def journal_keys_dedup : List journal_key → List journal_key
  | [] => []
  | [src] => [src]
  | src :: next :: rest =>
      if (journal_key_k src).k.type ≠ KEY_TYPE_accounting ∧ journal_key_cmp src next = 0 then
        journal_keys_dedup (next :: rest)
      else src :: journal_keys_dedup (next :: rest)

/-- `__journal_keys_sort`: `sort_r` under `journal_sort_key_cmp`, then the dedup. -/
def __journal_keys_sort (keys : List journal_key) : Option (List journal_key) :=
  (Sorting.heapSort (fun l r => decide (0 ≤ journal_sort_key_cmp l r))
      (fun i => keys.getD i journal_key_zero) keys.length).map fun s =>
    journal_keys_dedup ((List.range keys.length).map s)

/-! ### Collecting the keys -/

/-- `BCH_JSET_ENTRY_btree_keys`. -/
def BCH_JSET_ENTRY_btree_keys : UInt8 := 0

/-- `BCH_JSET_ENTRY_overwrite`. -/
def BCH_JSET_ENTRY_overwrite : UInt8 := 10

/-- A `struct jset_entry`, with each key's offset in `u64`s in its journal entry's `_data`
(`k->_data - i->j._data`). -/
structure jset_entry where
  type : UInt8
  btree_id : UInt8
  level : UInt8
  keys : List (bkey_i × UInt32)
deriving DecidableEq, Repr

/-- A `struct journal_replay` as the sort reads it: `ignore` is `journal_replay_ignore`,
`has_overwrites` is `JSET_HAS_OVERWRITES`. -/
structure journal_replay where
  seq : UInt64
  ignore : Bool
  has_overwrites : Bool
  entries : List jset_entry
deriving DecidableEq, Repr

/-- `struct journal_rewind_range`: the sequence numbers in `(to, from]` are rewound. -/
structure journal_rewind_range where
  «from» : UInt64
  «to» : UInt64
deriving DecidableEq, Repr

/-- `journal_seq_is_rewound`. -/
def journal_seq_is_rewound (rewind_ranges : List journal_rewind_range) (seq : UInt64) : Bool :=
  rewind_ranges.any fun range => decide (range.«to» < seq) && decide (seq ≤ range.«from»)

/-- `btree_id_is_alloc`: `alloc` (4), `backpointers` (13), `stripe_backpointers` (27),
`need_discard` (12), `freespace` (11), `bucket_gens` (14), `lru` (10), `accounting` (20),
`reconcile_work` (18), `reconcile_hipri` (21), `reconcile_pending` (22) and `reconcile_scan`
(23). -/
def btree_id_is_alloc (btree : UInt8) : Bool :=
  btree ∈ [4, 13, 27, 12, 11, 14, 10, 20, 18, 21, 22, 23]

/-- The keys `bch2_journal_keys_sort` takes from one journal entry, `none` for a rewound entry
written without its overwrites. -/
def journal_replay_keys (rewind_ranges : List journal_rewind_range)
    (journal_replay_seq_start journal_entries_base_seq : UInt64) (i : journal_replay) :
    Option (List journal_key) :=
  let seq_rewound := journal_seq_is_rewound rewind_ranges i.seq
  if i.ignore then some []
  else if seq_rewound && !i.has_overwrites then none
  else some <| i.entries.flatMap fun entry =>
    let rewind := seq_rewound && entry.level == 0 && !btree_id_is_alloc entry.btree_id
    if entry.type ≠ (if rewind then BCH_JSET_ENTRY_overwrite else BCH_JSET_ENTRY_btree_keys) then
      []
    else if !rewind && i.seq < journal_replay_seq_start then []
    else entry.keys.map fun k =>
      { journal_seq_offset := (i.seq - journal_entries_base_seq).toUInt32
        journal_offset := k.2
        btree_id := entry.btree_id
        level := entry.level
        allocated := false
        rewind
        k := k.1 }

/-- `bch2_journal_keys_sort`: the keys of every entry read, in order, then the pre-sort keys,
sorted and deduplicated. -/
def bch2_journal_keys_sort (rewind_ranges : List journal_rewind_range)
    (journal_replay_seq_start journal_entries_base_seq : UInt64)
    (journal_entries : List journal_replay) (pre_sort : List journal_key) :
    Option (List journal_key) := do
  let keys ← journal_entries.foldlM (fun keys i =>
    (keys ++ ·) <$> journal_replay_keys rewind_ranges journal_replay_seq_start
      journal_entries_base_seq i) []
  __journal_keys_sort (keys ++ pre_sort)

end Bcachefs
