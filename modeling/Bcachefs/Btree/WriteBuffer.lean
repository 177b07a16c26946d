import Bcachefs.Btree.Bkey
import Bcachefs.Sorting.Heap

/-!
# `Bcachefs.Btree.WriteBuffer`: sorting and deduplicating the write buffer

`bch2_btree_write_buffer_flush_locked` (`btree/write_buffer.c`) flushes the keys of
`wb->flushing`, a `darray_u64` holding `struct btree_write_buffered_key`s of varying size
in insertion order. Before it writes them to the btree it:

1. builds `wb->sorted`, one `struct wb_key_ref` per key, holding the key's position and
   `idx`, the key's offset in `u64`s in the darray;
2. sorts the refs with `wb_sort`, the bottom-up heapsort of `lib/sort.c` specialised to
   `wb_key_ref_cmp`, which compares a ref as three `u64` words read through a union;
3. walks the sorted refs and drops each one whose successor has the same position
   (`wb_key_eq`), zeroing the dropped key's `journal_seq` and, for accounting keys,
   adding its counters into the successor's (`bch2_accounting_accumulate`).

The model covers these three steps (`wb_flush_sort_dedup`). The key array is the list of
keys in insertion order, and the array the dedup reads and writes through `wb_keys_idx` is
a function from `u64` offsets to the key starting there. Keys carry their value as `u64`
words, which for an accounting key are its counters. The layout of `wb_key_ref` is the
little-endian one. The x86-64 assembly of `wb_key_ref_cmp` computes the same comparison as
the portable `__wb_key_ref_cmp`, which `EBUG_ON` checks.
-/

set_option autoImplicit false
set_option linter.style.nameCheck false

namespace Bcachefs

/-- `KEY_TYPE_accounting`. -/
def KEY_TYPE_accounting : UInt8 := 34

/-- `struct bkey_i`: a key and its value, as `u64` words. -/
structure bkey_i where
  k : bkey
  v : List UInt64
deriving DecidableEq, Repr

/-- `struct btree_write_buffered_key`. -/
structure btree_write_buffered_key where
  journal_seq : UInt64
  k : bkey_i
deriving DecidableEq, Repr

/-- An all-zero key: what the model reads at an offset where no key starts. The code
never reads there. -/
def btree_write_buffered_key_zero : btree_write_buffered_key where
  journal_seq := 0
  k := { k := { u64s := 0, format := 0, needs_whiteout := false, type := KEY_TYPE_deleted,
                pad := 0, bversion := ⟨0, 0⟩, size := 0, p := ⟨0, 0, 0⟩ }
         v := [] }

/-- `wb_key_u64s`: the `u64`s a key takes in the buffer, its `journal_seq` included. -/
def wb_key_u64s (k : bkey_i) : Nat := k.k.u64s.toNat + 1

/-- `bversion_cmp`. -/
def bversion_cmp (l r : bversion) : Int :=
  let c := cmp_int l.hi r.hi
  if c ≠ 0 then c else cmp_int l.lo r.lo

/-- `bch2_accounting_accumulate`: add the counters of `src` into those of `dst`, as many
as both have, and keep the larger version. -/
def bch2_accounting_accumulate (dst src : bkey_i) : bkey_i where
  k := if bversion_cmp dst.k.bversion src.k.bversion < 0 then
      { dst.k with bversion := src.k.bversion }
    else dst.k
  v := List.zipWith (· + ·) dst.v src.v ++ dst.v.drop src.v.length

attribute [grind] bch2_accounting_accumulate

/-- `struct wb_key_ref`. -/
structure wb_key_ref where
  idx : UInt32
  pos : bpos
deriving DecidableEq, Repr

namespace wb_key_ref

/-- The low word of the union: `idx`, then the position's first field, the snapshot. -/
def lo (r : wb_key_ref) : UInt64 := r.idx.toUInt64 ||| (r.pos.snapshot.toUInt64 <<< 32)

/-- The middle word: the offset. -/
def mi (r : wb_key_ref) : UInt64 := r.pos.offset

/-- The high word: the inode. -/
def hi (r : wb_key_ref) : UInt64 := r.pos.inode

end wb_key_ref

/-- A ref for slots of `wb->sorted` past its end; never read. -/
def wb_key_ref_zero : wb_key_ref := ⟨0, ⟨0, 0, 0⟩⟩

/-- `__wb_key_ref_cmp`: whether `l` is at least `r`, comparing `hi`, then `mi`, then
`lo`. -/
def __wb_key_ref_cmp (l r : wb_key_ref) : Bool :=
  let c := cmp_int l.hi r.hi
  let c := if c ≠ 0 then c else cmp_int l.mi r.mi
  let c := if c ≠ 0 then c else cmp_int l.lo r.lo
  decide (0 ≤ c)

/-- `wb_key_ref_cmp`. -/
def wb_key_ref_cmp (l r : wb_key_ref) : Bool := __wb_key_ref_cmp l r

/-- `wb_key_eq`: compare two refs "excluding idx, the low 24 bits". -/
def wb_key_eq (l r : wb_key_ref) : Bool :=
  ((l.hi ^^^ r.hi) ||| (l.mi ^^^ r.mi) ||| ((l.lo >>> 24) ^^^ (r.lo >>> 24))) == 0

/-- `wb_sort`. -/
def wb_sort (base : Nat → wb_key_ref) (num : Nat) : Option (Nat → wb_key_ref) :=
  Sorting.heapSort wb_key_ref_cmp base num

/-- The loop of `bch2_btree_write_buffer_flush_locked` that fills `wb->sorted`: one ref per
key, in order, `idx` the key's offset in `u64`s (`(u64 *) k - wb->flushing.keys.data`)
stored in the 32-bit field. -/
def wb_sorted_build : List btree_write_buffered_key → Nat → List wb_key_ref
  | [], _ => []
  | k :: ks, off => ⟨off.toUInt32, k.k.k.p⟩ :: wb_sorted_build ks (off + wb_key_u64s k.k)

/-- `wb->flushing.keys` as `wb_keys_idx` reads it: the key that starts at each `u64`
offset. -/
def wb_keys_of : List btree_write_buffered_key → Nat → Nat → btree_write_buffered_key
  | [], _ => fun _ => btree_write_buffered_key_zero
  | k :: ks, off => fun o => if o = off then k else wb_keys_of ks (off + wb_key_u64s k.k) o

/-- The pre-flush dedup of `bch2_btree_write_buffer_flush_locked`, over the sorted refs: a
ref whose successor compares equal by `wb_key_eq` is dropped and its key's `journal_seq`
zeroed; when both keys are accounting keys, the dropped key's counters are added into the
successor's first, which keeps the smaller `journal_seq`. -/
def wb_dedup (keys : Nat → btree_write_buffered_key) :
    List wb_key_ref → List wb_key_ref × (Nat → btree_write_buffered_key)
  | [] => ([], keys)
  | [src] => ([src], keys)
  | src :: next :: rest =>
      if wb_key_eq src next then
        let k := keys src.idx.toNat
        let n := keys next.idx.toNat
        -- Accounting: accumulate older delta into newer entry.
        let keys :=
          if k.k.k.type = KEY_TYPE_accounting ∧ n.k.k.type = KEY_TYPE_accounting then
            Function.update keys next.idx.toNat
              { journal_seq := min n.journal_seq k.journal_seq
                k := bch2_accounting_accumulate n.k k.k }
          else keys
        -- Drop older entry; newer (src + 1) wins.
        let keys := Function.update keys src.idx.toNat
          { keys src.idx.toNat with journal_seq := 0 }
        wb_dedup keys (next :: rest)
      else
        let r := wb_dedup keys (next :: rest)
        (src :: r.1, r.2)

/-- `wb_sort` on the refs of `wb->sorted`, then the dedup: the refs that survive, in
order, and the key array afterwards. -/
def wb_sort_dedup (keys : Nat → btree_write_buffered_key) (sorted : List wb_key_ref) :
    Option (List wb_key_ref × (Nat → btree_write_buffered_key)) :=
  (wb_sort (fun i => sorted.getD i wb_key_ref_zero) sorted.length).map fun s =>
    wb_dedup keys ((List.range sorted.length).map s)

/-- The sort and the dedup of `bch2_btree_write_buffer_flush_locked` on the key array
`flushing`. -/
def wb_flush_sort_dedup (flushing : List btree_write_buffered_key) :
    Option (List wb_key_ref × (Nat → btree_write_buffered_key)) :=
  wb_sort_dedup (wb_keys_of flushing 0) (wb_sorted_build flushing 0)

attribute [grind] wb_dedup

end Bcachefs
