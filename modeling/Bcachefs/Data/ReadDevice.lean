import Bcachefs.Data.ExtentCrc
import Bcachefs.Alloc.Bucket
import Bcachefs.Btree.Bkey

/-!
# `Bcachefs.Data.ReadDevice`: picking the replica to read

`bch2_bkey_pick_read_device` (`data/extents.c`) walks the decoded pointers of a key and keeps
the best one it may read from (`ptr_better`). It skips a pointer off the device the caller
requires, a cached pointer whose bucket has been reused, and a pointer on a device whose
failure entry has an I/O error or more checksum errors than `checksum_err_retry_nr` allows.
A pointer that belongs to an erasure-coded stripe is instead read by reconstructing it from
the stripe (`do_ec_reconstruct`), while the stripe has not failed on that device, and so is
a pointer on a device that is missing or offline. After the walk it returns `1` with the
pick, `0` for a key with no dirty pointers, or the error that explains why nothing could be
picked. An unwritten pointer makes it return `0` at once: the extent reads as zeroes.

`bch2_mark_io_failure` records a failed read in the failure entry of the pointer's device,
added if there is none: a failed reconstruction in `ec_errcode`, a checksum error in
`csum_nr`, any other error in `errcode`.

The filesystem is what these functions read of it (`bch_fs`): its devices, the option
`checksum_err_retry_nr`, the rotational devices, the debugging switches
`bch2_force_reconstruct_read` and `bch2_force_read_device` (negative when unset), and what
`bch2_dev_missing_bkey` returns. `ptr_better` ends in a random choice: each comparison is
given the function its `bch2_get_random_u64_below` draws from, one for each pointer of the
walk. A key is its header and the pointers `bkey_for_each_ptr_decode` yields, each with its
checksum entry and whether a stripe pointer precedes it. The decoded pointer here has the
members the read path reads, where `Alloc.Bucket` has those `__mark_pointer` reads: the read
path's model lives in its own namespace. The message `ec_msg` of the failure list is not
modelled. Return codes are `Except`: an error, `0` as `none`, `1` with the pick as `some`.
-/

set_option autoImplicit false
set_option linter.style.nameCheck false

namespace Bcachefs.Read

open Bcachefs

/-- `BCH_SB_MEMBER_INVALID`. -/
def BCH_SB_MEMBER_INVALID : UInt8 := 255

/-- `BCH_REPLICAS_MAX`. -/
def BCH_REPLICAS_MAX : Nat := 4

/-- `KEY_TYPE_error`. -/
def KEY_TYPE_error : UInt8 := 2

/-- `KEY_TYPE_btree_ptr`. -/
def KEY_TYPE_btree_ptr : UInt8 := 5

/-- `KEY_TYPE_btree_ptr_v2`. -/
def KEY_TYPE_btree_ptr_v2 : UInt8 := 18

/-- `bkey_is_btree_ptr`. -/
def bkey_is_btree_ptr (k : bkey) : Bool :=
  k.type == KEY_TYPE_btree_ptr || k.type == KEY_TYPE_btree_ptr_v2

/-- `BCH_READ_soft_require_read_device`. -/
def BCH_READ_soft_require_read_device : Nat := 1 <<< 3

/-- `BCH_READ_hard_require_read_device`. -/
def BCH_READ_hard_require_read_device : Nat := 1 <<< 4

/-! ### Error codes -/

/-- `MAX_ERRNO`: error codes are `-MAX_ERRNO` to `-1`. -/
def MAX_ERRNO : Int := 4095

/-- `BCH_ERR_START`. -/
def BCH_ERR_START : Int := 2048

/-- `BCH_ERR_key_type_error`. -/
def BCH_ERR_key_type_error : Int := BCH_ERR_START + 486

/-- `BCH_ERR_no_device_to_read_from`. -/
def BCH_ERR_no_device_to_read_from : Int := BCH_ERR_START + 542

/-- `BCH_ERR_no_devices_valid`. -/
def BCH_ERR_no_devices_valid : Int := BCH_ERR_START + 543

/-- `BCH_ERR_data_read_io_err`. -/
def BCH_ERR_data_read_io_err : Int := BCH_ERR_START + 544

/-- `BCH_ERR_data_read_csum_err`. -/
def BCH_ERR_data_read_csum_err : Int := BCH_ERR_START + 545

/-- `BCH_ERR_data_read_retry_csum_err`. -/
def BCH_ERR_data_read_retry_csum_err : Int := BCH_ERR_START + 551

/-- `bch2_err_matches(err, BCH_ERR_transaction_restart)`: the class and its members, the codes
`163` to `188` past `BCH_ERR_START`. -/
def bch2_err_matches_transaction_restart (err : Int) : Bool :=
  decide (BCH_ERR_START + 163 ≤ -err ∧ -err ≤ BCH_ERR_START + 188)

/-! ### Pointers, devices and failures -/

/-- `struct bch_extent_ptr`: the members the read path reads. -/
structure bch_extent_ptr where
  cached : Bool
  unwritten : Bool
  offset : UInt64
  dev : UInt8
  generation : UInt8
deriving DecidableEq, Repr

/-- `struct extent_ptr_decoded`, without the stripe pointer, which the read path does not
read. -/
structure extent_ptr_decoded where
  has_ec : Bool
  do_ec_reconstruct : Bool
  crc_retry_nr : UInt8
  crc : bch_extent_crc_unpacked
  ptr : bch_extent_ptr
deriving DecidableEq, Repr

/-- A key as the read path walks it: its header and its decoded pointers. -/
structure bkey_s_c where
  k : bkey
  ptrs : List extent_ptr_decoded

/-- `struct bch_dev`: the members the read path reads. -/
structure bch_dev where
  online : Bool
  cur_latency : UInt64
  bucket_size : UInt16
  bucket_gens : UInt64 → Option UInt8

/-- What the read path reads of `struct bch_fs`. -/
structure bch_fs where
  devs : UInt8 → Option bch_dev
  checksum_err_retry_nr : UInt8
  devs_rotational : UInt8 → Bool
  force_reconstruct_read : Bool
  force_read_device : Int
  dev_missing_bkey : UInt8 → Int

/-- `struct bch_dev_io_failures`. -/
structure bch_dev_io_failures where
  dev : UInt8
  csum_nr : BitVec 7
  ec_errcode : Int16
  errcode : Int16
deriving DecidableEq, Repr

/-- `struct bch_io_failures`: its `nr` entries in use. -/
structure bch_io_failures where
  data : List bch_dev_io_failures
deriving DecidableEq, Repr

/-- `bch2_dev_rotational`. -/
def bch2_dev_rotational (c : bch_fs) (dev : UInt8) : Bool :=
  dev != BCH_SB_MEMBER_INVALID && c.devs_rotational dev

/-- `PTR_BUCKET_NR`: `sector_to_bucket`. -/
def PTR_BUCKET_NR (ca : bch_dev) (ptr : bch_extent_ptr) : UInt64 :=
  ptr.offset / ca.bucket_size.toUInt64

/-- `dev_ptr_stale_rcu`: `-1` for a bucket past the device's generations. -/
def dev_ptr_stale_rcu (ca : bch_dev) (ptr : bch_extent_ptr) : Int :=
  match ca.bucket_gens (PTR_BUCKET_NR ca ptr) with
  | none => -1
  | some gen => gen_after gen ptr.generation

/-- `!ca || dev_ptr_stale_rcu(ca, &p.ptr)`: a pointer with no device, or into a bucket since
reused. -/
def dev_ptr_stale : Option bch_dev → bch_extent_ptr → Bool
  | some ca, ptr => dev_ptr_stale_rcu ca ptr != 0
  | none, _ => true

/-- `S64_MAX`, as the `u64` `dev_latency` returns. -/
def S64_MAX : UInt64 := 0x7fffffffffffffff

/-- `dev_latency`. -/
def dev_latency : Option bch_dev → UInt64
  | some ca => ca.cur_latency
  | none => S64_MAX

/-- `bch2_dev_io_failures`: the device's entry. -/
def bch2_dev_io_failures (failed : bch_io_failures) (dev : UInt8) :
    Option bch_dev_io_failures :=
  failed.data.find? fun f => f.dev == dev

/-- The entry `bch2_dev_io_failures_mut` adds for a device: zeroed. -/
def bch_dev_io_failures.zeroed (dev : UInt8) : bch_dev_io_failures :=
  { dev := dev, csum_nr := 0, ec_errcode := 0, errcode := 0 }

/-- What `bch2_mark_io_failure` records in the device's entry `f`: the error of a
reconstruction, a checksum error counted, or any other error. -/
def mark_io_failure_entry (p : extent_ptr_decoded) (err : Int) (f : bch_dev_io_failures) :
    bch_dev_io_failures :=
  if p.do_ec_reconstruct then { f with ec_errcode := err.toInt16 }
  else if err = -BCH_ERR_data_read_retry_csum_err then { f with csum_nr := f.csum_nr + 1 }
  else { f with errcode := err.toInt16 }

/-- `bch2_mark_io_failure`, with `bch2_dev_io_failures_mut`; `none` is a `BUG_ON`. -/
def bch2_mark_io_failure (failed : bch_io_failures) (p : extent_ptr_decoded) (err : Int) :
    Option bch_io_failures :=
  if err = 0 ∨ bch2_err_matches_transaction_restart err then none
  else
    match failed.data.findIdx? fun f => f.dev == p.ptr.dev with
    | some i => some ⟨failed.data.modify i (mark_io_failure_entry p err)⟩
    | none =>
      -- the device's entry goes in the array's next slot
      if failed.data.length ≥ BCH_REPLICAS_MAX + 1 then none
      else
        let f := bch_dev_io_failures.zeroed p.ptr.dev
        some ⟨failed.data ++ [mark_io_failure_entry p err f]⟩

attribute [grind] mark_io_failure_entry

/-! ### `ptr_better` -/

/-- The end of `ptr_better` for pointers that tie on all else: the preferred device under
`BCH_READ_soft_require_read_device`, then a draw biased to the lower latency. -/
def ptr_better_latency (c : bch_fs) (p1 : extent_ptr_decoded) (p1_latency : UInt64)
    (p2 : extent_ptr_decoded) (p2_latency : UInt64) (preferred_dev : UInt8) (flags : Nat)
    (random_u64_below : UInt64 → UInt64) : Bool :=
  let soft := flags &&& BCH_READ_soft_require_read_device != 0
  if soft ∧ p1.ptr.dev = preferred_dev ∧ bch2_dev_rotational c p2.ptr.dev then true
  else
    let p1_latency := if soft ∧ p1.ptr.dev = preferred_dev then p1_latency / 256 else p1_latency
    if soft ∧ p2.ptr.dev = preferred_dev ∧ bch2_dev_rotational c p1.ptr.dev then false
    else
      let p2_latency :=
        if soft ∧ p2.ptr.dev = preferred_dev then p2_latency / 256 else p2_latency
      random_u64_below (p1_latency + p2_latency) > p1_latency

/-- `ptr_better`: whether `p1` is better than `p2`. -/
def ptr_better (c : bch_fs) (p1 : extent_ptr_decoded) (p1_latency : UInt64)
    (p2 : extent_ptr_decoded) (p2_latency : UInt64) (preferred_dev : UInt8) (flags : Nat)
    (random_u64_below : UInt64 → UInt64) : Bool :=
  if c.force_reconstruct_read then p1.do_ec_reconstruct && !p2.do_ec_reconstruct
  else if p1.do_ec_reconstruct || p2.do_ec_reconstruct then
    !p1.do_ec_reconstruct && p2.do_ec_reconstruct
  else
    let delta : Int := p2.crc_retry_nr.toNat - p1.crc_retry_nr.toNat
    if delta ≠ 0 then delta > 0
    else
      -- `CONFIG_BCACHEFS_DEBUG`
      let delta : Int := (if (p1.ptr.dev.toNat : Int) = c.force_read_device then 1 else 0) -
        (if (p2.ptr.dev.toNat : Int) = c.force_read_device then 1 else 0)
      if c.force_read_device ≥ 0 ∧ delta ≠ 0 then delta > 0
      else
        -- prefer extents with checksums
        let delta : Int := (if p1.crc.csum_type ≠ 0 then 1 else 0) -
          (if p2.crc.csum_type ≠ 0 then 1 else 0)
        if delta ≠ 0 then delta > 0
        else ptr_better_latency c p1 p1_latency p2 p2_latency preferred_dev flags random_u64_below

/-! ### `bch2_bkey_pick_read_device` -/

/-- The flags the walk gathers, and the pick so far with its latency. -/
structure pick_state where
  have_csum_errors : Bool
  have_io_errors : Bool
  have_missing_devs : Bool
  have_dirty_ptrs : Bool
  pick : Option (extent_ptr_decoded × UInt64)

/-- The state before the walk. -/
def pick_state.init : pick_state :=
  { have_csum_errors := false, have_io_errors := false, have_missing_devs := false,
    have_dirty_ptrs := false, pick := none }

/-- What an iteration of the walk does: go on, or return. -/
inductive pick_step where
  | next (s : pick_state)
  | ret (r : Except Int (Option extent_ptr_decoded))

section Walk

variable (c : bch_fs) (failed : Option bch_io_failures) (preferred_dev : UInt8) (flags : Nat)

/-- `!ca || !bch2_dev_is_online(ca)`. -/
def dev_offline : Option bch_dev → Bool
  | some ca => !ca.online
  | none => true

/-- The candidate, from the device check on: `none` for a pointer on a missing or offline
device that cannot be reconstructed; else the pointer, read by reconstruction if it is on such
a device or `bch2_force_reconstruct_read` is set and it can be. -/
def pick_read_device_candidate (ca : Option bch_dev) (p : extent_ptr_decoded) :
    Option extent_ptr_decoded :=
  if dev_offline ca && !p.has_ec then none
  else
    let p := if dev_offline ca then { p with do_ec_reconstruct := true } else p
    some (if c.force_reconstruct_read && p.has_ec then { p with do_ec_reconstruct := true } else p)

/-- The candidate replaces the pick when there is none or `ptr_better` prefers it. -/
def pick_state.offer (random_u64_below : UInt64 → UInt64) (ca : Option bch_dev)
    (s : pick_state) (p : extent_ptr_decoded) : pick_state :=
  -- squared, to favour the faster device further
  let p_latency := dev_latency ca * dev_latency ca
  match s.pick with
  | none => { s with pick := some (p, p_latency) }
  | some (pick, pick_latency) =>
    if ptr_better c p p_latency pick pick_latency preferred_dev flags random_u64_below then
      { s with pick := some (p, p_latency) }
    else s

/-- The end of an iteration, from the device check on. -/
def pick_read_device_consider (random_u64_below : UInt64 → UInt64) (ca : Option bch_dev)
    (p : extent_ptr_decoded) (s : pick_state) : pick_state :=
  let s := { s with have_missing_devs := s.have_missing_devs || (ca.isSome && dev_offline ca) }
  match pick_read_device_candidate c ca p with
  | none => s
  | some p => s.offer c preferred_dev flags random_u64_below ca p

/-- The rest of an iteration, from the failure entry of the pointer's device on: a pointer
whose device has failed is read by reconstruction if its stripe has not failed too, and is
skipped if it cannot be and the device had an I/O error or too many checksum errors. -/
def pick_read_device_failed (random_u64_below : UInt64 → UInt64) (ca : Option bch_dev)
    (p : extent_ptr_decoded) (s : pick_state) : pick_state :=
  match failed.bind (bch2_dev_io_failures · p.ptr.dev) with
  | none => pick_read_device_consider c preferred_dev flags random_u64_below ca p s
  | some f =>
    let p := { p with
      crc_retry_nr := f.csum_nr.toNat.toUInt8
      has_ec := p.has_ec && f.ec_errcode == 0 }
    let s := { s with
      have_io_errors := s.have_io_errors || (ca.isSome && (f.errcode != 0 || f.ec_errcode != 0))
      have_csum_errors := s.have_csum_errors || f.csum_nr != 0 }
    if p.has_ec && (f.errcode != 0 || f.csum_nr != 0) then
      pick_read_device_consider c preferred_dev flags random_u64_below ca
        { p with do_ec_reconstruct := true } s
    else if f.errcode != 0 || f.csum_nr.toNat > c.checksum_err_retry_nr.toNat then s
    else pick_read_device_consider c preferred_dev flags random_u64_below ca p s

/-- An iteration of the walk, over the pointer `q` as the decoder yields it. -/
def pick_read_device_step (random_u64_below : UInt64 → UInt64) (s : pick_state)
    (q : extent_ptr_decoded) : pick_step :=
  -- `__bkey_ptr_next_decode` clears these for each pointer
  let p := { q with do_ec_reconstruct := false, crc_retry_nr := 0 }
  let s := { s with have_dirty_ptrs := s.have_dirty_ptrs || !p.ptr.cached }
  if p.ptr.unwritten then .ret (.ok none)
  else if flags &&& BCH_READ_hard_require_read_device != 0 ∧ p.ptr.dev ≠ preferred_dev then
    .next s
  else
    let ca := c.devs p.ptr.dev
    let missing :=
      if ca.isNone ∧ p.ptr.dev ≠ BCH_SB_MEMBER_INVALID then c.dev_missing_bkey p.ptr.dev else 0
    if missing ≠ 0 then .ret (.error missing)
    else if p.ptr.cached && dev_ptr_stale ca p.ptr then .next s
    else .next (pick_read_device_failed c failed preferred_dev flags random_u64_below ca p s)

/-- The walk over the pointers, the `i`-th compared with the draws of `rand i`. -/
def pick_read_device_loop (rand : Nat → UInt64 → UInt64) :
    List extent_ptr_decoded → Nat → pick_state → pick_step
  | [], _, s => .next s
  | q :: ptrs, i, s =>
    match pick_read_device_step c failed preferred_dev flags (rand i) s q with
    | .ret r => .ret r
    | .next s => pick_read_device_loop rand ptrs (i + 1) s

/-- `bch2_bkey_pick_read_device`. -/
def bch2_bkey_pick_read_device (k : bkey_s_c) (rand : Nat → UInt64 → UInt64) :
    Except Int (Option extent_ptr_decoded) :=
  if k.k.type = KEY_TYPE_error then .error (-BCH_ERR_key_type_error)
  else
    match pick_read_device_loop c failed preferred_dev flags rand k.ptrs 0 pick_state.init with
    | .ret r => r
    | .next s =>
      match s.pick with
      | some (p, _) => .ok (some p)
      | none =>
        if !s.have_dirty_ptrs && !bkey_is_btree_ptr k.k then .ok none
        else if s.have_missing_devs || !s.have_dirty_ptrs then
          .error (-BCH_ERR_no_device_to_read_from)
        else if s.have_csum_errors then .error (-BCH_ERR_data_read_csum_err)
        else if s.have_io_errors then .error (-BCH_ERR_data_read_io_err)
        else .error (-BCH_ERR_no_devices_valid)

attribute [grind] pick_read_device_consider pick_read_device_failed pick_read_device_step pick_read_device_loop bch2_bkey_pick_read_device

end Walk

end Bcachefs.Read
