import Bcachefs.Data.Rechecksum
import Bcachefs.Data.ReadDevice
import Bcachefs.Btree.FormatState

/-!
# `Bcachefs.Data.Ec`: reconstructing a stripe

An erasure-coded stripe (`struct bch_stripe`, `data/ec/format.h`) is `nr_blocks` blocks of
`sectors` sectors: the data blocks, then `nr_redundant` parity blocks, P and Q.
`bch2_ec_generate_ec` (`data/ec/io.c`) computes the parity with `raid_gen`: P is the XOR of the
data blocks, Q the RAID-6 syndrome, both byte by byte. A read of the stripe buffers the blocks
over a range of sectors (`bch2_ec_stripe_buf_init` widens it to whole checksum chunks), flags
the blocks it could not read or that fail their checksums, and `bch2_ec_do_recov` rebuilds the
flagged blocks from the others with `raid_rec`, then checks the data blocks again.

The checksums live in the stripe's value after its pointers, one per block and chunk of
`1 << csum_granularity_bits` sectors, each the first `stripe_csum_bytes` bytes of a
`struct bch_csum` (`stripe_csum_get`, `stripe_csum_set`, `data/ec/trigger.h`). The value is a
byte memory here (`Bits.LeBytes`), from the start of `struct bch_stripe`.

`raid_gen` and `raid_rec` are those of the kernel build, on the kernel's RAID-6 library, whose
routines (`raid6_gen_syndrome`, `raid6_recov_2data`, `raid6_recov_datap`) are the model's
parameters (`raid6_calls`). A buffer is its bytes by offset, and the stripe buffer's `data` its
blocks by index: the pointer swaps of `raid5_recov` swap blocks. `unsigned` arithmetic is on
`Nat`: the sector counts are 16-bit and the granularity below `2 ^ 31`, so that nothing
wraps. Not modelled: the stripe buffer's memory accounting and allocation in
`bch2_ec_stripe_buf_init` (the model is its success path), and what
`bch2_ec_validate_checksums` records besides the flag (`csum_good`, `csum_bad`, the device's
error count). `none` is a `BUG_ON`.
-/

set_option autoImplicit false
set_option linter.style.nameCheck false

namespace Bcachefs.Ec

open Bcachefs Bcachefs.Bits

/-- `BCH_BKEY_PTRS_MAX`: a stripe has at most this many blocks. -/
def BCH_BKEY_PTRS_MAX : Nat := 16

/-- `BCH_ERR_stripe_read_csum_err`. -/
def BCH_ERR_stripe_read_csum_err : Int := Read.BCH_ERR_START + 481

/-- `BCH_ERR_stripe_reconstruct_insufficient_blocks`. -/
def BCH_ERR_stripe_reconstruct_insufficient_blocks : Int := Read.BCH_ERR_START + 484

/-- `null_nonce`. -/
def null_nonce : nonce := ⟨#v[0, 0, 0, 0]⟩

/-- `round_down(x, y)` for a power of two `y`: `x & ~(y - 1)`, `x` with the bits of `y - 1`
cleared. -/
def round_down (x y : Nat) : Nat := x - (x &&& (y - 1))

/-! ### The stripe key and its checksums -/

/-- `struct bch_stripe`: the members the read path reads, and the bytes of the value. -/
structure bch_stripe where
  sectors : UInt16
  nr_blocks : UInt8
  nr_redundant : UInt8
  csum_granularity_bits : UInt8
  csum_type : UInt8
  val : Int → UInt8

/-- `stripe_csums_per_device`. -/
def stripe_csums_per_device (s : bch_stripe) : Nat :=
  DIV_ROUND_UP s.sectors.toNat (1 <<< s.csum_granularity_bits.toNat)

/-- `stripe_csum_bytes`: an unknown type takes the widest checksum. -/
def stripe_csum_bytes (s : bch_stripe) : Nat :=
  if s.csum_type.toNat < BCH_CSUM_NR then (bch_crc_bytes s.csum_type).getD 0 else 16

/-- `stripe_csum_offset`: after the 8 bytes of `struct bch_stripe` and the 8-byte pointers. -/
def stripe_csum_offset (s : bch_stripe) (dev csum_idx : Nat) : Nat :=
  8 + 8 * s.nr_blocks.toNat + (dev * stripe_csums_per_device s + csum_idx) * stripe_csum_bytes s

/-- A `struct bch_csum` as the number its 16 little-endian bytes spell. -/
def bch_csum.toLe (c : bch_csum) : Nat := c.lo.toNat + 2 ^ 64 * c.hi.toNat

/-- The `struct bch_csum` whose bytes spell `n`. -/
def bch_csum.ofLe (n : Nat) : bch_csum := { lo := n.toUInt64, hi := (n / 2 ^ 64).toUInt64 }

/-- `stripe_csum_get`: the checksum's bytes, copied into a zeroed `struct bch_csum`. -/
def stripe_csum_get (s : bch_stripe) (block csum_idx : Nat) : bch_csum :=
  bch_csum.ofLe (leVal s.val (stripe_csum_offset s block csum_idx) (stripe_csum_bytes s))

/-- `stripe_csum_set`: the checksum's first bytes, copied into the value. -/
def stripe_csum_set (s : bch_stripe) (block csum_idx : Nat) (csum : bch_csum) : bch_stripe :=
  let offset := stripe_csum_offset s block csum_idx
  { s with val := storeLe s.val offset (stripe_csum_bytes s) (bch_csum.toLe csum) }

/-! ### The stripe buffer -/

/-- A buffer: its bytes, by offset. -/
abbrev buffer := Nat → UInt8

/-- `enum bch_stripe_buf_err`: the errors of a block before and after reconstruction. -/
inductive bch_stripe_buf_err where
  | STRIPE_BUF_PRE_RECOV
  | STRIPE_BUF_POST_RECOV
deriving DecidableEq, Repr

/-- `struct ec_stripe_buf`: the sectors it buffers, the errors of each block, the blocks'
buffers and the stripe key. -/
structure ec_stripe_buf where
  offset : Nat
  size : Nat
  err : bch_stripe_buf_err → Nat → Int16
  data : Nat → buffer
  key : bch_stripe

/-- `nr_blocks - nr_redundant`, as the `unsigned` the code computes. -/
def bch_stripe.nr_data (s : bch_stripe) : Nat :=
  (s.nr_blocks.toUInt32 - s.nr_redundant.toUInt32).toNat

/-- `ec_nr_failed`. -/
def ec_nr_failed (buf : ec_stripe_buf) (e : bch_stripe_buf_err) : Nat :=
  (List.range buf.key.nr_blocks.toNat).countP fun i => buf.err e i != 0

/-- `ec_failed_mask`. -/
def ec_failed_mask (buf : ec_stripe_buf) (e : bch_stripe_buf_err) : UInt32 :=
  (List.range buf.key.nr_blocks.toNat).foldl
    (fun mask i => if buf.err e i != 0 then mask ||| (1 <<< i.toUInt32) else mask) 0

/-- `bch2_ec_stripe_buf_init`, where it succeeds: the range widened to whole checksum
chunks. -/
def bch2_ec_stripe_buf_init (buf : ec_stripe_buf) (offset size : Nat) : Option ec_stripe_buf :=
  let csum_granularity := 1 <<< buf.key.csum_granularity_bits.toNat
  let end_ := offset + size
  if end_ > buf.key.sectors.toNat then none
  else
    let offset := round_down offset csum_granularity
    let end_ := min buf.key.sectors.toNat (round_up end_ csum_granularity)
    some { buf with offset := offset, size := end_ - offset }

/-! ### Checksumming -/

section Checksums

variable (P : bch2_checksum_primitives)

/-- `ec_block_checksum`: the checksum of the chunk of `block` at sector `offset`. The
alignment tests are `& (csum_granularity - 1)`. -/
def ec_block_checksum (buf : ec_stripe_buf) (block offset : Nat) : Option bch_csum :=
  let csum_granularity := 1 <<< buf.key.csum_granularity_bits.toNat
  let end_ := buf.offset + buf.size
  let len := min csum_granularity (end_ - offset)
  if offset ≥ end_ ∨ offset < buf.offset ∨ offset % csum_granularity ≠ 0 ∨
      (offset + len ≠ buf.key.sectors.toNat ∧ len % csum_granularity ≠ 0) then none
  else
    some (bch2_checksum P buf.key.csum_type.toNat null_nonce
      ((List.range (len <<< 9)).map fun k => buf.data block (((offset - buf.offset) <<< 9) + k)))

/-- The loops of `bch2_ec_generate_checksums`, over the blocks `blocks` and their chunks. -/
def generate_block_checksums (buf : ec_stripe_buf) (blocks : List Nat) : Option bch_stripe :=
  blocks.foldlM (fun key i =>
    (List.range (stripe_csums_per_device key)).foldlM (fun key j =>
      (ec_block_checksum P { buf with key := key } i (j <<< key.csum_granularity_bits.toNat)).map
        (stripe_csum_set key i j)) key) buf.key

/-- `bch2_ec_generate_checksums`: of the whole stripe. -/
def bch2_ec_generate_checksums (buf : ec_stripe_buf) : Option ec_stripe_buf :=
  if buf.key.csum_type = 0 then some buf
  else if buf.offset ≠ 0 ∨ buf.size ≠ buf.key.sectors.toNat then none
  else (generate_block_checksums P buf (List.range buf.key.nr_blocks.toNat)).map
    fun key => { buf with key := key }

/-- The chunk loop of `bch2_ec_validate_checksums` for block `i`, from sector `offset`:
whether a chunk's checksum differs from the key's. -/
def validate_block_chunks (buf : ec_stripe_buf) (i offset : Nat) : Option Bool :=
  if offset < buf.offset + buf.size then
    let csum_granularity := 1 <<< buf.key.csum_granularity_bits.toNat
    let j := offset >>> buf.key.csum_granularity_bits.toNat
    let len := min csum_granularity (buf.offset + buf.size - offset)
    let want := stripe_csum_get buf.key i j
    match ec_block_checksum P buf i offset with
    | none => none
    | some got => if bch2_crc_cmp want got then some true
      else validate_block_chunks buf i (offset + len)
  else some false
termination_by buf.offset + buf.size - offset
decreasing_by
  have : 0 < 1 <<< buf.key.csum_granularity_bits.toNat := by
    rw [Nat.one_shiftLeft]
    exact Nat.two_pow_pos _
  omega

/-- `bch2_ec_validate_checksums`: the blocks not flagged yet whose chunks fail their
checksums are flagged `e`. -/
def bch2_ec_validate_checksums (buf : ec_stripe_buf) (data_only : Bool)
    (e : bch_stripe_buf_err) : Option ec_stripe_buf :=
  if buf.key.csum_type = 0 then some buf
  else
    (List.range (if data_only then buf.key.nr_data else buf.key.nr_blocks.toNat)).foldlM
      (fun buf i =>
        if buf.err e i != 0 then some buf
        else (validate_block_chunks P buf i buf.offset).map fun bad =>
          let flagged := Function.update (buf.err e) i (-BCH_ERR_stripe_read_csum_err).toInt16
          if bad then { buf with err := Function.update buf.err e flagged } else buf)
      buf

attribute [grind] bch2_ec_generate_checksums

end Checksums

/-! ### Parity -/

/-- `memcpy(dst, src, size)`. -/
def memcpy (dst src : buffer) (size : Nat) : buffer :=
  fun k => if k < size then src k else dst k

/-- `xor_gen(dest, srcs, src_cnt, bytes)`: XOR the first `src_cnt` sources into `dest`. -/
def xor_gen (dest : buffer) (srcs : Nat → buffer) (src_cnt bytes : Nat) : buffer :=
  fun k => if k < bytes then
      (List.range src_cnt).foldl (fun acc i => acc ^^^ srcs i k) (dest k)
    else dest k

/-- `swap(data[i], data[j])`. -/
def swap_blocks (data : Nat → buffer) (i j : Nat) : Nat → buffer :=
  fun k => if k = i then data j else if k = j then data i else data k

/-- `raid5_recov`: rebuild block `failed_idx` as the XOR of the other `disks - 1`, through the
first slot. -/
def raid5_recov (disks failed_idx size : Nat) (data : Nat → buffer) : Option (Nat → buffer) :=
  if failed_idx ≥ disks then none
  else
    let data := swap_blocks data 0 failed_idx
    let data := Function.update data 0 (memcpy (data 0) (data 1) size)
    let data := Function.update data 0 (xor_gen (data 0) (fun i => data (i + 2)) (disks - 2) size)
    some (swap_blocks data 0 failed_idx)

/-- The routines of the kernel's RAID-6 library that `raid_gen` and `raid_rec` call. -/
structure raid6_calls where
  /-- `raid6_gen_syndrome(disks, bytes, ptrs)`. -/
  gen_syndrome : Nat → Nat → (Nat → buffer) → (Nat → buffer)
  /-- `raid6_recov_2data(disks, bytes, faila, failb, ptrs)`. -/
  recov_2data : Nat → Nat → Nat → Nat → (Nat → buffer) → (Nat → buffer)
  /-- `raid6_recov_datap(disks, bytes, faila, ptrs)`. -/
  recov_datap : Nat → Nat → Nat → (Nat → buffer) → (Nat → buffer)

section Raid

variable (lib : raid6_calls)

/-- `raid_gen`: P, then Q. -/
def raid_gen (nd np size : Nat) (v : Nat → buffer) : Option (Nat → buffer) := do
  let v ← if np ≥ 1 then raid5_recov (nd + np) nd size v else some v
  let v := if np ≥ 2 then lib.gen_syndrome (nd + np) size v else v
  if np > 2 then none else some v

/-- `raid_rec`: rebuild the blocks `ir`, in increasing order. -/
def raid_rec (ir : List Nat) (nd np size : Nat) (v : Nat → buffer) : Option (Nat → buffer) :=
  match ir with
  | [] => some v
  | [a] =>
    if a < nd + 1 then raid5_recov (nd + 1) a size v
    else some (lib.gen_syndrome (nd + np) size v)
  | [a, b] =>
    if b < nd then
      -- data + data
      some (lib.recov_2data (nd + np) size a b v)
    else if a < nd then
      -- data + P
      if b = nd then some (lib.recov_datap (nd + np) size a v)
      -- data + Q
      else (raid5_recov (nd + 1) a size v).map (lib.gen_syndrome (nd + np) size)
    else raid_gen lib nd np size v
  | _ => none

/-- `bch2_ec_generate_ec`: the parity of the whole stripe. -/
def bch2_ec_generate_ec (buf : ec_stripe_buf) : Option ec_stripe_buf :=
  (raid_gen lib buf.key.nr_data buf.key.nr_redundant.toNat (buf.key.sectors.toNat <<< 9)
    buf.data).map fun data => { buf with data := data }

/-- `bch2_ec_do_recov`: its return code and the buffer. -/
def bch2_ec_do_recov (P : bch2_checksum_primitives) (buf : ec_stripe_buf) (required : UInt32) :
    Option (Int × ec_stripe_buf) :=
  if ec_failed_mask buf .STRIPE_BUF_PRE_RECOV &&& required = 0 then some (0, buf)
  else if ec_nr_failed buf .STRIPE_BUF_PRE_RECOV > buf.key.nr_redundant.toNat then
    some (-BCH_ERR_stripe_reconstruct_insufficient_blocks, buf)
  else
    let failed := (List.range buf.key.nr_blocks.toNat).filter
      fun i => buf.err .STRIPE_BUF_PRE_RECOV i != 0
    do
      let data ← raid_rec lib failed buf.key.nr_data buf.key.nr_redundant.toNat
        (buf.size <<< 9) buf.data
      let buf ← bch2_ec_validate_checksums P { buf with data := data } true .STRIPE_BUF_POST_RECOV
      some (if ec_failed_mask buf .STRIPE_BUF_POST_RECOV &&& required != 0 then
          -BCH_ERR_stripe_read_csum_err
        else 0, buf)

attribute [grind] raid_gen bch2_ec_do_recov

end Raid

end Bcachefs.Ec
