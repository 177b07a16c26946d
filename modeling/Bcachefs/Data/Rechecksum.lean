import Bcachefs.Data.Checksum
import Bcachefs.Btree.Bkey

/-!
# `Bcachefs.Data.Rechecksum`: splitting an extent's checksum

`bch2_rechecksum_bio` (`data/checksum.c`) is given the data of an uncompressed extent, in a
bio, and its checksum entry `crc_old`. It checksums two pieces, `len_a` and `len_b` sectors
from the start, under `new_csum_type`, and checks the data against `crc_old` on the way:

* when `crc_old` has the new type and the type is mergeable, it checksums all three pieces
  (the rest of the extent is the third) and merges the three into the whole extent's;
* otherwise it checksums the pieces the caller asked for and the whole extent again, under
  the old type.

Each piece is checksummed with the nonce advanced past the pieces before it
(`nonce_add`, in ChaCha blocks). On a mismatch it fails with
`-BCH_ERR_recompute_checksum`; else it writes an entry for each piece asked for, whose
nonce field advances by the pieces' lengths in sectors for the encryption types.

`extent_nonce` (`data/checksum.h`) derives an extent's nonce from its version (the key's
`bversion`, `Btree.Bkey`) and its entry.

The bio is the bytes of its segments from `bi_iter` on, and a `bvec_iter` stands in them by
the bytes it has walked; `__bch2_checksum_bio` reads the segments in order, so its digest is
that of their bytes as one buffer, which `bch2_checksum` gives. The pointers `crc_a` and
`crc_b` are whether the caller passed one (`NULL` or not), and the result is the entries
written through them. The warning printed on a mismatch is not modelled; `none` is a
`BUG_ON`, or the merge never returning.
-/

set_option autoImplicit false
set_option linter.style.nameCheck false

namespace Bcachefs

/-- `BCH_COMPRESSION_TYPE_none`. -/
def BCH_COMPRESSION_TYPE_none : UInt8 := 0

/-- `BCH_COMPRESSION_TYPE_incompressible`. -/
def BCH_COMPRESSION_TYPE_incompressible : UInt8 := 5

/-- `crc_is_compressed`. -/
def crc_is_compressed (crc : bch_extent_crc_unpacked) : Bool :=
  crc.compression_type != BCH_COMPRESSION_TYPE_none &&
    crc.compression_type != BCH_COMPRESSION_TYPE_incompressible

/-- `bch2_csum_type_is_encryption`. -/
def bch2_csum_type_is_encryption (type : Nat) : Bool :=
  type == BCH_CSUM_chacha20_poly1305_80 || type == BCH_CSUM_chacha20_poly1305_128

/-- `bch2_crc_cmp`: `true` when the checksums differ. -/
def bch2_crc_cmp (l r : bch_csum) : Bool :=
  ((l.lo ^^^ r.lo) ||| (l.hi ^^^ r.hi)) != 0

/-- `CHACHA_BLOCK_SIZE`. -/
def CHACHA_BLOCK_SIZE : UInt32 := 64

/-- `BCH_NONCE_EXTENT`. -/
def BCH_NONCE_EXTENT : UInt32 := (1 : UInt32) <<< 28

/-- The nonce's first word, the ChaCha block counter. -/
def nonce_d0 : Fin 4 := ⟨0, Nat.succ_pos 3⟩

/-- `nonce_add`: the offset is in bytes, a multiple of `CHACHA_BLOCK_SIZE` (an `EBUG_ON`). -/
def nonce_add (nonce : nonce) (offset : UInt32) : Bcachefs.nonce :=
  ⟨nonce.d.set nonce_d0 (nonce.d.get nonce_d0 + offset / CHACHA_BLOCK_SIZE) nonce_d0.isLt⟩

/-- `extent_nonce`: `crc.nonce << 9` is an `int`, below `2 ^ 25`. -/
def extent_nonce (version : bversion) (crc : bch_extent_crc_unpacked) : nonce :=
  let compression_type : UInt32 :=
    if crc_is_compressed crc then crc.compression_type.toUInt32 else 0
  let size : UInt32 := if compression_type != 0 then crc.uncompressed_size else 0
  let nonce : nonce := ⟨#v[size <<< 22, version.lo.toUInt32, (version.lo >>> 32).toUInt32,
    (version.hi ||| (compression_type <<< 24)) ^^^ BCH_NONCE_EXTENT]⟩
  nonce_add nonce (crc.nonce.toUInt32 <<< 9)

attribute [grind] extent_nonce

/-! ### Bios -/

/-- `struct bvec_iter` over the bio's bytes: the bytes walked, and `bi_size`, the bytes left. -/
structure bvec_iter where
  bi_done : Nat
  bi_size : UInt32

/-- `bio->bi_iter` of a bio: at its first byte, with all of them left. -/
def bio_iter (bio : List UInt8) : bvec_iter :=
  { bi_done := 0, bi_size := bio.length.toUInt32 }

/-- `bio_sectors`: `bi_size >> 9`. -/
def bio_sectors (bio : List UInt8) : UInt32 := (bio_iter bio).bi_size >>> 9

/-- `bio_advance_iter`. -/
def bio_advance_iter (iter : bvec_iter) (bytes : UInt32) : bvec_iter :=
  { bi_done := iter.bi_done + bytes.toNat, bi_size := iter.bi_size - bytes }

/-- The bytes the iterator has left. -/
def bvec_iter_bytes (bio : List UInt8) (iter : bvec_iter) : List UInt8 :=
  (bio.drop iter.bi_done).take iter.bi_size.toNat

section Primitives

variable (P : bch2_checksum_primitives)

/-- `__bch2_checksum_bio`: the checksum, and the iterator after it. The `switch` is that of
`bch2_checksum`; `BCH_CSUM_none` and the types past it return at once, the iterator where it
was. -/
def __bch2_checksum_bio (type : Nat) (nonce : nonce) (bio : List UInt8) (iter : bvec_iter) :
    bch_csum × bvec_iter :=
  if type = BCH_CSUM_none then ({ lo := 0, hi := 0 }, iter)
  else if bch2_checksum_state_type type ∨ type = BCH_CSUM_chacha20_poly1305_80 ∨
      type = BCH_CSUM_chacha20_poly1305_128 then
    (bch2_checksum P type nonce (bvec_iter_bytes bio iter), bio_advance_iter iter iter.bi_size)
  else ({ lo := 0, hi := 0 }, iter)

/-- `bch2_checksum_bio`. -/
def bch2_checksum_bio (type : Nat) (nonce : nonce) (bio : List UInt8) : bch_csum :=
  (__bch2_checksum_bio P type nonce bio (bio_iter bio)).1

attribute [grind] __bch2_checksum_bio

/-! ### `bch2_rechecksum_bio` -/

/-- `struct crc_split`: whether the caller passed an entry for the piece, its length in
sectors, its checksum type and its checksum. -/
structure crc_split where
  crc : Bool
  len : UInt32
  csum_type : Nat
  csum : bch_csum

/-- The first loop: each piece's checksum where the merge needs it or the caller asked for
the piece, from the nonce advanced past the pieces before it. -/
def rechecksum_splits (bio : List UInt8) (mergeable : Bool) :
    List crc_split → nonce → bvec_iter → List crc_split
  | [], _, _ => []
  | i :: splits, nonce, iter =>
    let iter := { iter with bi_size := i.len <<< 9 }
    let r := if mergeable || i.crc then __bch2_checksum_bio P i.csum_type nonce bio iter
      else (i.csum, bio_advance_iter iter (i.len <<< 9))
    { i with csum := r.1 } ::
      rechecksum_splits bio mergeable splits (nonce_add nonce (i.len <<< 9)) r.2

/-- The second loop: the pieces' checksums merged, from `{ 0 }`. -/
def rechecksum_merge (new_csum_type : Nat) (splits : List crc_split) : Option bch_csum :=
  splits.foldlM (fun merged i =>
    bch2_checksum_merge P new_csum_type merged i.csum (i.len <<< (9 : UInt32)).toUInt64)
    { lo := 0, hi := 0 }

end Primitives

/-- The entry the last loop writes for a piece, with the nonce counted so far. -/
def crc_split.unpacked (i : crc_split) (crc_old : bch_extent_crc_unpacked) (crc_nonce : UInt32) :
    bch_extent_crc_unpacked :=
  { csum_type := i.csum_type.toUInt8
    compression_type := crc_old.compression_type
    compressed_size := i.len
    uncompressed_size := i.len
    offset := 0
    live_size := i.len
    nonce := crc_nonce.toUInt16
    csum := i.csum }

/-- The last loop: the entry for each piece the caller asked for; the nonce advances by each
piece's sectors for the encryption types. -/
def rechecksum_write (crc_old : bch_extent_crc_unpacked) (new_csum_type : Nat) :
    List crc_split → UInt32 → List (Option bch_extent_crc_unpacked)
  | [], _ => []
  | i :: splits, crc_nonce =>
    (if i.crc then some (i.unpacked crc_old crc_nonce) else none) ::
      rechecksum_write crc_old new_csum_type splits
        (if bch2_csum_type_is_encryption new_csum_type then crc_nonce + i.len else crc_nonce)

/-- The errors of `bch2_rechecksum_bio`. -/
inductive rechecksum_err where
  | recompute_checksum
deriving DecidableEq, Repr

section Primitives

variable (P : bch2_checksum_primitives)

/-- `bch2_rechecksum_bio`: the entries written through `crc_a` and `crc_b`, `none` for a
`NULL` pointer. -/
def bch2_rechecksum_bio (bio : List UInt8) (version : bversion)
    (crc_old : bch_extent_crc_unpacked) (crc_a crc_b : Bool) (len_a len_b : UInt32)
    (new_csum_type : Nat) (no_data_io : Bool) :
    Option (Except rechecksum_err (Option bch_extent_crc_unpacked × Option bch_extent_crc_unpacked)) :=
  let nonce := extent_nonce version crc_old
  let splits : List crc_split :=
    [{ crc := crc_a, len := len_a, csum_type := new_csum_type, csum := { lo := 0, hi := 0 } },
     { crc := crc_b, len := len_b, csum_type := new_csum_type, csum := { lo := 0, hi := 0 } },
     { crc := false, len := bio_sectors bio - len_a - len_b, csum_type := new_csum_type,
       csum := { lo := 0, hi := 0 } }]
  let mergeable := crc_old.csum_type.toNat == new_csum_type && bch2_checksum_mergeable new_csum_type
  let crc_nonce : UInt32 := crc_old.nonce.toUInt32
  if len_a + len_b > bio_sectors bio ∨ crc_old.uncompressed_size ≠ bio_sectors bio ∨
      crc_is_compressed crc_old ∨
      bch2_csum_type_is_encryption crc_old.csum_type.toNat ≠
        bch2_csum_type_is_encryption new_csum_type then none
  else
    let splits := rechecksum_splits P bio mergeable splits nonce (bio_iter bio)
    let merged := if mergeable then rechecksum_merge P new_csum_type splits
      else some (bch2_checksum_bio P crc_old.csum_type.toNat (extent_nonce version crc_old) bio)
    merged.map fun merged =>
      if bch2_crc_cmp merged crc_old.csum && !no_data_io then .error .recompute_checksum
      else
        let written := rechecksum_write crc_old new_csum_type splits crc_nonce
        .ok (written.getD 0 none, written.getD 1 none)

end Primitives

end Bcachefs
