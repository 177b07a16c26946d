import Mathlib.Algebra.Group.Nat.Defs

/-!
# `Bcachefs.Data.ExtentCrc`: checksum entries of extents, packed and unpacked

An extent that is checksummed or compressed carries, before its pointers, a checksum entry
in one of three packed formats (`data/extents_format.h`): `bch_extent_crc32`,
`bch_extent_crc64` and `bch_extent_crc128`, with bitfields of 7, 9 and 13 bits for the
sizes and the offset, and room for a checksum of 4, 10 and 16 bytes. The sizes are stored
less one. Code works on `struct bch_extent_crc_unpacked` (`data/extents_types.h`):

* `bch2_extent_crc_pack` (`data/extents.c`) writes an unpacked entry in a given format;
* `bch2_extent_crc_append` chooses the smallest format whose checksum room, size and nonce
  limits the entry meets, and packs it;
* `bch2_extent_crc_unpack` (`data/extents.h`) reads an entry back, its live size from the
  key's size.

A bitfield is a `BitVec` of its width: storing a value keeps its low bits, as assigning to
an unsigned bitfield does in C. The checksum is kept as the two little-endian words of
`struct bch_csum`; the casts through `__le32 *` and `__le16 *` read the low 4 and 2 bytes of
a word. The union `bch_extent_crc` is the format the entry's type bits name. Of
`bch2_extent_crc_append` the model keeps the choice of format and the packing, not the
update of the key's size that follows.
-/

set_option autoImplicit false

namespace Bcachefs

/-- `struct bch_csum`. -/
structure bch_csum where
  lo : UInt64
  hi : UInt64
deriving DecidableEq, Repr

/-- `struct bch_extent_crc_unpacked`. -/
structure bch_extent_crc_unpacked where
  compressed_size : UInt32
  uncompressed_size : UInt32
  live_size : UInt32
  csum_type : UInt8
  compression_type : UInt8
  offset : UInt16
  nonce : UInt16
  csum : bch_csum
deriving DecidableEq, Repr

/-- `BCH_CSUM_NR`. -/
def BCH_CSUM_NR : Nat := 8

/-- `bch_crc_bytes[type]`, for the types of `enum bch_csum_type` (`none`, `crc32c_nonzero`,
`crc64_nonzero`, `chacha20_poly1305_80`, `chacha20_poly1305_128`, `crc32c`, `crc64`,
`xxhash`); `none` past the array. -/
def bch_crc_bytes (type : UInt8) : Option Nat :=
  [0, 4, 8, 10, 16, 4, 8, 8][type.toNat]?

/-- `BCH_EXTENT_ENTRY_crc32`. -/
def BCH_EXTENT_ENTRY_crc32 : Nat := 1

/-- `BCH_EXTENT_ENTRY_crc64`. -/
def BCH_EXTENT_ENTRY_crc64 : Nat := 2

/-- `BCH_EXTENT_ENTRY_crc128`. -/
def BCH_EXTENT_ENTRY_crc128 : Nat := 3

/-- `CRC32_SIZE_MAX`. -/
def CRC32_SIZE_MAX : Nat := 2 ^ 7

/-- `CRC32_NONCE_MAX`. -/
def CRC32_NONCE_MAX : Nat := 0

/-- `CRC64_SIZE_MAX`. -/
def CRC64_SIZE_MAX : Nat := 2 ^ 9

/-- `CRC64_NONCE_MAX`. -/
def CRC64_NONCE_MAX : Nat := 2 ^ 10 - 1

/-- `CRC128_SIZE_MAX`. -/
def CRC128_SIZE_MAX : Nat := 2 ^ 13

/-- `CRC128_NONCE_MAX`. -/
def CRC128_NONCE_MAX : Nat := 2 ^ 13 - 1

/-- `struct bch_extent_crc32`. -/
structure bch_extent_crc32 where
  type : BitVec 2
  _compressed_size : BitVec 7
  _uncompressed_size : BitVec 7
  offset : BitVec 7
  csum_type : BitVec 4
  compression_type : BitVec 4
  csum : UInt32
deriving DecidableEq, Repr

/-- `struct bch_extent_crc64`. -/
structure bch_extent_crc64 where
  type : BitVec 3
  _compressed_size : BitVec 9
  _uncompressed_size : BitVec 9
  offset : BitVec 9
  nonce : BitVec 10
  csum_type : BitVec 4
  compression_type : BitVec 4
  csum_hi : BitVec 16
  csum_lo : UInt64
deriving DecidableEq, Repr

/-- `struct bch_extent_crc128`. -/
structure bch_extent_crc128 where
  type : BitVec 4
  _compressed_size : BitVec 13
  _uncompressed_size : BitVec 13
  offset : BitVec 13
  nonce : BitVec 13
  csum_type : BitVec 4
  compression_type : BitVec 4
  csum : bch_csum
deriving DecidableEq, Repr

/-- `union bch_extent_crc`, in the format its type bits name. -/
inductive bch_extent_crc where
  | crc32 (c : bch_extent_crc32)
  | crc64 (c : bch_extent_crc64)
  | crc128 (c : bch_extent_crc128)
deriving DecidableEq, Repr

/-- `bch2_extent_crc_pack`: the `common_fields` of each format, the sizes less one, and the
checksum cut to the format's room; `none` for a type that is no checksum entry (`BUG()`). -/
def bch2_extent_crc_pack (src : bch_extent_crc_unpacked) (type : Nat) :
    Option bch_extent_crc :=
  if type = BCH_EXTENT_ENTRY_crc32 then
    some <| .crc32
      { type := BitVec.ofNat 2 (2 ^ type)
        csum_type := BitVec.ofNat 4 src.csum_type.toNat
        compression_type := BitVec.ofNat 4 src.compression_type.toNat
        _compressed_size := BitVec.ofNat 7 (src.compressed_size - 1).toNat
        _uncompressed_size := BitVec.ofNat 7 (src.uncompressed_size - 1).toNat
        offset := BitVec.ofNat 7 src.offset.toNat
        csum := src.csum.lo.toUInt32 }
  else if type = BCH_EXTENT_ENTRY_crc64 then
    some <| .crc64
      { type := BitVec.ofNat 3 (2 ^ type)
        csum_type := BitVec.ofNat 4 src.csum_type.toNat
        compression_type := BitVec.ofNat 4 src.compression_type.toNat
        _compressed_size := BitVec.ofNat 9 (src.compressed_size - 1).toNat
        _uncompressed_size := BitVec.ofNat 9 (src.uncompressed_size - 1).toNat
        offset := BitVec.ofNat 9 src.offset.toNat
        nonce := BitVec.ofNat 10 src.nonce.toNat
        csum_lo := src.csum.lo
        csum_hi := BitVec.ofNat 16 src.csum.hi.toNat }
  else if type = BCH_EXTENT_ENTRY_crc128 then
    some <| .crc128
      { type := BitVec.ofNat 4 (2 ^ type)
        csum_type := BitVec.ofNat 4 src.csum_type.toNat
        compression_type := BitVec.ofNat 4 src.compression_type.toNat
        _compressed_size := BitVec.ofNat 13 (src.compressed_size - 1).toNat
        _uncompressed_size := BitVec.ofNat 13 (src.uncompressed_size - 1).toNat
        offset := BitVec.ofNat 13 src.offset.toNat
        nonce := BitVec.ofNat 13 src.nonce.toNat
        csum := src.csum }
  else none

/-- The format `bch2_extent_crc_append` picks for an entry: the first whose checksum room,
size limit and nonce limit it meets; `none` where it reaches `BUG()`, or reads
`bch_crc_bytes` past its end. -/
def bch2_extent_crc_append_type (new : bch_extent_crc_unpacked) : Option Nat :=
  (bch_crc_bytes new.csum_type).bind fun bytes =>
    if bytes ≤ 4 ∧ new.uncompressed_size.toNat ≤ CRC32_SIZE_MAX ∧
        new.nonce.toNat ≤ CRC32_NONCE_MAX then
      some BCH_EXTENT_ENTRY_crc32
    else if bytes ≤ 10 ∧ new.uncompressed_size.toNat ≤ CRC64_SIZE_MAX ∧
        new.nonce.toNat ≤ CRC64_NONCE_MAX then
      some BCH_EXTENT_ENTRY_crc64
    else if bytes ≤ 16 ∧ new.uncompressed_size.toNat ≤ CRC128_SIZE_MAX ∧
        new.nonce.toNat ≤ CRC128_NONCE_MAX then
      some BCH_EXTENT_ENTRY_crc128
    else none

/-- `bch2_extent_crc_append`: the entry it writes after the key's pointers. -/
def bch2_extent_crc_append (new : bch_extent_crc_unpacked) : Option bch_extent_crc :=
  (bch2_extent_crc_append_type new).bind (bch2_extent_crc_pack new)

/-- `bch2_extent_crc_unpack` of a key of size `k_size`: without an entry, the key's size is
all three sizes. -/
def bch2_extent_crc_unpack (k_size : UInt32) : Option bch_extent_crc → bch_extent_crc_unpacked
  | none =>
    { compressed_size := k_size, uncompressed_size := k_size, live_size := k_size,
      csum_type := 0, compression_type := 0, offset := 0, nonce := 0, csum := ⟨0, 0⟩ }
  | some (.crc32 c) =>
    { csum_type := c.csum_type.toNat.toUInt8
      compression_type := c.compression_type.toNat.toUInt8
      compressed_size := (c._compressed_size.toNat + 1).toUInt32
      uncompressed_size := (c._uncompressed_size.toNat + 1).toUInt32
      offset := c.offset.toNat.toUInt16
      live_size := k_size
      nonce := 0
      csum := ⟨c.csum.toUInt64, 0⟩ }
  | some (.crc64 c) =>
    { csum_type := c.csum_type.toNat.toUInt8
      compression_type := c.compression_type.toNat.toUInt8
      compressed_size := (c._compressed_size.toNat + 1).toUInt32
      uncompressed_size := (c._uncompressed_size.toNat + 1).toUInt32
      offset := c.offset.toNat.toUInt16
      live_size := k_size
      nonce := c.nonce.toNat.toUInt16
      csum := ⟨c.csum_lo, c.csum_hi.toNat.toUInt64⟩ }
  | some (.crc128 c) =>
    { csum_type := c.csum_type.toNat.toUInt8
      compression_type := c.compression_type.toNat.toUInt8
      compressed_size := (c._compressed_size.toNat + 1).toUInt32
      uncompressed_size := (c._uncompressed_size.toNat + 1).toUInt32
      offset := c.offset.toNat.toUInt16
      live_size := k_size
      nonce := c.nonce.toNat.toUInt16
      csum := c.csum }

end Bcachefs
