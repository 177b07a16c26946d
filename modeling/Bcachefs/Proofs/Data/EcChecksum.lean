import Bcachefs.Data.Ec
import Bcachefs.Proofs.Data.Rechecksum

/-!
# The checksums of a stripe, generated and validated

A buffer from `bch2_ec_stripe_buf_init` covers whole checksum chunks of its stripe: it starts
on a chunk boundary and ends on one or at the end of the stripe (`chunk_aligned`,
`bch2_ec_stripe_buf_init_spec`). Every chunk it checks is then a chunk of the whole stripe,
of the same length (`chunk_aligned.len_eq`), and `ec_block_checksum` never reaches its
`BUG_ON`s there (`chunk_aligned.ec_block_checksum_eq`).

`bch2_ec_generate_checksums` stores into the key the checksum of every chunk of every block
(`bch2_ec_generate_checksums_spec`), each in its own slot (`stripe_csum_slots_disjoint`),
whole, since every checksum type fits the slot's width (`bch2_checksum_fits`): read back,
each slot gives its chunk's checksum (`stripe_csum_get_csum_stores`).

`bch2_ec_validate_checksums` flags the blocks it checks that were not flagged and have a
chunk that fails (`bch2_ec_validate_checksums_spec`), from one lemma for its chunk loop
(`validate_block_chunks_eq`) and one for a block (`validate_step_eq`). Against the key of
the whole stripe `D`, a block that holds `D`'s bytes passes (`block_bad_eq_false`); and,
where the checksum does not collide on the chunks compared (`no_collision`), a block fails
exactly when a byte of it differs from `D`'s (`block_bad_iff`).
-/

set_option autoImplicit false

namespace Bcachefs.Proofs.Data

open Bcachefs Bcachefs.Bits Bcachefs.Ec

/-! ### Whole checksum chunks -/

/-- A number ORed with the low `b` bits set: its multiple of `2 ^ b` below, plus those bits. -/
theorem or_two_pow_sub_one (n b : Nat) : n ||| (2 ^ b - 1) = n / 2 ^ b * 2 ^ b + (2 ^ b - 1) := by
  apply Nat.eq_of_testBit_eq
  intro i
  rw [Nat.testBit_or, Nat.testBit_two_pow_sub_one, Nat.mul_comm,
    Nat.testBit_two_pow_mul_add _ (Nat.sub_lt (Nat.two_pow_pos b) Nat.one_pos)]
  -- below bit `b` every bit is set; above it the bits are `n`'s
  by_cases hi : i < b
  · simp [hi]
  · rw [if_neg hi, Nat.testBit_div_two_pow, Nat.sub_add_cancel (by omega)]
    simp [hi]

/-- `round_up(x, 2 ^ b)` is the multiple of `2 ^ b` at or above `x`. -/
theorem round_up_two_pow (x b : Nat) :
    round_up x (2 ^ b) % 2 ^ b = 0 ∧ x ≤ round_up x (2 ^ b) := by
  unfold round_up
  by_cases hx : x = 0
  · simp [hx]
  · rw [if_neg hx, or_two_pow_sub_one]
    have hg := Nat.two_pow_pos b
    have hlt := Nat.lt_div_mul_add (a := x - 1) hg
    constructor
    · rw [show (x - 1) / 2 ^ b * 2 ^ b + (2 ^ b - 1) + 1 = ((x - 1) / 2 ^ b + 1) * 2 ^ b by
        rw [Nat.succ_mul]; omega]
      exact Nat.mul_mod_left _ _
    · omega

/-- `round_down(x, 2 ^ b)`: `x` less its remainder. -/
theorem round_down_two_pow (x b : Nat) : round_down x (2 ^ b) = x - x % 2 ^ b := by
  rw [round_down, Nat.and_two_pow_sub_one_eq_mod]

/-- A buffer over whole checksum chunks of its stripe: it starts on a chunk boundary and ends
on one or at the end of the stripe. -/
structure chunk_aligned (buf : ec_stripe_buf) : Prop where
  offset_mod : buf.offset % 2 ^ buf.key.csum_granularity_bits.toNat = 0
  end_le : buf.offset + buf.size ≤ buf.key.sectors.toNat
  end_mod : buf.offset + buf.size = buf.key.sectors.toNat ∨
    (buf.offset + buf.size) % 2 ^ buf.key.csum_granularity_bits.toNat = 0

/-- `bch2_ec_stripe_buf_init` sets up a buffer over whole chunks that covers the range asked
for, and changes nothing else. -/
theorem bch2_ec_stripe_buf_init_spec {buf buf' : ec_stripe_buf} {offset size : Nat}
    (h : bch2_ec_stripe_buf_init buf offset size = some buf') :
    buf'.key = buf.key ∧ buf'.data = buf.data ∧ buf'.err = buf.err ∧ chunk_aligned buf' ∧
      buf'.offset ≤ offset ∧ offset + size ≤ buf'.offset + buf'.size := by
  unfold bch2_ec_stripe_buf_init at h
  simp only [Nat.one_shiftLeft] at h
  split at h
  · cases h
  · rename_i hend
    cases h
    set b := buf.key.csum_granularity_bits.toNat
    obtain ⟨hup_mod, hup_le⟩ := round_up_two_pow (offset + size) b
    have hdown : round_down offset (2 ^ b) = offset - offset % 2 ^ b := round_down_two_pow _ _
    have hdown_mod : round_down offset (2 ^ b) % 2 ^ b = 0 := by
      rw [hdown]
      exact Nat.sub_mod_eq_zero_of_mod_eq (Nat.mod_mod _ _).symm
    have hdown_le : round_down offset (2 ^ b) ≤ offset := by rw [hdown]; omega
    -- the start rounds down to a boundary, the end up to one or to the stripe's end
    refine ⟨rfl, rfl, rfl, ⟨hdown_mod, ?_, ?_⟩, hdown_le, ?_⟩
    · dsimp only
      omega
    · dsimp only
      rcases Nat.le_total buf.key.sectors.toNat (round_up (offset + size) (2 ^ b)) with hle | hle
      · left
        rw [Nat.min_eq_left hle]
        omega
      · right
        rw [Nat.min_eq_right hle, Nat.add_sub_cancel' (by omega)]
        exact hup_mod
    · dsimp only
      omega

/-! ### The checksums in the key -/

/-- A checksum written as 16 little-endian bytes reads back as itself. -/
theorem bch_csum_ofLe_toLe (c : bch_csum) : bch_csum.ofLe (bch_csum.toLe c) = c := by
  obtain ⟨lo, hi⟩ := c
  have hlo := lo.toNat_lt
  have hhi := hi.toNat_lt
  simp only [bch_csum.ofLe, bch_csum.toLe, bch_csum.mk.injEq]
  -- the low word is the value mod `2 ^ 64`, the high word the quotient
  constructor
  · rw [← UInt64.toNat_inj, Nat.toUInt64_eq, UInt64.toNat_ofNat', Nat.add_mul_mod_self_left,
      Nat.mod_eq_of_lt hlo]
  · rw [← UInt64.toNat_inj, Nat.toUInt64_eq, UInt64.toNat_ofNat',
      Nat.add_mul_div_left _ _ (by norm_num), Nat.div_eq_of_lt hlo, Nat.zero_add,
      Nat.mod_eq_of_lt hhi]

/-- A checksum takes at most 16 bytes. -/
theorem bch_csum_toLe_lt (c : bch_csum) : bch_csum.toLe c < 2 ^ 128 := by
  have hlo := c.lo.toNat_lt
  have hhi := c.hi.toNat_lt
  unfold bch_csum.toLe
  omega

/-- Every checksum type's digest fits the bytes the stripe keeps per chunk. -/
theorem bch2_checksum_fits (P : bch2_checksum_primitives) (s : bch_stripe) (n : nonce)
    (data : List UInt8) :
    bch_csum.toLe (bch2_checksum P s.csum_type.toNat n data) < 2 ^ (8 * stripe_csum_bytes s) := by
  unfold stripe_csum_bytes
  by_cases ht : s.csum_type.toNat < BCH_CSUM_NR
  · rw [if_pos ht]
    generalize s.csum_type = t at ht ⊢
    obtain ⟨m, hm, rfl⟩ : ∃ m, m < 8 ∧ t = m.toUInt8 := ⟨t.toNat, ht, by simp⟩
    -- each type's digest, and the bytes the stripe keeps of it
    interval_cases m <;> simp [bch2_checksum, bch2_checksum_state_type, bch2_checksum_init,
      bch2_checksum_update, bch2_checksum_final, BCH_CSUM_none, BCH_CSUM_crc32c, BCH_CSUM_crc64,
      BCH_CSUM_crc32c_nonzero, BCH_CSUM_crc64_nonzero, BCH_CSUM_xxhash,
      BCH_CSUM_chacha20_poly1305_80, BCH_CSUM_chacha20_poly1305_128, bch_crc_bytes,
      bch_csum.toLe, bch_csum_prefix]
    · -- `crc32c_nonzero`: a 32-bit CRC XORed with `U32_MAX`
      have := Nat.xor_lt_two_pow (UInt32.toNat_lt (crc32c U32_MAX data)) (UInt32.toNat_lt U32_MAX)
      simpa using this
    · have := Nat.xor_lt_two_pow (UInt64.toNat_lt (crc64_be U64_MAX data)) (UInt64.toNat_lt U64_MAX)
      simpa using this
    · -- `chacha20_poly1305_80`: ten bytes of the digest
      have := (P.poly1305 n data).lo.toNat_lt
      omega
    · have := (P.poly1305 n data).lo.toNat_lt
      have := (P.poly1305 n data).hi.toNat_lt
      omega
    · exact UInt32.toNat_lt _
    · exact UInt64.toNat_lt _
    · exact UInt64.toNat_lt _
  · rw [if_neg ht]
    exact bch_csum_toLe_lt _

section Slots

variable (s : bch_stripe) (v : Int → UInt8)

/-- The chunks per device do not depend on the stored checksums. -/
@[simp] theorem stripe_csums_per_device_val :
    stripe_csums_per_device { s with val := v } = stripe_csums_per_device s := rfl

/-- The checksum size does not depend on the stored checksums. -/
@[simp] theorem stripe_csum_bytes_val : stripe_csum_bytes { s with val := v } = stripe_csum_bytes s :=
  rfl

/-- The slots do not depend on the stored checksums. -/
@[simp] theorem stripe_csum_offset_val (i j : Nat) :
    stripe_csum_offset { s with val := v } i j = stripe_csum_offset s i j := rfl

end Slots

/-- Two checksum slots of a stripe, of blocks `i`, `i'` and chunks `j`, `j'` below the chunks
per device, do not overlap unless they are the same. -/
theorem stripe_csum_slots_disjoint (s : bch_stripe) {i j i' j' : Nat}
    (hj : j < stripe_csums_per_device s) (hj' : j' < stripe_csums_per_device s)
    (hne : (i, j) ≠ (i', j')) :
    (stripe_csum_offset s i j : Int) + stripe_csum_bytes s ≤ stripe_csum_offset s i' j' ∨
      (stripe_csum_offset s i' j' : Int) + stripe_csum_bytes s ≤ stripe_csum_offset s i j := by
  unfold stripe_csum_offset
  generalize stripe_csums_per_device s = cpd at *
  generalize stripe_csum_bytes s = bytes
  -- the slot numbers `i * cpd + j` of distinct pairs differ
  have hslot : i * cpd + j ≠ i' * cpd + j' := by
    intro h
    have hi : i = i' := by
      have := congrArg (· / cpd) h
      simp only [Nat.add_comm _ j, Nat.add_comm _ j', Nat.add_mul_div_right _ _ (by omega : 0 < cpd),
        Nat.div_eq_of_lt hj, Nat.div_eq_of_lt hj'] at this
      omega
    subst hi
    exact hne (by simp; omega)
  rcases Nat.lt_or_gt_of_ne hslot with h | h
  · left
    have h' := Nat.mul_le_mul_right bytes (Nat.succ_le_of_lt h)
    rw [Nat.succ_mul] at h'
    have : 8 + 8 * s.nr_blocks.toNat + (i * cpd + j) * bytes + bytes ≤
        8 + 8 * s.nr_blocks.toNat + (i' * cpd + j') * bytes := by omega
    exact_mod_cast this
  · right
    have h' := Nat.mul_le_mul_right bytes (Nat.succ_le_of_lt h)
    rw [Nat.succ_mul] at h'
    have : 8 + 8 * s.nr_blocks.toNat + (i' * cpd + j') * bytes + bytes ≤
        8 + 8 * s.nr_blocks.toNat + (i * cpd + j) * bytes := by omega
    exact_mod_cast this

/-- What a run of stores leaves in the window of `x`, when the windows of the other terms
stay clear of it: the last value stored there, or what was there before. -/
theorem leVal_foldl_storeLe {ι : Type*} [DecidableEq ι] (addr : ι → Int) (n : Nat) (v : ι → Nat) (x : ι) :
    ∀ (l : List ι) (m : Int → UInt8),
      (∀ y ∈ l, y ≠ x → addr y + n ≤ addr x ∨ addr x + n ≤ addr y) →
      leVal (l.foldl (fun m y => storeLe m (addr y) n (v y)) m) (addr x) n =
        if x ∈ l then v x % 2 ^ (8 * n) else leVal m (addr x) n
  | [], m, _ => by simp
  | y :: l, m, hl => by
    rw [List.foldl_cons, leVal_foldl_storeLe addr n v x l _ fun z hz => hl z (by simp [hz])]
    -- a later store to `x` wins; otherwise the store of `y` lies clear of `x`
    by_cases hx : x ∈ l
    · simp [hx]
    · by_cases hy : y = x
      · subst hy
        simp [leVal_storeLe_self]
      · rw [if_neg hx, if_neg (by simp [hx, Ne.symm hy])]
        apply leVal_congr
        intro z hz1 hz2
        apply storeLe_of_not_mem
        rcases hl y (by simp) hy with h | h <;> omega

/-! ### The chunks a checksum covers -/

/-- The bytes of `len` sectors of a buffer from its sector `o`: what `ec_block_checksum` hands
`bch2_checksum`. -/
def stripe_chunk (b : buffer) (o len : Nat) : List UInt8 :=
  (List.range (len <<< 9)).map fun k => b ((o <<< 9) + k)

/-- The checksum of chunk `j` of block `i` of the whole stripe `D`: what
`bch2_ec_generate_checksums` stores for it. -/
def full_csum (P : bch2_checksum_primitives) (s : bch_stripe) (D : Nat → buffer) (i j : Nat) :
    bch_csum :=
  let g := 2 ^ s.csum_granularity_bits.toNat
  bch2_checksum P s.csum_type.toNat null_nonce
    (stripe_chunk (D i) (j * g) (min g (s.sectors.toNat - j * g)))

section Chunks

variable (s : bch_stripe)

/-- The chunks per device cover the stripe: chunk `j` of them starts inside it. -/
theorem chunk_lt_sectors {j : Nat} (hj : j < stripe_csums_per_device s) :
    j * 2 ^ s.csum_granularity_bits.toNat < s.sectors.toNat := by
  unfold stripe_csums_per_device DIV_ROUND_UP at hj
  rw [Nat.one_shiftLeft] at hj
  have hg := Nat.two_pow_pos s.csum_granularity_bits.toNat
  -- `j < DIV_ROUND_UP(sectors, g)` means `j * g < sectors`
  have := (Nat.le_div_iff_mul_le hg).mp hj
  rw [Nat.succ_mul] at this
  omega

/-- A chunk boundary inside the stripe is the start of one of its chunks. -/
theorem chunk_of_aligned {o : Nat} (ho : o < s.sectors.toNat)
    (hmod : o % 2 ^ s.csum_granularity_bits.toNat = 0) :
    o / 2 ^ s.csum_granularity_bits.toNat < stripe_csums_per_device s ∧
      o / 2 ^ s.csum_granularity_bits.toNat * 2 ^ s.csum_granularity_bits.toNat = o := by
  have hg := Nat.two_pow_pos s.csum_granularity_bits.toNat
  have hdiv : o / 2 ^ s.csum_granularity_bits.toNat * 2 ^ s.csum_granularity_bits.toNat = o :=
    Nat.div_mul_cancel (Nat.dvd_of_mod_eq_zero hmod)
  refine ⟨?_, hdiv⟩
  -- a boundary below `sectors` is below the last chunk's end
  unfold stripe_csums_per_device DIV_ROUND_UP
  rw [Nat.one_shiftLeft, Nat.lt_iff_add_one_le, Nat.le_div_iff_mul_le hg, Nat.succ_mul, hdiv]
  omega

end Chunks

section Aligned

variable {buf : ec_stripe_buf} (hal : chunk_aligned buf)
include hal

/-- In a buffer over whole chunks, the chunk at a boundary `o` inside it is as long as that
chunk of the whole stripe. -/
theorem chunk_aligned.len_eq {o : Nat} (hlt : o < buf.offset + buf.size)
    (hmod : o % 2 ^ buf.key.csum_granularity_bits.toNat = 0) :
    min (2 ^ buf.key.csum_granularity_bits.toNat) (buf.offset + buf.size - o) =
      min (2 ^ buf.key.csum_granularity_bits.toNat) (buf.key.sectors.toNat - o) := by
  rcases hal.end_mod with hend | hend
  · rw [hend]
  · -- the buffer ends on a boundary: a whole chunk lies between `o` and its end
    have hdvd : (buf.offset + buf.size - o) % 2 ^ buf.key.csum_granularity_bits.toNat = 0 :=
      Nat.sub_mod_eq_zero_of_mod_eq (hend.trans hmod.symm)
    have hg : 2 ^ buf.key.csum_granularity_bits.toNat ≤ buf.offset + buf.size - o :=
      Nat.le_of_dvd (by omega) (Nat.dvd_of_mod_eq_zero hdvd)
    have := hal.end_le
    omega

/-- The chunk at a boundary inside the buffer is whole, or ends the stripe: what
`ec_block_checksum` checks before it sums it. -/
theorem chunk_aligned.len_ok {o : Nat} (hlt : o < buf.offset + buf.size)
    (hmod : o % 2 ^ buf.key.csum_granularity_bits.toNat = 0) :
    o + min (2 ^ buf.key.csum_granularity_bits.toNat) (buf.offset + buf.size - o) =
        buf.key.sectors.toNat ∨
      min (2 ^ buf.key.csum_granularity_bits.toNat) (buf.offset + buf.size - o) %
        2 ^ buf.key.csum_granularity_bits.toNat = 0 := by
  rw [hal.len_eq hlt hmod]
  have := hal.end_le
  -- a whole chunk fits before the stripe's end, or this chunk ends it
  by_cases hg : 2 ^ buf.key.csum_granularity_bits.toNat ≤ buf.key.sectors.toNat - o
  · right
    rw [Nat.min_eq_left hg, Nat.mod_self]
  · left
    omega

/-- `ec_block_checksum` of a chunk at a boundary inside a buffer over whole chunks: the
checksum of its bytes, as long as that chunk of the stripe. -/
theorem chunk_aligned.ec_block_checksum_eq (P : bch2_checksum_primitives) (block : Nat)
    {o : Nat} (hlt : o < buf.offset + buf.size) (hge : buf.offset ≤ o)
    (hmod : o % 2 ^ buf.key.csum_granularity_bits.toNat = 0) :
    ec_block_checksum P buf block o = some (bch2_checksum P buf.key.csum_type.toNat null_nonce
      (stripe_chunk (buf.data block) (o - buf.offset)
        (min (2 ^ buf.key.csum_granularity_bits.toNat) (buf.key.sectors.toNat - o)))) := by
  have hok := hal.len_ok hlt hmod
  -- the length check passes, so no `BUG_ON`
  unfold ec_block_checksum
  simp only [Nat.one_shiftLeft]
  rw [if_neg (by omega), hal.len_eq hlt hmod]
  rfl

end Aligned

/-- The whole stripe is a buffer over whole chunks. -/
theorem chunk_aligned_full {buf : ec_stripe_buf} (hoff : buf.offset = 0)
    (hsize : buf.size = buf.key.sectors.toNat) : chunk_aligned buf :=
  ⟨by simp [hoff], by omega, Or.inl (by omega)⟩

/-- `ec_block_checksum` does not read the checksums in the key. -/
@[simp] theorem ec_block_checksum_val (P : bch2_checksum_primitives) (buf : ec_stripe_buf)
    (m : Int → UInt8) (block o : Nat) :
    ec_block_checksum P { buf with key := { buf.key with val := m } } block o =
      ec_block_checksum P buf block o := rfl

/-- The checksum slots `l` of the stripe `s`, given in turn the checksums of the chunks of
`D`. -/
def csum_stores (P : bch2_checksum_primitives) (s : bch_stripe) (D : Nat → buffer)
    (l : List (Nat × Nat)) (m : Int → UInt8) : Int → UInt8 :=
  l.foldl (fun m p => storeLe m (stripe_csum_offset s p.1 p.2) (stripe_csum_bytes s)
    (bch_csum.toLe (full_csum P s D p.1 p.2))) m

/-- The chunk loop of `bch2_ec_generate_checksums` for block `i` over the whole stripe: the
checksums of its chunks, stored one after the other. -/
theorem generate_chunk_checksums_eq (P : bch2_checksum_primitives) {buf : ec_stripe_buf}
    (hoff : buf.offset = 0) (hsize : buf.size = buf.key.sectors.toNat) (i : Nat) :
    ∀ (l : List Nat) (m : Int → UInt8), (∀ j ∈ l, j < stripe_csums_per_device buf.key) →
      l.foldlM (fun key j =>
          (ec_block_checksum P { buf with key := key } i
            (j <<< key.csum_granularity_bits.toNat)).map (stripe_csum_set key i j))
        { buf.key with val := m } =
      some { buf.key with val := csum_stores P buf.key buf.data (l.map fun j => (i, j)) m }
  | [], m, _ => rfl
  | j :: l, m, hl => by
    have hj := hl j List.mem_cons_self
    have hal := chunk_aligned_full hoff hsize
    have hc := hal.ec_block_checksum_eq P i (o := j * 2 ^ buf.key.csum_granularity_bits.toNat)
      (by rw [hoff, hsize, Nat.zero_add]; exact chunk_lt_sectors buf.key hj) (by omega)
      (Nat.mul_mod_left _ _)
    rw [hoff, Nat.sub_zero] at hc
    have hset : stripe_csum_set { buf.key with val := m } i j (full_csum P buf.key buf.data i j) =
        { buf.key with
          val := storeLe m (stripe_csum_offset buf.key i j) (stripe_csum_bytes buf.key)
            (bch_csum.toLe (full_csum P buf.key buf.data i j)) } := rfl
    -- store chunk `j`'s checksum, then go on with the rest
    rw [List.foldlM_cons, ec_block_checksum_val, Nat.shiftLeft_eq, hc]
    simp only [Option.map_some, Option.bind_eq_bind, Option.bind_some]
    rw [show bch2_checksum P buf.key.csum_type.toNat null_nonce _ = full_csum P buf.key buf.data i j
      from rfl, hset, List.map_cons, csum_stores, List.foldl_cons]
    exact generate_chunk_checksums_eq P hoff hsize i l _ fun j' hj' => hl j' (by simp [hj'])

/-- The block loop of `bch2_ec_generate_checksums` over the whole stripe: the checksums of
the chunks of each block in turn. -/
theorem generate_block_checksums_eq (P : bch2_checksum_primitives) {buf : ec_stripe_buf}
    (hoff : buf.offset = 0) (hsize : buf.size = buf.key.sectors.toNat) :
    ∀ (l : List Nat) (m : Int → UInt8),
      l.foldlM (fun key i => (List.range (stripe_csums_per_device key)).foldlM (fun key j =>
          (ec_block_checksum P { buf with key := key } i
            (j <<< key.csum_granularity_bits.toNat)).map (stripe_csum_set key i j)) key)
        { buf.key with val := m } =
      some { buf.key with
        val := csum_stores P buf.key buf.data
          (l.flatMap fun i => (List.range (stripe_csums_per_device buf.key)).map fun j => (i, j)) m }
  | [], m => rfl
  | i :: l, m => by
    -- block `i`'s chunks, then the other blocks
    rw [List.foldlM_cons, stripe_csums_per_device_val,
      generate_chunk_checksums_eq P hoff hsize i _ m fun j hj => List.mem_range.mp hj]
    simp only [Option.bind_eq_bind, Option.bind_some]
    rw [generate_block_checksums_eq P hoff hsize l, List.flatMap_cons, csum_stores, csum_stores,
      csum_stores, List.foldl_append]

/-- `bch2_ec_generate_checksums` of a stripe with checksums: it asks for the whole stripe, and
stores the checksum of every chunk of every block. -/
theorem bch2_ec_generate_checksums_spec (P : bch2_checksum_primitives) {buf buf' : ec_stripe_buf}
    (h : bch2_ec_generate_checksums P buf = some buf') (ht : buf.key.csum_type ≠ 0) :
    buf.offset = 0 ∧ buf.size = buf.key.sectors.toNat ∧
      buf' = { buf with
        key := { buf.key with
          val := csum_stores P buf.key buf.data
            ((List.range buf.key.nr_blocks.toNat).flatMap fun i =>
              (List.range (stripe_csums_per_device buf.key)).map fun j => (i, j)) buf.key.val } } := by
  unfold bch2_ec_generate_checksums at h
  rw [if_neg ht] at h
  split at h
  · cases h
  -- the `BUG_ON` of a partial buffer did not fire: the buffer is the whole stripe
  · rename_i hfull
    have hoff : buf.offset = 0 := by omega
    have hsize : buf.size = buf.key.sectors.toNat := by omega
    refine ⟨hoff, hsize, ?_⟩
    have hgen := generate_block_checksums_eq P hoff hsize (List.range buf.key.nr_blocks.toNat)
      buf.key.val
    unfold generate_block_checksums at h
    rw [show buf.key = { buf.key with val := buf.key.val } from rfl, hgen] at h
    cases h
    rfl

/-- After the checksums of the chunks of `D` were stored in every slot, the slot of block `i`
and chunk `j` holds that chunk's checksum. -/
theorem stripe_csum_get_csum_stores (P : bch2_checksum_primitives) (s : bch_stripe)
    (D : Nat → buffer) (m : Int → UInt8) {i j : Nat} (hi : i < s.nr_blocks.toNat)
    (hj : j < stripe_csums_per_device s) :
    stripe_csum_get { s with
      val := csum_stores P s D
        ((List.range s.nr_blocks.toNat).flatMap fun i =>
          (List.range (stripe_csums_per_device s)).map fun j => (i, j)) m } i j =
      full_csum P s D i j := by
  simp only [stripe_csum_get, stripe_csum_offset_val, stripe_csum_bytes_val, csum_stores]
  rw [leVal_foldl_storeLe (fun p => (stripe_csum_offset s p.1 p.2 : Int)) _
      (fun p => bch_csum.toLe (full_csum P s D p.1 p.2)) (i, j)]
  · have hfit : bch_csum.toLe (full_csum P s D i j) < 2 ^ (8 * stripe_csum_bytes s) :=
      bch2_checksum_fits P s _ _
    rw [if_pos (by simp [hi, hj])]
    dsimp only
    rw [Nat.mod_eq_of_lt hfit, bch_csum_ofLe_toLe]
  -- every other slot lies clear of slot `(i, j)`
  · intro y hy hne
    simp only [List.mem_flatMap, List.mem_map, List.mem_range] at hy
    obtain ⟨i', -, j', hj', rfl⟩ := hy
    exact stripe_csum_slots_disjoint s hj' hj hne

/-! ### Validation -/

/-- Whether the chunk of block `i` at sector `o` fails its checksum, as
`bch2_ec_validate_checksums` tests it: the key's checksum against that of the buffer's bytes. -/
def chunk_bad (P : bch2_checksum_primitives) (buf : ec_stripe_buf) (i o : Nat) : Bool :=
  bch2_crc_cmp (stripe_csum_get buf.key i (o >>> buf.key.csum_granularity_bits.toNat))
    (bch2_checksum P buf.key.csum_type.toNat null_nonce (stripe_chunk (buf.data i) (o - buf.offset)
      (min (2 ^ buf.key.csum_granularity_bits.toNat) (buf.key.sectors.toNat - o))))

/-- Whether some chunk of block `i` in the buffer fails its checksum. -/
def block_bad (P : bch2_checksum_primitives) (buf : ec_stripe_buf) (i : Nat) : Bool :=
  decide (∃ o < buf.offset + buf.size, buf.offset ≤ o ∧
    o % 2 ^ buf.key.csum_granularity_bits.toNat = 0 ∧ chunk_bad P buf i o = true)

/-- Two chunk boundaries less than a chunk apart are the same. -/
theorem eq_of_aligned_of_lt {g o o' : Nat} (ho : o % g = 0) (ho' : o' % g = 0) (hle : o ≤ o')
    (hlt : o' < o + g) : o' = o := by
  have hdvd : g ∣ o' - o := Nat.dvd_of_mod_eq_zero (Nat.sub_mod_eq_zero_of_mod_eq (ho'.trans ho.symm))
  have := Nat.eq_zero_of_dvd_of_lt hdvd (by omega)
  omega

/-- The chunk loop of `bch2_ec_validate_checksums` from a boundary `o` of a buffer over whole
chunks (or from its end): whether a chunk from `o` on fails its checksum. It never reaches a
`BUG_ON`. -/
theorem validate_block_chunks_eq (P : bch2_checksum_primitives) {buf : ec_stripe_buf}
    (hal : chunk_aligned buf) (i o : Nat) (hge : buf.offset ≤ o)
    (halign : o % 2 ^ buf.key.csum_granularity_bits.toNat = 0 ∨ buf.offset + buf.size ≤ o) :
    validate_block_chunks P buf i o = some (decide (∃ o' < buf.offset + buf.size, o ≤ o' ∧
      o' % 2 ^ buf.key.csum_granularity_bits.toNat = 0 ∧ chunk_bad P buf i o' = true)) := by
  induction o using validate_block_chunks.induct P buf i with
  | case1 o hlt hnone =>
    have hmod : o % 2 ^ buf.key.csum_granularity_bits.toNat = 0 := by omega
    rw [hal.ec_block_checksum_eq P i hlt hge hmod] at hnone
    cases hnone
  | case2 o hlt j want got hgot hbad =>
    -- the chunk at `o` fails: the loop stops there
    have hmod : o % 2 ^ buf.key.csum_granularity_bits.toNat = 0 := by omega
    simp only [want, j] at hbad
    rw [validate_block_chunks, if_pos hlt]
    dsimp only
    rw [hgot]
    dsimp only
    rw [if_pos hbad]
    rw [hal.ec_block_checksum_eq P i hlt hge hmod, Option.some.injEq] at hgot
    subst hgot
    rw [Option.some.injEq, eq_comm, decide_eq_true_iff]
    exact ⟨o, hlt, le_rfl, hmod, hbad⟩
  | case3 o hlt g' j len want got hgot hgood ih =>
    -- the chunk at `o` passes: the loop goes on from the next boundary
    have hmod : o % 2 ^ buf.key.csum_granularity_bits.toNat = 0 := by omega
    simp only [want, j] at hgood
    simp only [len, g'] at ih
    rw [validate_block_chunks, if_pos hlt]
    dsimp only
    rw [hgot]
    dsimp only
    rw [if_neg hgood]
    simp only [Nat.one_shiftLeft] at ih ⊢
    set g := 2 ^ buf.key.csum_granularity_bits.toNat
    have hg : 0 < g := Nat.two_pow_pos _
    have hnext : (o + min g (buf.offset + buf.size - o)) % g = 0 ∨
        buf.offset + buf.size ≤ o + min g (buf.offset + buf.size - o) := by
      by_cases hle : g ≤ buf.offset + buf.size - o
      · left
        rw [Nat.min_eq_left hle, Nat.add_mod_right, hmod]
      · right
        omega
    rw [ih (by omega) hnext]
    rw [hal.ec_block_checksum_eq P i hlt hge hmod, Option.some.injEq] at hgot
    subst hgot
    congr 1
    apply decide_eq_decide.mpr
    constructor
    · rintro ⟨o', hlt', ho', hmod', hbad'⟩
      exact ⟨o', hlt', by omega, hmod', hbad'⟩
    · rintro ⟨o', hlt', ho', hmod', hbad'⟩
      refine ⟨o', hlt', ?_, hmod', hbad'⟩
      -- no boundary lies strictly inside the chunk at `o`, and that chunk passed
      by_contra hlt''
      have := eq_of_aligned_of_lt hmod hmod' ho' (by omega)
      subst this
      exact hgood hbad'
  | case4 o hge' =>
    rw [validate_block_chunks, if_neg hge']
    simp only [Option.some.injEq]
    symm
    simp only [decide_eq_false_iff_not, not_exists, not_and]
    intro o' hlt' ho'
    omega

/-- The error `bch2_ec_validate_checksums` flags a block with. -/
def csum_err_flag : Int16 := (-BCH_ERR_stripe_read_csum_err).toInt16

/-- The flag marks a block: it is not `0`. -/
theorem csum_err_flag_ne_zero : csum_err_flag ≠ 0 := by decide

/-- One block of `bch2_ec_validate_checksums`: a block not flagged yet is flagged when a
chunk fails its checksum. -/
def validate_step (P : bch2_checksum_primitives) (e : bch_stripe_buf_err) (buf : ec_stripe_buf)
    (i : Nat) : Option ec_stripe_buf :=
  if buf.err e i != 0 then some buf
  else (validate_block_chunks P buf i buf.offset).map fun bad =>
    let flagged := Function.update (buf.err e) i (-BCH_ERR_stripe_read_csum_err).toInt16
    if bad then { buf with err := Function.update buf.err e flagged } else buf

/-- `bch2_ec_validate_checksums` is a fold of `validate_step` over the blocks it checks. -/
theorem bch2_ec_validate_checksums_eq_foldlM (P : bch2_checksum_primitives) (buf : ec_stripe_buf)
    (data_only : Bool) (e : bch_stripe_buf_err) :
    bch2_ec_validate_checksums P buf data_only e =
      if buf.key.csum_type = 0 then some buf
      else (List.range (if data_only then buf.key.nr_data else buf.key.nr_blocks.toNat)).foldlM
        (validate_step P e) buf := rfl

/-- One block, from errors `E`: flagged exactly when it was not and a chunk fails. -/
theorem validate_step_eq (P : bch2_checksum_primitives) {buf : ec_stripe_buf}
    (hal : chunk_aligned buf) (e : bch_stripe_buf_err) (E : Nat → Int16) (i : Nat) :
    validate_step P e { buf with err := Function.update buf.err e E } i =
      some (if E i = 0 ∧ block_bad P buf i = true then
          { buf with err := Function.update buf.err e (Function.update E i csum_err_flag) }
        else { buf with err := Function.update buf.err e E }) := by
  unfold validate_step
  -- a flagged block is skipped
  by_cases hE : E i = 0
  · have hv := @validate_block_chunks_eq P { buf with err := Function.update buf.err e E }
      ⟨hal.1, hal.2, hal.3⟩ i buf.offset le_rfl (Or.inl hal.offset_mod)
    rw [if_neg (by simp [hE]), hv, Option.map_some]
    change some (if block_bad P buf i = true then _ else _) = _
    by_cases hb : block_bad P buf i = true
    · rw [if_pos hb, if_pos ⟨hE, hb⟩]
      simp [csum_err_flag]
    · rw [if_neg hb, if_neg (fun h => hb h.2)]
  · rw [if_pos (by simp [hE]), if_neg (fun h => hE h.1)]

/-- The block loop of `bch2_ec_validate_checksums` over distinct blocks `l`, from errors `E`:
each block of `l` not flagged yet is flagged when one of its chunks fails its checksum; the
buffer is otherwise unchanged. -/
theorem validate_blocks_eq (P : bch2_checksum_primitives) {buf : ec_stripe_buf}
    (hal : chunk_aligned buf) (e : bch_stripe_buf_err) :
    ∀ (l : List Nat) (E : Nat → Int16), l.Nodup →
      l.foldlM (validate_step P e) { buf with err := Function.update buf.err e E } =
      some { buf with
        err := Function.update buf.err e fun j =>
          if j ∈ l ∧ E j = 0 ∧ block_bad P buf j = true then csum_err_flag else E j }
  | [], E, _ => by simp
  | i :: l, E, hnd => by
    obtain ⟨hi, hnd⟩ := List.nodup_cons.mp hnd
    rw [List.foldlM_cons, validate_step_eq P hal e E i, Option.bind_eq_bind, Option.bind_some]
    by_cases hflag : E i = 0 ∧ block_bad P buf i = true
    · -- block `i` is flagged now, and no later block of `l` is `i`
      rw [if_pos hflag, validate_blocks_eq P hal e l _ hnd]
      congr 3
      funext j
      by_cases hj : j = i
      · subst hj
        simp [hi, hflag]
      · simp [hj]
    · rw [if_neg hflag, validate_blocks_eq P hal e l E hnd]
      congr 3
      funext j
      by_cases hj : j = i
      · subst hj
        by_cases hE : E j = 0
        · simp [hi, hE, show block_bad P buf j = false by simpa [hE] using hflag]
        · simp [hE]
      · simp [hj]

/-- `bch2_ec_validate_checksums` on a buffer over whole chunks, for a stripe with checksums:
the blocks it checks that were not flagged and have a chunk that fails are flagged, and
nothing else changes. -/
theorem bch2_ec_validate_checksums_spec (P : bch2_checksum_primitives) {buf : ec_stripe_buf}
    (hal : chunk_aligned buf) (ht : buf.key.csum_type ≠ 0) (data_only : Bool)
    (e : bch_stripe_buf_err) :
    bch2_ec_validate_checksums P buf data_only e = some { buf with
      err := Function.update buf.err e fun j =>
        if j ∈ List.range (if data_only then buf.key.nr_data else buf.key.nr_blocks.toNat) ∧
          buf.err e j = 0 ∧ block_bad P buf j = true then csum_err_flag else buf.err e j } := by
  rw [bch2_ec_validate_checksums_eq_foldlM, if_neg ht]
  -- the blocks checked are distinct, from the errors the buffer has
  have h := validate_blocks_eq P hal e
    (List.range (if data_only then buf.key.nr_data else buf.key.nr_blocks.toNat)) (buf.err e)
    List.nodup_range
  simp only [Function.update_eq_self] at h
  exact h

/-! ### The key's checksums against the stripe's data -/

/-- The checksum of every chunk of every block of the whole stripe `D` is in the key. -/
def key_csums_of (P : bch2_checksum_primitives) (s : bch_stripe) (D : Nat → buffer) : Prop :=
  ∀ i < s.nr_blocks.toNat, ∀ j < stripe_csums_per_device s, stripe_csum_get s i j = full_csum P s D i j

/-- A buffer holds the stripe `D`'s bytes of block `i` over its sectors. -/
def holds_window (buf : ec_stripe_buf) (D : Nat → buffer) (i : Nat) : Prop :=
  ∀ k < buf.size <<< 9, buf.data i k = D i ((buf.offset <<< 9) + k)

/-- A chunk of the buffer is that chunk of the stripe exactly when their bytes agree. -/
theorem stripe_chunk_eq_iff (b D : buffer) (off o len : Nat) :
    stripe_chunk b (o - off) len = stripe_chunk D o len ↔
      ∀ k < len <<< 9, b (((o - off) <<< 9) + k) = D ((o <<< 9) + k) := by
  unfold stripe_chunk
  rw [List.map_inj_left]
  simp only [List.mem_range]

/-- The chunk at a boundary `o` of the stripe, checked in the buffer, fails exactly when the
buffer's bytes have another checksum than the stripe's. -/
theorem chunk_bad_iff (P : bch2_checksum_primitives) {buf : ec_stripe_buf} {D : Nat → buffer}
    (hal : chunk_aligned buf) (hkey : key_csums_of P buf.key D) {i o : Nat}
    (hi : i < buf.key.nr_blocks.toNat) (hlt : o < buf.offset + buf.size)
    (hmod : o % 2 ^ buf.key.csum_granularity_bits.toNat = 0) :
    chunk_bad P buf i o = true ↔
      bch2_checksum P buf.key.csum_type.toNat null_nonce (stripe_chunk (buf.data i) (o - buf.offset)
          (min (2 ^ buf.key.csum_granularity_bits.toNat) (buf.key.sectors.toNat - o))) ≠
        bch2_checksum P buf.key.csum_type.toNat null_nonce (stripe_chunk (D i) o
          (min (2 ^ buf.key.csum_granularity_bits.toNat) (buf.key.sectors.toNat - o))) := by
  have hsec := hal.end_le
  obtain ⟨hj, hjo⟩ := chunk_of_aligned buf.key (o := o) (by omega) hmod
  -- the key holds the stripe's checksum of the chunk
  unfold chunk_bad
  rw [Nat.shiftRight_eq_div_pow, hkey i hi _ hj, full_csum, hjo, ← Bool.not_eq_false, bch2_crc_cmp_eq_false_iff, ne_comm]

/-- A chunk of a block that holds the stripe's bytes is the stripe's chunk. -/
theorem stripe_chunk_of_window {buf : ec_stripe_buf} {D : Nat → buffer} {i : Nat}
    (hw : holds_window buf D i) {o len : Nat} (hge : buf.offset ≤ o)
    (hend : o + len ≤ buf.offset + buf.size) :
    stripe_chunk (buf.data i) (o - buf.offset) len = stripe_chunk (D i) o len := by
  rw [stripe_chunk_eq_iff]
  intro k hk
  simp only [Nat.shiftLeft_eq, show (2 : Nat) ^ 9 = 512 by norm_num] at hk ⊢
  -- the byte lies in the buffer, `o - offset` sectors in
  have hin : (o - buf.offset + len) * 512 ≤ buf.size * 512 := Nat.mul_le_mul_right _ (by omega)
  rw [hw _ (by rw [Nat.shiftLeft_eq]; rw [Nat.add_mul] at hin; omega)]
  congr 1
  simp only [Nat.shiftLeft_eq, show (2 : Nat) ^ 9 = 512 by norm_num]
  have : buf.offset * 512 + (o - buf.offset) * 512 = o * 512 := by
    rw [← Nat.add_mul, Nat.add_sub_cancel' hge]
  rw [← Nat.add_assoc, this]

/-- No chunk of a block that holds the stripe's bytes fails its checksum. -/
theorem block_bad_eq_false (P : bch2_checksum_primitives) {buf : ec_stripe_buf}
    {D : Nat → buffer} (hal : chunk_aligned buf) (hkey : key_csums_of P buf.key D) {i : Nat}
    (hi : i < buf.key.nr_blocks.toNat) (hw : holds_window buf D i) : block_bad P buf i = false := by
  unfold block_bad
  rw [decide_eq_false_iff_not]
  -- a failing chunk would read the stripe's bytes, so its checksum
  rintro ⟨o, hlt, hge, hmod, hbad⟩
  rw [chunk_bad_iff P hal hkey hi hlt hmod, ← hal.len_eq hlt hmod,
    stripe_chunk_of_window hw hge (by omega)] at hbad
  exact hbad rfl

/-- The checksum does not collide on the chunks of block `i` checked against the stripe `D`:
where the buffer's bytes and the stripe's have the same checksum, they are the same. -/
def no_collision (P : bch2_checksum_primitives) (buf : ec_stripe_buf) (D : Nat → buffer)
    (i : Nat) : Prop :=
  ∀ o < buf.offset + buf.size, buf.offset ≤ o → o % 2 ^ buf.key.csum_granularity_bits.toNat = 0 →
    let len := min (2 ^ buf.key.csum_granularity_bits.toNat) (buf.key.sectors.toNat - o)
    bch2_checksum P buf.key.csum_type.toNat null_nonce (stripe_chunk (buf.data i) (o - buf.offset) len) =
        bch2_checksum P buf.key.csum_type.toNat null_nonce (stripe_chunk (D i) o len) →
      stripe_chunk (buf.data i) (o - buf.offset) len = stripe_chunk (D i) o len

/-- Without collisions, a block fails its checksums exactly when a byte of it differs from the
stripe's. -/
theorem block_bad_iff (P : bch2_checksum_primitives) {buf : ec_stripe_buf} {D : Nat → buffer}
    (hal : chunk_aligned buf) (hkey : key_csums_of P buf.key D) {i : Nat}
    (hi : i < buf.key.nr_blocks.toNat) (hcoll : no_collision P buf D i) :
    block_bad P buf i = true ↔ ∃ k < buf.size <<< 9, buf.data i k ≠ D i ((buf.offset <<< 9) + k) := by
  have hsec := hal.end_le
  have hg : 0 < 2 ^ buf.key.csum_granularity_bits.toNat := Nat.two_pow_pos _
  unfold block_bad
  rw [decide_eq_true_iff]
  simp only [Nat.shiftLeft_eq, show (2 : Nat) ^ 9 = 512 by norm_num]
  constructor
  · rintro ⟨o, hlt, hge, hmod, hbad⟩
    rw [chunk_bad_iff P hal hkey hi hlt hmod] at hbad
    -- the checksums differ, so the chunks do, at some byte
    have hne : ¬ ∀ k < min (2 ^ buf.key.csum_granularity_bits.toNat) (buf.key.sectors.toNat - o) <<< 9,
        buf.data i (((o - buf.offset) <<< 9) + k) = D i ((o <<< 9) + k) := by
      rw [← stripe_chunk_eq_iff]
      intro h
      exact hbad (by rw [h])
    simp only [not_forall, exists_prop] at hne
    obtain ⟨k, hk, hdiff⟩ := hne
    simp only [Nat.shiftLeft_eq, show (2 : Nat) ^ 9 = 512 by norm_num] at hk hdiff
    have hlen := hal.len_eq hlt hmod
    have hin : (o - buf.offset + min (2 ^ buf.key.csum_granularity_bits.toNat)
        (buf.key.sectors.toNat - o)) * 512 ≤ buf.size * 512 := Nat.mul_le_mul_right _ (by omega)
    refine ⟨(o - buf.offset) * 512 + k, by rw [Nat.add_mul] at hin; omega, ?_⟩
    have : buf.offset * 512 + (o - buf.offset) * 512 = o * 512 := by
      rw [← Nat.add_mul, Nat.add_sub_cancel' hge]
    rwa [← Nat.add_assoc, this]
  · rintro ⟨m, hm, hdiff⟩
    -- the chunk that holds byte `m`: its boundary at or below the sector `m` lies in
    have hq : 512 * (m / 512) ≤ m ∧ m < 512 * (m / 512) + 512 := ⟨Nat.mul_div_le m 512, by omega⟩
    generalize m / 512 = q at hq
    obtain ⟨o, ho⟩ : ∃ o, o = (buf.offset + q) / 2 ^ buf.key.csum_granularity_bits.toNat *
        2 ^ buf.key.csum_granularity_bits.toNat := ⟨_, rfl⟩
    have ho_le : o ≤ buf.offset + q := ho ▸ Nat.div_mul_le_self _ _
    have ho_lt : buf.offset + q < o + 2 ^ buf.key.csum_granularity_bits.toNat :=
      ho ▸ Nat.lt_div_mul_add hg
    have hmod : o % 2 ^ buf.key.csum_granularity_bits.toNat = 0 := ho ▸ Nat.mul_mod_left _ _
    have hge : buf.offset ≤ o := by
      have hoff : buf.offset / 2 ^ buf.key.csum_granularity_bits.toNat *
          2 ^ buf.key.csum_granularity_bits.toNat = buf.offset :=
        Nat.div_mul_cancel (Nat.dvd_of_mod_eq_zero hal.offset_mod)
      have := Nat.mul_le_mul_right (2 ^ buf.key.csum_granularity_bits.toNat)
        (Nat.div_le_div_right (c := 2 ^ buf.key.csum_granularity_bits.toNat)
          (by omega : buf.offset ≤ buf.offset + q))
      rw [← ho] at this
      omega
    clear ho
    have hqs : q < buf.size := by omega
    have hlt : o < buf.offset + buf.size := by omega
    refine ⟨o, hlt, hge, hmod, ?_⟩
    rw [chunk_bad_iff P hal hkey hi hlt hmod]
    intro heq
    have hsame := hcoll o hlt hge hmod heq
    rw [stripe_chunk_eq_iff] at hsame
    have hlen := hal.len_eq hlt hmod
    have hk := hsame (m - (o - buf.offset) * 512)
    simp only [Nat.shiftLeft_eq, show (2 : Nat) ^ 9 = 512 by norm_num] at hk
    have hlen512 : (buf.offset + q + 1 - o) * 512 ≤
        min (2 ^ buf.key.csum_granularity_bits.toNat) (buf.key.sectors.toNat - o) * 512 :=
      Nat.mul_le_mul_right _ (by omega)
    have hle : (o - buf.offset) * 512 ≤ m := by
      have := Nat.mul_le_mul_right 512 (by omega : o - buf.offset ≤ q)
      clear * - this hq
      omega
    have hidx : (o - buf.offset) * 512 + (m - (o - buf.offset) * 512) = m :=
      Nat.add_sub_cancel' hle
    have hidx' : o * 512 + (m - (o - buf.offset) * 512) = buf.offset * 512 + m := by
      clear * - hge hle
      omega
    have h1 := hk (by omega)
    rw [hidx, hidx'] at h1
    exact hdiff h1

end Bcachefs.Proofs.Data
