import Bcachefs.Proofs.Data.EcRaid
import Bcachefs.Proofs.Data.EcChecksum

/-!
# Reconstructing a stripe

`bch2_ec_do_recov` has three outcomes. When no required block is flagged it returns `0` and
rebuilds nothing (`bch2_ec_do_recov_unrequired`), even where flagged blocks are lost: a read
that asks for other blocks is not an error. When more blocks are flagged than there is
parity, it returns the insufficient-blocks error (`bch2_ec_do_recov_insufficient`).
Otherwise `raid_rec` rebuilds every flagged block from the others, the data blocks pass
their checksums, and it returns `0` (`bch2_ec_do_recov_restore`).

`bch2_ec_do_recov_reconstructs` states this for a stripe whose parity
`bch2_ec_generate_ec` computed and whose checksums `bch2_ec_generate_checksums` computed,
read over a buffer set up by `bch2_ec_stripe_buf_init`, together with what validation flags
there. A RAID-6 stripe of one sector with checksums, its data block and P lost, is rebuilt
from Q (`bch2_ec_do_recov_reconstructs_raid6`); a RAID-5 stripe whose lost block is not
required is left as it is (`bch2_ec_do_recov_leaves_unrequired`).
-/

set_option autoImplicit false

namespace Bcachefs.Proofs.Data

open Bcachefs Bcachefs.Bits Bcachefs.Ec

/-! ### Generating the stripe -/

/-- `nr_blocks - nr_redundant` does not wrap when the stripe has a data block. -/
theorem bch_stripe.nr_data_eq {s : bch_stripe} (h : s.nr_redundant < s.nr_blocks) :
    s.nr_data = s.nr_blocks.toNat - s.nr_redundant.toNat := by
  have h' : s.nr_redundant.toNat < s.nr_blocks.toNat := h
  unfold bch_stripe.nr_data
  rw [UInt32.toNat_sub_of_le _ _ (by
    rw [UInt32.le_iff_toNat_le, UInt8.toNat_toUInt32, UInt8.toNat_toUInt32]; omega),
    UInt8.toNat_toUInt32, UInt8.toNat_toUInt32]

/-- `bch2_ec_generate_ec` leaves the stripe with its parity over all its sectors, and changes
nothing but the blocks. -/
theorem bch2_ec_generate_ec_spec (lib : raid6_calls) (syn : List UInt8 → UInt8)
    {full stripe : ec_stripe_buf} (hnd : full.key.nr_redundant < full.key.nr_blocks)
    (hnp : full.key.nr_redundant.toNat ≤ 2)
    (hlib : full.key.nr_redundant.toNat = 2 → raid6_spec lib syn full.key.nr_data)
    (h : bch2_ec_generate_ec lib full = some stripe) :
    stripe = { full with data := stripe.data } ∧
      ∀ k < full.key.sectors.toNat <<< 9,
        parity_ok syn full.key.nr_data full.key.nr_redundant.toNat stripe.data k := by
  have hnd1 : 1 ≤ full.key.nr_data := by
    rw [bch_stripe.nr_data_eq hnd]
    have : full.key.nr_redundant.toNat < full.key.nr_blocks.toNat := hnd
    omega
  -- `raid_gen` writes the parity of every byte of the stripe
  obtain ⟨w, hw, hpar, -⟩ := @raid_gen_parity lib syn _ _ (full.key.sectors.toNat <<< 9) hnd1 hnp
    hlib full.data
  unfold bch2_ec_generate_ec at h
  rw [hw, Option.map_some, Option.some.injEq] at h
  subst h
  exact ⟨rfl, hpar⟩

/-- `bch2_ec_generate_checksums` of a stripe with checksums leaves in the key the checksum of
every chunk of its blocks, and changes nothing but the checksums. -/
theorem key_csums_of_generate (P : bch2_checksum_primitives) {stripe keyed : ec_stripe_buf}
    (h : bch2_ec_generate_checksums P stripe = some keyed) :
    (∃ val, keyed.key = { stripe.key with val := val }) ∧
      (stripe.key.csum_type ≠ 0 → key_csums_of P keyed.key stripe.data) := by
  -- no checksums: the key is left alone
  by_cases ht : stripe.key.csum_type = 0
  · unfold bch2_ec_generate_checksums at h
    rw [if_pos ht, Option.some.injEq] at h
    subst h
    exact ⟨⟨stripe.key.val, rfl⟩, fun h => absurd ht h⟩
  · obtain ⟨-, -, rfl⟩ := bch2_ec_generate_checksums_spec P h ht
    refine ⟨⟨_, rfl⟩, fun _ i hi j hj => ?_⟩
    exact stripe_csum_get_csum_stores P stripe.key stripe.data stripe.key.val hi hj

/-! ### Recovery -/

section Recov

variable (lib : raid6_calls) (P : bch2_checksum_primitives)

/-- Validating a buffer whose blocks all hold the stripe's bytes flags nothing: every chunk
passes. -/
theorem validate_of_windows {b : ec_stripe_buf} {D : Nat → buffer} (hal : chunk_aligned b)
    (hkey : b.key.csum_type = 0 ∨ key_csums_of P b.key D)
    (hw : ∀ i < b.key.nr_blocks.toNat, holds_window b D i) (data_only : Bool)
    (e : bch_stripe_buf_err) :
    ∃ b', bch2_ec_validate_checksums P b data_only e = some b' ∧ b'.data = b.data ∧
      b'.offset = b.offset ∧ b'.size = b.size ∧ b'.key = b.key ∧
      ∀ i < b.key.nr_blocks.toNat, b'.err e i = b.err e i := by
  -- no checksums: nothing to validate
  by_cases ht : b.key.csum_type = 0
  · refine ⟨b, by rw [bch2_ec_validate_checksums_eq_foldlM, if_pos ht], rfl, rfl, rfl, rfl,
      fun _ _ => rfl⟩
  · have hkey' := hkey.resolve_left ht
    refine ⟨_, bch2_ec_validate_checksums_spec P hal ht data_only e, rfl, rfl, rfl, rfl,
      fun i hi => ?_⟩
    simp only [Function.update_self]
    rw [block_bad_eq_false P hal hkey' hi (hw i hi)]
    simp

/-- Nothing required is flagged: `bch2_ec_do_recov` returns `0` and leaves the buffer
alone. -/
theorem bch2_ec_do_recov_unrequired {buf : ec_stripe_buf} {required : UInt32}
    (hmax : buf.key.nr_blocks.toNat ≤ BCH_BKEY_PTRS_MAX)
    (h : ∀ i < buf.key.nr_blocks.toNat, buf.err .STRIPE_BUF_PRE_RECOV i ≠ 0 →
      required.toNat.testBit i = false) :
    bch2_ec_do_recov lib P buf required = some (0, buf) := by
  have hn : buf.key.nr_blocks.toNat ≤ 32 := by unfold BCH_BKEY_PTRS_MAX at hmax; omega
  unfold bch2_ec_do_recov
  rw [if_pos ((ec_failed_mask_and_eq_zero buf _ hn required).mpr h)]

/-- A required block is flagged, with more blocks flagged than there is parity: the
insufficient-blocks error, and the buffer is left alone. -/
theorem bch2_ec_do_recov_insufficient {buf : ec_stripe_buf} {required : UInt32}
    (hmax : buf.key.nr_blocks.toNat ≤ BCH_BKEY_PTRS_MAX)
    (hreq : ∃ i < buf.key.nr_blocks.toNat, buf.err .STRIPE_BUF_PRE_RECOV i ≠ 0 ∧
      required.toNat.testBit i = true)
    (hcount : buf.key.nr_redundant.toNat < ec_nr_failed buf .STRIPE_BUF_PRE_RECOV) :
    bch2_ec_do_recov lib P buf required =
      some (-BCH_ERR_stripe_reconstruct_insufficient_blocks, buf) := by
  have hn : buf.key.nr_blocks.toNat ≤ 32 := by unfold BCH_BKEY_PTRS_MAX at hmax; omega
  obtain ⟨i, hi, he, hbit⟩ := hreq
  unfold bch2_ec_do_recov
  -- the required block is flagged, so the failed mask meets `required`
  rw [if_neg (fun h => by
    rw [(ec_failed_mask_and_eq_zero buf _ hn required).mp h i hi he] at hbit
    cases hbit), if_pos hcount]

/-- A required block is flagged, and no more blocks than there is parity: `raid_rec` rebuilds
the flagged blocks from the others, the data blocks then pass their checksums, and
`bch2_ec_do_recov` returns `0` with every block holding the stripe's bytes. -/
theorem bch2_ec_do_recov_restore (syn : List UInt8 → UInt8) {buf : ec_stripe_buf}
    {D : Nat → buffer} {F : Finset Nat} {required : UInt32}
    (hnp : buf.key.nr_redundant.toNat ≤ 2) (hnd : buf.key.nr_redundant < buf.key.nr_blocks)
    (hmax : buf.key.nr_blocks.toNat ≤ BCH_BKEY_PTRS_MAX)
    (hlib : buf.key.nr_redundant.toNat = 2 → raid6_spec lib syn buf.key.nr_data)
    (hal : chunk_aligned buf) (hkey : buf.key.csum_type = 0 ∨ key_csums_of P buf.key D)
    (hpar : ∀ k < buf.size <<< 9, parity_ok syn buf.key.nr_data buf.key.nr_redundant.toNat
      (fun i k => D i ((buf.offset <<< 9) + k)) k)
    (hF : ∀ i, i ∈ F ↔ i < buf.key.nr_blocks.toNat ∧ buf.err .STRIPE_BUF_PRE_RECOV i ≠ 0)
    (hread : ∀ i < buf.key.nr_blocks.toNat, i ∉ F → holds_window buf D i)
    (hpost : ∀ i < buf.key.nr_blocks.toNat, buf.err .STRIPE_BUF_POST_RECOV i = 0)
    (hreq : ∃ i ∈ F, required.toNat.testBit i = true) (hcard : F.card ≤ buf.key.nr_redundant.toNat) :
    ∃ buf', bch2_ec_do_recov lib P buf required = some (0, buf') ∧ buf'.offset = buf.offset ∧
      buf'.size = buf.size ∧ ∀ i < buf.key.nr_blocks.toNat, holds_window buf' D i := by
  have hn : buf.key.nr_blocks.toNat ≤ 32 := by unfold BCH_BKEY_PTRS_MAX at hmax; omega
  have hnd' : buf.key.nr_redundant.toNat < buf.key.nr_blocks.toNat := hnd
  have hsum : buf.key.nr_data + buf.key.nr_redundant.toNat = buf.key.nr_blocks.toNat := by
    rw [bch_stripe.nr_data_eq hnd]
    omega
  obtain ⟨hsorted, hmem, hlen, hcount⟩ := failed_list_spec buf .STRIPE_BUF_PRE_RECOV F hF
  -- the flagged blocks, rebuilt from the others
  obtain ⟨w, hw, hwD⟩ := raid_rec_restores lib syn (by omega) hnp hlib
    (fun i k => D i ((buf.offset <<< 9) + k)) buf.data hpar _ hsorted (by omega)
    (fun a ha => by rw [hsum]; exact ((hF a).mp ((hmem a).mp ha)).1)
    (fun i hi hir k hk => hread i (by omega) (fun hiF => hir ((hmem i).mpr hiF)) k hk)
  have hrestored : ∀ i < buf.key.nr_blocks.toNat, holds_window { buf with data := w } D i :=
    fun i hi k hk => hwD i (by omega) k hk
  -- the data blocks then pass their checksums
  obtain ⟨b', hb', hdata, hoff, hsize, hkey', herr⟩ := validate_of_windows P (b := { buf with data := w })
    ⟨hal.1, hal.2, hal.3⟩ hkey hrestored true .STRIPE_BUF_POST_RECOV
  obtain ⟨i, hiF, hbit⟩ := hreq
  obtain ⟨hi, he⟩ := (hF i).mp hiF
  refine ⟨b', ?_, hoff, hsize, fun j hj k hk => ?_⟩
  · unfold bch2_ec_do_recov
    rw [if_neg (fun h => by
      rw [(ec_failed_mask_and_eq_zero buf _ hn required).mp h i hi he] at hbit
      cases hbit), if_neg (by omega)]
    dsimp only
    rw [hw]
    simp only [Option.bind_eq_bind, Option.bind_some, hb']
    rw [if_neg]
    have hclear := (ec_failed_mask_and_eq_zero b' .STRIPE_BUF_POST_RECOV (by rw [hkey']; exact hn)
      required).mpr fun j hj hne => absurd ((herr j (by rw [hkey'] at hj; exact hj)).trans
        (hpost j (by rw [hkey'] at hj; exact hj))) hne
    simp [hclear]
  · rw [hdata, hoff]
    exact hrestored j hj k (by rw [← hsize]; exact hk)

end Recov

/-- Reconstruction of a stripe read over a sub-buffer. The stripe has at most two parity
blocks, P and Q computed by `bch2_ec_generate_ec`, with the RAID-6 routines meeting their
specification when there are two, and its checksums computed by `bch2_ec_generate_checksums`
over the whole stripe. The buffer is set up over `[offset, offset + size)` by
`bch2_ec_stripe_buf_init`; the blocks of `F` are flagged before recovery and hold anything,
every other block holds the stripe's bytes, and no block is flagged after recovery yet.

* When a required block is flagged and `F` has no more blocks than there is parity,
  `bch2_ec_do_recov` returns `0` and every block holds the stripe's bytes.
* When a required block is flagged and `F` has more, it returns the insufficient-blocks error.
* When no required block is flagged, it returns `0` and rebuilds nothing.
* For a stripe with checksums, `bch2_ec_validate_checksums` on any buffer over the same
  sectors, without checksum collisions there, flags exactly the blocks it checks whose bytes
  differ from the stripe's, besides those flagged already. -/
theorem bch2_ec_do_recov_reconstructs (lib : raid6_calls) (syn : List UInt8 → UInt8)
    (P : bch2_checksum_primitives) (full stripe keyed buf0 buf1 buf : ec_stripe_buf)
    (offset size : Nat) (F : Finset Nat) (required : UInt32)
    (hnp : full.key.nr_redundant.toNat ≤ 2) (hnd : full.key.nr_redundant < full.key.nr_blocks)
    (hmax : full.key.nr_blocks.toNat ≤ BCH_BKEY_PTRS_MAX)
    (hlib : full.key.nr_redundant.toNat = 2 → raid6_spec lib syn full.key.nr_data)
    (hgen : bch2_ec_generate_ec lib full = some stripe)
    (hcsum : bch2_ec_generate_checksums P stripe = some keyed)
    (hinit : bch2_ec_stripe_buf_init buf0 offset size = some buf1) (hkey0 : buf0.key = keyed.key)
    (hbuf : buf.offset = buf1.offset ∧ buf.size = buf1.size ∧ buf.key = buf1.key)
    (hF : ∀ i, i ∈ F ↔ i < full.key.nr_blocks.toNat ∧ buf.err .STRIPE_BUF_PRE_RECOV i ≠ 0)
    (hread : ∀ i < full.key.nr_blocks.toNat, i ∉ F → holds_window buf stripe.data i)
    (hpost : ∀ i < full.key.nr_blocks.toNat, buf.err .STRIPE_BUF_POST_RECOV i = 0) :
    ((∃ i ∈ F, required.toNat.testBit i = true) → F.card ≤ full.key.nr_redundant.toNat →
      ∃ buf', bch2_ec_do_recov lib P buf required = some (0, buf') ∧
        ∀ i < full.key.nr_blocks.toNat, ∀ k < buf.size <<< 9,
          buf'.data i k = stripe.data i ((buf.offset <<< 9) + k)) ∧
    ((∃ i ∈ F, required.toNat.testBit i = true) → full.key.nr_redundant.toNat < F.card →
      bch2_ec_do_recov lib P buf required =
        some (-BCH_ERR_stripe_reconstruct_insufficient_blocks, buf)) ∧
    ((∀ i ∈ F, required.toNat.testBit i = false) →
      bch2_ec_do_recov lib P buf required = some (0, buf)) ∧
    (full.key.csum_type ≠ 0 → ∀ (b : ec_stripe_buf) (data_only : Bool) (e : bch_stripe_buf_err),
      b.offset = buf.offset → b.size = buf.size → b.key = buf.key →
      (∀ i < full.key.nr_blocks.toNat, no_collision P b stripe.data i) →
      ∃ b', bch2_ec_validate_checksums P b data_only e = some b' ∧ b'.data = b.data ∧
        ∀ i < full.key.nr_blocks.toNat, (b'.err e i ≠ 0 ↔ b.err e i ≠ 0 ∨
          (i < (if data_only then full.key.nr_data else full.key.nr_blocks.toNat) ∧
            ∃ k < b.size <<< 9, b.data i k ≠ stripe.data i ((b.offset <<< 9) + k)))) := by
  -- every key on the way is the stripe's, but for the checksums
  obtain ⟨hstripe, hparD⟩ := bch2_ec_generate_ec_spec lib syn hnd hnp hlib hgen
  obtain ⟨⟨val, hkeyed⟩, hkcs⟩ := key_csums_of_generate P hcsum
  obtain ⟨hk1, -, -, hal1, -, -⟩ := bch2_ec_stripe_buf_init_spec hinit
  obtain ⟨hoff, hsize, hk⟩ := hbuf
  have hskey : stripe.key = full.key := by rw [hstripe]
  have hbufkey : buf.key = { full.key with val := val } := by
    rw [hk, hk1, hkey0, hkeyed, hskey]
  have hal : chunk_aligned buf := by
    obtain ⟨h1, h2, h3⟩ := hal1
    exact ⟨by rw [hoff, hk]; exact h1, by rw [hoff, hsize, hk]; exact h2,
      by rw [hoff, hsize, hk]; exact h3⟩
  have hkb : buf.key.nr_blocks = full.key.nr_blocks := by rw [hbufkey]
  have hkr : buf.key.nr_redundant = full.key.nr_redundant := by rw [hbufkey]
  have hkt : buf.key.csum_type = full.key.csum_type := by rw [hbufkey]
  have hkd : buf.key.nr_data = full.key.nr_data := by rw [hbufkey]; rfl
  have hks : buf.key.sectors = full.key.sectors := by rw [hbufkey]
  have hkey : key_csums_of P buf.key stripe.data ∨ buf.key.csum_type = 0 := by
    by_cases ht : full.key.csum_type = 0
    · exact Or.inr (hkt.trans ht)
    · left
      rw [hk, hk1, hkey0]
      exact hkcs (by rw [hskey]; exact ht)
  have hF' : ∀ i, i ∈ F ↔ i < buf.key.nr_blocks.toNat ∧ buf.err .STRIPE_BUF_PRE_RECOV i ≠ 0 := by
    rw [hkb]; exact hF
  have hmax' : buf.key.nr_blocks.toNat ≤ BCH_BKEY_PTRS_MAX := by rw [hkb]; exact hmax
  refine ⟨fun hreq hcard => ?_, fun hreq hcard => ?_, fun hreq => ?_, fun ht b data_only e hb1 hb2 hb3 hcoll => ?_⟩
  · -- (a) the flagged blocks are rebuilt
    have hpar : ∀ k < buf.size <<< 9, parity_ok syn buf.key.nr_data buf.key.nr_redundant.toNat
        (fun i k => stripe.data i ((buf.offset <<< 9) + k)) k := by
      intro k hk'
      have hend := hal.end_le
      rw [hks] at hend
      rw [hkd, hkr]
      apply hparD
      simp only [Nat.shiftLeft_eq] at hk' ⊢
      have := Nat.mul_le_mul_right (2 ^ 9) hend
      rw [Nat.add_mul] at this
      omega
    obtain ⟨buf', hrec, hoff', hsize', hw⟩ := bch2_ec_do_recov_restore lib P syn
      (by rw [hkr]; exact hnp) (by rw [hkr, hkb]; exact hnd) hmax' (by rw [hkr, hkd]; exact hlib)
      hal hkey.symm hpar hF' (by rw [hkb]; exact hread) (by rw [hkb]; exact hpost) hreq
      (by rw [hkr]; exact hcard)
    refine ⟨buf', hrec, fun i hi k hk' => ?_⟩
    have := hw i (by rw [hkb]; exact hi) k (by rw [hsize']; exact hk')
    rw [this, hoff']
  · -- (b) too many blocks are flagged
    obtain ⟨i, hiF, hbit⟩ := hreq
    obtain ⟨hi, he⟩ := (hF' i).mp hiF
    obtain ⟨-, -, -, hcount⟩ := failed_list_spec buf .STRIPE_BUF_PRE_RECOV F hF'
    exact bch2_ec_do_recov_insufficient lib P hmax' ⟨i, hi, he, hbit⟩ (by rw [hcount, hkr]; exact hcard)
  · -- (c) nothing required is flagged
    exact bch2_ec_do_recov_unrequired lib P hmax' fun i hi he => hreq i ((hF' i).mpr ⟨hi, he⟩)
  · -- (d) validation flags exactly the blocks that differ
    have hbal : chunk_aligned b := by
      obtain ⟨h1, h2, h3⟩ := hal
      exact ⟨by rw [hb1, hb3]; exact h1, by rw [hb1, hb2, hb3]; exact h2,
        by rw [hb1, hb2, hb3]; exact h3⟩
    have hbt : b.key.csum_type ≠ 0 := by rw [hb3, hkt]; exact ht
    have hbkey : key_csums_of P b.key stripe.data := by
      rw [hb3]
      exact hkey.resolve_right (by rw [hkt]; exact ht)
    refine ⟨_, bch2_ec_validate_checksums_spec P hbal hbt data_only e, rfl, fun i hi => ?_⟩
    have hbi : i < b.key.nr_blocks.toNat := by rw [hb3, hkb]; exact hi
    have hbad := block_bad_iff P hbal hbkey hbi (hcoll i hi)
    have hN : (if data_only then b.key.nr_data else b.key.nr_blocks.toNat) =
        (if data_only then full.key.nr_data else full.key.nr_blocks.toNat) := by
      rw [hb3, hkd, hkb]
    simp only [Function.update_self, hN, List.mem_range]
    by_cases hsel : i < (if data_only then full.key.nr_data else full.key.nr_blocks.toNat) ∧
        b.err e i = 0 ∧ block_bad P b i = true
    · rw [if_pos hsel]
      exact ⟨fun _ => Or.inr ⟨hsel.1, hbad.mp hsel.2.2⟩, fun _ => csum_err_flag_ne_zero⟩
    · rw [if_neg hsel]
      constructor
      · exact Or.inl
      · rintro (h | ⟨hN', hdiff⟩)
        · exact h
        · intro h0
          exact hsel ⟨hN', h0, hbad.mpr hdiff⟩

/-! ### A RAID-5 stripe -/

/-- A stripe of one sector, one data block and P, without checksums. -/
def raid5_key : bch_stripe where
  sectors := 1
  nr_blocks := 2
  nr_redundant := 1
  csum_granularity_bits := 0
  csum_type := 0
  val := fun _ => 0

/-- The whole stripe before its parity: its data block holds `7`s. -/
def raid5_full : ec_stripe_buf where
  offset := 0
  size := 1
  err := fun _ _ => 0
  data := fun i _ => if i = 0 then 7 else 0
  key := raid5_key

/-- The whole stripe with its parity. -/
def raid5_stripe : ec_stripe_buf :=
  { raid5_full with data := fun i k => if i = 1 ∧ k < 512 then 7 else raid5_full.data i k }

/-- The stripe read back with its data block lost: zeroed and flagged. -/
def raid5_read : ec_stripe_buf :=
  { raid5_stripe with
    err := fun e i => if e = .STRIPE_BUF_PRE_RECOV ∧ i = 0 then 1 else 0
    data := fun i k => if i = 0 then 0 else raid5_stripe.data i k }

/-- RAID-6 routines that are never called on a stripe with one parity block. -/
def raid5_lib : raid6_calls where
  gen_syndrome := fun _ _ v => v
  recov_2data := fun _ _ _ _ v => v
  recov_datap := fun _ _ _ v => v

/-- Checksum primitives that are never called on a stripe without checksums. -/
def raid5_primitives : bch2_checksum_primitives where
  xxh64 := fun _ => 0
  poly1305 := fun _ _ => ⟨0, 0⟩

attribute [grind] raid5_full raid5_stripe raid5_read

/-- The parity of the RAID-5 stripe is a copy of its one data block. -/
theorem raid5_generate_ec : bch2_ec_generate_ec raid5_lib raid5_full = some raid5_stripe := by
  unfold bch2_ec_generate_ec raid_gen
  have hrec := @raid5_recov_eq 2 1 (by decide) le_rfl 512 raid5_full.data
  have hnd : raid5_full.key.nr_data = 1 := rfl
  simp only [hnd, show raid5_full.key.nr_redundant.toNat = 1 from rfl,
    show raid5_full.key.sectors.toNat <<< 9 = 512 from rfl, hrec]
  simp only [Nat.reduceAdd, ge_iff_le, le_refl, if_true, Option.bind_eq_bind, Option.bind_some,
    Nat.reduceLeDiff, if_false]
  rw [if_neg (by decide), Option.map_some, Option.some.injEq]
  simp only [raid5_stripe, ec_stripe_buf.mk.injEq, and_true, true_and]
  -- block 1, P, takes block 0's bytes over the sector
  funext i k
  by_cases h : i = 1 ∧ k < 512
  · rw [if_pos h, if_pos h]
    simp [raid5_full, List.range_succ]
  · rw [if_neg h, if_neg h]

/-- A buffer over the whole one-sector stripe is the stripe as it is. -/
theorem raid5_stripe_buf_init : bch2_ec_stripe_buf_init raid5_stripe 0 1 = some raid5_stripe := rfl

/-- Only the data block is flagged in the read-back RAID-5 stripe. -/
theorem raid5_read_flags (i : Nat) :
    i ∈ ({0} : Finset Nat) ↔ i < raid5_key.nr_blocks.toNat ∧
      raid5_read.err .STRIPE_BUF_PRE_RECOV i ≠ 0 := by
  simp only [Finset.mem_singleton, raid5_read, true_and]
  -- the read flagged block 0 and no other
  constructor
  · rintro rfl
    decide
  · rintro ⟨-, h⟩
    by_contra hi
    exact h (if_neg hi)

/-- A stripe whose data block is lost, with that block flagged and P intact, and only P
required: `bch2_ec_do_recov` returns `0` and the data block stays lost. -/
theorem bch2_ec_do_recov_leaves_unrequired :
    bch2_ec_generate_ec raid5_lib raid5_full = some raid5_stripe ∧
      bch2_ec_stripe_buf_init raid5_stripe 0 1 = some raid5_stripe ∧
      (∀ i, i ∈ ({0} : Finset Nat) ↔ i < raid5_key.nr_blocks.toNat ∧
        raid5_read.err .STRIPE_BUF_PRE_RECOV i ≠ 0) ∧
      bch2_ec_do_recov raid5_lib raid5_primitives raid5_read 2 = some (0, raid5_read) ∧
      raid5_read.data 0 0 ≠ raid5_stripe.data 0 0 := by
  refine ⟨raid5_generate_ec, raid5_stripe_buf_init, raid5_read_flags,
    bch2_ec_do_recov_unrequired raid5_lib raid5_primitives (by decide) fun i hi he => ?_, by decide⟩
  -- only block 0 is flagged, and bit 0 of `required = 2` is clear
  have hi0 : i = 0 := by
    by_contra h
    exact he (by simp [raid5_read, h])
  subst hi0
  decide

/-! ### A RAID-6 stripe -/

/-- A stripe of one sector, one data block, P and Q, with a `crc32c` checksum per block. -/
def raid6_key : bch_stripe where
  sectors := 1
  nr_blocks := 3
  nr_redundant := 2
  csum_granularity_bits := 0
  csum_type := 5
  val := fun _ => 0

/-- The whole stripe before its parity: its data block holds `7`s. -/
def raid6_full : ec_stripe_buf where
  offset := 0
  size := 1
  err := fun _ _ => 0
  data := fun i _ => if i = 0 then 7 else 0
  key := raid6_key

/-- The whole stripe with its parity: with one data block, P and Q are copies of it. -/
def raid6_stripe : ec_stripe_buf :=
  { raid6_full with
    data := fun i k => if (i = 1 ∨ i = 2) ∧ k < 512 then 7 else raid6_full.data i k }

/-- The stripe with its checksums in the key. -/
def raid6_keyed : ec_stripe_buf :=
  (bch2_ec_generate_checksums raid5_primitives raid6_stripe).getD raid6_stripe

/-- The stripe read back with its data block and P lost: zeroed and flagged. -/
def raid6_read : ec_stripe_buf :=
  { raid6_keyed with
    err := fun e i => if e = .STRIPE_BUF_PRE_RECOV ∧ (i = 0 ∨ i = 1) then 1 else 0
    data := fun i k => if i = 0 ∨ i = 1 then 0 else raid6_keyed.data i k }

/-- The Q syndrome of one data byte: the byte itself, its coefficient being `g ^ 0`. -/
def raid6_one_syn (l : List UInt8) : UInt8 := l.headD 0

/-- The RAID-6 routines for one data block: P and Q both copy it, and with the data block and
P lost both are copied back from Q. -/
def raid6_one_lib : raid6_calls where
  gen_syndrome := fun _ bytes v i k => if k < bytes ∧ (i = 1 ∨ i = 2) then v 0 k else v i k
  recov_2data := fun _ _ _ _ v => v
  recov_datap := fun _ bytes _ v i k => if k < bytes ∧ (i = 0 ∨ i = 1) then v 2 k else v i k

/-- The one-block RAID-6 routines meet `raid6_spec`: P and Q copy the data, and the data and P come
back from Q. -/
theorem raid6_one_lib_spec : raid6_spec raid6_one_lib raid6_one_syn 1 where
  gen_syndrome bytes v i k := by
    simp only [raid6_one_lib, raid6_one_syn, xorSum, List.range_one, List.foldl_cons,
      List.foldl_nil, UInt8.zero_xor, List.map_cons, List.map_nil, List.headD_cons]
    by_cases hk : k < bytes <;> by_cases h1 : i = 1 <;> by_cases h2 : i = 2 <;> simp_all
  recov_2data _ _ _ _ _ hab hb := by omega
  recov_datap bytes a v D ha hpar hv i hi k hk := by
    -- Q survives, and with one data block P and Q both equal it
    obtain ⟨hP, hQ⟩ := hpar k hk
    have hP := hP (by omega)
    have hQ := hQ le_rfl
    simp only [xorSum, List.range_one, List.foldl_cons, List.foldl_nil, UInt8.zero_xor,
      List.map_cons, List.map_nil, raid6_one_syn, List.headD_cons] at hP hQ
    have hv2 := hv 2 (by omega) (by omega) (by omega) k hk
    show (if k < bytes ∧ (i = 0 ∨ i = 1) then v 2 k else v i k) = D i k
    rcases (by omega : i = 0 ∨ i = 1 ∨ i = 2) with rfl | rfl | rfl
    · rw [if_pos ⟨hk, Or.inl rfl⟩, hv2, hQ]
    · rw [if_pos ⟨hk, Or.inr rfl⟩, hv2, hQ, hP]
    · rw [if_neg (by omega), hv2]

/-- P and Q of the RAID-6 stripe are copies of its one data block. -/
theorem raid6_generate_ec : bch2_ec_generate_ec raid6_one_lib raid6_full = some raid6_stripe := by
  unfold bch2_ec_generate_ec raid_gen
  have hrec := @raid5_recov_eq 3 1 (by decide) (by decide) 512 raid6_full.data
  have hnd : raid6_full.key.nr_data = 1 := rfl
  simp only [hnd, show raid6_full.key.nr_redundant.toNat = 2 from rfl,
    show raid6_full.key.sectors.toNat <<< 9 = 512 from rfl, hrec]
  simp only [Nat.reduceAdd, ge_iff_le, Nat.one_le_ofNat, if_true, Option.bind_eq_bind,
    Option.bind_some, le_refl, gt_iff_lt, lt_self_iff_false, if_false, Option.map_some,
    Option.some.injEq]
  simp only [raid6_stripe, ec_stripe_buf.mk.injEq, and_true, true_and]
  -- P and Q take block 0's bytes over the sector
  funext i k
  simp only [raid6_one_lib, raid6_full]
  by_cases hk : k < 512 <;> by_cases h1 : i = 1 <;> by_cases h2 : i = 2 <;> simp_all

/-- `bch2_ec_generate_checksums` of the RAID-6 stripe gives the keyed stripe. -/
theorem raid6_generate_checksums :
    bch2_ec_generate_checksums raid5_primitives raid6_stripe = some raid6_keyed :=
  Option.eq_some_of_isSome (by decide +kernel) |>.trans rfl

/-- The checksums go into the key only: the buffer and its bytes are the stripe's. -/
theorem raid6_keyed_eq : raid6_keyed.offset = 0 ∧ raid6_keyed.size = 1 ∧
    raid6_keyed.key.nr_blocks = 3 ∧ raid6_keyed.data = raid6_stripe.data :=
  ⟨rfl, rfl, rfl, rfl⟩

/-- A buffer over the whole one-sector RAID-6 stripe is the stripe as it is. -/
theorem raid6_stripe_buf_init : bch2_ec_stripe_buf_init raid6_keyed 0 1 = some raid6_keyed := rfl

/-- The data block and P are flagged in the read-back RAID-6 stripe. -/
theorem raid6_read_flags (i : Nat) :
    i ∈ ({0, 1} : Finset Nat) ↔ i < raid6_key.nr_blocks.toNat ∧
      raid6_read.err .STRIPE_BUF_PRE_RECOV i ≠ 0 := by
  simp only [Finset.mem_insert, Finset.mem_singleton, raid6_read, true_and]
  -- the read flagged blocks 0 and 1 and no other
  constructor
  · rintro (rfl | rfl) <;> decide
  · rintro ⟨-, h⟩
    by_contra hi
    exact h (if_neg hi)

/-- The data block and P of the RAID-6 stripe lost, and the data block required: both are
rebuilt from Q (`raid6_recov_datap`), and the data block passes its `crc32c` again. -/
theorem bch2_ec_do_recov_reconstructs_raid6 :
    ∃ buf', bch2_ec_do_recov raid6_one_lib raid5_primitives raid6_read 1 = some (0, buf') ∧
      ∀ i < 3, ∀ k < 512, buf'.data i k = raid6_stripe.data i k := by
  obtain ⟨ha, -, -, -⟩ := bch2_ec_do_recov_reconstructs raid6_one_lib raid6_one_syn
    raid5_primitives raid6_full raid6_stripe raid6_keyed raid6_keyed raid6_keyed raid6_read 0 1
    {0, 1} 1 (by decide) (by decide) (by decide) (fun _ => raid6_one_lib_spec)
    raid6_generate_ec raid6_generate_checksums raid6_stripe_buf_init rfl ⟨rfl, rfl, rfl⟩
    raid6_read_flags
    (fun i hi hiF k hk => by
      -- only Q was read
      have h3 : raid6_full.key.nr_blocks.toNat = 3 := rfl
      have hi2 : i = 2 := by simp at hiF; omega
      subst hi2
      simp [raid6_read, raid6_keyed_eq.2.2.2, raid6_keyed_eq.1])
    (fun i _ => by simp [raid6_read])
  obtain ⟨buf', hrec, hdata⟩ := ha ⟨0, by simp, by decide⟩ (by decide)
  refine ⟨buf', hrec, fun i hi k hk => ?_⟩
  have := hdata i hi k (by simpa [raid6_read, raid6_keyed_eq.2.1] using hk)
  simpa [raid6_read, raid6_keyed_eq.1] using this

end Bcachefs.Proofs.Data
