import Bcachefs.Data.Ec
import Bcachefs.Bits.XorSum

/-!
# Parity of a stripe, and the blocks `raid_rec` rebuilds

`raid5_recov` writes into the block it is given the XOR of the others, byte by byte, and
nothing else (`raid5_recov_eq`). Over that, the parity of a stripe is stated per byte
(`parity_ok`: P the XOR of the data, Q their syndrome `syn`), and the kernel's RAID-6
routines are assumed to meet a specification stated the same way (`raid6_spec`):
`raid6_gen_syndrome` writes P and Q, and each recovery rebuilds the two blocks it is told
are lost from a stripe that has its parity.

From these, `raid_gen` leaves a stripe with its parity (`raid_gen_parity`), and `raid_rec`
rebuilds every block of a stripe from any `np` or fewer lost ones, listed in increasing
order (`raid_rec_restores`), one case for each branch of its `switch`. The list
`bch2_ec_do_recov` hands it is that of the flagged blocks (`failed_list_spec`), and
`ec_failed_mask` has a bit for each of them (`ec_failed_mask_testBit`).
-/

set_option autoImplicit false

namespace Bcachefs.Proofs.Data

open Bcachefs Bcachefs.Bits Bcachefs.Ec

/-- `swap_blocks` reindexes the blocks by the transposition of `i` and `j`. -/
theorem swap_blocks_eq (data : Nat → buffer) (i j : Nat) :
    swap_blocks data i j = data ∘ Equiv.swap i j := by
  funext k
  simp only [swap_blocks, Function.comp_apply, Equiv.swap_apply_def]
  split_ifs <;> rfl

/-- Each byte below `bytes` of `xor_gen`'s destination is xored with the sources' bytes there. -/
theorem xor_gen_apply (dest : buffer) (srcs : Nat → buffer) (src_cnt bytes k : Nat) :
    xor_gen dest srcs src_cnt bytes k =
      if k < bytes then dest k ^^^ xorSum (List.range src_cnt) (fun i => srcs i k) else dest k := by
  simp only [xor_gen, foldl_xor_eq]

/-- The terms of a range but its first: `1`, then `2 + i` for `i` below `n`. -/
theorem range_erase_zero (n : Nat) :
    (List.range (n + 2)).erase 0 = 1 :: (List.range n).map (· + 2) := by
  rw [List.range_succ_eq_map, List.erase_cons_head, List.range_succ_eq_map, List.map_cons,
    List.map_map]
  rfl

/-- The XOR of all blocks but the first, which is what `raid5_recov` computes in its first
slot: the first block's byte XORed with the sum of all of them. -/
theorem xorSum_erase_zero (n : Nat) (w : Nat → buffer) (k : Nat) :
    w 1 k ^^^ xorSum (List.range n) (fun j => w (j + 2) k) =
      w 0 k ^^^ xorSum (List.range (n + 2)) (fun j => w j k) := by
  have h := xorSum_erase (List.mem_range.mpr (by omega : 0 < n + 2)) (fun j => w j k)
  rw [range_erase_zero, xorSum_cons, xorSum_map] at h
  exact h

/-- `raid5_recov` writes into block `failed_idx`, over the first `size` bytes, the XOR of the
other blocks, and nothing else. -/
theorem raid5_recov_eq {disks failed_idx : Nat} (hf : failed_idx < disks) (h2 : 2 ≤ disks)
    (size : Nat) (v : Nat → buffer) :
    raid5_recov disks failed_idx size v = some fun i k =>
      if i = failed_idx ∧ k < size then
        xorSum ((List.range disks).erase failed_idx) (fun j => v j k)
      else v i k := by
  obtain ⟨n, rfl⟩ : ∃ n, disks = n + 2 := ⟨disks - 2, by omega⟩
  unfold raid5_recov
  rw [if_neg (by omega)]
  simp only [swap_blocks_eq, Option.some.injEq]
  funext i k
  -- the blocks in the swapped order: `w 0` is block `failed_idx`
  set w := v ∘ Equiv.swap 0 failed_idx with hw
  have hsum : xorSum (List.range (n + 2)) (fun j => w j k) =
      xorSum (List.range (n + 2)) (fun j => v j k) :=
    xorSum_range_comp_swap (f := fun j => v j k) (by omega) hf
  by_cases hi : i = failed_idx
  · subst hi
    simp only [Function.comp_apply, Equiv.swap_apply_right, Function.update_self, xor_gen_apply,
      memcpy, true_and]
    have hshift : ∀ j, Function.update w 0 (memcpy (w 0) (w 1) size) (j + 2) = w (j + 2) :=
      fun j => Function.update_of_ne (by omega) _ _
    simp only [hshift]
    by_cases hk : k < size
    · rw [if_pos hk, if_pos hk, if_pos hk, xorSum_erase_zero, Nat.add_sub_cancel, hsum,
        xorSum_erase (List.mem_range.mpr hf)]
      simp [hw]
    · rw [if_neg hk, if_neg hk, if_neg hk]
      simp [hw]
  · have hne : Equiv.swap 0 failed_idx i ≠ 0 := by
      rw [Equiv.swap_apply_def]
      split_ifs <;> omega
    simp only [Function.comp_apply, Function.update_of_ne hne, hi, false_and, if_false, hw,
      Equiv.swap_apply_self]

/-! ### Parity, and what the RAID-6 library is assumed to do -/

/-- The parity of the blocks `D` at byte `k`, for `nd` data blocks and `np` redundant ones:
block `nd` is the XOR of the data (P), block `nd + 1` their syndrome `syn` (Q). -/
def parity_ok (syn : List UInt8 → UInt8) (nd np : Nat) (D : Nat → buffer) (k : Nat) : Prop :=
  (1 ≤ np → D nd k = xorSum (List.range nd) (fun j => D j k)) ∧
    (2 ≤ np → D (nd + 1) k = syn ((List.range nd).map fun j => D j k))

/-- The specification of the RAID-6 routines for `nd` data blocks, `syn` the syndrome of a
byte of each: `raid6_gen_syndrome` writes P and Q over the first `bytes` bytes, and the two
recoveries rebuild, from a stripe that has its parity, the two blocks they are told are
lost. -/
structure raid6_spec (lib : raid6_calls) (syn : List UInt8 → UInt8) (nd : Nat) : Prop where
  gen_syndrome : ∀ bytes (v : Nat → buffer) i k, lib.gen_syndrome (nd + 2) bytes v i k =
    if k < bytes ∧ i = nd then xorSum (List.range nd) (fun j => v j k)
    else if k < bytes ∧ i = nd + 1 then syn ((List.range nd).map fun j => v j k)
    else v i k
  recov_2data : ∀ bytes a b (v D : Nat → buffer), a < b → b < nd →
    (∀ k < bytes, parity_ok syn nd 2 D k) →
    (∀ i < nd + 2, i ≠ a → i ≠ b → ∀ k < bytes, v i k = D i k) →
    ∀ i < nd + 2, ∀ k < bytes, lib.recov_2data (nd + 2) bytes a b v i k = D i k
  recov_datap : ∀ bytes a (v D : Nat → buffer), a < nd →
    (∀ k < bytes, parity_ok syn nd 2 D k) →
    (∀ i < nd + 2, i ≠ a → i ≠ nd → ∀ k < bytes, v i k = D i k) →
    ∀ i < nd + 2, ∀ k < bytes, lib.recov_datap (nd + 2) bytes a v i k = D i k

section Raid

variable (lib : raid6_calls) (syn : List UInt8 → UInt8)

/-- The range below `n + 1` without its last term is the range below `n`. -/
theorem range_succ_erase_self (n : Nat) : (List.range (n + 1)).erase n = List.range n := by
  rw [List.range_succ, List.erase_append_right _ (by simp), List.erase_cons_head,
    List.append_nil]

/-- `raid5_recov` over `nd` data blocks and P rebuilds block `a` of a stripe that has its
P, when every other block of the `nd + 1` holds its bytes; it writes no other block. -/
theorem raid5_recov_restores {nd a size : Nat} (hnd : 1 ≤ nd) (ha : a < nd + 1)
    (D v : Nat → buffer) (hpar : ∀ k < size, D nd k = xorSum (List.range nd) (fun j => D j k))
    (hv : ∀ i < nd + 1, i ≠ a → ∀ k < size, v i k = D i k) :
    ∃ w, raid5_recov (nd + 1) a size v = some w ∧
      (∀ i < nd + 1, ∀ k < size, w i k = D i k) ∧ ∀ i, i ≠ a → w i = v i := by
  refine ⟨_, raid5_recov_eq ha (by omega) size v, ?_, ?_⟩
  · intro i hi k hk
    by_cases hia : i = a
    · subst hia
      simp only [true_and, if_pos hk]
      -- the sum of all `nd + 1` blocks of `D` is `0`: P cancels the data
      have hzero : xorSum (List.range (nd + 1)) (fun j => D j k) = 0 := by
        rw [xorSum_range_succ, ← hpar k hk, UInt8.xor_self]
      rw [← xorSum_erase_eq_of_sum_eq (List.mem_range.mpr hi) hzero]
      apply xorSum_congr
      intro j hj
      obtain ⟨hja, hjr⟩ := List.nodup_range.mem_erase_iff.mp hj
      exact hv j (List.mem_range.mp hjr) hja k hk
    · simp only [hia, false_and, if_false]
      exact hv i hi hia k hk
  · intro i hia
    funext k
    simp only [hia, false_and, if_false]

/-- `raid6_gen_syndrome` on blocks whose data hold `D`'s leaves all `nd + 2` blocks holding
`D`'s, when `D` has its parity. -/
theorem gen_syndrome_restores {nd size : Nat} (hlib : raid6_spec lib syn nd) (D w : Nat → buffer)
    (hpar : ∀ k < size, parity_ok syn nd 2 D k)
    (hw : ∀ i < nd, ∀ k < size, w i k = D i k) :
    ∀ i < nd + 2, ∀ k < size, lib.gen_syndrome (nd + 2) size w i k = D i k := by
  intro i hi k hk
  have hdata : (List.range nd).map (fun j => w j k) = (List.range nd).map (fun j => D j k) :=
    List.map_congr_left fun j hj => hw j (List.mem_range.mp hj) k hk
  rw [hlib.gen_syndrome]
  by_cases hP : i = nd
  · subst hP
    rw [if_pos ⟨hk, rfl⟩, (hpar k hk).1 (by omega)]
    exact xorSum_congr fun j hj => hw j (List.mem_range.mp hj) k hk
  · by_cases hQ : i = nd + 1
    · subst hQ
      rw [if_neg (by omega), if_pos ⟨hk, rfl⟩, hdata, (hpar k hk).2 le_rfl]
    · rw [if_neg (by omega), if_neg (by omega)]
      exact hw i (by omega) k hk

/-- `raid_gen` leaves the stripe with its parity and the data blocks as they were. -/
theorem raid_gen_parity {nd np size : Nat} (hnd : 1 ≤ nd) (hnp : np ≤ 2)
    (hlib : np = 2 → raid6_spec lib syn nd) (v : Nat → buffer) :
    ∃ w, raid_gen lib nd np size v = some w ∧ (∀ k < size, parity_ok syn nd np w k) ∧
      ∀ i < nd, w i = v i := by
  rcases (by omega : np = 0 ∨ np = 1 ∨ np = 2) with rfl | rfl | rfl
  · -- no parity: nothing to write
    refine ⟨v, by simp [raid_gen], fun k _ => ⟨by omega, by omega⟩, fun _ _ => rfl⟩
  · -- P alone: `raid5_recov` over the data and P rebuilds P as the XOR of the data
    have hrec := raid5_recov_eq (show nd < nd + 1 by omega) (by omega) size v
    set w := fun i k => if i = nd ∧ k < size then
      xorSum ((List.range (nd + 1)).erase nd) (fun j => v j k) else v i k with hw
    refine ⟨w, by simp [raid_gen, hrec], fun k hk => ⟨fun _ => ?_, by omega⟩, fun i hi => ?_⟩
    · simp only [hw, true_and, if_pos hk, range_succ_erase_self]
      apply xorSum_congr
      intro j hj
      have : j ≠ nd := by simp at hj; omega
      simp [this]
    · funext k
      simp [hw, show i ≠ nd by omega]
  · -- P and Q: `raid6_gen_syndrome` writes both over what `raid5_recov` wrote into P
    have hrec := raid5_recov_eq (show nd < nd + 2 by omega) (by omega) size v
    set w₁ := fun i k => if i = nd ∧ k < size then
      xorSum ((List.range (nd + 2)).erase nd) (fun j => v j k) else v i k with hw₁
    have hdata : ∀ i < nd, w₁ i = v i := fun i hi => by
      funext k
      simp [hw₁, show i ≠ nd by omega]
    have hspec := hlib rfl
    refine ⟨lib.gen_syndrome (nd + 2) size w₁, by simp [raid_gen, hrec], fun k hk => ⟨?_, ?_⟩,
      fun i hi => ?_⟩
    · intro _
      rw [hspec.gen_syndrome, if_pos ⟨hk, rfl⟩]
      apply xorSum_congr
      intro j hj
      have hj' : j < nd := List.mem_range.mp hj
      rw [hspec.gen_syndrome, if_neg (by omega), if_neg (by omega)]
    · intro _
      rw [hspec.gen_syndrome, if_neg (by omega), if_pos ⟨hk, rfl⟩]
      congr 1
      apply List.map_congr_left
      intro j hj
      have hj' : j < nd := List.mem_range.mp hj
      rw [hspec.gen_syndrome, if_neg (by omega), if_neg (by omega)]
    · funext k
      rw [hspec.gen_syndrome, if_neg (by omega), if_neg (by omega), hdata i hi]

/-- `raid_rec` rebuilds a stripe that has its parity from any `np` or fewer of its blocks
lost, listed in increasing order: every block of the `nd + np` holds `D`'s bytes after. -/
theorem raid_rec_restores {nd np size : Nat} (hnd : 1 ≤ nd) (hnp : np ≤ 2)
    (hlib : np = 2 → raid6_spec lib syn nd) (D v : Nat → buffer)
    (hpar : ∀ k < size, parity_ok syn nd np D k) (ir : List Nat)
    (hsorted : ir.Pairwise (· < ·)) (hlen : ir.length ≤ np) (hir : ∀ a ∈ ir, a < nd + np)
    (hv : ∀ i < nd + np, i ∉ ir → ∀ k < size, v i k = D i k) :
    ∃ w, raid_rec lib ir nd np size v = some w ∧ ∀ i < nd + np, ∀ k < size, w i k = D i k := by
  match ir, hsorted, hlen, hir, hv with
  | [], _, _, _, hv => exact ⟨v, rfl, fun i hi k hk => hv i hi (by simp) k hk⟩
  | [a], _, hlen, hir, hv =>
    have ha : a < nd + np := hir a (by simp)
    have hnp1 : 1 ≤ np := by simpa using hlen
    by_cases hP : a < nd + 1
    · -- data or P: the XOR of the others
      obtain ⟨w, hw, hwD, hwv⟩ := raid5_recov_restores hnd hP D v
        (fun k hk => (hpar k hk).1 hnp1) (fun i hi hia k hk => hv i (by omega) (by simpa) k hk)
      refine ⟨w, by simp [raid_rec, hP, hw], fun i hi k hk => ?_⟩
      by_cases hi' : i < nd + 1
      · exact hwD i hi' k hk
      · rw [hwv i (by omega)]
        exact hv i hi (by simp; omega) k hk
    · -- Q: the data are all there, and the syndrome is computed again
      have hnp2 : np = 2 := by omega
      subst hnp2
      refine ⟨_, by simp [raid_rec, hP], gen_syndrome_restores lib syn (hlib rfl) D v hpar
        fun i hi k hk => hv i (by omega) (by simp; omega) k hk⟩
  | [a, b], hsorted, hlen, hir, hv =>
    have hab : a < b := by simpa using hsorted
    have hb : b < nd + np := hir b (by simp)
    have hnp2 : np = 2 := by simp at hlen; omega
    by_cases hdd : b < nd
    · -- data + data
      subst hnp2
      exact ⟨_, by simp [raid_rec, hdd], (hlib rfl).recov_2data size a b v D hab hdd hpar
        fun i hi hia hib k hk => hv i hi (by simp [hia, hib]) k hk⟩
    · by_cases hda : a < nd
      · by_cases hdP : b = nd
        · -- data + P: from Q
          subst hnp2 hdP
          exact ⟨_, by simp [raid_rec, hda], (hlib rfl).recov_datap size a v D hda hpar
            fun i hi hia hib k hk => hv i hi (by simp [hia, hib]) k hk⟩
        · -- data + Q: the data from P, then Q again
          subst hnp2
          obtain ⟨w, hw, hwD, -⟩ := raid5_recov_restores hnd (show a < nd + 1 by omega) D v
            (fun k hk => (hpar k hk).1 (by omega))
            (fun i hi hia k hk => hv i (by omega) (by simp; omega) k hk)
          exact ⟨_, by simp [raid_rec, hdd, hda, hdP, hw], gen_syndrome_restores lib syn
            (hlib rfl) D w hpar fun i hi k hk => hwD i (by omega) k hk⟩
      · -- P + Q: the parity of the stripe, again
        subst hnp2
        obtain ⟨w, hw, hwpar, hwv⟩ := @raid_gen_parity lib syn _ _ size hnd le_rfl hlib v
        refine ⟨w, by simp [raid_rec, hdd, hda, hw], fun i hi k hk => ?_⟩
        by_cases hi' : i < nd
        · rw [hwv i hi']
          exact hv i hi (by simp; omega) k hk
        · have hdata : ∀ j ∈ List.range nd, w j k = D j k := fun j hj => by
            have hj' : j < nd := List.mem_range.mp hj
            rw [hwv j hj']
            exact hv j (by omega) (by simp; omega) k hk
          rcases (by omega : i = nd ∨ i = nd + 1) with rfl | rfl
          · rw [(hwpar k hk).1 (by omega), (hpar k hk).1 (by omega), xorSum_congr hdata]
          · rw [(hwpar k hk).2 le_rfl, (hpar k hk).2 le_rfl, List.map_congr_left hdata]
  | _ :: _ :: _ :: _, _, hlen, _, _ =>
    simp at hlen
    omega

end Raid

/-! ### The failed blocks -/

/-- The bits the mask loop of `ec_failed_mask` sets: bit `j` ends set when it was set or when
`j` is a block of the list the test picks, for blocks below 32. -/
theorem foldl_mask_testBit (p : Nat → Bool) :
    ∀ (l : List Nat) (m : UInt32), (∀ x ∈ l, x < 32) → ∀ j,
      (l.foldl (fun mask i => if p i then mask ||| (1 <<< i.toUInt32) else mask) m).toNat.testBit j
        = (m.toNat.testBit j || decide (j ∈ l) && p j)
  | [], m, _, j => by simp
  | i :: l, m, hl, j => by
    have hi : i < 32 := hl i List.mem_cons_self
    rw [List.foldl_cons, foldl_mask_testBit p l _ (fun x hx => hl x (List.mem_cons_of_mem i hx))]
    -- the bit of block `i` is `2 ^ i`
    have hbit : ((1 : UInt32) <<< i.toUInt32).toNat = 2 ^ i := by
      rw [UInt32.toNat_shiftLeft, Nat.toUInt32_eq, UInt32.toNat_ofNat', Nat.mod_eq_of_lt
        (by omega : i < 2 ^ 32), Nat.mod_eq_of_lt hi, UInt32.toNat_one, Nat.one_shiftLeft,
        Nat.mod_eq_of_lt (Nat.pow_lt_pow_right (by norm_num) hi)]
    by_cases hp : p i
    · rw [if_pos hp, UInt32.toNat_or, hbit, Nat.testBit_or, Nat.testBit_two_pow]
      by_cases hj : j = i
      · subst hj
        simp [hp]
      · simp [hj, Ne.symm hj]
    · rw [if_neg hp]
      by_cases hj : j = i
      · subst hj
        simp [hp]
      · simp [hj]

/-- A block below 32 is in `ec_failed_mask` exactly when it is flagged. -/
theorem ec_failed_mask_testBit (buf : ec_stripe_buf) (e : bch_stripe_buf_err)
    (hn : buf.key.nr_blocks.toNat ≤ 32) (j : Nat) :
    (ec_failed_mask buf e).toNat.testBit j =
      (decide (j < buf.key.nr_blocks.toNat) && buf.err e j != 0) := by
  rw [ec_failed_mask, foldl_mask_testBit _ _ _ (fun x hx => by simp at hx; omega)]
  simp

/-- The failed mask meets `required` exactly when a flagged block is required. -/
theorem ec_failed_mask_and_eq_zero (buf : ec_stripe_buf) (e : bch_stripe_buf_err)
    (hn : buf.key.nr_blocks.toNat ≤ 32) (required : UInt32) :
    ec_failed_mask buf e &&& required = 0 ↔
      ∀ i < buf.key.nr_blocks.toNat, buf.err e i ≠ 0 → required.toNat.testBit i = false := by
  rw [← UInt32.toNat_inj, UInt32.toNat_and, UInt32.toNat_zero]
  constructor
  · intro h i hi he
    have hbit := Nat.testBit_and (ec_failed_mask buf e).toNat required.toNat i
    rw [h, Nat.zero_testBit, ec_failed_mask_testBit buf e hn] at hbit
    simpa [hi, he] using hbit.symm
  · intro h
    apply Nat.eq_of_testBit_eq
    intro i
    rw [Nat.testBit_and, ec_failed_mask_testBit buf e hn, Nat.zero_testBit]
    by_cases hi : i < buf.key.nr_blocks.toNat
    · by_cases he : buf.err e i = 0
      · simp [he]
      · simp [h i hi he]
    · simp [hi]

/-- The blocks flagged `e`, in increasing order: the list `bch2_ec_do_recov` hands
`raid_rec`. -/
theorem failed_list_spec (buf : ec_stripe_buf) (e : bch_stripe_buf_err) (F : Finset Nat)
    (hF : ∀ i, i ∈ F ↔ i < buf.key.nr_blocks.toNat ∧ buf.err e i ≠ 0) :
    let l := (List.range buf.key.nr_blocks.toNat).filter fun i => buf.err e i != 0
    l.Pairwise (· < ·) ∧ (∀ i, i ∈ l ↔ i ∈ F) ∧ l.length = F.card ∧
      ec_nr_failed buf e = F.card := by
  intro l
  have hmem : ∀ i, i ∈ l ↔ i ∈ F := fun i => by simp [l, hF]
  have hnodup : l.Nodup := List.nodup_range.filter _
  have hlen : l.length = F.card := by
    rw [← List.toFinset_card_of_nodup hnodup]
    congr 1
    ext i
    simp [hmem]
  refine ⟨List.pairwise_lt_range.filter _, hmem, hlen, ?_⟩
  rw [ec_nr_failed, List.countP_eq_length_filter, ← hlen]

end Bcachefs.Proofs.Data
