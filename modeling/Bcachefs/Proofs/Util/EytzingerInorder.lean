import Bcachefs.Util.EytzingerInorder
import Bcachefs.Tree.Inorder
import Bcachefs.Proofs.Util.Eytzinger
import Bcachefs.Proofs.Util.Varint
import Bcachefs.Bits.Scan
import Bcachefs.Proofs.Util.Fifo

/-!
# The Eytzinger index arithmetic walks the tree in inorder

`Tree.Inorder` gives the place of every node of the tree on `1..size` in its inorder
(`inorderPos`), and the node after and before it (`inorderNext`, `inorderPrev`). This module
runs the bit arithmetic of `util/eytzinger.h` on `unsigned` words and shows that it computes
them, for every `size` from `1` while `size + 1 < 2 ^ 31`:

* `eytzinger1_to_inorder_toNat`: clearing the top bit of node `2 ^ d + r` and shifting
  `2 * r + 1` down to the last level gives its place in the complete tree of the same depth
  (`toNat_completePos_word`); the sign-bit trick on `extra - i` as an `int` takes off the
  missing nodes before it (`add_signMask_toNat`), while the difference fits in the `int`.
  `inorder_to_eytzinger1_toNat` undoes each step.
* `eytzinger1_next_toNat`, `eytzinger1_prev_toNat`: the shift to the last level is the descent
  of `leftmost` and `rightmost`; without a right child, `ffz(i) + 1` drops the trailing ones
  and one more bit (`__ffs_not_toUInt64`), which is `subtreeSucc`.
* `eytzinger1_for_each_eq`: the loop's run, by induction on the nodes left after the current
  one, visits the inorder and stops at `0`. `eytzinger0_for_each_eq_map`: the zero-based loop
  is the one-based loop less one, for every size.
* `eytzinger_inorder_spec` collects all of it in `EytzingerInorderSpec`.

Past the bound the arithmetic fails: for `2 ^ 31 - 1` nodes `ffz + 1` of the last node is `32`,
a shift C leaves undefined, and for `2 ^ 31` nodes the `int` of the sign-bit trick wraps
(`eytzinger_inorder_spec_fails_past_bound`).
-/

set_option autoImplicit false
set_option linter.style.nameCheck false

namespace Bcachefs.Proofs.Util

open Bcachefs Bcachefs.Loop Bcachefs.Tree

/-! ### Bit helpers -/

/-- A word with a positive value is not zero. -/
theorem ne_zero_of_toNat_pos {x : UInt64} (hx : 0 < x.toNat) : x ≠ 0 := fun h => by
  rw [h] at hx
  exact absurd hx (by decide)

/-- A word's highest set bit is below 64. -/
theorem log2_toNat_lt (x : UInt64) : x.toNat.log2 < 64 := by
  rcases Nat.eq_zero_or_pos x.toNat with h | h
  · rw [h]
    decide
  · exact (Nat.log2_lt (by omega)).mpr x.toNat_lt

/-- `__fls` of a word that is not zero is its highest set bit. -/
theorem __fls_toNat {x : UInt64} (hx : 0 < x.toNat) : (__fls x).toNat = x.toNat.log2 := by
  have hlt := log2_toNat_lt x
  have hc : (63 - x.toNat.log2).toUInt64.toNat = 63 - x.toNat.log2 := by
    rw [Nat.toUInt64_eq, UInt64.toNat_ofNat', Nat.mod_eq_of_lt (by omega)]
  rw [__fls, __builtin_clzl, if_neg (ne_zero_of_toNat_pos hx), UInt64.toNat_sub, UInt64.toNat_sub, hc]
  simp only [UInt64.reduceToNat]
  omega

/-- `fls_long` of a number that is not zero is one more than its highest set bit. -/
theorem fls_long_eq_log2_add_one {x : Nat} (hx : 0 < x) (hx' : x < 2 ^ 64) :
    fls_long x = x.log2 + 1 := by
  have hle : fls_long x ≤ x.log2 + 1 := (fls_long_le_iff hx').mpr Nat.lt_log2_self
  have hgt : ¬ fls_long x ≤ x.log2 := by
    rw [fls_long_le_iff hx', not_lt]
    exact Nat.log2_self_le (by omega)
  omega

/-- `rounddown_pow_of_two(n)` is the power of two of `n`'s highest set bit. -/
theorem rounddown_pow_of_two_toNat {n : UInt64} (hn : 0 < n.toNat) :
    (rounddown_pow_of_two n).toNat = 2 ^ n.toNat.log2 := by
  have hlt := log2_toNat_lt n
  have hs : (fls_long n.toNat - 1).toUInt64.toNat = n.toNat.log2 := by
    rw [fls_long_eq_log2_add_one hn n.toNat_lt, Nat.add_sub_cancel, Bits.toNat_toUInt64_of_lt hlt]
  rw [rounddown_pow_of_two, UInt64.toNat_shiftLeft, hs, Nat.mod_eq_of_lt hlt, UInt64.toNat_one,
    Nat.one_shiftLeft, Nat.mod_eq_of_lt (Nat.pow_lt_pow_right (by decide) hlt)]

/-- `eytzinger1_extra(size)` is twice the nodes of the last level. -/
theorem eytzinger1_extra_toNat {size : UInt32} (h0 : 0 < size.toNat) (hs : size.toNat < 2 ^ 31) :
    (eytzinger1_extra size).toNat = 2 * (size.toNat + 1 - 2 ^ size.toNat.log2) := by
  have hb := two_pow_log2_le_lt (show size.toNat ≠ 0 by omega)
  have hne : size ≠ 0 := fun h => by rw [h] at h0; exact absurd h0 (by decide)
  have hr := rounddown_pow_of_two_toNat (n := size.toUInt64) (by rwa [UInt32.toNat_toUInt64])
  rw [UInt32.toNat_toUInt64] at hr
  have h1 : (size + 1).toUInt64.toNat = size.toNat + 1 := by
    rw [UInt32.toNat_toUInt64, UInt32.toNat_add, UInt32.toNat_one]
    omega
  -- `((size + 1 - rounddown_pow_of_two(size)) << 1)`, with no wrap below `2 ^ 31`
  rw [eytzinger1_extra, if_pos hne, UInt64.toNat_toUInt32, UInt64.toNat_shiftLeft, UInt64.toNat_sub,
    h1, hr]
  simp only [UInt64.reduceToNat, Nat.shiftLeft_eq, Nat.reduceMod, Nat.pow_one]
  omega

/-- The trailing zero bits of an odd multiple of `2 ^ t`. -/
theorem ctz_bits_odd_mul_two_pow {w r t : Nat} (ht : t < w) : ctz_bits w ((2 * r + 1) * 2 ^ t) = t := by
  have h : Bits.LowestSetBit (2 ^ t * (2 * r + 1)) (t + 0) :=
    (Bits.lowestSetBit_two_pow_mul 0).mpr (Bits.lowestSetBit_of_odd (by omega))
  rw [Nat.mul_comm]
  exact ctz_bits_eq_of_testBit ht h.2 h.1

/-- The trailing one bits of `x` are the trailing zero bits of its complement, and of `x + 1`. -/
theorem ctz_bits_two_pow_sub_one_sub {w m x : Nat} (hx : x + 1 < 2 ^ m) :
    ctz_bits w (2 ^ m - 1 - x) = ctz_bits w (x + 1) := by
  induction w generalizing m x with
  | zero => rfl
  | succ w ih =>
    obtain ⟨m, rfl⟩ : ∃ m', m = m' + 1 := ⟨m - 1, by
      rcases m with _ | m
      · simp at hx
      · rfl⟩
    rw [Nat.pow_succ] at hx ⊢
    rw [ctz_bits, ctz_bits]
    rcases Nat.mod_two_eq_zero_or_one x with hx2 | hx2
    · -- `x` ends in a zero bit: both are odd
      rw [if_pos (by omega), if_pos (by omega)]
    · -- a trailing one bit: drop it from both
      rw [if_neg (by omega), if_neg (by omega),
        show (2 ^ m * 2 - 1 - x) / 2 = 2 ^ m - 1 - x / 2 by omega,
        show (x + 1) / 2 = x / 2 + 1 by omega, ih (by omega)]

/-- `ffz(i)`, the lowest clear bit of an `unsigned`, is the lowest set bit of `i + 1`. -/
theorem __ffs_not_toUInt64 {i : UInt32} (h : i.toNat + 1 < 2 ^ 32) :
    __ffs (~~~i).toUInt64 = __ffs (i + 1).toUInt64 := by
  rw [__ffs, __builtin_ctzl, __ffs, __builtin_ctzl, UInt32.toNat_toUInt64, UInt32.toNat_toUInt64,
    UInt32.toNat_not, UInt32.toNat_add, UInt32.toNat_one, Nat.mod_eq_of_lt h,
    show UInt32.size = 2 ^ 32 from rfl, ctz_bits_two_pow_sub_one_sub h]

/-- A number below `2 ^ 32` as an `unsigned`. -/
theorem toNat_toUInt32_of_lt {x : Nat} (hx : x < 2 ^ 32) : x.toUInt32.toNat = x := by
  rw [Nat.toUInt32_eq, UInt32.toNat_ofNat', Nat.mod_eq_of_lt hx]

/-- A node less one, as a word, and back. -/
theorem toUInt32_sub_one_add_one {x : Nat} (h1 : 0 < x) (hx : x < 2 ^ 32) :
    (x - 1).toUInt32 + 1 = x.toUInt32 := by
  rw [← UInt32.toNat_inj, UInt32.toNat_add, toNat_toUInt32_of_lt (by omega),
    toNat_toUInt32_of_lt hx, UInt32.toNat_one]
  omega

/-- A node less one, as a word: the subtraction does not wrap. -/
theorem toUInt32_sub_one {x : Nat} (h1 : 0 < x) (hx : x < 2 ^ 32) :
    x.toUInt32 - 1 = (x - 1).toUInt32 := by
  rw [← toUInt32_sub_one_add_one h1 hx, UInt32.add_sub_cancel]

/-! ### The sign-bit tricks -/

section SignBit

variable {p e : UInt32} (h₁ : e.toNat < p.toNat + 2 ^ 31) (h₂ : p.toNat ≤ e.toNat + 2 ^ 31)
include h₁ h₂

/-- The `int` `s = e - p` is negative exactly when `p > e`: the difference fits in it. -/
theorem msb_toBitVec_sub : (e - p).toBitVec.msb = decide (e.toNat < p.toNat) := by
  have hp := p.toNat_lt
  have he := e.toNat_lt
  rw [BitVec.msb_eq_decide, UInt32.toNat_toBitVec, UInt32.toNat_sub]
  -- the wrapped difference has its top bit set exactly when it wrapped
  by_cases h : e.toNat < p.toNat
  · rw [decide_eq_true h, decide_eq_true_iff]
    omega
  · rw [decide_eq_false h, decide_eq_false_iff_not]
    omega

/-- `s >> 31`: `0`, or all ones when `s` is negative. -/
theorem toNat_sshiftRight_sub_31 :
    ((e - p).toBitVec.sshiftRight 31).toNat = if e.toNat < p.toNat then 2 ^ 32 - 1 else 0 := by
  have hp := p.toNat_lt
  have hv := UInt32.toNat_sub e p
  rw [← UInt32.toNat_toBitVec] at hv
  -- an arithmetic shift by 31 copies the sign bit to every bit
  split_ifs with h
  · rw [BitVec.sshiftRight_eq_of_msb_true (by rw [msb_toBitVec_sub h₁ h₂, decide_eq_true h]),
      BitVec.toNat_not, BitVec.toNat_ushiftRight, BitVec.toNat_not, hv, Nat.shiftRight_eq_div_pow,
      Nat.div_eq_of_lt (by omega), Nat.sub_zero]
  · rw [BitVec.sshiftRight_eq_of_msb_false (by rw [msb_toBitVec_sub h₁ h₂, decide_eq_false h]),
      BitVec.toNat_ushiftRight, hv, Nat.shiftRight_eq_div_pow, Nat.div_eq_of_lt (by omega)]

/-- `s >> 1` of a negative `s`: half of it, rounded down. -/
theorem toNat_sshiftRight_sub_one (h : e.toNat < p.toNat) :
    ((e - p).toBitVec.sshiftRight 1).toNat = 2 ^ 32 - 1 - (p.toNat - e.toNat - 1) / 2 := by
  have hp := p.toNat_lt
  have hv := UInt32.toNat_sub e p
  rw [← UInt32.toNat_toBitVec] at hv
  rw [BitVec.sshiftRight_eq_of_msb_true (by rw [msb_toBitVec_sub h₁ h₂, decide_eq_true h]),
    BitVec.toNat_not, BitVec.toNat_ushiftRight, BitVec.toNat_not, hv, Nat.shiftRight_eq_div_pow,
    show 2 ^ 32 - 1 - (2 ^ 32 - p.toNat + e.toNat) % 2 ^ 32 = p.toNat - e.toNat - 1 by omega,
    Nat.pow_one]

/-- The adjustment of `__eytzinger1_to_inorder`: `(s >> 1) & (s >> 31)` added to `p` leaves it
when `s` is not negative and takes off half of `p - e`, rounded up, when it is. -/
theorem add_signMask_toNat :
    (p + (((e - p).toInt32 >>> 1) &&& ((e - p).toInt32 >>> 31)).toUInt32).toNat =
      if p.toNat ≤ e.toNat then p.toNat else p.toNat - (p.toNat - e.toNat + 1) / 2 := by
  have hp := p.toNat_lt
  have hmask : (((e - p).toInt32 >>> 1) &&& ((e - p).toInt32 >>> 31)).toUInt32.toNat =
      ((e - p).toBitVec.sshiftRight 1 &&& (e - p).toBitVec.sshiftRight 31).toNat := by
    rw [← UInt32.toNat_toBitVec, Int32.toBitVec_toUInt32, Int32.toBitVec_and,
      Int32.toBitVec_shiftRight, Int32.toBitVec_shiftRight, UInt32.toBitVec_toInt32]
    rfl
  rw [UInt32.toNat_add, hmask, BitVec.toNat_and, toNat_sshiftRight_sub_31 h₁ h₂]
  -- a negative `s` masks in half of it; otherwise the mask is zero
  by_cases h : e.toNat < p.toNat
  · rw [if_pos h, if_neg (by omega), toNat_sshiftRight_sub_one h₁ h₂ h,
      Nat.and_two_pow_sub_one_eq_mod]
    omega
  · rw [if_neg h, if_pos (by omega), Nat.and_zero]
    omega

/-- The adjustment of `__inorder_to_eytzinger1`: `s & (s >> 31)` taken from `p` leaves it when `s`
is not negative and adds `p - e` when it is. -/
theorem sub_signMask_toNat :
    (p - ((e - p).toInt32 &&& ((e - p).toInt32 >>> 31)).toUInt32).toNat =
      if p.toNat ≤ e.toNat then p.toNat else (2 * p.toNat - e.toNat) % 2 ^ 32 := by
  have hp := p.toNat_lt
  have hmask : ((e - p).toInt32 &&& ((e - p).toInt32 >>> 31)).toUInt32.toNat =
      ((e - p).toBitVec &&& (e - p).toBitVec.sshiftRight 31).toNat := by
    rw [← UInt32.toNat_toBitVec, Int32.toBitVec_toUInt32, Int32.toBitVec_and,
      Int32.toBitVec_shiftRight, UInt32.toBitVec_toInt32]
    rfl
  rw [UInt32.toNat_sub, hmask, BitVec.toNat_and, toNat_sshiftRight_sub_31 h₁ h₂]
  -- a negative `s` is taken off whole; otherwise the mask is zero
  by_cases h : e.toNat < p.toNat
  · rw [if_pos h, if_neg (by omega), Nat.and_two_pow_sub_one_eq_mod, UInt32.toNat_toBitVec,
      UInt32.toNat_sub]
    omega
  · rw [if_neg h, if_pos (by omega), Nat.and_zero]
    omega

end SignBit

/-! ### Shifts of node numbers -/

/-- The first steps of `__eytzinger1_to_inorder`: node `2 ^ d + r` becomes `(2 * r + 1) << (K - d)`,
its position in the complete tree of depth `K = fls(size)`. -/
theorem toNat_completePos_word {i size : UInt32} (hi : 0 < i.toNat) (hin : i.toNat ≤ size.toNat)
    (hs : size.toNat < 2 ^ 31) :
    ((((i ^^^ ((1 : UInt32) <<< (__fls i.toUInt64).toUInt32)) <<< 1) ||| 1) <<<
      ((__fls size.toUInt64).toUInt32 - (__fls i.toUInt64).toUInt32)).toNat =
      completePos size.toNat.log2 i.toNat := by
  have hb := two_pow_log2_le_lt (show i.toNat ≠ 0 by omega)
  have hdK := log2_le_log2_of_le (show i.toNat ≠ 0 by omega) hin
  have hK : size.toNat.log2 < 31 := (Nat.log2_lt (by omega)).mpr hs
  have hp := ((completePos_inorder_one (K := size.toNat.log2)
    (Nat.lt_log2_self (n := size.toNat))).1 i.toNat (mem_inorder_one.mpr ⟨hi, hin⟩)).2
  have hpK : 2 ^ (size.toNat.log2 + 1) ≤ 2 ^ 31 := Nat.pow_le_pow_right (by decide) (by omega)
  -- the depths, as shift counts
  have hd : ((__fls i.toUInt64).toUInt32).toNat = i.toNat.log2 := by
    rw [UInt64.toNat_toUInt32, __fls_toNat (by rwa [UInt32.toNat_toUInt64]),
      UInt32.toNat_toUInt64]
    omega
  have hK' : ((__fls size.toUInt64).toUInt32).toNat = size.toNat.log2 := by
    rw [UInt64.toNat_toUInt32, __fls_toNat (by rw [UInt32.toNat_toUInt64]; omega),
      UInt32.toNat_toUInt64]
    omega
  have hshift : ((__fls size.toUInt64).toUInt32 - (__fls i.toUInt64).toUInt32).toNat =
      size.toNat.log2 - i.toNat.log2 := by
    rw [UInt32.toNat_sub, hd, hK']
    omega
  -- clearing the top bit leaves `r`
  have htop : ((1 : UInt32) <<< (__fls i.toUInt64).toUInt32).toNat = 2 ^ i.toNat.log2 := by
    rw [UInt32.toNat_shiftLeft, hd, UInt32.toNat_one, Nat.one_shiftLeft,
      Nat.mod_eq_of_lt (show i.toNat.log2 < 32 by omega),
      Nat.mod_eq_of_lt (Nat.pow_lt_pow_right (by decide) (by omega))]
  have hr : (i ^^^ ((1 : UInt32) <<< (__fls i.toUInt64).toUInt32)).toNat =
      i.toNat - 2 ^ i.toNat.log2 := by
    have h := Bits.xor_two_pow_mul_add (m := i.toNat.log2) (a := 1) (b := 1)
      (x := i.toNat - 2 ^ i.toNat.log2) (y := 0) (by omega) (Nat.two_pow_pos _)
    rw [show 2 ^ i.toNat.log2 * 1 + (i.toNat - 2 ^ i.toNat.log2) = i.toNat by omega] at h
    rw [UInt32.toNat_xor, htop, ← Nat.mul_one (2 ^ i.toNat.log2), ← Nat.add_zero (2 ^ i.toNat.log2 * 1), h]
    simp
  have hodd : (((i ^^^ ((1 : UInt32) <<< (__fls i.toUInt64).toUInt32)) <<< 1) ||| 1).toNat =
      2 * (i.toNat - 2 ^ i.toNat.log2) + 1 := by
    have h2 : (i.toNat - 2 ^ i.toNat.log2) * 2 ^ (1 % 32) % 2 ^ 32 =
        2 ^ 1 * (i.toNat - 2 ^ i.toNat.log2) := by
      simp only [Nat.reduceMod, Nat.pow_one]
      omega
    rw [UInt32.toNat_or, UInt32.toNat_shiftLeft, hr, UInt32.toNat_one, Nat.shiftLeft_eq, h2,
      ← Nat.two_pow_add_eq_or_of_lt (by decide), Nat.pow_one]
  rw [UInt32.toNat_shiftLeft, hodd, hshift, Nat.shiftLeft_eq,
    Nat.mod_eq_of_lt (show size.toNat.log2 - i.toNat.log2 < 32 by omega)]
  exact Nat.mod_eq_of_lt (by rw [completePos] at hp; omega)

/-- The last step of `eytzinger1_next` and `eytzinger1_prev`: back up a level when past `size`. -/
theorem toNat_shiftRight_gt {w size : UInt32} :
    (w >>> (if w > size then 1 else 0)).toNat =
      if w.toNat ≤ size.toNat then w.toNat else w.toNat / 2 := by
  -- the shift is `1` exactly when the node lies past the tree
  by_cases h : w.toNat ≤ size.toNat
  · rw [if_neg (by rw [gt_iff_lt, UInt32.lt_iff_toNat_lt]; omega), if_pos h, UInt32.toNat_shiftRight]
    rfl
  · rw [if_pos (by rw [gt_iff_lt, UInt32.lt_iff_toNat_lt]; omega), if_neg h, UInt32.toNat_shiftRight]
    rfl

/-! ### Node numbers and inorder positions -/

section Size

variable {size : UInt32} (h0 : 0 < size.toNat) (hs : size.toNat + 1 < 2 ^ 31)
include h0 hs

/-- The position of a node in the complete tree, and the twice the nodes of the last level, both
fit in an `int`. -/
theorem completePos_le_extra_bounds {x : Nat} (hx : x ∈ inorder size.toNat 1) :
    0 < completePos size.toNat.log2 x ∧ completePos size.toNat.log2 x < 2 ^ 31 ∧
      (eytzinger1_extra size).toNat ≤ 2 ^ 31 := by
  have hp := (completePos_inorder_one (Nat.lt_log2_self (n := size.toNat))).1 x hx
  have hb := two_pow_log2_le_lt (show size.toNat ≠ 0 by omega)
  have hK : size.toNat.log2 < 31 := (Nat.log2_lt (by omega)).mpr (by omega)
  have hpK : 2 ^ (size.toNat.log2 + 1) ≤ 2 ^ 31 := Nat.pow_le_pow_right (by decide) (by omega)
  -- the complete tree has fewer than `2 ^ 31` positions
  rw [eytzinger1_extra_toNat h0 (by omega)]
  rw [Nat.pow_succ] at hpK hp
  omega

/-- `__eytzinger1_to_inorder` gives a node its position in the inorder. -/
theorem eytzinger1_to_inorder_toNat {i : UInt32} (hi : 0 < i.toNat) (hin : i.toNat ≤ size.toNat) :
    (__eytzinger1_to_inorder i size (eytzinger1_extra size)).toNat =
      inorderPos size.toNat i.toNat := by
  have hx : i.toNat ∈ inorder size.toNat 1 := mem_inorder_one.mpr ⟨hi, hin⟩
  obtain ⟨hp0, hp, he⟩ := completePos_le_extra_bounds h0 hs hx
  have hw := toNat_completePos_word hi hin (by omega)
  have hE := eytzinger1_extra_toNat h0 (by omega)
  unfold __eytzinger1_to_inorder
  dsimp only
  rw [add_signMask_toNat (by omega) (by omega), hw, hE]
  -- a position past the last level's nodes is even: the adjustment halves the gap
  have hpar := completePos_le_or_even hx
  unfold inorderPos
  dsimp only
  split_ifs <;> omega

/-- `__inorder_to_eytzinger1` takes a node's position in the inorder back to the node. -/
theorem inorder_to_eytzinger1_toNat {j : UInt32} {x : Nat} (hx : x ∈ inorder size.toNat 1)
    (hj : j.toNat = inorderPos size.toNat x) :
    (__inorder_to_eytzinger1 j size (eytzinger1_extra size)).toNat = x := by
  obtain ⟨hp0, hp, he⟩ := completePos_le_extra_bounds h0 hs hx
  have hE := eytzinger1_extra_toNat h0 (by omega)
  have hxn := mem_inorder_one.mp hx
  have hb := two_pow_log2_le_lt (show x ≠ 0 by omega)
  have hdK := log2_le_log2_of_le (show x ≠ 0 by omega) hxn.2
  have hK : size.toNat.log2 < 31 := (Nat.log2_lt (by omega)).mpr (by omega)
  -- undoing the adjustment gives the position in the complete tree
  have hu : (j - ((eytzinger1_extra size - j).toInt32 &&&
      ((eytzinger1_extra size - j).toInt32 >>> 31)).toUInt32).toNat =
      completePos size.toNat.log2 x := by
    have hpar := completePos_le_or_even hx
    have hpos := inorderPos_mem hx
    rw [sub_signMask_toNat (by omega) (by omega), hj, hE]
    unfold inorderPos
    dsimp only
    split_ifs <;> omega
  unfold __inorder_to_eytzinger1
  dsimp only
  generalize (j - ((eytzinger1_extra size - j).toInt32 &&&
      ((eytzinger1_extra size - j).toInt32 >>> 31)).toUInt32) = u at hu ⊢
  -- its trailing zero bits are the levels below the node
  have hshift : ((__ffs u.toUInt64).toUInt32).toNat = size.toNat.log2 - x.log2 := by
    rw [UInt64.toNat_toUInt32, __ffs, __builtin_ctzl, UInt32.toNat_toUInt64, hu, completePos,
      ctz_bits_odd_mul_two_pow (by omega), Nat.toUInt64_eq, UInt64.toNat_ofNat']
    omega
  have hr : (u >>> ((__ffs u.toUInt64).toUInt32 + 1)).toNat = x - 2 ^ x.log2 := by
    rw [UInt32.toNat_shiftRight, UInt32.toNat_add, hshift, UInt32.toNat_one,
      Nat.mod_eq_of_lt (show size.toNat.log2 - x.log2 + 1 < 2 ^ 32 by omega),
      Nat.mod_eq_of_lt (show size.toNat.log2 - x.log2 + 1 < 32 by omega), hu, completePos,
      Nat.shiftRight_eq_div_pow, Nat.pow_succ, ← Nat.div_div_eq_div_mul,
      Nat.mul_div_cancel _ (Nat.two_pow_pos _)]
    omega
  have htop : ((1 : UInt32) <<< (__fls size.toUInt64 -
      ((__ffs u.toUInt64).toUInt32).toUInt64).toUInt32).toNat = 2 ^ x.log2 := by
    have hK' := __fls_toNat (x := size.toUInt64) (by rw [UInt32.toNat_toUInt64]; omega)
    rw [UInt32.toNat_toUInt64] at hK'
    rw [UInt32.toNat_shiftLeft, UInt64.toNat_toUInt32, UInt64.toNat_sub, hK',
      UInt32.toNat_toUInt64, hshift, UInt32.toNat_one, Nat.one_shiftLeft]
    rw [show (2 ^ 64 - (size.toNat.log2 - x.log2) + size.toNat.log2) % 2 ^ 64 % 2 ^ 32 % 32 =
      x.log2 by omega]
    exact Nat.mod_eq_of_lt (Nat.pow_lt_pow_right (by decide) (by omega))
  rw [UInt32.toNat_or, hr, htop, Nat.or_two_pow_eq_add_of_lt (by omega)]
  omega

/-- Shifting a node `v` by `fls(size) - fls(v)`: down to the depth of the last level. -/
theorem toNat_shiftLeft_fls {v : UInt32} (hv : 0 < v.toNat) (hvK : v.toNat.log2 ≤ size.toNat.log2) :
    (v <<< (__fls size.toUInt64 - __fls v.toUInt64).toUInt32).toNat =
      v.toNat * 2 ^ (size.toNat.log2 - v.toNat.log2) := by
  have hK : size.toNat.log2 < 31 := (Nat.log2_lt (by omega)).mpr (by omega)
  have hb := two_pow_log2_le_lt (show v.toNat ≠ 0 by omega)
  have hK' := __fls_toNat (x := size.toUInt64) (by rw [UInt32.toNat_toUInt64]; omega)
  have hL := __fls_toNat (x := v.toUInt64) (by rw [UInt32.toNat_toUInt64]; omega)
  rw [UInt32.toNat_toUInt64] at hK' hL
  have hshift : (__fls size.toUInt64 - __fls v.toUInt64).toUInt32.toNat =
      size.toNat.log2 - v.toNat.log2 := by
    rw [UInt64.toNat_toUInt32, UInt64.toNat_sub, hK', hL]
    omega
  -- the node stays below `2 ^ (fls(size) + 1)`
  have hlt : v.toNat * 2 ^ (size.toNat.log2 - v.toNat.log2) < 2 ^ 32 := by
    have h := Nat.mul_lt_mul_of_pos_right (show v.toNat < 2 ^ (v.toNat.log2 + 1) by
      rw [Nat.pow_succ]; omega) (Nat.two_pow_pos (size.toNat.log2 - v.toNat.log2))
    rw [← Nat.pow_add, show v.toNat.log2 + 1 + (size.toNat.log2 - v.toNat.log2) =
      size.toNat.log2 + 1 by omega] at h
    exact lt_of_lt_of_le h (Nat.pow_le_pow_right (by decide) (by omega))
  rw [UInt32.toNat_shiftLeft, hshift, Nat.mod_eq_of_lt (show size.toNat.log2 - v.toNat.log2 < 32 by omega),
    Nat.shiftLeft_eq, Nat.mod_eq_of_lt hlt]

/-- `eytzinger1_next` is the node after in inorder. -/
theorem eytzinger1_next_toNat {i : UInt32} (hi : 0 < i.toNat) (hin : i.toNat ≤ size.toNat) :
    (eytzinger1_next i size).toNat = inorderNext size.toNat i.toNat := by
  have hc : (eytzinger1_right_child i).toNat = 2 * i.toNat + 1 :=
    toNat_eytzinger1_child (b := 1) (by rw [UInt32.toNat_one]; omega)
  unfold eytzinger1_next inorderNext
  by_cases hr : 2 * i.toNat + 1 ≤ size.toNat
  · -- the first node of the right subtree
    have hcK := log2_le_log2_of_le (show 2 * i.toNat + 1 ≠ 0 by omega) hr
    rw [if_pos (by rw [UInt32.le_iff_toNat_le, hc]; exact hr), if_pos hr]
    dsimp only
    rw [toNat_shiftRight_gt, toNat_shiftLeft_fls h0 hs (by rw [hc]; omega) (by rw [hc]; exact hcK),
      hc, leftmost_eq (by omega) hr]
  · -- no right subtree: up past the trailing one bits
    rw [if_neg (by rw [UInt32.le_iff_toNat_le, hc]; exact hr), if_neg hr,
      __ffs_not_toUInt64 (by omega)]
    exact shiftRight_ffs_succ_eq_subtreeSucc hi (by omega)

/-- `eytzinger1_prev` is the node before in inorder. -/
theorem eytzinger1_prev_toNat {i : UInt32} (hi : 0 < i.toNat) (hin : i.toNat ≤ size.toNat) :
    (eytzinger1_prev i size).toNat = inorderPrev size.toNat i.toNat := by
  have hc : (eytzinger1_left_child i).toNat = 2 * i.toNat :=
    toNat_eytzinger1_child (b := 0) (by rw [UInt32.toNat_zero]; omega)
  unfold eytzinger1_prev inorderPrev
  by_cases hl : 2 * i.toNat ≤ size.toNat
  · -- the last node of the left subtree
    have hc1 : (eytzinger1_left_child i + 1).toNat = 2 * i.toNat + 1 := by
      rw [UInt32.toNat_add, hc, UInt32.toNat_one]
      omega
    have hlog : (2 * i.toNat + 1).log2 = (2 * i.toNat).log2 := by
      rw [log2_two_mul_add_one (by omega), Nat.log2_two_mul (by omega)]
    have hcK := log2_le_log2_of_le (show 2 * i.toNat ≠ 0 by omega) hl
    rw [if_pos (by rw [UInt32.le_iff_toNat_le, hc]; exact hl), if_pos hl]
    dsimp only
    have hw := toNat_shiftLeft_fls h0 hs (v := eytzinger1_left_child i + 1) (by rw [hc1]; omega)
      (by rw [hc1, hlog]; exact hcK)
    rw [hc1, hlog] at hw
    have hpos : 0 < (2 * i.toNat + 1) * 2 ^ (size.toNat.log2 - (2 * i.toNat).log2) :=
      Nat.mul_pos (by omega) (Nat.two_pow_pos _)
    rw [toNat_shiftRight_gt, UInt32.toNat_sub_of_le _ _ (by rw [UInt32.le_iff_toNat_le, hw, UInt32.toNat_one]; exact hpos), hw,
      UInt32.toNat_one, rightmost_eq (by omega) hl]
  · -- no left subtree: up past the trailing zero bits
    rw [if_neg (by rw [UInt32.le_iff_toNat_le, hc]; exact hl), if_neg hl]
    exact shiftRight_ffs_eq_subtreePred hi (by omega)

/-- `eytzinger1_first` is the first node of the inorder, the first of the last level. -/
theorem eytzinger1_first_toNat : (eytzinger1_first size).toNat = leftmost size.toNat 1 := by
  have hr := rounddown_pow_of_two_toNat (n := size.toUInt64) (by rw [UInt32.toNat_toUInt64]; omega)
  have hb := two_pow_log2_le_lt (show size.toNat ≠ 0 by omega)
  rw [UInt32.toNat_toUInt64] at hr
  rw [eytzinger1_first, if_pos (fun h => by rw [h] at h0; exact absurd h0 (by decide)),
    UInt64.toNat_toUInt32, hr, leftmost_one h0]
  omega

/-- `eytzinger1_last` is the last node of the inorder, the last of the last full level. -/
theorem eytzinger1_last_toNat : (eytzinger1_last size).toNat = rightmost size.toNat 1 := by
  have h1 : (size + 1).toUInt64.toNat = size.toNat + 1 := by
    rw [UInt32.toNat_toUInt64, UInt32.toNat_add, UInt32.toNat_one]
    omega
  have hr := rounddown_pow_of_two_toNat (n := (size + 1).toUInt64) (by omega)
  have hb := two_pow_log2_le_lt (show size.toNat + 1 ≠ 0 by omega)
  rw [h1] at hr
  rw [eytzinger1_last, UInt64.toNat_toUInt32, UInt64.toNat_sub_of_le _ _
    (by rw [UInt64.le_iff_toNat_le, hr, UInt64.toNat_one]; exact Nat.one_le_two_pow), hr,
    UInt64.toNat_one, rightmost_one h0]
  omega

/-- A node of the tree as a word. -/
theorem toNat_toUInt32_of_mem {x : Nat} (hx : x ∈ inorder size.toNat 1) : x.toUInt32.toNat = x := by
  have := mem_inorder_one.mp hx
  exact toNat_toUInt32_of_lt (by omega)

/-- A node of the tree as a word is a node number in `[1, size]`. -/
theorem toUInt32_mem_range {x : Nat} (hx : x ∈ inorder size.toNat 1) :
    0 < x.toUInt32.toNat ∧ x.toUInt32.toNat ≤ size.toNat := by
  rw [toNat_toUInt32_of_mem h0 hs hx]
  exact mem_inorder_one.mp hx

/-- A node of the tree as a word is not `0`, where `eytzinger1_for_each` stops. -/
theorem toUInt32_bne_zero {x : Nat} (hx : x ∈ inorder size.toNat 1) : (x.toUInt32 != 0) = true := by
  rw [bne_iff_ne, ne_eq, ← UInt32.toNat_inj]
  exact Nat.pos_iff_ne_zero.mp (toUInt32_mem_range h0 hs hx).1

/-- `eytzinger1_next` on two neighbours of the inorder, as words. -/
theorem eytzinger1_next_of_eq {L R : List Nat} {x y : Nat} (h : inorder size.toNat 1 = L ++ x :: y :: R) :
    eytzinger1_next x.toUInt32 size = y.toUInt32 := by
  obtain ⟨hx, hy⟩ := mem_of_eq_append_cons_cons h
  obtain ⟨hx0, hxn⟩ := toUInt32_mem_range h0 hs hx
  rw [← UInt32.toNat_inj, toNat_toUInt32_of_mem h0 hs hy, eytzinger1_next_toNat h0 hs hx0 hxn,
    toNat_toUInt32_of_mem h0 hs hx, inorderNext_of_eq h]

/-- The run of `eytzinger1_for_each` from a node of the inorder: the body runs on it and on every
node after it, and the loop stops at `0`. The induction is on the nodes left after it. -/
theorem eytzinger1_for_each_run {R L : List Nat} {x : Nat} (h : inorder size.toNat 1 = L ++ x :: R)
    {fuel : Nat} (hfuel : R.length + 2 ≤ fuel) :
    whileLoop (fun s => s.1 != 0) (eytzinger1_for_each_step size) fuel
      (x.toUInt32, L.map Nat.toUInt32) = some (0, (inorder size.toNat 1).map Nat.toUInt32) := by
  have hx : x ∈ inorder size.toNat 1 := h ▸ List.mem_append_right L List.mem_cons_self
  -- the loop goes on at `x`: the condition is a node number other than `0`
  have hc : (fun s : UInt32 × List UInt32 => s.1 != 0) (x.toUInt32, L.map Nat.toUInt32) = true :=
    toUInt32_bne_zero h0 hs hx
  obtain ⟨hx0, hxn⟩ := toUInt32_mem_range h0 hs hx
  induction R generalizing L x fuel with
  | nil =>
    obtain ⟨fuel, rfl⟩ : ∃ f, fuel = f + 2 := ⟨fuel - 2, by simp at hfuel; omega⟩
    -- the last node: the body runs, and `eytzinger1_next` gives `0`
    have hnext : eytzinger1_next x.toUInt32 size = 0 := by
      rw [← UInt32.toNat_inj, eytzinger1_next_toNat h0 hs hx0 hxn, toNat_toUInt32_of_mem h0 hs hx,
        inorderNext_getLast h]
      rfl
    rw [@whileLoop_succ_of_cond _ (fun s => s.1 != 0) (eytzinger1_for_each_step size) _ hc,
      eytzinger1_for_each_step, hnext, whileLoop_succ_of_not_cond rfl, h]
    simp
  | cons y R ih =>
    obtain ⟨fuel, rfl⟩ : ∃ f, fuel = f + 1 := ⟨fuel - 1, by simp at hfuel; omega⟩
    have hy : y ∈ inorder size.toNat 1 := (mem_of_eq_append_cons_cons h).2
    obtain ⟨hy0, hyn⟩ := toUInt32_mem_range h0 hs hy
    rw [@whileLoop_succ_of_cond _ (fun s => s.1 != 0) (eytzinger1_for_each_step size) _ hc,
      eytzinger1_for_each_step]
    dsimp only
    rw [eytzinger1_next_of_eq h0 hs h,
      show L.map Nat.toUInt32 ++ [x.toUInt32] = (L ++ [x]).map Nat.toUInt32 by simp]
    exact ih (by rw [h]; simp) (by simp at hfuel ⊢; omega) hy (toUInt32_bne_zero h0 hs hy) hy0 hyn

/-- `eytzinger1_for_each` runs its body on the nodes in inorder. -/
theorem eytzinger1_for_each_eq :
    eytzinger1_for_each size = some ((inorder size.toNat 1).map Nat.toUInt32) := by
  obtain ⟨R, hR⟩ : ∃ R, inorder size.toNat 1 = [] ++ leftmost size.toNat 1 :: R := by
    have hh := head_inorder (c := 1) (by decide) (show 1 ≤ size.toNat by omega)
    cases hl : inorder size.toNat 1 with
    | nil => rw [hl] at hh; cases hh
    | cons a R =>
      rw [hl, List.head?_cons, Option.some.injEq] at hh
      exact ⟨R, by rw [hh]; rfl⟩
  -- the walk needs one step per node, within `EYTZINGER_WALK_FUEL`
  have hlen : R.length + 1 = size.toNat := by
    have := length_inorder_one size.toNat
    rw [hR] at this
    simpa using this
  have hfirst : eytzinger1_first size = (leftmost size.toNat 1).toUInt32 := by
    rw [← UInt32.toNat_inj, eytzinger1_first_toNat h0 hs,
      toNat_toUInt32_of_mem h0 hs (by rw [hR]; simp)]
  rw [eytzinger1_for_each, hfirst, show ([] : List UInt32) = ([] : List Nat).map Nat.toUInt32 from rfl,
    eytzinger1_for_each_run h0 hs hR (by rw [EYTZINGER_WALK_FUEL]; omega)]
  rfl

/-- `__inorder_to_eytzinger1` takes a position in `[1, size]` to a node, the one at that position. -/
theorem inorder_to_eytzinger1_mem {j : UInt32} (hj : 0 < j.toNat) (hjn : j.toNat ≤ size.toNat) :
    (__inorder_to_eytzinger1 j size (eytzinger1_extra size)).toNat ∈ inorder size.toNat 1 ∧
      inorderPos size.toNat (__inorder_to_eytzinger1 j size (eytzinger1_extra size)).toNat =
        j.toNat := by
  obtain ⟨x, hx, hxj⟩ := exists_inorderPos_eq hj hjn
  rw [inorder_to_eytzinger1_toNat h0 hs hx hxj.symm]
  exact ⟨hx, hxj⟩

/-- `__inorder_to_eytzinger1` undoes `__eytzinger1_to_inorder` on the nodes `[1, size]`. -/
theorem inorder_to_eytzinger1_to_inorder {i : UInt32} (hi : 0 < i.toNat) (hin : i.toNat ≤ size.toNat) :
    __inorder_to_eytzinger1 (__eytzinger1_to_inorder i size (eytzinger1_extra size)) size
      (eytzinger1_extra size) = i := by
  rw [← UInt32.toNat_inj]
  exact inorder_to_eytzinger1_toNat h0 hs (mem_inorder_one.mpr ⟨hi, hin⟩)
    (eytzinger1_to_inorder_toNat h0 hs hi hin)

/-- `__eytzinger1_to_inorder` undoes `__inorder_to_eytzinger1` on the positions `[1, size]`. -/
theorem eytzinger1_to_inorder_inorder_to {j : UInt32} (hj : 0 < j.toNat) (hjn : j.toNat ≤ size.toNat) :
    __eytzinger1_to_inorder (__inorder_to_eytzinger1 j size (eytzinger1_extra size)) size
      (eytzinger1_extra size) = j := by
  obtain ⟨hx, hpos⟩ := inorder_to_eytzinger1_mem h0 hs hj hjn
  have hxn := mem_inorder_one.mp hx
  rw [← UInt32.toNat_inj, eytzinger1_to_inorder_toNat h0 hs hxn.1 hxn.2, hpos]

/-- Along the inorder, `__eytzinger1_to_inorder` counts `1, 2, …, size`. -/
theorem map_eytzinger1_to_inorder :
    (inorder size.toNat 1).map
      (fun x => (__eytzinger1_to_inorder x.toUInt32 size (eytzinger1_extra size)).toNat) =
      List.range' 1 size.toNat := by
  rw [← map_inorderPos_inorder size.toNat]
  -- each node maps to its inorder position, and those count up
  refine List.map_congr_left fun x hx => ?_
  obtain ⟨hx0, hxn⟩ := toUInt32_mem_range h0 hs hx
  rw [eytzinger1_to_inorder_toNat h0 hs hx0 hxn, toNat_toUInt32_of_mem h0 hs hx]

/-- `eytzinger1_prev` on two neighbours of the inorder, as words. -/
theorem eytzinger1_prev_of_eq {L R : List Nat} {x y : Nat} (h : inorder size.toNat 1 = L ++ x :: y :: R) :
    eytzinger1_prev y.toUInt32 size = x.toUInt32 := by
  obtain ⟨hx, hy⟩ := mem_of_eq_append_cons_cons h
  obtain ⟨hy0, hyn⟩ := toUInt32_mem_range h0 hs hy
  rw [← UInt32.toNat_inj, toNat_toUInt32_of_mem h0 hs hx, eytzinger1_prev_toNat h0 hs hy0 hyn,
    toNat_toUInt32_of_mem h0 hs hy, inorderPrev_of_eq h]

/-- `eytzinger1_first` is the head of the inorder. -/
theorem head_inorder_eytzinger1_first :
    (inorder size.toNat 1).head? = some (eytzinger1_first size).toNat := by
  rw [eytzinger1_first_toNat h0 hs, head_inorder (by decide) (by omega)]

/-- `eytzinger1_last` is the last node of the inorder. -/
theorem getLast_inorder_eytzinger1_last :
    (inorder size.toNat 1).getLast? = some (eytzinger1_last size).toNat := by
  rw [eytzinger1_last_toNat h0 hs, getLast_inorder (by decide) (by omega)]

/-- Past the last node `eytzinger1_next` gives `0`. -/
theorem eytzinger1_next_last : eytzinger1_next (eytzinger1_last size) size = 0 := by
  obtain ⟨L, hL⟩ := List.getLast?_eq_some_iff.mp (getLast_inorder_eytzinger1_last h0 hs)
  have hx := mem_inorder_one.mp (hL ▸ List.mem_append_right L (List.mem_singleton_self _))
  rw [← UInt32.toNat_inj, eytzinger1_next_toNat h0 hs hx.1 hx.2, inorderNext_getLast hL]
  rfl

/-- Before the first node `eytzinger1_prev` gives `0`. -/
theorem eytzinger1_prev_first : eytzinger1_prev (eytzinger1_first size) size = 0 := by
  obtain ⟨R, hR⟩ := List.head?_eq_some_iff.mp (head_inorder_eytzinger1_first h0 hs)
  have hx := mem_inorder_one.mp (hR ▸ List.mem_cons_self)
  rw [← UInt32.toNat_inj, eytzinger1_prev_toNat h0 hs hx.1 hx.2, inorderPrev_head hR]
  rfl

/-- The nodes `eytzinger1_for_each` visits are `1..size`, each once. -/
theorem eytzinger1_for_each_perm {l : List UInt32} (h : eytzinger1_for_each size = some l) :
    (l.map UInt32.toNat).Perm (List.range' 1 size.toNat) := by
  rw [eytzinger1_for_each_eq h0 hs, Option.some.injEq] at h
  -- the visited words read back as the inorder's nodes
  have hl : l.map UInt32.toNat = inorder size.toNat 1 := by
    rw [← h, List.map_map]
    exact (List.map_congr_left fun x hx => toNat_toUInt32_of_mem h0 hs hx).trans (List.map_id' _)
  rw [hl]
  exact inorder_one_perm size.toNat

end Size

/-! ### Zero-based indexing -/

/-- `eytzinger0_for_each` is `eytzinger1_for_each` less one: its state is the one-based loop's
with every node one less, and it stops at `-1` where that stops at `0`. -/
theorem eytzinger0_for_each_eq_map (size : UInt32) :
    eytzinger0_for_each size = (eytzinger1_for_each size).map (List.map (· - 1)) := by
  let f : UInt32 × List UInt32 → UInt32 × List UInt32 := fun s => (s.1 - 1, s.2.map (· - 1))
  have hcond : ∀ s : UInt32 × List UInt32, True →
      ((f s).1 != (-1 : Int32).toUInt32) = (s.1 != 0) := by
    intro s _
    have hm : (-1 : Int32).toUInt32 = 0 - 1 := by decide
    have hiff : s.1 - 1 = 0 - 1 ↔ s.1 = 0 :=
      ⟨fun h => by rw [← UInt32.sub_add_cancel s.1 1, h, UInt32.sub_add_cancel], fun h => by rw [h]⟩
    rw [hm, Bool.eq_iff_iff, bne_iff_ne, bne_iff_ne, ne_eq, ne_eq, hiff]
  -- one step of the zero-based loop is the one-based step, shifted down
  have hstep : ∀ s : UInt32 × List UInt32, True → (s.1 != 0) = true →
      eytzinger0_for_each_step size (f s) = f (eytzinger1_for_each_step size s) ∧ True := by
    intro s _ _
    refine ⟨?_, trivial⟩
    simp only [f, eytzinger0_for_each_step, eytzinger1_for_each_step, eytzinger0_next,
      UInt32.sub_add_cancel, List.map_append, List.map_cons, List.map_nil]
  unfold eytzinger0_for_each eytzinger1_for_each
  rw [show (eytzinger0_first size, ([] : List UInt32)) = f (eytzinger1_first size, []) from rfl,
    @whileLoop_map _ (fun s => s.1 != 0) (eytzinger1_for_each_step size) _
      (fun s => s.1 != (-1 : Int32).toUInt32) (eytzinger0_for_each_step size) f (fun _ => True)
      hcond hstep _ _ trivial, Option.map_map, Option.map_map]
  rfl

section Size0

variable {size : UInt32} (h0 : 0 < size.toNat) (hs : size.toNat + 1 < 2 ^ 31)
include h0 hs

/-- A zero-based node plus one does not wrap. -/
theorem toNat_add_one_of_lt_size {i : UInt32} (hi : i.toNat < size.toNat) : (i + 1).toNat = i.toNat + 1 := by
  rw [UInt32.toNat_add, UInt32.toNat_one]
  omega

/-- `__eytzinger0_to_inorder` gives node `i` the position of node `i + 1`, less one. -/
theorem eytzinger0_to_inorder_toNat {i : UInt32} (hi : i.toNat < size.toNat) :
    (__eytzinger0_to_inorder i size (eytzinger0_extra size)).toNat =
      inorderPos size.toNat (i.toNat + 1) - 1 := by
  have h1 := toNat_add_one_of_lt_size h0 hs hi
  have hpos := inorderPos_mem (mem_inorder_one.mpr (show 0 < i.toNat + 1 ∧ i.toNat + 1 ≤ size.toNat
    by omega))
  have h := eytzinger1_to_inorder_toNat h0 hs (i := i + 1) (by omega) (by omega)
  rw [h1] at h
  rw [__eytzinger0_to_inorder, eytzinger0_extra, UInt32.toNat_sub_of_le _ _
    (by rw [UInt32.le_iff_toNat_le, h, UInt32.toNat_one]; omega), h, UInt32.toNat_one]

/-- `__eytzinger0_to_inorder` takes a node below `size` to a position below `size`. -/
theorem eytzinger0_to_inorder_lt {i : UInt32} (hi : i.toNat < size.toNat) :
    (__eytzinger0_to_inorder i size (eytzinger0_extra size)).toNat < size.toNat := by
  have hpos := inorderPos_mem (mem_inorder_one.mpr (show 0 < i.toNat + 1 ∧ i.toNat + 1 ≤ size.toNat
    by omega))
  rw [eytzinger0_to_inorder_toNat h0 hs hi]
  omega

/-- `__inorder_to_eytzinger0` takes a position below `size` to a node below `size`. -/
theorem inorder_to_eytzinger0_lt {j : UInt32} (hj : j.toNat < size.toNat) :
    (__inorder_to_eytzinger0 j size (eytzinger0_extra size)).toNat < size.toNat := by
  have h1 := toNat_add_one_of_lt_size h0 hs hj
  have hx := mem_inorder_one.mp (inorder_to_eytzinger1_mem h0 hs (j := j + 1) (by omega)
    (by omega)).1
  -- the one-based node is in `[1, size]`, so one less is below `size`
  rw [__inorder_to_eytzinger0, eytzinger0_extra, UInt32.toNat_sub_of_le _ _
    (by rw [UInt32.le_iff_toNat_le, UInt32.toNat_one]; omega), UInt32.toNat_one]
  omega

/-- `__inorder_to_eytzinger0` undoes `__eytzinger0_to_inorder` on the nodes below `size`. -/
theorem inorder_to_eytzinger0_to_inorder {i : UInt32} (hi : i.toNat < size.toNat) :
    __inorder_to_eytzinger0 (__eytzinger0_to_inorder i size (eytzinger0_extra size)) size
      (eytzinger0_extra size) = i := by
  have h1 := toNat_add_one_of_lt_size h0 hs hi
  rw [__inorder_to_eytzinger0, __eytzinger0_to_inorder, eytzinger0_extra, UInt32.sub_add_cancel,
    inorder_to_eytzinger1_to_inorder h0 hs (by omega) (by omega), UInt32.add_sub_cancel]

/-- `__eytzinger0_to_inorder` undoes `__inorder_to_eytzinger0` on the positions below `size`. -/
theorem eytzinger0_to_inorder_inorder_to {j : UInt32} (hj : j.toNat < size.toNat) :
    __eytzinger0_to_inorder (__inorder_to_eytzinger0 j size (eytzinger0_extra size)) size
      (eytzinger0_extra size) = j := by
  have h1 := toNat_add_one_of_lt_size h0 hs hj
  rw [__inorder_to_eytzinger0, __eytzinger0_to_inorder, eytzinger0_extra, UInt32.sub_add_cancel,
    eytzinger1_to_inorder_inorder_to h0 hs (by omega) (by omega), UInt32.add_sub_cancel]

/-- Along the inorder, `__eytzinger0_to_inorder` on the nodes less one counts `0, 1, …`. -/
theorem map_eytzinger0_to_inorder :
    (inorder size.toNat 1).map
      (fun x => (__eytzinger0_to_inorder (x - 1).toUInt32 size (eytzinger0_extra size)).toNat) =
      List.range size.toNat := by
  have hr : (List.range' 1 size.toNat).map (· - 1) = List.range size.toNat := by
    rw [List.map_sub_range' le_rfl, List.range_eq_range']
  rw [← hr, ← map_inorderPos_inorder size.toNat, List.map_map]
  -- node `x` less one has position `inorderPos x` less one
  refine List.map_congr_left fun x hx => ?_
  have hxn := mem_inorder_one.mp hx
  have h1 := toNat_toUInt32_of_lt (x := x - 1) (by omega)
  rw [eytzinger0_to_inorder_toNat h0 hs (by omega), h1, Nat.sub_add_cancel hxn.1]
  rfl

/-- `eytzinger0_next` on two neighbours of the inorder, less one. -/
theorem eytzinger0_next_of_eq {L R : List Nat} {x y : Nat} (h : inorder size.toNat 1 = L ++ x :: y :: R) :
    eytzinger0_next (x - 1).toUInt32 size = (y - 1).toUInt32 := by
  have hx := mem_inorder_one.mp (mem_of_eq_append_cons_cons h).1
  have hy := mem_inorder_one.mp (mem_of_eq_append_cons_cons h).2
  rw [eytzinger0_next, toUInt32_sub_one_add_one hx.1 (by omega), eytzinger1_next_of_eq h0 hs h,
    toUInt32_sub_one hy.1 (by omega)]

/-- `eytzinger0_prev` on two neighbours of the inorder, less one. -/
theorem eytzinger0_prev_of_eq {L R : List Nat} {x y : Nat} (h : inorder size.toNat 1 = L ++ x :: y :: R) :
    eytzinger0_prev (y - 1).toUInt32 size = (x - 1).toUInt32 := by
  have hx := mem_inorder_one.mp (mem_of_eq_append_cons_cons h).1
  have hy := mem_inorder_one.mp (mem_of_eq_append_cons_cons h).2
  rw [eytzinger0_prev, toUInt32_sub_one_add_one hy.1 (by omega), eytzinger1_prev_of_eq h0 hs h,
    toUInt32_sub_one hx.1 (by omega)]

/-- `eytzinger0_first` plus one is the head of the inorder. -/
theorem head_inorder_eytzinger0_first :
    (inorder size.toNat 1).head? = some ((eytzinger0_first size).toNat + 1) := by
  have h := head_inorder_eytzinger1_first h0 hs
  have hx := mem_inorder_one.mp (List.mem_of_mem_head? h)
  rw [h, eytzinger0_first, UInt32.toNat_sub_of_le _ _
    (by rw [UInt32.le_iff_toNat_le, UInt32.toNat_one]; omega), UInt32.toNat_one,
    Nat.sub_add_cancel hx.1]

/-- `eytzinger0_last` plus one is the last node of the inorder. -/
theorem getLast_inorder_eytzinger0_last :
    (inorder size.toNat 1).getLast? = some ((eytzinger0_last size).toNat + 1) := by
  have h := getLast_inorder_eytzinger1_last h0 hs
  have hx := mem_inorder_one.mp (List.mem_of_getLast? h)
  rw [h, eytzinger0_last, UInt32.toNat_sub_of_le _ _
    (by rw [UInt32.le_iff_toNat_le, UInt32.toNat_one]; omega), UInt32.toNat_one,
    Nat.sub_add_cancel hx.1]

/-- Past the last node `eytzinger0_next` gives `-1`. -/
theorem eytzinger0_next_last : eytzinger0_next (eytzinger0_last size) size = (-1 : Int32).toUInt32 := by
  rw [eytzinger0_next, eytzinger0_last, UInt32.sub_add_cancel, eytzinger1_next_last h0 hs]
  decide

/-- Before the first node `eytzinger0_prev` gives `-1`. -/
theorem eytzinger0_prev_first :
    eytzinger0_prev (eytzinger0_first size) size = (-1 : Int32).toUInt32 := by
  rw [eytzinger0_prev, eytzinger0_first, UInt32.sub_add_cancel, eytzinger1_prev_first h0 hs]
  decide

/-- `eytzinger0_for_each` runs its body on the nodes, less one, in inorder. -/
theorem eytzinger0_for_each_eq :
    eytzinger0_for_each size = some ((inorder size.toNat 1).map fun x => (x - 1).toUInt32) := by
  rw [eytzinger0_for_each_eq_map, eytzinger1_for_each_eq h0 hs, Option.map_some, List.map_map]
  refine congrArg some (List.map_congr_left fun x hx => ?_)
  have hxn := mem_inorder_one.mp hx
  exact toUInt32_sub_one hxn.1 (by omega)

/-- The nodes `eytzinger0_for_each` visits are `0..size - 1`, each once. -/
theorem eytzinger0_for_each_perm {l : List UInt32} (h : eytzinger0_for_each size = some l) :
    (l.map UInt32.toNat).Perm (List.range size.toNat) := by
  rw [eytzinger0_for_each_eq h0 hs, Option.some.injEq] at h
  have hl : l.map UInt32.toNat = (inorder size.toNat 1).map (· - 1) := by
    rw [← h, List.map_map]
    refine List.map_congr_left fun x hx => ?_
    have hxn := mem_inorder_one.mp hx
    exact toNat_toUInt32_of_lt (by omega)
  -- the one-based nodes less one are `0..size - 1`
  have hr : (List.range' 1 size.toNat).map (· - 1) = List.range size.toNat := by
    rw [List.map_sub_range' le_rfl, List.range_eq_range']
  rw [hl, ← hr]
  exact (inorder_one_perm size.toNat).map _

end Size0

/-! ### The inorder walk -/

/-- What `util/eytzinger.h` computes on the tree of `size` nodes, numbered from one: the
conversions are inverse bijections of `[1, size]` that give each node its position in the
inorder (`inorder size 1`, children `2 * i` and `2 * i + 1`); `first`, `last`, `next` and `prev`
walk that inorder, with `0` past either end, and `eytzinger1_for_each` visits the nodes in it,
each once. The zero-based functions do the same on the nodes less one, with `-1` for none. -/
structure EytzingerInorderSpec (size : UInt32) : Prop where
  to_inorder_mem : ∀ i : UInt32, 0 < i.toNat → i.toNat ≤ size.toNat →
    0 < (__eytzinger1_to_inorder i size (eytzinger1_extra size)).toNat ∧
      (__eytzinger1_to_inorder i size (eytzinger1_extra size)).toNat ≤ size.toNat
  inorder_to_mem : ∀ j : UInt32, 0 < j.toNat → j.toNat ≤ size.toNat →
    0 < (__inorder_to_eytzinger1 j size (eytzinger1_extra size)).toNat ∧
      (__inorder_to_eytzinger1 j size (eytzinger1_extra size)).toNat ≤ size.toNat
  inorder_to_to_inorder : ∀ i : UInt32, 0 < i.toNat → i.toNat ≤ size.toNat →
    __inorder_to_eytzinger1 (__eytzinger1_to_inorder i size (eytzinger1_extra size)) size
      (eytzinger1_extra size) = i
  to_inorder_inorder_to : ∀ j : UInt32, 0 < j.toNat → j.toNat ≤ size.toNat →
    __eytzinger1_to_inorder (__inorder_to_eytzinger1 j size (eytzinger1_extra size)) size
      (eytzinger1_extra size) = j
  to_inorder_position : (inorder size.toNat 1).map
      (fun x => (__eytzinger1_to_inorder x.toUInt32 size (eytzinger1_extra size)).toNat) =
    List.range' 1 size.toNat
  first : (inorder size.toNat 1).head? = some (eytzinger1_first size).toNat
  last : (inorder size.toNat 1).getLast? = some (eytzinger1_last size).toNat
  next : ∀ L x y R, inorder size.toNat 1 = L ++ x :: y :: R →
    eytzinger1_next x.toUInt32 size = y.toUInt32
  prev : ∀ L x y R, inorder size.toNat 1 = L ++ x :: y :: R →
    eytzinger1_prev y.toUInt32 size = x.toUInt32
  next_last : eytzinger1_next (eytzinger1_last size) size = 0
  prev_first : eytzinger1_prev (eytzinger1_first size) size = 0
  for_each : eytzinger1_for_each size = some ((inorder size.toNat 1).map Nat.toUInt32)
  for_each_perm : ∀ l, eytzinger1_for_each size = some l →
    (l.map UInt32.toNat).Perm (List.range' 1 size.toNat)
  to_inorder0_lt : ∀ i : UInt32, i.toNat < size.toNat →
    (__eytzinger0_to_inorder i size (eytzinger0_extra size)).toNat < size.toNat
  inorder_to0_lt : ∀ j : UInt32, j.toNat < size.toNat →
    (__inorder_to_eytzinger0 j size (eytzinger0_extra size)).toNat < size.toNat
  inorder_to_to_inorder0 : ∀ i : UInt32, i.toNat < size.toNat →
    __inorder_to_eytzinger0 (__eytzinger0_to_inorder i size (eytzinger0_extra size)) size
      (eytzinger0_extra size) = i
  to_inorder_inorder_to0 : ∀ j : UInt32, j.toNat < size.toNat →
    __eytzinger0_to_inorder (__inorder_to_eytzinger0 j size (eytzinger0_extra size)) size
      (eytzinger0_extra size) = j
  to_inorder0_position : (inorder size.toNat 1).map
      (fun x => (__eytzinger0_to_inorder (x - 1).toUInt32 size (eytzinger0_extra size)).toNat) =
    List.range size.toNat
  first0 : (inorder size.toNat 1).head? = some ((eytzinger0_first size).toNat + 1)
  last0 : (inorder size.toNat 1).getLast? = some ((eytzinger0_last size).toNat + 1)
  next0 : ∀ L x y R, inorder size.toNat 1 = L ++ x :: y :: R →
    eytzinger0_next (x - 1).toUInt32 size = (y - 1).toUInt32
  prev0 : ∀ L x y R, inorder size.toNat 1 = L ++ x :: y :: R →
    eytzinger0_prev (y - 1).toUInt32 size = (x - 1).toUInt32
  next0_last : eytzinger0_next (eytzinger0_last size) size = (-1 : Int32).toUInt32
  prev0_first : eytzinger0_prev (eytzinger0_first size) size = (-1 : Int32).toUInt32
  for_each0 : eytzinger0_for_each size = some ((inorder size.toNat 1).map fun x => (x - 1).toUInt32)
  for_each0_perm : ∀ l, eytzinger0_for_each size = some l →
    (l.map UInt32.toNat).Perm (List.range size.toNat)

/-- For every size from `1` while `size + 1` stays below `2 ^ 31` the index arithmetic of
`util/eytzinger.h` walks the tree in inorder, as `EytzingerInorderSpec` says. -/
theorem eytzinger_inorder_spec (size : UInt32) (h0 : 0 < size.toNat) (hs : size.toNat + 1 < 2 ^ 31) :
    EytzingerInorderSpec size where
  to_inorder_mem i hi hin := by
    have := inorderPos_mem (mem_inorder_one.mpr ⟨hi, hin⟩)
    rw [eytzinger1_to_inorder_toNat h0 hs hi hin]
    omega
  inorder_to_mem j hj hjn := mem_inorder_one.mp (inorder_to_eytzinger1_mem h0 hs hj hjn).1
  inorder_to_to_inorder i hi hin := inorder_to_eytzinger1_to_inorder h0 hs hi hin
  to_inorder_inorder_to j hj hjn := eytzinger1_to_inorder_inorder_to h0 hs hj hjn
  to_inorder_position := map_eytzinger1_to_inorder h0 hs
  first := head_inorder_eytzinger1_first h0 hs
  last := getLast_inorder_eytzinger1_last h0 hs
  next _ _ _ _ h := eytzinger1_next_of_eq h0 hs h
  prev _ _ _ _ h := eytzinger1_prev_of_eq h0 hs h
  next_last := eytzinger1_next_last h0 hs
  prev_first := eytzinger1_prev_first h0 hs
  for_each := eytzinger1_for_each_eq h0 hs
  for_each_perm _ h := eytzinger1_for_each_perm h0 hs h
  to_inorder0_lt _ hi := eytzinger0_to_inorder_lt h0 hs hi
  inorder_to0_lt _ hj := inorder_to_eytzinger0_lt h0 hs hj
  inorder_to_to_inorder0 _ hi := inorder_to_eytzinger0_to_inorder h0 hs hi
  to_inorder_inorder_to0 _ hj := eytzinger0_to_inorder_inorder_to h0 hs hj
  to_inorder0_position := map_eytzinger0_to_inorder h0 hs
  first0 := head_inorder_eytzinger0_first h0 hs
  last0 := getLast_inorder_eytzinger0_last h0 hs
  next0 _ _ _ _ h := eytzinger0_next_of_eq h0 hs h
  prev0 _ _ _ _ h := eytzinger0_prev_of_eq h0 hs h
  next0_last := eytzinger0_next_last h0 hs
  prev0_first := eytzinger0_prev_first h0 hs
  for_each0 := eytzinger0_for_each_eq h0 hs
  for_each0_perm _ h := eytzinger0_for_each_perm h0 hs h

/-- A tree of ten nodes, whose last level is not full. -/
theorem eytzinger_inorder_spec_ten :
    0 < (10 : UInt32).toNat ∧ (10 : UInt32).toNat + 1 < 2 ^ 31 ∧ EytzingerInorderSpec 10 :=
  ⟨by decide, by decide, eytzinger_inorder_spec 10 (by decide) (by decide)⟩

/-- The bound is where the arithmetic stops working. For `2 ^ 31 - 1` nodes the last node is
`2 ^ 31 - 1`, whose `ffz + 1` is `32`: the shift of `eytzinger1_next` by it is undefined in C, and
taken modulo 32 it leaves the node where it is, so the walk does not end. For `2 ^ 31` nodes the
`int` of the sign-bit trick wraps: node `2 ^ 31 - 1` goes to `2 ^ 32 - 2`, outside `[1, size]`. -/
theorem eytzinger_inorder_spec_fails_past_bound :
    ¬ EytzingerInorderSpec (2 ^ 31 - 1) ∧ ¬ EytzingerInorderSpec (2 ^ 31) := by
  constructor
  · intro h
    exact absurd h.next_last (by decide)
  · intro h
    exact absurd (h.to_inorder_mem (2 ^ 31 - 1) (by decide) (by decide)).2 (by decide)

end Bcachefs.Proofs.Util
