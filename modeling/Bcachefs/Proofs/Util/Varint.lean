import Bcachefs.Util.Varint
import Bcachefs.Bits.Shift
import Bcachefs.Proofs.Btree.PackStream

/-!
# The varint routines decode what they encode

The length of an encoding is unary-coded in the low bits of its first byte. Below nine bytes
the encoder stores the word `v << bytes | (2 ^ (bytes - 1) - 1)` (`varint_word_toNat`), whose
lowest clear bit is bit `bytes - 1`, so the decoder's `ffz` reads the length back
(`ffz_toNat_of_mod`); the word is below `2 ^ (8 * bytes)`, so the stored bytes hold all of it.
Nine bytes start with `0xff`, whose `ffz` is `8`.

* `bch2_varint_encode_bytes`: the count the encoders return, from `fls64 v`.
* `bch2_varint_decode_encode`: decoding an encoding gives the count and the value back when
  `end` leaves room for the count, and an error otherwise.
* `bch2_varint_encode_fast_agrees`: the fast encoder returns the same count and writes the
  same bytes in front of it.
* `bch2_varint_decode_fast_eq_decode`: the fast decoder returns what the decoder does on
  every buffer, through the mask lemma `leVal_eight_masked`.
-/

set_option autoImplicit false

namespace Bcachefs.Proofs.Util

open Bcachefs Bcachefs.Bits

/-! ### Bit counts -/

/-- `ctz_bits` stops at the first set bit. -/
theorem ctz_bits_eq_of_testBit {w x k : Nat} (hk : k < w) (hlow : ∀ i < k, x.testBit i = false)
    (hbit : x.testBit k = true) : ctz_bits w x = k := by
  induction k generalizing w x with
  | zero =>
    obtain ⟨w, rfl⟩ : ∃ w', w = w' + 1 := ⟨w - 1, by omega⟩
    rw [ctz_bits, if_pos (Nat.mod_two_eq_one_iff_testBit_zero.2 hbit)]
  | succ k ih =>
    obtain ⟨w, rfl⟩ : ∃ w', w = w' + 1 := ⟨w - 1, by omega⟩
    -- bit `0` is clear: `x` is even, and the count goes on from `x / 2`
    have heven : ¬ x % 2 = 1 := by
      rw [Nat.mod_two_eq_one_iff_testBit_zero, hlow 0 (Nat.succ_pos k)]
      decide
    rw [ctz_bits, if_neg heven]
    have hrest : ctz_bits w (x / 2) = k := by
      refine ih (by omega) (fun i hi => ?_) ?_
      · rw [← Nat.testBit_succ]
        exact hlow (i + 1) (by omega)
      · rw [← Nat.testBit_succ]
        exact hbit
    rw [hrest]

/-- The complement of a word has the other bits. -/
theorem testBit_toNat_not (x : UInt64) {i : Nat} (hi : i < 64) :
    (~~~x).toNat.testBit i = !x.toNat.testBit i := by
  rw [← UInt64.toNat_toBitVec, UInt64.toBitVec_not, BitVec.testBit_toNat, BitVec.getLsbD_not,
    ← BitVec.testBit_toNat, UInt64.toNat_toBitVec]
  simp [hi]

/-- `ffz` of a word whose low `k + 1` bits are `k` ones over a zero is `k`. -/
theorem ffz_toNat_of_mod {x : UInt64} {k : Nat} (hk : k < 64)
    (h : x.toNat % 2 ^ (k + 1) = 2 ^ k - 1) : (ffz x).toNat = k := by
  have hbits : ∀ i ≤ k, x.toNat.testBit i = decide (i < k) := by
    intro i hi
    have hmod := Nat.testBit_mod_two_pow x.toNat (k + 1) i
    rw [h, Nat.testBit_two_pow_sub_one] at hmod
    simpa [show i < k + 1 by omega] using hmod.symm
  -- the complement has its first set bit at `k`
  have hctz : ctz_bits 64 (~~~x).toNat = k := by
    refine ctz_bits_eq_of_testBit hk (fun i hi => ?_) ?_
    · rw [testBit_toNat_not x (by omega), hbits i hi.le]
      simp [hi]
    · rw [testBit_toNat_not x hk, hbits k le_rfl]
      simp
  rw [ffz, __ffs, __builtin_ctzl, hctz, toNat_toUInt64_of_lt hk]

/-- Setting bit `0` makes the bit count at least one and changes nothing else. -/
theorem fls64_or_one (v : UInt64) : fls64 (v ||| 1) = max (fls64 v) 1 := by
  -- compare the two by their upper bounds: `v ||| 1` fits `c` bits exactly when `v` and `1` do
  apply eq_of_forall_ge_iff
  intro c
  have hone : (1 : UInt64).toNat = 1 := rfl
  rw [Btree.fls64_le_iff, max_le_iff, Btree.fls64_le_iff, UInt64.toNat_or, hone]
  constructor
  · intro h
    have hc : 1 < 2 ^ c := lt_of_le_of_lt Nat.right_le_or h
    exact ⟨lt_of_le_of_lt Nat.left_le_or h, Nat.pos_of_ne_zero (Nat.one_lt_two_pow_iff.1 hc)⟩
  · rintro ⟨hv, hc⟩
    exact Nat.or_lt_two_pow hv (Nat.one_lt_two_pow (by omega))

/-! ### The encoded word -/

/-- The byte count both encoders compute. -/
def varint_bytes (v : UInt64) : Nat := DIV_ROUND_UP (fls64 (v ||| 1)) 7

/-- The word both encoders store below nine bytes. -/
def varint_word (v : UInt64) (bytes : Nat) : UInt64 :=
  (v <<< bytes.toUInt64) ||| (~~~((~~~(0 : UInt32)) <<< (bytes - 1).toUInt32)).toUInt64

/-- The byte count is a byte for each seven bits of the value, at least one. -/
theorem varint_bytes_eq (v : UInt64) : varint_bytes v = (max (fls64 v) 1 + 6) / 7 := by
  rw [varint_bytes, DIV_ROUND_UP, fls64_or_one]
  omega

/-- Every value takes at least one byte. -/
theorem one_le_varint_bytes (v : UInt64) : 1 ≤ varint_bytes v := by
  rw [varint_bytes_eq]
  omega

/-- The value fits the `7 * bytes` bits above the length. -/
theorem toNat_lt_varint_bytes (v : UInt64) : v.toNat < 2 ^ (7 * varint_bytes v) := by
  rw [← Btree.fls64_le_iff, varint_bytes_eq]
  omega

/-- `bch2_varint_encode` in the terms above: the word over `varint_bytes v` bytes, or `0xff` and the
value. -/
theorem bch2_varint_encode_eq (out : Int → UInt8) (v : UInt64) :
    bch2_varint_encode out v =
      if varint_bytes v < 9 then
        (storeLe out 0 (varint_bytes v) (varint_word v (varint_bytes v)).toNat, varint_bytes v)
      else (storeLe (storeLe out 0 1 255) 1 8 v.toNat, 9) := rfl

/-- `bch2_varint_encode_fast` in the terms above: the same word, stored as all eight bytes. -/
theorem bch2_varint_encode_fast_eq (out : Int → UInt8) (v : UInt64) :
    bch2_varint_encode_fast out v =
      if varint_bytes v < 9 then
        (storeLe out 0 8 (varint_word v (varint_bytes v)).toNat, varint_bytes v)
      else (storeLe (storeLe out 0 1 255) 1 8 v.toNat, 9) := rfl

/-- The `n - 1` ones of the length fit below bit `n`. -/
theorem two_pow_pred_sub_one_lt {n : Nat} (h1 : 1 ≤ n) : 2 ^ (n - 1) - 1 < 2 ^ n := by
  have hpow : 2 ^ n = 2 * 2 ^ (n - 1) := by
    rw [← pow_succ']
    congr 1
    omega
  have hpos := Nat.two_pow_pos (n - 1)
  omega

section Word

variable {v : UInt64} {n : Nat} (h1 : 1 ≤ n) (h8 : n ≤ 8) (hv : v.toNat < 2 ^ (7 * n))
include h1 h8 hv

/-- Below nine bytes the word is the value over `n - 1` ones and a zero. -/
theorem varint_word_toNat : (varint_word v n).toNat = v.toNat * 2 ^ n + (2 ^ (n - 1) - 1) := by
  have hprod : v.toNat * 2 ^ n < 2 ^ 64 := calc
    v.toNat * 2 ^ n < 2 ^ (7 * n) * 2 ^ n := Nat.mul_lt_mul_of_pos_right hv (Nat.two_pow_pos n)
    _ = 2 ^ (8 * n) := by rw [← pow_add]; ring_nf
    _ ≤ 2 ^ 64 := Nat.pow_le_pow_right (by norm_num) (by omega)
  have hshift : (v <<< n.toUInt64).toNat = v.toNat * 2 ^ n := by
    rw [toNat_shiftLeft_of_lt v (by omega), Nat.mod_eq_of_lt hprod]
  have hmask := toNat_toUInt64_not_shiftLeft32 (a := n - 1) (by omega)
  -- the value's bits start at bit `n`, above the mask's
  have hdisj : (v <<< n.toUInt64).toNat % 2 ^ n = 0 := by
    rw [hshift]
    exact Nat.mul_mod_left _ _
  have hlow : (~~~((~~~(0 : UInt32)) <<< (n - 1).toUInt32)).toUInt64.toNat < 2 ^ n := by
    rw [hmask]
    exact two_pow_pred_sub_one_lt h1
  rw [varint_word, toNat_or_of_disjoint _ _ hdisj hlow, hshift, hmask]

/-- The word fits the `n` bytes stored. -/
theorem varint_word_lt : (varint_word v n).toNat < 2 ^ (8 * n) := by
  have hpow : 2 ^ (7 * n) * 2 ^ n = 2 ^ (8 * n) := by
    rw [← pow_add]
    ring_nf
  have hle : (v.toNat + 1) * 2 ^ n ≤ 2 ^ (7 * n) * 2 ^ n := Nat.mul_le_mul_right _ hv
  have hlow := two_pow_pred_sub_one_lt h1
  rw [varint_word_toNat h1 h8 hv]
  -- the value's bits end below bit `8 * n`, with the length's below bit `n`
  rw [add_one_mul, hpow] at hle
  omega

/-- The first byte of the word: `n - 1` ones over a zero. -/
theorem varint_word_first_byte :
    (varint_word v n).toNat % 256 % 2 ^ n = 2 ^ (n - 1) - 1 := by
  have hdvd : 2 ^ n ∣ 256 := (Nat.pow_dvd_pow 2 h8).trans (by norm_num)
  rw [Nat.mod_mod_of_dvd _ hdvd, varint_word_toNat h1 h8 hv, Nat.mul_comm, Nat.mul_add_mod,
    Nat.mod_eq_of_lt (two_pow_pred_sub_one_lt h1)]

end Word

/-! ### The count -/

/-- The count the encoders return: nine above 56 bits, else a byte for each seven bits. -/
theorem bch2_varint_encode_bytes (out : Int → UInt8) (v : UInt64) :
    (bch2_varint_encode out v).2 = if 56 < fls64 v then 9 else (max (fls64 v) 1 + 6) / 7 := by
  rw [bch2_varint_encode_eq, apply_ite Prod.snd]
  have hb := varint_bytes_eq v
  -- nine bytes exactly when the value has more than 56 bits
  by_cases h56 : 56 < fls64 v
  · rw [if_neg (by omega), if_pos h56]
  · rw [if_pos (by omega), if_neg h56, ← hb]

/-! ### Decoding -/

/-- The first byte a store leaves at its own address. -/
theorem storeLe_zero_toNat (m : Int → UInt8) {n : Nat} (hn : 1 ≤ n) (w : Nat) :
    (storeLe m 0 n w 0).toNat = w % 256 := by
  have hin : (0 : Int) ≤ 0 ∧ (0 : Int) < 0 + n := ⟨le_rfl, by omega⟩
  simp only [storeLe, if_pos hin, sub_self, Int.toNat_zero, pow_zero, Nat.div_one,
    UInt8.toNat_ofNat']

/-- `bch2_varint_decode` once the length its first byte announces is known: a read of `in` at
or past `end` takes one byte, which is past `end` too. -/
theorem bch2_varint_decode_eq {input : Int → UInt8} {e : Int} {n : Nat}
    (hn : (ffz (input 0).toUInt64).toNat + 1 = n) :
    bch2_varint_decode input e =
      if e < n then none
      else if n < 9 then some (n, (leVal input 0 n).toUInt64 >>> n.toUInt64)
      else some (n, (leVal input 1 8).toUInt64) := by
  unfold bch2_varint_decode
  dsimp only
  -- an end at or below the start: the count is taken as one byte, which is past the end
  by_cases he : 0 < e
  · rw [if_pos he, hn]
  · have hlt : e < (n : Int) := by omega
    rw [if_neg he, if_pos (by push_cast; omega), if_pos hlt]

/-- A failed bound check, as the claim about the end reads it. -/
theorem ite_lt_none {α : Type} (e : Int) (n : Nat) (a : α) :
    (if e < n then none else some a) = if (n : Int) ≤ e then some a else none := by
  by_cases he : e < n
  · rw [if_pos he, if_neg (by omega)]
  · rw [if_neg he, if_pos (by omega)]

/-- Decoding an encoding: the count and the value when `end` leaves room, else an error. -/
theorem bch2_varint_decode_encode (out : Int → UInt8) (v : UInt64) (e : Int) :
    bch2_varint_decode (bch2_varint_encode out v).1 e =
      if ((bch2_varint_encode out v).2 : Int) ≤ e then some ((bch2_varint_encode out v).2, v)
      else none := by
  rw [bch2_varint_encode_eq]
  have h1 := one_le_varint_bytes v
  by_cases h9 : varint_bytes v < 9
  · -- below nine bytes: the first byte announces `n`, and the bytes hold the whole word
    have h8 : varint_bytes v ≤ 8 := by omega
    have hv := toNat_lt_varint_bytes v
    have hffz : (ffz ((storeLe out 0 (varint_bytes v)
        (varint_word v (varint_bytes v)).toNat) 0).toUInt64).toNat + 1 = varint_bytes v := by
      rw [ffz_toNat_of_mod (k := varint_bytes v - 1) (by omega)]
      · omega
      · rw [UInt8.toNat_toUInt64, storeLe_zero_toNat _ h1, Nat.sub_add_cancel h1]
        exact varint_word_first_byte h1 h8 hv
    have hval : (leVal (storeLe out 0 (varint_bytes v) (varint_word v (varint_bytes v)).toNat) 0
        (varint_bytes v)).toUInt64 >>> (varint_bytes v).toUInt64 = v := by
      apply UInt64.ext
      rw [toNat_shiftRight_of_lt _ (by omega), leVal_storeLe_self,
        Nat.mod_eq_of_lt (varint_word_lt h1 h8 hv), Nat.toUInt64_eq, UInt64.toNat_ofNat',
        Nat.mod_eq_of_lt (varint_word v _).toNat_lt, varint_word_toNat h1 h8 hv, Nat.add_comm,
        Nat.add_mul_div_right _ _ (Nat.two_pow_pos _),
        Nat.div_eq_of_lt (two_pow_pred_sub_one_lt h1), Nat.zero_add]
    rw [if_pos h9, bch2_varint_decode_eq hffz, if_pos h9, hval, ite_lt_none]
  · -- nine bytes: `0xff` and then the value
    have hffz : (ffz ((storeLe (storeLe out 0 1 255) 1 8 v.toNat) 0).toUInt64).toNat + 1 = 9 := by
      rw [storeLe_of_not_mem _ _ (by omega), ffz_toNat_of_mod (k := 8) (by omega)]
      rw [UInt8.toNat_toUInt64, storeLe_zero_toNat _ le_rfl]
      norm_num
    have hval : (leVal (storeLe (storeLe out 0 1 255) 1 8 v.toNat) 1 8).toUInt64 = v := by
      apply UInt64.ext
      rw [leVal_storeLe_self, show 8 * 8 = 64 from rfl, Nat.mod_eq_of_lt v.toNat_lt,
        Nat.toUInt64_eq, UInt64.toNat_ofNat', Nat.mod_eq_of_lt v.toNat_lt]
    rw [if_neg h9, bch2_varint_decode_eq hffz, if_neg (show ¬ (9 : Nat) < 9 by decide), hval,
      ite_lt_none]

/-! ### The fast routines -/

/-- The fast encoder returns the count of `bch2_varint_encode` and writes the same bytes in
front of it; it may write more behind. -/
theorem bch2_varint_encode_fast_agrees (out : Int → UInt8) (v : UInt64) :
    (bch2_varint_encode_fast out v).2 = (bch2_varint_encode out v).2 ∧
      ∀ x : Int, 0 ≤ x → x < (bch2_varint_encode out v).2 →
        (bch2_varint_encode_fast out v).1 x = (bch2_varint_encode out v).1 x := by
  rw [bch2_varint_encode_fast_eq, bch2_varint_encode_eq]
  -- below nine bytes the fast store writes eight, of which the first `n` are the word's
  split_ifs with h9
  · refine ⟨rfl, fun x hx0 hxn => ?_⟩
    have hin8 : (0 : Int) ≤ x ∧ x < 0 + (8 : Nat) := ⟨hx0, by push_cast; omega⟩
    have hinn : (0 : Int) ≤ x ∧ x < 0 + (varint_bytes v : Nat) := ⟨hx0, by omega⟩
    simp only [storeLe, if_pos hin8, if_pos hinn]
  · exact ⟨rfl, fun _ _ _ => rfl⟩

/-- An eight-byte load shifted down by `n ≤ 8` bytes' worth of bits and masked to `7 * n` bits
is the load of the first `n` bytes shifted down alike. -/
theorem leVal_eight_masked (input : Int → UInt8) {n : Nat} (h1 : 1 ≤ n) (h8 : n ≤ 8) :
    ((leVal input 0 8).toUInt64 >>> n.toUInt64) &&& ~~~((~~~(0 : UInt64)) <<< (7 * n).toUInt64) =
      (leVal input 0 n).toUInt64 >>> n.toUInt64 := by
  have hsplit := leVal_add input 0 n (8 - n)
  rw [show n + (8 - n) = 8 by omega] at hsplit
  have hA := leVal_lt input 0 n
  have hA64 : leVal input 0 n < 2 ^ 64 :=
    lt_of_lt_of_le hA (Nat.pow_le_pow_right (by norm_num) (by omega))
  have hpow : 2 ^ (8 * n) = 2 ^ n * 2 ^ (7 * n) := by
    rw [← pow_add]
    ring_nf
  -- the bytes above the `n`-th sit above bit `7 * n` of the shifted load
  have hdiv : (leVal input 0 n + 2 ^ (8 * n) * leVal input (0 + n) (8 - n)) / 2 ^ n =
      leVal input 0 n / 2 ^ n + 2 ^ (7 * n) * leVal input (0 + n) (8 - n) := by
    rw [hpow, Nat.mul_assoc, Nat.add_mul_div_left _ _ (Nat.two_pow_pos n)]
  have hlow : leVal input 0 n / 2 ^ n < 2 ^ (7 * n) := by
    rw [Nat.div_lt_iff_lt_mul (Nat.two_pow_pos n), Nat.mul_comm, ← hpow]
    exact hA
  apply UInt64.ext
  rw [UInt64.toNat_and, toNat_not_shiftLeft (by omega), Nat.and_two_pow_sub_one_eq_mod,
    toNat_shiftRight_of_lt _ (by omega), toNat_shiftRight_of_lt _ (by omega), Nat.toUInt64_eq,
    UInt64.toNat_ofNat', Nat.mod_eq_of_lt (leVal_lt input 0 8), hsplit, hdiv,
    Nat.add_mul_mod_self_left, Nat.mod_eq_of_lt hlow, Nat.toUInt64_eq, UInt64.toNat_ofNat',
    Nat.mod_eq_of_lt hA64]

/-- The fast decoder agrees with the decoder on every buffer and every end. -/
theorem bch2_varint_decode_fast_eq_decode (input : Int → UInt8) (e : Int) :
    bch2_varint_decode_fast input e = bch2_varint_decode input e := by
  rw [bch2_varint_decode_eq rfl]
  unfold bch2_varint_decode_fast
  dsimp only
  -- the fast decoder loads eight bytes and masks off those past the count
  split_ifs with he h9
  · rfl
  · rw [leVal_eight_masked input (by omega) (by omega)]
  · rfl

/-- The varint routines, together: the count, the round trip, and the fast routines. -/
theorem bch2_varint_round_trip (out : Int → UInt8) (v : UInt64) :
    (bch2_varint_encode out v).2 = (if 56 < fls64 v then 9 else (max (fls64 v) 1 + 6) / 7) ∧
    (∀ e : Int, bch2_varint_decode (bch2_varint_encode out v).1 e =
      if ((bch2_varint_encode out v).2 : Int) ≤ e then some ((bch2_varint_encode out v).2, v)
      else none) ∧
    (bch2_varint_encode_fast out v).2 = (bch2_varint_encode out v).2 ∧
    (∀ x : Int, 0 ≤ x → x < (bch2_varint_encode out v).2 →
      (bch2_varint_encode_fast out v).1 x = (bch2_varint_encode out v).1 x) ∧
    (∀ (input : Int → UInt8) (e : Int),
      bch2_varint_decode_fast input e = bch2_varint_decode input e) :=
  ⟨bch2_varint_encode_bytes out v, bch2_varint_decode_encode out v,
    (bch2_varint_encode_fast_agrees out v).1, (bch2_varint_encode_fast_agrees out v).2,
    bch2_varint_decode_fast_eq_decode⟩

end Bcachefs.Proofs.Util
