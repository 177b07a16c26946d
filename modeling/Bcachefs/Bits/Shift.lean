import Mathlib

/-!
# `Bcachefs.Bits.Shift`: 64-bit shifts as arithmetic

`UInt64` shifts take their count modulo 64, as the x86 shift instructions do, and a
C shift by 64 or more is undefined. Code that must shift a word by anything from
`0` to `64` therefore splits the shift in two: `(v >> 1) >> (bits - 1)` for
`1 ≤ bits ≤ 64` and `(w >> 1) >> (63 - bits)` for `0 ≤ bits ≤ 63`. This module
turns those forms, single shifts below 64 and an `|` of two words with disjoint
bits into `Nat` arithmetic:

* `toNat_shiftRight_of_lt`, `toNat_shiftLeft_of_lt`: a shift by less than 64 is a
  division, or a multiplication truncated to 64 bits.
* `toNat_shiftRight_one_shiftRight_sub_one`: `(v >> 1) >> (r - 1)` is `v / 2 ^ r`
  for every `1 ≤ r ≤ 64`, the case `r = 64` included.
* `toNat_shiftRight_one_shiftRight_sixtyThree_sub`: `(w >> 1) >> (63 - b)` is
  `w / 2 ^ (64 - b)` for every `b ≤ 63`, the case `b = 0` included.
* `toNat_or_of_disjoint`: an `|` of a word whose low `s` bits are clear with a word
  below `2 ^ s` is their sum.
* `toNat_not_shiftLeft_shiftLeft`: the mask `~((~0 << a) << c)` of the field-width
  checks is `2 ^ (a + c) - 1`, again with no shift by 64; `toNat_not_shiftLeft` and
  `toNat_allOnes_shiftRight` are the masks `~(~0 << a)` and `~0 >> s` of one shift.
* `toNat_toUInt64_not_shiftLeft32`: the mask `~(~0U << a)` of a 32-bit `unsigned`, widened
  to 64 bits, is `2 ^ a - 1` for a shift below 32.
-/

set_option autoImplicit false

namespace Bcachefs.Bits

/-- A shift count below 64 survives the cast to `u64`. -/
theorem toNat_toUInt64_of_lt {s : Nat} (hs : s < 64) : s.toUInt64.toNat = s := by
  rw [Nat.toUInt64_eq, UInt64.toNat_ofNat', Nat.mod_eq_of_lt (by omega)]

/-- A right shift by less than 64 divides by the power of two. -/
theorem toNat_shiftRight_of_lt (v : UInt64) {s : Nat} (hs : s < 64) :
    (v >>> s.toUInt64).toNat = v.toNat / 2 ^ s := by
  rw [UInt64.toNat_shiftRight, toNat_toUInt64_of_lt hs, Nat.mod_eq_of_lt hs,
    Nat.shiftRight_eq_div_pow]

/-- A left shift by less than 64 multiplies by the power of two, truncated to 64
bits. -/
theorem toNat_shiftLeft_of_lt (v : UInt64) {s : Nat} (hs : s < 64) :
    (v <<< s.toUInt64).toNat = v.toNat * 2 ^ s % 2 ^ 64 := by
  rw [UInt64.toNat_shiftLeft, toNat_toUInt64_of_lt hs, Nat.mod_eq_of_lt hs,
    Nat.shiftLeft_eq]

/-- The split shift of the packer: `(v >> 1) >> (r - 1)` is `v >> r` for every
`1 ≤ r ≤ 64`, with no shift by 64 at `r = 64`. -/
theorem toNat_shiftRight_one_shiftRight_sub_one (v : UInt64) {r : Nat} (h1 : 1 ≤ r)
    (h2 : r ≤ 64) : ((v >>> 1) >>> (r - 1).toUInt64).toNat = v.toNat / 2 ^ r := by
  have hone : ((1 : Nat) : Nat).toUInt64 = 1 := rfl
  rw [toNat_shiftRight_of_lt _ (by omega : r - 1 < 64), ← hone,
    toNat_shiftRight_of_lt _ (by omega : 1 < 64), Nat.div_div_eq_div_mul, ← pow_add,
    show 1 + (r - 1) = r by omega]

/-- The split shift of the unpacker: `(w >> 1) >> (63 - b)` is `w >> (64 - b)` for
every `b ≤ 63`, with no shift by 64 at `b = 0`. -/
theorem toNat_shiftRight_one_shiftRight_sixtyThree_sub (w : UInt64) {b : Nat}
    (hb : b ≤ 63) : ((w >>> 1) >>> (63 - b).toUInt64).toNat = w.toNat / 2 ^ (64 - b) := by
  have h := toNat_shiftRight_one_shiftRight_sub_one w (r := 64 - b) (by omega) (by omega)
  rwa [show 64 - b - 1 = 63 - b by omega] at h

/-- An `|` of a word whose low `s` bits are clear with a word below `2 ^ s` adds
them. -/
theorem toNat_or_of_disjoint (a b : UInt64) {s : Nat} (ha : a.toNat % 2 ^ s = 0)
    (hb : b.toNat < 2 ^ s) : (a ||| b).toNat = a.toNat + b.toNat := by
  obtain ⟨q, hq⟩ := Nat.dvd_of_mod_eq_zero ha
  rw [UInt64.toNat_or, hq, ← Nat.two_pow_add_eq_or_of_lt hb]

/-- The mask `~((~0 << a) << c)`: its low `a + c` bits set, for shifts below 64 that
add up to at most 64. -/
theorem toNat_not_shiftLeft_shiftLeft {a c : Nat} (ha : a < 64) (hc : c < 64)
    (hac : a + c ≤ 64) :
    (~~~(((~~~0 : UInt64) <<< a.toUInt64) <<< c.toUInt64)).toNat = 2 ^ (a + c) - 1 := by
  have hones : (~~~0 : UInt64).toNat = 2 ^ 64 - 1 := by decide
  have hk : 2 ^ (a + c) ≤ 2 ^ 64 := Nat.pow_le_pow_right (by norm_num) hac
  have hpos : 0 < 2 ^ (a + c) := Nat.two_pow_pos _
  -- the shifted ones are `2 ^ 64 - 2 ^ (a + c)`: the product wraps past `2 ^ 64`
  have hshift : (2 ^ 64 - 1) * 2 ^ (a + c) % 2 ^ 64 = 2 ^ 64 - 2 ^ (a + c) := by
    have hsplit : (2 ^ 64 - 1) * 2 ^ (a + c) =
        (2 ^ 64 - 2 ^ (a + c)) + 2 ^ 64 * (2 ^ (a + c) - 1) := by
      rw [Nat.sub_mul, Nat.one_mul, Nat.mul_sub, Nat.mul_one, Nat.mul_comm]
      omega
    rw [hsplit, Nat.add_mul_mod_self_left, Nat.mod_eq_of_lt (by omega)]
  rw [UInt64.toNat_not, toNat_shiftLeft_of_lt _ hc, toNat_shiftLeft_of_lt _ ha, hones,
    Nat.mod_mul_mod, Nat.mul_assoc, ← pow_add, hshift]
  show 2 ^ 64 - 1 - (2 ^ 64 - 2 ^ (a + c)) = _
  omega

/-- The mask `~(~0 << a)`: its low `a` bits set, for a shift below 64. -/
theorem toNat_not_shiftLeft {a : Nat} (ha : a < 64) :
    (~~~((~~~0 : UInt64) <<< a.toUInt64)).toNat = 2 ^ a - 1 := by
  have h := toNat_not_shiftLeft_shiftLeft (a := a) (c := 0) ha (by omega) (by omega)
  rwa [show (0 : Nat).toUInt64 = 0 from rfl, UInt64.shiftLeft_zero, Nat.add_zero] at h

/-- All ones shifted right by `s < 64`: the low `64 - s` bits set. -/
theorem toNat_allOnes_shiftRight {s : Nat} (hs : s < 64) :
    ((~~~0 : UInt64) >>> s.toUInt64).toNat = 2 ^ (64 - s) - 1 := by
  have hones : (~~~0 : UInt64).toNat = 2 ^ 64 - 1 := by decide
  have hsplit : 2 ^ (64 - s) * 2 ^ s = 2 ^ 64 := by rw [← pow_add, Nat.sub_add_cancel hs.le]
  have hpos := Nat.two_pow_pos s
  have hApos := Nat.two_pow_pos (64 - s)
  rw [toNat_shiftRight_of_lt _ hs, hones]
  apply Nat.div_eq_of_lt_le
  · rw [Nat.sub_one_mul, hsplit]
    omega
  · rw [Nat.sub_add_cancel hApos, hsplit]
    omega

/-- The 32-bit mask `~(~0U << a)`, widened to a `u64`: its low `a` bits set, for a shift
below 32. -/
theorem toNat_toUInt64_not_shiftLeft32 {a : Nat} (ha : a < 32) :
    (~~~((~~~0 : UInt32) <<< a.toUInt32)).toUInt64.toNat = 2 ^ a - 1 := by
  have hones : (~~~0 : UInt32).toNat = 2 ^ 32 - 1 := by decide
  have ha' : a.toUInt32.toNat = a := by
    rw [Nat.toUInt32_eq, UInt32.toNat_ofNat', Nat.mod_eq_of_lt (by omega)]
  have hk : 2 ^ a ≤ 2 ^ 32 := Nat.pow_le_pow_right (by norm_num) ha.le
  have hpos : 0 < 2 ^ a := Nat.two_pow_pos _
  -- the shifted ones are `2 ^ 32 - 2 ^ a`: the product wraps past `2 ^ 32`
  have hshift : (2 ^ 32 - 1) * 2 ^ a % 2 ^ 32 = 2 ^ 32 - 2 ^ a := by
    have hsplit : (2 ^ 32 - 1) * 2 ^ a = (2 ^ 32 - 2 ^ a) + 2 ^ 32 * (2 ^ a - 1) := by
      rw [Nat.sub_mul, Nat.one_mul, Nat.mul_sub, Nat.mul_one, Nat.mul_comm]
      omega
    rw [hsplit, Nat.add_mul_mod_self_left, Nat.mod_eq_of_lt (by omega)]
  rw [UInt32.toNat_toUInt64, UInt32.toNat_not, UInt32.toNat_shiftLeft, ha',
    Nat.mod_eq_of_lt (show a < 32 from ha), hones, Nat.shiftLeft_eq, hshift,
    show UInt32.size = 2 ^ 32 from rfl]
  omega

end Bcachefs.Bits
