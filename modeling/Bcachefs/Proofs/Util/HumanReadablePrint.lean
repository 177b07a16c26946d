import Bcachefs.Proofs.Util.HumanReadable

/-!
# `Bcachefs.Proofs.Util.HumanReadablePrint`: printing a number and reading it back

`bch2_prt_human_readable_u64` divides `v` by `1024` `u` times, down below `1024`, and prints the
quotient `V` with `prec` digits after the point, three significant digits in all: the digits are
the remainder `r` of the last division rounded to `prec` places, and the remainders of the
divisions before it are dropped. A remainder that rounds up to a whole unit carries into `V`,
and from `1023` into the next unit.

* `human_readable_units_spec` says what the division loop computes;
* every text it prints is a form of `Proofs.Util.HumanReadable` (`printed`), so
  `bch2_strtou64_h` reads it back exactly (`strtou64_h_text`);
* `prt_human_readable_round_trip`: below `2 ^ 60` what is read back is `v` up to half a unit of
  the last digit printed, plus the dropped remainders, plus one for the floor of the parse.
  From `2 ^ 60` a fraction in units of `E` fails the pre-checks of the parser
  (`prt_human_readable_strtou64_h_erange`).
-/

set_option autoImplicit false

namespace Bcachefs.Proofs.Util

open Bcachefs

/-! ### The division loop -/

/-- The loop divides `j` times, `j` at most the units `left`: it stops below `base` or when no
unit is left, and has divided only values of at least `base`. -/
theorem human_readable_units_spec (base : UInt64) (left : Nat)
    (v : UInt64) (u r : Nat) :
    ∃ j ≤ left,
      (human_readable_units base left v u r).1.toNat = v.toNat / base.toNat ^ j ∧
      (human_readable_units base left v u r).2.1 = u + j ∧
      (human_readable_units base left v u r).2.2 =
        (if j = 0 then r else v.toNat / base.toNat ^ (j - 1) % base.toNat) ∧
      (j < left → v.toNat / base.toNat ^ j < base.toNat) ∧
      (0 < j → base.toNat ≤ v.toNat / base.toNat ^ (j - 1)) := by
  induction left generalizing v u r with
  | zero => exact ⟨0, le_rfl, by simp [human_readable_units], by simp [human_readable_units],
      by simp [human_readable_units], by simp, by simp⟩
  | succ left ih =>
    by_cases hv : v ≥ base
    · -- one division, then the loop from `u + 1`
      rw [ge_iff_le, UInt64.le_iff_toNat_le] at hv
      obtain ⟨j, hj, h₁, h₂, h₃, h₄, h₅⟩ := ih (v / base) (u + 1) (v % base).toNat
      have hdiv : (v / base).toNat = v.toNat / base.toNat := UInt64.toNat_div _ _
      have hpow : ∀ i, (v / base).toNat / base.toNat ^ i = v.toNat / base.toNat ^ (i + 1) := by
        intro i; rw [hdiv, Nat.div_div_eq_div_mul, pow_succ, Nat.mul_comm]
      refine ⟨j + 1, by omega, ?_, ?_, ?_, ?_, ?_⟩
      · simp only [human_readable_units, ge_iff_le, UInt64.le_iff_toNat_le, hv, if_true]
        rw [h₁, hpow]
      · simp only [human_readable_units, ge_iff_le, UInt64.le_iff_toNat_le, hv, if_true]
        rw [h₂]; omega
      · simp only [human_readable_units, ge_iff_le, UInt64.le_iff_toNat_le, hv, if_true]
        rw [h₃]
        rcases Nat.eq_zero_or_pos j with rfl | hj0
        · simp [UInt64.toNat_mod]
        · rw [if_neg (by omega), if_neg (by omega), hpow, Nat.sub_add_cancel hj0, Nat.add_sub_cancel]
      -- the loop stopped before its last unit, so below `base`
      · intro hlt; rw [← hpow]; exact h₄ (by omega)
      · intro _
        rcases Nat.eq_zero_or_pos j with rfl | hj0
        · simpa using hv
        · rw [Nat.add_sub_cancel, ← Nat.sub_add_cancel hj0, ← hpow]
          exact h₅ hj0
    · -- the loop stops at once
      rw [ge_iff_le, UInt64.le_iff_toNat_le, not_le] at hv
      refine ⟨0, by omega, ?_, ?_, ?_, fun _ => by simpa using hv, by simp⟩ <;>
        simp [human_readable_units, UInt64.le_iff_toNat_le, not_le.2 hv]

/-! ### The printed forms -/

/-- `%0*u`: `frac` on `prec` digits, padded with zeros, reads back as `frac`. -/
theorem leftpad_toDigits {prec frac : Nat} (hp : 0 < prec) (hf : frac < 10 ^ prec) :
    (List.leftpad prec '0' (Nat.toDigits 10 frac)).length = prec ∧
      Nat.ofDigitChars 10 (List.leftpad prec '0' (Nat.toDigits 10 frac)) 0 = frac ∧
      ∀ c ∈ List.leftpad prec '0' (Nat.toDigits 10 frac), c.isDigit = true := by
  have hlen : (Nat.toDigits 10 frac).length ≤ prec :=
    (Nat.length_toDigits_le_iff (by decide) hp).2 hf
  refine ⟨by simp [List.leftpad]; omega, ?_, ?_⟩
  -- the leading zeros add nothing to the value
  · rw [List.leftpad, Nat.ofDigitChars_append, Nat.ofDigitChars_replicate_zero, Nat.mul_zero,
      Nat.ofDigitChars_ten_toDigits]
  · intro c hc
    simp only [List.leftpad, List.mem_append, List.mem_replicate] at hc
    rcases hc with ⟨-, rfl⟩ | hc
    · decide
    · exact isDigit_of_mem_toDigits hc

namespace HumanReadable

variable {V prec frac u : Nat} {hu : u ∈ List.range' 1 8}

/-- The text of a printed form: the quotient, then `.` and the padded digits when `prec` is not `0`,
then the unit's letter. -/
theorem printed_text :
    (printed V prec frac u hu).text =
      if prec ≠ 0 then
        Nat.toDigits 10 V ++ '.' :: List.leftpad prec '0' (Nat.toDigits 10 frac) ++
          [human_readable_unit_chars.getD u '\x00']
      else Nat.toDigits 10 V ++ [human_readable_unit_chars.getD u '\x00'] := by
  by_cases hp : prec = 0 <;> simp [printed, text, body, suffix, fracText, hp]

/-- A printed form has `prec` digits after the point, which read back as `frac`. -/
theorem printed_fracDigits (hf : frac < 10 ^ prec) :
    (printed V prec frac u hu).fracDigits.length = prec ∧
      Nat.ofDigitChars 10 (printed V prec frac u hu).fracDigits 0 = frac := by
  by_cases hp : prec = 0
  · subst hp
    simp [printed, fracDigits]
    omega
  -- `%0*u` pads `frac` to `prec` digits
  · obtain ⟨hlen, hval, -⟩ := leftpad_toDigits (Nat.pos_of_ne_zero hp) hf
    simp only [printed, fracDigits, hp, if_false, Option.getD_some]
    exact ⟨hlen, hval⟩

/-- The value a printed form reads back as: the quotient's units plus the digits' share of a unit,
rounded down. -/
theorem printed_value (hf : frac < 10 ^ prec) :
    (printed V prec frac u hu).value = V * 1024 ^ u + frac * 1024 ^ u / 10 ^ prec := by
  obtain ⟨hlen, hval⟩ := @printed_fracDigits V _ _ u hu hf
  rw [value, hval, hlen]
  simp [printed, Nat.ofDigitChars_ten_toDigits]

end HumanReadable

/-! ### Rounding -/

/-- `v` split at the last two divisions by `1024`: its quotient `V` by `1024 c`, the remainder
`r` of the last division, and the remainder `L` dropped before it. -/
theorem div_mod_split (v c : Nat) :
    v = v / (1024 * c) * (1024 * c) + v / c % 1024 * c + v % c := by
  have e₁ := Nat.div_add_mod v c
  have e₂ := Nat.div_add_mod (v / c) 1024
  rw [Nat.div_div_eq_div_mul, Nat.mul_comm c 1024] at e₂
  nlinarith

/-- Without a carry, what is read back is off by at most half a unit of the last digit,
`1024 c / (2 s)`, plus the dropped remainder `L`, plus one for the floor of the parse. -/
theorem round_err_le (V r L c s : Nat) (hs : 0 < s) :
    2 * s * |((V * (1024 * c) + (r * s + 512) / 1024 * (1024 * c) / s : Nat) : Int) -
        (V * (1024 * c) + r * c + L : Nat)| ≤ 1024 * c + 2 * s * (L + 1) := by
  obtain ⟨f, hf⟩ : ∃ f, (r * s + 512) / 1024 = f := ⟨_, rfl⟩
  obtain ⟨W, hW⟩ : ∃ W, f * (1024 * c) / s = W := ⟨_, rfl⟩
  rw [hf, hW]
  -- the rounding of `r s / 1024`, and the floor of the parse
  have h₁ : f * 1024 ≤ r * s + 512 := hf ▸ Nat.div_mul_le_self _ _
  have h₂ : r * s + 512 < f * 1024 + 1024 := by
    have := Nat.lt_div_mul_add (a := r * s + 512) (b := 1024) (by decide); rw [hf] at this; omega
  have h₃ : W * s ≤ f * (1024 * c) := hW ▸ Nat.div_mul_le_self _ _
  have h₄ : f * (1024 * c) < W * s + s := by
    have := Nat.lt_div_mul_add (a := f * (1024 * c)) (b := s) hs; rw [hW] at this; omega
  have e₁ : f * 1024 * c ≤ (r * s + 512) * c := Nat.mul_le_mul_right c h₁
  have e₂ : (r * s + 512 + 1) * c ≤ (f * 1024 + 1024) * c := Nat.mul_le_mul_right c h₂
  have i₁ : 2 * s * (V * (1024 * c) + W) ≤ 2 * s * (V * (1024 * c) + r * c + L) + 1024 * c := by
    nlinarith
  have i₂ : 2 * s * (V * (1024 * c) + r * c + L) ≤
      2 * s * (V * (1024 * c) + W) + 1024 * c + 2 * s * (L + 1) := by
    nlinarith
  rcases abs_cases (((V * (1024 * c) + W : Nat) : Int) - (V * (1024 * c) + r * c + L : Nat))
    with ⟨h, -⟩ | ⟨h, -⟩ <;> rw [h]
  · push_cast; zify at i₁; nlinarith
  · push_cast; zify at i₂; nlinarith

/-- With a carry, `V + 1` units are read back, more than `v` by at most half a unit of the last
digit before the carry. -/
theorem carry_err_le (V r L c s : Nat) (hr : r < 1024) (hL : L < c)
    (hcarry : s ≤ (r * s + 512) / 1024) :
    2 * s * |(((V + 1) * (1024 * c) : Nat) : Int) - (V * (1024 * c) + r * c + L : Nat)| ≤
      1024 * c := by
  have h₁ : s * 1024 ≤ r * s + 512 := (Nat.le_div_iff_mul_le (by decide)).1 hcarry
  -- `v` is below `(V + 1)` units by `(1024 - r) c - L`
  obtain ⟨k, hk⟩ : ∃ k, 1024 = r + (k + 1) := ⟨1023 - r, by omega⟩
  have hks : 2 * s * (k + 1) ≤ 1024 := by nlinarith
  have hLk : L ≤ (k + 1) * c := by nlinarith
  have hv : (V + 1) * (1024 * c) = V * (1024 * c) + r * c + L + ((k + 1) * c - L) := by
    rw [hk]; zify [hLk]; ring
  rw [hv, abs_of_nonneg (by push_cast; omega)]
  push_cast [hLk]
  have e : 2 * s * (k + 1) * c ≤ 1024 * c := Nat.mul_le_mul_right c hks
  zify at e
  nlinarith

/-! ### The round trip -/

/-- The digits printed after the point: two below `10`, one below `100`, else none. -/
theorem human_readable_prec_eq (V : UInt64) :
    human_readable_prec V = if V.toNat < 10 then 2 else if V.toNat < 100 then 1 else 0 := by
  simp [human_readable_prec, UInt64.lt_iff_toNat_lt]

/-- At most two digits are printed after the point. -/
theorem human_readable_prec_le (V : UInt64) : human_readable_prec V ≤ 2 := by
  rw [human_readable_prec_eq]; split_ifs <;> omega

/-- A larger quotient is printed with no more digits after the point. -/
theorem human_readable_prec_anti {V V' : UInt64} (h : V.toNat ≤ V'.toNat) :
    human_readable_prec V' ≤ human_readable_prec V := by
  rw [human_readable_prec_eq, human_readable_prec_eq]; split_ifs <;> omega

/-- `scale` is `10 ^ prec`. -/
theorem scale_eq (p : Nat) (hp : p ≤ 2) :
    (if p = 2 then 100 else if p = 1 then 10 else 1) = 10 ^ p := by
  interval_cases p <;> rfl

/-- What reading back the form `h` printed for `v` gives: `h` passes the pre-checks, its value is
in the range of `long long`, and it is off from `v` by at most half a unit of its last digit,
`h.unit.2 / (2 * 10 ^ |F|)`, plus the unit below `h`'s, which stands for the remainders the
printer drops and the floor of the parse. -/
def RoundTrip (v : Nat) (h : HumanReadable) : Prop :=
  h.Fits ∧ h.sign = [] ∧ h.value < 2 ^ 63 ∧
    2 * 10 ^ h.fracDigits.length * |(h.value : Int) - v| ≤
      h.unit.2 + 2 * 10 ^ h.fracDigits.length * (h.unit.2 / 1024)

/-- Below `1024`, `v` is printed and read back as it is. -/
theorem roundTrip_ofNat (v : Nat) (hv : v < 2 ^ 63) : RoundTrip v (.ofNat v) := by
  refine ⟨⟨by simp [HumanReadable.ofNat, HumanReadable.fracDigits],
    by simp [HumanReadable.ofNat], by simp [HumanReadable.ofNat, HumanReadable.fracDigits]⟩,
    rfl, by rw [HumanReadable.ofNat_value]; exact hv, ?_⟩
  rw [HumanReadable.ofNat_value]
  simp only [sub_self, abs_zero, mul_zero]
  positivity

/-- A printed form with few enough digits, a unit up to `E` and a fraction whose multiple fits
passes the parser's pre-checks. -/
theorem printed_fits {V prec frac u : Nat} {hu : u ∈ List.range' 1 8} (hf : frac < 10 ^ prec)
    (hp : prec ≤ 19) (hu6 : u ≤ 6) (hfu : frac * 1024 ^ u < 2 ^ 64) :
    (HumanReadable.printed V prec frac u hu).Fits := by
  obtain ⟨hlen, hval⟩ := @HumanReadable.printed_fracDigits V _ _ u hu hf
  have hmult : 1024 ^ u ≤ 1024 ^ 6 := Nat.pow_le_pow_right (by decide) hu6
  -- at most 19 digits, a unit up to `E`, and `f_n * b` within `u64`
  refine ⟨by rw [hlen]; exact hp, ?_, ?_⟩
  · show 1024 ^ u < 2 ^ 64; omega
  · rw [hval]; exact hfu

/-- The multiplier of the unit `u` is `1024 ^ u`. -/
theorem printed_unit {V prec frac u : Nat} {hu : u ∈ List.range' 1 8} :
    (HumanReadable.printed V prec frac u hu).unit.2 = 1024 ^ u := rfl

section Round

variable {V r L c p j : Nat} (hc : 1024 ^ j = 1024 * c) (hj : j ≤ 5) (hr : r < 1024) (hL : L < c)
include hc hj

/-- The units up to `P` are at most `2 ^ 50`. -/
theorem unit_le_pow_fifty : 1024 * c ≤ 2 ^ 50 :=
  hc ▸ (Nat.pow_le_pow_right (by decide) hj : 1024 ^ j ≤ 1024 ^ 5)

include hL

/-- No carry: `V.F` in unit `j`, `F` the remainder `r` rounded to `p` places. -/
theorem roundTrip_round {hu : j ∈ List.range' 1 8} (hV : V < 1024) (hp : p ≤ 2)
    (hf : (r * 10 ^ p + 512) / 1024 < 10 ^ p) :
    RoundTrip (V * (1024 * c) + r * c + L)
      (HumanReadable.printed V p ((r * 10 ^ p + 512) / 1024) j hu) := by
  have hs : 0 < 10 ^ p := by positivity
  have h50 := unit_le_pow_fifty hc hj
  have hfrac : (r * 10 ^ p + 512) / 1024 < 100 :=
    lt_of_lt_of_le hf (Nat.pow_le_pow_right (by decide) hp)
  obtain ⟨hlen, -⟩ := @HumanReadable.printed_fracDigits V _ _ j hu hf
  have hval := @HumanReadable.printed_value V _ _ j hu hf
  have hfu : (r * 10 ^ p + 512) / 1024 * (1024 * c) ≤ 100 * 2 ^ 50 :=
    Nat.mul_le_mul hfrac.le h50
  -- the form fits, has no sign, stays below `2 ^ 63`, and errs by `round_err_le`
  refine ⟨printed_fits hf (by omega) (by omega) (by rw [hc]; omega), rfl, ?_, ?_⟩
  · have hVc : V * (1024 * c) ≤ 1024 * 2 ^ 50 := Nat.mul_le_mul hV.le h50
    have := Nat.div_le_self ((r * 10 ^ p + 512) / 1024 * (1024 * c)) (10 ^ p)
    rw [hval, hc]
    omega
  · rw [hlen, hval, printed_unit, hc]
    have e := round_err_le V r L c (10 ^ p) hs
    have hLc : (L + 1 : Int) ≤ c := by exact_mod_cast hL
    push_cast at e ⊢
    rw [Int.mul_ediv_cancel_left _ (by decide)]
    calc _ ≤ 1024 * (c : Int) + 2 * 10 ^ p * (L + 1) := e
      _ ≤ _ := by gcongr

include hr

/-- A carry within the unit: `V + 1` in unit `j`, with the digits after the point of `V + 1`,
no more than those of `V`. -/
theorem roundTrip_carry {p' : Nat} {hu : j ∈ List.range' 1 8} (hV : V + 1 < 1024)
    (hp : p' ≤ p) (hp2 : p ≤ 2) (hcarry : 10 ^ p ≤ (r * 10 ^ p + 512) / 1024) :
    RoundTrip (V * (1024 * c) + r * c + L) (HumanReadable.printed (V + 1) p' 0 j hu) := by
  have h50 := unit_le_pow_fifty hc hj
  have h0 : 0 < 10 ^ p' := by positivity
  obtain ⟨hlen, -⟩ := @HumanReadable.printed_fracDigits (V + 1) _ _ j hu h0
  have hval := @HumanReadable.printed_value (V + 1) _ _ j hu h0
  -- no digits to read back: the error is the carry's
  refine ⟨printed_fits h0 (by omega) (by omega) (by simp), rfl, ?_, ?_⟩
  · have hVc : (V + 1) * (1024 * c) ≤ 1024 * 2 ^ 50 := Nat.mul_le_mul hV.le h50
    rw [hval, hc]
    simpa using lt_of_le_of_lt hVc (by norm_num)
  · rw [hlen, hval, printed_unit, hc]
    have e := carry_err_le V r L c (10 ^ p) hr hL hcarry
    have hpp : (10 : Int) ^ p' ≤ 10 ^ p := pow_le_pow_right₀ (by norm_num) hp
    simp only [zero_mul, Nat.zero_div, add_zero]
    push_cast at e ⊢
    calc _ ≤ 2 * (10 : Int) ^ p * |((V + 1) * (1024 * c) : Int) - (V * (1024 * c) + r * c + L)| := by
          gcongr
      _ ≤ 1024 * c := e
      _ ≤ _ := le_add_of_nonneg_right (by positivity)

/-- A carry from `1023` into the next unit: `1.00` in unit `j + 1`. -/
theorem roundTrip_carry_unit {hu : j + 1 ∈ List.range' 1 8}
    (hcarry : 1 ≤ (r * 1 + 512) / 1024) :
    RoundTrip (1023 * (1024 * c) + r * c + L) (HumanReadable.printed 1 2 0 (j + 1) hu) := by
  have h50 := unit_le_pow_fifty hc hj
  have h0 : 0 < 10 ^ 2 := by positivity
  obtain ⟨hlen, -⟩ := @HumanReadable.printed_fracDigits 1 _ _ (j + 1) hu h0
  have hval := @HumanReadable.printed_value 1 _ _ (j + 1) hu h0
  have hc' : 1024 ^ (j + 1) = 1024 * (1024 * c) := by rw [pow_succ, hc, Nat.mul_comm]
  -- `1.00` of the next unit is `1024` of this one
  refine ⟨printed_fits h0 (by omega) (by omega) (by simp), rfl, ?_, ?_⟩
  · rw [hval, hc']
    simp only [one_mul, zero_mul, Nat.zero_div, add_zero]
    omega
  · rw [hlen, hval, printed_unit, hc']
    have e := carry_err_le 1023 r L c 1 hr hL (by simpa using hcarry)
    simp only [one_mul, zero_mul, Nat.zero_div, add_zero]
    push_cast at e ⊢
    norm_num at e ⊢
    calc _ ≤ (100 : Int) * (1024 * c) := by linarith
      _ ≤ _ := by nlinarith [(by positivity : (0 : Int) ≤ c)]

end Round

/-- Below `2 ^ 60` the division loop stops below `1024`, after at most five divisions. -/
theorem human_readable_units_lt {v : UInt64} (hv : v.toNat < 2 ^ 60) :
    ∃ j ≤ 5, (human_readable_units 1024 8 v 0 0).1.toNat = v.toNat / 1024 ^ j ∧
      (human_readable_units 1024 8 v 0 0).2.1 = j ∧
      (human_readable_units 1024 8 v 0 0).2.2 =
        (if j = 0 then 0 else v.toNat / 1024 ^ (j - 1) % 1024) ∧
      v.toNat / 1024 ^ j < 1024 := by
  obtain ⟨j, hj8, h₁, h₂, h₃, h₄, h₅⟩ := human_readable_units_spec 1024 8 v 0 0
  have hb : (1024 : UInt64).toNat = 1024 := rfl
  rw [hb] at h₁ h₃ h₄ h₅
  -- a sixth division would need `v / 1024 ^ 5 ≥ 1024`
  have hj5 : j ≤ 5 := by
    by_contra hj
    have h₆ := h₅ (by omega)
    have h₇ : v.toNat / 1024 ^ (j - 1) ≤ v.toNat / 1024 ^ 5 :=
      Nat.div_le_div_left (Nat.pow_le_pow_right (by decide) (by omega)) (by positivity)
    have h₈ : v.toNat / 1024 ^ 5 < 1024 := (Nat.div_lt_iff_lt_mul (by positivity)).2 (by omega)
    omega
  exact ⟨j, hj5, h₁, by omega, h₃, h₄ (by omega)⟩

/-- `bch2_prt_human_readable_u64` prints a form of `HumanReadable` that `bch2_strtou64_h` reads
back: every value below `2 ^ 60` comes back up to half a unit of the last digit printed and one
unit below it. -/
theorem prt_human_readable_round_trip (v : UInt64) (hv : v.toNat < 2 ^ 60) :
    ∃ h : HumanReadable, bch2_prt_human_readable_u64 false v = h.text ∧
      bch2_strtou64_h h.text = (0, h.value.toUInt64) ∧
      2 * 10 ^ h.fracDigits.length * |(h.value : Int) - v.toNat| ≤
        h.unit.2 + 2 * 10 ^ h.fracDigits.length * (h.unit.2 / 1024) := by
  suffices hform : ∃ h : HumanReadable, bch2_prt_human_readable_u64 false v = h.text ∧
      RoundTrip v.toNat h by
    obtain ⟨h, htext, hfits, hsign, hlt, herr⟩ := hform
    have hint : h.toInt = h.value := by simp [HumanReadable.toInt, hsign]
    refine ⟨h, htext, ?_, herr⟩
    rw [strtou64_h_text, hint, if_pos ⟨hfits, by omega, by exact_mod_cast hlt⟩, ofInt_natCast]
  obtain ⟨j, hj5, h₁, h₂, h₃, hV⟩ := human_readable_units_lt hv
  obtain ⟨⟨V, u, r⟩, hres⟩ : ∃ x, human_readable_units 1024 8 v 0 0 = x := ⟨_, rfl⟩
  rw [hres] at h₁ h₂ h₃
  simp only at h₁ h₂ h₃
  subst u
  simp only [bch2_prt_human_readable_u64, Bool.false_eq_true, if_false,
    show human_readable_unit_chars.length - 1 = 8 from rfl,
    show (1024 : Nat).toUInt64 = 1024 from rfl, hres]
  rcases Nat.eq_zero_or_pos j with rfl | hj0
  · -- no division: `v` itself
    refine ⟨.ofNat v.toNat, ?_, roundTrip_ofNat _ (by omega)⟩
    rw [HumanReadable.ofNat_text, if_pos rfl, h₁, pow_zero, Nat.div_one]
  -- `v` split at the last division: `V` units `1024 c`, remainder `r` of `c`, and `L` below
  obtain ⟨c, hc⟩ : ∃ c, 1024 ^ j = 1024 * c := ⟨1024 ^ (j - 1), by
    rw [← pow_succ', Nat.sub_add_cancel hj0]⟩
  have hr : r = v.toNat / 1024 ^ (j - 1) % 1024 := by rw [h₃, if_neg (by omega)]
  have hc' : 1024 ^ (j - 1) = c := by
    have : 1024 ^ j = 1024 * 1024 ^ (j - 1) := by rw [← pow_succ', Nat.sub_add_cancel hj0]
    omega
  rw [hc'] at hr
  have hsplit := div_mod_split v.toNat c
  rw [hc] at h₁ hV
  have hpos : 0 < c := by
    have : 0 < 1024 ^ j := by positivity
    omega
  have hL : v.toNat % c < c := Nat.mod_lt _ hpos
  have hr1024 : r < 1024 := hr ▸ Nat.mod_lt _ (by decide)
  have hp := human_readable_prec_le V
  have hu : j ∈ List.range' 1 8 := List.mem_range'_1.2 ⟨hj0, by omega⟩
  rw [if_neg (by omega), scale_eq _ hp, show (1024 : Nat) / 2 = 512 from rfl]
  by_cases hcarry : 10 ^ human_readable_prec V ≤ (r * 10 ^ human_readable_prec V + 512) / 1024
  · rw [if_pos hcarry]
    by_cases h1023 : V.toNat = 1023
    · -- `1023` rounds up to `1.00` of the next unit
      have hV1 : (V + 1).toNat = 1024 := by rw [UInt64.toNat_add, h1023]; rfl
      have hprec : human_readable_prec V = 0 := by rw [human_readable_prec_eq, h1023]; rfl
      have hu' : j + 1 ∈ List.range' 1 8 := List.mem_range'_1.2 ⟨by omega, by omega⟩
      have hnext : (V + 1).toNat ≥ 1024 ∧ j + 1 < human_readable_unit_chars.length :=
        ⟨by omega, by simp [human_readable_unit_chars]; omega⟩
      rw [if_pos hnext]
      refine ⟨HumanReadable.printed 1 2 0 (j + 1) hu', ?_, ?_⟩
      · rw [HumanReadable.printed_text]; rfl
      · rw [hprec] at hcarry
        rw [hsplit, ← h₁, ← hr, h1023]
        exact roundTrip_carry_unit hc (by omega) hr1024 hL (by simpa using hcarry)
    · -- `V + 1` in the same unit, with its own precision
      have hV1 : (V + 1).toNat = V.toNat + 1 := by rw [UInt64.toNat_add]; simp; omega
      have hsame : ¬((V + 1).toNat ≥ 1024 ∧ j + 1 < human_readable_unit_chars.length) := by
        omega
      rw [if_neg hsame]
      refine ⟨HumanReadable.printed (V.toNat + 1) (human_readable_prec (V + 1)) 0 j hu, ?_, ?_⟩
      · rw [HumanReadable.printed_text, hV1]
      · rw [hsplit, ← h₁, ← hr]
        exact roundTrip_carry hc (by omega) hr1024 hL (by omega)
          (human_readable_prec_anti (by omega)) hp hcarry
  · rw [if_neg hcarry]
    refine ⟨HumanReadable.printed V.toNat (human_readable_prec V)
      ((r * 10 ^ human_readable_prec V + 512) / 1024) j hu, ?_, ?_⟩
    · rw [HumanReadable.printed_text]
    · rw [hsplit, ← h₁, ← hr]
      exact roundTrip_round hc (by omega) hL (by omega) hp (by omega)

/-- `1536` is printed `1.50k` and read back exactly. -/
theorem prt_human_readable_round_trip_kibi : (1536 : UInt64).toNat < 2 ^ 60 ∧
    ∃ h : HumanReadable, bch2_prt_human_readable_u64 false 1536 = h.text ∧
      bch2_strtou64_h h.text = (0, h.value.toUInt64) ∧
      2 * 10 ^ h.fracDigits.length * |(h.value : Int) - (1536 : UInt64).toNat| ≤
        h.unit.2 + 2 * 10 ^ h.fracDigits.length * (h.unit.2 / 1024) :=
  ⟨by decide, prt_human_readable_round_trip 1536 (by decide)⟩

/-- The bound is needed: `3 * 2 ^ 59` is printed `1.50E`, and `50` times the multiplier `2 ^ 60`
of `E` fails the pre-check `f_n > U64_MAX / b` of `__bch2_strtou64_h`. -/
theorem prt_human_readable_strtou64_h_erange :
    bch2_prt_human_readable_u64 false (3 * 2 ^ 59) = "1.50E".toList ∧
      bch2_strtou64_h (bch2_prt_human_readable_u64 false (3 * 2 ^ 59)) = (-ERANGE, 0) :=
  ⟨by decide +kernel, by decide +kernel⟩

end Bcachefs.Proofs.Util
