import Bcachefs.Util.HumanReadable
import Bcachefs.Loop.Except
import Mathlib

/-!
# `Bcachefs.Proofs.Util.HumanReadable`: what the parser of human-readable numbers reads

The strings `__bch2_strtoh` reads in full are the `HumanReadable` forms
`[+|-] D [. F] [[' '] U] ['\n']`, with `U` one of the units `human_units`: none, a letter of
`si_units`, `B` or `KiB`. The other entries of `units_2` and `units_10` start with a letter of
`si_units`, which `parse_unit_suffix` matches first, so the rest of them is left unread.

* `parse_u64_digits` and `bch2_pow_eq` say what the digit loop and the checked power compute,
  and when they fail;
* `strtou64_h_body` and `strtoh_text` give the result on every form: its value
  `D * b + F * b / 10 ^ |F|` when the pre-checks of `__bch2_strtou64_h` pass (`Fits`) and the
  value is in range, `-ERANGE` otherwise;
* `exists_text_of_strtoh` goes the other way: a string without `'\x00'` that `__bch2_strtoh`
  accepts is the text of a form.
-/

set_option autoImplicit false

namespace Bcachefs.Proofs.Util

open Bcachefs

/-! ### Digits -/

/-- A decimal digit is worth less than ten. -/
theorem digit_lt_ten {c : Char} (h : c.isDigit = true) : c.toNat - '0'.toNat < 10 := by
  simp only [Char.isDigit, Bool.and_eq_true, decide_eq_true_eq] at h
  obtain ⟨h1, h2⟩ := h
  rw [ge_iff_le, UInt32.le_iff_toNat_le] at h1
  rw [UInt32.le_iff_toNat_le] at h2
  -- the code points of `'0'` and `'9'`
  have h0 : '0'.val.toNat = 48 := rfl
  have h9 : '9'.val.toNat = 57 := rfl
  simp only [Char.toNat] at *
  omega

/-- A digit string read after `init` is worth at least `init` shifted by its length. -/
theorem mul_pow_le_ofDigitChars (D : List Char) (init : Nat) :
    init * 10 ^ D.length ≤ Nat.ofDigitChars 10 D init := by
  induction D generalizing init with
  | nil => simp
  | cons c D ih =>
    rw [Nat.ofDigitChars_cons, List.length_cons, pow_succ]
    calc init * (10 ^ D.length * 10) = 10 * init * 10 ^ D.length := by ring
      _ ≤ (10 * init + (c.toNat - '0'.toNat)) * 10 ^ D.length := by gcongr; omega
      _ ≤ _ := ih _

/-- A digit string read after `init` is worth at least `init`. -/
theorem le_ofDigitChars (D : List Char) (init : Nat) : init ≤ Nat.ofDigitChars 10 D init :=
  le_trans (Nat.le_mul_of_pos_right init (pow_pos (by decide) _))
    (mul_pow_le_ofDigitChars D init)

/-- A digit string is worth less than `10` to its length. -/
theorem ofDigitChars_lt_pow (D : List Char) (hD : ∀ c ∈ D, c.isDigit = true) :
    Nat.ofDigitChars 10 D 0 < 10 ^ D.length := by
  -- the value read so far is below `10 ^ i` after `i` digits
  have key : ∀ (D : List Char) (init : Nat), (∀ c ∈ D, c.isDigit = true) →
      Nat.ofDigitChars 10 D init < (init + 1) * 10 ^ D.length := by
    intro D
    induction D with
    | nil => intro init _; simp
    | cons c D ih =>
      intro init hD
      have hc := digit_lt_ten (hD c (List.mem_cons_self ..))
      rw [Nat.ofDigitChars_cons, List.length_cons, pow_succ]
      calc _ < (10 * init + (c.toNat - '0'.toNat) + 1) * 10 ^ D.length :=
            ih _ (fun x hx => hD x (List.mem_cons_of_mem _ hx))
        _ ≤ (init + 1) * (10 ^ D.length * 10) := by
            rw [show (init + 1) * (10 ^ D.length * 10) = (10 * init + 10) * 10 ^ D.length by ring]
            exact Nat.mul_le_mul_right _ (by omega)
  simpa using key D 0 hD

/-- `Nat.toDigits 10` writes decimal digits only. -/
theorem isDigit_of_mem_toDigits {n : Nat} {c : Char} (hc : c ∈ Nat.toDigits 10 n) :
    c.isDigit = true :=
  Nat.isDigit_of_mem_toDigits (by decide) (by decide) hc

/-! ### `parse_u64` -/

/-- `U64_MAX` as a number. -/
theorem toNat_U64_MAX : U64_MAX.toNat = 2 ^ 64 - 1 := rfl

/-- The digit loop reads a whole run of digits, and fails exactly when the number it reads does
not fit in a `u64`: the partial values only grow, so none overflows before the last. -/
theorem parse_u64_loop_digits (D t : List Char) (hD : ∀ c ∈ D, c.isDigit = true)
    (ht : (deref t).isDigit = false) (v : UInt64) (n : Nat) :
    parse_u64_loop (D ++ t) v n =
      if Nat.ofDigitChars 10 D v.toNat < 2 ^ 64 then
        .ok (n + D.length, (Nat.ofDigitChars 10 D v.toNat).toUInt64)
      else .error (-ERANGE) := by
  -- induction on the digits, the value and the count read so far generalized
  induction D generalizing v n with
  | nil =>
    have hv := v.toNat_lt
    cases t with
    | nil => simp [parse_u64_loop, UInt64.ofNat_toNat]; omega
    | cons c t =>
      simp only [deref, List.headD_cons] at ht
      simp [parse_u64_loop, ht, UInt64.ofNat_toNat]; omega
  | cons c D ih =>
    have hc := hD c (List.mem_cons_self ..)
    have hd := digit_lt_ten hc
    have hmono := le_ofDigitChars D (10 * v.toNat + (c.toNat - '0'.toNat))
    simp only [List.cons_append, parse_u64_loop, hc, if_true, Nat.ofDigitChars_cons,
      List.length_cons]
    have h10 : (10 : UInt64).toNat = 10 := rfl
    by_cases h₁ : v > U64_MAX / 10
    · -- `10 * v` is past `U64_MAX` already
      rw [if_pos h₁, if_neg]
      rw [gt_iff_lt, UInt64.lt_iff_toNat_lt, UInt64.toNat_div, toNat_U64_MAX, h10] at h₁
      omega
    · rw [if_neg h₁]
      rw [gt_iff_lt, UInt64.lt_iff_toNat_lt, UInt64.toNat_div, toNat_U64_MAX, h10] at h₁
      have hv10 : (v * 10).toNat = v.toNat * 10 := by
        rw [UInt64.toNat_mul, h10]; omega
      have hdig : (c.toNat - '0'.toNat).toUInt64.toNat = c.toNat - '0'.toNat := by
        rw [Nat.toUInt64_eq, UInt64.toNat_ofNat']; omega
      -- `10 * v` fits; the digit may still carry it past `U64_MAX`
      by_cases h₂ : v * 10 > U64_MAX - (c.toNat - '0'.toNat).toUInt64
      · rw [if_pos h₂, if_neg]
        rw [gt_iff_lt, UInt64.lt_iff_toNat_lt, UInt64.toNat_sub_of_le _ _ (by
          rw [UInt64.le_iff_toNat_le, hdig, toNat_U64_MAX]; omega), hdig, toNat_U64_MAX,
          hv10] at h₂
        omega
      · rw [if_neg h₂, ih (fun x hx => hD x (List.mem_cons_of_mem _ hx))]
        rw [gt_iff_lt, UInt64.lt_iff_toNat_lt, UInt64.toNat_sub_of_le _ _ (by
          rw [UInt64.le_iff_toNat_le, hdig, toNat_U64_MAX]; omega), hdig, toNat_U64_MAX,
          hv10] at h₂
        have hsum : (v * 10 + (c.toNat - '0'.toNat).toUInt64).toNat =
            10 * v.toNat + (c.toNat - '0'.toNat) := by
          rw [UInt64.toNat_add, hv10, hdig]; omega
        rw [hsum, Nat.add_assoc n 1, Nat.add_comm 1 D.length]

/-- `parse_u64` on a run of digits followed by something else. -/
theorem parse_u64_digits (D t : List Char) (hne : D ≠ []) (hD : ∀ c ∈ D, c.isDigit = true)
    (ht : (deref t).isDigit = false) :
    parse_u64 (D ++ t) =
      if Nat.ofDigitChars 10 D 0 < 2 ^ 64 then
        .ok (D.length, (Nat.ofDigitChars 10 D 0).toUInt64)
      else .error (-ERANGE) := by
  -- the first character is a digit, so the loop starts
  obtain ⟨c, D', rfl⟩ := List.exists_cons_of_ne_nil hne
  have hc := hD c (List.mem_cons_self ..)
  simp only [parse_u64, List.cons_append, deref, List.headD_cons, hc, Bool.not_true,
    Bool.false_eq_true, if_false]
  rw [← List.cons_append, parse_u64_loop_digits _ _ hD ht]
  simp

/-! ### `bch2_pow` -/

/-- The power loop fails exactly when the power does not fit in a `u64`: for `n ≥ 1` the partial
products only grow. -/
theorem bch2_pow_loop_eq (n : UInt64) (hn : 0 < n.toNat) (p : Nat) (res : UInt64) :
    bch2_pow_loop n p res =
      if res.toNat * n.toNat ^ p < 2 ^ 64 then .ok (res.toNat * n.toNat ^ p).toUInt64
      else .error (-ERANGE) := by
  -- induction on the factors left, the product so far generalized
  induction p generalizing res with
  | zero =>
    have := res.toNat_lt
    simp [bch2_pow_loop, UInt64.ofNat_toNat]; omega
  | succ p ih =>
    have hpow : 1 ≤ n.toNat ^ p := Nat.one_le_pow _ _ hn
    simp only [bch2_pow_loop]
    -- the check before each multiplication: an overflow now is one of the final power too
    by_cases h : res > U64_MAX / n
    · rw [if_pos h, if_neg]
      rw [gt_iff_lt, UInt64.lt_iff_toNat_lt, UInt64.toNat_div, toNat_U64_MAX,
        Nat.div_lt_iff_lt_mul hn] at h
      rw [pow_succ n.toNat p, ← Nat.mul_assoc, not_lt]
      calc 2 ^ 64 ≤ res.toNat * n.toNat := by omega
        _ ≤ res.toNat * n.toNat ^ p * n.toNat := by
          rw [Nat.mul_right_comm]; exact Nat.le_mul_of_pos_right _ hpow
    · rw [if_neg h]
      rw [gt_iff_lt, UInt64.lt_iff_toNat_lt, UInt64.toNat_div, toNat_U64_MAX, not_lt,
        Nat.le_div_iff_mul_le hn] at h
      have hmul : (res * n).toNat = res.toNat * n.toNat := by
        rw [UInt64.toNat_mul]; omega
      rw [ih, hmul, pow_succ n.toNat p, Nat.mul_assoc, Nat.mul_comm n.toNat, ← Nat.mul_assoc]

/-- `bch2_pow(n, p)` for `n ≥ 1`: `n ^ p` when it fits in a `u64`, `-ERANGE` otherwise. -/
theorem bch2_pow_eq (n : UInt64) (p : Nat) (hn : 0 < n.toNat) :
    bch2_pow n p =
      if n.toNat ^ p < 2 ^ 64 then .ok (n.toNat ^ p).toUInt64 else .error (-ERANGE) := by
  simp [bch2_pow, bch2_pow_loop_eq n hn]

/-! ### The forms -/

/-- The unit suffixes `parse_unit_suffix` reads in full, with their multipliers: none, a letter
of `si_units` for `1024 ^ i`, `B` and `KiB`. -/
def human_units : List (List Char × Nat) :=
  [([], 1), (['k'], 1024), (['M'], 1024 ^ 2), (['G'], 1024 ^ 3), (['T'], 1024 ^ 4),
    (['P'], 1024 ^ 5), (['E'], 1024 ^ 6), (['Z'], 1024 ^ 7), (['Y'], 1024 ^ 8), (['B'], 1),
    (['K', 'i', 'B'], 1024)]

/-- A number written `[+|-] D [. F] [[' '] U] ['\n']`: `D` and `F` are runs of decimal digits,
`U` is one of `human_units`, and a space comes only before a unit. -/
structure HumanReadable where
  sign : List Char
  int : List Char
  frac : Option (List Char)
  space : List Char
  unit : List Char × Nat
  newline : List Char
  sign_mem : sign ∈ [[], ['+'], ['-']]
  int_ne_nil : int ≠ []
  int_digits : ∀ c ∈ int, c.isDigit = true
  frac_ne_nil : ∀ f ∈ frac, f ≠ []
  frac_digits : ∀ f ∈ frac, ∀ c ∈ f, c.isDigit = true
  unit_mem : unit ∈ human_units
  space_mem : space = [] ∨ space = [' '] ∧ unit.1 ≠ []
  newline_mem : newline ∈ [[], ['\n']]

namespace HumanReadable

variable (h : HumanReadable)

/-- The digits of the fraction, none without a `.`. -/
def fracDigits : List Char := h.frac.getD []

/-- `.F`, or nothing. -/
def fracText : List Char := (h.frac.map ('.' :: ·)).getD []

/-- What follows the digits: the space, the unit and the newline. -/
def suffix : List Char := h.space ++ h.unit.1 ++ h.newline

/-- What follows the sign, which `__bch2_strtou64_h` reads. -/
def body : List Char := h.int ++ h.fracText ++ h.suffix

/-- The whole text: the sign, then the body. -/
def text : List Char := h.sign ++ h.body

/-- `⌊(D + F / 10 ^ |F|) * b⌋` for the multiplier `b` of the unit. -/
def value : Nat :=
  Nat.ofDigitChars 10 h.int 0 * h.unit.2 +
    Nat.ofDigitChars 10 h.fracDigits 0 * h.unit.2 / 10 ^ h.fracDigits.length

/-- The value with the sign. -/
def toInt : Int := if h.sign = ['-'] then -(h.value : Int) else h.value

/-- The pre-checks of `__bch2_strtou64_h` pass: `10 ^ |F|`, the multiplier and `F` times the
multiplier fit in a `u64`. -/
def Fits : Prop :=
  h.fracDigits.length ≤ 19 ∧ h.unit.2 < 2 ^ 64 ∧
    Nat.ofDigitChars 10 h.fracDigits 0 * h.unit.2 < 2 ^ 64

instance : Decidable h.Fits := inferInstanceAs (Decidable (_ ∧ _ ∧ _))

end HumanReadable

/-- The suffix of a form does not start with a digit or a `.`, `parse_unit_suffix` reads its
space and its unit, and what it leaves is the newline, after which `__bch2_strtoh` finds the end
of the string. -/
theorem unit_suffix_spec : ∀ u ∈ human_units, ∀ sp ∈ [[], [' ']], (sp = [] ∨ u.1 ≠ []) →
    ∀ nl ∈ [[], ['\n']],
      (deref (sp ++ u.1 ++ nl)).isDigit = false ∧ deref (sp ++ u.1 ++ nl) ≠ '.' ∧
      parse_unit_suffix (sp ++ u.1 ++ nl) =
        (if u.2 < 2 ^ 64 then .ok (sp.length + u.1.length, u.2.toUInt64) else .error (-ERANGE)) ∧
      deref (if deref nl = '\n' then nl.drop 1 else nl) = '\x00' := by
  decide

/-- Every unit multiplies by at least one. -/
theorem one_le_of_mem_human_units : ∀ u ∈ human_units, 1 ≤ u.2 := by decide

/-- The letters of the units `1` to `8` of the printer are those of `human_units`. -/
theorem unit_chars_mem : ∀ u ∈ List.range' 1 8,
    ([human_readable_unit_chars.getD u '\x00'], 1024 ^ u) ∈ human_units := by
  decide

namespace HumanReadable

variable (h : HumanReadable)

/-- `unit_suffix_spec` at the suffix of a form. -/
theorem suffix_spec :
    (deref h.suffix).isDigit = false ∧ deref h.suffix ≠ '.' ∧
      parse_unit_suffix h.suffix =
        (if h.unit.2 < 2 ^ 64 then .ok (h.space.length + h.unit.1.length, h.unit.2.toUInt64)
        else .error (-ERANGE)) ∧
      deref (if deref h.newline = '\n' then h.newline.drop 1 else h.newline) = '\x00' := by
  -- the finite check `unit_suffix_spec`, at the space, unit and newline of the form
  have hsp : h.space ∈ [[], [' ']] := by
    rcases h.space_mem with hs | ⟨hs, -⟩ <;> simp [hs]
  have hne : h.space = [] ∨ h.unit.1 ≠ [] := h.space_mem.imp_right And.right
  exact unit_suffix_spec h.unit h.unit_mem h.space hsp hne h.newline h.newline_mem

/-- The unit of a form multiplies by at least one. -/
theorem one_le_mult : 1 ≤ h.unit.2 := one_le_of_mem_human_units h.unit h.unit_mem

end HumanReadable

/-! ### `__bch2_strtou64_h` -/

/-- `x > U64_MAX / b` is the overflow of `x * b`. -/
theorem gt_U64_MAX_div_iff (x b : UInt64) (hb : 0 < b.toNat) :
    x > U64_MAX / b ↔ 2 ^ 64 ≤ x.toNat * b.toNat := by
  rw [gt_iff_lt, UInt64.lt_iff_toNat_lt, UInt64.toNat_div, toNat_U64_MAX,
    Nat.div_lt_iff_lt_mul hb]
  omega

/-- The overflow checks at the end of `__bch2_strtou64_h`: they fail exactly when `f_n * b` or
the result does not fit, `v * b` being at most the result. -/
theorem strtou64_h_checks (v f_n f_d b : UInt64) (n : Nat) (hb : 0 < b.toNat) :
    (if v > U64_MAX / b then Except.error (-ERANGE)
      else if f_n > U64_MAX / b then Except.error (-ERANGE)
      else if v * b + f_n * b / f_d < v * b then Except.error (-ERANGE)
      else (Except.ok (n, v * b + f_n * b / f_d) : Except Int (Nat × UInt64))) =
    if f_n.toNat * b.toNat < 2 ^ 64 ∧
        v.toNat * b.toNat + f_n.toNat * b.toNat / f_d.toNat < 2 ^ 64 then
      .ok (n, (v.toNat * b.toNat + f_n.toNat * b.toNat / f_d.toNat).toUInt64)
    else .error (-ERANGE) := by
  -- the quotient is an atom for `omega`
  obtain ⟨q, hq_def⟩ : ∃ q, f_n.toNat * b.toNat / f_d.toNat = q := ⟨_, rfl⟩
  rw [hq_def]
  by_cases h₁ : 2 ^ 64 ≤ v.toNat * b.toNat
  · rw [if_pos ((gt_U64_MAX_div_iff v b hb).2 h₁), if_neg]
    omega
  rw [if_neg (mt (gt_U64_MAX_div_iff v b hb).1 h₁)]
  by_cases h₂ : 2 ^ 64 ≤ f_n.toNat * b.toNat
  · rw [if_pos ((gt_U64_MAX_div_iff f_n b hb).2 h₂), if_neg]
    omega
  rw [if_neg (mt (gt_U64_MAX_div_iff f_n b hb).1 h₂)]
  have hvb : (v * b).toNat = v.toNat * b.toNat := by rw [UInt64.toNat_mul]; omega
  have hq : (f_n * b / f_d).toNat = q := by
    rw [UInt64.toNat_div, UInt64.toNat_mul, ← hq_def]; congr 1; omega
  have hq_lt : q < 2 ^ 64 := by
    rw [← hq_def]; exact lt_of_le_of_lt (Nat.div_le_self _ _) (by omega)
  have hsum : (v * b + f_n * b / f_d).toNat = (v.toNat * b.toNat + q) % 2 ^ 64 := by
    rw [UInt64.toNat_add, hvb, hq]
  by_cases h₃ : v.toNat * b.toNat + q < 2 ^ 64
  · rw [if_neg (by rw [UInt64.lt_iff_toNat_lt, hsum, hvb]; omega), if_pos ⟨by omega, h₃⟩]
    congr 2
    rw [← UInt64.toNat_inj, hsum, UInt64.toNat_ofNat_of_lt' h₃]
    omega
  · rw [if_pos (by rw [UInt64.lt_iff_toNat_lt, hsum, hvb]; omega), if_neg]
    omega

/-- A natural number stored from `Int` is stored as itself modulo `2 ^ 64`. -/
theorem ofInt_natCast (n : Nat) : UInt64.ofInt n = n.toUInt64 := by
  rw [← UInt64.toNat_inj, UInt64.ofInt, Nat.toUInt64_eq, UInt64.toNat_ofNat', UInt64.toNat_ofNat']
  omega

/-- `10 ^ k` fits in a `u64` exactly up to `k = 19`. -/
theorem pow_ten_lt_iff (k : Nat) : 10 ^ k < 2 ^ 64 ↔ k ≤ 19 := by
  -- `10 ^ 19 < 2 ^ 64 ≤ 10 ^ 20`
  constructor
  · intro h
    by_contra hk
    have : 10 ^ 20 ≤ 10 ^ k := Nat.pow_le_pow_right (by decide) (by omega)
    omega
  · intro hk
    have : 10 ^ k ≤ 10 ^ 19 := Nat.pow_le_pow_right (by decide) hk
    omega

namespace HumanReadable

variable (h : HumanReadable)

/-- The fraction of a form is digits. -/
theorem fracDigits_digits : ∀ c ∈ h.fracDigits, c.isDigit = true := by
  cases hf : h.frac with
  | none => simp [fracDigits, hf]
  | some F => simpa [fracDigits, hf] using h.frac_digits F (by simp [hf])

/-- What follows the integer part of a form does not start with a digit. -/
theorem deref_fracText_append_suffix : (deref (h.fracText ++ h.suffix)).isDigit = false := by
  cases hf : h.frac with
  | none => simpa [fracText, hf] using h.suffix_spec.1
  | some F => simp [fracText, hf, deref]

/-- What `__bch2_strtou64_h` reads of the body: all of it but the newline. -/
theorem body_length_sub_newline :
    h.body.length - h.newline.length =
      h.int.length + h.fracText.length + (h.space.length + h.unit.1.length) := by
  simp only [body, suffix, List.length_append]
  omega

/-- The value of a form is at least its integer part: the unit multiplies by at least one. -/
theorem int_le_value : Nat.ofDigitChars 10 h.int 0 ≤ h.value := by
  have := h.one_le_mult
  calc Nat.ofDigitChars 10 h.int 0 ≤ Nat.ofDigitChars 10 h.int 0 * h.unit.2 :=
        Nat.le_mul_of_pos_right _ this
    _ ≤ h.value := Nat.le_add_right _ _

/-- The fraction of a form is read when it has at most 19 digits; with more, `F` or `10 ^ |F|`
overflows. -/
theorem strtou64_h_frac_spec :
    strtou64_h_frac (h.fracText ++ h.suffix) =
      if h.fracDigits.length ≤ 19 then
        .ok (h.fracText.length, (Nat.ofDigitChars 10 h.fracDigits 0).toUInt64,
          (10 ^ h.fracDigits.length).toUInt64)
      else .error (-ERANGE) := by
  obtain ⟨hsd, hsdot, -, -⟩ := h.suffix_spec
  -- no fraction reads nothing; `.F` reads `F` and `10 ^ |F|`
  cases hf : h.frac with
  | none =>
    simp [strtou64_h_frac, fracText, fracDigits, hf, hsdot, pure, Except.pure]
  | some F =>
    have hFne := h.frac_ne_nil F (by simp [hf])
    have hFd := h.frac_digits F (by simp [hf])
    have hFlt := ofDigitChars_lt_pow F hFd
    simp only [strtou64_h_frac, fracText, fracDigits, hf, Option.map_some, Option.getD_some,
      List.cons_append, deref, List.headD_cons, if_true, List.drop_one, List.tail_cons,
      List.length_cons]
    rw [parse_u64_digits F _ hFne hFd hsd]
    -- `10 ^ |F|` fits exactly up to 19 digits, and then so does `F`
    by_cases hF : F.length ≤ 19
    · have hp : 10 ^ F.length < 2 ^ 64 := (pow_ten_lt_iff _).2 hF
      simp only [if_pos (lt_trans hFlt hp), if_pos hF, bind, Except.bind,
        bch2_pow_eq 10 _ (by decide), show (10 : UInt64).toNat = 10 from rfl, if_pos hp, pure,
        Except.pure, Nat.add_comm 1]
    · rw [if_neg hF]
      by_cases hFv : Nat.ofDigitChars 10 F 0 < 2 ^ 64
      · simp only [if_pos hFv, bind, Except.bind, bch2_pow_eq 10 _ (by decide),
          show (10 : UInt64).toNat = 10 from rfl, if_neg (mt (pow_ten_lt_iff _).1 hF)]
      · simp only [if_neg hFv, bind, Except.bind]

/-- `__bch2_strtou64_h` reads the body of a form up to its newline. It returns the value when
the pre-checks pass and the value fits in a `u64`, and `-ERANGE` otherwise. -/
theorem strtou64_h_body :
    __bch2_strtou64_h h.body =
      if h.Fits ∧ h.value < 2 ^ 64 then
        .ok (h.body.length - h.newline.length, h.value.toUInt64)
      else .error (-ERANGE) := by
  obtain ⟨hsd, hsdot, hsuf, -⟩ := h.suffix_spec
  have hb1 := h.one_le_mult
  have hDv := h.int_le_value
  rw [body_length_sub_newline]
  simp only [__bch2_strtou64_h, body, List.append_assoc,
    parse_u64_digits _ _ h.int_ne_nil h.int_digits h.deref_fracText_append_suffix]
  by_cases hD : Nat.ofDigitChars 10 h.int 0 < 2 ^ 64
  swap
  · -- the integer part does not fit, and neither does the value
    rw [if_neg hD, if_neg (by omega)]
    rfl
  -- the integer part fits; the fraction, the unit and the checks decide the rest
  simp only [if_pos hD, bind, Except.bind, List.drop_left, strtou64_h_frac_spec]
  by_cases hF : h.fracDigits.length ≤ 19
  swap
  · rw [if_neg hF, if_neg (fun hc => hF hc.1.1)]
  have hFlt : Nat.ofDigitChars 10 h.fracDigits 0 < 2 ^ 64 :=
    lt_trans (ofDigitChars_lt_pow _ h.fracDigits_digits) ((pow_ten_lt_iff _).2 hF)
  simp only [if_pos hF, List.drop_left, hsuf]
  by_cases hb : h.unit.2 < 2 ^ 64
  swap
  · rw [if_neg hb, if_neg (fun hc => hb hc.1.2.1)]
  simp only [if_pos hb, throw, throwThe, MonadExceptOf.throw, pure, Except.pure]
  rw [strtou64_h_checks _ _ _ _ _ (by rw [UInt64.toNat_ofNat_of_lt' hb]; omega)]
  have hp : 10 ^ h.fracDigits.length < 2 ^ 64 := (pow_ten_lt_iff _).2 hF
  simp only [UInt64.toNat_ofNat_of_lt' hD, UInt64.toNat_ofNat_of_lt' hFlt,
    UInt64.toNat_ofNat_of_lt' hb, UInt64.toNat_ofNat_of_lt' hp]
  rw [show Nat.ofDigitChars 10 h.int 0 * h.unit.2 +
      Nat.ofDigitChars 10 h.fracDigits 0 * h.unit.2 / 10 ^ h.fracDigits.length = h.value from rfl]
  by_cases hc : Nat.ofDigitChars 10 h.fracDigits 0 * h.unit.2 < 2 ^ 64 ∧ h.value < 2 ^ 64
  · rw [if_pos hc, if_pos ⟨⟨hF, hb, hc.1⟩, hc.2⟩]
  · rw [if_neg hc, if_neg (fun hc' => hc ⟨hc'.1.2.2, hc'.2⟩)]

/-- The body of a form starts with a digit. -/
theorem deref_body_isDigit : (deref h.body).isDigit = true := by
  obtain ⟨c, D, hD⟩ := List.exists_cons_of_ne_nil h.int_ne_nil
  simp only [body, hD, List.cons_append, deref, List.headD_cons]
  exact h.int_digits c (by simp [hD])

/-- `__bch2_strtoh` takes the sign off the text, and leaves the body. -/
theorem text_sign :
    (if deref h.text = '+' ∨ deref h.text = '-' then h.text.drop 1 else h.text) = h.body ∧
      (deref h.text != '-') = !decide (h.sign = ['-']) := by
  have hsign := h.sign_mem
  simp only [List.mem_cons, List.not_mem_nil, or_false] at hsign
  rcases hsign with hs | hs | hs
  · -- no sign: the body starts with a digit
    have hdig := h.deref_body_isDigit
    have h₁ : deref h.body ≠ '+' := fun he => by rw [he] at hdig; contradiction
    have h₂ : deref h.body ≠ '-' := fun he => by rw [he] at hdig; contradiction
    simp [text, hs, h₁, h₂]
  · simp [text, hs, deref]
  · simp [text, hs, deref]

/-- What `__bch2_strtou64_h` leaves of the body is the newline. -/
theorem body_drop_newline : h.body.drop (h.body.length - h.newline.length) = h.newline := by
  have hb : h.body = (h.int ++ h.fracText ++ h.space ++ h.unit.1) ++ h.newline := by
    simp [body, suffix]
  rw [hb, List.length_append, Nat.add_sub_cancel, List.drop_left]

/-- The signed value's magnitude is the value. -/
theorem toInt_natAbs : h.toInt.natAbs = h.value := by
  unfold toInt; split <;> simp

/-- The form of a plain number: its decimal digits. -/
def ofNat (v : Nat) : HumanReadable where
  sign := []
  int := Nat.toDigits 10 v
  frac := none
  space := []
  unit := ([], 1)
  newline := []
  sign_mem := List.mem_cons_self ..
  int_ne_nil := Nat.toDigits_ne_nil
  int_digits := fun _ hc => isDigit_of_mem_toDigits hc
  frac_ne_nil := fun _ hF => by cases hF
  frac_digits := fun _ hF => by cases hF
  unit_mem := by decide
  space_mem := .inl rfl
  newline_mem := List.mem_cons_self ..

/-- `V.F` and the letter of unit `u`, where `F` is `frac` on `prec` digits; no point when `prec`
is `0`. -/
def printed (V prec frac u : Nat) (hu : u ∈ List.range' 1 8) : HumanReadable where
  sign := []
  int := Nat.toDigits 10 V
  frac := if prec = 0 then none else some (List.leftpad prec '0' (Nat.toDigits 10 frac))
  space := []
  unit := ([human_readable_unit_chars.getD u '\x00'], 1024 ^ u)
  newline := []
  sign_mem := List.mem_cons_self ..
  int_ne_nil := Nat.toDigits_ne_nil
  int_digits := fun _ hc => isDigit_of_mem_toDigits hc
  frac_ne_nil := by
    intro F hF
    split at hF
    · cases hF
    · simp only [Option.mem_def, Option.some.injEq] at hF
      subst hF
      exact List.ne_nil_of_length_pos (by rw [List.length_leftpad]; omega)
  frac_digits := by
    intro F hF c hc
    split at hF
    · cases hF
    · simp only [Option.mem_def, Option.some.injEq] at hF
      subst hF
      simp only [List.leftpad, List.mem_append, List.mem_replicate] at hc
      rcases hc with ⟨-, rfl⟩ | hc
      · decide
      · exact isDigit_of_mem_toDigits hc
  unit_mem := unit_chars_mem u hu
  space_mem := .inl rfl
  newline_mem := List.mem_cons_self ..

attribute [grind] printed

/-- The text of `ofNat v` is the decimal digits of `v`. -/
theorem ofNat_text (v : Nat) : (ofNat v).text = Nat.toDigits 10 v := by
  simp [ofNat, text, body, suffix, fracText]

/-- The value of `ofNat v` is `v`. -/
theorem ofNat_value (v : Nat) : (ofNat v).value = v := by
  simp [ofNat, value, fracDigits, Nat.ofDigitChars_ten_toDigits]

/-- `__bch2_strtoh` on a form, for a range given as signed with `t_max + 1` within a `u64`: the
value with its sign when the pre-checks pass and it is in `[-(t_max + 1), t_max]`, stored in the
`u64` modulo `2 ^ 64`, and `-ERANGE` otherwise. -/
theorem strtoh_text (t_max : UInt64) (ht : t_max.toNat + 1 < 2 ^ 64) :
    __bch2_strtoh h.text t_max true =
      if h.Fits ∧ -((t_max.toNat : Int) + 1) ≤ h.toInt ∧ h.toInt ≤ t_max.toNat then
        .ok (UInt64.ofInt h.toInt)
      else .error (-ERANGE) := by
  obtain ⟨hdrop, hpos⟩ := h.text_sign
  obtain ⟨-, -, -, hend⟩ := h.suffix_spec
  have habs := h.toInt_natAbs
  simp only [__bch2_strtoh, hdrop, hpos, bind, Except.bind, strtou64_h_body]
  by_cases hv : h.Fits ∧ h.value < 2 ^ 64
  swap
  · -- a value past `U64_MAX` is out of every range
    rw [if_neg hv, if_neg]
    rintro ⟨hf, h₁, h₂⟩
    exact hv ⟨hf, by omega⟩
  simp only [if_pos hv, body_drop_newline, hend, ne_eq, not_true_eq_false, if_false,
    throw, throwThe, MonadExceptOf.throw, pure, Except.pure]
  -- the value fits; the sign decides the range test
  have hval : h.value.toUInt64.toNat = h.value := UInt64.toNat_ofNat_of_lt' hv.2
  by_cases hneg : h.sign = ['-']
  · -- `-v` is stored; `t_max + 1` does not wrap
    have hx : h.toInt = -(h.value : Int) := by simp [toInt, hneg]
    have ht1 : (t_max + 1).toNat = t_max.toNat + 1 := by
      rw [UInt64.toNat_add, UInt64.toNat_one]; omega
    simp only [hneg, decide_true, Bool.not_true, Bool.false_eq_true, if_false, and_false, hx]
    by_cases hr : h.value ≤ t_max.toNat + 1
    · rw [if_neg (by rw [gt_iff_lt, UInt64.lt_iff_toNat_lt, hval, ht1]; omega),
        if_pos ⟨hv.1, by omega, by omega⟩, UInt64.ofInt_neg, ofInt_natCast]
    · rw [if_pos (by rw [gt_iff_lt, UInt64.lt_iff_toNat_lt, hval, ht1]; omega), if_neg]
      omega
  · have hx : h.toInt = h.value := by simp [toInt, hneg]
    simp only [hneg, decide_false, Bool.not_false, if_true, hx]
    by_cases hr : h.value ≤ t_max.toNat
    · rw [if_neg (by rw [gt_iff_lt, UInt64.lt_iff_toNat_lt, hval]; omega),
        if_pos ⟨hv.1, by omega, by omega⟩, ofInt_natCast]
    · rw [if_pos (by rw [gt_iff_lt, UInt64.lt_iff_toNat_lt, hval]; omega), if_neg]
      omega

/-- `__bch2_strtoh` on `1536`, in the range of `int`. -/
theorem strtoh_text_ofNat : (2147483647 : UInt64).toNat + 1 < 2 ^ 64 ∧
    __bch2_strtoh (ofNat 1536).text 2147483647 true =
      if (ofNat 1536).Fits ∧ -(((2147483647 : UInt64).toNat : Int) + 1) ≤ (ofNat 1536).toInt ∧
          (ofNat 1536).toInt ≤ (2147483647 : UInt64).toNat then
        .ok (UInt64.ofInt (ofNat 1536).toInt)
      else .error (-ERANGE) :=
  ⟨by decide, strtoh_text (ofNat 1536) 2147483647 (by decide)⟩

end HumanReadable

/-! ### `STRTO_H` and the types it is used at -/

/-- `ANYSINT_MAX(t)` is `2 ^ (8 sizeof(t) - 1) - 1` for every type, unsigned ones too. -/
theorem ANYSINT_MAX_eq (size : Nat) (hsize : 1 ≤ size) :
    ANYSINT_MAX size = 2 ^ (size * 8 - 1) - 1 := by
  have hk : size * 8 - 1 = (size * 8 - 2) + 1 := by omega
  have hpos : 1 ≤ 2 ^ (size * 8 - 2) := Nat.one_le_two_pow
  rw [ANYSINT_MAX, Nat.shiftLeft_eq, Nat.one_mul, hk, pow_succ]
  omega

/-- `STRTO_H` on a form, for a type of `size` bytes whose `ANYSINT_MAX` is not `(type) ~0ULL`,
so that `__bch2_strtoh` is told it is signed. The value is accepted in
`[-2 ^ (8 size - 1), 2 ^ (8 size - 1))` and stored modulo `2 ^ 64` before the conversion. -/
theorem STRTO_H_text {α : Type} [BEq α] (size : Nat) (of_u64 : UInt64 → α) (h : HumanReadable)
    (hsize : 1 ≤ size) (hsize' : size ≤ 8)
    (hsigned : (of_u64 (ANYSINT_MAX size).toUInt64 != of_u64 (~~~0)) = true) :
    STRTO_H size of_u64 h.text =
      if h.Fits ∧ -(2 ^ (size * 8 - 1) : Int) ≤ h.toInt ∧ h.toInt < 2 ^ (size * 8 - 1) then
        (0, of_u64 (UInt64.ofInt h.toInt))
      else (-ERANGE, of_u64 0) := by
  have hpow : 2 ^ (size * 8 - 1) ≤ 2 ^ 63 := Nat.pow_le_pow_right (by decide) (by omega)
  have hpos : 1 ≤ 2 ^ (size * 8 - 1) := Nat.one_le_two_pow
  have hmax : (ANYSINT_MAX size).toUInt64.toNat = 2 ^ (size * 8 - 1) - 1 := by
    rw [UInt64.toNat_ofNat_of_lt' (by rw [ANYSINT_MAX_eq size hsize, UInt64.size]; omega),
      ANYSINT_MAX_eq size hsize]
  -- the type is told signed, so `__bch2_strtoh` tests `[-(max + 1), max]`
  simp only [STRTO_H, hsigned]
  rw [h.strtoh_text _ (by omega), hmax]
  have hcast : ((2 ^ (size * 8 - 1) - 1 : Nat) : Int) = 2 ^ (size * 8 - 1) - 1 := by
    rw [Nat.cast_sub hpos]; simp
  rw [hcast]
  by_cases hc : h.Fits ∧ -(2 ^ (size * 8 - 1) : Int) ≤ h.toInt ∧ h.toInt < 2 ^ (size * 8 - 1)
  · rw [if_pos ⟨hc.1, by omega, by omega⟩, if_pos hc]
  · rw [if_neg (fun hc' => hc ⟨hc'.1, by omega, by omega⟩), if_neg hc]

/-- A value stored in a `u64` from `Int` and cut to 32 bits is the value modulo `2 ^ 32`. -/
theorem toUInt32_ofInt (x : Int) : (UInt64.ofInt x).toUInt32 = UInt32.ofInt x := by
  rw [← UInt32.toNat_inj, UInt64.ofInt, UInt32.ofInt, UInt64.toUInt32_ofNat',
    UInt32.toNat_ofNat', UInt32.toNat_ofNat']
  omega

section Types

variable (h : HumanReadable)

/-- `bch2_strtouint_h` accepts the range of `int`: negative values are stored modulo `2 ^ 32`,
and values from `2 ^ 31` are out of range. -/
theorem strtouint_h_text :
    bch2_strtouint_h h.text =
      if h.Fits ∧ -2 ^ 31 ≤ h.toInt ∧ h.toInt < 2 ^ 31 then (0, UInt32.ofInt h.toInt)
      else (-ERANGE, 0) := by
  rw [bch2_strtouint_h, STRTO_H_text 4 _ h (by decide) (by decide) (by decide)]
  simp only [toUInt32_ofInt]
  rfl

/-- `bch2_strtou64_h` accepts the range of `long long`. -/
theorem strtou64_h_text :
    bch2_strtou64_h h.text =
      if h.Fits ∧ -2 ^ 63 ≤ h.toInt ∧ h.toInt < 2 ^ 63 then (0, UInt64.ofInt h.toInt)
      else (-ERANGE, 0) := by
  rw [bch2_strtou64_h, STRTO_H_text 8 _ h (by decide) (by decide) (by decide)]
  rfl

end Types

/-! ### What `__bch2_strtoh` accepts -/

open Bcachefs.Loop

/-- Every string is a run of digits followed by something that does not start with one. -/
theorem exists_digits_append (cp : List Char) :
    ∃ D t, cp = D ++ t ∧ (∀ c ∈ D, c.isDigit = true) ∧ (deref t).isDigit = false := by
  refine ⟨cp.takeWhile Char.isDigit, cp.dropWhile Char.isDigit,
    List.takeWhile_append_dropWhile.symm, fun c hc => List.mem_takeWhile_imp hc, ?_⟩
  have hhead := List.head?_dropWhile_not Char.isDigit cp
  cases ht : cp.dropWhile Char.isDigit with
  | nil => rfl
  | cons c t => simpa [ht, deref] using hhead

/-- `parse_u64` finds no digit, or reads the whole run of digits. -/
theorem parse_u64_cases (cp : List Char) :
    parse_u64 cp = .error (-EINVAL) ∨
      ∃ D t, cp = D ++ t ∧ D ≠ [] ∧ (∀ c ∈ D, c.isDigit = true) ∧
        parse_u64 cp =
          if Nat.ofDigitChars 10 D 0 < 2 ^ 64 then
            .ok (D.length, (Nat.ofDigitChars 10 D 0).toUInt64)
          else .error (-ERANGE) := by
  obtain ⟨D, t, rfl, hD, ht⟩ := exists_digits_append cp
  -- no digit is `-EINVAL`; a run of digits is read whole
  by_cases hne : D = []
  · left
    subst hne
    simp [parse_u64, ht]
  · exact .inr ⟨D, t, rfl, hne, hD, parse_u64_digits D t hne hD ht⟩

/-- What `parse_u64` reads when it succeeds: a nonempty run of digits, as many characters as it
says. -/
theorem parse_u64_ok {cp : List Char} {n : Nat} {v : UInt64} (hok : parse_u64 cp = .ok (n, v)) :
    ∃ D, D ≠ [] ∧ (∀ c ∈ D, c.isDigit = true) ∧ cp = D ++ cp.drop n ∧ n = D.length := by
  -- an error is no success; a run read whole is the digits and their count
  rcases parse_u64_cases cp with he | ⟨D, t, rfl, hne, hD, heq⟩
  · rw [he] at hok; cases hok
  · rw [heq] at hok
    split at hok
    · cases hok
      exact ⟨D, hne, hD, by simp, rfl⟩
    · cases hok

/-- What the fraction reads when it succeeds: nothing, or a `.` and a nonempty run of digits. -/
theorem strtou64_h_frac_ok {cp : List Char} {n : Nat} {f_n f_d : UInt64}
    (hok : strtou64_h_frac cp = .ok (n, f_n, f_d)) :
    ∃ fr : Option (List Char), (∀ F ∈ fr, F ≠ [] ∧ ∀ c ∈ F, c.isDigit = true) ∧
      cp = (fr.map ('.' :: ·)).getD [] ++ cp.drop n ∧ n = ((fr.map ('.' :: ·)).getD []).length := by
  unfold strtou64_h_frac at hok
  split at hok
  · rename_i hdot
    -- `cp` is `.` and the digits of the fraction
    obtain ⟨⟨ret, f⟩, hp, hok⟩ := bind_eq_ok.1 hok
    obtain ⟨q, -, hok⟩ := bind_eq_ok.1 hok
    cases hok
    obtain ⟨F, hFne, hF, hcp, rfl⟩ := parse_u64_ok hp
    obtain ⟨c, t, rfl⟩ : ∃ c t, cp = c :: t := by
      cases cp with
      | nil => simp [deref] at hdot
      | cons c t => exact ⟨c, t, rfl⟩
    simp only [deref, List.headD_cons] at hdot
    subst hdot
    refine ⟨some F, by simpa using ⟨hFne, hF⟩, ?_, by simp; omega⟩
    simp only [List.drop_one, List.tail_cons] at hcp
    simp only [Option.map_some, Option.getD_some, List.cons_append, Nat.add_comm 1,
      List.drop_succ_cons]
    exact congrArg _ hcp
  -- no `.`: nothing is read
  · cases hok
    exact ⟨none, by simp, by simp, rfl⟩

/-- Every letter of `si_units` after the `?` is a unit of `human_units`, of its multiplier. -/
theorem si_units_mem : ∀ p ∈ si_units.zipIdx.drop 1, ([p.1], 1024 ^ p.2) ∈ human_units := by
  decide

/-- No letter of `si_units` after the `?` is the NUL character. -/
theorem si_units_ne_nul : ∀ p ∈ si_units.zipIdx.drop 1, p.1 ≠ '\x00' := by decide

/-- An entry of `zipIdx` pairs a member of the list with its index. -/
theorem fst_mem_of_mem_zipIdx {α : Type} {l : List α} {p : α × Nat} (h : p ∈ l.zipIdx) :
    p.1 ∈ l := by
  rw [List.fst_eq_of_mem_zipIdx h]
  exact List.getElem_mem _

/-- Every entry of `units_2` and `units_10` is a unit of `human_units`, or starts with a letter
of `si_units`, which `parse_unit_suffix` tries first. -/
theorem units_mem_or_si : ∀ unit ∈ units_2 ++ units_10, unit ≠ [] ∧
    (unit ∈ human_units.map Prod.fst ∨ ∃ p ∈ si_units.zipIdx.drop 1, unit.head? = some p.1) := by
  decide

/-- The space `parse_unit_suffix` skips. -/
theorem take_adv (cp : List Char) :
    (cp.take (if deref cp = ' ' then 1 else 0) = [] ∨
        cp.take (if deref cp = ' ' then 1 else 0) = [' ']) ∧
      (cp.take (if deref cp = ' ' then 1 else 0)).length = if deref cp = ' ' then 1 else 0 := by
  cases cp with
  | nil => simp [deref]
  | cons c t => by_cases hc : c = ' ' <;> simp [deref, hc]

/-- An entry of `units_2` or `units_10` that `parse_unit_suffix` reaches and matches is a unit of
`human_units`: the letter of `si_units` it would start with has not matched. -/
theorem table_unit_mem {cp : List Char} {unit : List Char} (hmem : unit ∈ units_2 ++ units_10)
    (hsi : ∀ p ∈ si_units.zipIdx.drop 1, ¬(deref cp == p.1) = true)
    (hpre : unit.isPrefixOf cp = true) :
    unit ≠ [] ∧ (∃ m, (unit, m) ∈ human_units) ∧ cp = unit ++ cp.drop unit.length := by
  obtain ⟨hne, hunit⟩ := units_mem_or_si unit hmem
  have hcp : cp = unit ++ cp.drop unit.length :=
    (List.prefix_iff_eq_append.1 (List.isPrefixOf_iff_prefix.1 hpre)).symm
  refine ⟨hne, ?_, hcp⟩
  rcases hunit with hunit | ⟨p, hp, hhead⟩
  · obtain ⟨⟨u, m⟩, hum, rfl⟩ := List.mem_map.1 hunit
    exact ⟨m, hum⟩
  · -- the unit starts with a letter that `cp` would have matched first
    obtain ⟨c, t, rfl⟩ := List.exists_cons_of_ne_nil hne
    simp only [List.head?_cons, Option.some.injEq] at hhead
    exact absurd (by rw [hcp]; simp [deref, hhead]) (hsi p hp)

/-- What `parse_unit_suffix` reads: an optional space and a unit of `human_units`, the space only
before a unit. -/
theorem parse_unit_suffix_ok {cp : List Char} {n : Nat} {b : UInt64}
    (hok : parse_unit_suffix cp = .ok (n, b)) :
    ∃ sp u, u ∈ human_units ∧ (sp = [] ∨ sp = [' '] ∧ u.1 ≠ []) ∧
      cp = sp ++ u.1 ++ cp.drop n ∧ n = sp.length + u.1.length := by
  obtain ⟨hsp, hlen⟩ := take_adv cp
  simp only [parse_unit_suffix] at hok
  generalize hadv : (if deref cp = ' ' then 1 else 0) = adv at hok hsp hlen
  have hcp : cp = cp.take adv ++ cp.drop adv := (List.take_append_drop adv cp).symm
  -- a unit `unit` read after the space leaves the rest of `cp` after it
  have hread : ∀ unit : List Char, cp.drop adv = unit ++ (cp.drop adv).drop unit.length →
      cp = cp.take adv ++ unit ++ cp.drop (adv + unit.length) := by
    intro unit hu
    rw [List.append_assoc, ← List.drop_drop, ← hu]
    exact hcp
  split at hok
  · -- a letter of `si_units`
    rename_i c u hfind
    obtain ⟨r, -, hr⟩ := bind_eq_ok.1 hok
    simp only [pure, Except.pure, Except.ok.injEq, Prod.mk.injEq] at hr
    obtain ⟨rfl, -⟩ := hr
    have hc : deref (cp.drop adv) = c := by simpa using List.find?_some hfind
    have hc0 : c ≠ '\x00' := si_units_ne_nul _ (List.mem_of_find?_eq_some hfind)
    have hu : cp.drop adv = [c] ++ (cp.drop adv).drop [c].length := by
      cases hd : cp.drop adv with
      | nil => rw [hd] at hc; exact absurd hc.symm hc0
      | cons c' t => rw [hd] at hc; simp [deref] at hc; simp [hc]
    refine ⟨cp.take adv, ([c], 1024 ^ u), si_units_mem _ (List.mem_of_find?_eq_some hfind),
      hsp.imp_right fun h => ⟨h, by simp⟩, hread [c] hu, by simp [hlen]⟩
  · rename_i hsi
    have hsi' := List.find?_eq_none.1 hsi
    split at hok
    · -- an entry of `units_2`
      rename_i unit u hfind
      obtain ⟨r, -, hr⟩ := bind_eq_ok.1 hok
      simp only [pure, Except.pure, Except.ok.injEq, Prod.mk.injEq] at hr
      obtain ⟨rfl, -⟩ := hr
      have hmem : unit ∈ units_2 ++ units_10 :=
        List.mem_append_left _ (fst_mem_of_mem_zipIdx (List.mem_of_find?_eq_some hfind))
      have hpre := List.find?_some hfind
      obtain ⟨hne, ⟨m, hum⟩, hu⟩ := table_unit_mem hmem hsi' hpre
      exact ⟨cp.take adv, (unit, m), hum, hsp.imp_right fun h => ⟨h, hne⟩, hread unit hu,
        by simp [hlen]⟩
    split at hok
    · -- an entry of `units_10`
      rename_i unit u hfind
      obtain ⟨r, -, hr⟩ := bind_eq_ok.1 hok
      simp only [pure, Except.pure, Except.ok.injEq, Prod.mk.injEq] at hr
      obtain ⟨rfl, -⟩ := hr
      have hmem : unit ∈ units_2 ++ units_10 :=
        List.mem_append_right _ (fst_mem_of_mem_zipIdx (List.mem_of_find?_eq_some hfind))
      have hpre := List.find?_some hfind
      obtain ⟨hne, ⟨m, hum⟩, hu⟩ := table_unit_mem hmem hsi' hpre
      exact ⟨cp.take adv, (unit, m), hum, hsp.imp_right fun h => ⟨h, hne⟩, hread unit hu,
        by simp [hlen]⟩
    · -- no unit: the space is not read either
      simp only [pure, Except.pure, Except.ok.injEq, Prod.mk.injEq] at hok
      obtain ⟨rfl, -⟩ := hok
      exact ⟨[], ([], 1), by decide, .inl rfl, by simp, rfl⟩

/-- What `__bch2_strtou64_h` reads: digits, an optional fraction and a unit suffix. -/
theorem strtou64_h_ok {cp : List Char} {n : Nat} {v : UInt64}
    (hok : __bch2_strtou64_h cp = .ok (n, v)) :
    ∃ (D : List Char) (fr : Option (List Char)) (sp : List Char) (u : List Char × Nat),
      D ≠ [] ∧ (∀ c ∈ D, c.isDigit = true) ∧
      (∀ F ∈ fr, F ≠ [] ∧ ∀ c ∈ F, c.isDigit = true) ∧ u ∈ human_units ∧
      (sp = [] ∨ sp = [' '] ∧ u.1 ≠ []) ∧
      cp = D ++ (fr.map ('.' :: ·)).getD [] ++ sp ++ u.1 ++ cp.drop n := by
  simp only [__bch2_strtou64_h] at hok
  obtain ⟨⟨n₁, w₁⟩, hp, hok⟩ := bind_eq_ok.1 hok
  obtain ⟨⟨n₂, f_n, f_d⟩, hf, hok⟩ := bind_eq_ok.1 hok
  obtain ⟨⟨n₃, b⟩, hs, hok⟩ := bind_eq_ok.1 hok
  -- the overflow checks passed, and the count is the sum of the three
  have hn : n = n₁ + n₂ + n₃ := by
    simp only [bind, Except.bind, throw, throwThe, MonadExceptOf.throw, pure,
      Except.pure] at hok
    split_ifs at hok
    simp only [Except.ok.injEq, Prod.mk.injEq] at hok
    exact hok.1.symm
  obtain ⟨D, hDne, hD, hcp₁, rfl⟩ := parse_u64_ok hp
  obtain ⟨fr, hfr, hcp₂, rfl⟩ := strtou64_h_frac_ok hf
  obtain ⟨sp, u, hu, hsp, hcp₃, rfl⟩ := parse_unit_suffix_ok hs
  refine ⟨D, fr, sp, u, hDne, hD, hfr, hu, hsp, ?_⟩
  simp only [List.drop_drop] at hcp₂ hcp₃
  rw [hn]
  conv_lhs => rw [hcp₁, hcp₂, hcp₃]
  simp only [List.append_assoc, Nat.add_assoc]

/-- The sign `__bch2_strtoh` skips. -/
theorem exists_sign_append (s : List Char) :
    ∃ sign, sign ∈ [[], ['+'], ['-']] ∧
      s = sign ++ (if deref s = '+' ∨ deref s = '-' then s.drop 1 else s) := by
  -- the sign `__bch2_strtoh` skips is a leading `+` or `-`, if any
  cases s with
  | nil => exact ⟨[], by simp, by simp [deref]⟩
  | cons c t =>
    by_cases hp : c = '+'
    · exact ⟨['+'], by simp, by simp [deref, hp]⟩
    by_cases hm : c = '-'
    · exact ⟨['-'], by simp, by simp [deref, hm]⟩
    exact ⟨[], by simp, by simp [deref, hp, hm]⟩

/-- What `__bch2_strtoh` finds at the end of a string without `'\x00'`: an optional newline. -/
theorem newline_of_end {l : List Char} (hl : '\x00' ∉ l)
    (hend : deref (if deref l = '\n' then l.drop 1 else l) = '\x00') : l ∈ [[], ['\n']] := by
  -- after an optional newline the string must end, and it holds no NUL before
  cases l with
  | nil => simp
  | cons c t =>
    by_cases hc : c = '\n'
    · subst hc
      cases t with
      | nil => simp
      | cons c' t' =>
        simp only [deref, List.headD_cons, if_true, List.drop_one, List.tail_cons] at hend
        exact absurd (by simp [hend]) hl
    · simp only [deref, List.headD_cons, hc, if_false] at hend
      exact absurd (by simp [hend]) hl

/-- A string without `'\x00'` that `__bch2_strtoh` accepts is the text of a form. -/
theorem exists_text_of_strtoh {s : List Char} {t_max : UInt64} {t_signed : Bool} {v : UInt64}
    (hs : '\x00' ∉ s) (hok : __bch2_strtoh s t_max t_signed = .ok v) :
    ∃ h : HumanReadable, h.text = s := by
  obtain ⟨sign, hsign, hsplit⟩ := exists_sign_append s
  simp only [__bch2_strtoh] at hok
  generalize hs₁ : (if deref s = '+' ∨ deref s = '-' then s.drop 1 else s) = s₁ at hok hsplit
  obtain ⟨⟨n, w⟩, hu, hok⟩ := bind_eq_ok.1 hok
  obtain ⟨D, fr, sp, u, hDne, hD, hfr, hum, hsp, hcp⟩ := strtou64_h_ok hu
  -- past the number, an optional newline and the end of the string
  have hend : deref (if deref (s₁.drop n) = '\n' then (s₁.drop n).drop 1 else s₁.drop n) =
      '\x00' := by
    by_contra hne
    simp only [bind, Except.bind, throw, throwThe, MonadExceptOf.throw, pure, Except.pure,
      if_pos hne] at hok
    cases hok
  have hnl : s₁.drop n ∈ [[], ['\n']] := by
    refine newline_of_end (fun hmem => hs ?_) hend
    rw [hsplit]
    exact List.mem_append_right _ (List.mem_of_mem_drop hmem)
  refine ⟨⟨sign, D, fr, sp, u, s₁.drop n, hsign, hDne, hD, fun F hF => (hfr F hF).1,
    fun F hF => (hfr F hF).2, hum, hsp, hnl⟩, ?_⟩
  rw [hsplit]
  conv_rhs => rw [hcp]
  simp [HumanReadable.text, HumanReadable.body, HumanReadable.suffix, HumanReadable.fracText]

/-- `"1.5k"`, which `__bch2_strtoh` reads as `1536`, is the text of a form. -/
theorem exists_text_of_strtoh_kibi : '\x00' ∉ "1.5k".toList ∧
    __bch2_strtoh "1.5k".toList 2147483647 true = .ok 1536 ∧
    ∃ h : HumanReadable, h.text = "1.5k".toList :=
  ⟨by decide, by decide +kernel,
    @exists_text_of_strtoh _ 2147483647 true 1536 (by decide) (by decide +kernel)⟩

end Bcachefs.Proofs.Util
