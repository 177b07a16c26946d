import Mathlib.Data.Nat.Bitwise

/-!
# `Bcachefs.Bits.Scan`: the highest and the lowest set bit of a number made of parts

A multi-word number is scanned a word at a time: the high part `a` and the low part `x` of
`2 ^ m * a + x`, with `x < 2 ^ m`. The lemmas say how a scan's answer for the whole is read
off the parts:

* `xor_two_pow_mul_add`: exclusive or acts on the parts separately;
* `log2_two_pow_mul_add`: the highest set bit lies in the high part when it is not zero;
  `testBit_log2_xor` says the highest set bit of `a ^^^ b` is where `a` and `b` last differ;
* `LowestSetBit`, the index of the lowest set bit, lies in the low part when it is not zero
  (`lowestSetBit_two_pow_mul_add`), and is shifted up by `m` when the low part is zero
  (`lowestSetBit_two_pow_mul`); `lowestSetBit_of_odd` and `lowestSetBit_of_even` are the
  two cases of a bit-by-bit count.

A word scanned from bit `o` up is masked with `2 ^ o * (2 ^ t - 1)`
(`and_two_pow_mul_two_pow_sub_one`); adding `2 ^ o` carries out of the top exactly when those
bits are all ones (`add_two_pow_lt_iff`) and then keeps the bits below `o`
(`add_two_pow_eq_of_not_lt`); `add_mul_lt_mul_iff_of_lt` and `add_mul_mod_mul_of_lt` take a
number of a low and a high part apart against a bound and a modulus.

Nothing here names the file system.
-/

set_option autoImplicit false

namespace Bcachefs.Bits

/-- Exclusive or of two numbers split at bit `m` is the exclusive or of their parts. -/
theorem xor_two_pow_mul_add {m a b x y : ℕ} (hx : x < 2 ^ m) (hy : y < 2 ^ m) :
    (2 ^ m * a + x) ^^^ (2 ^ m * b + y) = 2 ^ m * (a ^^^ b) + (x ^^^ y) := by
  apply Nat.eq_of_testBit_eq
  intro i
  rw [Nat.testBit_xor, Nat.testBit_two_pow_mul_add a hx, Nat.testBit_two_pow_mul_add b hy,
    Nat.testBit_two_pow_mul_add (a ^^^ b) (Nat.xor_lt_two_pow hx hy)]
  by_cases hi : i < m
  · rw [if_pos hi, if_pos hi, if_pos hi, Nat.testBit_xor]
  · rw [if_neg hi, if_neg hi, if_neg hi, Nat.testBit_xor]

/-- The highest set bit of a number whose high part is not zero is in its high part. -/
theorem log2_two_pow_mul_add {m c z : ℕ} (hc : c ≠ 0) (hz : z < 2 ^ m) :
    Nat.log2 (2 ^ m * c + z) = m + Nat.log2 c := by
  have hpos : 0 < 2 ^ m * c := Nat.mul_pos (Nat.two_pow_pos m) (Nat.pos_of_ne_zero hc)
  rw [Nat.log2_eq_iff (by omega)]
  constructor
  · calc 2 ^ (m + Nat.log2 c) = 2 ^ m * 2 ^ Nat.log2 c := pow_add 2 m _
      _ ≤ 2 ^ m * c := Nat.mul_le_mul_left _ (Nat.log2_self_le hc)
      _ ≤ 2 ^ m * c + z := Nat.le_add_right _ _
  · calc 2 ^ m * c + z < 2 ^ m * (c + 1) := by rw [Nat.mul_succ]; omega
      _ ≤ 2 ^ m * 2 ^ (Nat.log2 c + 1) := Nat.mul_le_mul_left _ Nat.lt_log2_self
      _ = 2 ^ (m + Nat.log2 c + 1) := by rw [← pow_add, Nat.add_assoc]

/-- Above the highest set bit every bit is clear. -/
theorem testBit_eq_false_of_log2_lt {x j : ℕ} (h : Nat.log2 x < j) : x.testBit j = false := by
  by_cases hx : x = 0
  · rw [hx, Nat.zero_testBit]
  · apply Nat.testBit_lt_two_pow
    calc x < 2 ^ (Nat.log2 x + 1) := Nat.lt_log2_self
      _ ≤ 2 ^ j := Nat.pow_le_pow_right (by decide) h

/-- The bits of `w` from bit `o` up, kept by the mask `2 ^ o * (2 ^ t - 1)` that covers the
top `t` bits of a number of `o + t` bits. -/
theorem and_two_pow_mul_two_pow_sub_one {w o t : ℕ} (hw : w < 2 ^ (o + t)) :
    w &&& 2 ^ o * (2 ^ t - 1) = 2 ^ o * (w / 2 ^ o) := by
  apply Nat.eq_of_testBit_eq
  intro j
  rw [Nat.testBit_and, Nat.testBit_two_pow_mul, Nat.testBit_two_pow_mul,
    Nat.testBit_two_pow_sub_one, Nat.testBit_div_two_pow]
  by_cases hjo : o ≤ j
  · rw [Nat.sub_add_cancel hjo]
    by_cases hjt : j - o < t
    · simp [hjo, hjt]
    · -- past the top of the number: its bit is clear as well
      rw [Nat.testBit_lt_two_pow (lt_of_lt_of_le hw (Nat.pow_le_pow_right (by decide)
        (by omega)))]
      simp
  · simp [hjo]

/-- Adding `2 ^ o` to a number of `o + n` bits carries out of its top exactly when its bits
from `o` up are all ones. -/
theorem add_two_pow_lt_iff {V o n : ℕ} :
    V + 2 ^ o < 2 ^ (o + n) ↔ V / 2 ^ o + 1 < 2 ^ n := by
  rw [pow_add, Nat.mul_comm, ← Nat.div_lt_iff_lt_mul (Nat.two_pow_pos o),
    Nat.add_div_right _ (Nat.two_pow_pos o)]

/-- A carry out of the top of a number of `o + n` bits leaves its bits below `o`. -/
theorem add_two_pow_eq_of_not_lt {V o n : ℕ} (hV : V < 2 ^ (o + n))
    (h : ¬ V + 2 ^ o < 2 ^ (o + n)) : V + 2 ^ o = 2 ^ (o + n) + V % 2 ^ o := by
  rw [add_two_pow_lt_iff] at h
  have hhigh : V / 2 ^ o < 2 ^ n := by
    rw [Nat.div_lt_iff_lt_mul (Nat.two_pow_pos o), ← pow_add, Nat.add_comm]
    exact hV
  -- the bits from `o` up are all ones
  have hones : V / 2 ^ o + 1 = 2 ^ n := by omega
  have hsplit := Nat.div_add_mod V (2 ^ o)
  calc V + 2 ^ o = 2 ^ o * (V / 2 ^ o + 1) + V % 2 ^ o := by rw [Nat.mul_succ]; omega
    _ = 2 ^ (o + n) + V % 2 ^ o := by rw [hones, pow_add]

/-- A number of a low part below `b` and a high part `c` stays below `b * m` exactly when
its high part stays below `m`. -/
theorem add_mul_lt_mul_iff_of_lt {a b c m : ℕ} (h : a < b) : a + b * c < b * m ↔ c < m := by
  rw [Nat.mul_comm b m, ← Nat.div_lt_iff_lt_mul (by omega), Nat.add_mul_div_left _ _ (by omega),
    Nat.div_eq_of_lt h, Nat.zero_add]

/-- A number of a low part below `b` and a high part `c`, modulo `b * m`: the low part, and
the high part modulo `m`. -/
theorem add_mul_mod_mul_of_lt {a b c m : ℕ} (h : a < b) :
    (a + b * c) % (b * m) = a + b * (c % m) := by
  rw [Nat.mod_mul, Nat.add_mul_div_left _ _ (by omega), Nat.div_eq_of_lt h, Nat.zero_add,
    Nat.add_mul_mod_self_left, Nat.mod_eq_of_lt h]

/-- The highest set bit of `a ^^^ b` is the highest bit at which `a` and `b` differ. -/
theorem testBit_log2_xor {a b : ℕ} (h : a ≠ b) :
    a.testBit (Nat.log2 (a ^^^ b)) ≠ b.testBit (Nat.log2 (a ^^^ b)) ∧
      ∀ j, Nat.log2 (a ^^^ b) < j → a.testBit j = b.testBit j := by
  have hx : a ^^^ b ≠ 0 := fun h0 => h (Nat.xor_eq_zero_iff.mp h0)
  constructor
  · intro heq
    have hbit := Nat.testBit_log2 hx
    rw [Nat.testBit_xor, heq, Bool.xor_self] at hbit
    exact Bool.false_ne_true hbit
  · intro j hj
    have hbit := testBit_eq_false_of_log2_lt hj
    rw [Nat.testBit_xor] at hbit
    revert hbit
    cases a.testBit j <;> cases b.testBit j <;> decide

/-- `r` is the index of the lowest set bit of `x`: bit `r` is set, and no bit below it. -/
def LowestSetBit (x r : ℕ) : Prop := x.testBit r = true ∧ ∀ j < r, x.testBit j = false

/-- A number has one lowest set bit. -/
theorem LowestSetBit.unique {x r r' : ℕ} (h : LowestSetBit x r) (h' : LowestSetBit x r') :
    r = r' := by
  by_contra hne
  rcases Nat.lt_or_gt_of_ne hne with hlt | hlt
  · exact absurd h.1 (by rw [h'.2 r hlt]; decide)
  · exact absurd h'.1 (by rw [h.2 r' hlt]; decide)

/-- The lowest set bit of a number below `2 ^ w` is below `w`. -/
theorem LowestSetBit.lt_of_lt_two_pow {x r w : ℕ} (h : LowestSetBit x r) (hx : x < 2 ^ w) :
    r < w := by
  by_contra hge
  exact absurd h.1 (by
    rw [Nat.testBit_lt_two_pow (lt_of_lt_of_le hx (Nat.pow_le_pow_right (by decide)
      (not_lt.mp hge)))]
    decide)

/-- Zero has no set bit. -/
theorem not_lowestSetBit_zero (r : ℕ) : ¬ LowestSetBit 0 r := by
  intro h
  exact absurd h.1 (by rw [Nat.zero_testBit]; decide)

/-- The lowest set bit of an odd number is bit `0`. -/
theorem lowestSetBit_of_odd {x : ℕ} (hx : x % 2 = 1) : LowestSetBit x 0 :=
  ⟨by rw [Nat.testBit_zero]; simp [hx], fun _ hj => absurd hj (Nat.not_lt_zero _)⟩

/-- The lowest set bit of an even number is one above that of its half. -/
theorem lowestSetBit_of_even {x r : ℕ} (hx : x % 2 = 0) (h : LowestSetBit (x / 2) r) :
    LowestSetBit x (r + 1) := by
  refine ⟨by rw [Nat.testBit_succ]; exact h.1, fun j hj => ?_⟩
  cases j with
  | zero => rw [Nat.testBit_zero]; simp [hx]
  | succ j => rw [Nat.testBit_succ]; exact h.2 j (by omega)

/-- A number that is not zero has a lowest set bit: halve it until it is odd. -/
theorem exists_lowestSetBit {x : ℕ} (hx : x ≠ 0) : ∃ r, LowestSetBit x r := by
  induction x using Nat.strong_induction_on with
  | _ x ih =>
    by_cases hodd : x % 2 = 1
    · exact ⟨0, lowestSetBit_of_odd hodd⟩
    · obtain ⟨r, hr⟩ := ih (x / 2) (by omega) (by omega)
      exact ⟨r + 1, lowestSetBit_of_even (by omega) hr⟩

section Parts

variable {m a x r : ℕ}

/-- The lowest set bit of a number whose low part is not zero is that of its low part. -/
theorem lowestSetBit_two_pow_mul_add (hx : x < 2 ^ m) (hx0 : x ≠ 0) :
    LowestSetBit (2 ^ m * a + x) r ↔ LowestSetBit x r := by
  have hbit : ∀ j < m, (2 ^ m * a + x).testBit j = x.testBit j := fun j hj => by
    rw [Nat.testBit_two_pow_mul_add a hx, if_pos hj]
  -- the low part has a set bit, and it lies below `m`
  obtain ⟨r₀, hr₀⟩ := exists_lowestSetBit hx0
  have hr₀m : r₀ < m := by
    by_contra hge
    exact absurd hr₀.1 (by rw [Nat.testBit_eq_false_of_lt (lt_of_lt_of_le hx
      (Nat.pow_le_pow_right (by decide) (not_lt.mp hge)))]; decide)
  have hwhole : LowestSetBit (2 ^ m * a + x) r₀ :=
    ⟨by rw [hbit r₀ hr₀m]; exact hr₀.1,
      fun j hj => by rw [hbit j (by omega)]; exact hr₀.2 j hj⟩
  constructor
  · intro h
    rw [h.unique hwhole]
    exact hr₀
  · intro h
    rw [h.unique hr₀]
    exact hwhole

/-- The lowest set bit of a multiple of `2 ^ m` is `m` above that of the quotient. -/
theorem lowestSetBit_two_pow_mul (r : ℕ) :
    LowestSetBit (2 ^ m * a) (m + r) ↔ LowestSetBit a r := by
  have hbit : ∀ j, (2 ^ m * a).testBit j = if j < m then false else a.testBit (j - m) := by
    intro j
    rw [← Nat.add_zero (2 ^ m * a), Nat.testBit_two_pow_mul_add a (Nat.two_pow_pos m),
      Nat.zero_testBit]
  constructor
  · rintro ⟨h1, h2⟩
    refine ⟨by rw [hbit, if_neg (by omega), Nat.add_sub_cancel_left] at h1; exact h1,
      fun j hj => ?_⟩
    have := h2 (m + j) (by omega)
    rwa [hbit, if_neg (by omega), Nat.add_sub_cancel_left] at this
  · rintro ⟨h1, h2⟩
    refine ⟨by rw [hbit, if_neg (by omega), Nat.add_sub_cancel_left]; exact h1, fun j hj => ?_⟩
    rw [hbit]
    by_cases hjm : j < m
    · rw [if_pos hjm]
    · rw [if_neg hjm]
      exact h2 (j - m) (by omega)

end Parts

end Bcachefs.Bits
