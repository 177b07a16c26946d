import Mathlib.Data.List.Perm.Basic
import Mathlib.Logic.Equiv.Basic
import Mathlib.Data.List.Nodup

/-!
# `Bcachefs.Bits.XorSum`: XOR sums of bytes

`xorSum l f` is the XOR of the bytes `f i` over the list `l`, folded from the left from `0`:
what a loop computes that XORs buffers, one byte position at a time, into an accumulator.
Bytes under XOR are a group in which every element is its own inverse, and the lemmas are
what that gives:

* `foldl_xor_eq`: a fold from any start is the start XORed with the sum.
* `xorSum_cons`, `xorSum_append`, `xorSum_range_succ`: how sums split.
* `xorSum_perm`: the order of the terms does not matter; `xorSum_range_comp_swap` the form it
  takes for two terms of a range swapped.
* `xorSum_erase`: the sum of all terms but one is the sum of all of them, XORed with the one
  left out; `xorSum_erase_eq_of_sum_eq` the form a parity block is recovered by.

Nothing here names the file system.
-/

set_option autoImplicit false

namespace Bcachefs.Bits

variable {ι : Type*}

/-- The XOR of `f i` over the terms `i` of `l`. -/
def xorSum (l : List ι) (f : ι → UInt8) : UInt8 :=
  l.foldl (fun acc i => acc ^^^ f i) 0

/-- A fold of XORs from any start is the start XORed with the sum. -/
theorem foldl_xor_eq (f : ι → UInt8) :
    ∀ (l : List ι) (a : UInt8), l.foldl (fun acc i => acc ^^^ f i) a = a ^^^ xorSum l f
  | [], a => by simp [xorSum]
  | i :: l, a => by
    -- the sum of `i :: l` is the fold from `f i`, by the same statement at `0`
    have hcons : xorSum (i :: l) f = f i ^^^ xorSum l f := by
      rw [xorSum, List.foldl_cons, foldl_xor_eq f l, UInt8.zero_xor]
    rw [List.foldl_cons, foldl_xor_eq f l, hcons, UInt8.xor_assoc]

/-- The sum of no terms is `0`. -/
@[simp] theorem xorSum_nil (f : ι → UInt8) : xorSum [] f = 0 := rfl

/-- A term in front is XORed onto the sum of the rest. -/
@[simp] theorem xorSum_cons (i : ι) (l : List ι) (f : ι → UInt8) :
    xorSum (i :: l) f = f i ^^^ xorSum l f := by
  rw [xorSum, List.foldl_cons, foldl_xor_eq, UInt8.zero_xor]

/-- The sum of two lists of terms is the XOR of their sums. -/
theorem xorSum_append (l₁ l₂ : List ι) (f : ι → UInt8) :
    xorSum (l₁ ++ l₂) f = xorSum l₁ f ^^^ xorSum l₂ f := by
  rw [xorSum, List.foldl_append, foldl_xor_eq]
  rfl

/-- One more term of a range is XORed onto the sum. -/
theorem xorSum_range_succ (n : Nat) (f : Nat → UInt8) :
    xorSum (List.range (n + 1)) f = xorSum (List.range n) f ^^^ f n := by
  rw [List.range_succ, xorSum_append, xorSum_cons, xorSum_nil, UInt8.xor_zero]

/-- Terms that agree on the list give the same sum. -/
theorem xorSum_congr {l : List ι} {f g : ι → UInt8} (h : ∀ i ∈ l, f i = g i) :
    xorSum l f = xorSum l g := by
  induction l with
  | nil => rfl
  | cons i l ih =>
    rw [xorSum_cons, xorSum_cons, h i List.mem_cons_self,
      ih fun j hj => h j (List.mem_cons_of_mem i hj)]

/-- The order of the terms does not matter. -/
theorem xorSum_perm {l₁ l₂ : List ι} (hp : l₁.Perm l₂) (f : ι → UInt8) :
    xorSum l₁ f = xorSum l₂ f := by
  -- XOR is associative and commutative, so the fold does not depend on the order
  have : RightCommutative (fun (acc : UInt8) (i : ι) => acc ^^^ f i) :=
    ⟨fun a i j => by rw [UInt8.xor_assoc, UInt8.xor_comm (f i), ← UInt8.xor_assoc]⟩
  exact hp.foldl_eq 0

/-- Summing over a renamed list sums the renamed terms. -/
theorem xorSum_map {κ : Type*} (l : List κ) (σ : κ → ι) (f : ι → UInt8) :
    xorSum (l.map σ) f = xorSum l (f ∘ σ) := by
  induction l with
  | nil => rfl
  | cons i l ih => rw [List.map_cons, xorSum_cons, xorSum_cons, ih, Function.comp_apply]

/-- Swapping two terms of a range leaves its sum alone. -/
theorem xorSum_range_comp_swap {n a b : Nat} (ha : a < n) (hb : b < n) (f : Nat → UInt8) :
    xorSum (List.range n) (f ∘ Equiv.swap a b) = xorSum (List.range n) f := by
  rw [← xorSum_map]
  apply xorSum_perm
  -- both lists are the numbers below `n`, once each
  rw [List.perm_ext_iff_of_nodup (List.Nodup.map (Equiv.swap a b).injective List.nodup_range)
    List.nodup_range]
  intro x
  simp only [List.mem_map, List.mem_range]
  constructor
  · rintro ⟨y, hy, rfl⟩
    rw [Equiv.swap_apply_def]
    split_ifs <;> omega
  · intro hx
    refine ⟨Equiv.swap a b x, ?_, Equiv.swap_apply_self a b x⟩
    rw [Equiv.swap_apply_def]
    split_ifs <;> omega

section Erase

variable [DecidableEq ι]

/-- The sum of all terms but `a` is the sum of all of them, XORed with `f a`. -/
theorem xorSum_erase {l : List ι} {a : ι} (ha : a ∈ l) (f : ι → UInt8) :
    xorSum (l.erase a) f = f a ^^^ xorSum l f := by
  rw [xorSum_perm (List.perm_cons_erase ha) f, xorSum_cons, ← UInt8.xor_assoc, UInt8.xor_self,
    UInt8.zero_xor]

/-- When the terms of `l` sum to `0`, as the data and their parity do, the sum of all but `a`
is `f a`: the erased term is recovered. -/
theorem xorSum_erase_eq_of_sum_eq {l : List ι} {a : ι} (ha : a ∈ l) {f : ι → UInt8}
    (h : xorSum l f = 0) : xorSum (l.erase a) f = f a := by
  rw [xorSum_erase ha, h, UInt8.xor_zero]

end Erase

end Bcachefs.Bits
