import Mathlib
import Bcachefs.Util.Fifo
import Bcachefs.Ring.Window

/-!
# The FIFO refines a bounded deque

A FIFO's contents are the entries `fifo_entry(f, i)` for `i` from `front` to `back`, with the
index type's own wrap-around (`fifo_entries`). Under the invariant the macros keep
(`fifo_wf`: `mask + 1 = roundup_pow_of_two(size)` and at most `size` entries), those entries
are a window of the buffer taken modulo `mask + 1` (`fifo_entries_eq_window`): the buffer
size divides `2 ^ w`, so the wrap of the indices at `2 ^ w` does not move a slot. Each macro
then does to the window what `Ring.BoundedDeque` does to its list (`fifo_toDeque`):

* `fifo_push_back_toDeque`, `fifo_push_front_toDeque`: a push succeeds exactly when fewer than
  `size` entries are in use, and adds the entry at its end.
* `fifo_pop_front_toDeque`, `fifo_pop_back_toDeque`: a pop takes the entry at its end, and
  fails exactly on an empty FIFO.
* `fifo_idx_entry_eq`: `fifo_idx_entry(f, k)` is the `k`-th entry.
* `fifo_grow_toDeque`: growing doubles `size` and the buffer and keeps `front`, `back` and the
  entries, when `size * 2` fits the index type. For a `u16` index and a size above `2 ^ 15`
  it does not (`fifo_grow_u16_wraps`): the doubled size is cut to 16 bits.
* `fifo_entry_idx_abs_eq`: the index of a live entry is recovered from its slot.

The index type's width `w` is at most 64, as for `u16`, `u32`, `u64` and `size_t`:
`roundup_pow_of_two` works on an `unsigned long`.
-/

set_option autoImplicit false

namespace Bcachefs.Proofs.Util

open Bcachefs Bcachefs.Ring

/-! ### Powers of two -/

/-- `fls_bits b x` is at most `k` exactly when `x` has at most `k` bits. -/
theorem fls_bits_le_iff {b x k : Nat} (hx : x < 2 ^ b) : fls_bits b x ≤ k ↔ x < 2 ^ k := by
  induction b generalizing x k with
  | zero =>
    obtain rfl : x = 0 := by simpa using hx
    simp only [fls_bits, Nat.zero_le, true_iff]
    exact Nat.two_pow_pos k
  | succ b ih =>
    rw [fls_bits]
    by_cases hx0 : x = 0
    · subst hx0
      simp only [if_pos, Nat.zero_le, true_iff]
      exact Nat.two_pow_pos k
    · rw [if_neg hx0]
      cases k with
      | zero => simp; omega
      | succ k =>
        -- one bit fewer for `x / 2`
        have hhalf : x / 2 < 2 ^ b := by
          rw [Nat.div_lt_iff_lt_mul (by norm_num), ← pow_succ]
          exact hx
        rw [Nat.add_le_add_iff_right, ih hhalf, Nat.div_lt_iff_lt_mul (by norm_num), ← pow_succ]

/-- `fls_long x ≤ k` exactly when `x` fits in `k` bits. -/
theorem fls_long_le_iff {x k : Nat} (hx : x < 2 ^ 64) : fls_long x ≤ k ↔ x < 2 ^ k :=
  fls_bits_le_iff hx

/-- `roundup_pow_of_two n` is the least power of two at least `n`. -/
theorem roundup_pow_of_two_le_iff {n k : Nat} (hn : 1 ≤ n) (hn' : n ≤ 2 ^ 64) :
    roundup_pow_of_two n ≤ 2 ^ k ↔ n ≤ 2 ^ k := by
  rw [roundup_pow_of_two, Nat.pow_le_pow_iff_right (by norm_num), fls_long_le_iff (by omega)]
  omega

/-- `roundup_pow_of_two n` is at least `n`. -/
theorem le_roundup_pow_of_two {n : Nat} (hn : 1 ≤ n) (hn' : n ≤ 2 ^ 64) :
    n ≤ roundup_pow_of_two n :=
  (roundup_pow_of_two_le_iff (k := fls_long (n - 1)) hn hn').1 le_rfl

/-- Rounding up twice a number gives twice its rounding. -/
theorem roundup_pow_of_two_two_mul {n : Nat} (hn : 1 ≤ n) (hn' : 2 * n ≤ 2 ^ 64) :
    roundup_pow_of_two (2 * n) = 2 * roundup_pow_of_two n := by
  have hfls : fls_long (2 * n - 1) = fls_long (n - 1) + 1 := by
    apply eq_of_forall_ge_iff
    intro c
    rw [fls_long_le_iff (by omega)]
    cases c with
    | zero => simp; omega
    | succ c =>
      rw [Nat.add_le_add_iff_right, fls_long_le_iff (by omega), pow_succ]
      omega
  rw [roundup_pow_of_two, hfls, pow_succ, roundup_pow_of_two, Nat.mul_comm]

/-! ### Masks -/

section Masks

variable {w : Nat} {mask : BitVec w}

/-- With a power of two dividing `2 ^ w` as `mask + 1`, `x & mask` is `x` modulo it. -/
theorem toNat_and_mask (h : mask.toNat + 1 ∣ 2 ^ w) (x : BitVec w) :
    (x &&& mask).toNat = x.toNat % (mask.toNat + 1) := by
  obtain ⟨m, -, hm⟩ := (Nat.dvd_prime_pow Nat.prime_two).1 h
  have hmask : mask.toNat = 2 ^ m - 1 := by omega
  rw [BitVec.toNat_and, hmask, Nat.and_two_pow_sub_one_eq_mod,
    Nat.sub_add_cancel Nat.one_le_two_pow]

/-- And `x & ~mask` is `x` rounded down to a multiple of `mask + 1`: its epoch. -/
theorem toNat_and_not_mask (h : mask.toNat + 1 ∣ 2 ^ w) (x : BitVec w) :
    (x &&& ~~~mask).toNat = (mask.toNat + 1) * (x.toNat / (mask.toNat + 1)) := by
  obtain ⟨m, hmw, hm⟩ := (Nat.dvd_prime_pow Nat.prime_two).1 h
  have hmask : mask.toNat = 2 ^ m - 1 := by omega
  rw [hm]
  apply Nat.eq_of_testBit_eq
  intro i
  rw [BitVec.toNat_and, Nat.testBit_and, Nat.testBit_two_pow_mul, Nat.testBit_div_two_pow,
    BitVec.testBit_toNat (~~~mask), BitVec.getLsbD_not, ← BitVec.testBit_toNat, hmask,
    Nat.testBit_two_pow_sub_one]
  -- the bits below `m` are cleared, those from `m` up kept; `x` has none from `w` up
  by_cases him : i < m
  · simp [him]
  · rw [Nat.sub_add_cancel (Nat.le_of_not_lt him)]
    by_cases hiw : i < w
    · simp [him, hiw, Nat.le_of_not_lt him]
    · have hx : x.toNat.testBit i = false :=
        Nat.testBit_lt_two_pow (lt_of_lt_of_le x.isLt (Nat.pow_le_pow_right (by norm_num)
          (by omega)))
      simp [hx]

/-- The slot of `x + k` modulo a divisor of `2 ^ w`: the wrap at `2 ^ w` is invisible. -/
theorem toNat_add_mod {M : Nat} (hM : M ∣ 2 ^ w) (x y : BitVec w) :
    (x + y).toNat % M = (x.toNat + y.toNat) % M := by
  rw [BitVec.toNat_add, Nat.mod_mod_of_dvd _ hM]

/-- The slot of `x + k`, for a number `k`, modulo a divisor of `2 ^ w`. -/
theorem toNat_add_ofNat_mod {M : Nat} (hM : M ∣ 2 ^ w) (x : BitVec w) (k : Nat) :
    (x + BitVec.ofNat w k).toNat % M = (x.toNat + k) % M := by
  rw [toNat_add_mod hM, BitVec.toNat_ofNat, Nat.add_mod, Nat.mod_mod_of_dvd _ hM,
    ← Nat.add_mod]

/-- Adding one to an index below the top does not wrap. -/
theorem toNat_add_one_of_lt {y : BitVec w} (h : y.toNat + 1 < 2 ^ w) :
    (y + 1).toNat = y.toNat + 1 := by
  have hone : (1 : BitVec w).toNat = 1 := by
    show (BitVec.ofNat w 1).toNat = 1
    rw [BitVec.toNat_ofNat, Nat.mod_eq_of_lt (by omega)]
  rw [BitVec.toNat_add, hone, Nat.mod_eq_of_lt h]

/-- Nor does adding one that leaves a nonzero index. -/
theorem toNat_add_one_of_ne_zero {y : BitVec w} (h : (y + 1).toNat ≠ 0) :
    (y + 1).toNat = y.toNat + 1 := by
  have hw : 1 < 2 ^ w := by
    have := (y + 1).isLt
    by_contra hle
    have h1 : 2 ^ w = 1 := by have := Nat.two_pow_pos w; omega
    omega
  have hone : (1 : BitVec w).toNat = 1 := by
    show (BitVec.ofNat w 1).toNat = 1
    rw [BitVec.toNat_ofNat, Nat.mod_eq_of_lt hw]
  by_cases hlt : y.toNat + 1 < 2 ^ w
  · exact toNat_add_one_of_lt hlt
  · -- at the top the index wraps to zero
    have htop : y.toNat + 1 = 2 ^ w := by have := y.isLt; omega
    rw [BitVec.toNat_add, hone, htop, Nat.mod_self] at h
    exact absurd rfl h

end Masks

/-! ### The abstract view -/

section Fifo

variable {α : Type} {w : Nat} {f : fifo α w}

/-- The FIFO's entries: `fifo_entry(f, i)` for `i` from `front` to `back`. -/
def fifo_entries (f : fifo α w) : List α :=
  (List.range (fifo_used f).toNat).map fun k => fifo_entry f (f.front + BitVec.ofNat w k)

/-- The FIFO has `fifo_used` entries. -/
@[simp] theorem length_fifo_entries : (fifo_entries f).length = (fifo_used f).toNat := by
  simp [fifo_entries]

/-- The invariant the macros keep: the buffer `init_fifo` sizes for `size`, and at most `size`
entries in use. -/
structure fifo_wf (f : fifo α w) : Prop where
  size_ne : f.size ≠ 0
  mask_eq : f.mask.toNat + 1 = roundup_pow_of_two f.size.toNat
  used_le : (fifo_used f).toNat ≤ f.size.toNat

instance (f : fifo α w) : Decidable (fifo_wf f) :=
  decidable_of_iff (f.size ≠ 0 ∧ f.mask.toNat + 1 = roundup_pow_of_two f.size.toNat ∧
      (fifo_used f).toNat ≤ f.size.toNat)
    ⟨fun ⟨h1, h2, h3⟩ => ⟨h1, h2, h3⟩, fun ⟨h1, h2, h3⟩ => ⟨h1, h2, h3⟩⟩

/-- The FIFO as the bounded deque it implements. -/
def fifo_toDeque (f : fifo α w) (hf : fifo_wf f) : BoundedDeque α :=
  ⟨fifo_entries f, f.size.toNat, by rw [length_fifo_entries]; exact hf.used_le⟩

/-- The deque's entries are the FIFO's. -/
@[simp] theorem fifo_toDeque_entries (hf : fifo_wf f) : (fifo_toDeque f hf).entries = fifo_entries f :=
  rfl

/-- The deque's bound is the FIFO's `size`. -/
@[simp] theorem fifo_toDeque_bound (hf : fifo_wf f) : (fifo_toDeque f hf).bound = f.size.toNat :=
  rfl

/-- A FIFO is the deque with its entries and its size as the bound. -/
theorem fifo_toDeque_eq {g : fifo α w} (hg : fifo_wf g) {d : BoundedDeque α}
    (he : fifo_entries g = d.entries) (hb : g.size.toNat = d.bound) : fifo_toDeque g hg = d :=
  BoundedDeque.ext' he hb

/-- The buffer size is a power of two dividing `2 ^ w`. -/
theorem fifo_wf.buf_dvd (hf : fifo_wf f) : f.mask.toNat + 1 ∣ 2 ^ w := by
  have hle : 2 ^ fls_long (f.size.toNat - 1) ≤ 2 ^ w := by
    rw [← roundup_pow_of_two, ← hf.mask_eq]
    exact f.mask.isLt
  rw [hf.mask_eq, roundup_pow_of_two]
  exact Nat.pow_dvd_pow 2 ((Nat.pow_le_pow_iff_right (by norm_num)).1 hle)

/-- A FIFO that keeps the invariant has room for at least one entry. -/
theorem fifo_wf.size_pos (hf : fifo_wf f) : 0 < f.size.toNat :=
  Nat.pos_of_ne_zero fun h => hf.size_ne (BitVec.eq_of_toNat_eq (by simpa using h))

/-- The buffer holds `size` entries. -/
theorem fifo_wf.size_le (hw : w ≤ 64) (hf : fifo_wf f) : f.size.toNat ≤ f.mask.toNat + 1 := by
  have hlt : f.size.toNat < 2 ^ 64 :=
    lt_of_lt_of_le f.size.isLt (Nat.pow_le_pow_right (by norm_num) hw)
  rw [hf.mask_eq]
  exact le_roundup_pow_of_two hf.size_pos hlt.le

/-- The slot of an index is the index modulo the buffer's size. -/
theorem fifo_slot (hf : fifo_wf f) (x : BitVec w) :
    (x &&& f.mask).toNat = x.toNat % (f.mask.toNat + 1) :=
  toNat_and_mask hf.buf_dvd x

/-- The entries are the window of the buffer from `front`, of `fifo_used` slots. -/
theorem fifo_entries_eq_window (hf : fifo_wf f) :
    fifo_entries f = window f.data (f.mask.toNat + 1) f.front.toNat (fifo_used f).toNat := by
  unfold fifo_entries window
  apply List.map_congr_left
  intro k _
  rw [fifo_entry, fifo_slot hf, toNat_add_ofNat_mod hf.buf_dvd]

/-- `back` is `front` plus the entries in use, modulo `2 ^ w`. -/
theorem back_eq_front_add_used (f : fifo α w) : f.back = f.front + fifo_used f := by
  rw [fifo_used, BitVec.add_comm, BitVec.sub_add_cancel]

/-- The slot of `back` is the one past the window. -/
theorem fifo_back_slot (hf : fifo_wf f) :
    (f.back &&& f.mask).toNat = (f.front.toNat + (fifo_used f).toNat) % (f.mask.toNat + 1) := by
  rw [fifo_slot hf, back_eq_front_add_used f, toNat_add_mod hf.buf_dvd]

/-- `fifo_empty` holds exactly when no entry is in use. -/
theorem fifo_empty_eq_true_iff : fifo_empty f = true ↔ (fifo_used f).toNat = 0 := by
  rw [fifo_empty, beq_iff_eq, fifo_used]
  constructor
  · intro h
    rw [h, BitVec.sub_self]
    simp
  · intro h
    have h0 : f.back - f.front = 0 := BitVec.eq_of_toNat_eq (by simpa using h)
    rw [BitVec.sub_eq_iff_eq_add] at h0
    simpa using h0.symm

/-- `fifo_full` holds exactly when `size` entries are in use. -/
theorem fifo_full_eq_true_iff : fifo_full f = true ↔ (fifo_used f).toNat = f.size.toNat := by
  rw [fifo_full, beq_iff_eq, BitVec.toNat_inj]

/-! ### Pushing -/

/-- A FIFO with fewer than `size` entries is not full. -/
theorem fifo_full_eq_false_of_lt (h : (fifo_used f).toNat < f.size.toNat) :
    fifo_full f = false := by
  rw [Bool.eq_false_iff]
  intro hfull
  rw [fifo_full_eq_true_iff] at hfull
  omega

/-- Under the invariant, a FIFO with no fewer than `size` entries is full. -/
theorem fifo_full_of_not_lt (hf : fifo_wf f) (h : ¬ (fifo_used f).toNat < f.size.toNat) :
    fifo_full f = true :=
  fifo_full_eq_true_iff.2 (by have := hf.used_le; omega)

/-- One entry more: the count goes up by one, short of the index type's top. -/
theorem toNat_used_add_one (h : (fifo_used f).toNat < f.size.toNat) :
    (fifo_used f + 1).toNat = (fifo_used f).toNat + 1 :=
  toNat_add_one_of_lt (by have := f.size.isLt; omega)

/-- A push at the back with room writes the slot of `back` and moves `back` on. -/
theorem fifo_push_back_of_lt (h : (fifo_used f).toNat < f.size.toNat) (x : α) :
    fifo_push_back f x =
      ({ f with back := f.back + 1, data := Function.update f.data (f.back &&& f.mask).toNat x },
        true) := by
  rw [fifo_push_back, if_neg (by rw [fifo_full_eq_false_of_lt h]; decide)]

/-- A push at the back into a full FIFO fails and changes nothing. -/
theorem fifo_push_back_of_not_lt (hf : fifo_wf f) (h : ¬ (fifo_used f).toNat < f.size.toNat)
    (x : α) : fifo_push_back f x = (f, false) := by
  rw [fifo_push_back, if_pos (fifo_full_of_not_lt hf h)]

/-- A push at the back with room adds one entry. -/
theorem fifo_used_push_back (h : (fifo_used f).toNat < f.size.toNat) (x : α) :
    (fifo_used (fifo_push_back f x).1).toNat = (fifo_used f).toNat + 1 := by
  rw [fifo_push_back_of_lt h, ← toNat_used_add_one h]
  show (f.back + 1 - f.front).toNat = _
  rw [fifo_used]
  -- `back + 1 - front` is `(back - front) + 1` in the ring of words
  congr 1
  abel

/-- A push at the back keeps the invariant, whether it succeeds or not. -/
theorem fifo_push_back_wf (hf : fifo_wf f) (x : α) : fifo_wf (fifo_push_back f x).1 := by
  by_cases h : (fifo_used f).toNat < f.size.toNat
  · have hused := fifo_used_push_back h x
    rw [fifo_push_back_of_lt h] at hused ⊢
    exact ⟨hf.size_ne, hf.mask_eq, by rw [hused]; exact h⟩
  -- a failed push returns the FIFO itself
  · rw [fifo_push_back_of_not_lt hf h]
    exact hf

/-- A push at the back appends the entry. -/
theorem fifo_entries_push_back (hw : w ≤ 64) (hf : fifo_wf f)
    (h : (fifo_used f).toNat < f.size.toNat) (x : α) :
    fifo_entries (fifo_push_back f x).1 = fifo_entries f ++ [x] := by
  rw [fifo_entries_eq_window (fifo_push_back_wf hf x), fifo_used_push_back h x,
    fifo_entries_eq_window hf, fifo_push_back_of_lt h]
  dsimp only
  rw [fifo_back_slot hf]
  exact window_update_back (lt_of_lt_of_le h (hf.size_le hw)) x

/-- A push at the front with room moves `front` one back and writes its slot. -/
theorem fifo_push_front_of_lt (h : (fifo_used f).toNat < f.size.toNat) (x : α) :
    fifo_push_front f x =
      ({ f with
          front := f.front - 1
          data := Function.update f.data ((f.front - 1) &&& f.mask).toNat x }, true) := by
  rw [fifo_push_front, if_neg (by rw [fifo_full_eq_false_of_lt h]; decide)]

/-- A push at the front into a full FIFO fails and changes nothing. -/
theorem fifo_push_front_of_not_lt (hf : fifo_wf f) (h : ¬ (fifo_used f).toNat < f.size.toNat)
    (x : α) : fifo_push_front f x = (f, false) := by
  rw [fifo_push_front, if_pos (fifo_full_of_not_lt hf h)]

/-- A push at the front with room adds one entry. -/
theorem fifo_used_push_front (h : (fifo_used f).toNat < f.size.toNat) (x : α) :
    (fifo_used (fifo_push_front f x).1).toNat = (fifo_used f).toNat + 1 := by
  rw [fifo_push_front_of_lt h, ← toNat_used_add_one h]
  show (f.back - (f.front - 1)).toNat = _
  rw [fifo_used]
  -- `back - (front - 1)` is `(back - front) + 1` in the ring of words
  congr 1
  abel

/-- A push at the front keeps the invariant, whether it succeeds or not. -/
theorem fifo_push_front_wf (hf : fifo_wf f) (x : α) : fifo_wf (fifo_push_front f x).1 := by
  by_cases h : (fifo_used f).toNat < f.size.toNat
  · have hused := fifo_used_push_front h x
    rw [fifo_push_front_of_lt h] at hused ⊢
    exact ⟨hf.size_ne, hf.mask_eq, by rw [hused]; exact h⟩
  -- a failed push returns the FIFO itself
  · rw [fifo_push_front_of_not_lt hf h]
    exact hf

/-- A push at the front prepends the entry: `front` steps back, wrapping below zero. -/
theorem fifo_entries_push_front (hw : w ≤ 64) (hf : fifo_wf f)
    (h : (fifo_used f).toNat < f.size.toNat) (x : α) :
    fifo_entries (fifo_push_front f x).1 = x :: fifo_entries f := by
  rw [fifo_entries_eq_window (fifo_push_front_wf hf x), fifo_used_push_front h x,
    fifo_entries_eq_window hf, fifo_push_front_of_lt h]
  dsimp only
  rw [fifo_slot hf]
  -- the new front is one position before the old, modulo the buffer
  have hstep : ((f.front - 1).toNat + 1) % (f.mask.toNat + 1) =
      f.front.toNat % (f.mask.toNat + 1) := by
    rw [← toNat_add_ofNat_mod hf.buf_dvd, show BitVec.ofNat w 1 = 1 from rfl,
      BitVec.sub_add_cancel]
  exact window_update_front (lt_of_lt_of_le h (hf.size_le hw)) x hstep

/-! ### Popping -/

/-- A pop at the front of an empty FIFO returns nothing and changes nothing. -/
theorem fifo_pop_front_of_empty (h : (fifo_used f).toNat = 0) : fifo_pop_front f = (f, none) := by
  rw [fifo_pop_front, if_pos (fifo_empty_eq_true_iff.2 h)]

/-- A pop at the front of a FIFO with an entry reads the slot of `front` and moves `front` on. -/
theorem fifo_pop_front_of_ne (h : (fifo_used f).toNat ≠ 0) :
    fifo_pop_front f =
      ({ f with front := f.front + 1 }, some (f.data (f.front &&& f.mask).toNat)) := by
  rw [fifo_pop_front, if_neg (fun he => h (fifo_empty_eq_true_iff.1 he))]

/-- A pop at the back of an empty FIFO returns nothing and changes nothing. -/
theorem fifo_pop_back_of_empty (h : (fifo_used f).toNat = 0) : fifo_pop_back f = (f, none) := by
  rw [fifo_pop_back, if_pos (fifo_empty_eq_true_iff.2 h)]

/-- A pop at the back of a FIFO with an entry moves `back` one back and reads its slot. -/
theorem fifo_pop_back_of_ne (h : (fifo_used f).toNat ≠ 0) :
    fifo_pop_back f =
      ({ f with back := f.back - 1 }, some (f.data ((f.back - 1) &&& f.mask).toNat)) := by
  rw [fifo_pop_back, if_neg (fun he => h (fifo_empty_eq_true_iff.1 he))]

/-- One entry fewer: the count goes down by one. -/
theorem toNat_used_pred {y : BitVec w} (hy : fifo_used f = y + 1) (h : (fifo_used f).toNat ≠ 0) :
    y.toNat + 1 = (fifo_used f).toNat := by
  rw [hy] at h ⊢
  exact (toNat_add_one_of_ne_zero h).symm

/-- A pop at the front of a FIFO with an entry removes one. -/
theorem fifo_used_pop_front (h : (fifo_used f).toNat ≠ 0) :
    (fifo_used (fifo_pop_front f).1).toNat + 1 = (fifo_used f).toNat := by
  rw [fifo_pop_front_of_ne h]
  show (f.back - (f.front + 1)).toNat + 1 = _
  exact toNat_used_pred (by rw [fifo_used]; abel) h

/-- A pop at the back of a FIFO with an entry removes one. -/
theorem fifo_used_pop_back (h : (fifo_used f).toNat ≠ 0) :
    (fifo_used (fifo_pop_back f).1).toNat + 1 = (fifo_used f).toNat := by
  rw [fifo_pop_back_of_ne h]
  show (f.back - 1 - f.front).toNat + 1 = _
  exact toNat_used_pred (by rw [fifo_used]; abel) h

/-- A pop at the front keeps the invariant. -/
theorem fifo_pop_front_wf (hf : fifo_wf f) : fifo_wf (fifo_pop_front f).1 := by
  by_cases h : (fifo_used f).toNat = 0
  · rw [fifo_pop_front_of_empty h]
    exact hf
  -- `size` and `mask` stay, and one entry fewer is still at most `size`
  · have hused := fifo_used_pop_front h
    rw [fifo_pop_front_of_ne h] at hused ⊢
    refine ⟨hf.size_ne, hf.mask_eq, ?_⟩
    dsimp only at hused ⊢
    have := hf.used_le
    omega

/-- A pop at the back keeps the invariant. -/
theorem fifo_pop_back_wf (hf : fifo_wf f) : fifo_wf (fifo_pop_back f).1 := by
  by_cases h : (fifo_used f).toNat = 0
  · rw [fifo_pop_back_of_empty h]
    exact hf
  -- `size` and `mask` stay, and one entry fewer is still at most `size`
  · have hused := fifo_used_pop_back h
    rw [fifo_pop_back_of_ne h] at hused ⊢
    refine ⟨hf.size_ne, hf.mask_eq, ?_⟩
    dsimp only at hused ⊢
    have := hf.used_le
    omega

/-- A FIFO with no entry in use has no entries. -/
theorem fifo_entries_eq_nil (h : (fifo_used f).toNat = 0) : fifo_entries f = [] :=
  List.eq_nil_of_length_eq_zero (by rw [length_fifo_entries]; exact h)

/-- A pop at the front takes the first entry and leaves the others. -/
theorem fifo_pop_front_entries (hf : fifo_wf f) :
    (fifo_pop_front f).2 = (fifo_entries f).head? ∧
      fifo_entries (fifo_pop_front f).1 = (fifo_entries f).tail := by
  by_cases h : (fifo_used f).toNat = 0
  · rw [fifo_pop_front_of_empty h, fifo_entries_eq_nil h]
    exact ⟨rfl, rfl⟩
  · obtain ⟨u, hu⟩ : ∃ u, (fifo_used f).toNat = u + 1 := ⟨_, (Nat.succ_pred_eq_of_ne_zero h).symm⟩
    have hu' : (fifo_used (fifo_pop_front f).1).toNat = u := by
      have := fifo_used_pop_front h
      omega
    rw [fifo_entries_eq_window (fifo_pop_front_wf hf), hu', fifo_entries_eq_window hf, hu,
      window_succ_left, fifo_pop_front_of_ne h]
    dsimp only
    rw [fifo_slot hf, List.head?_cons, List.tail_cons]
    -- the window now starts one position on
    refine ⟨rfl, window_congr ?_⟩
    rw [← toNat_add_ofNat_mod hf.buf_dvd]
    rfl

/-- A pop at the back takes the last entry and leaves the others. -/
theorem fifo_pop_back_entries (hf : fifo_wf f) :
    (fifo_pop_back f).2 = (fifo_entries f).getLast? ∧
      fifo_entries (fifo_pop_back f).1 = (fifo_entries f).dropLast := by
  by_cases h : (fifo_used f).toNat = 0
  · rw [fifo_pop_back_of_empty h, fifo_entries_eq_nil h]
    exact ⟨rfl, rfl⟩
  · obtain ⟨u, hu⟩ : ∃ u, (fifo_used f).toNat = u + 1 := ⟨_, (Nat.succ_pred_eq_of_ne_zero h).symm⟩
    have hu' : (fifo_used (fifo_pop_back f).1).toNat = u := by
      have := fifo_used_pop_back h
      omega
    -- the last entry's index is `front + (used - 1)`, one below `back`
    have hlast : ((f.back - 1) &&& f.mask).toNat = (f.front.toNat + u) % (f.mask.toNat + 1) := by
      have hidx : f.back - 1 = f.front + (f.back - 1 - f.front) := by abel
      have hu'' : (f.back - 1 - f.front).toNat = u := by
        rw [fifo_pop_back_of_ne h] at hu'
        exact hu'
      rw [fifo_slot hf, hidx, toNat_add_mod hf.buf_dvd, hu'']
    rw [fifo_entries_eq_window (fifo_pop_back_wf hf), hu', fifo_entries_eq_window hf, hu,
      window_succ, fifo_pop_back_of_ne h]
    dsimp only
    rw [hlast, List.getLast?_concat, List.dropLast_concat]
    exact ⟨rfl, rfl⟩

/-- `fifo_idx_entry(f, k)` is the `k`-th entry. -/
theorem fifo_idx_entry_eq (hf : fifo_wf f) {k : Nat} (hk : k < (fifo_used f).toNat) :
    (fifo_entries f)[k]? = some (fifo_idx_entry f k) := by
  have hlen : k < (fifo_entries f).length := by rw [length_fifo_entries]; exact hk
  rw [List.getElem?_eq_getElem hlen]
  congr 1
  simp only [fifo_entries_eq_window hf, getElem_window]
  rw [fifo_idx_entry, fifo_slot hf, toNat_add_ofNat_mod hf.buf_dvd]

/-! ### Growing -/

/-- An index expression whose value fits the index type has that value. -/
theorem index_expr_of_lt {n : Nat} (h : n < 2 ^ w) : index_expr w n = n := by
  unfold index_expr
  by_cases hw : w < 32
  · rw [if_pos hw]
  · rw [if_neg hw, Nat.mod_eq_of_lt h]

/-- Under the invariant, `fifo_buf_size` is the buffer of `mask + 1` slots. -/
theorem fifo_wf.buf_size_eq (hf : fifo_wf f) : fifo_buf_size f = f.mask.toNat + 1 := by
  rw [fifo_buf_size, if_pos hf.size_ne, hf.mask_eq]

/-- When twice the size fits the index type, so does twice the buffer. -/
theorem fifo_wf.two_mul_buf_le (hw : w ≤ 64) (hf : fifo_wf f) (h2 : 2 * f.size.toNat < 2 ^ w) :
    2 * (f.mask.toNat + 1) ≤ 2 ^ w := by
  have h64 : 2 ^ w ≤ 2 ^ 64 := Nat.pow_le_pow_right (by norm_num) hw
  have hpos := hf.size_pos
  rw [hf.mask_eq, ← roundup_pow_of_two_two_mul hpos (by omega)]
  exact (roundup_pow_of_two_le_iff (by omega) (by omega)).2 h2.le

/-- A grow whose allocation fails returns `false` and changes nothing. -/
@[simp] theorem fifo_grow_none : fifo_grow f none = (f, false) := rfl

/-- A grow whose allocation succeeds returns `true`. -/
@[simp] theorem fifo_grow_some_snd (d : Nat → α) : (fifo_grow f (some d)).2 = true := rfl

/-- Growing keeps `front`. -/
@[simp] theorem fifo_grow_front (d : Nat → α) : (fifo_grow f (some d)).1.front = f.front := rfl

/-- Growing keeps `back`. -/
@[simp] theorem fifo_grow_back (d : Nat → α) : (fifo_grow f (some d)).1.back = f.back := rfl

/-- Growing keeps the number of entries in use. -/
@[simp] theorem fifo_used_grow (d : Nat → α) : fifo_used (fifo_grow f (some d)).1 = fifo_used f :=
  rfl

/-- Growing doubles `size` when twice the size fits the index type. -/
theorem fifo_grow_size (h2 : 2 * f.size.toNat < 2 ^ w) (d : Nat → α) :
    (fifo_grow f (some d)).1.size.toNat = 2 * f.size.toNat := by
  dsimp only [fifo_grow]
  rw [Nat.mul_comm, index_expr_of_lt (by omega), BitVec.toNat_ofNat, Nat.mod_eq_of_lt (by omega)]

/-- The buffer doubles. -/
theorem fifo_grow_mask (hw : w ≤ 64) (hf : fifo_wf f) (h2 : 2 * f.size.toNat < 2 ^ w)
    (d : Nat → α) : (fifo_grow f (some d)).1.mask.toNat + 1 = 2 * (f.mask.toNat + 1) := by
  have hle := hf.two_mul_buf_le hw h2
  have h64 : 2 ^ w ≤ 2 ^ 64 := Nat.pow_le_pow_right (by norm_num) hw
  dsimp only [fifo_grow]
  rw [Nat.mul_comm, index_expr_of_lt (by omega),
    roundup_pow_of_two_two_mul hf.size_pos (by omega), ← hf.mask_eq, BitVec.toNat_ofNat,
    Nat.mod_eq_of_lt (by omega)]
  omega

/-- Each half of the new buffer is a copy of the old one. -/
theorem fifo_grow_data (hf : fifo_wf f) (d : Nat → α) {j : Nat} (hj : j < 2 * (f.mask.toNat + 1)) :
    (fifo_grow f (some d)).1.data j = f.data (j % (f.mask.toNat + 1)) := by
  dsimp only [fifo_grow]
  rw [hf.buf_size_eq]
  by_cases hhigh : f.mask.toNat + 1 ≤ j
  · -- the second copy, at `mask + 1`
    rw [if_pos ⟨hhigh, by omega⟩, Nat.mod_eq_sub_mod hhigh, Nat.mod_eq_of_lt (by omega)]
  · rw [if_neg (by omega), if_pos (by omega), Nat.mod_eq_of_lt (by omega)]

/-- Growing keeps the invariant when twice the size fits the index type. -/
theorem fifo_grow_wf (hw : w ≤ 64) (hf : fifo_wf f) (h2 : 2 * f.size.toNat < 2 ^ w)
    (d : Nat → α) : fifo_wf (fifo_grow f (some d)).1 := by
  have hsize := fifo_grow_size h2 d
  have hpos := hf.size_pos
  have h64 : 2 ^ w ≤ 2 ^ 64 := Nat.pow_le_pow_right (by norm_num) hw
  -- the doubled size is not zero, the doubled buffer is its rounding, and the entries fit
  refine ⟨?_, ?_, ?_⟩
  · intro h0
    rw [h0] at hsize
    simp at hsize
    omega
  · rw [fifo_grow_mask hw hf h2 d, hsize, roundup_pow_of_two_two_mul hpos (by omega), hf.mask_eq]
  · rw [fifo_used_grow, hsize]
    have := hf.used_le
    omega

/-- Growing keeps the entries: the window of the doubled buffer reads the copies. -/
theorem fifo_entries_grow (hw : w ≤ 64) (hf : fifo_wf f) (h2 : 2 * f.size.toNat < 2 ^ w)
    (d : Nat → α) : fifo_entries (fifo_grow f (some d)).1 = fifo_entries f := by
  rw [fifo_entries_eq_window (fifo_grow_wf hw hf h2 d), fifo_entries_eq_window hf,
    fifo_grow_mask hw hf h2 d, fifo_used_grow, fifo_grow_front]
  exact window_double (Nat.succ_pos _) fun j hj => fifo_grow_data hf d hj

/-! ### Absolute indices -/

/-- `fifo_entry_idx_abs` recovers the index of a live entry from its slot, also when `front`
and `back` lie in different epochs of the buffer or on either side of the index type's wrap. -/
theorem fifo_entry_idx_abs_eq (hw : w ≤ 64) (hf : fifo_wf f) (i : BitVec w)
    (hi : (i - f.front).toNat < (fifo_used f).toNat) :
    fifo_entry_idx_abs f (i &&& f.mask).toNat = i.toNat := by
  -- `i` and `back` as positions after `front`, before the wrap at `2 ^ w`
  have hI : i.toNat = (f.front.toNat + (i - f.front).toNat) % 2 ^ w := by
    rw [← BitVec.toNat_add, BitVec.add_comm, BitVec.sub_add_cancel]
  have hB : f.back.toNat = (f.front.toNat + (fifo_used f).toNat) % 2 ^ w := by
    rw [← BitVec.toNat_add, ← back_eq_front_add_used]
  unfold fifo_entry_idx_abs
  rw [apply_ite (fun x => (x &&& ~~~f.mask).toNat), toNat_and_not_mask hf.buf_dvd,
    toNat_and_not_mask hf.buf_dvd, fifo_slot hf, fifo_slot hf, hB, hI]
  exact epoch_add_slot hf.buf_dvd (Nat.succ_pos _) f.front.isLt hi
    (hf.used_le.trans (hf.size_le hw))

/-! ### The refinement -/

/-- A push at the back keeps `size`. -/
theorem fifo_push_back_size (x : α) : (fifo_push_back f x).1.size = f.size := by
  unfold fifo_push_back
  split <;> rfl

/-- A push at the front keeps `size`. -/
theorem fifo_push_front_size (x : α) : (fifo_push_front f x).1.size = f.size := by
  unfold fifo_push_front
  split <;> rfl

/-- A pop at the front keeps `size`. -/
theorem fifo_pop_front_size : (fifo_pop_front f).1.size = f.size := by
  unfold fifo_pop_front
  split <;> rfl

/-- A pop at the back keeps `size`. -/
theorem fifo_pop_back_size : (fifo_pop_back f).1.size = f.size := by
  unfold fifo_pop_back
  split <;> rfl

/-- The deque has room exactly when the FIFO has fewer than `size` entries. -/
theorem fifo_toDeque_room (hf : fifo_wf f) :
    (fifo_toDeque f hf).entries.length < (fifo_toDeque f hf).bound ↔
      (fifo_used f).toNat < f.size.toNat := by
  rw [fifo_toDeque_entries, fifo_toDeque_bound, length_fifo_entries]

/-- `fifo_push_back` is the deque's push at the back; a push that finds no room leaves the
FIFO as it was. -/
theorem fifo_push_back_toDeque (hw : w ≤ 64) (hf : fifo_wf f) (x : α) :
    (fifo_push_back f x).2 = ((fifo_toDeque f hf).pushBack x).isSome ∧
      fifo_toDeque (fifo_push_back f x).1 (fifo_push_back_wf hf x) =
        ((fifo_toDeque f hf).pushBack x).getD (fifo_toDeque f hf) := by
  have hbound : (fifo_push_back f x).1.size.toNat =
      (((fifo_toDeque f hf).pushBack x).getD (fifo_toDeque f hf)).bound := by
    rw [BoundedDeque.bound_pushBack_getD, fifo_toDeque_bound, fifo_push_back_size]
  by_cases h : (fifo_used f).toNat < f.size.toNat
  · have hroom := (fifo_toDeque_room hf).2 h
    refine ⟨?_, fifo_toDeque_eq _ ?_ hbound⟩
    · rw [BoundedDeque.pushBack_isSome, decide_eq_true hroom, fifo_push_back_of_lt h]
    · rw [BoundedDeque.entries_pushBack_getD, if_pos hroom, fifo_toDeque_entries,
        fifo_entries_push_back hw hf h]
  · have hroom := mt (fifo_toDeque_room hf).1 h
    refine ⟨?_, fifo_toDeque_eq _ ?_ hbound⟩
    · rw [BoundedDeque.pushBack_isSome, decide_eq_false hroom, fifo_push_back_of_not_lt hf h]
    · rw [BoundedDeque.entries_pushBack_getD, if_neg hroom, fifo_toDeque_entries,
        fifo_push_back_of_not_lt hf h]

/-- `fifo_push_front` is the deque's push at the front. -/
theorem fifo_push_front_toDeque (hw : w ≤ 64) (hf : fifo_wf f) (x : α) :
    (fifo_push_front f x).2 = ((fifo_toDeque f hf).pushFront x).isSome ∧
      fifo_toDeque (fifo_push_front f x).1 (fifo_push_front_wf hf x) =
        ((fifo_toDeque f hf).pushFront x).getD (fifo_toDeque f hf) := by
  have hbound : (fifo_push_front f x).1.size.toNat =
      (((fifo_toDeque f hf).pushFront x).getD (fifo_toDeque f hf)).bound := by
    rw [BoundedDeque.bound_pushFront_getD, fifo_toDeque_bound, fifo_push_front_size]
  by_cases h : (fifo_used f).toNat < f.size.toNat
  · have hroom := (fifo_toDeque_room hf).2 h
    refine ⟨?_, fifo_toDeque_eq _ ?_ hbound⟩
    · rw [BoundedDeque.pushFront_isSome, decide_eq_true hroom, fifo_push_front_of_lt h]
    · rw [BoundedDeque.entries_pushFront_getD, if_pos hroom, fifo_toDeque_entries,
        fifo_entries_push_front hw hf h]
  · have hroom := mt (fifo_toDeque_room hf).1 h
    refine ⟨?_, fifo_toDeque_eq _ ?_ hbound⟩
    · rw [BoundedDeque.pushFront_isSome, decide_eq_false hroom, fifo_push_front_of_not_lt hf h]
    · rw [BoundedDeque.entries_pushFront_getD, if_neg hroom, fifo_toDeque_entries,
        fifo_push_front_of_not_lt hf h]

/-- `fifo_pop_front` is the deque's pop at the front. -/
theorem fifo_pop_front_toDeque (hf : fifo_wf f) :
    (fifo_pop_front f).2 = (fifo_toDeque f hf).popFront.map Prod.fst ∧
      fifo_toDeque (fifo_pop_front f).1 (fifo_pop_front_wf hf) =
        ((fifo_toDeque f hf).popFront.map Prod.snd).getD (fifo_toDeque f hf) := by
  obtain ⟨hval, hrest⟩ := fifo_pop_front_entries hf
  refine ⟨?_, fifo_toDeque_eq _ ?_ ?_⟩
  · rw [BoundedDeque.popFront_map_fst, fifo_toDeque_entries, hval]
  · rw [BoundedDeque.entries_popFront_getD, fifo_toDeque_entries, hrest]
  · rw [BoundedDeque.bound_popFront_getD, fifo_toDeque_bound, fifo_pop_front_size]

/-- `fifo_pop_back` is the deque's pop at the back. -/
theorem fifo_pop_back_toDeque (hf : fifo_wf f) :
    (fifo_pop_back f).2 = (fifo_toDeque f hf).popBack.map Prod.fst ∧
      fifo_toDeque (fifo_pop_back f).1 (fifo_pop_back_wf hf) =
        ((fifo_toDeque f hf).popBack.map Prod.snd).getD (fifo_toDeque f hf) := by
  obtain ⟨hval, hrest⟩ := fifo_pop_back_entries hf
  refine ⟨?_, fifo_toDeque_eq _ ?_ ?_⟩
  · rw [BoundedDeque.popBack_map_fst, fifo_toDeque_entries, hval]
  · rw [BoundedDeque.entries_popBack_getD, fifo_toDeque_entries, hrest]
  · rw [BoundedDeque.bound_popBack_getD, fifo_toDeque_bound, fifo_pop_back_size]

/-- `fifo_grow` doubles the deque's bound and keeps its entries, when twice the size fits the
index type. -/
theorem fifo_grow_toDeque (hw : w ≤ 64) (hf : fifo_wf f) (h2 : 2 * f.size.toNat < 2 ^ w)
    (d : Nat → α) :
    fifo_toDeque (fifo_grow f (some d)).1 (fifo_grow_wf hw hf h2 d) = (fifo_toDeque f hf).grow :=
  fifo_toDeque_eq _ (fifo_entries_grow hw hf h2 d) (fifo_grow_size h2 d)

/-- The FIFO refines a bounded deque of `size` entries. A push succeeds exactly when fewer than
`size` entries are in use and adds the entry at its end; a pop takes the entry at its end and
fails exactly on an empty FIFO; `fifo_idx_entry` reads the entries in order; growing keeps
`front`, `back` and the entries and doubles the bound, when twice the size fits the index
type; and `fifo_entry_idx_abs` gives back every live index from its slot. -/
theorem fifo_refines_bounded_deque (hw : w ≤ 64) (f : fifo α w) (hf : fifo_wf f) :
    (∀ x, (fifo_push_back f x).2 = decide ((fifo_used f).toNat < f.size.toNat) ∧
      fifo_toDeque (fifo_push_back f x).1 (fifo_push_back_wf hf x) =
        ((fifo_toDeque f hf).pushBack x).getD (fifo_toDeque f hf)) ∧
    (∀ x, (fifo_push_front f x).2 = decide ((fifo_used f).toNat < f.size.toNat) ∧
      fifo_toDeque (fifo_push_front f x).1 (fifo_push_front_wf hf x) =
        ((fifo_toDeque f hf).pushFront x).getD (fifo_toDeque f hf)) ∧
    ((fifo_pop_front f).2 = (fifo_entries f).head? ∧
      fifo_toDeque (fifo_pop_front f).1 (fifo_pop_front_wf hf) =
        ((fifo_toDeque f hf).popFront.map Prod.snd).getD (fifo_toDeque f hf)) ∧
    ((fifo_pop_back f).2 = (fifo_entries f).getLast? ∧
      fifo_toDeque (fifo_pop_back f).1 (fifo_pop_back_wf hf) =
        ((fifo_toDeque f hf).popBack.map Prod.snd).getD (fifo_toDeque f hf)) ∧
    (∀ k, k < (fifo_used f).toNat → (fifo_entries f)[k]? = some (fifo_idx_entry f k)) ∧
    (∀ d (h2 : 2 * f.size.toNat < 2 ^ w), (fifo_grow f (some d)).2 = true ∧
      (fifo_grow f (some d)).1.front = f.front ∧ (fifo_grow f (some d)).1.back = f.back ∧
      fifo_toDeque (fifo_grow f (some d)).1 (fifo_grow_wf hw hf h2 d) =
        (fifo_toDeque f hf).grow) ∧
    (∀ i : BitVec w, (i - f.front).toNat < (fifo_used f).toNat →
      fifo_entry_idx_abs f (i &&& f.mask).toNat = i.toNat) := by
  -- a push succeeds exactly when the deque has room
  have hpush : decide ((fifo_toDeque f hf).entries.length < (fifo_toDeque f hf).bound) =
      decide ((fifo_used f).toNat < f.size.toNat) := decide_eq_decide.2 (fifo_toDeque_room hf)
  refine ⟨fun x => ?_, fun x => ?_, ?_, ?_, fun k hk => fifo_idx_entry_eq hf hk,
    fun d h2 => ⟨rfl, rfl, rfl, fifo_grow_toDeque hw hf h2 d⟩,
    fun i hi => fifo_entry_idx_abs_eq hw hf i hi⟩
  · obtain ⟨hok, hdq⟩ := fifo_push_back_toDeque hw hf x
    rw [hok, BoundedDeque.pushBack_isSome, hpush]
    exact ⟨rfl, hdq⟩
  · obtain ⟨hok, hdq⟩ := fifo_push_front_toDeque hw hf x
    rw [hok, BoundedDeque.pushFront_isSome, hpush]
    exact ⟨rfl, hdq⟩
  · obtain ⟨hval, hdq⟩ := fifo_pop_front_toDeque hf
    rw [hval, BoundedDeque.popFront_map_fst, fifo_toDeque_entries]
    exact ⟨rfl, hdq⟩
  · obtain ⟨hval, hdq⟩ := fifo_pop_back_toDeque hf
    rw [hval, BoundedDeque.popBack_map_fst, fifo_toDeque_entries]
    exact ⟨rfl, hdq⟩

/-- A `u16` FIFO of three entries whose `front` sits just below the index type's wrap, with
`back` past it: slots `6`, `7` and `0` of an eight-slot buffer. -/
def wrapped_fifo : fifo Nat 16 :=
  { front := 65534, back := 1, size := 5, mask := 7, data := fun j => j }

/-- The FIFO keeps the invariant: five slots of eight, three in use. -/
theorem wrapped_fifo_wf : fifo_wf wrapped_fifo := by decide

/-- The refinement at a FIFO whose entries straddle the wrap of the `u16` indices. -/
theorem fifo_refines_bounded_deque_wrapped :
    16 ≤ 64 ∧ fifo_wf wrapped_fifo ∧
    (∀ x, (fifo_push_back wrapped_fifo x).2 =
        decide ((fifo_used wrapped_fifo).toNat < wrapped_fifo.size.toNat) ∧
      fifo_toDeque (fifo_push_back wrapped_fifo x).1 (fifo_push_back_wf wrapped_fifo_wf x) =
        ((fifo_toDeque wrapped_fifo wrapped_fifo_wf).pushBack x).getD
          (fifo_toDeque wrapped_fifo wrapped_fifo_wf)) ∧
    (∀ x, (fifo_push_front wrapped_fifo x).2 =
        decide ((fifo_used wrapped_fifo).toNat < wrapped_fifo.size.toNat) ∧
      fifo_toDeque (fifo_push_front wrapped_fifo x).1 (fifo_push_front_wf wrapped_fifo_wf x) =
        ((fifo_toDeque wrapped_fifo wrapped_fifo_wf).pushFront x).getD
          (fifo_toDeque wrapped_fifo wrapped_fifo_wf)) ∧
    ((fifo_pop_front wrapped_fifo).2 = (fifo_entries wrapped_fifo).head? ∧
      fifo_toDeque (fifo_pop_front wrapped_fifo).1 (fifo_pop_front_wf wrapped_fifo_wf) =
        ((fifo_toDeque wrapped_fifo wrapped_fifo_wf).popFront.map Prod.snd).getD
          (fifo_toDeque wrapped_fifo wrapped_fifo_wf)) ∧
    ((fifo_pop_back wrapped_fifo).2 = (fifo_entries wrapped_fifo).getLast? ∧
      fifo_toDeque (fifo_pop_back wrapped_fifo).1 (fifo_pop_back_wf wrapped_fifo_wf) =
        ((fifo_toDeque wrapped_fifo wrapped_fifo_wf).popBack.map Prod.snd).getD
          (fifo_toDeque wrapped_fifo wrapped_fifo_wf)) ∧
    (∀ k, k < (fifo_used wrapped_fifo).toNat →
      (fifo_entries wrapped_fifo)[k]? = some (fifo_idx_entry wrapped_fifo k)) ∧
    (∀ d (h2 : 2 * wrapped_fifo.size.toNat < 2 ^ 16), (fifo_grow wrapped_fifo (some d)).2 = true ∧
      (fifo_grow wrapped_fifo (some d)).1.front = wrapped_fifo.front ∧
      (fifo_grow wrapped_fifo (some d)).1.back = wrapped_fifo.back ∧
      fifo_toDeque (fifo_grow wrapped_fifo (some d)).1
          (fifo_grow_wf (by decide) wrapped_fifo_wf h2 d) =
        (fifo_toDeque wrapped_fifo wrapped_fifo_wf).grow) ∧
    (∀ i : BitVec 16, (i - wrapped_fifo.front).toNat < (fifo_used wrapped_fifo).toNat →
      fifo_entry_idx_abs wrapped_fifo (i &&& wrapped_fifo.mask).toNat = i.toNat) :=
  ⟨by decide, wrapped_fifo_wf,
    fifo_refines_bounded_deque (by decide) wrapped_fifo wrapped_fifo_wf⟩

/-- A `u16` FIFO of size `2 ^ 15 + 1`, three entries in use. -/
def wide_u16_fifo : fifo Nat 16 :=
  { front := 0, back := 3, size := 32769, mask := 65535, data := fun j => j }

/-- Growing a `u16` FIFO of size above `2 ^ 15` cuts the doubled size to 16 bits: the size
becomes `2`, the mask stays, and three entries are in use in a FIFO of size `2`. -/
theorem fifo_grow_u16_wraps :
    fifo_wf wide_u16_fifo ∧
      (fifo_grow wide_u16_fifo (some fun _ => 0)).1.size.toNat = 2 ∧
      (fifo_grow wide_u16_fifo (some fun _ => 0)).1.mask = wide_u16_fifo.mask ∧
      ¬ fifo_wf (fifo_grow wide_u16_fifo (some fun _ => 0)).1 := by
  decide

end Fifo

end Bcachefs.Proofs.Util
