import Mathlib

/-!
# `Bcachefs.Bits.LeBytes`: little-endian windows of a byte-addressed memory

A C pointer into memory is modelled as a map from byte addresses to bytes,
`Int → UInt8`, with the pointer itself at address `0`. Negative addresses are the
bytes in front of the pointer: the unaligned loads of the byte-aligned fast paths
read there.

`leVal m a n` is the number whose little-endian bytes are the `n` bytes of `m` from
address `a` up. Every multi-byte load of the model is `leVal` of its window, and
every multi-byte store is `storeLe`. The theorems:

* `leVal_lt`: a window of `n` bytes holds less than `2 ^ (8 * n)`.
* `leVal_add`: a window splits at any byte into its low part and its high part.
  Every other slicing fact is derived from this one.
* `leVal_mod` / `leVal_div`: the low bytes and the high bytes of a window are the
  windows of those bytes; `leVal_add_div` the top bits of a window.
* `leVal_congr`: a window reads only its own bytes, the frame rule for loads;
  `leVal_shift` the window of a memory seen at an offset, the rule for copies.
* `leVal_storeLe_self` / `storeLe_of_not_mem`: a store writes the low bytes of its
  value into its window and nothing else; `leVal_storeLe_window` what it does to the
  value of a region around the window.
* `bytes_eq_of_leVal_eq`: equal windows have equal bytes.

Nothing here names the file system; the module is the byte-order library the
packed-key model rests on.
-/

set_option autoImplicit false

namespace Bcachefs.Bits

/-- The little-endian value of the `n` bytes of `m` from address `a` up: the byte
at `a` is the least significant. -/
def leVal (m : Int → UInt8) (a : Int) : Nat → Nat
  | 0 => 0
  | n + 1 => (m a).toNat + 256 * leVal m (a + 1) n

/-- An empty window holds `0`. -/
@[simp] theorem leVal_zero (m : Int → UInt8) (a : Int) : leVal m a 0 = 0 := rfl

/-- A window of `n + 1` bytes is its first byte under the window of the next `n`. -/
theorem leVal_succ (m : Int → UInt8) (a : Int) (n : Nat) :
    leVal m a (n + 1) = (m a).toNat + 256 * leVal m (a + 1) n := rfl

/-- A window of `n` bytes holds less than `2 ^ (8 * n)`. -/
theorem leVal_lt (m : Int → UInt8) (a : Int) (n : Nat) : leVal m a n < 2 ^ (8 * n) := by
  induction n generalizing a with
  | zero => simp
  | succ n ih =>
      have hb : (m a).toNat < 256 := (m a).toNat_lt
      have hr := ih (a + 1)
      rw [leVal_succ, show 8 * (n + 1) = 8 * n + 8 by ring, pow_add]
      have h256 : (2 : Nat) ^ 8 = 256 := by norm_num
      rw [h256]
      nlinarith

/-- A window splits at its `k`-th byte: the low `k` bytes, plus the rest scaled by
`2 ^ (8 * k)`. -/
theorem leVal_add (m : Int → UInt8) (a : Int) (k l : Nat) :
    leVal m a (k + l) = leVal m a k + 2 ^ (8 * k) * leVal m (a + k) l := by
  induction k generalizing a with
  | zero => simp
  | succ k ih =>
      rw [show k + 1 + l = (k + l) + 1 by ring, leVal_succ, ih, leVal_succ,
        show a + 1 + (k : Int) = a + ((k + 1 : Nat) : Int) by push_cast; ring,
        show 8 * (k + 1) = 8 * k + 8 by ring, pow_add]
      have h256 : (2 : Nat) ^ 8 = 256 := by norm_num
      rw [h256]
      ring

/-- The low `k` bytes of a window are the window of those bytes. -/
theorem leVal_mod (m : Int → UInt8) (a : Int) {k n : Nat} (hk : k ≤ n) :
    leVal m a n % 2 ^ (8 * k) = leVal m a k := by
  obtain ⟨l, rfl⟩ := Nat.exists_eq_add_of_le hk
  rw [leVal_add, Nat.add_mul_mod_self_left, Nat.mod_eq_of_lt (leVal_lt m a k)]

/-- The bytes above the `k`-th of a window are the window of those bytes. -/
theorem leVal_div (m : Int → UInt8) (a : Int) {k n : Nat} (hk : k ≤ n) :
    leVal m a n / 2 ^ (8 * k) = leVal m (a + k) (n - k) := by
  obtain ⟨l, rfl⟩ := Nat.exists_eq_add_of_le hk
  rw [leVal_add, Nat.add_mul_div_left _ _ (Nat.two_pow_pos _),
    Nat.div_eq_of_lt (leVal_lt m a k), Nat.zero_add, Nat.add_sub_cancel_left]

/-- A window reads only its own bytes: two memories that agree on it give the same
value. -/
theorem leVal_congr {m m' : Int → UInt8} {a : Int} {n : Nat}
    (h : ∀ x, a ≤ x → x < a + n → m x = m' x) : leVal m a n = leVal m' a n := by
  induction n generalizing a with
  | zero => rfl
  | succ n ih =>
      rw [leVal_succ, leVal_succ, h a le_rfl (by omega)]
      congr 2
      exact ih fun x hx1 hx2 => h x (by omega) (by push_cast; omega)

/-- A window of a memory read at a shifted address is the window at the shifted start:
the rule for a copy between two memories. -/
theorem leVal_shift (m : Int → UInt8) (a c : Int) (n : Nat) :
    leVal (fun x => m (x + c)) a n = leVal m (a + c) n := by
  induction n generalizing a with
  | zero => rfl
  | succ n ih =>
      rw [leVal_succ, leVal_succ, ih, show a + 1 + c = a + c + 1 by ring]

/-- Store the `n` low bytes of `v` at addresses `a, a + 1, …`, least significant
first; every other byte keeps its value. -/
def storeLe (m : Int → UInt8) (a : Int) (n : Nat) (v : Nat) : Int → UInt8 :=
  fun x => if a ≤ x ∧ x < a + n then UInt8.ofNat (v / 256 ^ (x - a).toNat) else m x

attribute [grind] storeLe

/-- A store leaves the bytes outside its window alone. -/
theorem storeLe_of_not_mem (m : Int → UInt8) {a : Int} {n : Nat} (v : Nat) {x : Int}
    (hx : ¬ (a ≤ x ∧ x < a + n)) : storeLe m a n v x = m x := by
  simp only [storeLe, if_neg hx]

/-- Reading back the window of a store gives the stored value's low bytes. -/
theorem leVal_storeLe_self (m : Int → UInt8) (a : Int) (n : Nat) (v : Nat) :
    leVal (storeLe m a n v) a n = v % 2 ^ (8 * n) := by
  induction n generalizing a v with
  | zero => simp [Nat.mod_one]
  | succ n ih =>
      -- The bytes above `a` are the store of `v / 256` one address up.
      have htail : leVal (storeLe m a (n + 1) v) (a + 1) n
          = leVal (storeLe m (a + 1) n (v / 256)) (a + 1) n := by
        apply leVal_congr
        intro x hx1 hx2
        have hin : a ≤ x ∧ x < a + ((n + 1 : Nat) : Int) := ⟨by omega, by push_cast; omega⟩
        have hin' : a + 1 ≤ x ∧ x < a + 1 + (n : Int) := ⟨hx1, hx2⟩
        have hexp : (x - a).toNat = (x - (a + 1)).toNat + 1 := by omega
        simp only [storeLe, if_pos hin, if_pos hin', hexp, pow_succ, Nat.div_div_eq_div_mul,
          Nat.mul_comm]
      have hhead : (storeLe m a (n + 1) v a).toNat = v % 256 := by
        have hin : a ≤ a ∧ a < a + ((n + 1 : Nat) : Int) := ⟨le_rfl, by push_cast; omega⟩
        simp only [storeLe, if_pos hin, sub_self, Int.toNat_zero, pow_zero, Nat.div_one,
          UInt8.toNat_ofNat']
      rw [leVal_succ, htail, ih, hhead, show 8 * (n + 1) = 8 + 8 * n by ring, pow_add,
        Nat.mod_mul]
      norm_num

/-- A one-byte store writes the low byte of its value at its address and nothing
else: the form the header bitfield stores take. -/
theorem storeLe_one (m : Int → UInt8) (a : Int) (v : Nat) (x : Int) :
    storeLe m a 1 v x = if x = a then UInt8.ofNat v else m x := by
  by_cases hx : x = a
  · subst hx
    simp [storeLe]
  · rw [if_neg hx, storeLe_of_not_mem _ _ (by push_cast; omega)]

/-- The top bits of a window are the top bits of its high part: dividing away its `j`
low bytes and then `t` more bits leaves the high `l` bytes divided by `2 ^ t`. -/
theorem leVal_add_div (m : Int → UInt8) (a : Int) (j l t : Nat) :
    leVal m a (j + l) / 2 ^ (8 * j + t) = leVal m (a + j) l / 2 ^ t := by
  rw [leVal_add, pow_add, ← Nat.div_div_eq_div_mul,
    Nat.add_mul_div_left _ _ (Nat.two_pow_pos _), Nat.div_eq_of_lt (leVal_lt m a j),
    Nat.zero_add]

/-- Two windows of one value have the same bytes: a window determines its bytes. -/
theorem bytes_eq_of_leVal_eq {m m' : Int → UInt8} {a : Int} {n : Nat}
    (h : leVal m a n = leVal m' a n) {x : Int} (hax : a ≤ x) (hxn : x < a + n) :
    m x = m' x := by
  induction n generalizing a with
  | zero => push_cast at hxn; omega
  | succ n ih =>
      rw [leVal_succ, leVal_succ] at h
      have hb := (m a).toNat_lt
      have hb' := (m' a).toNat_lt
      by_cases hxa : x = a
      · -- the low byte is the value modulo `256`
        subst hxa
        apply UInt8.toNat_inj.mp
        omega
      · exact ih (a := a + 1) (by omega) (by omega) (by push_cast at hxn; omega)

/-- A region split around a window: its `j` bytes below, the `l` bytes of the window,
its `r` bytes above. -/
theorem leVal_window (m : Int → UInt8) (a : Int) (j l r : Nat) :
    leVal m a (j + l + r) =
      leVal m a j + 2 ^ (8 * j) * (leVal m (a + j) l + 2 ^ (8 * l) * leVal m (a + j + l) r) := by
  rw [leVal_add _ _ (j + l) r, leVal_add _ _ j l, show a + ((j + l : Nat) : Int) = a + j + l by
    push_cast; ring, show 8 * (j + l) = 8 * j + 8 * l by ring, pow_add]
  ring

/-- A window of zero bytes holds `0`. -/
theorem leVal_eq_zero {m : Int → UInt8} {a : Int} {n : Nat}
    (h : ∀ x, a ≤ x → x < a + n → m x = 0) : leVal m a n = 0 := by
  induction n generalizing a with
  | zero => rfl
  | succ n ih =>
      rw [leVal_succ, h a le_rfl (by omega),
        ih fun x hx1 hx2 => h x (by omega) (by push_cast; omega)]
      rfl

/-- A store into a region: the region's value with the stored window replaced, its
`j` bytes below and `r` bytes above kept. -/
theorem leVal_storeLe_window (m : Int → UInt8) (a : Int) (j l r v : Nat) :
    leVal (storeLe m (a + j) l v) a (j + l + r) =
      leVal m a j + 2 ^ (8 * j) * (v % 2 ^ (8 * l) + 2 ^ (8 * l) * leVal m (a + j + l) r) := by
  have hlow : leVal (storeLe m (a + j) l v) a j = leVal m a j :=
    leVal_congr fun x _ hx => storeLe_of_not_mem _ _ (by omega)
  have hhigh : leVal (storeLe m (a + j) l v) (a + j + l) r = leVal m (a + j + l) r :=
    leVal_congr fun x hx _ => storeLe_of_not_mem _ _ (by omega)
  rw [leVal_window, hlow, hhigh, leVal_storeLe_self]

end Bcachefs.Bits
