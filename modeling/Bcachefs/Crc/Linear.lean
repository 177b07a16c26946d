import Mathlib.Logic.Function.Iterate

/-!
# `Bcachefs.Crc.Linear`: register updates linear in exclusive or

A CRC register reads a buffer a byte at a time, `bs.foldl step s`. When the CRC has no final
exclusive or, the step is linear: updating `s ^^^ t` by `b ^^^ c` gives the exclusive or of
`s` updated by `b` and `t` updated by `c` (`XorLinear`). Then:

* `XorLinear.foldl_zipWith`: two buffers of one length, xored byte by byte, read from two
  registers xored, give the exclusive or of the two reads;
* `XorLinear.foldl_eq_zeros_xor`: a register started at `s` reads a buffer as it reads
  zeros of the buffer's length, xored with the register started at zero reading it;
* `XorLinear.foldl_append`: so the register of `as ++ bs` is the register of `as` run over
  zeros of the length of `bs`, xored with the register of `bs` from zero, which is how a
  checksum of a concatenation is computed from the checksums of its parts.

A table-driven step, `T (idx s b) ^^^ sh s`, is linear when its index, its shift and its
table on the indices are (`xorLinear_of_table`). The table of a CRC holds the register's
one-bit shifts of each byte: least significant bit first in a reflected CRC (`shiftLsb`), most
significant bit first otherwise (`shiftMsb`). Either shift is linear (`shiftLsb_xor`,
`shiftMsb_xor`), and so is any number of them (`Function.Semiconj₂.iterate`).
-/

set_option autoImplicit false

namespace Bcachefs.Crc

section Fold

variable {W B : Type*} [XorOp W] [XorOp B]

/-- A byte update linear in exclusive or, in the register and the byte together. -/
def XorLinear (step : W → B → W) : Prop :=
  ∀ s t b c, step (s ^^^ t) (b ^^^ c) = step s b ^^^ step t c

variable {step : W → B → W}

/-- Two buffers of one length, xored byte by byte, read from two registers xored. -/
theorem XorLinear.foldl_zipWith (h : XorLinear step) (bs : List B) :
    ∀ (cs : List B) (s t : W), bs.length = cs.length →
      (List.zipWith (· ^^^ ·) bs cs).foldl step (s ^^^ t) = bs.foldl step s ^^^ cs.foldl step t := by
  -- induction on the first buffer, the second taken apart alongside it
  induction bs with
  | nil =>
    rintro (_ | ⟨c, cs⟩) s t hlen
    · rfl
    · cases hlen
  | cons b bs ih =>
    rintro (_ | ⟨c, cs⟩) s t hlen
    · cases hlen
    · rw [List.zipWith_cons_cons, List.foldl_cons, h s t b c]
      exact ih cs _ _ (Nat.succ.inj hlen)

variable {z : B} {o : W}

/-- Xoring zeros into a buffer leaves it as it is. -/
theorem zipWith_replicate_xor (hz : ∀ b, z ^^^ b = b) (bs : List B) :
    List.zipWith (· ^^^ ·) (List.replicate bs.length z) bs = bs := by
  induction bs with
  | nil => rfl
  | cons b bs ih => rw [List.length_cons, List.replicate_succ, List.zipWith_cons_cons, ih, hz]

/-- A register started at `s` reads a buffer as it reads zeros of the buffer's length, xored
with the register started at zero reading the buffer. -/
theorem XorLinear.foldl_eq_zeros_xor (h : XorLinear step) (hz : ∀ b, z ^^^ b = b)
    (ho : ∀ s, s ^^^ o = s) (s : W) (bs : List B) :
    bs.foldl step s = (List.replicate bs.length z).foldl step s ^^^ bs.foldl step o := by
  calc bs.foldl step s
      = (List.zipWith (· ^^^ ·) (List.replicate bs.length z) bs).foldl step (s ^^^ o) := by
        rw [zipWith_replicate_xor hz, ho]
    _ = (List.replicate bs.length z).foldl step s ^^^ bs.foldl step o :=
        h.foldl_zipWith _ _ _ _ List.length_replicate

/-- The register of a concatenation, from the register of its first part and the register
of its second part from zero. -/
theorem XorLinear.foldl_append (h : XorLinear step) (hz : ∀ b, z ^^^ b = b)
    (ho : ∀ s, s ^^^ o = s) (s : W) (as bs : List B) :
    (as ++ bs).foldl step s =
      (List.replicate bs.length z).foldl step (as.foldl step s) ^^^ bs.foldl step o := by
  rw [List.foldl_append]
  exact h.foldl_eq_zeros_xor hz ho _ bs

/-- A table-driven step is linear when its index, its table on the indices and its shift
are. -/
theorem xorLinear_of_table {I : Type*} [XorOp I] [Std.Associative (α := W) (· ^^^ ·)]
    [Std.Commutative (α := W) (· ^^^ ·)] (T : I → W) (idx : W → B → I) (sh : W → W)
    (hidx : ∀ s t b c, idx (s ^^^ t) (b ^^^ c) = idx s b ^^^ idx t c)
    (hT : ∀ s t b c, T (idx s b ^^^ idx t c) = T (idx s b) ^^^ T (idx t c))
    (hsh : ∀ s t, sh (s ^^^ t) = sh s ^^^ sh t) :
    XorLinear fun s b => T (idx s b) ^^^ sh s := by
  intro s t b c
  -- both sides are the same four terms, in another order
  simp only [hidx, hT, hsh]
  ac_rfl

end Fold

section Shift

variable {w : Nat} (p : BitVec w)

/-- One shift of a reflected CRC register: right by one, adding the polynomial when the bit
shifted out is set. -/
def shiftLsb (c : BitVec w) : BitVec w := (c >>> 1) ^^^ (if c.getLsbD 0 then p else 0)

/-- One shift of a CRC register, most significant bit first: left by one, adding the
polynomial when the bit shifted out is set. -/
def shiftMsb (c : BitVec w) : BitVec w := (c <<< 1) ^^^ (if c.getMsbD 0 then p else 0)

/-- Adding the polynomial on the exclusive or of two bits is adding it on each. -/
theorem ite_xor_ite (x y : Bool) :
    (if (x ^^ y) = true then p else 0) = (if x = true then p else 0) ^^^ (if y = true then p else 0) := by
  cases x <;> cases y <;> simp

/-- The reflected shift is linear in exclusive or. -/
theorem shiftLsb_xor : Function.Semiconj₂ (shiftLsb p) (· ^^^ ·) (· ^^^ ·) := by
  intro a b
  -- the shift and the test of the bit shifted out both distribute over the exclusive or
  simp only [shiftLsb, BitVec.getLsbD_xor, BitVec.ushiftRight_xor_distrib, ite_xor_ite]
  ac_rfl

/-- The shift most significant bit first is linear in exclusive or. -/
theorem shiftMsb_xor : Function.Semiconj₂ (shiftMsb p) (· ^^^ ·) (· ^^^ ·) := by
  intro a b
  -- the shift and the test of the bit shifted out both distribute over the exclusive or
  simp only [shiftMsb, BitVec.getMsbD_xor, BitVec.shiftLeft_xor_distrib, ite_xor_ite]
  ac_rfl

end Shift

end Bcachefs.Crc
