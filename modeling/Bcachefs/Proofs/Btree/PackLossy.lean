import Bcachefs.Proofs.Btree.FastPack
import Bcachefs.Proofs.Btree.WriteBufferOrder

/-!
# `Bcachefs.Proofs.Btree.PackLossy`: lossy packing rounds a position down

`bch2_bkey_pack_pos_lossy` packs a position the node's format may not hold. It packs the
greatest position the format holds at or below it, and says whether that was the position
itself (`BKEY_PACK_POS_EXACT`) or one below it (`BKEY_PACK_POS_SMALLER`), or that the format
holds no position at or below it (`BKEY_PACK_POS_FAIL`). The positions a valid format holds
form a box, each field between its offset and its offset plus its mask (`PosFits`), and
positions are ordered as `bpos_cmp` orders them, as the numbers `posKey`.

Both packers work in two stages, and the proofs follow them:

* the underflow roll-up `pack_pos_roll_up`, shared word for word: a field below its offset
  borrows from the fields above it. Each of its three checks keeps `RollUpInv`: the box's
  positions at or below the current position are those at or below the one given, and a
  position it moved was outside the box. When it fails, every position of the box lies
  above the one given (`pack_pos_roll_up_none`); otherwise its result is at or above the
  box's bottom corner (`pack_pos_roll_up_some`).
* the overflow clamp. From a position at or above the bottom corner, the greatest position
  of the box at or below it is `clampPos`: the first field above its range goes to its top,
  and so does every field below it (`clampPos_isGreatest`). The fast
  path computes the clamped values in one cascade. The bit-stream path gets them from
  `set_inc_field_lossy`, where a clamped field raises the position's lower fields to their
  maximum, which then clamp to their top in turn (`lossyVal_max_offset`,
  `lossyVal_max_snapshot`).

So each packer writes the key words `__bch2_bkey_pack_pos_exact` writes for `clampPos` of
the rolled-up position (`__bch2_bkey_pack_pos_lossy_eq`, `bch2_bkey_pack_pos_lossy_eq`).
That key unpacks to that position (`__bkey_unpack_pos_pack_pos_exact`), and
`PackPosLossySpec.of_roll_up` turns the two stages into the rounding-down statement of
`bch2_bkey_pack_pos_lossy_spec`.
-/

set_option autoImplicit false
set_option linter.style.nameCheck false

namespace Bcachefs.Proofs.Btree

open Bcachefs.Bits

/-! ### The order of positions -/

/-- Positions in the order of the btree: as the numbers `posKey`, the order `bpos_cmp`
computes (`bpos_cmp_eq_cmp_int_posKey`). -/
instance : LinearOrder bpos := LinearOrder.lift' posKey fun _ _ => posKey_inj

/-- Positions compare as their numbers `posKey`. -/
theorem bpos_le_iff_posKey {l r : bpos} : l ≤ r ↔ posKey l ≤ posKey r := Iff.rfl

/-- Positions compare strictly as their numbers `posKey`. -/
theorem bpos_lt_iff_posKey {l r : bpos} : l < r ↔ posKey l < posKey r := Iff.rfl

/-- The order of positions field by field: inode, then offset, then snapshot. -/
theorem bpos_le_iff (l r : bpos) :
    l ≤ r ↔ l.inode.toNat < r.inode.toNat ∨ l.inode.toNat = r.inode.toNat ∧
      (l.offset.toNat < r.offset.toNat ∨ l.offset.toNat = r.offset.toNat ∧
        l.snapshot.toNat ≤ r.snapshot.toNat) := by
  have := l.offset.toNat_lt
  have := r.offset.toNat_lt
  have := l.snapshot.toNat_lt
  have := r.snapshot.toNat_lt
  rw [bpos_le_iff_posKey, posKey, posKey]
  omega

/-! ### The positions a format holds -/

instance (f : bkey_format) (x : UInt64) (i : Fin 6) : Decidable (FieldFits f x i) :=
  inferInstanceAs (Decidable (_ ∧ _))

/-- `p` is representable in `f`: each position field lies between its offset and its
offset plus its mask. -/
def PosFits (f : bkey_format) (p : bpos) : Prop :=
  FieldFits f p.inode BKEY_FIELD_INODE ∧ FieldFits f p.offset BKEY_FIELD_OFFSET ∧
    FieldFits f p.snapshot.toUInt64 BKEY_FIELD_SNAPSHOT

instance (f : bkey_format) (p : bpos) : Decidable (PosFits f p) :=
  inferInstanceAs (Decidable (_ ∧ _ ∧ _))

/-- The bottom corner of the box of `f` is at or below `p`, field by field. -/
def AboveBottom (f : bkey_format) (p : bpos) : Prop :=
  f.field_offset.get BKEY_FIELD_INODE ≤ p.inode ∧ f.field_offset.get BKEY_FIELD_OFFSET ≤ p.offset ∧
    f.field_offset.get BKEY_FIELD_SNAPSHOT ≤ p.snapshot.toUInt64

/-- A value is in a field's range when, as a number, it lies between the offset and the offset plus
`2 ^ bits`. -/
theorem fieldFits_iff_toNat (f : bkey_format) (x : UInt64) (i : Fin 6) :
    FieldFits f x i ↔ (f.field_offset.get i).toNat ≤ x.toNat ∧
      x.toNat < (f.field_offset.get i).toNat + 2 ^ (f.bits_per_field.get i).toNat := by
  unfold FieldFits
  rw [UInt64.le_iff_toNat_le]
  -- at or above the offset the subtraction does not wrap
  constructor
  · rintro ⟨hle, hlt⟩
    rw [UInt64.toNat_sub_of_le _ _ (UInt64.le_iff_toNat_le.mpr hle)] at hlt
    omega
  · rintro ⟨hle, hlt⟩
    rw [UInt64.toNat_sub_of_le _ _ (UInt64.le_iff_toNat_le.mpr hle)]
    omega

/-- The largest offset, as a number. -/
theorem toNat_KEY_OFFSET_MAX : KEY_OFFSET_MAX.toNat = 2 ^ 64 - 1 := rfl

/-- The largest snapshot, as a number. -/
theorem toNat_KEY_SNAPSHOT_MAX : KEY_SNAPSHOT_MAX.toNat = 2 ^ 32 - 1 := rfl

/-- `u64_bitmask bits` is the mask of the low `bits` bits. -/
theorem toNat_u64_bitmask {bits : Nat} (hb : bits ≤ 64) : (u64_bitmask bits).toNat = 2 ^ bits - 1 := by
  unfold u64_bitmask
  by_cases h0 : bits = 0
  · subst h0
    rfl
  · rw [if_pos h0, toNat_allOnes_shiftRight (by omega), show 64 - (64 - bits) = bits by omega]

/-- The members of the box, field by field, as numbers. -/
theorem posFits_iff_toNat (f : bkey_format) (p : bpos) :
    PosFits f p ↔
      ((f.field_offset.get BKEY_FIELD_INODE).toNat ≤ p.inode.toNat ∧
        p.inode.toNat < (f.field_offset.get BKEY_FIELD_INODE).toNat +
          2 ^ (f.bits_per_field.get BKEY_FIELD_INODE).toNat) ∧
      ((f.field_offset.get BKEY_FIELD_OFFSET).toNat ≤ p.offset.toNat ∧
        p.offset.toNat < (f.field_offset.get BKEY_FIELD_OFFSET).toNat +
          2 ^ (f.bits_per_field.get BKEY_FIELD_OFFSET).toNat) ∧
      ((f.field_offset.get BKEY_FIELD_SNAPSHOT).toNat ≤ p.snapshot.toNat ∧
        p.snapshot.toNat < (f.field_offset.get BKEY_FIELD_SNAPSHOT).toNat +
          2 ^ (f.bits_per_field.get BKEY_FIELD_SNAPSHOT).toNat) := by
  rw [PosFits, fieldFits_iff_toNat, fieldFits_iff_toNat, fieldFits_iff_toNat,
    UInt32.toNat_toUInt64]

/-- The largest value of field `i` in `f`: its offset plus its mask. -/
def fieldMax (f : bkey_format) (i : Fin 6) : UInt64 :=
  f.field_offset.get i + u64_bitmask (f.bits_per_field.get i).toNat

section Box

variable {f : bkey_format} (hf : FormatValid f)
include hf

/-- A field's top does not wrap: the offset plus the mask stays below the unpacked
member's range. -/
theorem toNat_fieldMax (i : Fin 6) :
    (fieldMax f i).toNat + 1 = (f.field_offset.get i).toNat + 2 ^ (f.bits_per_field.get i).toNat := by
  have hoff := hf.offset_add_le i
  have hcur : 2 ^ (bch2_bkey_format_current.bits_per_field.get i).toNat ≤ 2 ^ 64 :=
    Nat.pow_le_pow_right (by norm_num) (bits_current_le i)
  have hpos := Nat.two_pow_pos (f.bits_per_field.get i).toNat
  -- the sum is below `2 ^ 64`, so the addition does not wrap
  rw [fieldMax, UInt64.toNat_add, toNat_u64_bitmask (hf.bits_le i), Nat.mod_eq_of_lt (by omega)]
  omega

/-- The snapshot field's top fits the 32-bit member. -/
theorem toNat_fieldMax_snapshot :
    (fieldMax f BKEY_FIELD_SNAPSHOT).toUInt32.toNat + 1 =
      (f.field_offset.get BKEY_FIELD_SNAPSHOT).toNat + 2 ^ (f.bits_per_field.get BKEY_FIELD_SNAPSHOT).toNat := by
  have hoff := hf.offset_add_le_snapshot
  have hmax := toNat_fieldMax hf BKEY_FIELD_SNAPSHOT
  rw [UInt64.toNat_toUInt32, Nat.mod_eq_of_lt (by omega), hmax]

end Box

/-! ### The underflow roll-up -/

/-- The position the snapshot roll-up steps to is the last one below `(inode, offset)`. -/
theorem posKey_roll_up_snapshot (p : bpos) (h : ¬(p.offset = 0 ∧ p.inode = 0)) :
    posKey ⟨if p.offset = 0 then p.inode - 1 else p.inode, p.offset - 1, KEY_SNAPSHOT_MAX⟩ + 1 =
      (p.inode.toNat * 2 ^ 64 + p.offset.toNat) * 2 ^ 32 := by
  have hi := p.inode.toNat_lt
  have ho := p.offset.toNat_lt
  simp only [posKey]
  rw [toNat_KEY_SNAPSHOT_MAX, UInt64.toNat_sub p.offset 1, UInt64.toNat_one]
  -- at offset `0` the source borrows from the inode
  by_cases ho0 : p.offset = 0
  · have hi0 : p.inode.toNat ≠ 0 := fun h0 => h ⟨ho0, UInt64.toNat_inj.mp h0⟩
    rw [if_pos ho0, UInt64.toNat_sub p.inode 1, UInt64.toNat_one, ho0, UInt64.toNat_zero]
    omega
  · have ho0' : p.offset.toNat ≠ 0 := fun h0 => ho0 (UInt64.toNat_inj.mp h0)
    rw [if_neg ho0]
    omega

/-- The position the offset roll-up steps to is the last one of the inode before. -/
theorem posKey_roll_up_offset (p : bpos) (h : p.inode ≠ 0) :
    posKey ⟨p.inode - 1, KEY_OFFSET_MAX, KEY_SNAPSHOT_MAX⟩ + 1 =
      p.inode.toNat * 2 ^ 64 * 2 ^ 32 := by
  have hi := p.inode.toNat_lt
  have hi0 : p.inode.toNat ≠ 0 := fun h0 => h (UInt64.toNat_inj.mp h0)
  simp only [posKey]
  rw [toNat_KEY_SNAPSHOT_MAX, toNat_KEY_OFFSET_MAX, UInt64.toNat_sub p.inode 1, UInt64.toNat_one]
  omega

/-- What each check of the roll-up keeps of the position `in_` it was given: the box's
positions at or below the current one are those at or below `in_`, a position still marked
exact is `in_`, and one marked inexact was outside the box. -/
structure RollUpInv (f : bkey_format) (in_ : bpos) (r : bpos × Bool) : Prop where
  le_iff : ∀ q, PosFits f q → (q ≤ r.1 ↔ q ≤ in_)
  eq_of_exact : r.2 = true → r.1 = in_
  not_fits : r.2 = false → ¬ PosFits f in_

/-- Before the checks the position is `in_` and exact. -/
theorem RollUpInv.init (f : bkey_format) (in_ : bpos) : RollUpInv f in_ (in_, true) where
  le_iff _ _ := Iff.rfl
  eq_of_exact _ := rfl
  not_fits h := by cases h

section RollUp

variable {f : bkey_format} {in_ : bpos}

/-- A check that moves the position `r.1`, which is outside the box, down to `p`, with the
same positions of the box at or below it. -/
theorem RollUpInv.move {r : bpos × Bool} (h : RollUpInv f in_ r) {p : bpos}
    (hle : ∀ q, PosFits f q → (q ≤ p ↔ q ≤ r.1)) (hout : ¬ PosFits f r.1) :
    RollUpInv f in_ (p, false) where
  le_iff q hq := (hle q hq).trans (h.le_iff q hq)
  eq_of_exact h' := by cases h'
  not_fits _ := by
    -- an exact position was `in_`, so `in_` was outside the box too
    cases hr : r.2
    · exact h.not_fits hr
    · rw [← h.eq_of_exact hr]
      exact hout

/-- A failed check leaves every position of the box above the current one, and so above
`in_`. -/
theorem RollUpInv.lt_of_lt {r : bpos × Bool} (h : RollUpInv f in_ r)
    (hlt : ∀ q, PosFits f q → r.1 < q) : ∀ q, PosFits f q → in_ < q := fun q hq =>
  lt_of_not_ge fun hle => absurd ((h.le_iff q hq).mpr hle) (not_le_of_gt (hlt q hq))

/-- The snapshot check fails only at `0:0` below the snapshot's range, where the whole box lies
above. -/
theorem pos_roll_up_snapshot_none {r : bpos × Bool} (h : pos_roll_up_snapshot f r = none) :
    ∀ q, PosFits f q → r.1 < q := by
  obtain ⟨p, e⟩ := r
  intro q hq
  show p < q
  rw [posFits_iff_toNat] at hq
  rw [pos_roll_up_snapshot] at h
  by_cases hs : p.snapshot.toUInt64 < f.field_offset.get BKEY_FIELD_SNAPSHOT
  · rw [if_pos hs] at h
    by_cases hz : p.offset = 0 ∧ p.inode = 0
    · -- at `0:0`, below the snapshot's offset: every position of the box is above
      rw [UInt64.lt_iff_toNat_lt, UInt32.toNat_toUInt64] at hs
      rw [bpos_lt_iff_posKey, posKey, posKey, hz.1, hz.2, UInt64.toNat_zero]
      omega
    · rw [if_neg hz] at h
      cases h
  · rw [if_neg hs] at h
    cases h

/-- The snapshot check keeps `RollUpInv` and leaves a snapshot at or above the field's offset. -/
theorem pos_roll_up_snapshot_some (hf : FormatValid f) {r r' : bpos × Bool}
    (hinv : RollUpInv f in_ r) (h : pos_roll_up_snapshot f r = some r') :
    RollUpInv f in_ r' ∧ (f.field_offset.get BKEY_FIELD_SNAPSHOT).toNat ≤ r'.1.snapshot.toNat := by
  obtain ⟨p, e⟩ := r
  have hoff := hf.offset_add_le_snapshot
  rw [pos_roll_up_snapshot] at h
  by_cases hs : p.snapshot.toUInt64 < f.field_offset.get BKEY_FIELD_SNAPSHOT
  · rw [UInt64.lt_iff_toNat_lt, UInt32.toNat_toUInt64] at hs
    rw [if_pos (UInt64.lt_iff_toNat_lt.mpr (by rwa [UInt32.toNat_toUInt64]))] at h
    by_cases hz : p.offset = 0 ∧ p.inode = 0
    · rw [if_pos hz] at h
      cases h
    · rw [if_neg hz] at h
      cases h
      have hkey := posKey_roll_up_snapshot p hz
      refine ⟨hinv.move (fun q hq => ?_) ?_, ?_⟩
      · -- the box's snapshots are above `p`'s: below `p` means below `(inode, offset)`
        rw [posFits_iff_toNat] at hq
        have hqs := q.snapshot.toNat_lt
        rw [bpos_le_iff_posKey, bpos_le_iff_posKey]
        simp only [posKey] at hkey ⊢
        omega
      -- `p`'s snapshot is below the field's range
      · show ¬ PosFits f p
        intro hp
        rw [posFits_iff_toNat] at hp
        omega
      -- the new snapshot is the largest, at or above the field's offset
      · show _ ≤ KEY_SNAPSHOT_MAX.toNat
        rw [toNat_KEY_SNAPSHOT_MAX]
        have := Nat.two_pow_pos (f.bits_per_field.get BKEY_FIELD_SNAPSHOT).toNat
        omega
  -- the snapshot is in range: nothing moves
  · rw [if_neg hs] at h
    cases h
    rw [UInt64.lt_iff_toNat_lt, UInt32.toNat_toUInt64] at hs
    exact ⟨hinv, show _ ≤ p.snapshot.toNat by omega⟩

/-- The offset check fails only in inode `0` below the offset's range, where the whole box lies
above. -/
theorem pos_roll_up_offset_none {r : bpos × Bool} (h : pos_roll_up_offset f r = none) :
    ∀ q, PosFits f q → r.1 < q := by
  obtain ⟨p, e⟩ := r
  intro q hq
  show p < q
  rw [posFits_iff_toNat] at hq
  rw [pos_roll_up_offset] at h
  by_cases ho : p.offset < f.field_offset.get BKEY_FIELD_OFFSET
  · rw [if_pos ho] at h
    by_cases hz : p.inode = 0
    · -- in inode `0`, below the offset's offset: every position of the box is above
      have hps := p.snapshot.toNat_lt
      rw [UInt64.lt_iff_toNat_lt] at ho
      rw [bpos_lt_iff_posKey, posKey, posKey, hz, UInt64.toNat_zero]
      omega
    · rw [if_neg hz] at h
      cases h
  · rw [if_neg ho] at h
    cases h

/-- The offset check keeps `RollUpInv`, leaves an offset at or above the field's offset, and keeps
the snapshot's bound. -/
theorem pos_roll_up_offset_some (hf : FormatValid f) {r r' : bpos × Bool}
    (hinv : RollUpInv f in_ r)
    (hs : (f.field_offset.get BKEY_FIELD_SNAPSHOT).toNat ≤ r.1.snapshot.toNat)
    (h : pos_roll_up_offset f r = some r') :
    RollUpInv f in_ r' ∧ (f.field_offset.get BKEY_FIELD_OFFSET).toNat ≤ r'.1.offset.toNat ∧
      (f.field_offset.get BKEY_FIELD_SNAPSHOT).toNat ≤ r'.1.snapshot.toNat := by
  obtain ⟨p, e⟩ := r
  have hoff := hf.offset_add_le_snapshot
  rw [pos_roll_up_offset] at h
  by_cases ho : p.offset < f.field_offset.get BKEY_FIELD_OFFSET
  · rw [if_pos ho] at h
    rw [UInt64.lt_iff_toNat_lt] at ho
    by_cases hz : p.inode = 0
    · rw [if_pos hz] at h
      cases h
    · rw [if_neg hz] at h
      cases h
      have hkey := posKey_roll_up_offset p hz
      refine ⟨hinv.move (fun q hq => ?_) ?_, ?_, ?_⟩
      · -- the box's offsets are above `p`'s: below `p` means in an inode before `p`'s
        rw [posFits_iff_toNat] at hq
        have hqo := q.offset.toNat_lt
        have hqs := q.snapshot.toNat_lt
        have hps := p.snapshot.toNat_lt
        rw [bpos_le_iff_posKey, bpos_le_iff_posKey]
        simp only [posKey] at hkey ⊢
        omega
      -- `p`'s offset is below the field's range
      · show ¬ PosFits f p
        intro hp
        rw [posFits_iff_toNat] at hp
        omega
      · show _ ≤ KEY_OFFSET_MAX.toNat
        rw [toNat_KEY_OFFSET_MAX]
        have := (f.field_offset.get BKEY_FIELD_OFFSET).toNat_lt
        omega
      · show _ ≤ KEY_SNAPSHOT_MAX.toNat
        rw [toNat_KEY_SNAPSHOT_MAX]
        have := Nat.two_pow_pos (f.bits_per_field.get BKEY_FIELD_SNAPSHOT).toNat
        omega
  -- the offset is in range: nothing moves
  · rw [if_neg ho] at h
    cases h
    rw [UInt64.lt_iff_toNat_lt] at ho
    exact ⟨hinv, show _ ≤ p.offset.toNat by omega, hs⟩

/-- The inode check fails only below the inode's range, where the whole box lies above. -/
theorem pos_check_inode_none {r : bpos × Bool} (h : pos_check_inode f r = none) :
    ∀ q, PosFits f q → r.1 < q := by
  obtain ⟨p, e⟩ := r
  intro q hq
  show p < q
  rw [posFits_iff_toNat] at hq
  rw [pos_check_inode] at h
  by_cases hi : p.inode < f.field_offset.get BKEY_FIELD_INODE
  · -- every inode of the box is above `p`'s
    have hpo := p.offset.toNat_lt
    have hps := p.snapshot.toNat_lt
    rw [UInt64.lt_iff_toNat_lt] at hi
    rw [bpos_lt_iff_posKey, posKey, posKey]
    omega
  · rw [if_neg hi] at h
    cases h

/-- The inode check passes the position on as it is, at or above the inode's offset. -/
theorem pos_check_inode_some {r r' : bpos × Bool} (h : pos_check_inode f r = some r') :
    r' = r ∧ (f.field_offset.get BKEY_FIELD_INODE).toNat ≤ r.1.inode.toNat := by
  obtain ⟨p, e⟩ := r
  rw [pos_check_inode] at h
  by_cases hi : p.inode < f.field_offset.get BKEY_FIELD_INODE
  · rw [if_pos hi] at h
    cases h
  -- the inode is in range: the position passes
  · rw [if_neg hi] at h
    cases h
    rw [UInt64.lt_iff_toNat_lt] at hi
    exact ⟨rfl, show _ ≤ p.inode.toNat by omega⟩

/-- A roll-up that fails leaves no position of the box at or below `in_`. -/
theorem pack_pos_roll_up_none (hf : FormatValid f) (h : pack_pos_roll_up f in_ = none) :
    ∀ q, PosFits f q → in_ < q := by
  have h₀ := RollUpInv.init f in_
  unfold pack_pos_roll_up at h
  -- the three checks in the source's order; the first that fails leaves the box above
  cases h₁ : pos_roll_up_snapshot f (in_, true) with
  | none => exact h₀.lt_of_lt (pos_roll_up_snapshot_none h₁)
  | some r₁ =>
      obtain ⟨h₁', hs₁⟩ := pos_roll_up_snapshot_some hf h₀ h₁
      rw [h₁, Option.bind_some] at h
      cases h₂ : pos_roll_up_offset f r₁ with
      | none => exact h₁'.lt_of_lt (pos_roll_up_offset_none h₂)
      | some r₂ =>
          obtain ⟨h₂', -, -⟩ := pos_roll_up_offset_some hf h₁' hs₁ h₂
          rw [h₂, Option.bind_some] at h
          exact h₂'.lt_of_lt (pos_check_inode_none h)

/-- A roll-up that succeeds keeps `RollUpInv` and ends at or above the box's bottom
corner. -/
theorem pack_pos_roll_up_some (hf : FormatValid f) {r : bpos × Bool}
    (h : pack_pos_roll_up f in_ = some r) : RollUpInv f in_ r ∧ AboveBottom f r.1 := by
  unfold pack_pos_roll_up at h
  cases h₁ : pos_roll_up_snapshot f (in_, true) with
  | none =>
      rw [h₁] at h
      cases h
  | some r₁ =>
      obtain ⟨h₁', hs₁⟩ := pos_roll_up_snapshot_some hf (RollUpInv.init f in_) h₁
      rw [h₁, Option.bind_some] at h
      cases h₂ : pos_roll_up_offset f r₁ with
      | none =>
          rw [h₂] at h
          cases h
      | some r₂ =>
          obtain ⟨h₂', ho₂, hs₂⟩ := pos_roll_up_offset_some hf h₁' hs₁ h₂
          rw [h₂, Option.bind_some] at h
          -- each field is now at or above its offset
          obtain ⟨rfl, hi₂⟩ := pos_check_inode_some h
          refine ⟨h₂', ?_, ?_, ?_⟩ <;>
            simp only [UInt64.le_iff_toNat_le, UInt32.toNat_toUInt64] <;> assumption

end RollUp

/-! ### The overflow clamp -/

/-- The greatest position of the box of `f` at or below `p`, for `p` at or above the box's
bottom corner: the first field above its range goes to its top, and so does every field
below it. -/
def clampPos (f : bkey_format) (p : bpos) : bpos :=
  if ¬ FieldFits f p.inode BKEY_FIELD_INODE then
    ⟨fieldMax f BKEY_FIELD_INODE, fieldMax f BKEY_FIELD_OFFSET,
      (fieldMax f BKEY_FIELD_SNAPSHOT).toUInt32⟩
  else if ¬ FieldFits f p.offset BKEY_FIELD_OFFSET then
    ⟨p.inode, fieldMax f BKEY_FIELD_OFFSET, (fieldMax f BKEY_FIELD_SNAPSHOT).toUInt32⟩
  else if ¬ FieldFits f p.snapshot.toUInt64 BKEY_FIELD_SNAPSHOT then
    ⟨p.inode, p.offset, (fieldMax f BKEY_FIELD_SNAPSHOT).toUInt32⟩
  else p

attribute [grind] clampPos

/-- A position of the box is its own clamp. -/
theorem clampPos_of_fits {f : bkey_format} {p : bpos} (h : PosFits f p) : clampPos f p = p := by
  obtain ⟨hi, ho, hs⟩ := h
  rw [clampPos, if_neg (not_not.mpr hi), if_neg (not_not.mpr ho), if_neg (not_not.mpr hs)]

/-- `clampPos` is the greatest position of the box at or below `p`: each branch puts the
first field out of range at its top and the fields below it at theirs, and leaves the
fields above it as they are. -/
theorem clampPos_isGreatest {f : bkey_format} (hf : FormatValid f) {p : bpos}
    (hp : AboveBottom f p) : IsGreatest {q | PosFits f q ∧ q ≤ p} (clampPos f p) := by
  obtain ⟨hpi, hpo, hps⟩ := hp
  rw [UInt64.le_iff_toNat_le] at hpi hpo hps
  rw [UInt32.toNat_toUInt64] at hps
  have hI := toNat_fieldMax hf BKEY_FIELD_INODE
  have hO := toNat_fieldMax hf BKEY_FIELD_OFFSET
  have hS := toNat_fieldMax_snapshot hf
  have h2I := Nat.two_pow_pos (f.bits_per_field.get BKEY_FIELD_INODE).toNat
  have h2O := Nat.two_pow_pos (f.bits_per_field.get BKEY_FIELD_OFFSET).toNat
  have h2S := Nat.two_pow_pos (f.bits_per_field.get BKEY_FIELD_SNAPSHOT).toNat
  have hpi' := p.inode.toNat_lt
  have hpo' := p.offset.toNat_lt
  have hps' := p.snapshot.toNat_lt
  have hS' := (fieldMax f BKEY_FIELD_SNAPSHOT).toUInt32.toNat_lt
  have hO' := (fieldMax f BKEY_FIELD_OFFSET).toNat_lt
  -- one case per branch; each is arithmetic on the three fields once the tops are numbers
  unfold clampPos
  by_cases h₁ : FieldFits f p.inode BKEY_FIELD_INODE
  · rw [if_neg (not_not.mpr h₁)]
    rw [fieldFits_iff_toNat] at h₁
    by_cases h₂ : FieldFits f p.offset BKEY_FIELD_OFFSET
    · rw [if_neg (not_not.mpr h₂)]
      rw [fieldFits_iff_toNat] at h₂
      by_cases h₃ : FieldFits f p.snapshot.toUInt64 BKEY_FIELD_SNAPSHOT
      · -- `p` is in the box
        rw [if_neg (not_not.mpr h₃)]
        rw [fieldFits_iff_toNat, UInt32.toNat_toUInt64] at h₃
        refine ⟨⟨?_, le_rfl⟩, fun q hq => hq.2⟩
        simp only [posFits_iff_toNat]
        omega
      · -- the snapshot is above its range
        rw [if_pos h₃]
        rw [fieldFits_iff_toNat, UInt32.toNat_toUInt64] at h₃
        refine ⟨⟨?_, ?_⟩, fun q ⟨hq, hqp⟩ => ?_⟩
        · simp only [posFits_iff_toNat]
          omega
        · simp only [bpos_le_iff, true_and]
          omega
        · have hqo := q.offset.toNat_lt
          have hqs := q.snapshot.toNat_lt
          rw [posFits_iff_toNat] at hq
          simp only [bpos_le_iff] at hqp ⊢
          omega
    · -- the offset is above its range
      rw [if_pos h₂]
      rw [fieldFits_iff_toNat] at h₂
      refine ⟨⟨?_, ?_⟩, fun q ⟨hq, hqp⟩ => ?_⟩
      · simp only [posFits_iff_toNat]
        omega
      · simp only [bpos_le_iff, true_and]
        omega
      · have hqo := q.offset.toNat_lt
        have hqs := q.snapshot.toNat_lt
        rw [posFits_iff_toNat] at hq
        simp only [bpos_le_iff] at hqp ⊢
        omega
  · -- the inode is above its range: the top of the box
    rw [if_pos h₁]
    rw [fieldFits_iff_toNat] at h₁
    refine ⟨⟨?_, ?_⟩, fun q ⟨hq, hqp⟩ => ?_⟩
    · simp only [posFits_iff_toNat]
      omega
    · simp only [bpos_le_iff]
      omega
    · have hqo := q.offset.toNat_lt
      have hqs := q.snapshot.toNat_lt
      rw [posFits_iff_toNat] at hq
      simp only [bpos_le_iff] at hqp ⊢
      omega

/-! ### The field values of the two packers -/

/-- The value `set_inc_field_lossy` appends for `v`: `v` less the offset when `v` is in the
field's range, the field's mask when it is above. -/
def lossyVal (f : bkey_format) (i : Fin 6) (v : UInt64) : UInt64 :=
  if FieldFits f v i then v - f.field_offset.get i else u64_bitmask (f.bits_per_field.get i).toNat

attribute [grind] lossyVal

/-- The clamp constant of `set_inc_field_lossy` is `u64_bitmask`: a field that overflows is
narrower than 64 bits. -/
theorem not_shiftLeft_eq_u64_bitmask {bits : Nat} (hb : bits < 64) :
    ~~~((~~~0 : UInt64) <<< bits.toUInt64) = u64_bitmask bits := by
  rw [← UInt64.toNat_inj, toNat_not_shiftLeft hb, toNat_u64_bitmask (by omega)]

section Values

variable {f : bkey_format} (hf : FormatValid f)
include hf

/-- `set_inc_field_lossy` on a state of a valid format: it appends `lossyVal`, and says
whether the value was in the field's range. -/
theorem set_inc_field_lossy_eq (k : bkey_packed) {s : pack_state} (hs : s.format = f)
    (i : Fin 6) (v : UInt64) :
    set_inc_field_lossy k s i v = (decide (FieldFits f v i), __set_inc_field k s i (lossyVal f i v)) := by
  unfold set_inc_field_lossy
  rw [hs]
  dsimp only
  by_cases h : FieldFits f v i
  -- in range: the value less the offset fits the field
  · have hle : ¬ fls64 (v - f.field_offset.get i) > (f.bits_per_field.get i).toNat := by
      rw [gt_iff_lt, Nat.not_lt, fls64_le_iff]
      exact h.2
    rw [if_neg hle, lossyVal, if_pos h, decide_eq_true h]
  -- out of range: the source appends the mask `~(~0 << bits)`
  · have hgt : fls64 (v - f.field_offset.get i) > (f.bits_per_field.get i).toNat := by
      rw [gt_iff_lt, ← Nat.not_le, fls64_le_iff, ← fieldFits_iff hf]
      exact h
    have h64 := (fls64_le_iff (v - f.field_offset.get i) 64).mpr (UInt64.toNat_lt _)
    rw [if_pos hgt, lossyVal, if_neg h, decide_eq_false h, not_shiftLeft_eq_u64_bitmask (by omega)]

/-- A value at or above the field's top appends the field's mask, whether or not it is in
range: the top itself is offset plus mask. -/
theorem lossyVal_of_top (i : Fin 6) {v : UInt64}
    (hv : (f.field_offset.get i).toNat + 2 ^ (f.bits_per_field.get i).toNat ≤ v.toNat + 1) :
    lossyVal f i v = u64_bitmask (f.bits_per_field.get i).toNat := by
  unfold lossyVal
  by_cases h : FieldFits f v i
  -- a value in range at the top is the offset plus the mask
  · rw [if_pos h, ← UInt64.toNat_inj, toNat_u64_bitmask (hf.bits_le i)]
    rw [fieldFits_iff_toNat] at h
    rw [UInt64.toNat_sub_of_le _ _ (UInt64.le_iff_toNat_le.mpr h.1)]
    omega
  · rw [if_neg h]

/-- The largest offset appends the offset field's mask. -/
theorem lossyVal_max_offset :
    lossyVal f BKEY_FIELD_OFFSET KEY_OFFSET_MAX = u64_bitmask (f.bits_per_field.get BKEY_FIELD_OFFSET).toNat := by
  have hoff := hf.offset_add_le_offset
  exact lossyVal_of_top hf _ (by rw [toNat_KEY_OFFSET_MAX]; omega)

/-- The largest snapshot appends the snapshot field's mask. -/
theorem lossyVal_max_snapshot :
    lossyVal f BKEY_FIELD_SNAPSHOT KEY_SNAPSHOT_MAX.toUInt64 =
      u64_bitmask (f.bits_per_field.get BKEY_FIELD_SNAPSHOT).toNat := by
  have hoff := hf.offset_add_le_snapshot
  exact lossyVal_of_top hf _ (by rw [UInt32.toNat_toUInt64, toNat_KEY_SNAPSHOT_MAX]; omega)

/-- The snapshot's top, cut to 32 bits and widened back, is unchanged. -/
theorem fieldMax_snapshot_toUInt32_toUInt64 :
    (fieldMax f BKEY_FIELD_SNAPSHOT).toUInt32.toUInt64 = fieldMax f BKEY_FIELD_SNAPSHOT := by
  have h := toNat_fieldMax_snapshot hf
  have h' := toNat_fieldMax hf BKEY_FIELD_SNAPSHOT
  rw [← UInt64.toNat_inj, UInt32.toNat_toUInt64]
  omega

end Values

/-- A field's top less its offset is its mask. -/
theorem fieldMax_sub (f : bkey_format) (i : Fin 6) :
    fieldMax f i - f.field_offset.get i = u64_bitmask (f.bits_per_field.get i).toNat :=
  add_sub_cancel_left _ _

/-- The cascade's test: a value's difference from the offset is too wide exactly when the
value is out of the field's range. -/
theorem fls64_gt_iff {f : bkey_format} (hf : FormatValid f) (i : Fin 6) (v : UInt64) :
    fls64 (v - f.field_offset.get i) > (f.bits_per_field.get i).toNat ↔ ¬ FieldFits f v i := by
  rw [gt_iff_lt, ← Nat.not_le, fls64_le_iff, fieldFits_iff hf]

/-- `__bch2_bkey_pack_pos_lossy` fails when the roll-up does, and otherwise writes the key
`__bch2_bkey_pack_pos_exact` writes for the clamped position: `set_inc_field_lossy` appends the
clamped values, a clamped field having raised the fields below it to their maximum, which
then clamp to their top. It is exact when the roll-up was and the rolled-up position is in
the box. -/
theorem __bch2_bkey_pack_pos_lossy_eq (b : btree) (hf : FormatValid b.format) (out : bkey_packed) (in_ : bpos) :
    __bch2_bkey_pack_pos_lossy out in_ b =
      match pack_pos_roll_up b.format in_ with
      | none => (.BKEY_PACK_POS_FAIL, zero_words out b.format.key_u64s.toNat)
      | some (p, exact) =>
          (if exact && decide (PosFits b.format p) then .BKEY_PACK_POS_EXACT
            else .BKEY_PACK_POS_SMALLER,
            (__bch2_bkey_pack_pos_exact out (clampPos b.format p) b.format).2) := by
  unfold __bch2_bkey_pack_pos_lossy
  dsimp only
  cases hr : pack_pos_roll_up b.format in_ with
  | none => rfl
  | some r =>
      obtain ⟨p, e⟩ := r
      have hp := (pack_pos_roll_up_some hf hr).2
      have hc := (clampPos_isGreatest hf hp).1.1
      dsimp only
      rw [__bch2_bkey_pack_pos_exact_eq_of_fits _ _ _ hc]
      simp only [packPosRun]
      rw [set_inc_field_lossy_eq hf _ (pack_state_init_format _)]
      by_cases h₁ : FieldFits b.format p.inode BKEY_FIELD_INODE
      · simp only [decide_eq_true h₁, if_true]
        rw [set_inc_field_lossy_eq hf _ (by rw [__set_inc_field_format, pack_state_init_format])]
        by_cases h₂ : FieldFits b.format p.offset BKEY_FIELD_OFFSET
        · simp only [decide_eq_true h₂, if_true]
          rw [set_inc_field_lossy_eq hf _ (by rw [__set_inc_field_format, __set_inc_field_format,
            pack_state_init_format])]
          by_cases h₃ : FieldFits b.format p.snapshot.toUInt64 BKEY_FIELD_SNAPSHOT
          · -- `p` is in the box: every value is the field less its offset
            have hfits : PosFits b.format p := ⟨h₁, h₂, h₃⟩
            simp only [decide_eq_true h₃, decide_eq_true hfits, clampPos_of_fits hfits, lossyVal,
              if_pos h₁, if_pos h₂, if_pos h₃]
          · -- the snapshot is clamped
            have hout : ¬ PosFits b.format p := fun h => h₃ h.2.2
            rw [clampPos, if_neg (not_not.mpr h₁), if_neg (not_not.mpr h₂), if_pos h₃]
            simp only [decide_eq_false h₃, decide_eq_false hout, lossyVal, if_pos h₁, if_pos h₂,
              if_neg h₃, fieldMax_snapshot_toUInt32_toUInt64 hf, fieldMax_sub]
        · -- the offset is clamped, and the snapshot goes to its maximum
          have hout : ¬ PosFits b.format p := fun h => h₂ h.2.1
          simp only [decide_eq_false h₂, Bool.false_eq_true, if_false]
          rw [set_inc_field_lossy_eq hf _ (by rw [__set_inc_field_format, __set_inc_field_format,
            pack_state_init_format]), lossyVal_max_snapshot hf]
          rw [clampPos, if_neg (not_not.mpr h₁), if_pos h₂]
          simp only [decide_eq_false hout, lossyVal, if_pos h₁, if_neg h₂,
            fieldMax_snapshot_toUInt32_toUInt64 hf, fieldMax_sub, Bool.false_and, Bool.and_false]
      · -- the inode is clamped, and the offset and snapshot go to their maximum
        have hout : ¬ PosFits b.format p := fun h => h₁ h.1
        simp only [decide_eq_false h₁, Bool.false_eq_true, if_false]
        rw [set_inc_field_lossy_eq hf _ (by rw [__set_inc_field_format, pack_state_init_format]),
          lossyVal_max_offset hf]
        -- whether or not the largest offset is in range, the snapshot is already at its maximum
        simp only [ite_self]
        rw [set_inc_field_lossy_eq hf _ (by rw [__set_inc_field_format, __set_inc_field_format,
          pack_state_init_format]), lossyVal_max_snapshot hf]
        rw [clampPos, if_pos h₁]
        simp only [decide_eq_false hout, lossyVal, if_neg h₁, fieldMax_snapshot_toUInt32_toUInt64 hf,
          fieldMax_sub, Bool.false_and, Bool.and_false]

/-- On a byte-aligned node, `bch2_bkey_pack_pos_lossy` fails when the roll-up does, and
otherwise writes the key `bch2_bkey_pack_pos` writes for the clamped position: its cascade
computes the clamped values directly. -/
theorem bch2_bkey_pack_pos_lossy_eq (b : btree) (hf : FormatValid b.format) (haligned : b.byte_aligned_fields = true)
    (out : bkey_packed) (in_ : bpos) :
    bch2_bkey_pack_pos_lossy out in_ b =
      match pack_pos_roll_up b.format in_ with
      | none => (.BKEY_PACK_POS_FAIL, out)
      | some (p, exact) =>
          (if exact && decide (PosFits b.format p) then .BKEY_PACK_POS_EXACT
            else .BKEY_PACK_POS_SMALLER,
            (bch2_bkey_pack_pos out (clampPos b.format p) b).2) := by
  unfold bch2_bkey_pack_pos_lossy
  rw [if_pos haligned]
  dsimp only
  cases hr : pack_pos_roll_up b.format in_ with
  | none => rfl
  | some r =>
      obtain ⟨p, e⟩ := r
      have hc := (clampPos_isGreatest hf (pack_pos_roll_up_some hf hr).2).1.1
      obtain ⟨hcI, hcO, hcS⟩ := hc
      dsimp only
      unfold bch2_bkey_pack_pos
      rw [if_pos haligned]
      dsimp only
      -- the clamped position passes the exact packer's range checks
      have hnot : ∀ {v : UInt64} {i : Fin 6}, FieldFits b.format v i →
          ¬ fls64 (v - b.format.field_offset.get i) > (b.format.bits_per_field.get i).toNat :=
        fun hv hgt => (fls64_gt_iff hf _ _).mp hgt hv
      simp only [decide_eq_false (hnot hcI), decide_eq_false (hnot hcO), decide_eq_false (hnot hcS),
        Bool.or_false, Bool.false_eq_true, if_false]
      by_cases h₁ : FieldFits b.format p.inode BKEY_FIELD_INODE
      · rw [if_neg (hnot h₁)]
        by_cases h₂ : FieldFits b.format p.offset BKEY_FIELD_OFFSET
        · rw [if_neg (hnot h₂)]
          by_cases h₃ : FieldFits b.format p.snapshot.toUInt64 BKEY_FIELD_SNAPSHOT
          · -- `p` is in the box
            have hfits : PosFits b.format p := ⟨h₁, h₂, h₃⟩
            rw [if_neg (hnot h₃), clampPos_of_fits hfits, decide_eq_true hfits, Bool.and_true]
          · -- the snapshot is clamped
            have hout : ¬ PosFits b.format p := fun h => h₃ h.2.2
            rw [if_pos ((fls64_gt_iff hf _ _).mpr h₃), clampPos,
              if_neg (not_not.mpr h₁), if_neg (not_not.mpr h₂), if_pos h₃]
            simp only [decide_eq_false hout, Bool.and_false, fieldMax_snapshot_toUInt32_toUInt64 hf,
              fieldMax_sub]
        · -- the offset is clamped, and the snapshot with it
          have hout : ¬ PosFits b.format p := fun h => h₂ h.2.1
          rw [if_pos ((fls64_gt_iff hf _ _).mpr h₂), clampPos, if_neg (not_not.mpr h₁), if_pos h₂]
          simp only [decide_eq_false hout, Bool.and_false, fieldMax_snapshot_toUInt32_toUInt64 hf,
            fieldMax_sub]
      · -- the inode is clamped, and every field below it
        have hout : ¬ PosFits b.format p := fun h => h₁ h.1
        rw [if_pos ((fls64_gt_iff hf _ _).mpr h₁), clampPos, if_pos h₁]
        simp only [decide_eq_false hout, Bool.and_false, fieldMax_snapshot_toUInt32_toUInt64 hf,
          fieldMax_sub]

/-! ### Reading the packed position back -/

/-- The header stores of the position packers leave the key words from byte `3` up. -/
theorem pos_header_bytes_of_three_le (k : bkey_packed) (u t : UInt8) (v : Nat) {x : Int}
    (hx : 3 ≤ x) : (set_type (set_format (set_u64s k u) v) t).bytes x = k.bytes x := by
  simp only [set_type_bytes, set_format_bytes, set_u64s_bytes]
  rw [if_neg (by omega), if_neg (by omega), if_neg (by omega)]

/-- A key the position packers wrote is in the node's format. -/
theorem format_pos_header (k : bkey_packed) (u t : UInt8) :
    (set_type (set_format (set_u64s k u) KEY_FORMAT_LOCAL_BTREE) t).format = KEY_FORMAT_LOCAL_BTREE := by
  have h := (set_u64s k u).bytes 1 |>.toNat_lt
  simp only [bkey_packed.format, set_type_bytes, set_format_bytes, if_neg (show (1 : Int) ≠ 2 by decide),
    if_true, KEY_FORMAT_LOCAL_BTREE, UInt8.toNat_ofNat']
  omega

section RoundTrip

variable {f : bkey_format} (hf : FormatValid f)
include hf

/-- A key whose words hold the stream of `q`'s fields, less their offsets, at their top and
any bits below them unpacks to `q`: each read takes one field of the stream and adds its
offset back. -/
theorem __bkey_unpack_pos_of_keyVal (k : bkey_packed) {q : bpos} (hq : PosFits f q) {low : Nat}
    (hlow : low < 2 ^ (64 * f.key_u64s.toNat - bkey_format_key_bits f))
    (hK : keyVal k f.key_u64s.toNat =
      packPosVal f q * 2 ^ (64 * f.key_u64s.toNat - bkey_format_key_bits f) + low) :
    __bkey_unpack_pos f k = q := by
  have hroom := hf.room_fields
  obtain ⟨hI, hO, hS⟩ := hq
  rw [fieldFits_iff_toNat] at hI hO hS
  rw [UInt32.toNat_toUInt64] at hS
  generalize hE : 64 * f.key_u64s.toNat - bkey_format_key_bits f = E at hlow hK
  unfold bkey_format_key_bits at hE
  -- the three fields as a stream, over `E` low bits
  have hv : packPosVal f q = fieldsVal
      [((f.bits_per_field.get BKEY_FIELD_INODE).toNat, (q.inode - f.field_offset.get BKEY_FIELD_INODE).toNat),
       ((f.bits_per_field.get BKEY_FIELD_OFFSET).toNat, (q.offset - f.field_offset.get BKEY_FIELD_OFFSET).toNat),
       ((f.bits_per_field.get BKEY_FIELD_SNAPSHOT).toNat,
         (q.snapshot.toUInt64 - f.field_offset.get BKEY_FIELD_SNAPSHOT).toNat)] := by
    simp [packPosVal, fieldsVal]
  have hiv := UInt64.toNat_sub_of_le _ _ (UInt64.le_iff_toNat_le.mpr hI.1)
  have hov := UInt64.toNat_sub_of_le _ _ (UInt64.le_iff_toNat_le.mpr hO.1)
  have hsv := UInt64.toNat_sub_of_le q.snapshot.toUInt64 (f.field_offset.get BKEY_FIELD_SNAPSHOT)
    (UInt64.le_iff_toNat_le.mpr (by rw [UInt32.toNat_toUInt64]; exact hS.1))
  rw [UInt32.toNat_toUInt64] at hsv
  have hfS : Fits [((f.bits_per_field.get BKEY_FIELD_SNAPSHOT).toNat,
      (q.snapshot.toUInt64 - f.field_offset.get BKEY_FIELD_SNAPSHOT).toNat)] := by
    refine fits_cons.mpr ⟨?_, by simp [Fits]⟩
    dsimp only
    omega
  have hfOS : Fits [((f.bits_per_field.get BKEY_FIELD_OFFSET).toNat,
      (q.offset - f.field_offset.get BKEY_FIELD_OFFSET).toNat),
      ((f.bits_per_field.get BKEY_FIELD_SNAPSHOT).toNat,
        (q.snapshot.toUInt64 - f.field_offset.get BKEY_FIELD_SNAPSHOT).toNat)] := by
    refine fits_cons.mpr ⟨?_, hfS⟩
    dsimp only
    omega
  have hKlt := keyVal_lt k f.key_u64s.toNat
  rw [hK, hv] at hKlt
  -- each read peels the top field off what is left of the stream
  have rI := fieldsVal_cons_read (b := (f.bits_per_field.get BKEY_FIELD_INODE).toNat)
    (x := (q.inode - f.field_offset.get BKEY_FIELD_INODE).toNat) E low hfOS hlow
  have kO := fieldsVal_cons_rest (b := (f.bits_per_field.get BKEY_FIELD_INODE).toNat)
    (x := (q.inode - f.field_offset.get BKEY_FIELD_INODE).toNat) E low hfOS hlow
  have rO := fieldsVal_cons_read (b := (f.bits_per_field.get BKEY_FIELD_OFFSET).toNat)
    (x := (q.offset - f.field_offset.get BKEY_FIELD_OFFSET).toNat) E low hfS hlow
  have kS := fieldsVal_cons_rest (b := (f.bits_per_field.get BKEY_FIELD_OFFSET).toNat)
    (x := (q.offset - f.field_offset.get BKEY_FIELD_OFFSET).toNat) E low hfS hlow
  have rS := fieldsVal_cons_read (b := (f.bits_per_field.get BKEY_FIELD_SNAPSHOT).toNat)
    (x := (q.snapshot.toUInt64 - f.field_offset.get BKEY_FIELD_SNAPSHOT).toNat) (L := []) E low
    (by simp [Fits]) hlow
  simp only [fieldsWidth_cons, fieldsWidth_nil, Nat.add_zero, Nat.zero_add] at rI kO rO kS rS
  have hK' : keyVal k f.key_u64s.toNat % 2 ^ (64 * f.key_u64s.toNat) = keyVal k f.key_u64s.toNat :=
    Nat.mod_eq_of_lt (keyVal_lt k _)
  rw [hK, hv] at hK'
  have eI : fieldRead f (keyVal k f.key_u64s.toNat) (64 * f.key_u64s.toNat) BKEY_FIELD_INODE =
      q.inode := by
    rw [← UInt64.toNat_inj, toNat_fieldRead hf _ BKEY_FIELD_INODE (h := 64 * f.key_u64s.toNat)
      (by omega), hK, hv, hK',
      show 64 * f.key_u64s.toNat - (f.bits_per_field.get BKEY_FIELD_INODE).toNat =
        (f.bits_per_field.get BKEY_FIELD_OFFSET).toNat + (f.bits_per_field.get BKEY_FIELD_SNAPSHOT).toNat + E
        by omega, rI]
    omega
  have eO : fieldRead f (keyVal k f.key_u64s.toNat)
      (64 * f.key_u64s.toNat - (f.bits_per_field.get BKEY_FIELD_INODE).toNat) BKEY_FIELD_OFFSET =
      q.offset := by
    rw [← UInt64.toNat_inj, toNat_fieldRead hf _ BKEY_FIELD_OFFSET
      (h := 64 * f.key_u64s.toNat - (f.bits_per_field.get BKEY_FIELD_INODE).toNat) (by omega), hK, hv,
      show 64 * f.key_u64s.toNat - (f.bits_per_field.get BKEY_FIELD_INODE).toNat =
        (f.bits_per_field.get BKEY_FIELD_OFFSET).toNat + (f.bits_per_field.get BKEY_FIELD_SNAPSHOT).toNat + E
        by omega, kO,
      show (f.bits_per_field.get BKEY_FIELD_OFFSET).toNat + (f.bits_per_field.get BKEY_FIELD_SNAPSHOT).toNat + E -
        (f.bits_per_field.get BKEY_FIELD_OFFSET).toNat = (f.bits_per_field.get BKEY_FIELD_SNAPSHOT).toNat + E
        by omega, rO]
    omega
  have eS : (fieldRead f (keyVal k f.key_u64s.toNat)
      (64 * f.key_u64s.toNat - (f.bits_per_field.get BKEY_FIELD_INODE).toNat -
        (f.bits_per_field.get BKEY_FIELD_OFFSET).toNat) BKEY_FIELD_SNAPSHOT).toUInt32 = q.snapshot := by
    rw [← UInt32.toNat_inj, toNat_fieldRead_snapshot hf _ (h := 64 * f.key_u64s.toNat -
      (f.bits_per_field.get BKEY_FIELD_INODE).toNat - (f.bits_per_field.get BKEY_FIELD_OFFSET).toNat)
      (by omega), hK, hv,
      show 64 * f.key_u64s.toNat - (f.bits_per_field.get BKEY_FIELD_INODE).toNat -
        (f.bits_per_field.get BKEY_FIELD_OFFSET).toNat = (f.bits_per_field.get BKEY_FIELD_SNAPSHOT).toNat + E
        by omega,
      ← Nat.mod_mod_of_dvd _ (pow_dvd_pow 2 (show (f.bits_per_field.get BKEY_FIELD_SNAPSHOT).toNat + E ≤
        (f.bits_per_field.get BKEY_FIELD_OFFSET).toNat + (f.bits_per_field.get BKEY_FIELD_SNAPSHOT).toNat + E
        by omega)), kO, kS,
      show (f.bits_per_field.get BKEY_FIELD_SNAPSHOT).toNat + E -
        (f.bits_per_field.get BKEY_FIELD_SNAPSHOT).toNat = E by omega, rS]
    omega
  rw [__bkey_unpack_pos_eq hf]
  dsimp only
  rw [eI, eO, eS]

/-- The key `__bch2_bkey_pack_pos_exact` writes for a position of the box unpacks to it. -/
theorem __bkey_unpack_pos_pack_pos_exact (out : bkey_packed) {q : bpos} (hq : PosFits f q) :
    __bkey_unpack_pos f (__bch2_bkey_pack_pos_exact out q f).2 = q := by
  have hroom := hf.room_fields
  have hE : 24 ≤ 64 * f.key_u64s.toNat - bkey_format_key_bits f := by
    unfold bkey_format_key_bits
    omega
  -- the header sits in the low 24 bits, below the stream
  have hK : keyVal (__bch2_bkey_pack_pos_exact out q f).2 f.key_u64s.toNat =
      packPosVal f q * 2 ^ (64 * f.key_u64s.toNat - bkey_format_key_bits f) +
        leVal (__bch2_bkey_pack_pos_exact out q f).2.bytes 0 3 := by
    rw [__bch2_bkey_pack_pos_exact_eq_of_fits _ _ _ hq,
      keyVal_of_bytes_eq hf.key_u64s_pos (fun x hx => pos_header_bytes_of_three_le _ _ _ _ hx),
      keyVal_packPosRun hf out q hq, Nat.add_comm,
      show 64 * f.key_u64s.toNat - bkey_format_key_bits f =
        (64 * f.key_u64s.toNat - bkey_format_key_bits f - 24) + 24 by omega,
      pow_add, ← Nat.mul_assoc, Nat.mul_div_cancel _ (Nat.two_pow_pos _)]
    ring
  exact __bkey_unpack_pos_of_keyVal hf _ hq
    ((leVal_lt _ 0 3).trans_le (Nat.pow_le_pow_right (by norm_num) hE)) hK

/-- A key that agrees on its words with the key `__bch2_bkey_pack_pos_exact` writes for a
position of the box is in the node's format, and the node unpacks it to that position. -/
theorem bkey_unpack_pos_of_bytes_eq (b : btree) (out : bkey_packed) {q : bpos} (hq : PosFits f q)
    {k : bkey_packed}
    (h : ∀ x : Int, 0 ≤ x → x < 8 * f.key_u64s.toNat →
      k.bytes x = (__bch2_bkey_pack_pos_exact out q f).2.bytes x) :
    bkey_unpack_pos (btree_node_set_format b f) k = q := by
  have hn := hf.key_u64s_pos
  have hfmt : k.format = KEY_FORMAT_LOCAL_BTREE := by
    rw [bkey_packed.format, h 1 (by omega) (by omega), __bch2_bkey_pack_pos_exact_eq_of_fits _ _ _ hq]
    exact format_pos_header _ _ _
  -- the key's words are the packer's, so the value they hold is too
  have hkey : keyVal k f.key_u64s.toNat = keyVal (__bch2_bkey_pack_pos_exact out q f).2 f.key_u64s.toNat :=
    leVal_congr fun x hx0 hx => h x hx0 (by push_cast at hx; omega)
  rw [bkey_unpack_pos, if_pos (by simp [bkey_packed.is_packed, hfmt, KEY_FORMAT_LOCAL_BTREE,
      KEY_FORMAT_CURRENT]), __bkey_unpack_pos_b_eq hf, __bkey_unpack_pos_eq hf, hkey,
    ← __bkey_unpack_pos_eq hf, __bkey_unpack_pos_pack_pos_exact hf out hq]

end RoundTrip

/-! ### Rounding down -/

/-- What a lossy packer of positions promises for `in_` on the node `b`, the key it writes
read back through the node's own unpacker: `BKEY_PACK_POS_EXACT` exactly when the format holds
`in_`, and then the key is `in_`; `BKEY_PACK_POS_SMALLER` exactly when it does not but holds a
position below `in_`, and then the key is the greatest such position; `BKEY_PACK_POS_FAIL`
exactly when it holds no position at or below `in_`. -/
def PackPosLossySpec (b : btree) (in_ : bpos) (r : bkey_pack_pos_ret × bkey_packed) : Prop :=
  (r.1 = .BKEY_PACK_POS_EXACT ↔ PosFits b.format in_) ∧
    (r.1 = .BKEY_PACK_POS_EXACT → bkey_unpack_pos b r.2 = in_) ∧
    (r.1 = .BKEY_PACK_POS_SMALLER ↔ ¬ PosFits b.format in_ ∧ ∃ q, PosFits b.format q ∧ q < in_) ∧
    (r.1 = .BKEY_PACK_POS_SMALLER →
      IsGreatest {q | PosFits b.format q ∧ q < in_} (bkey_unpack_pos b r.2)) ∧
    (r.1 = .BKEY_PACK_POS_FAIL ↔ ¬ ∃ q, PosFits b.format q ∧ q ≤ in_)

/-- A packer that fails when the roll-up fails and otherwise returns the roll-up's verdict,
with a key the node unpacks to the clamped position, rounds down. -/
theorem PackPosLossySpec.of_roll_up {b : btree} (hf : FormatValid b.format) {in_ : bpos}
    {r : bkey_pack_pos_ret × bkey_packed}
    (hshape : match pack_pos_roll_up b.format in_ with
      | none => r.1 = .BKEY_PACK_POS_FAIL
      | some (p, exact) =>
          r.1 = (if exact && decide (PosFits b.format p) then .BKEY_PACK_POS_EXACT
            else .BKEY_PACK_POS_SMALLER) ∧
          bkey_unpack_pos b r.2 = clampPos b.format p) :
    PackPosLossySpec b in_ r := by
  unfold PackPosLossySpec
  cases hroll : pack_pos_roll_up b.format in_ with
  | none =>
      -- every position of the box lies above `in_`
      rw [hroll] at hshape
      have habove := pack_pos_roll_up_none hf hroll
      rw [hshape]
      refine ⟨⟨(fun h => by cases h), fun hin => absurd (habove _ hin) (lt_irrefl _)⟩,
        (fun h => by cases h), ⟨(fun h => by cases h), fun ⟨_, q, hq, hlt⟩ =>
          absurd (habove q hq) (not_lt_of_gt hlt)⟩, (fun h => by cases h),
        ⟨fun _ ⟨q, hq, hle⟩ => not_le_of_gt (habove q hq) hle, fun _ => rfl⟩⟩
  | some r' =>
      obtain ⟨p, e⟩ := r'
      rw [hroll] at hshape
      obtain ⟨hret, hunpack⟩ := hshape
      obtain ⟨hinv, hp⟩ := pack_pos_roll_up_some hf hroll
      obtain ⟨⟨hcfits, hcle⟩, hcub⟩ := clampPos_isGreatest hf hp
      -- the clamped position is in the box and at or below `in_`
      have hcin : clampPos b.format p ≤ in_ := (hinv.le_iff _ hcfits).mp hcle
      have hnofail : ∃ q, PosFits b.format q ∧ q ≤ in_ := ⟨_, hcfits, hcin⟩
      by_cases hin : PosFits b.format in_
      · -- exact: the roll-up kept `in_`, and the clamp leaves it
        have he : e = true := by
          cases he : e
          · exact absurd hin (hinv.not_fits he)
          · rfl
        have hpin : p = in_ := hinv.eq_of_exact he
        subst hpin
        rw [hret, he, decide_eq_true hin, Bool.and_self, if_pos rfl]
        refine ⟨iff_of_true rfl hin, fun _ => hunpack.trans (clampPos_of_fits hin),
          iff_of_false (by decide) (fun h => h.1 hin), (fun h => by cases h),
          iff_of_false (by decide) (not_not.mpr hnofail)⟩
      · -- smaller: the clamped position is below `in_`, and above every other one
        have hfalse : (e && decide (PosFits b.format p)) = false := by
          cases he : e
          · rfl
          · rw [← hinv.eq_of_exact he] at hin
            rw [Bool.true_and, decide_eq_false hin]
        have hclt : clampPos b.format p < in_ :=
          lt_of_le_of_ne hcin (fun h => hin (h ▸ hcfits))
        rw [hret, hfalse, if_neg (by decide)]
        refine ⟨iff_of_false (by decide) hin, (fun h => by cases h),
          iff_of_true rfl ⟨hin, _, hcfits, hclt⟩, fun _ => ?_,
          iff_of_false (by decide) (not_not.mpr hnofail)⟩
        rw [hunpack]
        exact ⟨⟨hcfits, hclt⟩, fun q ⟨hq, hqlt⟩ => hcub ⟨hq, (hinv.le_iff q hq).mpr hqlt.le⟩⟩

/-- Lossy position packing on a node set to a valid format rounds the position down to the
greatest one the format holds, on both paths: `bch2_bkey_pack_pos_lossy`, whose fast path a
byte-aligned format takes, and the bit-stream `__bch2_bkey_pack_pos_lossy`. -/
theorem bch2_bkey_pack_pos_lossy_spec (f : bkey_format) (hf : bch2_bkey_format_invalid f = .ok ())
    (b : btree) (out : bkey_packed) (in_ : bpos) :
    PackPosLossySpec (btree_node_set_format b f) in_
        (bch2_bkey_pack_pos_lossy out in_ (btree_node_set_format b f)) ∧
      PackPosLossySpec (btree_node_set_format b f) in_
        (__bch2_bkey_pack_pos_lossy out in_ (btree_node_set_format b f)) := by
  have hv := (formatValid_iff f).mp hf
  -- the bit-stream path writes the exact packer's key for the clamped position
  have hslow : PackPosLossySpec (btree_node_set_format b f) in_
      (__bch2_bkey_pack_pos_lossy out in_ (btree_node_set_format b f)) := by
    apply PackPosLossySpec.of_roll_up hv
    rw [__bch2_bkey_pack_pos_lossy_eq _ hv]
    cases hroll : pack_pos_roll_up (btree_node_set_format b f).format in_ with
    | none => rfl
    | some r =>
        obtain ⟨p, e⟩ := r
        have hc := (clampPos_isGreatest hv (pack_pos_roll_up_some hv hroll).2).1.1
        exact ⟨rfl, bkey_unpack_pos_of_bytes_eq hv b out hc fun _ _ _ => rfl⟩
  refine ⟨?_, hslow⟩
  by_cases haligned : (btree_node_set_format b f).byte_aligned_fields = true
  · -- the fast path writes the key words of the exact fast packer, which are the exact
    -- bit-stream packer's
    apply PackPosLossySpec.of_roll_up hv
    rw [bch2_bkey_pack_pos_lossy_eq _ hv haligned]
    cases hroll : pack_pos_roll_up (btree_node_set_format b f).format in_ with
    | none => rfl
    | some r =>
        obtain ⟨p, e⟩ := r
        have hc := (clampPos_isGreatest hv (pack_pos_roll_up_some hv hroll).2).1.1
        refine ⟨rfl, bkey_unpack_pos_of_bytes_eq hv b out hc fun x hx0 hxn => ?_⟩
        exact bch2_bkey_pack_pos_snd hv b out _ ((bch2_bkey_pack_pos_fst hv b out _).mpr hc) x hx0 hxn
  · rw [bch2_bkey_pack_pos_lossy, if_neg haligned]
    exact hslow

/-- The current format installed on an empty node: lossy packing of the position `1:2:3`
rounds down on both paths. -/
theorem bch2_bkey_pack_pos_lossy_spec_current :
    bch2_bkey_format_invalid bch2_bkey_format_current = .ok () ∧
      PackPosLossySpec (btree_node_set_format emptyNode bch2_bkey_format_current) ⟨1, 2, 3⟩
          (bch2_bkey_pack_pos_lossy ⟨fun _ => 0⟩ ⟨1, 2, 3⟩
            (btree_node_set_format emptyNode bch2_bkey_format_current)) ∧
        PackPosLossySpec (btree_node_set_format emptyNode bch2_bkey_format_current) ⟨1, 2, 3⟩
          (__bch2_bkey_pack_pos_lossy ⟨fun _ => 0⟩ ⟨1, 2, 3⟩
            (btree_node_set_format emptyNode bch2_bkey_format_current)) :=
  have hcur : bch2_bkey_format_invalid bch2_bkey_format_current = .ok () := by decide
  -- the current format is valid, so both packers round down
  ⟨hcur, bch2_bkey_pack_pos_lossy_spec bch2_bkey_format_current hcur emptyNode _ _⟩

end Bcachefs.Proofs.Btree
