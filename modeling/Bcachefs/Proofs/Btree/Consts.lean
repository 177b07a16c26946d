import Bcachefs.Btree.Node
import Bcachefs.Proofs.Btree.Unpack
import Bcachefs.Data.VectorGet

/-!
# `Bcachefs.Proofs.Btree.Consts`: the unpack constants and the fast field reads

`bch2_compute_bkey_unpack_consts` walks the fields from the top of the key down,
as the unpacker does. When it leaves `byte_aligned_fields` set, every field's
constants describe the field where the unpacker would read it
(`UnpackConsts`): a field with bits, read with the head at bit `h`, ends at the top
of byte `h / 8 - 1`, and its load starts eight bytes lower. `compute_unpack_fields_spec`
is the run lemma of that loop, `btree_node_set_format_consts` its use on a node.

`unpack_field_fast_eq` says that such a load, shifted, reads exactly the field's bits,
whether the load starts inside the key or in front of it
(`leVal_window_div`); `foldl_unpack_field_fast` walks the fields with it and meets the
bit-stream reads of `Unpack`.
-/

set_option autoImplicit false
set_option linter.style.nameCheck false

namespace Bcachefs.Proofs.Btree

open Bcachefs.Bits Bcachefs.Data

/-- The constants the loop of `bch2_compute_bkey_unpack_consts` records for the
fields `ids`, the first of which the unpacker reads with its head at bit `h`: the
sentinel for a field with no bits; for any other field, a top at a byte boundary, a
load that ends at byte `h / 8`, and a shift by `64 - bits`. -/
def UnpackConsts (f : bkey_format) (unpack : Vector bkey_unpack_field 6) :
    List (Fin 6) → Nat → Prop
  | [], _ => True
  | id :: ids, h =>
      (if (f.bits_per_field.get id).toNat = 0 then (unpack.get id) = ⟨0, 64⟩
       else h % 8 = 0 ∧ (unpack.get id).byte_offset.toInt = ((h / 8 : Nat) : Int) - 8 ∧
         (unpack.get id).shift_right.toNat = 64 - (f.bits_per_field.get id).toNat) ∧
      UnpackConsts f unpack ids (h - (f.bits_per_field.get id).toNat)

/-! ### The loop of `bch2_compute_bkey_unpack_consts` -/

section Arith

variable {h : Nat} {c : UInt8}

/-- The loop's `bit_offset -= bits`, when the field is below the offset. -/
theorem ofNat_sub_toUInt32 (hc : c.toNat ≤ h) (hh : h < 2 ^ 32) :
    UInt32.ofNat h - c.toUInt32 = UInt32.ofNat (h - c.toNat) := by
  apply UInt32.toNat_inj.mp
  -- no wrap: the field is below the offset, which is below `2 ^ 32`
  rw [UInt32.toNat_sub_of_le]
  · simp [UInt32.toNat_ofNat']
    omega
  · rw [UInt32.le_iff_toNat_le]
    simp
    omega

/-- The loop's `field_msb_bit`: the bit below the head. -/
theorem field_msb_bit_eq (hc : c.toNat ≤ h) (h1 : 1 ≤ c.toNat) (hh : h < 2 ^ 32) :
    UInt32.ofNat (h - c.toNat) + c.toUInt32 - 1 = UInt32.ofNat (h - 1) := by
  apply UInt32.toNat_inj.mp
  simp [UInt32.toNat_sub]
  omega

/-- The loop's alignment test: the bit below the head ends a byte exactly when the head is at a byte
boundary. -/
theorem field_msb_bit_mod (h1 : 1 ≤ h) (hh : h < 2 ^ 32) :
    UInt32.ofNat (h - 1) % 8 ≠ 7 ↔ h % 8 ≠ 0 := by
  rw [ne_eq, ne_eq, ← UInt32.toNat_inj]
  simp
  omega

/-- The loop's `(s8)((field_msb_bit + 1) / 8 - 8)`: the unsigned difference, cut to a
signed byte, is the signed difference for any key of at most 135 bytes. -/
theorem byte_offset_toInt {e : Nat} (he1 : 1 ≤ e) (he : e ≤ 135) :
    (((UInt32.ofNat (8 * e - 1) + 1) / 8 - 8).toUInt8.toInt8).toInt = (e : Int) - 8 := by
  have hdiv : (UInt32.ofNat (8 * e - 1) + 1) / 8 = UInt32.ofNat e := by
    apply UInt32.toNat_inj.mp
    simp
    omega
  rw [hdiv]
  -- the remaining cast through `u8` and `s8` is checked for each of the 135 key sizes
  revert e
  decide

/-- The loop's `shift_right = 64 - bits`, cut to a byte, for a field of at most 64 bits. -/
theorem shift_right_toNat (hc : c.toNat ≤ 64) : (64 - c.toUInt32).toUInt8.toNat = 64 - c.toNat := by
  simp [UInt8.toNat_sub]
  omega

end Arith

/-- The loop only writes the constants of the fields it walks. -/
theorem compute_unpack_fields_frame (f : bkey_format) :
    ∀ (ids : List (Fin 6)) (bit_offset : UInt32) (unpack : Vector bkey_unpack_field 6)
      (j : Fin 6), j ∉ ids → (compute_unpack_fields f ids bit_offset unpack).2.get j = unpack.get j := by
  intro ids
  induction ids with
  | nil => intro _ _ _ _; rfl
  | cons i is ih =>
      intro bit_offset unpack j hj
      have hij : i ≠ j := fun h => hj (h ▸ List.mem_cons_self)
      have hjs : j ∉ is := fun h => hj (List.mem_cons_of_mem _ h)
      rw [compute_unpack_fields]
      dsimp only
      -- each branch writes field `i` only, then goes on or stops
      split_ifs
      · rw [ih _ _ _ hjs, get_set_ne _ _ hij]
      · exact get_set_ne _ _ hij
      · exact get_set_ne _ _ hij
      · rw [ih _ _ _ hjs, get_set_ne _ _ hij, get_set_ne _ _ hij]

/-- The run lemma of the loop: when it ends with `byte_aligned_fields` set, it has
recorded the constants of every field it walked, the first read from bit `h`. -/
theorem compute_unpack_fields_spec (f : bkey_format) :
    ∀ (ids : List (Fin 6)) (h : Nat) (unpack : Vector bkey_unpack_field 6),
      ids.Nodup → (∀ id ∈ ids, (f.bits_per_field.get id).toNat ≤ 64) → fieldsBits f ids ≤ h →
      h ≤ 1080 → (compute_unpack_fields f ids (UInt32.ofNat h) unpack).1 = true →
      UnpackConsts f (compute_unpack_fields f ids (UInt32.ofNat h) unpack).2 ids h := by
  intro ids
  -- induction on the fields, with the head and the constants so far free
  induction ids with
  | nil => intro _ _ _ _ _ _ _; trivial
  | cons i is ih =>
      intro h unpack hnd hb64 hwidth hh htrue
      obtain ⟨hi, hnd'⟩ := List.nodup_cons.mp hnd
      have hb64' : ∀ id ∈ is, (f.bits_per_field.get id).toNat ≤ 64 := fun id hid => hb64 id (by simp [hid])
      have hbi := hb64 i List.mem_cons_self
      rw [fieldsBits_cons] at hwidth
      have hbits0 : (f.bits_per_field.get i).toUInt32 = 0 ↔ (f.bits_per_field.get i).toNat = 0 := by
        simp [← UInt32.toNat_inj]
      have hbits64 : ¬ (f.bits_per_field.get i).toUInt32 > 64 := by
        simp [UInt32.lt_iff_toNat_lt]
        omega
      rw [compute_unpack_fields] at htrue ⊢
      dsimp only at htrue ⊢
      by_cases hz : (f.bits_per_field.get i).toNat = 0
      · -- an empty field: the sentinel, and the offset stays
        rw [if_pos (hbits0.mpr hz)] at htrue ⊢
        refine ⟨?_, ?_⟩
        · rw [if_pos hz, compute_unpack_fields_frame _ _ _ _ _ hi, get_set_self]
        · rw [hz, Nat.sub_zero]
          exact ih _ _ hnd' hb64' (by omega) hh htrue
      · rw [if_neg (fun h' => hz (hbits0.mp h')), if_neg hbits64,
          ofNat_sub_toUInt32 (by omega) (by omega),
          field_msb_bit_eq (by omega) (by omega) (by omega)] at htrue ⊢
        by_cases h8 : h % 8 = 0
        · -- an aligned field: a load that ends at byte `h / 8`
          have hal : ¬ UInt32.ofNat (h - 1) % 8 ≠ 7 :=
            fun h' => ((field_msb_bit_mod (by omega) (by omega)).mp h') h8
          rw [if_neg hal] at htrue ⊢
          refine ⟨?_, ih _ _ hnd' hb64' (by omega) (by omega) htrue⟩
          rw [if_neg hz, compute_unpack_fields_frame _ _ _ _ _ hi, get_set_self]
          refine ⟨h8, ?_, shift_right_toNat hbi⟩
          have he := byte_offset_toInt (e := h / 8) (by omega) (by omega)
          rwa [show 8 * (h / 8) - 1 = h - 1 by omega] at he
        · rw [if_pos ((field_msb_bit_mod (by omega) (by omega)).mpr h8)] at htrue
          cases htrue

/-! ### Installing a format -/

section SetFormat

variable (b : btree) (f : bkey_format)

/-- A node set to a format holds that format. -/
@[simp] theorem btree_node_set_format_format : (btree_node_set_format b f).format = f := rfl

/-- A node set to a format holds the width of its position fields, cut to a byte. -/
@[simp] theorem btree_node_set_format_nr_key_bits :
    (btree_node_set_format b f).nr_key_bits = (bkey_format_key_bits f).toUInt8 := rfl

/-- A valid format installed on a node, with `byte_aligned_fields` left set, has the
constants of all six fields, the first read from the top of the key. -/
theorem btree_node_set_format_consts (hf : FormatValid f)
    (haligned : (btree_node_set_format b f).byte_aligned_fields = true) :
    UnpackConsts f (btree_node_set_format b f).unpack bkey_fields (64 * f.key_u64s.toNat) := by
  have hroom := hf.room
  have hn := hf.key_u64s_le
  rw [formatBits_eq_fieldsBits, KEY_PACKED_BITS_START] at hroom
  rw [BKEY_U64s] at hn
  -- the loop starts at `key_u64s * 64`, which a valid format keeps below `2 ^ 32`
  have hoff : f.key_u64s.toUInt32 * 64 = UInt32.ofNat (64 * f.key_u64s.toNat) := by
    apply UInt32.toNat_inj.mp
    simp
    omega
  have hrun := compute_unpack_fields_spec f (List.finRange 6) (64 * f.key_u64s.toNat) b.unpack
    (List.nodup_finRange 6) (fun i _ => hf.bits_le i)
    (by rw [← bkey_fields_eq_finRange]; omega) (by omega)
  simp only [btree_node_set_format, bch2_compute_bkey_unpack_consts, hoff] at haligned ⊢
  rw [bkey_fields_eq_finRange]
  exact hrun haligned

end SetFormat

/-! ### One fast read -/

/-- The 8-byte load that ends at byte `e` of the key, shifted right by `64 - b`, is the
`b` bits of the key below bit `8 * e`, whether the load starts inside the key or in
front of it. -/
theorem leVal_window_div (k : bkey_packed) {n e b : Nat} (hen : e ≤ 8 * n) (hb : b ≤ 8 * e)
    (hb64 : b ≤ 64) :
    leVal k.bytes ((e : Int) - 8) 8 / 2 ^ (64 - b) = keyVal k n % 2 ^ (8 * e) / 2 ^ (8 * e - b) := by
  have hmod : keyVal k n % 2 ^ (8 * e) = leVal k.bytes 0 e := leVal_mod _ _ (by omega)
  rw [hmod]
  by_cases h8 : 8 ≤ e
  · -- the load lies inside the key: its top bits are the key's below byte `e`
    have h := leVal_add_div k.bytes 0 (e - 8) 8 (64 - b)
    rw [show e - 8 + 8 = e by omega, show 8 * (e - 8) + (64 - b) = 8 * e - b by omega,
      show (0 : Int) + ((e - 8 : Nat) : Int) = (e : Int) - 8 by omega] at h
    exact h.symm
  · -- the load starts in front of the key: the bytes there fall below the field
    have h := leVal_add_div k.bytes ((e : Int) - 8) (8 - e) e (8 * e - b)
    rw [show 8 - e + e = 8 by omega, show 8 * (8 - e) + (8 * e - b) = 64 - b by omega,
      show (e : Int) - 8 + ((8 - e : Nat) : Int) = 0 by omega] at h
    exact h

/-- `unpack_field_fast` with the constants of a field with bits reads the field's bits
below its head, plus its offset. -/
theorem unpack_field_fast_eq (k : bkey_packed) {n h b : Nat} {uf : bkey_unpack_field}
    (off : UInt64) (h8 : h % 8 = 0) (hb1 : 1 ≤ b) (hb64 : b ≤ 64) (hbh : b ≤ h)
    (hhn : h ≤ 64 * n) (hoff : uf.byte_offset.toInt = ((h / 8 : Nat) : Int) - 8)
    (hsr : uf.shift_right.toNat = 64 - b) :
    unpack_field_fast k uf off = UInt64.ofNat (keyVal k n % 2 ^ h / 2 ^ (h - b)) + off := by
  -- a field with bits has `shift_right` below 64, so the read is not the sentinel's
  have hne : uf.shift_right ≠ 64 := by
    intro h64
    rw [h64] at hsr
    simp at hsr
    omega
  have hs : uf.shift_right.toUInt64 = (64 - b).toUInt64 := by
    apply UInt64.toNat_inj.mp
    rw [toNat_toUInt64_of_lt (by omega)]
    simpa using hsr
  have hraw : (get_unaligned_le64 k uf.byte_offset.toInt).toNat = leVal k.bytes ((h / 8 : Nat) - 8) 8 := by
    rw [get_unaligned_le64, UInt64.toNat_ofNat', Nat.mod_eq_of_lt (leVal_lt _ _ 8), hoff]
  unfold unpack_field_fast
  rw [if_neg hne, hs]
  dsimp only
  have hval : (get_unaligned_le64 k uf.byte_offset.toInt >>> (64 - b).toUInt64).toNat =
      keyVal k n % 2 ^ h / 2 ^ (h - b) := by
    rw [toNat_shiftRight_of_lt _ (by omega), hraw,
      leVal_window_div k (n := n) (e := h / 8) (by omega) (by omega) hb64,
      show 8 * (h / 8) = h by omega]
  rw [← hval, UInt64.ofNat_toNat]

/-- The sentinel of an empty field reads its offset. -/
theorem unpack_field_fast_sentinel (k : bkey_packed) (off : UInt64) :
    unpack_field_fast k ⟨0, 64⟩ off = off := rfl

/-- The fast reads of the fields `ids` with their constants are the bit-stream reads of
the same fields. -/
theorem foldl_unpack_field_fast (k : bkey_packed) (n : Nat) (f : bkey_format)
    (unpack : Vector bkey_unpack_field 6) :
    ∀ (ids : List (Fin 6)) (h : Nat) (out : bkey), UnpackConsts f unpack ids h →
      (∀ id ∈ ids, (f.bits_per_field.get id).toNat ≤ 64) → fieldsBits f ids ≤ h → h ≤ 64 * n →
      ids.foldl (fun out id => bkey_set_field out id
          (unpack_field_fast k (unpack.get id) (f.field_offset.get id))) out =
        readFields f (keyVal k n) ids h out := by
  intro ids
  -- induction on the fields, with the head and the key read so far free
  induction ids with
  | nil => intro _ _ _ _ _ _; rfl
  | cons id ids ih =>
      intro h out hc hb64 hwidth hhn
      obtain ⟨hfield, hc'⟩ := hc
      rw [fieldsBits_cons] at hwidth
      have hb := hb64 id List.mem_cons_self
      rw [List.foldl_cons, readFields]
      have hread : unpack_field_fast k (unpack.get id) (f.field_offset.get id) =
          fieldRead f (keyVal k n) h id := by
        unfold fieldRead
        by_cases hz : (f.bits_per_field.get id).toNat = 0
        · -- an empty field reads nothing below the head: its offset
          rw [if_pos hz] at hfield
          rw [hfield, unpack_field_fast_sentinel, hz, Nat.sub_zero,
            Nat.div_eq_of_lt (Nat.mod_lt _ (Nat.two_pow_pos h))]
          simp
        · rw [if_neg hz] at hfield
          exact unpack_field_fast_eq k _ hfield.1 (by omega) hb (by omega) hhn hfield.2.1
            hfield.2.2
      rw [hread]
      exact ih _ _ hc' (fun i hi => hb64 i (List.mem_cons_of_mem _ hi)) (by omega) (by omega)

end Bcachefs.Proofs.Btree
