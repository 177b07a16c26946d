import Bcachefs.Btree.Bkey
import Bcachefs.Bits.Shift

/-!
# `Bcachefs.Proofs.Btree.Format`: what a format that passes validation promises

Every format a btree node packs its keys in has passed `bch2_bkey_format_invalid`
(`btree_node_set_format`, and the read path before it). `FormatValid f` is what that
check establishes, stated as the three facts the packing code then relies on:

* `nr_fields`: the format has the six fields;
* `no_overflow`: no field fails `bch2_bkey_format_field_overflows`, so no field is
  wider than its unpacked member;
* `key_u64s`: the packed key has `DIV_ROUND_UP(24 + formatBits f, 64)` words, the
  24 header bits followed by the fields, rounded up to a word.

`formatValid_iff` shows the check accepts exactly those formats. From them:
`FormatValid.bits_le` (no field is wider than 64 bits, so every shift of the packer
and the unpacker is in range), `FormatValid.key_u64s_pos` and
`FormatValid.room` (the header and the fields fit in the key's words, with less than a
word to spare), `FormatValid.key_u64s_le` (a packed key is never longer than an unpacked
one), and `FormatValid.offset_add_le`: a field's offset plus any value of the field's
width fits the unpacked member, so adding the offset back never wraps.
-/

set_option autoImplicit false

namespace Bcachefs.Proofs.Btree

open Bcachefs.Bits

/-- The packed width of the six fields of `f`, in `bkey_fields()` order. -/
def formatBits (f : bkey_format) : Nat :=
  (bkey_fields.map fun i => (f.bits_per_field.get i).toNat).sum

/-- The formats `bch2_bkey_format_invalid` accepts. -/
structure FormatValid (f : bkey_format) : Prop where
  nr_fields : f.nr_fields.toNat = BKEY_NR_FIELDS
  no_overflow : ∀ i, bch2_bkey_format_field_overflows f i = false
  key_u64s : f.key_u64s.toNat = DIV_ROUND_UP (KEY_PACKED_BITS_START + formatBits f) 64

/-- The stream order lists the six fields by index. -/
theorem bkey_fields_eq_finRange : bkey_fields = List.finRange 6 := by decide

/-- Every field is in the stream. -/
theorem mem_bkey_fields (i : Fin 6) : i ∈ bkey_fields := by
  rw [bkey_fields_eq_finRange]
  exact List.mem_finRange i

/-- The field loop of the check passes exactly when no field overflows, and it then
adds up the widths. -/
theorem format_invalid_fields_eq_ok (f : bkey_format) :
    ∀ (is : List (Fin 6)) (bits r : Nat), format_invalid_fields f is bits = .ok r ↔
      (∀ i ∈ is, bch2_bkey_format_field_overflows f i = false) ∧
        r = bits + (is.map fun i => (f.bits_per_field.get i).toNat).sum := by
  intro is
  -- induction on the fields, with the running width free
  induction is with
  | nil =>
      intro bits r
      simp only [format_invalid_fields, Except.ok.injEq, List.not_mem_nil, false_imp_iff,
        implies_true, List.map_nil, List.sum_nil, Nat.add_zero, true_and]
      exact eq_comm
  | cons i is ih =>
      intro bits r
      rw [format_invalid_fields]
      by_cases hi : bch2_bkey_format_field_overflows f i = true
      · -- the first overflowing field ends the loop with its message
        rw [if_pos hi]
        simp only [reduceCtorEq, List.mem_cons, forall_eq_or_imp, hi,
          Bool.true_eq_false, false_and]
      · rw [if_neg hi, ih]
        simp only [List.mem_cons, forall_eq_or_imp, List.map_cons, List.sum_cons,
          Nat.add_assoc, Bool.not_eq_true] at hi ⊢
        simp [hi]

/-- `bch2_bkey_format_invalid` accepts exactly the valid formats. -/
theorem formatValid_iff (f : bkey_format) :
    bch2_bkey_format_invalid f = .ok () ↔ FormatValid f := by
  unfold bch2_bkey_format_invalid
  by_cases hnr : f.nr_fields.toNat = BKEY_NR_FIELDS
  · rw [if_neg (not_not.mpr hnr)]
    -- the loop runs over every field, from the 24 header bits
    rcases hloop : format_invalid_fields f (List.finRange 6) KEY_PACKED_BITS_START with
      e | bits
    · have hover : ¬ ∀ i, bch2_bkey_format_field_overflows f i = false := by
        intro hall
        have := (format_invalid_fields_eq_ok f (List.finRange 6) KEY_PACKED_BITS_START _).mpr
          ⟨fun i _ => hall i, rfl⟩
        rw [hloop] at this
        cases this
      simp only [reduceCtorEq, false_iff]
      exact fun hv => hover hv.no_overflow
    · obtain ⟨hall, hbits⟩ := (format_invalid_fields_eq_ok f _ _ _).mp hloop
      have hbits' : bits = KEY_PACKED_BITS_START + formatBits f := by
        rw [hbits, formatBits, bkey_fields_eq_finRange]
      simp only
      by_cases hk : f.key_u64s.toNat = DIV_ROUND_UP bits 64
      · rw [if_neg (not_not.mpr hk)]
        exact ⟨fun _ => ⟨hnr, fun i => hall i (List.mem_finRange i), hbits' ▸ hk⟩,
          fun _ => rfl⟩
      · rw [if_pos hk]
        simp only [reduceCtorEq, false_iff]
        exact fun hv => hk (hbits' ▸ hv.key_u64s)
  · rw [if_pos hnr]
    simp only [reduceCtorEq, false_iff]
    exact fun hv => hnr hv.nr_fields

/-- `mask_of_bits bits` is the mask of the low `bits` bits. -/
theorem toNat_mask_of_bits {bits : Nat} (h1 : 1 ≤ bits) (h64 : bits ≤ 64) :
    (mask_of_bits bits).toNat = 2 ^ bits - 1 := by
  have h := toNat_not_shiftLeft_shiftLeft (a := 1) (c := bits - 1) (by omega) (by omega)
    (by omega)
  rwa [show 1 + (bits - 1) = bits by omega] at h

/-- The `f_mask` of `bch2_bkey_format_field_overflows`: the mask of the field's width,
`0` for an empty field. -/
theorem toNat_f_mask {b : Nat} (hb : b ≤ 64) :
    (if b ≠ 0 then ~~~(((~~~0 : UInt64) <<< (b - 1).toUInt64) <<< 1) else 0).toNat
      = 2 ^ b - 1 := by
  -- an empty field has no mask
  by_cases h0 : b = 0
  · subst h0
    rfl
  · rw [if_pos h0]
    have h := toNat_not_shiftLeft_shiftLeft (a := b - 1) (c := 1) (by omega) (by omega)
      (by omega)
    rwa [show b - 1 + 1 = b by omega] at h

/-- A sum whose reduction modulo `m` is still at least its first term did not reach
`m`, when the second term is below `m`. -/
theorem lt_of_le_add_mod {a d m : Nat} (hd : d < m) (h : a ≤ (a + d) % m) : a + d < m := by
  by_contra hge
  have hmod : (a + d) % m = (a + d - m) % m := Nat.mod_eq_sub_mod (by omega)
  have hle : (a + d - m) % m ≤ a + d - m := Nat.mod_le _ _
  omega

/-- The fields of the current format add up to 288 bits. -/
theorem formatBits_current : formatBits bch2_bkey_format_current = 288 := by decide

/-- No member of an unpacked key is wider than a word. -/
theorem bits_current_le (i : Fin 6) : (bch2_bkey_format_current.bits_per_field.get i).toNat ≤ 64 := by
  revert i; decide

/-- Every member of an unpacked key has bits. -/
theorem bits_current_pos (i : Fin 6) : 1 ≤ (bch2_bkey_format_current.bits_per_field.get i).toNat := by
  revert i; decide

/-- A format no field of which is wider than its member is no wider than the current
format. -/
theorem formatBits_le_of_bits_le (f : bkey_format)
    (h : ∀ i : Fin 6,
      (f.bits_per_field.get i).toNat ≤ (bch2_bkey_format_current.bits_per_field.get i).toNat) :
    formatBits f ≤ 288 := by
  -- the six widths, each below its member's, against the members' 288 bits
  simp only [formatBits, bkey_fields, List.map_cons, List.map_nil, List.sum_cons, List.sum_nil]
  have h0 := h BKEY_FIELD_INODE
  have h1 := h BKEY_FIELD_OFFSET
  have h2 := h BKEY_FIELD_SNAPSHOT
  have h3 := h BKEY_FIELD_SIZE
  have h4 := h BKEY_FIELD_VERSION_HI
  have h5 := h BKEY_FIELD_VERSION_LO
  have hcur : (bch2_bkey_format_current.bits_per_field.get BKEY_FIELD_INODE).toNat +
      ((bch2_bkey_format_current.bits_per_field.get BKEY_FIELD_OFFSET).toNat +
      ((bch2_bkey_format_current.bits_per_field.get BKEY_FIELD_SNAPSHOT).toNat +
      ((bch2_bkey_format_current.bits_per_field.get BKEY_FIELD_SIZE).toNat +
      ((bch2_bkey_format_current.bits_per_field.get BKEY_FIELD_VERSION_HI).toNat +
      ((bch2_bkey_format_current.bits_per_field.get BKEY_FIELD_VERSION_LO).toNat + 0))))) = 288 :=
    formatBits_current
  omega

/-- A field that passes the overflow check is no wider than its member. -/
theorem bits_le_of_field_overflows {f : bkey_format} {i : Fin 6}
    (h : bch2_bkey_format_field_overflows f i = false) :
    (f.bits_per_field.get i).toNat ≤ (bch2_bkey_format_current.bits_per_field.get i).toNat := by
  unfold bch2_bkey_format_field_overflows at h
  -- a field wider than its member is the check's first failure
  by_contra hgt
  rw [if_pos (Nat.lt_of_not_le hgt)] at h
  cases h

namespace FormatValid

variable {f : bkey_format} (hf : FormatValid f)
include hf

/-- No field is wider than its unpacked member. -/
theorem bits_le_current (i : Fin 6) :
    (f.bits_per_field.get i).toNat ≤ (bch2_bkey_format_current.bits_per_field.get i).toNat :=
  bits_le_of_field_overflows (hf.no_overflow i)

/-- No field is wider than a word. -/
theorem bits_le (i : Fin 6) : (f.bits_per_field.get i).toNat ≤ 64 :=
  (hf.bits_le_current i).trans (bits_current_le i)

/-- A valid key has at least one word, for its header. -/
theorem key_u64s_pos : 0 < f.key_u64s.toNat := by
  rw [hf.key_u64s, DIV_ROUND_UP, KEY_PACKED_BITS_START]
  omega

/-- The header and the fields fill the key's words, with less than a word left over. -/
theorem room :
    KEY_PACKED_BITS_START + formatBits f ≤ 64 * f.key_u64s.toNat ∧
      64 * f.key_u64s.toNat < KEY_PACKED_BITS_START + formatBits f + 64 := by
  rw [hf.key_u64s, DIV_ROUND_UP]
  omega

/-- `room` with the header's 24 bits and the six fields' widths written out, as the packing
proofs read it. -/
theorem room_fields :
    24 + ((f.bits_per_field.get BKEY_FIELD_INODE).toNat +
        (f.bits_per_field.get BKEY_FIELD_OFFSET).toNat +
        (f.bits_per_field.get BKEY_FIELD_SNAPSHOT).toNat +
        (f.bits_per_field.get BKEY_FIELD_SIZE).toNat +
        (f.bits_per_field.get BKEY_FIELD_VERSION_HI).toNat +
        (f.bits_per_field.get BKEY_FIELD_VERSION_LO).toNat) ≤ 64 * f.key_u64s.toNat ∧
      64 * f.key_u64s.toNat < 24 + ((f.bits_per_field.get BKEY_FIELD_INODE).toNat +
        (f.bits_per_field.get BKEY_FIELD_OFFSET).toNat +
        (f.bits_per_field.get BKEY_FIELD_SNAPSHOT).toNat +
        (f.bits_per_field.get BKEY_FIELD_SIZE).toNat +
        (f.bits_per_field.get BKEY_FIELD_VERSION_HI).toNat +
        (f.bits_per_field.get BKEY_FIELD_VERSION_LO).toNat) + 64 := by
  -- `room` with `formatBits` unfolded into its six terms
  have h := hf.room
  simp only [formatBits, bkey_fields, KEY_PACKED_BITS_START, List.map_cons, List.map_nil,
    List.sum_cons, List.sum_nil] at h
  omega

/-- A valid format is no wider than the current one, field by field. -/
theorem formatBits_le : formatBits f ≤ 288 :=
  formatBits_le_of_bits_le f hf.bits_le_current

/-- A packed key is never longer than an unpacked one. -/
theorem key_u64s_le : f.key_u64s.toNat ≤ BKEY_U64s := by
  have hS := hf.formatBits_le
  rw [hf.key_u64s, DIV_ROUND_UP, KEY_PACKED_BITS_START, BKEY_U64s]
  omega

/-- A field's offset plus any value of its width fits the unpacked member: adding the
offset back to a packed field never wraps. -/
theorem offset_add_le (i : Fin 6) :
    (f.field_offset.get i).toNat + 2 ^ (f.bits_per_field.get i).toNat ≤
      2 ^ (bch2_bkey_format_current.bits_per_field.get i).toNat := by
  have hub := And.intro (bits_current_le i) (bits_current_pos i)
  have hle := hf.bits_le_current i
  have hb64 := hf.bits_le i
  have hpow : 1 ≤ 2 ^ (f.bits_per_field.get i).toNat := Nat.one_le_two_pow
  have h := hf.no_overflow i
  unfold bch2_bkey_format_field_overflows at h
  dsimp only at h
  rw [if_neg (by omega)] at h
  by_cases hfull : (f.bits_per_field.get i).toNat = (bch2_bkey_format_current.bits_per_field.get i).toNat
  · -- a field as wide as its member has no offset
    have hoff : f.field_offset.get i = 0 := by
      by_contra h0
      rw [if_pos ⟨hfull, h0⟩] at h
      cases h
    rw [hoff, hfull]
    simp
  · -- otherwise the offset plus the field's mask must not wrap past the member's mask
    rw [if_neg (fun h' => hfull h'.1), decide_eq_false_iff_not, UInt64.lt_iff_toNat_lt,
      UInt64.toNat_and, toNat_mask_of_bits hub.2 hub.1, Nat.and_two_pow_sub_one_eq_mod,
      UInt64.toNat_add, toNat_f_mask hb64, Nat.mod_mod_of_dvd _ (pow_dvd_pow 2 hub.1)] at h
    have hd : 2 ^ (f.bits_per_field.get i).toNat - 1 <
        2 ^ (bch2_bkey_format_current.bits_per_field.get i).toNat := by
      have := Nat.pow_le_pow_right (n := 2) (by norm_num) hle
      omega
    have := lt_of_le_add_mod hd (Nat.le_of_not_lt h)
    omega

/-- `offset_add_le` for the snapshot field, whose member is 32 bits wide. -/
theorem offset_add_le_snapshot :
    (f.field_offset.get BKEY_FIELD_SNAPSHOT).toNat +
      2 ^ (f.bits_per_field.get BKEY_FIELD_SNAPSHOT).toNat ≤ 2 ^ 32 :=
  hf.offset_add_le BKEY_FIELD_SNAPSHOT

/-- `offset_add_le` for the offset field, whose member is 64 bits wide. -/
theorem offset_add_le_offset :
    (f.field_offset.get BKEY_FIELD_OFFSET).toNat +
      2 ^ (f.bits_per_field.get BKEY_FIELD_OFFSET).toNat ≤ 2 ^ 64 :=
  hf.offset_add_le BKEY_FIELD_OFFSET

end FormatValid

end Bcachefs.Proofs.Btree
