import Bcachefs.Btree.Cmp
import Bcachefs.Proofs.Btree.FastUnpack

/-!
# `Bcachefs.Proofs.Btree.Cmp`: packed comparison is the comparison of positions

The position fields sit at the top of the packed stream, inode above offset above
snapshot, so the top `nr_key_bits` bits of a key, read as one number, order keys as
`bpos_cmp` orders their positions. Three facts make that work, each proved here:

* `__bkey_cmp_bits_eq`: the word loop of `__bkey_cmp_bits` compares the top
  `nr_key_bits` bits of the two keys as numbers. Its induction is on the word the loop
  is at, carrying the words above it, which are equal (`__bkey_cmp_bits_loop_eq`).
* `cmp_int_mul_two_pow_add`: a number made of a field over lower bits compares as
  the fields, then as the lower bits; `bpos_cmp_eq` says `bpos_cmp` is that same
  lexicographic order on the three members.
* adding a field's offset back keeps the order of field values, since in a valid
  format it never wraps (`FormatValid.offset_add_le`, `toNat_fieldRead`).

`bch2_bkey_cmp_packed_eq` then covers every mix of packed and unpacked keys, the
mixed case going through `__bch2_bkey_unpack_key_b`.
-/

set_option autoImplicit false
set_option linter.style.nameCheck false

namespace Bcachefs.Proofs.Btree

open Bcachefs.Bits

/-! ### `cmp_int` -/

/-- `cmp_int` is `0` exactly on equal numbers. -/
theorem cmp_int_nat_eq_zero_iff (a b : Nat) : cmp_int a b = 0 ↔ a = b := by
  unfold cmp_int
  split_ifs <;> omega

/-- `cmp_int` on 64-bit words compares their values. -/
theorem cmp_int_uint64 (a b : UInt64) : cmp_int a b = cmp_int a.toNat b.toNat := by
  simp only [cmp_int, UInt64.lt_iff_toNat_lt]

/-- `cmp_int` on 32-bit words compares their values. -/
theorem cmp_int_uint32 (a b : UInt32) : cmp_int a b = cmp_int a.toNat b.toNat := by
  simp only [cmp_int, UInt32.lt_iff_toNat_lt]

/-- A number compares equal to itself. -/
theorem cmp_int_self (a : Nat) : cmp_int a a = 0 := by
  simp [cmp_int]

/-- Adding the same number to both sides keeps the comparison. -/
theorem cmp_int_add_right (a b c : Nat) : cmp_int (a + c) (b + c) = cmp_int a b := by
  unfold cmp_int
  split_ifs <;> omega

/-- Numbers made of a high part over `k` low bits compare as the high parts, and as
the low parts when the high parts are equal. -/
theorem cmp_int_mul_two_pow_add {a b x y k : Nat} (hx : x < 2 ^ k) (hy : y < 2 ^ k) :
    cmp_int (a * 2 ^ k + x) (b * 2 ^ k + y) = if a = b then cmp_int x y else cmp_int a b := by
  unfold cmp_int
  simp only [mul_two_pow_add_lt_iff hy hx, mul_two_pow_add_lt_iff hx hy]
  split_ifs <;> omega

/-- `bpos_cmp` is the lexicographic order on inode, offset and snapshot. -/
theorem bpos_cmp_eq (l r : bpos) :
    bpos_cmp l r =
      if l.inode = r.inode then
        if l.offset = r.offset then cmp_int l.snapshot r.snapshot
        else cmp_int l.offset r.offset
      else cmp_int l.inode r.inode := by
  -- `bpos_cmp` chains the members with `?:` on a nonzero `cmp_int`
  have hne : ∀ x y : UInt64, cmp_int x y ≠ 0 ↔ x ≠ y := by
    intro x y
    rw [cmp_int_uint64, ne_eq, cmp_int_nat_eq_zero_iff, UInt64.toNat_inj]
  unfold bpos_cmp
  dsimp only
  -- inode first, then offset; the snapshot decides only when both are equal
  by_cases hi : l.inode = r.inode
  · rw [if_neg (by rw [hne]; exact not_not.mpr hi), if_pos hi]
    by_cases ho : l.offset = r.offset
    · rw [if_neg (by rw [hne]; exact not_not.mpr ho), if_pos ho]
    · rw [if_pos ((hne _ _).mpr ho), if_neg ho]
  · rw [if_pos ((hne _ _).mpr hi), if_neg hi]

/-! ### The word loop -/

section Words

variable (k : bkey_packed) (q : Nat)

/-- The top `nr ≤ 64` bits of words `0 .. q` are the top bits of word `q`. -/
theorem keyVal_succ_div_of_le {nr : Nat} (hnr : nr ≤ 64) :
    keyVal k (q + 1) / 2 ^ (64 * (q + 1) - nr) = (load_word k q).toNat / 2 ^ (64 - nr) := by
  rw [keyVal_succ, show 64 * (q + 1) - nr = 64 * q + (64 - nr) by omega, pow_add,
    ← Nat.div_div_eq_div_mul, Nat.add_mul_div_left _ _ (Nat.two_pow_pos _),
    Nat.div_eq_of_lt (keyVal_lt k q), Nat.zero_add]

/-- The top `nr ≥ 64` bits of words `0 .. q`: word `q` over the top `nr - 64` bits of
the words below it. -/
theorem keyVal_succ_div_of_ge {nr : Nat} (h64 : 64 ≤ nr) (hnr : nr ≤ 64 * (q + 1)) :
    keyVal k (q + 1) / 2 ^ (64 * (q + 1) - nr) =
      (load_word k q).toNat * 2 ^ (nr - 64) + keyVal k q / 2 ^ (64 * q - (nr - 64)) := by
  have hsplit : (2 : Nat) ^ (64 * q) = 2 ^ (nr - 64) * 2 ^ (64 * q - (nr - 64)) := by
    rw [← pow_add]
    congr 1
    omega
  -- word `q` sits above all of `64 * q` lower bits, of which the top `nr - 64` are kept
  rw [keyVal_succ, show 64 * (q + 1) - nr = 64 * q - (nr - 64) by omega, hsplit,
    show 2 ^ (nr - 64) * 2 ^ (64 * q - (nr - 64)) * (load_word k q).toNat =
      (load_word k q).toNat * 2 ^ (nr - 64) * 2 ^ (64 * q - (nr - 64)) by ring,
    Nat.add_mul_div_right _ _ (Nat.two_pow_pos _), Nat.add_comm]

/-- The top `m` bits of the words below word `q`, for `m ≤ 64 * q`. -/
theorem keyVal_div_lt {m : Nat} (hm : m ≤ 64 * q) : keyVal k q / 2 ^ (64 * q - m) < 2 ^ m := by
  apply Nat.div_lt_of_lt_mul
  rw [← pow_add, show 64 * q - m + m = 64 * q by omega]
  exact keyVal_lt k q

end Words

/-- The last word of the loop: only its top `nr < 64` bits are compared. -/
theorem __bkey_cmp_bits_loop_of_lt (lk rk : bkey_packed) (q : Nat) {nr : Nat} (h1 : 1 ≤ nr)
    (hlt : nr < 64) :
    __bkey_cmp_bits_loop lk rk q q (load_word lk q) (load_word rk q) nr =
      cmp_int (keyVal lk (q + 1) / 2 ^ (64 * (q + 1) - nr))
        (keyVal rk (q + 1) / 2 ^ (64 * (q + 1) - nr)) := by
  -- the loop shifts the word right by `64 - nr` and compares what is left
  rw [__bkey_cmp_bits_loop, if_pos hlt, cmp_int_uint64, toNat_shiftRight_of_lt _ (by omega),
    toNat_shiftRight_of_lt _ (by omega), keyVal_succ_div_of_le _ _ hlt.le,
    keyVal_succ_div_of_le _ _ hlt.le]

/-- The word loop of `__bkey_cmp_bits`, entered at word `q` with `nr` bits left,
compares the top `nr` bits of words `0 .. q` of the two keys. The induction is on the
word: a loop that goes on has found the word equal in both keys. -/
theorem __bkey_cmp_bits_loop_eq (lk rk : bkey_packed) :
    ∀ (q nr : Nat), 1 ≤ nr → nr ≤ 64 * (q + 1) →
      __bkey_cmp_bits_loop lk rk q q (load_word lk q) (load_word rk q) nr =
        cmp_int (keyVal lk (q + 1) / 2 ^ (64 * (q + 1) - nr))
          (keyVal rk (q + 1) / 2 ^ (64 * (q + 1) - nr)) := by
  intro q
  -- induction on the word, with `nr` free: the words above the current one were equal
  induction q with
  | zero =>
      intro nr h1 hnr
      by_cases hlt : nr < 64
      · exact __bkey_cmp_bits_loop_of_lt lk rk 0 h1 hlt
      · -- a single word of 64 key bits
        rw [__bkey_cmp_bits_loop, if_neg hlt, if_pos (.inl (by omega)), cmp_int_uint64,
          keyVal_succ_div_of_le _ _ (by omega), keyVal_succ_div_of_le _ _ (by omega),
          show 64 - nr = 0 by omega, pow_zero, Nat.div_one, Nat.div_one]
  | succ q ih =>
      intro nr h1 hnr
      by_cases hlt : nr < 64
      · exact __bkey_cmp_bits_loop_of_lt lk rk (q + 1) h1 hlt
      -- a full word over the rest: compare the words, then the rest
      rw [__bkey_cmp_bits_loop, if_neg hlt, keyVal_succ_div_of_ge _ _ (by omega) hnr,
        keyVal_succ_div_of_ge _ _ (by omega) hnr,
        cmp_int_mul_two_pow_add (keyVal_div_lt _ _ (by omega)) (keyVal_div_lt _ _ (by omega))]
      by_cases hstop : nr - 64 = 0 ∨ load_word lk ↑(q + 1) ≠ load_word rk ↑(q + 1)
      · rw [if_pos hstop, cmp_int_uint64]
        rcases hstop with h0 | hw
        · -- the last word: nothing below it is compared
          split_ifs with heq
          · rw [h0, show 64 * (q + 1) - 0 = 64 * (q + 1) by omega,
              Nat.div_eq_of_lt (keyVal_lt lk _), Nat.div_eq_of_lt (keyVal_lt rk _), heq,
              cmp_int_self, cmp_int_self]
          · rfl
        · rw [if_neg (fun h => hw (UInt64.toNat_inj.mp h))]
      · -- equal words: the loop goes on one word down with what is left
        rw [if_neg hstop]
        have hw : load_word lk ↑(q + 1) = load_word rk ↑(q + 1) := by
          by_contra hw
          exact hstop (.inr hw)
        rw [if_pos (congrArg UInt64.toNat hw),
          show next_word ((q + 1 : Nat) : Int) = (q : Int) by simp [next_word]]
        exact ih (nr - 64) (by omega) (by omega)

/-- On little-endian machines the high word has no header bits to mask off. -/
theorem and_high_bit_mask (w : UInt64) :
    w &&& ((~~~0 : UInt64) >>> high_bit_offset.toUInt64) = w := by
  apply UInt64.toNat_inj.mp
  rw [UInt64.toNat_and, show ((~~~0 : UInt64) >>> high_bit_offset.toUInt64).toNat =
    2 ^ 64 - 1 by decide, Nat.and_two_pow_sub_one_eq_mod, Nat.mod_eq_of_lt w.toNat_lt]

/-- `__bkey_cmp_bits` from the high words of two keys of `n` words compares their top
`nr_key_bits` bits as numbers. -/
theorem __bkey_cmp_bits_eq (lk rk : bkey_packed) {n nr : Nat} (hn : 1 ≤ n) (hnr : nr ≤ 64 * n) :
    __bkey_cmp_bits lk rk ((n : Int) - 1) ((n : Int) - 1) nr =
      cmp_int (keyVal lk n / 2 ^ (64 * n - nr)) (keyVal rk n / 2 ^ (64 * n - nr)) := by
  unfold __bkey_cmp_bits
  by_cases h0 : nr = 0
  · -- no key bits: every key compares equal
    rw [if_pos h0, h0, Nat.sub_zero, Nat.div_eq_of_lt (keyVal_lt lk n),
      Nat.div_eq_of_lt (keyVal_lt rk n)]
    rfl
  · rw [if_neg h0]
    obtain ⟨q, rfl⟩ : ∃ q, n = q + 1 := ⟨n - 1, by omega⟩
    dsimp only
    rw [and_high_bit_mask, and_high_bit_mask, show ((q + 1 : Nat) : Int) - 1 = (q : Int) by push_cast; ring,
      high_bit_offset, Nat.add_zero]
    exact __bkey_cmp_bits_loop_eq lk rk q nr (by omega) hnr

/-! ### Positions -/

/-- The top `b₀ + b₁ + b₂` bits of a number below `2 ^ H` compare as the three fields
they are made of, first to last. -/
theorem cmp_int_three_fields {K K' H : Nat} (b₀ b₁ b₂ : Nat) (hK : K < 2 ^ H) (hK' : K' < 2 ^ H)
    (hb : b₀ + b₁ + b₂ ≤ H) :
    cmp_int (K / 2 ^ (H - (b₀ + b₁ + b₂))) (K' / 2 ^ (H - (b₀ + b₁ + b₂))) =
      if K % 2 ^ H / 2 ^ (H - b₀) = K' % 2 ^ H / 2 ^ (H - b₀) then
        if K % 2 ^ (H - b₀) / 2 ^ (H - b₀ - b₁) = K' % 2 ^ (H - b₀) / 2 ^ (H - b₀ - b₁) then
          cmp_int (K % 2 ^ (H - b₀ - b₁) / 2 ^ (H - b₀ - b₁ - b₂))
            (K' % 2 ^ (H - b₀ - b₁) / 2 ^ (H - b₀ - b₁ - b₂))
        else cmp_int (K % 2 ^ (H - b₀) / 2 ^ (H - b₀ - b₁)) (K' % 2 ^ (H - b₀) / 2 ^ (H - b₀ - b₁))
      else cmp_int (K % 2 ^ H / 2 ^ (H - b₀)) (K' % 2 ^ H / 2 ^ (H - b₀)) := by
  have hfield : ∀ (K h a : Nat), a ≤ h → K % 2 ^ h / 2 ^ (h - a) < 2 ^ a := by
    intro K h a hah
    rw [mod_two_pow_div_two_pow _ (Nat.sub_le _ _), show h - (h - a) = a by omega]
    exact Nat.mod_lt _ (Nat.two_pow_pos _)
  -- split off the first field, then the second
  have hsplit : ∀ K, K < 2 ^ H → K / 2 ^ (H - (b₀ + b₁ + b₂)) =
      K % 2 ^ H / 2 ^ (H - b₀) * 2 ^ (b₁ + b₂) +
        (K % 2 ^ (H - b₀) / 2 ^ (H - b₀ - b₁) * 2 ^ b₂ +
          K % 2 ^ (H - b₀ - b₁) / 2 ^ (H - b₀ - b₁ - b₂)) := by
    intro K hK
    conv_lhs => rw [← Nat.mod_eq_of_lt hK, Nat.add_assoc]
    rw [mod_two_pow_div_split K (by omega : b₀ + (b₁ + b₂) ≤ H),
      mod_two_pow_div_split K (by omega : b₁ + b₂ ≤ H - b₀)]
  have hlow : ∀ K, K % 2 ^ (H - b₀) / 2 ^ (H - b₀ - b₁) * 2 ^ b₂ +
      K % 2 ^ (H - b₀ - b₁) / 2 ^ (H - b₀ - b₁ - b₂) < 2 ^ (b₁ + b₂) := by
    intro K
    rw [← mod_two_pow_div_split K (by omega : b₁ + b₂ ≤ H - b₀)]
    exact hfield _ _ _ (by omega)
  rw [hsplit _ hK, hsplit _ hK', cmp_int_mul_two_pow_add (hlow _) (hlow _),
    cmp_int_mul_two_pow_add (hfield _ _ _ (by omega)) (hfield _ _ _ (by omega))]

section Positions

variable {f : bkey_format} (hf : FormatValid f)
include hf

/-- A field read adds the offset back without wrapping. -/
theorem toNat_fieldRead (K : Nat) {h : Nat} (i : Fin 6) (hbh : (f.bits_per_field.get i).toNat ≤ h) :
    (fieldRead f K h i).toNat = K % 2 ^ h / 2 ^ (h - (f.bits_per_field.get i).toNat) +
      (f.field_offset.get i).toNat := by
  have hcur : 2 ^ (bch2_bkey_format_current.bits_per_field.get i).toNat ≤ 2 ^ 64 :=
    Nat.pow_le_pow_right (by norm_num) (bits_current_le i)
  have hoff := hf.offset_add_le i
  have hraw : K % 2 ^ h / 2 ^ (h - (f.bits_per_field.get i).toNat) < 2 ^ (f.bits_per_field.get i).toNat := by
    rw [mod_two_pow_div_two_pow _ (Nat.sub_le _ _), show h - (h - (f.bits_per_field.get i).toNat) =
      (f.bits_per_field.get i).toNat by omega]
    exact Nat.mod_lt _ (Nat.two_pow_pos _)
  have hr64 : K % 2 ^ h / 2 ^ (h - (f.bits_per_field.get i).toNat) < 2 ^ 64 := by omega
  -- the field plus its offset stays below `2 ^ 64` in a valid format
  have hsum : K % 2 ^ h / 2 ^ (h - (f.bits_per_field.get i).toNat) + (f.field_offset.get i).toNat <
      2 ^ 64 := by omega
  rw [fieldRead, UInt64.toNat_add, UInt64.toNat_ofNat', Nat.mod_eq_of_lt hr64,
    Nat.mod_eq_of_lt hsum]

/-- The snapshot field, cut to its 32-bit member, still does not wrap. -/
theorem toNat_fieldRead_snapshot (K : Nat) {h : Nat}
    (hbh : (f.bits_per_field.get BKEY_FIELD_SNAPSHOT).toNat ≤ h) :
    (fieldRead f K h BKEY_FIELD_SNAPSHOT).toUInt32.toNat =
      K % 2 ^ h / 2 ^ (h - (f.bits_per_field.get BKEY_FIELD_SNAPSHOT).toNat) +
        (f.field_offset.get BKEY_FIELD_SNAPSHOT).toNat := by
  have hoff := hf.offset_add_le BKEY_FIELD_SNAPSHOT
  have hraw : K % 2 ^ h / 2 ^ (h - (f.bits_per_field.get BKEY_FIELD_SNAPSHOT).toNat) <
      2 ^ (f.bits_per_field.get BKEY_FIELD_SNAPSHOT).toNat := by
    rw [mod_two_pow_div_two_pow _ (Nat.sub_le _ _), show h - (h -
      (f.bits_per_field.get BKEY_FIELD_SNAPSHOT).toNat) = (f.bits_per_field.get BKEY_FIELD_SNAPSHOT).toNat
      by omega]
    exact Nat.mod_lt _ (Nat.two_pow_pos _)
  -- the current format gives the snapshot 32 bits, so the sum stays below `2 ^ 32`
  have h32 : (bch2_bkey_format_current.bits_per_field.get BKEY_FIELD_SNAPSHOT).toNat = 32 := rfl
  rw [h32] at hoff
  rw [UInt64.toNat_toUInt32, toNat_fieldRead hf K _ hbh, Nat.mod_eq_of_lt (by omega)]

/-- Two reads of one field at one head are equal exactly when the fields are. -/
theorem fieldRead_eq_iff (K K' : Nat) {h : Nat} (i : Fin 6) (hb : (f.bits_per_field.get i).toNat ≤ h) :
    fieldRead f K h i = fieldRead f K' h i ↔
      K % 2 ^ h / 2 ^ (h - (f.bits_per_field.get i).toNat) =
        K' % 2 ^ h / 2 ^ (h - (f.bits_per_field.get i).toNat) := by
  rw [← UInt64.toNat_inj, toNat_fieldRead hf K i hb, toNat_fieldRead hf K' i hb,
    Nat.add_right_cancel_iff]

/-- Two reads of one field at one head compare as the fields. -/
theorem cmp_int_fieldRead (K K' : Nat) {h : Nat} (i : Fin 6) (hb : (f.bits_per_field.get i).toNat ≤ h) :
    cmp_int (fieldRead f K h i) (fieldRead f K' h i) =
      cmp_int (K % 2 ^ h / 2 ^ (h - (f.bits_per_field.get i).toNat))
        (K' % 2 ^ h / 2 ^ (h - (f.bits_per_field.get i).toNat)) := by
  rw [cmp_int_uint64, toNat_fieldRead hf K i hb, toNat_fieldRead hf K' i hb, cmp_int_add_right]

/-- Two reads of the snapshot field, cut to 32 bits, compare as the fields. -/
theorem cmp_int_fieldRead_snapshot (K K' : Nat) {h : Nat}
    (hb : (f.bits_per_field.get BKEY_FIELD_SNAPSHOT).toNat ≤ h) :
    cmp_int (fieldRead f K h BKEY_FIELD_SNAPSHOT).toUInt32
        (fieldRead f K' h BKEY_FIELD_SNAPSHOT).toUInt32 =
      cmp_int (K % 2 ^ h / 2 ^ (h - (f.bits_per_field.get BKEY_FIELD_SNAPSHOT).toNat))
        (K' % 2 ^ h / 2 ^ (h - (f.bits_per_field.get BKEY_FIELD_SNAPSHOT).toNat)) := by
  rw [cmp_int_uint32, toNat_fieldRead_snapshot hf K hb, toNat_fieldRead_snapshot hf K' hb,
    cmp_int_add_right]

/-- Comparing two unpacked positions is comparing the top `nr_key_bits` bits of the two
keys. -/
theorem bpos_cmp___bkey_unpack_pos (l r : bkey_packed) :
    bpos_cmp (__bkey_unpack_pos f l) (__bkey_unpack_pos f r) =
      cmp_int (keyVal l f.key_u64s.toNat / 2 ^ (64 * f.key_u64s.toNat - bkey_format_key_bits f))
        (keyVal r f.key_u64s.toNat / 2 ^ (64 * f.key_u64s.toNat - bkey_format_key_bits f)) := by
  have hroom := hf.room_fields
  rw [bkey_format_key_bits, cmp_int_three_fields _ _ _ (keyVal_lt l _) (keyVal_lt r _) (by omega),
    __bkey_unpack_pos_eq hf, __bkey_unpack_pos_eq hf, bpos_cmp_eq]
  dsimp only
  -- each member compares as its field: the offset is added to both without wrapping
  simp only [fieldRead_eq_iff hf _ _ _ (by omega : (f.bits_per_field.get BKEY_FIELD_INODE).toNat ≤
      64 * f.key_u64s.toNat),
    fieldRead_eq_iff hf _ _ _ (by omega : (f.bits_per_field.get BKEY_FIELD_OFFSET).toNat ≤
      64 * f.key_u64s.toNat - (f.bits_per_field.get BKEY_FIELD_INODE).toNat),
    cmp_int_fieldRead hf _ _ _ (by omega : (f.bits_per_field.get BKEY_FIELD_INODE).toNat ≤
      64 * f.key_u64s.toNat),
    cmp_int_fieldRead hf _ _ _ (by omega : (f.bits_per_field.get BKEY_FIELD_OFFSET).toNat ≤
      64 * f.key_u64s.toNat - (f.bits_per_field.get BKEY_FIELD_INODE).toNat),
    cmp_int_fieldRead_snapshot hf _ _ (by omega : (f.bits_per_field.get BKEY_FIELD_SNAPSHOT).toNat ≤
      64 * f.key_u64s.toNat - (f.bits_per_field.get BKEY_FIELD_INODE).toNat -
        (f.bits_per_field.get BKEY_FIELD_OFFSET).toNat)]

end Positions

/-! ### Keys of a node -/

/-- The position fields of a valid format fit the node's `u8 nr_key_bits`. -/
theorem toNat_nr_key_bits {f : bkey_format} (hf : FormatValid f) (b : btree) :
    (btree_node_set_format b f).nr_key_bits.toNat = bkey_format_key_bits f := by
  have hi := hf.bits_le_current BKEY_FIELD_INODE
  have ho := hf.bits_le_current BKEY_FIELD_OFFSET
  have hs := hf.bits_le_current BKEY_FIELD_SNAPSHOT
  -- the current format's position fields take 160 bits, below `2 ^ 8`
  have hcur : (bch2_bkey_format_current.bits_per_field.get BKEY_FIELD_INODE).toNat +
      (bch2_bkey_format_current.bits_per_field.get BKEY_FIELD_OFFSET).toNat +
      (bch2_bkey_format_current.bits_per_field.get BKEY_FIELD_SNAPSHOT).toNat = 160 := rfl
  rw [btree_node_set_format_nr_key_bits, Nat.toUInt8, UInt8.toNat_ofNat', bkey_format_key_bits]
  exact Nat.mod_eq_of_lt (by omega)

/-- Packed comparison orders keys as their positions: for a valid format, the portable
`__bkey_cmp_bits` over the position bits from the high words is `bpos_cmp` of the two
unpacked positions, and `bch2_bkey_cmp_packed` on a node set to the format is
`bpos_cmp` of the positions of its arguments, each unpacked when packed and read as a
`struct bkey` when not. -/
theorem bch2_bkey_cmp_packed_eq_bpos_cmp (f : bkey_format)
    (hf : bch2_bkey_format_invalid f = .ok ()) (b : btree) (l r : bkey_packed) :
    __bkey_cmp_bits l r (high_word_offset f) (high_word_offset f) (bkey_format_key_bits f) =
        bpos_cmp (__bkey_unpack_pos f l) (__bkey_unpack_pos f r) ∧
      bch2_bkey_cmp_packed (btree_node_set_format b f) l r =
        bpos_cmp (if l.is_packed then __bkey_unpack_pos f l else (bkey_cast l).p)
          (if r.is_packed then __bkey_unpack_pos f r else (bkey_cast r).p) := by
  have hv := (formatValid_iff f).mp hf
  have hroom := hv.room_fields
  have hbits : __bkey_cmp_bits l r (high_word_offset f) (high_word_offset f)
      (bkey_format_key_bits f) = bpos_cmp (__bkey_unpack_pos f l) (__bkey_unpack_pos f r) := by
    rw [high_word_offset, __bkey_cmp_bits_eq l r hv.key_u64s_pos
      (by rw [bkey_format_key_bits]; omega), bpos_cmp___bkey_unpack_pos hv]
  refine ⟨hbits, ?_⟩
  unfold bch2_bkey_cmp_packed
  -- the packed ones go through the fast unpack, which reads the same position
  by_cases hl : l.is_packed = true <;> by_cases hr : r.is_packed = true
  · rw [if_pos (by simp [hl, hr]), if_pos hl, if_pos hr, ← hbits,
      __bch2_bkey_cmp_packed_format_checked_inlined, toNat_nr_key_bits hv,
      btree_node_set_format_format]
  · rw [if_neg (by simp [hr]), if_pos hl, if_neg hr]
    simp only [if_pos hl]
    rw [__bch2_bkey_unpack_key_b_p hv]
  · rw [if_neg (by simp [hl]), if_neg hl, if_pos hr]
    simp only [if_neg hl, if_pos hr]
    rw [__bch2_bkey_unpack_key_b_p hv]
  · rw [if_neg (by simp [hl]), if_neg hl, if_neg hr]
    simp only [if_neg hl, if_neg hr]

/-- Two keys of the current format, packed (format byte `0`) but otherwise zero: they
compare equal, as their positions do. -/
theorem bch2_bkey_cmp_packed_eq_bpos_cmp_current :
    bch2_bkey_format_invalid bch2_bkey_format_current = .ok () ∧
      (__bkey_cmp_bits ⟨fun _ => 0⟩ ⟨fun _ => 0⟩ (high_word_offset bch2_bkey_format_current)
          (high_word_offset bch2_bkey_format_current)
          (bkey_format_key_bits bch2_bkey_format_current) =
        bpos_cmp (__bkey_unpack_pos bch2_bkey_format_current ⟨fun _ => 0⟩)
          (__bkey_unpack_pos bch2_bkey_format_current ⟨fun _ => 0⟩) ∧
      bch2_bkey_cmp_packed
          (btree_node_set_format ⟨0, bch2_bkey_format_current, false, Vector.replicate 6 ⟨0, 64⟩⟩
            bch2_bkey_format_current) ⟨fun _ => 0⟩ ⟨fun _ => 0⟩ =
        bpos_cmp
          (if bkey_packed.is_packed ⟨fun _ => 0⟩ then
            __bkey_unpack_pos bch2_bkey_format_current ⟨fun _ => 0⟩
          else (bkey_cast ⟨fun _ => 0⟩).p)
          (if bkey_packed.is_packed ⟨fun _ => 0⟩ then
            __bkey_unpack_pos bch2_bkey_format_current ⟨fun _ => 0⟩
          else (bkey_cast ⟨fun _ => 0⟩).p)) :=
  have hcur : bch2_bkey_format_invalid bch2_bkey_format_current = .ok () := by decide
  ⟨hcur, bch2_bkey_cmp_packed_eq_bpos_cmp bch2_bkey_format_current hcur _ _ _⟩

end Bcachefs.Proofs.Btree
