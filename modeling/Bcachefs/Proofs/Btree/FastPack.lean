import Bcachefs.Proofs.Btree.FastUnpack
import Bcachefs.Proofs.Btree.PackKey

/-!
# `Bcachefs.Proofs.Btree.FastPack`: the fast path of `bch2_bkey_pack_pos`

On a byte-aligned node, `bch2_bkey_pack_pos` checks each position field with one
`fls64`, clears the key's words and ors each field into the 8-byte window that ends at
the field's top byte. `__bch2_bkey_pack_pos_exact` runs the bit-stream packer instead.
The two agree:

* `fieldFits_iff`: the fast path's one test per field is the packer's two. A value
  below the field's offset wraps, and in a valid format the wrapped difference is too
  wide for the field, since the offset plus the field's range fits the member.
* `keyVal_pack_field_fast`: one window store. The value of the 8 bytes in front of the
  key and the key's words together (`leVal_front`) changes by the field's value at its
  place, and a window that starts in front of the key writes those bytes back as they
  were, so the key's words gain the field right below its top (`keyVal_put_unaligned_le64`).
  The invariant carried from field to field is that the bits below the next field's
  top are still clear.
* `keyVal_pack_pos_fast` and `keyVal_packPosRun`: both paths leave the same number,
  `packPosVal`, at the top of the key's words, and zero bits below it.
* `bkey_fast_paths_refine` gathers the fast unpackers of `FastUnpack` and the packer.
-/

set_option autoImplicit false
set_option linter.style.nameCheck false

namespace Bcachefs.Proofs.Btree

open Bcachefs.Bits

/-! ### Window stores -/

/-- The 8 bytes in front of a key and its `n` words, as one number. -/
theorem leVal_front (k : bkey_packed) (n : Nat) :
    leVal k.bytes (-8) (8 + 8 * n) = leVal k.bytes (-8) 8 + 2 ^ 64 * keyVal k n := by
  rw [leVal_add, keyVal]
  norm_num

/-- The window that ends at byte `e` of a key whose bits below `8 * e` are clear holds
only the bytes in front of the key, shifted down. -/
theorem leVal_window_of_keyVal (k : bkey_packed) {n e X : Nat} (he : e ≤ 8 * n)
    (hk : keyVal k n = X * 2 ^ (8 * e)) :
    leVal k.bytes ((e : Int) - 8) 8 = leVal k.bytes (-8) 8 / 2 ^ (8 * e) := by
  have hsplit := leVal_window k.bytes (-8) e 8 (8 * n - e)
  rw [show e + 8 + (8 * n - e) = 8 + 8 * n by omega, leVal_front, hk,
    show (-8 : Int) + e = (e : Int) - 8 by ring] at hsplit
  have hF := leVal_lt k.bytes (-8) 8
  have hlo := leVal_lt k.bytes (-8) e
  have hW := leVal_lt k.bytes ((e : Int) - 8) 8
  -- divide both sides by `2 ^ (8 * e)`: the low bytes go, the front bytes come down
  have hdiv := congrArg (· / 2 ^ (8 * e)) hsplit
  rw [Nat.add_mul_div_left _ _ (Nat.two_pow_pos _), Nat.div_eq_of_lt hlo, Nat.zero_add,
    show 2 ^ 64 * (X * 2 ^ (8 * e)) = 2 ^ (8 * e) * (X * 2 ^ 64) by ring,
    Nat.add_mul_div_left _ _ (Nat.two_pow_pos _)] at hdiv
  have hFd : leVal k.bytes (-8) 8 / 2 ^ (8 * e) < 2 ^ 64 :=
    lt_of_le_of_lt (Nat.div_le_self _ _) (by simpa using hF)
  generalize leVal k.bytes ((e : Int) - 8 + ((8 : Nat) : Int)) (8 * n - e) = H at hdiv
  generalize leVal k.bytes (-8) 8 / 2 ^ (8 * e) = Fd at hdiv hFd ⊢
  have hW' : leVal k.bytes ((e : Int) - 8) 8 < 2 ^ 64 := by simpa using hW
  have h' : H * 2 ^ 64 + leVal k.bytes ((e : Int) - 8) 8 = X * 2 ^ 64 + Fd := by
    rw [show (2 : Nat) ^ (8 * 8) = 2 ^ 64 from rfl] at hdiv
    omega
  exact ((mul_two_pow_add_inj hW' hFd).mp h').2

/-- An 8-byte store ending at byte `e` of the key, of the window plus `D`, adds `E` to
the key's words when `2 ^ (8 * e) * D = 2 ^ 64 * E`: whatever it adds lies inside the
key, and the bytes in front of it are written back as they were. -/
theorem keyVal_put_unaligned_le64 (k : bkey_packed) {n e : Nat} (he : e ≤ 8 * n) (w : UInt64)
    {D E : Nat} (hw : w.toNat = leVal k.bytes ((e : Int) - 8) 8 + D)
    (hD : 2 ^ (8 * e) * D = 2 ^ 64 * E) :
    keyVal (put_unaligned_le64 k w ((e : Int) - 8)) n = keyVal k n + E := by
  have hbytes : (put_unaligned_le64 k w ((e : Int) - 8)).bytes =
      storeLe k.bytes ((-8 : Int) + e) 8 w.toNat := by
    rw [put_unaligned_le64, show (-8 : Int) + e = (e : Int) - 8 by ring]
  have hlen : e + 8 + (8 * n - e) = 8 + 8 * n := by omega
  -- the region from 8 bytes in front of the key, before and after the store
  have hT := leVal_window k.bytes (-8) e 8 (8 * n - e)
  have hT' := leVal_storeLe_window k.bytes (-8) e 8 (8 * n - e) w.toNat
  have hhigh : (-8 : Int) + e + ((8 : Nat) : Int) = e := by push_cast; ring
  rw [← hbytes, hlen, leVal_front, hhigh] at hT'
  rw [hlen, leVal_front, hhigh, show (-8 : Int) + e = (e : Int) - 8 by ring] at hT
  have hw64 : w.toNat % 2 ^ (8 * 8) = w.toNat := Nat.mod_eq_of_lt w.toNat_lt
  rw [hw64, hw] at hT'
  have hF := leVal_lt k.bytes (-8) 8
  have hF' := leVal_lt (put_unaligned_le64 k w ((e : Int) - 8)).bytes (-8) 8
  have h' : keyVal (put_unaligned_le64 k w ((e : Int) - 8)) n * 2 ^ 64 +
        leVal (put_unaligned_le64 k w ((e : Int) - 8)).bytes (-8) 8 =
      (keyVal k n + E) * 2 ^ 64 + leVal k.bytes (-8) 8 := by
    have hsum : 2 ^ (8 * e) * (leVal k.bytes ((e : Int) - 8) 8 + D + 2 ^ (8 * 8) *
          leVal k.bytes e (8 * n - e)) =
        2 ^ (8 * e) * (leVal k.bytes ((e : Int) - 8) 8 + 2 ^ (8 * 8) *
          leVal k.bytes e (8 * n - e)) + 2 ^ 64 * E := by
      rw [← hD]
      ring
    rw [hsum] at hT'
    omega
  exact ((mul_two_pow_add_inj (by simpa using hF') (by simpa using hF)).mp h').1.trans rfl

/-- `pack_field_fast` with the constants of a field whose top is at bit `h`, on a key
whose bits below `h` are clear: the value goes in right below bit `h`. -/
theorem keyVal_pack_field_fast (k : bkey_packed) {n h b X : Nat} {uf : bkey_unpack_field}
    (v : UInt64)
    (hconst : if b = 0 then uf = ⟨0, 64⟩
      else h % 8 = 0 ∧ uf.byte_offset.toInt = ((h / 8 : Nat) : Int) - 8 ∧
        uf.shift_right.toNat = 64 - b)
    (hb64 : b ≤ 64) (hbh : b ≤ h) (hhn : h ≤ 64 * n) (hn : 1 ≤ n) (hv : v.toNat < 2 ^ b)
    (hk : keyVal k n = X * 2 ^ h) :
    keyVal (pack_field_fast k uf v) n = (X * 2 ^ b + v.toNat) * 2 ^ (h - b) := by
  unfold pack_field_fast
  by_cases hb0 : b = 0
  · -- the sentinel: word `0` is written back as it was
    rw [if_pos hb0] at hconst
    subst hconst hb0
    have hv0 : v = 0 := UInt64.toNat_inj.mp (by simpa using hv)
    subst hv0
    have hput := keyVal_put_unaligned_le64 k (n := n) (e := 8) (by omega)
      (get_unaligned_le64 k ((8 : Nat) - 8)) (D := 0) (E := 0)
      (by rw [get_unaligned_le64, UInt64.toNat_ofNat', Nat.mod_eq_of_lt (leVal_lt _ _ 8),
        Nat.add_zero]) (by simp)
    simp only [Nat.cast_ofNat, sub_self, Nat.add_zero] at hput
    simp [hput, hk]
  · rw [if_neg hb0] at hconst
    obtain ⟨h8, hoff, hsr⟩ := hconst
    have he : h = 8 * (h / 8) := by omega
    -- the window ends at byte `h / 8`: below the field only bytes in front of the key
    have hraw : (get_unaligned_le64 k uf.byte_offset.toInt).toNat =
        leVal k.bytes (-8) 8 / 2 ^ h := by
      rw [get_unaligned_le64, UInt64.toNat_ofNat', Nat.mod_eq_of_lt (leVal_lt _ _ 8), hoff,
        leVal_window_of_keyVal k (n := n) (e := h / 8) (X := X) (by omega) (by rw [← he]; exact hk), ← he]
    have hraw_lt : (get_unaligned_le64 k uf.byte_offset.toInt).toNat < 2 ^ (64 - b) := by
      rw [hraw, Nat.div_lt_iff_lt_mul (Nat.two_pow_pos _), ← pow_add]
      exact (leVal_lt k.bytes (-8) 8).trans_le (Nat.pow_le_pow_right (by norm_num) (by omega))
    have hs : (uf.shift_right &&& 63).toUInt64 = (64 - b).toUInt64 := by
      apply UInt64.toNat_inj.mp
      rw [toNat_toUInt64_of_lt (by omega), UInt8.toNat_toUInt64, UInt8.toNat_and,
        show (63 : UInt8).toNat = 2 ^ 6 - 1 from rfl, Nat.and_two_pow_sub_one_eq_mod, hsr]
      omega
    have hshift : (v <<< (64 - b).toUInt64).toNat = v.toNat * 2 ^ (64 - b) := by
      rw [toNat_shiftLeft_of_lt _ (by omega), Nat.mod_eq_of_lt]
      calc v.toNat * 2 ^ (64 - b) < 2 ^ b * 2 ^ (64 - b) :=
            Nat.mul_lt_mul_of_pos_right hv (Nat.two_pow_pos _)
        _ = 2 ^ 64 := by rw [← pow_add, Nat.add_sub_cancel' hb64]
    -- the or is an add: the field's bits of the window are clear
    have hor : (get_unaligned_le64 k uf.byte_offset.toInt ||| v <<< (64 - b).toUInt64).toNat =
        leVal k.bytes uf.byte_offset.toInt 8 + v.toNat * 2 ^ (64 - b) := by
      rw [UInt64.or_comm, toNat_or_of_disjoint _ _ (s := 64 - b) (by rw [hshift]; simp) hraw_lt,
        hshift, get_unaligned_le64, UInt64.toNat_ofNat', Nat.mod_eq_of_lt (leVal_lt _ _ 8),
        Nat.add_comm]
    have hpow : 2 ^ (8 * (h / 8)) * (v.toNat * 2 ^ (64 - b)) = 2 ^ 64 * (v.toNat * 2 ^ (h - b)) :=
      calc 2 ^ (8 * (h / 8)) * (v.toNat * 2 ^ (64 - b))
          = v.toNat * 2 ^ (h + (64 - b)) := by rw [← he]; ring
        _ = v.toNat * 2 ^ (64 + (h - b)) := by rw [show h + (64 - b) = 64 + (h - b) by omega]
        _ = 2 ^ 64 * (v.toNat * 2 ^ (h - b)) := by ring
    rw [hoff] at hor
    dsimp only
    rw [hs, hoff, keyVal_put_unaligned_le64 k (n := n) (e := h / 8) (by omega) _ hor hpow, hk]
    rw [show X * 2 ^ h = X * 2 ^ b * 2 ^ (h - b) by rw [Nat.mul_assoc, ← pow_add,
      Nat.add_sub_cancel' hbh]]
    ring

/-! ### The bit-stream packer of positions -/

/-- The three field steps of `__bch2_bkey_pack_pos_exact` from the zeroed key, once each
field has passed its range check. -/
def packPosRun (out : bkey_packed) (p : bpos) (f : bkey_format) : pack_state × bkey_packed :=
  let r₀ := __set_inc_field (zero_words out f.key_u64s.toNat) (pack_state_init f)
    BKEY_FIELD_INODE (p.inode - f.field_offset.get BKEY_FIELD_INODE)
  let r₁ := __set_inc_field r₀.2 r₀.1 BKEY_FIELD_OFFSET
    (p.offset - f.field_offset.get BKEY_FIELD_OFFSET)
  __set_inc_field r₁.2 r₁.1 BKEY_FIELD_SNAPSHOT
    (p.snapshot.toUInt64 - f.field_offset.get BKEY_FIELD_SNAPSHOT)

section Exact

variable (out : bkey_packed) (p : bpos) (f : bkey_format)

/-- `__bch2_bkey_pack_pos_exact` succeeds exactly when the three position fields fit,
and then writes the header over the closed stream of the three steps. -/
theorem __bch2_bkey_pack_pos_exact_eq_of_fits
    (hfits : FieldFits f p.inode BKEY_FIELD_INODE ∧ FieldFits f p.offset BKEY_FIELD_OFFSET ∧
      FieldFits f p.snapshot.toUInt64 BKEY_FIELD_SNAPSHOT) :
    __bch2_bkey_pack_pos_exact out p f =
      (true, set_type (set_format (set_u64s (pack_state_finish (packPosRun out p f).1
        (packPosRun out p f).2) f.key_u64s) KEY_FORMAT_LOCAL_BTREE) KEY_TYPE_deleted) := by
  obtain ⟨hI, hO, hS⟩ := hfits
  unfold FieldFits at hI hO hS
  unfold __bch2_bkey_pack_pos_exact packPosRun
  dsimp only
  split_ifs with hpre
  · -- no offset lies above its value
    simp only [Bool.or_eq_true, decide_eq_true_eq] at hpre
    rcases hpre with (h | h) | h
    · exact absurd hS.1 (UInt64.not_le.mpr h)
    · exact absurd hO.1 (UInt64.not_le.mpr h)
    · exact absurd hI.1 (UInt64.not_le.mpr h)
  -- each step passes its check and hands on the format
  rw [set_inc_field_eq, pack_state_init_format, if_pos hI]
  dsimp only
  rw [set_inc_field_eq, __set_inc_field_format, pack_state_init_format, if_pos hO]
  dsimp only
  rw [set_inc_field_eq, __set_inc_field_format, __set_inc_field_format, pack_state_init_format,
    if_pos hS]

/-- `__bch2_bkey_pack_pos_exact` succeeds exactly when the three position fields fit. -/
theorem __bch2_bkey_pack_pos_exact_fst :
    (__bch2_bkey_pack_pos_exact out p f).1 = true ↔
      FieldFits f p.inode BKEY_FIELD_INODE ∧ FieldFits f p.offset BKEY_FIELD_OFFSET ∧
        FieldFits f p.snapshot.toUInt64 BKEY_FIELD_SNAPSHOT := by
  refine ⟨fun htrue => ?_, fun hfits => by rw [__bch2_bkey_pack_pos_exact_eq_of_fits out p f hfits]⟩
  unfold __bch2_bkey_pack_pos_exact at htrue
  dsimp only at htrue
  -- a failed pre-check returns `false` (closed by `split_ifs`)
  split_ifs at htrue with hpre
  -- a step that fails its check returns `false`
  rw [set_inc_field_eq, pack_state_init_format] at htrue
  by_cases hI : FieldFits f p.inode BKEY_FIELD_INODE
  · rw [if_pos (by unfold FieldFits at hI; exact hI)] at htrue
    dsimp only at htrue
    rw [set_inc_field_eq, __set_inc_field_format, pack_state_init_format] at htrue
    by_cases hO : FieldFits f p.offset BKEY_FIELD_OFFSET
    · rw [if_pos (by unfold FieldFits at hO; exact hO)] at htrue
      dsimp only at htrue
      rw [set_inc_field_eq, __set_inc_field_format, __set_inc_field_format,
        pack_state_init_format] at htrue
      by_cases hS : FieldFits f p.snapshot.toUInt64 BKEY_FIELD_SNAPSHOT
      · exact ⟨hI, hO, hS⟩
      · rw [if_neg (by unfold FieldFits at hS; exact hS)] at htrue
        cases htrue
    · rw [if_neg (by unfold FieldFits at hO; exact hO)] at htrue
      cases htrue
  · rw [if_neg (by unfold FieldFits at hI; exact hI)] at htrue
    cases htrue

end Exact

/-! ### Zeroed words -/

/-- `zero_words` clears the key's first `n` words and nothing else. -/
theorem zero_words_bytes (out : bkey_packed) (n : Nat) (x : Int) :
    (zero_words out n).bytes x = if 0 ≤ x ∧ x < 8 * n then 0 else out.bytes x := by
  -- induction on the words cleared: word `n` is stored last
  induction n with
  | zero =>
      rw [if_neg (by omega)]
      rfl
  | succ n ih =>
      show storeLe (zero_words out n).bytes (8 * (n : Int)) 8 (0 : UInt64).toNat x = _
      by_cases hin : 8 * (n : Int) ≤ x ∧ x < 8 * (n : Int) + ((8 : Nat) : Int)
      · rw [storeLe, if_pos hin, if_pos ⟨by omega, by push_cast at hin ⊢; omega⟩]
        simp
      · rw [storeLe_of_not_mem _ _ hin, ih]
        push_cast at hin ⊢
        by_cases hx : 0 ≤ x ∧ x < 8 * (n : Int)
        · rw [if_pos hx, if_pos ⟨hx.1, by omega⟩]
        · rw [if_neg hx, if_neg (by omega)]

/-- The zeroed words read as `0`. -/
theorem keyVal_zero_words (out : bkey_packed) (n : Nat) : keyVal (zero_words out n) n = 0 :=
  leVal_eq_zero fun x hx1 hx2 => by
    rw [zero_words_bytes, if_pos ⟨hx1, by push_cast at hx2; omega⟩]

/-- The position fields of `p` less their offsets, as one number: inode over offset over
snapshot, at their widths in `f`. -/
def packPosVal (f : bkey_format) (p : bpos) : Nat :=
  ((p.inode - f.field_offset.get BKEY_FIELD_INODE).toNat *
        2 ^ (f.bits_per_field.get BKEY_FIELD_OFFSET).toNat +
      (p.offset - f.field_offset.get BKEY_FIELD_OFFSET).toNat) *
      2 ^ (f.bits_per_field.get BKEY_FIELD_SNAPSHOT).toNat +
    (p.snapshot.toUInt64 - f.field_offset.get BKEY_FIELD_SNAPSHOT).toNat

section Valid

variable {f : bkey_format} (hf : FormatValid f) (out : bkey_packed) (p : bpos)
include hf

/-- A value passes `set_inc_field`'s two checks exactly when it passes the fast path's
one: below the offset, the difference wraps to at least `2 ^ 64` less the offset, which
is too wide for the field in a valid format. -/
theorem fieldFits_iff (i : Fin 6) (v : UInt64) :
    FieldFits f v i ↔ (v - f.field_offset.get i).toNat < 2 ^ (f.bits_per_field.get i).toNat := by
  refine ⟨fun h => h.2, fun h => ⟨?_, h⟩⟩
  -- a value below the offset would wrap to more than the field's room
  by_contra hlt
  have hoff := hf.offset_add_le i
  have hcur : 2 ^ (bch2_bkey_format_current.bits_per_field.get i).toNat ≤ 2 ^ 64 :=
    Nat.pow_le_pow_right (by norm_num) (bits_current_le i)
  rw [UInt64.not_le, UInt64.lt_iff_toNat_lt] at hlt
  have hb := (f.field_offset.get i).toNat_lt
  rw [UInt64.toNat_sub, Nat.mod_eq_of_lt (by omega)] at h
  omega

/-- The three steps of the bit-stream packer from the zeroed key, closed: the key's words
hold the position stream at their top and zero bits below it. -/
theorem keyVal_packPosRun
    (hfits : FieldFits f p.inode BKEY_FIELD_INODE ∧ FieldFits f p.offset BKEY_FIELD_OFFSET ∧
      FieldFits f p.snapshot.toUInt64 BKEY_FIELD_SNAPSHOT) :
    keyVal (pack_state_finish (packPosRun out p f).1 (packPosRun out p f).2) f.key_u64s.toNat =
      packPosVal f p * 2 ^ (64 * f.key_u64s.toNat - bkey_format_key_bits f) := by
  obtain ⟨hI, hO, hS⟩ := hfits
  have hroom := hf.room_fields
  unfold packPosRun
  dsimp only
  generalize hz : zero_words out f.key_u64s.toNat = z
  -- the three steps keep the packer's invariant, each adding its field to the stream
  have h₀ := packInv_init f z hf.key_u64s_pos
  have h₁ := @packInv___set_inc_field _ _ _ _ _ BKEY_FIELD_INODE
    (p.inode - f.field_offset.get BKEY_FIELD_INODE) h₀ (by simpa using hf.bits_le _)
    (by simpa using hI.2) (by simp only [pack_state_init_format]; omega)
  generalize hr₀ : __set_inc_field z (pack_state_init f) BKEY_FIELD_INODE
    (p.inode - f.field_offset.get BKEY_FIELD_INODE) = r₀ at h₁
  have hf₀ : r₀.1.format = f := by rw [← hr₀, __set_inc_field_format, pack_state_init_format]
  simp only [pack_state_init_format] at h₁
  have h₂ := @packInv___set_inc_field _ _ _ _ _ BKEY_FIELD_OFFSET
    (p.offset - f.field_offset.get BKEY_FIELD_OFFSET) h₁ (by simpa [hf₀] using hf.bits_le _)
    (by simpa [hf₀] using hO.2) (by rw [hf₀]; omega)
  generalize hr₁ : __set_inc_field r₀.2 r₀.1 BKEY_FIELD_OFFSET
    (p.offset - f.field_offset.get BKEY_FIELD_OFFSET) = r₁ at h₂
  have hf₁ : r₁.1.format = f := by rw [← hr₁, __set_inc_field_format, hf₀]
  rw [hf₀] at h₂
  have h₃ := @packInv___set_inc_field _ _ _ _ _ BKEY_FIELD_SNAPSHOT
    (p.snapshot.toUInt64 - f.field_offset.get BKEY_FIELD_SNAPSHOT) h₂
    (by simpa [hf₁] using hf.bits_le _) (by simpa [hf₁] using hS.2) (by rw [hf₁]; omega)
  generalize hr₂ : __set_inc_field r₁.2 r₁.1 BKEY_FIELD_SNAPSHOT
    (p.snapshot.toUInt64 - f.field_offset.get BKEY_FIELD_SNAPSHOT) = r₂ at h₃
  rw [hf₁] at h₃
  -- below the last word written lie only zeroed bytes
  have hfr₀ := __set_inc_field_frame z (pack_state_init f) BKEY_FIELD_INODE
    (p.inode - f.field_offset.get BKEY_FIELD_INODE)
  have hfr₁ := __set_inc_field_frame r₀.2 r₀.1 BKEY_FIELD_OFFSET
    (p.offset - f.field_offset.get BKEY_FIELD_OFFSET)
  have hfr₂ := __set_inc_field_frame r₁.2 r₁.1 BKEY_FIELD_SNAPSHOT
    (p.snapshot.toUInt64 - f.field_offset.get BKEY_FIELD_SNAPSHOT)
  rw [hr₀] at hfr₀
  rw [hr₁] at hfr₁
  rw [hr₂] at hfr₂
  have hp₃ := h₃.p_nonneg
  have hpn := h₃.p_lt
  have hlow : leVal (pack_state_finish r₂.1 r₂.2).bytes 0 (8 * r₂.1.p.toNat) = 0 := by
    apply leVal_eq_zero
    intro x hx0 hx
    rw [pack_state_finish, store_word_bytes_of_not_mem _ _ _ (.inl (by omega)),
      hfr₂.2 x (by omega), hfr₁.2 x (by omega), hfr₀.2 x (by simp [pack_state_init] at hfr₀ ⊢; omega),
      ← hz, zero_words_bytes, if_pos ⟨hx0, by omega⟩]
  rw [keyVal_pack_state_finish h₃, hlow, Nat.zero_add, packPosVal, bkey_format_key_bits]
  -- the run and the header are as in the general packer, with three fields
  congr 2
  · ring
  · omega

end Valid

/-- The header stores of both packers read only the key's bytes: keys that agree on
their words still agree after them. -/
theorem set_header_bytes_eq {k k' : bkey_packed} {n : Nat} (hn : 1 ≤ n)
    (h : ∀ x : Int, 0 ≤ x → x < 8 * n → k.bytes x = k'.bytes x) (u t : UInt8) (v : Nat) {x : Int}
    (hx0 : 0 ≤ x) (hxn : x < 8 * n) :
    (set_type (set_format (set_u64s k u) v) t).bytes x =
      (set_type (set_format (set_u64s k' u) v) t).bytes x := by
  simp only [set_type_bytes, set_format_bytes, set_u64s_bytes, if_neg (show (1 : Int) ≠ 0 by decide),
    h 1 (by omega) (by omega), h x hx0 hxn]

section Node

variable {f : bkey_format} (hf : FormatValid f) (b : btree) (out : bkey_packed) (p : bpos)
include hf

/-- The fast path's three stores on the zeroed key of a node set to a valid format: the
key's words hold the position stream at their top. -/
theorem keyVal_pack_pos_fast
    (haligned : (btree_node_set_format b f).byte_aligned_fields = true)
    (hfits : FieldFits f p.inode BKEY_FIELD_INODE ∧ FieldFits f p.offset BKEY_FIELD_OFFSET ∧
      FieldFits f p.snapshot.toUInt64 BKEY_FIELD_SNAPSHOT) :
    keyVal (pack_field_fast (pack_field_fast (pack_field_fast
        (zero_words out f.key_u64s.toNat)
        ((btree_node_set_format b f).unpack.get BKEY_FIELD_INODE)
          (p.inode - f.field_offset.get BKEY_FIELD_INODE))
        ((btree_node_set_format b f).unpack.get BKEY_FIELD_OFFSET)
          (p.offset - f.field_offset.get BKEY_FIELD_OFFSET))
        ((btree_node_set_format b f).unpack.get BKEY_FIELD_SNAPSHOT)
          (p.snapshot.toUInt64 - f.field_offset.get BKEY_FIELD_SNAPSHOT)) f.key_u64s.toNat =
      packPosVal f p * 2 ^ (64 * f.key_u64s.toNat - bkey_format_key_bits f) := by
  obtain ⟨hI, hO, hS⟩ := hfits
  have hroom := hf.room_fields
  have hn := hf.key_u64s_pos
  -- the constants of the three position fields, each read below the one before
  obtain ⟨cI, cO, cS, -⟩ := btree_node_set_format_consts b f hf haligned
  have s₁ := keyVal_pack_field_fast (zero_words out f.key_u64s.toNat) (X := 0) _ cI
    (hf.bits_le _) (by omega) le_rfl hn hI.2 (by rw [keyVal_zero_words, Nat.zero_mul])
  have s₂ := keyVal_pack_field_fast _ _ cO (hf.bits_le _) (by omega) (by omega) hn hO.2 s₁
  have s₃ := keyVal_pack_field_fast _ _ cS (hf.bits_le _) (by omega) (by omega) hn hS.2 s₂
  rw [s₃, packPosVal, bkey_format_key_bits]
  congr 2
  · ring
  · omega

/-- `bch2_bkey_pack_pos` on a node set to a valid format succeeds exactly when the three
position fields fit, on either path. -/
theorem bch2_bkey_pack_pos_fst :
    (bch2_bkey_pack_pos out p (btree_node_set_format b f)).1 = true ↔
      FieldFits f p.inode BKEY_FIELD_INODE ∧ FieldFits f p.offset BKEY_FIELD_OFFSET ∧
        FieldFits f p.snapshot.toUInt64 BKEY_FIELD_SNAPSHOT := by
  have hfmt : (btree_node_set_format b f).format = f := rfl
  generalize btree_node_set_format b f = b' at hfmt ⊢
  subst hfmt
  unfold bch2_bkey_pack_pos
  by_cases haligned : b'.byte_aligned_fields = true
  · rw [if_pos haligned]
    dsimp only
    rw [fieldFits_iff hf, fieldFits_iff hf, fieldFits_iff hf, ← fls64_le_iff, ← fls64_le_iff,
      ← fls64_le_iff]
    split
    next hfail =>
      -- one of the `fls64` tests fails
      simp only [Bool.or_eq_true, decide_eq_true_eq] at hfail
      simp only [Bool.false_eq_true, false_iff, not_and]
      intro h₁ h₂ h₃
      omega
    next hfail =>
      simp only [Bool.or_eq_true, decide_eq_true_eq, not_or, not_lt] at hfail
      simp only [true_iff]
      exact ⟨hfail.1.1, hfail.1.2, hfail.2⟩
  · rw [if_neg haligned]
    exact __bch2_bkey_pack_pos_exact_fst out p _

/-- When it succeeds, `bch2_bkey_pack_pos` on a node set to a valid format writes the
key's words as the bit-stream packer does. -/
theorem bch2_bkey_pack_pos_snd
    (htrue : (bch2_bkey_pack_pos out p (btree_node_set_format b f)).1 = true)
    (x : Int) (hx0 : 0 ≤ x) (hxn : x < 8 * f.key_u64s.toNat) :
    (bch2_bkey_pack_pos out p (btree_node_set_format b f)).2.bytes x =
      (__bch2_bkey_pack_pos_exact out p f).2.bytes x := by
  have hfits := (bch2_bkey_pack_pos_fst hf b out p).mp htrue
  unfold bch2_bkey_pack_pos at htrue ⊢
  by_cases haligned : (btree_node_set_format b f).byte_aligned_fields = true
  · rw [if_pos haligned] at htrue ⊢
    dsimp only at htrue ⊢
    split
    next hfail =>
      rw [if_pos hfail] at htrue
      cases htrue
    next =>
      -- both closed keys hold the position stream: they agree on every byte of the key
      rw [__bch2_bkey_pack_pos_exact_eq_of_fits out p f hfits]
      have hkey := (keyVal_pack_pos_fast hf b out p haligned hfits).trans
        (keyVal_packPosRun hf out p hfits).symm
      exact set_header_bytes_eq hf.key_u64s_pos
        (fun y hy0 hyn => bytes_eq_of_leVal_eq hkey hy0 (by push_cast; omega)) _ _ _ hx0 hxn
  · rw [if_neg haligned]
    rfl

end Node

/-- The byte-aligned fast paths of a node set to a valid format refine the bit-stream
functions: `__bch2_bkey_unpack_key_b` writes the key `__bch2_bkey_unpack_key` writes, for
a key in the node's format whose unpacked length fits its byte; `__bkey_unpack_pos_b` is
`__bkey_unpack_pos`; and `bch2_bkey_pack_pos` succeeds exactly when
`__bch2_bkey_pack_pos_exact` does, and then writes the same key words. -/
theorem bkey_fast_paths_refine (f : bkey_format) (hf : bch2_bkey_format_invalid f = .ok ())
    (b : btree) :
    (∀ k : bkey_packed, k.format = KEY_FORMAT_LOCAL_BTREE →
        k.u64s.toNat + BKEY_U64s - f.key_u64s.toNat ≤ U8_MAX →
        __bch2_bkey_unpack_key_b (btree_node_set_format b f) k = __bch2_bkey_unpack_key f k) ∧
      (∀ k : bkey_packed,
        __bkey_unpack_pos_b (btree_node_set_format b f) k = __bkey_unpack_pos f k) ∧
      (∀ (out : bkey_packed) (p : bpos),
        ((bch2_bkey_pack_pos out p (btree_node_set_format b f)).1 = true ↔
            (__bch2_bkey_pack_pos_exact out p f).1 = true) ∧
          ((bch2_bkey_pack_pos out p (btree_node_set_format b f)).1 = true →
            ∀ x : Int, 0 ≤ x → x < 8 * f.key_u64s.toNat →
              (bch2_bkey_pack_pos out p (btree_node_set_format b f)).2.bytes x =
                (__bch2_bkey_pack_pos_exact out p f).2.bytes x)) := by
  have hv := (formatValid_iff f).mp hf
  refine ⟨fun k hfmt hu => __bch2_bkey_unpack_key_b_eq hv b k hfmt hu,
    fun k => __bkey_unpack_pos_b_eq hv b k, fun out p => ⟨?_, bch2_bkey_pack_pos_snd hv b out p⟩⟩
  rw [bch2_bkey_pack_pos_fst hv, __bch2_bkey_pack_pos_exact_fst]

/-- A node before any format is installed. -/
def emptyNode : btree where
  nr_key_bits := 0
  format := bch2_bkey_format_current
  byte_aligned_fields := false
  unpack := Vector.replicate 6 ⟨0, 64⟩

/-- The current format installed on an empty node: the fast paths refine the bit-stream
functions there. -/
theorem bkey_fast_paths_refine_current :
    bch2_bkey_format_invalid bch2_bkey_format_current = .ok () ∧
      (∀ k : bkey_packed, k.format = KEY_FORMAT_LOCAL_BTREE →
          k.u64s.toNat + BKEY_U64s - bch2_bkey_format_current.key_u64s.toNat ≤ U8_MAX →
          __bch2_bkey_unpack_key_b (btree_node_set_format emptyNode bch2_bkey_format_current) k =
            __bch2_bkey_unpack_key bch2_bkey_format_current k) ∧
        (∀ k : bkey_packed,
          __bkey_unpack_pos_b (btree_node_set_format emptyNode bch2_bkey_format_current) k =
            __bkey_unpack_pos bch2_bkey_format_current k) ∧
        (∀ (out : bkey_packed) (p : bpos),
          ((bch2_bkey_pack_pos out p
                (btree_node_set_format emptyNode bch2_bkey_format_current)).1 = true ↔
              (__bch2_bkey_pack_pos_exact out p bch2_bkey_format_current).1 = true) ∧
            ((bch2_bkey_pack_pos out p
                (btree_node_set_format emptyNode bch2_bkey_format_current)).1 = true →
              ∀ x : Int, 0 ≤ x → x < 8 * bch2_bkey_format_current.key_u64s.toNat →
                (bch2_bkey_pack_pos out p
                    (btree_node_set_format emptyNode bch2_bkey_format_current)).2.bytes x =
                  (__bch2_bkey_pack_pos_exact out p bch2_bkey_format_current).2.bytes x)) :=
  have hcur : bch2_bkey_format_invalid bch2_bkey_format_current = .ok () := by decide
  ⟨hcur, bkey_fast_paths_refine bch2_bkey_format_current hcur emptyNode⟩

end Bcachefs.Proofs.Btree
