import Bcachefs.Btree.Pack
import Bcachefs.Bits.Shift
import Bcachefs.Bits.Fields

/-!
# `Bcachefs.Proofs.Btree.PackStream`: what the two state machines compute

The packer and the unpacker of `Btree/Pack.lean` move one field at a time along a
stream of bits kept in 64-bit words. This module states, for each machine, the
invariant that ties its state to the stream, proves that one field keeps it
(`packInv___set_inc_field`, `unpackInv_get_inc_field`), and walks a list of fields
with it (`pack_key_fields_spec`, `unpack_key_fields_spec`).

**Packer.** After `q` words have been stored, `PackInv n q V s k` says the stored
words, followed by the current word `s.w`, hold the stream value `V` followed by
`s.bits` zero bits. The stored words are the `q` words above `s.p`, most
significant at the top: as a little-endian window that is
`leVal k.bytes (8 * (s.p + 1)) (8 * q)`.

**Unpacker.** Reading a key whose words hold the number `K`, `UnpackInv k n h s`
says the read head is `h` bits above bit `0` of the key (`h = 64 * s.p + s.bits`)
and `s.w` holds the unread bits of word `s.p`, shifted to its top. A field of `b`
bits is then `(K % 2 ^ h) / 2 ^ (h - b)`.

Both step lemmas are case splits on the three branches of the C function: an
empty field, a field that fits in the current word, and a field that runs into the
next word, which is where the split shifts `(v >> 1) >> (bits - 1)` and
`(w >> 1) >> (63 - bits)` matter.
-/

set_option autoImplicit false
set_option linter.style.nameCheck false

namespace Bcachefs.Proofs.Btree

open Bcachefs.Bits

/-! ### `fls64` and the range check -/

/-- `fls64 v > bits` is the overflow test `v ≥ 2 ^ bits`. -/
theorem fls64_le_iff (v : UInt64) (bits : Nat) : fls64 v ≤ bits ↔ v.toNat < 2 ^ bits := by
  unfold fls64
  -- `fls64 0` is `0`; otherwise one more than the highest set bit
  split
  · rename_i h
    subst h
    simp
  · rename_i h
    have hv : v.toNat ≠ 0 := by
      intro h0
      exact h (UInt64.toNat_inj.mp (by simpa using h0))
    rw [← Nat.log2_lt hv]
    omega

/-! ### The packer -/

section Packer

variable (k : bkey_packed) (s : pack_state) (field : Fin 6) (v : UInt64)

/-- An empty field writes nothing. -/
theorem __set_inc_field_of_zero (hb : (s.format.bits_per_field.get field).toNat = 0) :
    __set_inc_field k s field v = (s, k) := by
  unfold __set_inc_field
  dsimp only
  rw [if_neg (by rw [hb]; exact fun h => h rfl)]

/-- A field that fits in the current word is or'ed in below the bits already there. -/
theorem __set_inc_field_of_le (hb : (s.format.bits_per_field.get field).toNat ≠ 0)
    (hle : (s.format.bits_per_field.get field).toNat ≤ s.bits) :
    __set_inc_field k s field v =
      ({ s with bits := s.bits - (s.format.bits_per_field.get field).toNat,
                w := s.w ||| (v <<< (s.bits - (s.format.bits_per_field.get field).toNat).toUInt64) },
       k) := by
  unfold __set_inc_field
  dsimp only
  rw [if_pos hb, if_neg (Nat.not_lt.mpr hle)]

/-- A field wider than what is left of the current word closes that word with its
high part, stores it, and opens the next word with its low part. -/
theorem __set_inc_field_of_lt (hlt : s.bits < (s.format.bits_per_field.get field).toNat) :
    __set_inc_field k s field v =
      ({ format := s.format, p := next_word s.p,
         bits := 64 - ((s.format.bits_per_field.get field).toNat - s.bits),
         w := 0 ||| (v <<< (64 - ((s.format.bits_per_field.get field).toNat - s.bits)).toUInt64) },
       store_word k s.p
         (s.w ||| ((v >>> 1) >>> ((s.format.bits_per_field.get field).toNat - s.bits - 1).toUInt64))) := by
  have hb : (s.format.bits_per_field.get field).toNat ≠ 0 := by omega
  unfold __set_inc_field
  dsimp only
  rw [if_pos hb, if_pos hlt]

/-- `set_inc_field` succeeds exactly when the value is at least the offset and the
difference fits the field, and then appends the difference. -/
theorem set_inc_field_eq :
    set_inc_field k s field v =
      if (s.format.field_offset.get field) ≤ v ∧
          (v - s.format.field_offset.get field).toNat < 2 ^ (s.format.bits_per_field.get field).toNat
      then (true, __set_inc_field k s field (v - s.format.field_offset.get field))
      else (false, s, k) := by
  unfold set_inc_field
  dsimp only
  -- below the offset, then too wide for the field, then written
  by_cases hlt : v < s.format.field_offset.get field
  · rw [if_pos hlt, if_neg (fun h => absurd h.1 (UInt64.not_le.mpr hlt))]
  · have hle : s.format.field_offset.get field ≤ v := UInt64.not_lt.mp hlt
    rw [if_neg hlt]
    by_cases hfit : (v - s.format.field_offset.get field).toNat
        < 2 ^ (s.format.bits_per_field.get field).toNat
    · rw [if_neg (Nat.not_lt.mpr ((fls64_le_iff _ _).mpr hfit)), if_pos ⟨hle, hfit⟩]
    · rw [if_pos (Nat.lt_of_not_le fun h => hfit ((fls64_le_iff _ _).mp h)),
        if_neg fun h => hfit h.2]

end Packer

/-- The packer's invariant after a stream of `c` bits with value `V`: the words
stored above `s.p` and the current word `s.w` hold `V` followed by `s.bits` zero
bits, and `s.p` is where the head of the stream is (`64 * s.p + c + s.bits` is the
key's width). -/
structure PackInv (n c V : Nat) (s : pack_state) (k : bkey_packed) : Prop where
  bits_le : s.bits ≤ 64
  p_nonneg : 0 ≤ s.p
  p_lt : s.p < n
  pos : 64 * s.p + c + s.bits = 64 * n
  val : leVal k.bytes (8 * (s.p + 1)) (8 * (n - 1 - s.p).toNat) * 2 ^ 64 + s.w.toNat
    = V * 2 ^ s.bits

/-- `PackInv` only depends on the stream's width and value, not on how they are
written. -/
theorem PackInv.congr {n c c' V V' : Nat} {s : pack_state} {k : bkey_packed} (hc : c = c')
    (hV : V = V') (h : PackInv n c V s k) : PackInv n c' V' s k := by
  subst hc hV
  exact h

/-- The bits of the current word below the head are clear. -/
theorem w_mod_of_val {E w V bits : Nat} (hbits : bits ≤ 64)
    (h : E * 2 ^ 64 + w = V * 2 ^ bits) : w % 2 ^ bits = 0 := by
  have h64 : (2 : Nat) ^ 64 = 2 ^ bits * 2 ^ (64 - bits) := by
    rw [← pow_add, Nat.add_sub_cancel' hbits]
  have hmod := congrArg (· % 2 ^ bits) h
  rw [show E * 2 ^ 64 + w = w + E * 2 ^ (64 - bits) * 2 ^ bits by rw [h64]; ring,
    Nat.add_mul_mod_self_right, Nat.mul_mod_left] at hmod
  exact hmod

/-- The packer starts in the format it is given. -/
@[simp] theorem pack_state_init_format (f : bkey_format) : (pack_state_init f).format = f := rfl

/-- The value of `pack_state_init`: nothing stored, an empty current word. -/
theorem packInv_init (f : bkey_format) (k : bkey_packed) (hn : 0 < f.key_u64s.toNat) :
    PackInv f.key_u64s.toNat 0 0 (pack_state_init f) k where
  bits_le := by simp [pack_state_init, high_bit_offset]
  p_nonneg := by simp [pack_state_init, high_word_offset]; omega
  p_lt := by simp [pack_state_init, high_word_offset]
  pos := by simp [pack_state_init, high_word_offset, high_bit_offset]; ring
  val := by
    have hq : ((f.key_u64s.toNat : Int) - 1 - high_word_offset f).toNat = 0 := by
      simp [high_word_offset]
    simp [pack_state_init, hq]

section PackerStep

variable {n c V : Nat} {s : pack_state} {k : bkey_packed} {field : Fin 6} {v : UInt64}

/-- A field that fits in the current word: the stream grows by `b` bits and nothing
is stored. -/
theorem packInv_of_le (hinv : PackInv n c V s k)
    (hb : (s.format.bits_per_field.get field).toNat ≠ 0)
    (hle : (s.format.bits_per_field.get field).toNat ≤ s.bits)
    (hv : v.toNat < 2 ^ (s.format.bits_per_field.get field).toNat) :
    PackInv n (c + (s.format.bits_per_field.get field).toNat)
      (V * 2 ^ (s.format.bits_per_field.get field).toNat + v.toNat)
      (__set_inc_field k s field v).1 (__set_inc_field k s field v).2 := by
  rw [__set_inc_field_of_le k s field v hb hle]
  set b := (s.format.bits_per_field.get field).toNat with hbdef
  have hbits := hinv.bits_le
  have hpos := hinv.pos
  have hsplit : (2 : Nat) ^ s.bits = 2 ^ b * 2 ^ (s.bits - b) := by
    rw [← pow_add, Nat.add_sub_cancel' hle]
  -- the shifted field lands below the head, inside the current word
  have hshift : (v <<< (s.bits - b).toUInt64).toNat = v.toNat * 2 ^ (s.bits - b) := by
    rw [toNat_shiftLeft_of_lt _ (by omega), Nat.mod_eq_of_lt]
    calc v.toNat * 2 ^ (s.bits - b) < 2 ^ b * 2 ^ (s.bits - b) :=
          Nat.mul_lt_mul_of_pos_right hv (Nat.two_pow_pos _)
      _ = 2 ^ s.bits := hsplit.symm
      _ ≤ 2 ^ 64 := Nat.pow_le_pow_right (by norm_num) hinv.bits_le
  have hor : (s.w ||| (v <<< (s.bits - b).toUInt64)).toNat
      = s.w.toNat + v.toNat * 2 ^ (s.bits - b) := by
    rw [toNat_or_of_disjoint _ _ (w_mod_of_val hinv.bits_le hinv.val), hshift]
    rw [hshift, hsplit]
    exact Nat.mul_lt_mul_of_pos_right hv (Nat.two_pow_pos _)
  refine ⟨by simp; omega, hinv.p_nonneg, hinv.p_lt, by simp; omega, ?_⟩
  simp only
  rw [hor, ← Nat.add_assoc, hinv.val, hsplit]
  ring


/-- A field that runs past the current word: its high part closes the word, which
is stored at `s.p`, and its low part opens the word below. The stream grows by `b`
bits and the stored window by one word. -/
theorem packInv_of_lt (hinv : PackInv n c V s k)
    (hlt : s.bits < (s.format.bits_per_field.get field).toNat)
    (hb64 : (s.format.bits_per_field.get field).toNat ≤ 64)
    (hv : v.toNat < 2 ^ (s.format.bits_per_field.get field).toNat)
    (hroom : c + (s.format.bits_per_field.get field).toNat ≤ 64 * n) :
    PackInv n (c + (s.format.bits_per_field.get field).toNat)
      (V * 2 ^ (s.format.bits_per_field.get field).toNat + v.toNat)
      (__set_inc_field k s field v).1 (__set_inc_field k s field v).2 := by
  rw [__set_inc_field_of_lt k s field v hlt]
  set b := (s.format.bits_per_field.get field).toNat with hbdef
  set r := b - s.bits with hrdef
  have hbits := hinv.bits_le
  have hpos := hinv.pos
  have hp1 : 1 ≤ s.p := by omega
  have h64 : (2 : Nat) ^ 64 = 2 ^ r * 2 ^ (64 - r) := by
    rw [← pow_add, Nat.add_sub_cancel' (by omega)]
  have hb : (2 : Nat) ^ b = 2 ^ s.bits * 2 ^ r := by
    rw [← pow_add, hrdef, Nat.add_sub_cancel' hlt.le]
  -- the high part of the field closes the current word
  have hw1 : (s.w ||| ((v >>> 1) >>> (r - 1).toUInt64)).toNat = s.w.toNat + v.toNat / 2 ^ r := by
    have hhigh := toNat_shiftRight_one_shiftRight_sub_one v (r := r) (by omega) (by omega)
    have hfit : ((v >>> 1) >>> (r - 1).toUInt64).toNat < 2 ^ s.bits := by
      rw [hhigh]
      exact Nat.div_lt_of_lt_mul (by rw [Nat.mul_comm, ← hb]; exact hv)
    rw [toNat_or_of_disjoint _ _ (w_mod_of_val hbits hinv.val) hfit, hhigh]
  -- the low part opens the next word
  have hlow : (0 ||| (v <<< (64 - r).toUInt64)).toNat = v.toNat % 2 ^ r * 2 ^ (64 - r) := by
    rw [UInt64.zero_or, toNat_shiftLeft_of_lt _ (by omega), h64, Nat.mul_mod_mul_right]
  have hplt := hinv.p_lt
  refine ⟨Nat.sub_le _ _, by simp only [next_word]; omega, by simp only [next_word]; omega,
    ?_, ?_⟩
  · show 64 * (s.p - 1) + ((c + b : Nat) : Int) + ((64 - r : Nat) : Int) = 64 * n
    omega
  simp only [next_word]
  set E := leVal k.bytes (8 * (s.p + 1)) (8 * (↑n - 1 - s.p).toNat) with hE
  have hq : (8 * ((n : Int) - 1 - (s.p - 1)).toNat) = 8 + 8 * (↑n - 1 - s.p).toNat := by omega
  -- the new window is the stored word below the words stored before
  have hwin : leVal (store_word k s.p (s.w ||| ((v >>> 1) >>> (r - 1).toUInt64))).bytes
      (8 * (s.p - 1 + 1)) (8 * ((n : Int) - 1 - (s.p - 1)).toNat)
      = (s.w.toNat + v.toNat / 2 ^ r) + 2 ^ 64 * E := by
    rw [show s.p - 1 + 1 = s.p by ring, hq, leVal_add, leVal_store_word_self, hw1,
      show 8 * s.p + ((8 : Nat) : Int) = 8 * (s.p + 1) by push_cast; ring, hE]
    congr 2
    apply leVal_congr
    intro x hx _
    exact store_word_bytes_of_not_mem _ _ _ (.inr (by omega))
  rw [hwin, hlow]
  calc (s.w.toNat + v.toNat / 2 ^ r + 2 ^ 64 * E) * 2 ^ 64 + v.toNat % 2 ^ r * 2 ^ (64 - r)
      = (E * 2 ^ 64 + s.w.toNat) * 2 ^ 64
          + (2 ^ r * (v.toNat / 2 ^ r) + v.toNat % 2 ^ r) * 2 ^ (64 - r) := by
        rw [h64]; ring
    _ = (V * 2 ^ s.bits) * 2 ^ 64 + v.toNat * 2 ^ (64 - r) := by
        rw [hinv.val, Nat.div_add_mod]
    _ = (V * 2 ^ b + v.toNat) * 2 ^ (64 - r) := by
        rw [hb, h64]; ring

/-- One field of the packer, whatever branch it takes: the stream grows by the
field's `b` bits, as long as the field fits its width and the key has room. -/
theorem packInv___set_inc_field (hinv : PackInv n c V s k)
    (hb64 : (s.format.bits_per_field.get field).toNat ≤ 64)
    (hv : v.toNat < 2 ^ (s.format.bits_per_field.get field).toNat)
    (hroom : c + (s.format.bits_per_field.get field).toNat ≤ 64 * n) :
    PackInv n (c + (s.format.bits_per_field.get field).toNat)
      (V * 2 ^ (s.format.bits_per_field.get field).toNat + v.toNat)
      (__set_inc_field k s field v).1 (__set_inc_field k s field v).2 := by
  by_cases hb : (s.format.bits_per_field.get field).toNat = 0
  · -- an empty field: the value is `0` and nothing moves
    have hv0 : v.toNat = 0 := by rw [hb] at hv; omega
    rw [__set_inc_field_of_zero k s field v hb, hb, hv0, pow_zero, Nat.mul_one, Nat.add_zero,
      Nat.add_zero]
    exact hinv
  · by_cases hle : (s.format.bits_per_field.get field).toNat ≤ s.bits
    · exact packInv_of_le hinv hb hle hv
    · exact packInv_of_lt hinv (Nat.lt_of_not_le hle) hb64 hv hroom

end PackerStep

/-- The packer keeps its format. -/
theorem __set_inc_field_format (k : bkey_packed) (s : pack_state) (field : Fin 6)
    (v : UInt64) : (__set_inc_field k s field v).1.format = s.format := by
  -- the three branches of `__set_inc_field`
  by_cases hb : (s.format.bits_per_field.get field).toNat = 0
  · rw [__set_inc_field_of_zero k s field v hb]
  · by_cases hle : (s.format.bits_per_field.get field).toNat ≤ s.bits
    · rw [__set_inc_field_of_le k s field v hb hle]
    · rw [__set_inc_field_of_lt k s field v (Nat.lt_of_not_le hle)]

/-- The packer only moves down, and stores only at the word it leaves: every byte
below the word after its new pointer is untouched. -/
theorem __set_inc_field_frame (k : bkey_packed) (s : pack_state) (field : Fin 6)
    (v : UInt64) :
    (__set_inc_field k s field v).1.p ≤ s.p ∧
      ∀ x, x < 8 * ((__set_inc_field k s field v).1.p + 1) →
        (__set_inc_field k s field v).2.bytes x = k.bytes x := by
  -- only a field that closes the word stores it, at the pointer it leaves
  by_cases hb : (s.format.bits_per_field.get field).toNat = 0
  · rw [__set_inc_field_of_zero k s field v hb]
    exact ⟨le_rfl, fun _ _ => rfl⟩
  · by_cases hle : (s.format.bits_per_field.get field).toNat ≤ s.bits
    · rw [__set_inc_field_of_le k s field v hb hle]
      exact ⟨le_rfl, fun _ _ => rfl⟩
    · rw [__set_inc_field_of_lt k s field v (Nat.lt_of_not_le hle)]
      refine ⟨by simp [next_word], fun x hx => ?_⟩
      simp only [next_word] at hx
      exact store_word_bytes_of_not_mem _ _ _ (.inl (by omega))

/-- Field `id` of `x` passes `set_inc_field`'s range check in format `f`. -/
def FieldFits (f : bkey_format) (x : UInt64) (id : Fin 6) : Prop :=
  f.field_offset.get id ≤ x ∧ (x - f.field_offset.get id).toNat < 2 ^ (f.bits_per_field.get id).toNat

/-- The stream `pack_key_fields` writes for the fields `ids` of `kk`: each value
less its offset, at its width. -/
def packStream (f : bkey_format) (kk : bkey) (ids : List (Fin 6)) : List (Nat × Nat) :=
  ids.map fun id => ((f.bits_per_field.get id).toNat, (bkey_field kk id - f.field_offset.get id).toNat)

/-- No fields make an empty stream. -/
@[simp] theorem packStream_nil (f : bkey_format) (kk : bkey) : packStream f kk [] = [] := rfl

/-- A field in front is the first entry of the stream. -/
@[simp] theorem packStream_cons (f : bkey_format) (kk : bkey) (id : Fin 6) (ids : List (Fin 6)) :
    packStream f kk (id :: ids) =
      ((f.bits_per_field.get id).toNat, (bkey_field kk id - f.field_offset.get id).toNat) ::
        packStream f kk ids := rfl

/-- The packer over a list of fields. It succeeds exactly when every field passes
its range check; then the stored words and the current word hold the stream of
those fields after what was there, and the bytes below the final pointer are
those it started with. -/
theorem pack_key_fields_spec (kk : bkey) (n : Nat) :
    ∀ (ids : List (Fin 6)) (s : pack_state) (out : bkey_packed) (c V : Nat),
      PackInv n c V s out →
      (∀ id ∈ ids, (s.format.bits_per_field.get id).toNat ≤ 64) →
      c + fieldsWidth (packStream s.format kk ids) ≤ 64 * n →
      ((pack_key_fields kk ids s out).1 = true ↔
          ∀ id ∈ ids, FieldFits s.format (bkey_field kk id) id) ∧
      ((pack_key_fields kk ids s out).1 = true →
        PackInv n (c + fieldsWidth (packStream s.format kk ids))
          (V * 2 ^ fieldsWidth (packStream s.format kk ids) +
            fieldsVal (packStream s.format kk ids))
          (pack_key_fields kk ids s out).2.1 (pack_key_fields kk ids s out).2.2 ∧
        (pack_key_fields kk ids s out).2.1.format = s.format ∧
        (pack_key_fields kk ids s out).2.1.p ≤ s.p ∧
        ∀ x, x < 8 * ((pack_key_fields kk ids s out).2.1.p + 1) →
          (pack_key_fields kk ids s out).2.2.bytes x = out.bytes x) := by
  intro ids
  -- induction on the fields, with the state, the key and the stream so far free
  induction ids with
  | nil =>
      intro s out c V hinv _ _
      have h0 : pack_key_fields kk [] s out = (true, s, out) := rfl
      rw [h0]
      refine ⟨by simp, fun _ => ⟨?_, rfl, le_rfl, fun _ _ => rfl⟩⟩
      simpa using hinv
  | cons id ids ih =>
      intro s out c V hinv hb64 hroom
      simp only [packStream_cons, fieldsWidth_cons] at hroom
      rw [pack_key_fields, set_inc_field_eq]
      by_cases hfit : FieldFits s.format (bkey_field kk id) id
      · -- the field is written; the rest of the list runs from the new state
        unfold FieldFits at hfit
        rw [if_pos hfit]
        simp only
        set r := __set_inc_field out s id (bkey_field kk id - s.format.field_offset.get id)
          with hr
        have hstep := packInv___set_inc_field hinv (hb64 id (by simp)) hfit.2
          (by omega)
        have hfmt : r.1.format = s.format := __set_inc_field_format _ _ _ _
        have hframe := __set_inc_field_frame out s id
          (bkey_field kk id - s.format.field_offset.get id)
        rw [← hr] at hstep hframe
        have hb64' : ∀ i ∈ ids, (r.1.format.bits_per_field.get i).toNat ≤ 64 := by
          rw [hfmt]; exact fun i hi => hb64 i (by simp [hi])
        obtain ⟨hiff, hrun⟩ := ih r.1 r.2 _ _ hstep hb64' (by rw [hfmt]; omega)
        rw [hfmt] at hiff hrun
        refine ⟨?_, fun htrue => ?_⟩
        · rw [hiff]
          simp only [List.mem_cons, forall_eq_or_imp]
          exact ⟨fun h => ⟨hfit, h⟩, fun h => h.2⟩
        · obtain ⟨hinv', hfmt', hp', hframe'⟩ := hrun htrue
          refine ⟨?_, hfmt', hp'.trans hframe.1, fun x hx => ?_⟩
          · simp only [packStream_cons, fieldsWidth_cons, fieldsVal_cons]
            refine PackInv.congr (by ring) ?_ hinv'
            rw [pow_add]
            ring
          · rw [hframe' x hx, hframe.2 x (by omega)]
      · have hfit' := hfit
        unfold FieldFits at hfit'
        rw [if_neg hfit']
        refine ⟨?_, fun h => absurd h (by simp)⟩
        simp only [Bool.false_eq_true, List.mem_cons, forall_eq_or_imp, false_iff, not_and]
        exact fun h => absurd h hfit

/-! ### The unpacker -/

/-- The number the words `0 .. n - 1` of a key hold, word `n - 1` most significant:
the key read as one little-endian window. -/
def keyVal (k : bkey_packed) (n : Nat) : Nat := leVal k.bytes 0 (8 * n)

/-- A key of `n` words holds a number below `2 ^ (64 * n)`. -/
theorem keyVal_lt (k : bkey_packed) (n : Nat) : keyVal k n < 2 ^ (64 * n) := by
  have h := leVal_lt k.bytes 0 (8 * n)
  rwa [show 8 * (8 * n) = 64 * n by ring] at h

/-- One more word on top of a key's words. -/
theorem keyVal_succ (k : bkey_packed) (q : Nat) :
    keyVal k (q + 1) = keyVal k q + 2 ^ (64 * q) * (load_word k q).toNat := by
  rw [keyVal, show 8 * (q + 1) = 8 * q + 8 by ring, leVal_add, load_word_toNat, ← keyVal,
    show 8 * (8 * q) = 64 * q by ring]
  congr 3
  push_cast
  ring

/-- The bits of `K % 2 ^ h` from bit `a` up are the bits of `K` from `a` to `h`. -/
theorem mod_two_pow_div_two_pow (K : Nat) {a h : Nat} (hah : a ≤ h) :
    K % 2 ^ h / 2 ^ a = K / 2 ^ a % 2 ^ (h - a) := by
  rw [show h = a + (h - a) by omega, pow_add, Nat.mod_mul_right_div_self,
    Nat.add_sub_cancel_left]

/-- Word `q` of a key is the `q`-th 64-bit digit of `keyVal`. -/
theorem load_word_eq_keyVal (k : bkey_packed) {n : Nat} {q : Int} (hq0 : 0 ≤ q)
    (hqn : q < n) : (load_word k q).toNat = keyVal k n / 2 ^ (64 * q.toNat) % 2 ^ 64 := by
  have hdiv := leVal_div k.bytes 0 (k := 8 * q.toNat) (n := 8 * n) (by omega)
  rw [load_word_toNat, keyVal, show 64 * q.toNat = 8 * (8 * q.toNat) by ring, hdiv,
    show (2 : Nat) ^ 64 = 2 ^ (8 * 8) by norm_num, leVal_mod _ _ (by omega)]
  congr 1
  omega

section UnpackerBranches

variable (k : bkey_packed) (s : unpack_state) (field : Fin 6)

/-- A field that reaches the end of the current word: its high part is what is left
of the word, and its low part is the top of the next word, which is loaded. -/
theorem get_inc_field_of_ge (hge : s.bits ≤ (s.format.bits_per_field.get field).toNat) :
    get_inc_field k s field =
      (((s.w >>> (64 - (s.format.bits_per_field.get field).toNat).toUInt64) |||
          ((load_word k (next_word s.p) >>> 1) >>>
            (63 - ((s.format.bits_per_field.get field).toNat - s.bits)).toUInt64)) +
          s.format.field_offset.get field,
       { format := s.format, p := next_word s.p,
         w := load_word k (next_word s.p) <<<
           ((s.format.bits_per_field.get field).toNat - s.bits).toUInt64,
         bits := 64 - ((s.format.bits_per_field.get field).toNat - s.bits) }) := by
  unfold get_inc_field
  dsimp only
  rw [if_pos hge]

/-- A field that ends inside the current word is its top bits. -/
theorem get_inc_field_of_lt (hlt : (s.format.bits_per_field.get field).toNat < s.bits) :
    get_inc_field k s field =
      (((0 : UInt64) ||| ((s.w >>> 1) >>> (63 - (s.format.bits_per_field.get field).toNat).toUInt64)) +
          s.format.field_offset.get field,
       { s with w := s.w <<< (s.format.bits_per_field.get field).toNat.toUInt64,
                bits := s.bits - (s.format.bits_per_field.get field).toNat }) := by
  unfold get_inc_field
  dsimp only
  rw [if_neg (Nat.not_le.mpr hlt)]

end UnpackerBranches

/-- The unpacker's invariant while reading a key of `n` words: the read head is
`h` bits above bit `0`, and the current word holds the unread bits of word `s.p` at
its top. -/
structure UnpackInv (k : bkey_packed) (n h : Nat) (s : unpack_state) : Prop where
  bits_pos : 1 ≤ s.bits
  bits_le : s.bits ≤ 64
  p_nonneg : 0 ≤ s.p
  p_lt : s.p < n
  head : (h : Int) = 64 * s.p + s.bits
  w_eq : s.w.toNat = keyVal k n % 2 ^ h / 2 ^ (64 * s.p.toNat) * 2 ^ (64 - s.bits)

/-- The unpacker starts in the format it is given. -/
@[simp] theorem unpack_state_init_format (f : bkey_format) (k : bkey_packed) :
    (unpack_state_init f k).format = f := rfl

/-- `unpack_state_init` puts the head at the top of the key. -/
theorem unpackInv_init (f : bkey_format) (k : bkey_packed) (hn : 0 < f.key_u64s.toNat) :
    UnpackInv k f.key_u64s.toNat (64 * f.key_u64s.toNat) (unpack_state_init f k) where
  bits_pos := by simp [unpack_state_init, high_bit_offset]
  bits_le := by simp [unpack_state_init, high_bit_offset]
  p_nonneg := by simp [unpack_state_init, high_word_offset]; omega
  p_lt := by simp [unpack_state_init, high_word_offset]
  head := by simp [unpack_state_init, high_word_offset, high_bit_offset]; ring
  w_eq := by
    -- the high word is word `n - 1`, loaded whole
    have hp : (high_word_offset f).toNat = f.key_u64s.toNat - 1 := by
      simp only [high_word_offset]; omega
    have hw := load_word_eq_keyVal k (n := f.key_u64s.toNat) (q := high_word_offset f)
      (by simp [high_word_offset]; omega) (by simp [high_word_offset])
    have hk := keyVal_lt k f.key_u64s.toNat
    simp only [unpack_state_init, high_bit_offset, Nat.sub_zero, Nat.sub_self, pow_zero,
      Nat.mul_one]
    rw [show ((0 : Nat).toUInt64) = 0 from rfl, UInt64.shiftLeft_zero, hw, hp,
      Nat.mod_eq_of_lt hk, Nat.mod_eq_of_lt]
    rw [Nat.div_lt_iff_lt_mul (Nat.two_pow_pos _), ← pow_add,
      show 64 + 64 * (f.key_u64s.toNat - 1) = 64 * f.key_u64s.toNat by omega]
    exact hk

section UnpackerStep

variable {k : bkey_packed} {n h : Nat} {s : unpack_state} {field : Fin 6}

/-- The unread bits of the current word, as a number: below `2 ^ s.bits`. -/
theorem unpackInv_unread_lt (hinv : UnpackInv k n h s) :
    keyVal k n % 2 ^ h / 2 ^ (64 * s.p.toNat) < 2 ^ s.bits := by
  have hhead := hinv.head
  have hp := hinv.p_nonneg
  rw [mod_two_pow_div_two_pow _ (by omega), show h - 64 * s.p.toNat = s.bits by omega]
  exact Nat.mod_lt _ (Nat.two_pow_pos _)

/-- Reading a field that ends inside the current word. -/
theorem unpackInv_of_lt (hinv : UnpackInv k n h s)
    (hlt : (s.format.bits_per_field.get field).toNat < s.bits) :
    (get_inc_field k s field).1 =
        UInt64.ofNat (keyVal k n % 2 ^ h / 2 ^ (h - (s.format.bits_per_field.get field).toNat)) +
          s.format.field_offset.get field ∧
      UnpackInv k n (h - (s.format.bits_per_field.get field).toNat) (get_inc_field k s field).2 ∧
      (get_inc_field k s field).2.format = s.format := by
  rw [get_inc_field_of_lt k s field hlt]
  set b := (s.format.bits_per_field.get field).toNat with hbdef
  set K := keyVal k n with hK
  set X := K % 2 ^ h / 2 ^ (64 * s.p.toNat) with hX
  have hbits := hinv.bits_le
  have hhead := hinv.head
  have hp := hinv.p_nonneg
  have hXlt : X < 2 ^ s.bits := unpackInv_unread_lt hinv
  have hw : s.w.toNat = X * 2 ^ (64 - s.bits) := hinv.w_eq
  have hsplit : (2 : Nat) ^ (64 - b) = 2 ^ (64 - s.bits) * 2 ^ (s.bits - b) := by
    rw [← pow_add]; congr 1; omega
  -- the field is the top `b` of the `s.bits` unread bits
  have hval : K % 2 ^ h / 2 ^ (h - b) = X / 2 ^ (s.bits - b) := by
    rw [show h - b = 64 * s.p.toNat + (s.bits - b) by omega, pow_add,
      ← Nat.div_div_eq_div_mul]
  have hread : ((0 : UInt64) ||| ((s.w >>> 1) >>> (63 - b).toUInt64)).toNat
      = X / 2 ^ (s.bits - b) := by
    rw [UInt64.zero_or, toNat_shiftRight_one_shiftRight_sixtyThree_sub _ (by omega), hw,
      hsplit, Nat.mul_comm X, Nat.mul_div_mul_left _ _ (Nat.two_pow_pos _)]
  refine ⟨?_, ⟨by simp only; omega, by simp only; omega, hp, hinv.p_lt,
    by simp only; omega, ?_⟩, rfl⟩
  · show ((0 : UInt64) ||| ((s.w >>> 1) >>> (63 - b).toUInt64)) + s.format.field_offset.get field
      = _
    rw [hval, ← hread, UInt64.ofNat_toNat]
  · -- the rest of the word moves up to its top
    show (s.w <<< b.toUInt64).toNat = K % 2 ^ (h - b) / 2 ^ (64 * s.p.toNat) * 2 ^ (64 - (s.bits - b))
    have h64 : (2 : Nat) ^ 64 = 2 ^ (s.bits - b) * 2 ^ (64 - (s.bits - b)) := by
      rw [← pow_add]; congr 1; omega
    have hlhs : (s.w <<< b.toUInt64).toNat = X % 2 ^ (s.bits - b) * 2 ^ (64 - (s.bits - b)) := by
      rw [toNat_shiftLeft_of_lt _ (by omega), hw, Nat.mul_assoc, ← pow_add,
        show 64 - s.bits + b = 64 - (s.bits - b) by omega, h64, Nat.mul_mod_mul_right]
    have hrhs : K % 2 ^ (h - b) / 2 ^ (64 * s.p.toNat) = X % 2 ^ (s.bits - b) := by
      rw [mod_two_pow_div_two_pow _ (by omega), hX, mod_two_pow_div_two_pow _ (by omega),
        Nat.mod_mod_of_dvd _ (pow_dvd_pow 2 (by omega))]
      congr 2
      omega
    rw [hlhs, hrhs]

/-- Reading a field that reaches the end of the current word: the rest of the word,
then the top of the word below, which the read loads. The head stays above bit `0`,
so the load is inside the key. -/
theorem unpackInv_of_ge (hinv : UnpackInv k n h s)
    (hge : s.bits ≤ (s.format.bits_per_field.get field).toNat)
    (hb64 : (s.format.bits_per_field.get field).toNat ≤ 64)
    (hbh : (s.format.bits_per_field.get field).toNat < h) :
    (get_inc_field k s field).1 =
        UInt64.ofNat (keyVal k n % 2 ^ h / 2 ^ (h - (s.format.bits_per_field.get field).toNat)) +
          s.format.field_offset.get field ∧
      UnpackInv k n (h - (s.format.bits_per_field.get field).toNat) (get_inc_field k s field).2 ∧
      (get_inc_field k s field).2.format = s.format := by
  rw [get_inc_field_of_ge k s field hge]
  set b := (s.format.bits_per_field.get field).toNat with hbdef
  set K := keyVal k n with hK
  set X := K % 2 ^ h / 2 ^ (64 * s.p.toNat) with hX
  set r := b - s.bits with hr
  have hbits := hinv.bits_le
  have hbits1 := hinv.bits_pos
  have hhead := hinv.head
  have hp0 := hinv.p_nonneg
  have hpn := hinv.p_lt
  have hp1 : 1 ≤ s.p := by omega
  set P := 64 * (s.p.toNat - 1) with hP
  have hXlt : X < 2 ^ s.bits := unpackInv_unread_lt hinv
  have hw : s.w.toNat = X * 2 ^ (64 - s.bits) := hinv.w_eq
  -- the word below, as a digit of the key
  have hW : (load_word k (next_word s.p)).toNat = K / 2 ^ P % 2 ^ 64 := by
    rw [next_word, load_word_eq_keyVal k (n := n) (q := s.p - 1) (by omega) (by omega)]
    congr 3
    omega
  have hWlt : (load_word k (next_word s.p)).toNat < 2 ^ 64 := UInt64.toNat_lt _
  -- the high part: what is left of the current word, shifted up by `r`
  have hhigh : (s.w >>> (64 - b).toUInt64).toNat = X * 2 ^ r := by
    rw [toNat_shiftRight_of_lt _ (by omega), hw,
      show 64 - s.bits = r + (64 - b) by omega, pow_add, ← Nat.mul_assoc,
      Nat.mul_div_cancel _ (Nat.two_pow_pos _)]
  -- the low part: the top `r` bits of the word below
  have hlow := toNat_shiftRight_one_shiftRight_sixtyThree_sub
    (load_word k (next_word s.p)) (b := r) (by omega)
  have hlowlt : (load_word k (next_word s.p)).toNat / 2 ^ (64 - r) < 2 ^ r :=
    Nat.div_lt_of_lt_mul (by rw [← pow_add, show 64 - r + r = 64 by omega]; exact hWlt)
  have hread : ((s.w >>> (64 - b).toUInt64) |||
      ((load_word k (next_word s.p) >>> 1) >>> (63 - r).toUInt64)).toNat
      = X * 2 ^ r + (load_word k (next_word s.p)).toNat / 2 ^ (64 - r) := by
    rw [toNat_or_of_disjoint _ _ (s := r) (by rw [hhigh]; exact Nat.mul_mod_left _ _)
      (by rw [hlow]; exact hlowlt), hhigh, hlow]
  -- the unread bits above `P` are the current word's rest, then the word below
  have hmid : K % 2 ^ h / 2 ^ P = X * 2 ^ 64 + K / 2 ^ P % 2 ^ 64 := by
    rw [mod_two_pow_div_two_pow _ (by omega), show h - P = 64 + s.bits by omega, pow_add,
      Nat.mod_mul, Nat.div_div_eq_div_mul, ← pow_add, hX,
      mod_two_pow_div_two_pow _ (by omega), show P + 64 = 64 * s.p.toNat by omega,
      show h - 64 * s.p.toNat = s.bits by omega]
    ring
  have hval : K % 2 ^ h / 2 ^ (h - b) = X * 2 ^ r + K / 2 ^ P % 2 ^ 64 / 2 ^ (64 - r) := by
    rw [show h - b = P + (64 - r) by omega, pow_add, ← Nat.div_div_eq_div_mul, hmid,
      show (2 : Nat) ^ 64 = 2 ^ r * 2 ^ (64 - r) by
        rw [← pow_add, Nat.add_sub_cancel' (by omega : r ≤ 64)],
      ← Nat.mul_assoc, Nat.add_comm, Nat.add_mul_div_right _ _ (Nat.two_pow_pos _),
      Nat.add_comm]
  refine ⟨?_, ⟨by simp only; omega, by simp only; omega, by simp only [next_word]; omega,
    by simp only [next_word]; omega, by simp only [next_word]; omega, ?_⟩, rfl⟩
  · show ((s.w >>> (64 - b).toUInt64) |||
        ((load_word k (next_word s.p) >>> 1) >>> (63 - r).toUInt64)) +
        s.format.field_offset.get field = _
    rw [hval, ← hW, ← hread, UInt64.ofNat_toNat]
  · -- the word below becomes the current word, its top `r` bits consumed
    dsimp only
    have hq : 64 * (next_word s.p).toNat = P := by simp only [next_word]; omega
    have h64 : (2 : Nat) ^ 64 = 2 ^ (64 - r) * 2 ^ r := by
      rw [← pow_add, Nat.sub_add_cancel (by omega : r ≤ 64)]
    rw [hq, toNat_shiftLeft_of_lt _ (by omega), h64, Nat.mul_mod_mul_right, hW,
      Nat.mod_mod_of_dvd _ (pow_dvd_pow 2 (by omega)), mod_two_pow_div_two_pow _ (by omega),
      show h - b - P = 64 - r by omega, show 64 - (64 - r) = r by omega]

/-- One field of the unpacker, whatever branch it takes: a field of at most 64 bits
below the head is read whole, and the head moves down past it. -/
theorem unpackInv_get_inc_field (hinv : UnpackInv k n h s)
    (hb64 : (s.format.bits_per_field.get field).toNat ≤ 64)
    (hbh : (s.format.bits_per_field.get field).toNat < h) :
    (get_inc_field k s field).1 =
        UInt64.ofNat (keyVal k n % 2 ^ h / 2 ^ (h - (s.format.bits_per_field.get field).toNat)) +
          s.format.field_offset.get field ∧
      UnpackInv k n (h - (s.format.bits_per_field.get field).toNat) (get_inc_field k s field).2 ∧
      (get_inc_field k s field).2.format = s.format := by
  by_cases hlt : (s.format.bits_per_field.get field).toNat < s.bits
  · exact unpackInv_of_lt hinv hlt
  · exact unpackInv_of_ge hinv (by omega) hb64 hbh

end UnpackerStep

/-- The stream of the fields `ids` with values `x`, at their widths in `f`: what
`unpack_key_fields` reads. -/
def unpackStream (f : bkey_format) (x : Fin 6 → Nat) (ids : List (Fin 6)) : List (Nat × Nat) :=
  ids.map fun id => ((f.bits_per_field.get id).toNat, x id)

/-- No fields make an empty stream. -/
@[simp] theorem unpackStream_nil (f : bkey_format) (x : Fin 6 → Nat) :
    unpackStream f x [] = [] := rfl

/-- A field in front is the first entry of the stream. -/
@[simp] theorem unpackStream_cons (f : bkey_format) (x : Fin 6 → Nat) (id : Fin 6)
    (ids : List (Fin 6)) :
    unpackStream f x (id :: ids) = ((f.bits_per_field.get id).toNat, x id) :: unpackStream f x ids :=
  rfl

/-- The unpacker over a list of fields. When the bits below the head are the stream
of the values `x`, above some `low` bits, each field is read back as its value plus
its offset. -/
theorem unpack_key_fields_spec (k : bkey_packed) (n : Nat) (x : Fin 6 → Nat) :
    ∀ (ids : List (Fin 6)) (s : unpack_state) (out : bkey) (h low : Nat),
      UnpackInv k n h s →
      (∀ id ∈ ids, (s.format.bits_per_field.get id).toNat ≤ 64) →
      Fits (unpackStream s.format x ids) →
      fieldsWidth (unpackStream s.format x ids) < h →
      low < 2 ^ (h - fieldsWidth (unpackStream s.format x ids)) →
      keyVal k n % 2 ^ h = fieldsVal (unpackStream s.format x ids) *
        2 ^ (h - fieldsWidth (unpackStream s.format x ids)) + low →
      (unpack_key_fields k ids s out).1 =
        ids.foldl (fun o id => bkey_set_field o id (UInt64.ofNat (x id) + s.format.field_offset.get id))
          out := by
  intro ids
  induction ids with
  | nil => intro s out h low _ _ _ _ _ _; rfl
  | cons id ids ih =>
      intro s out h low hinv hb64 hfits hwidth hlow hK
      set b := (s.format.bits_per_field.get id).toNat with hb
      set W := fieldsWidth (unpackStream s.format x ids) with hW
      simp only [unpackStream_cons, fieldsWidth_cons] at hfits hwidth hlow hK
      obtain ⟨-, hfits'⟩ := fits_cons.mp hfits
      obtain ⟨hval, hinv', hfmt⟩ :=
        unpackInv_get_inc_field hinv (hb64 id (by simp)) (by omega)
      -- the head sits `W + T` bits above the low bits, with `T` fixed along the run
      have hT : h - b = W + (h - (b + W)) := by omega
      have hread : keyVal k n % 2 ^ h / 2 ^ (h - b) = x id := by
        rw [hK, hT]
        exact fieldsVal_cons_read _ _ hfits' hlow
      have hrest : keyVal k n % 2 ^ (h - b) = fieldsVal (unpackStream s.format x ids) *
          2 ^ (h - b - W) + low := by
        rw [← Nat.mod_mod_of_dvd _ (pow_dvd_pow 2 (Nat.sub_le h b)), hK, hT,
          fieldsVal_cons_rest _ _ hfits' hlow, show W + (h - (b + W)) - W = h - (b + W) by omega]
      show (unpack_key_fields k ids (get_inc_field k s id).2
          (bkey_set_field out id (get_inc_field k s id).1)).1 = _
      rw [List.foldl_cons, hval, hread]
      have hb64' : ∀ i ∈ ids, ((get_inc_field k s id).2.format.bits_per_field.get i).toNat ≤ 64 := by
        rw [hfmt]; exact fun i hi => hb64 i (by simp [hi])
      have := ih (get_inc_field k s id).2 (bkey_set_field out id (UInt64.ofNat (x id) +
        s.format.field_offset.get id)) (h - b) low hinv' hb64'
      rw [hfmt] at this
      exact this hfits' (by omega) (by rwa [show h - b - W = h - (b + W) by omega])
        (by rw [hrest, show h - b - W = h - (b + W) by omega])

/-! ### Closing the stream -/

/-- `pack_state_finish` stores the current word. The key's words from `s.p` up then
hold the stream followed by zero bits down to bit `64 * s.p`, and the words below
`s.p` are as they were. -/
theorem keyVal_pack_state_finish {n c V : Nat} {s : pack_state} {k : bkey_packed}
    (hinv : PackInv n c V s k) :
    keyVal (pack_state_finish s k) n =
      leVal (pack_state_finish s k).bytes 0 (8 * s.p.toNat) + V * 2 ^ (64 * n - c) := by
  have hp0 := hinv.p_nonneg
  have hpn := hinv.p_lt
  have hpos := hinv.pos
  set p := s.p.toNat with hp
  set k' := pack_state_finish s k with hk'
  set U := leVal k.bytes (8 * (s.p + 1)) (8 * (n - 1 - s.p).toNat) with hU
  have hword : leVal k'.bytes (8 * s.p) 8 = s.w.toNat := leVal_store_word_self _ _ _
  -- the words above `s.p` are untouched by the store
  have habove : leVal k'.bytes (8 * s.p + 8) (8 * (n - 1 - p)) = U := by
    rw [hU, show 8 * s.p + 8 = 8 * (s.p + 1) by ring,
      show n - 1 - p = (n - 1 - s.p).toNat by omega]
    apply leVal_congr
    intro x hx _
    exact store_word_bytes_of_not_mem _ _ _ (.inr (by omega))
  have hexp : 64 * n - c = 64 * p + s.bits := by omega
  rw [keyVal, show 8 * n = 8 * p + (8 + 8 * (n - 1 - p)) by omega, leVal_add, leVal_add,
    show ((0 : Int) + ((8 * p : Nat) : Int)) = 8 * s.p by omega,
    show 8 * s.p + ((8 : Nat) : Int) = 8 * s.p + 8 by rfl, hword, habove, hexp]
  have hhigh : 2 ^ (8 * (8 * p)) * (s.w.toNat + 2 ^ (8 * 8) * U) = V * 2 ^ (64 * p + s.bits) :=
    calc 2 ^ (8 * (8 * p)) * (s.w.toNat + 2 ^ (8 * 8) * U)
        = (U * 2 ^ 64 + s.w.toNat) * 2 ^ (64 * p) := by ring
      _ = V * 2 ^ s.bits * 2 ^ (64 * p) := by rw [hinv.val]
      _ = V * 2 ^ (64 * p + s.bits) := by ring
  rw [hhigh]

end Bcachefs.Proofs.Btree
