import Bcachefs.Proofs.Btree.PackStream
import Bcachefs.Proofs.Btree.Format

/-!
# `Bcachefs.Proofs.Btree.Unpack`: what the unpacker reads from any key

`PackStream` follows the unpacker along a stream that the packer wrote. The fast
paths and the comparison work on any key of a node, whatever its bits, so here the
unpacker is described on a key whose words hold an arbitrary number `K`:

* `fieldRead f K h id` is field `id` read with the head at bit `h`: the
  `bits_per_field[id]` bits of `K` below bit `h`, plus the field's offset;
* `readFields f K ids h out` reads the fields `ids` one after the other from bit `h`
  down and sets them into `out`.

`unpack_key_fields_eq_readFields` is the run lemma. From it, for a valid format,
`__bch2_bkey_unpack_key_eq` and `__bkey_unpack_pos_eq` say what the two bit-stream
unpackers return, and `readFields_p` that the position of an unpacked key is the
first three reads.
-/

set_option autoImplicit false
set_option linter.style.nameCheck false

namespace Bcachefs.Proofs.Btree

open Bcachefs.Bits

/-- Field `id` of a key whose words hold `K`, read with the head at bit `h`: its
`bits_per_field[id]` bits below bit `h`, plus its offset. -/
def fieldRead (f : bkey_format) (K h : Nat) (id : Fin 6) : UInt64 :=
  UInt64.ofNat (K % 2 ^ h / 2 ^ (h - (f.bits_per_field.get id).toNat)) + f.field_offset.get id

/-- The fields `ids` read one after the other from bit `h` down, each set into `out`. -/
def readFields (f : bkey_format) (K : Nat) : List (Fin 6) → Nat → bkey → bkey
  | [], _, out => out
  | id :: ids, h, out =>
      readFields f K ids (h - (f.bits_per_field.get id).toNat) (bkey_set_field out id (fieldRead f K h id))

/-- The widths of the fields `ids`, added up. -/
def fieldsBits (f : bkey_format) (ids : List (Fin 6)) : Nat :=
  (ids.map fun id => (f.bits_per_field.get id).toNat).sum

attribute [grind] readFields

/-- No fields take no bits. -/
@[simp] theorem fieldsBits_nil (f : bkey_format) : fieldsBits f [] = 0 := rfl

/-- A field in front adds its width. -/
@[simp] theorem fieldsBits_cons (f : bkey_format) (id : Fin 6) (ids : List (Fin 6)) :
    fieldsBits f (id :: ids) = (f.bits_per_field.get id).toNat + fieldsBits f ids := by
  simp [fieldsBits]

/-- A format's width is the width of its six fields in stream order. -/
theorem formatBits_eq_fieldsBits (f : bkey_format) : formatBits f = fieldsBits f bkey_fields := rfl

/-- The unpacker over a list of fields, on any key: the head starts above the fields
it reads, and each field is what `fieldRead` reads at the head. -/
theorem unpack_key_fields_eq_readFields (k : bkey_packed) (n : Nat) :
    ∀ (ids : List (Fin 6)) (s : unpack_state) (out : bkey) (h : Nat),
      UnpackInv k n h s →
      (∀ id ∈ ids, (s.format.bits_per_field.get id).toNat ≤ 64) →
      fieldsBits s.format ids < h →
      (unpack_key_fields k ids s out).1 = readFields s.format (keyVal k n) ids h out := by
  intro ids
  -- induction on the fields, with the unpacker's state, the key read so far and the head free
  induction ids with
  | nil => intro s out h _ _ _; rfl
  | cons id ids ih =>
      intro s out h hinv hb64 hwidth
      rw [fieldsBits_cons] at hwidth
      obtain ⟨hval, hinv', hfmt⟩ := unpackInv_get_inc_field hinv (hb64 id (by simp)) (by omega)
      show (unpack_key_fields k ids (get_inc_field k s id).2
          (bkey_set_field out id (get_inc_field k s id).1)).1 = _
      have hb64' : ∀ i ∈ ids, ((get_inc_field k s id).2.format.bits_per_field.get i).toNat ≤ 64 := by
        rw [hfmt]; exact fun i hi => hb64 i (by simp [hi])
      rw [hval, ih _ _ _ hinv' hb64' (by rw [hfmt]; omega), hfmt]
      rfl

section Valid

variable {f : bkey_format} (hf : FormatValid f) (k : bkey_packed)
include hf

/-- `__bch2_bkey_unpack_key` reads the six fields from the top of the key down. -/
theorem __bch2_bkey_unpack_key_eq :
    __bch2_bkey_unpack_key f k =
      readFields f (keyVal k f.key_u64s.toNat) bkey_fields (64 * f.key_u64s.toNat)
        { u64s := BKEY_U64s.toUInt8 + k.u64s - f.key_u64s
          format := KEY_FORMAT_CURRENT
          needs_whiteout := k.needs_whiteout
          type := k.type
          pad := 0
          bversion := ⟨0, 0⟩
          size := 0
          p := ⟨0, 0, 0⟩ } := by
  have hroom := hf.room
  rw [formatBits_eq_fieldsBits, KEY_PACKED_BITS_START] at hroom
  -- the head starts at the top of the key, above the header and all six fields
  exact unpack_key_fields_eq_readFields k _ bkey_fields (unpack_state_init f k) _ _
    (unpackInv_init f k hf.key_u64s_pos) (fun i _ => hf.bits_le i) (by
      show fieldsBits f bkey_fields < _
      omega)

/-- `__bkey_unpack_pos` reads the three position fields from the top of the key down. -/
theorem __bkey_unpack_pos_eq :
    __bkey_unpack_pos f k =
      let K := keyVal k f.key_u64s.toNat
      let h₀ := 64 * f.key_u64s.toNat
      let h₁ := h₀ - (f.bits_per_field.get BKEY_FIELD_INODE).toNat
      let h₂ := h₁ - (f.bits_per_field.get BKEY_FIELD_OFFSET).toNat
      { inode := fieldRead f K h₀ BKEY_FIELD_INODE
        offset := fieldRead f K h₁ BKEY_FIELD_OFFSET
        snapshot := (fieldRead f K h₂ BKEY_FIELD_SNAPSHOT).toUInt32 } := by
  have hroom := hf.room_fields
  -- three steps of the unpacker, each with the head above the rest of the fields
  obtain ⟨h0, i0, f0⟩ := unpackInv_get_inc_field (unpackInv_init f k hf.key_u64s_pos)
    (hf.bits_le BKEY_FIELD_INODE) (by simp only [unpack_state_init]; omega)
  rw [unpack_state_init_format f k] at h0 i0 f0
  obtain ⟨h1, i1, f1⟩ := unpackInv_get_inc_field i0
    (by rw [f0]; exact hf.bits_le BKEY_FIELD_OFFSET) (by rw [f0]; omega)
  rw [f0] at h1 i1 f1
  obtain ⟨h2, -, -⟩ := unpackInv_get_inc_field i1
    (by rw [f1]; exact hf.bits_le BKEY_FIELD_SNAPSHOT) (by rw [f1]; omega)
  rw [f1] at h2
  simp only [__bkey_unpack_pos, h0, h1, h2, fieldRead]

end Valid

/-- The position of a key read with `readFields` is its first three reads: the later
fields do not touch it. -/
theorem readFields_p (f : bkey_format) (K h : Nat) (out : bkey) :
    (readFields f K bkey_fields h out).p =
      let h₁ := h - (f.bits_per_field.get BKEY_FIELD_INODE).toNat
      let h₂ := h₁ - (f.bits_per_field.get BKEY_FIELD_OFFSET).toNat
      { inode := fieldRead f K h BKEY_FIELD_INODE
        offset := fieldRead f K h₁ BKEY_FIELD_OFFSET
        snapshot := (fieldRead f K h₂ BKEY_FIELD_SNAPSHOT).toUInt32 } := by
  simp [readFields, bkey_fields, bkey_set_field, BKEY_FIELD_INODE, BKEY_FIELD_OFFSET,
    BKEY_FIELD_SNAPSHOT, BKEY_FIELD_SIZE, BKEY_FIELD_VERSION_HI, BKEY_FIELD_VERSION_LO]

end Bcachefs.Proofs.Btree
