import Bcachefs.Proofs.Btree.PackStream
import Bcachefs.Proofs.Btree.Format

/-!
# `Bcachefs.Proofs.Btree.PackKey`: packing a key and unpacking it again

`bch2_bkey_pack_key` writes the six fields of a key into a packed key in a format
`f`; `__bch2_bkey_unpack_key` reads them back. For every format that
`bch2_bkey_format_invalid` accepts, packing succeeds exactly when every field lies in
its format's range, and then unpacking gives the key back, with the format byte and
the pad of a freshly unpacked key (`bch2_bkey_pack_key_round_trip`).

The proof puts the run lemmas of `PackStream` together:

1. the packer's field walk leaves the stream of the six fields, less their offsets,
   in the words from `s.p` up (`pack_key_fields_spec`); a valid format has room for
   the header below the stream, so `s.p` ends at word `0` or `1`, and the words below
   it are the zeroed word `0` (`keyVal_pack_key_fields`);
2. the header stores write bytes `0 .. 2` only, and the stream starts at or above
   bit `24` (`keyVal_of_bytes_eq`, `keyVal_bch2_bkey_pack_key`);
3. the unpacker's walk reads the stream back from the top of the key
   (`unpack_key_fields_spec`), each field plus its offset being the field itself.
-/

set_option autoImplicit false

namespace Bcachefs.Proofs.Btree

open Bcachefs.Bits

/-! ### The header -/

/-- The key `bch2_bkey_pack_key` leaves after its field walk: the header of a packed
key over the words the walk wrote. -/
def packHeader (k : bkey_packed) (u64s : UInt8) (kk : bkey) : bkey_packed :=
  set_type (set_needs_whiteout (set_format (set_u64s k u64s) KEY_FORMAT_LOCAL_BTREE)
    kk.needs_whiteout) kk.type

section Header

variable (k : bkey_packed) (u64s : UInt8) (kk : bkey)

/-- The header stores leave every byte from `3` up as it was. -/
theorem packHeader_bytes_of_three_le {x : Int} (hx : 3 ≤ x) :
    (packHeader k u64s kk).bytes x = k.bytes x := by
  simp only [packHeader, set_type_bytes, set_needs_whiteout_bytes, set_format_bytes,
    set_u64s_bytes]
  rw [if_neg (by omega), if_neg (by omega), if_neg (by omega), if_neg (by omega)]

/-- The header's `u64s` is the one passed in. -/
theorem packHeader_u64s : (packHeader k u64s kk).u64s = u64s := by
  simp [packHeader, bkey_packed.u64s]

/-- The header's whiteout bit is the key's. -/
theorem packHeader_needs_whiteout : (packHeader k u64s kk).needs_whiteout = kk.needs_whiteout := by
  simp only [packHeader, bkey_packed.needs_whiteout, set_type_bytes, set_needs_whiteout_bytes]
  -- the bit is stored as `0` or `1` in byte `2`
  cases kk.needs_whiteout <;> simp <;> omega

/-- The header's type is the key's. -/
theorem packHeader_type : (packHeader k u64s kk).type = kk.type := by
  simp [packHeader, bkey_packed.type]

end Header

/-- Bytes `0 .. 2` are the low 24 bits of a key: a key that differs from another only
there holds the other's bits from bit 24 up. -/
theorem keyVal_of_bytes_eq {k k' : bkey_packed} {n : Nat} (hn : 1 ≤ n)
    (h : ∀ x, 3 ≤ x → k'.bytes x = k.bytes x) :
    keyVal k' n = leVal k'.bytes 0 3 + 2 ^ 24 * (keyVal k n / 2 ^ 24) := by
  have hhigh : leVal k'.bytes 3 (8 * n - 3) = keyVal k n / 2 ^ 24 := by
    rw [keyVal, show (24 : Nat) = 8 * 3 by rfl, leVal_div _ _ (by omega)]
    exact leVal_congr fun x hx _ => h x (by omega)
  -- split the key at byte `3`; the high part is the other key's
  rw [keyVal, show 8 * n = 3 + (8 * n - 3) by omega, leVal_add, ← hhigh]
  rfl

/-! ### Packing -/

/-- The stream of the packed fields is as wide as their widths in the format. -/
theorem fieldsWidth_packStream (f : bkey_format) (kk : bkey) (ids : List (Fin 6)) :
    fieldsWidth (packStream f kk ids) = (ids.map fun i => (f.bits_per_field.get i).toNat).sum := by
  simp [fieldsWidth, packStream, Function.comp_def]

/-- Fields that fit their format make a stream each of whose values fits its width. -/
theorem fits_packStream {f : bkey_format} {kk : bkey} {ids : List (Fin 6)}
    (h : ∀ id ∈ ids, FieldFits f (bkey_field kk id) id) : Fits (packStream f kk ids) := by
  intro p hp
  obtain ⟨id, hid, rfl⟩ := List.mem_map.mp hp
  exact (h id hid).2

/-- `bch2_bkey_pack_key` returns what its field walk returns. -/
theorem bch2_bkey_pack_key_fst (out : bkey_packed) (kk : bkey) (f : bkey_format) :
    (bch2_bkey_pack_key out kk f).1 =
      (pack_key_fields kk bkey_fields (pack_state_init f) (store_word out 0 0)).1 := by
  unfold bch2_bkey_pack_key
  dsimp only
  -- the flag is the walk's whether or not it succeeds
  rcases pack_key_fields kk bkey_fields (pack_state_init f) (store_word out 0 0) with
    ⟨_ | _, s, o⟩ <;> rfl

/-- When the field walk succeeds, `bch2_bkey_pack_key` closes the stream and writes the
header. -/
theorem bch2_bkey_pack_key_snd {out : bkey_packed} {kk : bkey} {f : bkey_format}
    (h : (pack_key_fields kk bkey_fields (pack_state_init f) (store_word out 0 0)).1 = true) :
    (bch2_bkey_pack_key out kk f).2 =
      packHeader (pack_state_finish
          (pack_key_fields kk bkey_fields (pack_state_init f) (store_word out 0 0)).2.1
          (pack_key_fields kk bkey_fields (pack_state_init f) (store_word out 0 0)).2.2)
        (f.key_u64s + kk.u64s - BKEY_U64s.toUInt8) kk := by
  unfold bch2_bkey_pack_key
  dsimp only
  generalize pack_key_fields kk bkey_fields (pack_state_init f) (store_word out 0 0) = r at h ⊢
  -- a failed walk contradicts `h`; a successful one is closed and given its header
  rcases r with ⟨_ | _, s, o⟩
  · cases h
  · rfl

section Pack

variable {f : bkey_format} (hf : FormatValid f) {out : bkey_packed} {kk : bkey}
include hf

/-- The field walk of `bch2_bkey_pack_key` succeeds exactly when every field fits. -/
theorem pack_key_fields_fst_iff :
    (pack_key_fields kk bkey_fields (pack_state_init f) (store_word out 0 0)).1 = true ↔
      ∀ id ∈ bkey_fields, FieldFits f (bkey_field kk id) id := by
  have hroom := hf.room
  refine (pack_key_fields_spec kk f.key_u64s.toNat bkey_fields (pack_state_init f) _ 0 0
    (packInv_init f _ hf.key_u64s_pos) (fun i _ => hf.bits_le i) ?_).1
  -- a valid format leaves room for the whole stream above the header
  rw [Nat.zero_add, pack_state_init_format f, fieldsWidth_packStream]
  rw [formatBits] at hroom
  omega

/-- A successful field walk followed by `pack_state_finish`: the key's words hold the
stream of the six fields, less their offsets, followed by zero bits down to bit `0`. -/
theorem keyVal_pack_key_fields
    (h : (pack_key_fields kk bkey_fields (pack_state_init f) (store_word out 0 0)).1 = true) :
    keyVal (pack_state_finish
        (pack_key_fields kk bkey_fields (pack_state_init f) (store_word out 0 0)).2.1
        (pack_key_fields kk bkey_fields (pack_state_init f) (store_word out 0 0)).2.2)
      f.key_u64s.toNat =
      fieldsVal (packStream f kk bkey_fields) *
        2 ^ (64 * f.key_u64s.toNat - formatBits f) := by
  have hroom := hf.room
  set r := pack_key_fields kk bkey_fields (pack_state_init f) (store_word out 0 0) with hr
  have hwidth : fieldsWidth (packStream f kk bkey_fields) = formatBits f := by
    rw [fieldsWidth_packStream, formatBits]
  obtain ⟨hinv, -, -, hframe⟩ :=
    (pack_key_fields_spec kk f.key_u64s.toNat bkey_fields (pack_state_init f) _ 0 0
      (packInv_init f _ hf.key_u64s_pos) (fun i _ => hf.bits_le i)
      (by rw [Nat.zero_add, pack_state_init_format f, hwidth]; omega)).2 h
  rw [← hr, pack_state_init_format f, hwidth] at hinv
  simp only [Nat.zero_mul, Nat.zero_add] at hinv
  rw [← hr] at hframe
  have hpos := hinv.pos
  have hp0 := hinv.p_nonneg
  -- a valid format leaves less than a word above the header, so the stream ends in
  -- word `0` or `1`, and below it lies only the zeroed word `0`
  have hp1 : r.2.1.p.toNat ≤ 1 := by
    rw [KEY_PACKED_BITS_START] at hroom
    omega
  have hlow : leVal (pack_state_finish r.2.1 r.2.2).bytes 0 (8 * r.2.1.p.toNat) = 0 := by
    have hcongr : leVal (pack_state_finish r.2.1 r.2.2).bytes 0 (8 * r.2.1.p.toNat)
        = leVal (store_word out 0 0).bytes 0 (8 * r.2.1.p.toNat) := by
      apply leVal_congr
      intro x _ hx
      rw [pack_state_finish, store_word_bytes_of_not_mem _ _ _ (.inl (by omega))]
      exact hframe x (by omega)
    have hzero : leVal (store_word out 0 0).bytes 0 8 = 0 := by
      simpa using leVal_store_word_self out 0 0
    rw [hcongr, ← leVal_mod _ _ (by omega : 8 * r.2.1.p.toNat ≤ 8), hzero, Nat.zero_mod]
  rw [keyVal_pack_state_finish hinv, hlow, Nat.zero_add]

/-- The key `bch2_bkey_pack_key` returns on success: the header in bytes `0 .. 2` and
the stream of the six fields above it. -/
theorem keyVal_bch2_bkey_pack_key
    (h : (bch2_bkey_pack_key out kk f).1 = true) :
    keyVal (bch2_bkey_pack_key out kk f).2 f.key_u64s.toNat =
      leVal (bch2_bkey_pack_key out kk f).2.bytes 0 3 +
        fieldsVal (packStream f kk bkey_fields) *
          2 ^ (64 * f.key_u64s.toNat - formatBits f) := by
  have hroom := hf.room
  rw [bch2_bkey_pack_key_fst] at h
  rw [bch2_bkey_pack_key_snd h,
    keyVal_of_bytes_eq hf.key_u64s_pos (fun x hx => packHeader_bytes_of_three_le _ _ _ hx),
    keyVal_pack_key_fields hf h]
  congr 1
  -- the stream starts at or above bit `24`, clear of the header
  rw [KEY_PACKED_BITS_START] at hroom
  rw [show 64 * f.key_u64s.toNat - formatBits f = (64 * f.key_u64s.toNat - formatBits f - 24) + 24
      by omega, pow_add, ← Nat.mul_assoc, Nat.mul_div_cancel _ (Nat.two_pow_pos _)]
  ring

end Pack

/-! ### The round trip -/

/-- A key at position `1:2:3`, of size `8`, with no value. -/
def sampleKey : bkey where
  u64s := 5
  format := 1
  needs_whiteout := false
  type := 0
  pad := 0
  bversion := ⟨0, 0⟩
  size := 8
  p := ⟨1, 2, 3⟩

/-- Unpacking a key whose words hold the stream of the fields of `kk`, less their
offsets, above any low bits, gives back the fields of `kk`. -/
theorem unpack_key_fields_packStream {f : bkey_format} (hf : FormatValid f) (kk : bkey)
    (k : bkey_packed) (out : bkey) {low : Nat}
    (hfits : ∀ id ∈ bkey_fields, FieldFits f (bkey_field kk id) id)
    (hlow : low < 2 ^ (64 * f.key_u64s.toNat - formatBits f))
    (hK : keyVal k f.key_u64s.toNat =
      low + fieldsVal (packStream f kk bkey_fields) *
        2 ^ (64 * f.key_u64s.toNat - formatBits f)) :
    (unpack_key_fields k bkey_fields (unpack_state_init f k) out).1 =
      { out with bversion := kk.bversion, size := kk.size, p := kk.p } := by
  have hroom := hf.room
  have hwidth : fieldsWidth (unpackStream f (fun id => (bkey_field kk id - f.field_offset.get id).toNat)
      bkey_fields) = formatBits f := fieldsWidth_packStream f kk bkey_fields
  have hKlt := keyVal_lt k f.key_u64s.toNat
  have hrun := unpack_key_fields_spec k f.key_u64s.toNat
    (fun id => (bkey_field kk id - f.field_offset.get id).toNat) bkey_fields
    (unpack_state_init f k) out (64 * f.key_u64s.toNat) low
    (unpackInv_init f k hf.key_u64s_pos) (fun i _ => hf.bits_le i) (fits_packStream hfits)
    (by rw [unpack_state_init_format f k, hwidth, KEY_PACKED_BITS_START] at *
        omega)
    (by rw [unpack_state_init_format f k, hwidth]; exact hlow)
    (by rw [unpack_state_init_format f k, hwidth, Nat.mod_eq_of_lt hKlt, hK,
          Nat.add_comm]; rfl)
  rw [hrun, unpack_state_init_format f k]
  -- each field comes back as its value less the offset, plus the offset
  simp only [UInt64.ofNat_toNat, sub_add_cancel]
  exact foldl_bkey_set_field_self kk out

/-- Packing a key into a valid format succeeds exactly when every field lies in the
format's range, and then unpacking the packed key gives the key back, with the
format and the pad of an unpacked key. -/
theorem bch2_bkey_pack_key_round_trip (f : bkey_format) (kk : bkey) (out : bkey_packed)
    (hf : bch2_bkey_format_invalid f = .ok ()) :
    ((bch2_bkey_pack_key out kk f).1 = true ↔
        ∀ i : Fin 6, f.field_offset.get i ≤ bkey_field kk i ∧
          (bkey_field kk i - f.field_offset.get i).toNat < 2 ^ (f.bits_per_field.get i).toNat) ∧
      ((bch2_bkey_pack_key out kk f).1 = true →
        __bch2_bkey_unpack_key f (bch2_bkey_pack_key out kk f).2 =
          { kk with format := KEY_FORMAT_CURRENT, pad := 0 }) := by
  have hv := (formatValid_iff f).mp hf
  have hiff : (bch2_bkey_pack_key out kk f).1 = true ↔
      ∀ id ∈ bkey_fields, FieldFits f (bkey_field kk id) id := by
    rw [bch2_bkey_pack_key_fst]
    exact pack_key_fields_fst_iff hv
  refine ⟨hiff.trans ⟨fun h i => h i (mem_bkey_fields i), fun h i _ => h i⟩, fun htrue => ?_⟩
  have hroom := hv.room
  have hlow : leVal (bch2_bkey_pack_key out kk f).2.bytes 0 3 <
      2 ^ (64 * f.key_u64s.toNat - formatBits f) := by
    have h3 := leVal_lt (bch2_bkey_pack_key out kk f).2.bytes 0 3
    rw [KEY_PACKED_BITS_START] at hroom
    exact h3.trans_le (Nat.pow_le_pow_right (by norm_num) (by omega))
  unfold __bch2_bkey_unpack_key
  dsimp only
  rw [unpack_key_fields_packStream hv kk _ _ (hiff.mp htrue) hlow
    (keyVal_bch2_bkey_pack_key hv htrue)]
  -- the header: `u64s` goes through `key_u64s + u64s - 5` and back
  have hpack := bch2_bkey_pack_key_snd ((bch2_bkey_pack_key_fst out kk f) ▸ htrue)
  rw [hpack, packHeader_u64s, packHeader_needs_whiteout, packHeader_type]
  have hu64s : BKEY_U64s.toUInt8 + (f.key_u64s + kk.u64s - BKEY_U64s.toUInt8) - f.key_u64s =
      kk.u64s := by grind
  rw [hu64s]

/-- The key at position `1:2:3` in the current format: the format passes validation,
and the round trip holds. -/
theorem bch2_bkey_pack_key_round_trip_current :
    bch2_bkey_format_invalid bch2_bkey_format_current = .ok () ∧
      (((bch2_bkey_pack_key ⟨fun _ => 0⟩ sampleKey bch2_bkey_format_current).1 = true ↔
        ∀ i : Fin 6, bch2_bkey_format_current.field_offset.get i ≤ bkey_field sampleKey i ∧
          (bkey_field sampleKey i - bch2_bkey_format_current.field_offset.get i).toNat <
            2 ^ (bch2_bkey_format_current.bits_per_field.get i).toNat) ∧
      ((bch2_bkey_pack_key ⟨fun _ => 0⟩ sampleKey bch2_bkey_format_current).1 = true →
        __bch2_bkey_unpack_key bch2_bkey_format_current
            (bch2_bkey_pack_key ⟨fun _ => 0⟩ sampleKey bch2_bkey_format_current).2 =
          { sampleKey with format := KEY_FORMAT_CURRENT, pad := 0 })) :=
  have hcur : bch2_bkey_format_invalid bch2_bkey_format_current = .ok () := by decide
  ⟨hcur, bch2_bkey_pack_key_round_trip bch2_bkey_format_current sampleKey ⟨fun _ => 0⟩ hcur⟩

end Bcachefs.Proofs.Btree
