import Bcachefs.Proofs.Btree.PackKey
import Bcachefs.Proofs.Btree.Unpack

/-!
# `Bcachefs.Proofs.Btree.Transform`: repacking a key in another format

`bch2_bkey_transform` moves a key from a format `in_f` to a format `out_f` without
building the unpacked key: its loop reads each field of `in` with the unpacker and at
once writes it to `out` with the packer (`bch2_bkey_transform_key`), and the value words
are copied behind the new key words.

For two formats `bch2_bkey_format_invalid` accepts, `bkey_transform_spec_of_valid` shows
that it succeeds exactly when every field of the key unpacked from `in` lies in `out_f`'s
range, and that then `out` unpacks to that key, with the value words copied unchanged.
`bch2_sort_repack` also hands it keys that are not packed, a `struct bkey` read in
`bch2_bkey_format_current`: that format lays each field over the bytes of its member, so the
key decoded is the `struct bkey` itself (`unpack_key_current_eq_bkey_cast`), and
`bch2_bkey_transform_spec` states both cases.

The proof reduces the loop to the packer run on the unpacked key
(`transform_key_fields_eq`): the unpacker reads the fields in the order the packer writes
them, and in a valid format every value read fits its member of `struct bkey`, so the
unpacked key holds exactly the values read (`fieldRead_lt`). The round trip of
`PackKey` then does the rest, with the transform's header in place of the packer's.
-/

set_option autoImplicit false
set_option linter.style.nameCheck false

namespace Bcachefs.Proofs.Btree

open Bcachefs.Bits

/-! ### Fields read in a valid format -/

/-- A field read in a valid format fits its member of `struct bkey`: the bits read are
below `2 ^ bits`, and the offset leaves room for them. -/
theorem fieldRead_lt {f : bkey_format} (hf : FormatValid f) (K h : Nat) (id : Fin 6) :
    (fieldRead f K h id).toNat < 2 ^ (bch2_bkey_format_current.bits_per_field.get id).toNat := by
  have hoff := hf.offset_add_le id
  have hb64 := hf.bits_le id
  have hcur : 2 ^ (bch2_bkey_format_current.bits_per_field.get id).toNat ≤ 2 ^ 64 :=
    Nat.pow_le_pow_right (by norm_num) (bits_current_le id)
  -- the bits below the head, shifted down, are fewer than the field's width
  have hx : K % 2 ^ h / 2 ^ (h - (f.bits_per_field.get id).toNat) < 2 ^ (f.bits_per_field.get id).toNat := by
    rw [Nat.div_lt_iff_lt_mul (Nat.two_pow_pos _), ← pow_add]
    exact (Nat.mod_lt _ (Nat.two_pow_pos _)).trans_le (Nat.pow_le_pow_right (by norm_num) (by omega))
  have hx64 : K % 2 ^ h / 2 ^ (h - (f.bits_per_field.get id).toNat) < 2 ^ 64 :=
    hx.trans_le (Nat.pow_le_pow_right (by norm_num) hb64)
  rw [fieldRead, UInt64.toNat_add, UInt64.toNat_ofNat', Nat.mod_eq_of_lt hx64,
    Nat.mod_eq_of_lt (by omega)]
  omega

/-- Setting a field to a value that fits its member reads the value back. -/
theorem bkey_field_set_field_self (k : bkey) (id : Fin 6) {v : UInt64}
    (hv : v.toNat < 2 ^ (bch2_bkey_format_current.bits_per_field.get id).toNat) :
    bkey_field (bkey_set_field k id v) id = v := by
  -- the three 32-bit members truncate, which a value that fits survives
  have h32 : ∀ {w : UInt64}, w.toNat < 2 ^ 32 → w.toUInt32.toUInt64 = w := fun hw => by
    apply UInt64.toNat_inj.mp
    rw [UInt32.toNat_toUInt64, UInt64.toNat_toUInt32]
    exact Nat.mod_eq_of_lt hw
  fin_cases id
  · rfl
  · rfl
  · exact h32 hv
  · exact h32 hv
  · exact h32 hv
  · rfl

/-- Setting a field leaves the other fields alone. -/
theorem bkey_field_set_field_of_ne (k : bkey) {id j : Fin 6} (v : UInt64) (h : j ≠ id) :
    bkey_field (bkey_set_field k id v) j = bkey_field k j := by
  fin_cases id <;> fin_cases j <;> first | exact absurd rfl h | rfl

/-- Reading the fields `ids` leaves every other field as it was. -/
theorem bkey_field_readFields_of_not_mem (f : bkey_format) (K : Nat) {j : Fin 6} :
    ∀ (ids : List (Fin 6)) (h : Nat) (out : bkey), j ∉ ids →
      bkey_field (readFields f K ids h out) j = bkey_field out j := by
  intro ids
  -- induction on the fields read, with the head and the key read so far free
  induction ids with
  | nil => intro _ _ _; rfl
  | cons id ids ih =>
      intro h out hj
      rw [List.mem_cons, not_or] at hj
      rw [readFields, ih _ _ hj.2, bkey_field_set_field_of_ne _ _ hj.1]

/-- Reading fields changes only the fields: the header of the key is the one it started
with. -/
theorem readFields_eq_with (f : bkey_format) (K : Nat) :
    ∀ (ids : List (Fin 6)) (h : Nat) (out : bkey), readFields f K ids h out =
      { out with bversion := (readFields f K ids h out).bversion,
                 size := (readFields f K ids h out).size, p := (readFields f K ids h out).p } := by
  intro ids
  induction ids with
  | nil => intro _ _; rfl
  | cons id ids ih =>
      intro h out
      rw [readFields, ih]
      -- each field setter changes one of `bversion`, `size` and `p`
      fin_cases id <;> rfl

/-! ### The loop -/

/-- The loop of `bch2_bkey_transform_key` over distinct fields is the packer's field walk
over the key the unpacker reads: each value read is the unpacked field the packer takes.
The induction is on the fields, with both walks' states and the key read so far
generalized. -/
theorem transform_key_fields_eq {f : bkey_format} (hf : FormatValid f) (k : bkey_packed)
    (n : Nat) :
    ∀ (ids : List (Fin 6)) (in_s : unpack_state) (h : Nat) (out_s : pack_state)
      (out : bkey_packed) (acc : bkey), in_s.format = f → ids.Nodup → UnpackInv k n h in_s →
      fieldsBits f ids < h →
      transform_key_fields k ids in_s out_s out =
        pack_key_fields (readFields f (keyVal k n) ids h acc) ids out_s out := by
  intro ids
  induction ids with
  | nil => intro _ _ _ _ _ _ _ _ _; rfl
  | cons id ids ih =>
      intro in_s h out_s out acc hfmt hnd hinv hwidth
      rw [fieldsBits_cons] at hwidth
      rw [List.nodup_cons] at hnd
      obtain ⟨hval, hinv', hfmt'⟩ := unpackInv_get_inc_field hinv
        (by rw [hfmt]; exact hf.bits_le id) (by rw [hfmt]; omega)
      rw [hfmt] at hval hinv'
      -- the value the packer takes is the one just read
      have hread : bkey_field (readFields f (keyVal k n) (id :: ids) h acc) id =
          (get_inc_field k in_s id).1 := by
        rw [readFields, bkey_field_readFields_of_not_mem _ _ _ _ _ hnd.1,
          bkey_field_set_field_self _ _ (fieldRead_lt hf _ _ _), hval]
        rfl
      rw [pack_key_fields, hread, transform_key_fields]
      generalize hr : get_inc_field k in_s id = r at hval hinv' hfmt'
      rcases r with ⟨v, in_s'⟩
      dsimp only at hval hinv' hfmt' ⊢
      rcases set_inc_field out out_s id v with ⟨_ | _, s', o'⟩
      · rfl
      · dsimp only
        rw [ih in_s' _ s' o' (bkey_set_field acc id v) (hfmt'.trans hfmt) hnd.2 hinv' (by omega),
          readFields, hval]
        rfl

section Valid

variable {in_f : bkey_format} (hin : FormatValid in_f) (out_f : bkey_format)
  (out in_ : bkey_packed)
include hin

/-- `bch2_bkey_transform_key`'s loop is the packer's field walk over the unpacked key. -/
theorem transform_key_fields_init :
    transform_key_fields in_ (List.finRange 6) (unpack_state_init in_f in_)
        (pack_state_init out_f) (store_word out 0 0) =
      pack_key_fields (__bch2_bkey_unpack_key in_f in_) bkey_fields (pack_state_init out_f)
        (store_word out 0 0) := by
  have hroom := hin.room
  rw [formatBits_eq_fieldsBits, KEY_PACKED_BITS_START] at hroom
  -- the loop runs over the six fields in the order of `bkey_fields`, which are distinct
  rw [← bkey_fields_eq_finRange, __bch2_bkey_unpack_key_eq hin]
  exact transform_key_fields_eq hin in_ _ bkey_fields _ _ _ _ _ rfl (by decide)
    (unpackInv_init in_f in_ hin.key_u64s_pos) (by omega)

/-- `bch2_bkey_transform_key` succeeds exactly when the packer's walk over the unpacked key does. -/
theorem bch2_bkey_transform_key_fst :
    (bch2_bkey_transform_key out_f out in_f in_).1 =
      (pack_key_fields (__bch2_bkey_unpack_key in_f in_) bkey_fields (pack_state_init out_f)
        (store_word out 0 0)).1 := by
  unfold bch2_bkey_transform_key
  dsimp only
  rw [transform_key_fields_init hin]
  -- the flag is the walk's whether or not it succeeds
  rcases pack_key_fields (__bch2_bkey_unpack_key in_f in_) bkey_fields (pack_state_init out_f)
    (store_word out 0 0) with ⟨_ | _, s, o⟩ <;> rfl

/-- The header `bch2_bkey_transform_key` writes over the closed stream: no format bits. -/
def transformHeader (k : bkey_packed) (u64s : UInt8) (nw : Bool) (t : UInt8) : bkey_packed :=
  set_type (set_needs_whiteout (set_u64s k u64s) nw) t

/-- A successful walk: the transform closes the stream and writes its header. -/
theorem bch2_bkey_transform_key_eq
    (h : (pack_key_fields (__bch2_bkey_unpack_key in_f in_) bkey_fields (pack_state_init out_f)
      (store_word out 0 0)).1 = true) :
    bch2_bkey_transform_key out_f out in_f in_ =
      (true, transformHeader (pack_state_finish
          (pack_key_fields (__bch2_bkey_unpack_key in_f in_) bkey_fields
            (pack_state_init out_f) (store_word out 0 0)).2.1
          (pack_key_fields (__bch2_bkey_unpack_key in_f in_) bkey_fields
            (pack_state_init out_f) (store_word out 0 0)).2.2)
        (out_f.key_u64s + in_.u64s - in_f.key_u64s) in_.needs_whiteout in_.type) := by
  unfold bch2_bkey_transform_key
  dsimp only
  rw [transform_key_fields_init hin]
  generalize pack_key_fields (__bch2_bkey_unpack_key in_f in_) bkey_fields
    (pack_state_init out_f) (store_word out 0 0) = r at h ⊢
  -- a failed walk contradicts `h`; a successful one is closed and given its header
  rcases r with ⟨_ | _, s, o⟩
  · cases h
  · rfl

end Valid

/-! ### The header -/

section Header

variable (k : bkey_packed) (u64s : UInt8) (nw : Bool) (t : UInt8)

/-- The header stores leave every byte from `3` up as it was. -/
theorem transformHeader_bytes_of_three_le {x : Int} (hx : 3 ≤ x) :
    (transformHeader k u64s nw t).bytes x = k.bytes x := by
  simp only [transformHeader, set_type_bytes, set_needs_whiteout_bytes, set_u64s_bytes]
  rw [if_neg (by omega), if_neg (by omega), if_neg (by omega)]

/-- The header's `u64s` is the one passed in. -/
theorem transformHeader_u64s : (transformHeader k u64s nw t).u64s = u64s := by
  simp [transformHeader, bkey_packed.u64s]

/-- The header's whiteout bit is the one passed in. -/
theorem transformHeader_needs_whiteout : (transformHeader k u64s nw t).needs_whiteout = nw := by
  simp only [transformHeader, bkey_packed.needs_whiteout, set_type_bytes, set_needs_whiteout_bytes]
  -- the bit is stored as `0` or `1` in byte `2`
  cases nw <;> simp <;> omega

/-- The header's type is the one passed in. -/
theorem transformHeader_type : (transformHeader k u64s nw t).type = t := by
  simp [transformHeader, bkey_packed.type]

end Header

/-! ### The value words -/

/-- The copy leaves the bytes in front of its destination alone. -/
theorem memcpy_u64s_bytes_of_lt (dst src : bkey_packed) (d s : Int) (u64s : Nat) {x : Int}
    (hx : x < 8 * d) : (memcpy_u64s dst d src s u64s).bytes x = dst.bytes x := by
  show (if 8 * d ≤ x ∧ x < 8 * (d + u64s) then _ else _) = _
  rw [if_neg (by omega)]

/-- Each copied word is the source's word. -/
theorem load_word_memcpy_u64s (dst src : bkey_packed) (d s : Int) {u64s j : Nat}
    (hj : j < u64s) : load_word (memcpy_u64s dst d src s u64s) (d + j) = load_word src (s + j) := by
  have hwin : leVal (memcpy_u64s dst d src s u64s).bytes (8 * (d + j)) 8 =
      leVal (fun x => src.bytes (x + (8 * s - 8 * d))) (8 * (d + j)) 8 := by
    -- each byte of word `d + j` is the source's byte at the same place in word `s + j`
    apply leVal_congr
    intro x hx1 hx2
    show (if 8 * d ≤ x ∧ x < 8 * (d + u64s) then _ else _) = _
    rw [if_pos ⟨by omega, by push_cast at hx2 ⊢; omega⟩]
    congr 1
    ring
  rw [load_word, load_word, hwin, leVal_shift,
    show 8 * (d + (j : Int)) + (8 * s - 8 * d) = 8 * (s + j) by ring]

/-- `__bch2_bkey_unpack_key` reads only the key's own words. -/
theorem __bch2_bkey_unpack_key_congr {f : bkey_format} (hf : FormatValid f) {k k' : bkey_packed}
    (h : ∀ x : Int, 0 ≤ x → x < 8 * f.key_u64s.toNat → k'.bytes x = k.bytes x) :
    __bch2_bkey_unpack_key f k' = __bch2_bkey_unpack_key f k := by
  have hn := hf.key_u64s_pos
  have hK : keyVal k' f.key_u64s.toNat = keyVal k f.key_u64s.toNat :=
    leVal_congr fun x hx1 hx2 => h x hx1 (by push_cast at hx2; omega)
  rw [__bch2_bkey_unpack_key_eq hf, __bch2_bkey_unpack_key_eq hf, hK]
  -- the header bytes `0 .. 2` are among the key's own
  simp only [bkey_packed.u64s, bkey_packed.needs_whiteout, bkey_packed.type,
    h 0 (by omega) (by omega), h 1 (by omega) (by omega), h 2 (by omega) (by omega)]

/-! ### The transform -/

/-- Repacking between two formats `bch2_bkey_format_invalid` accepts succeeds exactly when
every field of the key unpacked from `in` lies in `out_f`'s range. Then `out` unpacks to
that same key, its length byte is the new key words plus the old value words, and the value
words are copied unchanged. -/
theorem bkey_transform_spec_of_valid (out_f in_f : bkey_format)
    (hout : bch2_bkey_format_invalid out_f = .ok ()) (hin : bch2_bkey_format_invalid in_f = .ok ())
    (out in_ : bkey_packed) :
    ((bch2_bkey_transform out_f out in_f in_).1 = true ↔
        ∀ i : Fin 6, out_f.field_offset.get i ≤ bkey_field (__bch2_bkey_unpack_key in_f in_) i ∧
          (bkey_field (__bch2_bkey_unpack_key in_f in_) i - out_f.field_offset.get i).toNat <
            2 ^ (out_f.bits_per_field.get i).toNat) ∧
      ((bch2_bkey_transform out_f out in_f in_).1 = true →
        __bch2_bkey_unpack_key out_f (bch2_bkey_transform out_f out in_f in_).2 =
            __bch2_bkey_unpack_key in_f in_ ∧
          (bch2_bkey_transform out_f out in_f in_).2.u64s =
            out_f.key_u64s + in_.u64s - in_f.key_u64s ∧
          ∀ j < in_.u64s.toNat - in_f.key_u64s.toNat,
            load_word (bch2_bkey_transform out_f out in_f in_).2 (out_f.key_u64s.toNat + j) =
              load_word in_ (in_f.key_u64s.toNat + j)) := by
  have hvo := (formatValid_iff out_f).mp hout
  have hvi := (formatValid_iff in_f).mp hin
  have hn := hvo.key_u64s_pos
  -- the transform's verdict is the packer's on the unpacked key
  have hfst : (bch2_bkey_transform out_f out in_f in_).1 =
      (pack_key_fields (__bch2_bkey_unpack_key in_f in_) bkey_fields (pack_state_init out_f)
        (store_word out 0 0)).1 := by
    rw [← bch2_bkey_transform_key_fst hvi]
    unfold bch2_bkey_transform
    rcases bch2_bkey_transform_key out_f out in_f in_ with ⟨_ | _, o⟩ <;> rfl
  have hiff : (bch2_bkey_transform out_f out in_f in_).1 = true ↔
      ∀ id ∈ bkey_fields, FieldFits out_f (bkey_field (__bch2_bkey_unpack_key in_f in_) id) id := by
    rw [hfst]
    exact pack_key_fields_fst_iff hvo
  refine ⟨hiff.trans ⟨fun h i => h i (mem_bkey_fields i), fun h i _ => h i⟩, fun htrue => ?_⟩
  have hwalk := hfst ▸ htrue
  -- the stream of the unpacked key's fields, under the transform's header
  have hK := keyVal_of_bytes_eq (k := pack_state_finish
      (pack_key_fields (__bch2_bkey_unpack_key in_f in_) bkey_fields (pack_state_init out_f)
        (store_word out 0 0)).2.1
      (pack_key_fields (__bch2_bkey_unpack_key in_f in_) bkey_fields (pack_state_init out_f)
        (store_word out 0 0)).2.2) hn
    (fun x hx => transformHeader_bytes_of_three_le _ (out_f.key_u64s + in_.u64s - in_f.key_u64s)
      in_.needs_whiteout in_.type hx)
  rw [keyVal_pack_key_fields hvo hwalk] at hK
  have hres : bch2_bkey_transform out_f out in_f in_ = (true, memcpy_u64s
      (transformHeader (pack_state_finish
          (pack_key_fields (__bch2_bkey_unpack_key in_f in_) bkey_fields
            (pack_state_init out_f) (store_word out 0 0)).2.1
          (pack_key_fields (__bch2_bkey_unpack_key in_f in_) bkey_fields
            (pack_state_init out_f) (store_word out 0 0)).2.2)
        (out_f.key_u64s + in_.u64s - in_f.key_u64s) in_.needs_whiteout in_.type)
      out_f.key_u64s.toNat in_ in_f.key_u64s.toNat (in_.u64s.toNat - in_f.key_u64s.toNat)) := by
    unfold bch2_bkey_transform
    rw [bch2_bkey_transform_key_eq hvi out_f out in_ hwalk]
  rw [hres]
  generalize pack_state_finish _ _ = c at hK ⊢
  have hu := transformHeader_u64s c (out_f.key_u64s + in_.u64s - in_f.key_u64s)
    in_.needs_whiteout in_.type
  have hnw := transformHeader_needs_whiteout c (out_f.key_u64s + in_.u64s - in_f.key_u64s)
    in_.needs_whiteout in_.type
  have ht := transformHeader_type c (out_f.key_u64s + in_.u64s - in_f.key_u64s)
    in_.needs_whiteout in_.type
  generalize transformHeader c _ _ _ = o at hK hu hnw ht ⊢
  -- the copy goes behind the key words
  have hframe : ∀ x : Int, 0 ≤ x → x < 8 * out_f.key_u64s.toNat →
      (memcpy_u64s o out_f.key_u64s.toNat in_ in_f.key_u64s.toNat
        (in_.u64s.toNat - in_f.key_u64s.toNat)).bytes x = o.bytes x :=
    fun x _ hx => memcpy_u64s_bytes_of_lt _ _ _ _ _ hx
  refine ⟨?_, by rw [bkey_packed.u64s, hframe 0 le_rfl (by omega), ← bkey_packed.u64s, hu],
    fun j hj => load_word_memcpy_u64s _ _ _ _ hj⟩
  rw [__bch2_bkey_unpack_key_congr hvo hframe]
  -- the stream starts at or above bit `24`, clear of the header
  have hroom := hvo.room
  rw [KEY_PACKED_BITS_START] at hroom
  have hlow : leVal o.bytes 0 3 < 2 ^ (64 * out_f.key_u64s.toNat - formatBits out_f) :=
    (leVal_lt o.bytes 0 3).trans_le (Nat.pow_le_pow_right (by norm_num) (by omega))
  have hK' : keyVal o out_f.key_u64s.toNat =
      leVal o.bytes 0 3 + fieldsVal (packStream out_f (__bch2_bkey_unpack_key in_f in_) bkey_fields) *
        2 ^ (64 * out_f.key_u64s.toNat - formatBits out_f) := by
    rw [hK, show 64 * out_f.key_u64s.toNat - formatBits out_f =
        (64 * out_f.key_u64s.toNat - formatBits out_f - 24) + 24 by omega, pow_add,
      ← Nat.mul_assoc, Nat.mul_div_cancel _ (Nat.two_pow_pos _)]
    ring
  unfold __bch2_bkey_unpack_key
  dsimp only
  rw [unpack_key_fields_packStream hvo _ _ _ ((pack_key_fields_fst_iff hvo).mp hwalk) hlow hK',
    hu, hnw, ht, ← __bch2_bkey_unpack_key]
  -- the header of the unpacked key is the one `in_` gave it
  rw [__bch2_bkey_unpack_key_eq hvi in_]
  refine Eq.trans ?_ (readFields_eq_with in_f _ bkey_fields _ _).symm
  have hu64s : BKEY_U64s.toUInt8 + (out_f.key_u64s + in_.u64s - in_f.key_u64s) - out_f.key_u64s =
      BKEY_U64s.toUInt8 + in_.u64s - in_f.key_u64s := by grind
  rw [hu64s]

/-! ### Repacking a `struct bkey` -/

/-- The bytes `[j, j + l)` of a key whose first `n` words hold `keyVal k n`, read off it. -/
theorem keyVal_window (k : bkey_packed) {j l n : Nat} (h : j + l ≤ 8 * n) :
    keyVal k n % 2 ^ (8 * (j + l)) / 2 ^ (8 * j) = leVal k.bytes j l := by
  rw [keyVal, leVal_mod _ _ h, leVal_div _ _ (Nat.le_add_right j l), Nat.add_sub_cancel_left,
    Int.zero_add]

/-- The memory of a `struct bkey`, decoded in `bch2_bkey_format_current`, is that `struct bkey`:
the current format lays each field over the bytes of its member. Only the format bits and
`pad` are not read; the decoder sets them to `KEY_FORMAT_CURRENT` and `0`. -/
theorem unpack_key_current_eq_bkey_cast (k : bkey_packed) :
    __bch2_bkey_unpack_key bch2_bkey_format_current k =
      { bkey_cast k with format := KEY_FORMAT_CURRENT, pad := 0 } := by
  rw [__bch2_bkey_unpack_key_eq ((formatValid_iff _).mp (by decide)) k]
  -- each member is read from the window of its bytes, from the top of the key down
  have h₀ := keyVal_window k (j := 32) (l := 8) (n := 5) (by norm_num)
  have h₁ := keyVal_window k (j := 24) (l := 8) (n := 5) (by norm_num)
  have h₂ := keyVal_window k (j := 20) (l := 4) (n := 5) (by norm_num)
  have h₃ := keyVal_window k (j := 16) (l := 4) (n := 5) (by norm_num)
  have h₄ := keyVal_window k (j := 12) (l := 4) (n := 5) (by norm_num)
  have h₅ := keyVal_window k (j := 4) (l := 8) (n := 5) (by norm_num)
  have hw : ((5 : UInt8).toNat = 5) ∧ ((64 : UInt8).toNat = 64) ∧ ((32 : UInt8).toNat = 32) :=
    ⟨rfl, rfl, rfl⟩
  norm_num at h₀ h₁ h₂ h₃ h₄ h₅
  norm_num [readFields, bkey_fields, fieldRead, bkey_set_field, bch2_bkey_format_current,
    BKEY_FIELD_INODE, BKEY_FIELD_OFFSET, BKEY_FIELD_SNAPSHOT, BKEY_FIELD_SIZE,
    BKEY_FIELD_VERSION_HI, BKEY_FIELD_VERSION_LO, Vector.get, hw, h₀, h₁, h₂, h₃, h₄, h₅]
  refine ⟨?_, rfl, rfl, rfl, rfl, rfl⟩
  -- `BKEY_U64s - key_u64s` is `0` in the current format
  show (5 : UInt8) + k.u64s - 5 = k.u64s
  exact add_sub_cancel_left 5 k.u64s

/-- `bch2_sort_repack` of a `struct bkey`, read as a key of `bch2_bkey_format_current`: the
repack succeeds exactly when every member of the `struct bkey` lies in `out_f`'s range, and
`out` then unpacks to the `struct bkey`. -/
theorem bkey_transform_current_spec (out_f : bkey_format)
    (hout : bch2_bkey_format_invalid out_f = .ok ()) (out k : bkey_packed) :
    ((bch2_bkey_transform out_f out bch2_bkey_format_current k).1 = true ↔
        ∀ i : Fin 6, out_f.field_offset.get i ≤ bkey_field (bkey_cast k) i ∧
          (bkey_field (bkey_cast k) i - out_f.field_offset.get i).toNat <
            2 ^ (out_f.bits_per_field.get i).toNat) ∧
      ((bch2_bkey_transform out_f out bch2_bkey_format_current k).1 = true →
        __bch2_bkey_unpack_key out_f (bch2_bkey_transform out_f out bch2_bkey_format_current k).2 =
            { bkey_cast k with format := KEY_FORMAT_CURRENT, pad := 0 } ∧
          (bch2_bkey_transform out_f out bch2_bkey_format_current k).2.u64s =
            out_f.key_u64s + k.u64s - bch2_bkey_format_current.key_u64s ∧
          ∀ j < k.u64s.toNat - bch2_bkey_format_current.key_u64s.toNat,
            load_word (bch2_bkey_transform out_f out bch2_bkey_format_current k).2 (out_f.key_u64s.toNat + j) =
              load_word k (bch2_bkey_format_current.key_u64s.toNat + j)) := by
  have h := bkey_transform_spec_of_valid out_f bch2_bkey_format_current hout (by decide) out k
  -- the key read in the current format is the `struct bkey` itself
  rw [unpack_key_current_eq_bkey_cast] at h
  exact h

/-- Repacking between two valid formats, and the case `bch2_sort_repack` has for a key that
is not packed: the memory of a `struct bkey` read in `bch2_bkey_format_current`. -/
theorem bch2_bkey_transform_spec :
    (∀ (out_f in_f : bkey_format), bch2_bkey_format_invalid out_f = .ok () →
      bch2_bkey_format_invalid in_f = .ok () → ∀ (out in_ : bkey_packed),
      ((bch2_bkey_transform out_f out in_f in_).1 = true ↔
          ∀ i : Fin 6, out_f.field_offset.get i ≤ bkey_field (__bch2_bkey_unpack_key in_f in_) i ∧
            (bkey_field (__bch2_bkey_unpack_key in_f in_) i - out_f.field_offset.get i).toNat <
              2 ^ (out_f.bits_per_field.get i).toNat) ∧
        ((bch2_bkey_transform out_f out in_f in_).1 = true →
          __bch2_bkey_unpack_key out_f (bch2_bkey_transform out_f out in_f in_).2 =
              __bch2_bkey_unpack_key in_f in_ ∧
            (bch2_bkey_transform out_f out in_f in_).2.u64s =
              out_f.key_u64s + in_.u64s - in_f.key_u64s ∧
            ∀ j < in_.u64s.toNat - in_f.key_u64s.toNat,
              load_word (bch2_bkey_transform out_f out in_f in_).2 (out_f.key_u64s.toNat + j) =
                load_word in_ (in_f.key_u64s.toNat + j))) ∧
    (∀ (out_f : bkey_format), bch2_bkey_format_invalid out_f = .ok () → ∀ (out k : bkey_packed),
      ((bch2_bkey_transform out_f out bch2_bkey_format_current k).1 = true ↔
          ∀ i : Fin 6, out_f.field_offset.get i ≤ bkey_field (bkey_cast k) i ∧
            (bkey_field (bkey_cast k) i - out_f.field_offset.get i).toNat <
              2 ^ (out_f.bits_per_field.get i).toNat) ∧
        ((bch2_bkey_transform out_f out bch2_bkey_format_current k).1 = true →
          __bch2_bkey_unpack_key out_f (bch2_bkey_transform out_f out bch2_bkey_format_current k).2 =
              { bkey_cast k with format := KEY_FORMAT_CURRENT, pad := 0 } ∧
            (bch2_bkey_transform out_f out bch2_bkey_format_current k).2.u64s =
              out_f.key_u64s + k.u64s - bch2_bkey_format_current.key_u64s ∧
            ∀ j < k.u64s.toNat - bch2_bkey_format_current.key_u64s.toNat,
              load_word (bch2_bkey_transform out_f out bch2_bkey_format_current k).2 (out_f.key_u64s.toNat + j) =
                load_word k (bch2_bkey_format_current.key_u64s.toNat + j))) :=
  ⟨bkey_transform_spec_of_valid, bkey_transform_current_spec⟩

/-- A `struct bkey` whose bytes count up from `5`, repacked by `bch2_sort_repack` into the
current format; and a key of the current format repacked into it. -/
theorem bch2_bkey_transform_spec_current :
    bch2_bkey_format_invalid bch2_bkey_format_current = .ok () ∧
      (((bch2_bkey_transform bch2_bkey_format_current (⟨fun _ => 0⟩ : bkey_packed) bch2_bkey_format_current (⟨fun _ => 0⟩ : bkey_packed)).1 = true ↔
          ∀ i : Fin 6, bch2_bkey_format_current.field_offset.get i ≤
              bkey_field (__bch2_bkey_unpack_key bch2_bkey_format_current (⟨fun _ => 0⟩ : bkey_packed)) i ∧
            (bkey_field (__bch2_bkey_unpack_key bch2_bkey_format_current (⟨fun _ => 0⟩ : bkey_packed)) i -
                bch2_bkey_format_current.field_offset.get i).toNat <
              2 ^ (bch2_bkey_format_current.bits_per_field.get i).toNat) ∧
        ((bch2_bkey_transform bch2_bkey_format_current (⟨fun _ => 0⟩ : bkey_packed) bch2_bkey_format_current (⟨fun _ => 0⟩ : bkey_packed)).1 = true →
          __bch2_bkey_unpack_key bch2_bkey_format_current (bch2_bkey_transform bch2_bkey_format_current (⟨fun _ => 0⟩ : bkey_packed) bch2_bkey_format_current (⟨fun _ => 0⟩ : bkey_packed)).2 =
              __bch2_bkey_unpack_key bch2_bkey_format_current (⟨fun _ => 0⟩ : bkey_packed) ∧
            (bch2_bkey_transform bch2_bkey_format_current (⟨fun _ => 0⟩ : bkey_packed) bch2_bkey_format_current (⟨fun _ => 0⟩ : bkey_packed)).2.u64s =
              bch2_bkey_format_current.key_u64s + (⟨fun _ => 0⟩ : bkey_packed).u64s - bch2_bkey_format_current.key_u64s ∧
            ∀ j < (⟨fun _ => 0⟩ : bkey_packed).u64s.toNat - bch2_bkey_format_current.key_u64s.toNat,
              load_word (bch2_bkey_transform bch2_bkey_format_current (⟨fun _ => 0⟩ : bkey_packed) bch2_bkey_format_current (⟨fun _ => 0⟩ : bkey_packed)).2 (bch2_bkey_format_current.key_u64s.toNat + j) =
                load_word (⟨fun _ => 0⟩ : bkey_packed) (bch2_bkey_format_current.key_u64s.toNat + j))) ∧
      (((bch2_bkey_transform bch2_bkey_format_current (⟨fun _ => 0⟩ : bkey_packed) bch2_bkey_format_current (⟨fun x => (x + 5).toNat.toUInt8⟩ : bkey_packed)).1 = true ↔
          ∀ i : Fin 6, bch2_bkey_format_current.field_offset.get i ≤ bkey_field (bkey_cast (⟨fun x => (x + 5).toNat.toUInt8⟩ : bkey_packed)) i ∧
            (bkey_field (bkey_cast (⟨fun x => (x + 5).toNat.toUInt8⟩ : bkey_packed)) i - bch2_bkey_format_current.field_offset.get i).toNat <
              2 ^ (bch2_bkey_format_current.bits_per_field.get i).toNat) ∧
        ((bch2_bkey_transform bch2_bkey_format_current (⟨fun _ => 0⟩ : bkey_packed) bch2_bkey_format_current (⟨fun x => (x + 5).toNat.toUInt8⟩ : bkey_packed)).1 = true →
          __bch2_bkey_unpack_key bch2_bkey_format_current (bch2_bkey_transform bch2_bkey_format_current (⟨fun _ => 0⟩ : bkey_packed) bch2_bkey_format_current (⟨fun x => (x + 5).toNat.toUInt8⟩ : bkey_packed)).2 =
              { bkey_cast (⟨fun x => (x + 5).toNat.toUInt8⟩ : bkey_packed) with format := KEY_FORMAT_CURRENT, pad := 0 } ∧
            (bch2_bkey_transform bch2_bkey_format_current (⟨fun _ => 0⟩ : bkey_packed) bch2_bkey_format_current (⟨fun x => (x + 5).toNat.toUInt8⟩ : bkey_packed)).2.u64s =
              bch2_bkey_format_current.key_u64s + (⟨fun x => (x + 5).toNat.toUInt8⟩ : bkey_packed).u64s - bch2_bkey_format_current.key_u64s ∧
            ∀ j < (⟨fun x => (x + 5).toNat.toUInt8⟩ : bkey_packed).u64s.toNat - bch2_bkey_format_current.key_u64s.toNat,
              load_word (bch2_bkey_transform bch2_bkey_format_current (⟨fun _ => 0⟩ : bkey_packed) bch2_bkey_format_current (⟨fun x => (x + 5).toNat.toUInt8⟩ : bkey_packed)).2 (bch2_bkey_format_current.key_u64s.toNat + j) =
                load_word (⟨fun x => (x + 5).toNat.toUInt8⟩ : bkey_packed) (bch2_bkey_format_current.key_u64s.toNat + j))) :=
  have hcur : bch2_bkey_format_invalid bch2_bkey_format_current = .ok () := by decide
  ⟨hcur, bch2_bkey_transform_spec.1 _ _ hcur hcur _ _, bch2_bkey_transform_spec.2 _ hcur _ _⟩

end Bcachefs.Proofs.Btree
