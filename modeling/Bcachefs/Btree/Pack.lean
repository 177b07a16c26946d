import Bcachefs.Btree.Bkey

/-!
# `Bcachefs.Btree.Pack`: the bit-stream packer and unpacker

`fs/btree/bkey.c` packs the six fields of a key into the words of a packed key
as one stream of bits, most significant first: field `inode` lands in the top
bits of the high word, and each later field right below the one before. Two
state machines walk the stream.

* `pack_state` with `__set_inc_field` / `set_inc_field` writes fields. The current
  word `w` is filled from the top; `bits` counts the bits still free in it. A field
  wider than what is left is split: its high part closes the current word, which is
  stored at `p`, and its low part opens the next one. The split shifts by
  `(v >> 1) >> (bits - 1)` so that a 64-bit split never shifts by 64.
* `unpack_state` with `get_inc_field` reads fields back. `w` holds the unread bits of
  the current word at its top; a field that reaches the end of the word loads the
  next one, and `(w >> 1) >> (63 - bits)` again avoids a shift by 64.

On top of them sit `bch2_bkey_pack_key`, `__bch2_bkey_unpack_key`,
`__bkey_unpack_pos` and `__bch2_bkey_pack_pos_exact`, and `bch2_bkey_transform`, which runs
an unpacker on one key and a packer on another field by field. `set_inc_field_lossy` and
the underflow roll-up `pack_pos_roll_up` are the parts of the lossy position packers of
`Btree/Node.lean` that work on the stream. The `x(id, field)` lines the
C functions expand `bkey_fields()` into are a walk over `bkey_fields`.

Word pointers are word indices into the key (`p` is word `p`, at bytes
`8 * p .. 8 * p + 7`); `next_word` steps down one word, as it does on a
little-endian machine. The debug-only checks (`EBUG_ON`,
`bch2_bkey_pack_verify`) change nothing when they pass and are left out.
-/

set_option autoImplicit false
set_option linter.style.nameCheck false

namespace Bcachefs

/-- `high_word_offset`: on little-endian machines the most significant word of the
packed fields is the last one. -/
def high_word_offset (f : bkey_format) : Int := (f.key_u64s.toNat : Int) - 1

/-- `high_bit_offset`: `0` on little-endian machines, where the header sits in the
low bits of word `0`, below the packed fields. -/
def high_bit_offset : Nat := 0

/-- `next_word(p)`, `nth_word(p, 1)`: one word lower in memory. -/
def next_word (p : Int) : Int := p - 1

/-! ### Packing -/

structure pack_state where
  format : bkey_format
  /-- bits remaining in current word -/
  bits : Nat
  /-- current word -/
  w : UInt64
  /-- pointer to next word -/
  p : Int

def pack_state_init (format : bkey_format) : pack_state where
  format := format
  bits := 64 - high_bit_offset
  w := 0
  p := high_word_offset format

def pack_state_finish (state : pack_state) (k : bkey_packed) : bkey_packed :=
  store_word k state.p state.w

/-- `__set_inc_field`: append the `bits_per_field[field]` low bits of `v` to the
stream. The caller has checked that `v` fits. -/
def __set_inc_field (k : bkey_packed) (state : pack_state) (field : Fin 6) (v : UInt64) :
    pack_state × bkey_packed :=
  let bits := (state.format.bits_per_field.get field).toNat
  if bits ≠ 0 then
    let (bits, state, k) :=
      if bits > state.bits then
        let bits := bits - state.bits
        -- avoid shift by 64 if bits is 64 - bits is never 0 here:
        let w := state.w ||| ((v >>> 1) >>> (bits - 1).toUInt64)
        let k := store_word k state.p w
        (bits, { state with p := next_word state.p, w := 0, bits := 64 }, k)
      else (bits, state, k)
    let state := { state with bits := state.bits - bits }
    ({ state with w := state.w ||| (v <<< state.bits.toUInt64) }, k)
  else (state, k)

/-- `set_inc_field`: subtract the field's offset and append the result, or report
that `v` does not fit the field. -/
def set_inc_field (k : bkey_packed) (state : pack_state) (field : Fin 6) (v : UInt64) :
    Bool × pack_state × bkey_packed :=
  let bits := (state.format.bits_per_field.get field).toNat
  let offset := state.format.field_offset.get field
  if v < offset then (false, state, k)
  else
    let v := v - offset
    if fls64 v > bits then (false, state, k)
    else
      let (state, k) := __set_inc_field k state field v
      (true, state, k)

/-- The `x(id, field)` lines of `bch2_bkey_pack_key`:
`if (!set_inc_field(&state, id, in->field)) return false;` for each field in turn. -/
def pack_key_fields (i : bkey) : List (Fin 6) → pack_state → bkey_packed →
    Bool × pack_state × bkey_packed
  | [], state, out => (true, state, out)
  | id :: ids, state, out =>
      match set_inc_field out state id (bkey_field i id) with
      | (true, state, out) => pack_key_fields i ids state out
      | (false, state, out) => (false, state, out)

/-- `bch2_bkey_pack_key`: pack the key of `i` (not its value) into `out` in
`format`. Returns `false`, with `out` partly written, when a field does not fit. -/
def bch2_bkey_pack_key (out : bkey_packed) (i : bkey) (format : bkey_format) :
    Bool × bkey_packed :=
  let state := pack_state_init format
  -- `*w = 0`, with `w = out->_data`
  let out := store_word out 0 0
  match pack_key_fields i bkey_fields state out with
  | (false, _, out) => (false, out)
  | (true, state, out) =>
      let out := pack_state_finish state out
      let out := set_u64s out (format.key_u64s + i.u64s - BKEY_U64s.toUInt8)
      let out := set_format out KEY_FORMAT_LOCAL_BTREE
      let out := set_needs_whiteout out i.needs_whiteout
      let out := set_type out i.type
      (true, out)

/-- `for (i = 0; i < n; i++) w[i] = 0;` -/
def zero_words (out : bkey_packed) : Nat → bkey_packed
  | 0 => out
  | n + 1 => store_word (zero_words out n) n 0

/-- `__bch2_bkey_pack_pos_exact`: pack a position, with every other field `0`, or
fail when a position field does not fit. -/
def __bch2_bkey_pack_pos_exact (out : bkey_packed) (i : bpos) (f : bkey_format) :
    Bool × bkey_packed :=
  let state := pack_state_init f
  let out := zero_words out f.key_u64s.toNat
  if i.snapshot.toUInt64 < f.field_offset.get BKEY_FIELD_SNAPSHOT ||
      i.offset < f.field_offset.get BKEY_FIELD_OFFSET ||
      i.inode < f.field_offset.get BKEY_FIELD_INODE then (false, out)
  else
    match set_inc_field out state BKEY_FIELD_INODE i.inode with
    | (false, _, out) => (false, out)
    | (true, state, out) =>
    match set_inc_field out state BKEY_FIELD_OFFSET i.offset with
    | (false, _, out) => (false, out)
    | (true, state, out) =>
    match set_inc_field out state BKEY_FIELD_SNAPSHOT i.snapshot.toUInt64 with
    | (false, _, out) => (false, out)
    | (true, state, out) =>
        let out := pack_state_finish state out
        let out := set_u64s out f.key_u64s
        let out := set_format out KEY_FORMAT_LOCAL_BTREE
        let out := set_type out KEY_TYPE_deleted
        (true, out)

attribute [grind] __set_inc_field pack_key_fields bch2_bkey_pack_key __bch2_bkey_pack_pos_exact

/-! ### Lossy packing of positions -/

/-- `enum bkey_pack_pos_ret`. -/
inductive bkey_pack_pos_ret where
  | BKEY_PACK_POS_EXACT
  | BKEY_PACK_POS_SMALLER
  | BKEY_PACK_POS_FAIL
deriving DecidableEq, Repr

/-- `set_inc_field_lossy`: append `v` less the field's offset or, when that does not fit,
the field's largest value, and return `false`. The caller has checked that the offset is at
most `v`. A field that overflows is narrower than 64 bits, so the shift is below 64. -/
def set_inc_field_lossy (k : bkey_packed) (state : pack_state) (field : Fin 6) (v : UInt64) :
    Bool × pack_state × bkey_packed :=
  let bits := (state.format.bits_per_field.get field).toNat
  let offset := state.format.field_offset.get field
  let v := v - offset
  let (v, ret) :=
    if fls64 v > bits then (~~~((~~~0 : UInt64) <<< bits.toUInt64), false) else (v, true)
  let (state, k) := __set_inc_field k state field v
  (ret, state, k)

/-- The first underflow roll-up of the lossy packers: a snapshot below its offset steps the
position down to the `(inode, offset)` before it, with the largest snapshot.
`!in.offset-- && !in.inode--` borrows from the inode only when the offset was `0`, and
fails (`none`) when both were. The flag is `exact`. -/
def pos_roll_up_snapshot (f : bkey_format) : bpos × Bool → Option (bpos × Bool)
  | (in_, exact) =>
      if in_.snapshot.toUInt64 < f.field_offset.get BKEY_FIELD_SNAPSHOT then
        if in_.offset = 0 ∧ in_.inode = 0 then none
        else
          some ({ inode := if in_.offset = 0 then in_.inode - 1 else in_.inode
                  offset := in_.offset - 1
                  snapshot := KEY_SNAPSHOT_MAX }, false)
      else some (in_, exact)

/-- The second roll-up: an offset below its offset steps the position down to the end of
the inode before, and fails when the inode is `0`. -/
def pos_roll_up_offset (f : bkey_format) : bpos × Bool → Option (bpos × Bool)
  | (in_, exact) =>
      if in_.offset < f.field_offset.get BKEY_FIELD_OFFSET then
        if in_.inode = 0 then none
        else
          some ({ inode := in_.inode - 1, offset := KEY_OFFSET_MAX,
                  snapshot := KEY_SNAPSHOT_MAX }, false)
      else some (in_, exact)

/-- The last check of the roll-up: an inode below its offset fails. -/
def pos_check_inode (f : bkey_format) : bpos × Bool → Option (bpos × Bool)
  | (in_, exact) =>
      if in_.inode < f.field_offset.get BKEY_FIELD_INODE then none else some (in_, exact)

/-- The underflow roll-up at the head of both lossy packers, which repeat it word for word:
the three checks in turn, from `exact = true`; `none` is `BKEY_PACK_POS_FAIL`. -/
def pack_pos_roll_up (f : bkey_format) (in_ : bpos) : Option (bpos × Bool) :=
  ((pos_roll_up_snapshot f (in_, true)).bind (pos_roll_up_offset f)).bind (pos_check_inode f)

attribute [grind] pos_roll_up_snapshot pos_roll_up_offset pos_check_inode

/-! ### Unpacking -/

structure unpack_state where
  format : bkey_format
  /-- bits remaining in current word -/
  bits : Nat
  /-- current word -/
  w : UInt64
  /-- pointer to next word -/
  p : Int

def unpack_state_init (format : bkey_format) (k : bkey_packed) : unpack_state where
  format := format
  bits := 64 - high_bit_offset
  w := load_word k (high_word_offset format) <<< high_bit_offset.toUInt64
  p := high_word_offset format

/-- `get_inc_field`: read the next `bits_per_field[field]` bits of the stream and
add the field's offset. -/
def get_inc_field (k : bkey_packed) (state : unpack_state) (field : Fin 6) :
    UInt64 × unpack_state :=
  let bits := (state.format.bits_per_field.get field).toNat
  let offset := state.format.field_offset.get field
  let (v, bits, state) :=
    if bits ≥ state.bits then
      let v := state.w >>> (64 - bits).toUInt64
      let bits := bits - state.bits
      let p := next_word state.p
      (v, bits, { state with p := p, w := load_word k p, bits := 64 })
    else ((0 : UInt64), bits, state)
  -- avoid shift by 64 if bits is 0 - bits is never 64 here:
  let v := v ||| ((state.w >>> 1) >>> (63 - bits).toUInt64)
  (v + offset, { state with w := state.w <<< bits.toUInt64, bits := state.bits - bits })

/-- The `x(id, field)` lines of `__bch2_bkey_unpack_key`:
`out->field = get_inc_field(&state, id);` for each field in turn. -/
def unpack_key_fields (k : bkey_packed) : List (Fin 6) → unpack_state → bkey →
    bkey × unpack_state
  | [], state, out => (out, state)
  | id :: ids, state, out =>
      let (v, state) := get_inc_field k state id
      unpack_key_fields k ids state (bkey_set_field out id v)

/-- `__bch2_bkey_unpack_key`: the unpacked key of a packed key in `format`. The
fields `bkey_fields()` assigns start out `0` here; each is overwritten. -/
def __bch2_bkey_unpack_key (format : bkey_format) (i : bkey_packed) : bkey :=
  let state := unpack_state_init format i
  let out : bkey :=
    { u64s := BKEY_U64s.toUInt8 + i.u64s - format.key_u64s
      format := KEY_FORMAT_CURRENT
      needs_whiteout := i.needs_whiteout
      type := i.type
      pad := 0
      bversion := ⟨0, 0⟩
      size := 0
      p := ⟨0, 0, 0⟩ }
  (unpack_key_fields i bkey_fields state out).1

/-- `__bkey_unpack_pos`: the three position fields of a packed key. -/
def __bkey_unpack_pos (format : bkey_format) (i : bkey_packed) : bpos :=
  let state := unpack_state_init format i
  let (inode, state) := get_inc_field i state BKEY_FIELD_INODE
  let (offset, state) := get_inc_field i state BKEY_FIELD_OFFSET
  let (snapshot, _) := get_inc_field i state BKEY_FIELD_SNAPSHOT
  { inode := inode, offset := offset, snapshot := snapshot.toUInt32 }

attribute [grind] get_inc_field

/-! ### Repacking -/

/-- The loop of `bch2_bkey_transform_key`:
`if (!set_inc_field(&out_s, i, get_inc_field(&in_s, i))) return false;` for each field in
turn, reading from `in_` and writing to `out`. -/
def transform_key_fields (in_ : bkey_packed) : List (Fin 6) → unpack_state → pack_state →
    bkey_packed → Bool × pack_state × bkey_packed
  | [], _, out_s, out => (true, out_s, out)
  | i :: is, in_s, out_s, out =>
      let (v, in_s) := get_inc_field in_ in_s i
      match set_inc_field out out_s i v with
      | (true, out_s, out) => transform_key_fields in_ is in_s out_s out
      | (false, out_s, out) => (false, out_s, out)

/-- `bch2_bkey_transform_key`: repack the key of `in_`, in `in_f`, into `out` in `out_f`.
It does not set the format bits, which keep the zeros of the cleared first word. -/
def bch2_bkey_transform_key (out_f : bkey_format) (out : bkey_packed) (in_f : bkey_format)
    (in_ : bkey_packed) : Bool × bkey_packed :=
  let out_s := pack_state_init out_f
  let in_s := unpack_state_init in_f in_
  -- `*w = 0`, with `w = out->_data`
  let out := store_word out 0 0
  match transform_key_fields in_ (List.finRange 6) in_s out_s out with
  | (false, _, out) => (false, out)
  | (true, out_s, out) =>
      let out := pack_state_finish out_s out
      let out := set_u64s out (out_f.key_u64s + in_.u64s - in_f.key_u64s)
      let out := set_needs_whiteout out in_.needs_whiteout
      let out := set_type out in_.type
      (true, out)

/-- `memcpy_u64s(dst + d, src + s, u64s)` for word indices `d` into `dst` and `s` into
`src`, two keys that do not overlap. -/
def memcpy_u64s (dst : bkey_packed) (d : Int) (src : bkey_packed) (s : Int) (u64s : Nat) :
    bkey_packed :=
  ⟨fun x => if 8 * d ≤ x ∧ x < 8 * (d + u64s) then src.bytes (x - 8 * d + 8 * s) else dst.bytes x⟩

/-- `bch2_bkey_transform`: repack the key, then copy the value words behind it. The count
`in->u64s - in_f->key_u64s` is the value's length in words, for a key at least as long as
its key words. -/
def bch2_bkey_transform (out_f : bkey_format) (out : bkey_packed) (in_f : bkey_format)
    (in_ : bkey_packed) : Bool × bkey_packed :=
  match bch2_bkey_transform_key out_f out in_f in_ with
  | (false, out) => (false, out)
  | (true, out) =>
      (true, memcpy_u64s out out_f.key_u64s.toNat in_ in_f.key_u64s.toNat
        (in_.u64s.toNat - in_f.key_u64s.toNat))

attribute [grind] bch2_bkey_transform_key

end Bcachefs
