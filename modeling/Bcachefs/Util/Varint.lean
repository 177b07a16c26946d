import Bcachefs.Util.Eytzinger
import Bcachefs.Bits.LeBytes
import Bcachefs.Btree.Bkey

/-!
# `Bcachefs.Util.Varint`: variable-length integers

`util/varint.c` writes a `u64` in one to nine bytes. Below nine bytes the value is shifted up
by the byte count `bytes` and the low `bytes - 1` bits are set: the first byte's lowest clear
bit, `ffz(*in)`, tells the decoder the length. A value of more than 56 bits takes the byte
`0xff` and then all eight of its bytes.

The buffers are byte memories with the pointer at address `0` (`Bits.LeBytes`): the encoders
return the memory at `out` after the call with the count they return, and the decoders take
`end` as its offset `e` from `in` and return the count and `*out`, `none` for
`-BCH_ERR_varint_decode_error`. The fast routines may read and write eight bytes whatever the
length: those bytes are there in the model's memory.
-/

set_option autoImplicit false

namespace Bcachefs

open Bcachefs.Bits

/-- `ffz`: the index of the lowest clear bit, `__ffs(~x)`. -/
def ffz (x : UInt64) : UInt64 := __ffs (~~~x)

/-- `bch2_varint_encode`: the memory at `out` after the call, and the count it returns. -/
def bch2_varint_encode (out : Int → UInt8) (v : UInt64) : (Int → UInt8) × Nat :=
  let bits := fls64 (v ||| 1)
  let bytes := DIV_ROUND_UP bits 7
  if bytes < 9 then
    -- `~(~0U << (bytes - 1))` is an `unsigned`, widened by the `|=`
    let v := (v <<< bytes.toUInt64) ||| (~~~((~~~(0 : UInt32)) <<< (bytes - 1).toUInt32)).toUInt64
    (storeLe out 0 bytes v.toNat, bytes)
  else
    (storeLe (storeLe out 0 1 255) 1 8 v.toNat, 9)

/-- `bch2_varint_decode` of the bytes at `input`, with `end` at `input + e`. -/
def bch2_varint_decode (input : Int → UInt8) (e : Int) : Option (Nat × UInt64) :=
  let bytes := if 0 < e then (ffz (input 0).toUInt64).toNat + 1 else 1
  if e < bytes then none
  else if bytes < 9 then
    -- `memcpy(&v_le, in, bytes)` into a zeroed word
    some (bytes, (leVal input 0 bytes).toUInt64 >>> bytes.toUInt64)
  else
    some (bytes, (leVal input 1 8).toUInt64)

/-- `bch2_varint_encode_fast`: as `bch2_varint_encode`, with eight bytes stored at once. -/
def bch2_varint_encode_fast (out : Int → UInt8) (v : UInt64) : (Int → UInt8) × Nat :=
  let bits := fls64 (v ||| 1)
  let bytes := DIV_ROUND_UP bits 7
  if bytes < 9 then
    let v := (v <<< bytes.toUInt64) ||| (~~~((~~~(0 : UInt32)) <<< (bytes - 1).toUInt32)).toUInt64
    (storeLe out 0 8 v.toNat, bytes)
  else
    (storeLe (storeLe out 0 1 255) 1 8 v.toNat, 9)

/-- `bch2_varint_decode_fast`: one eight-byte load, masked to the value's `7 * bytes` bits. It
reads `*in` whether or not `in < end`. -/
def bch2_varint_decode_fast (input : Int → UInt8) (e : Int) : Option (Nat × UInt64) :=
  let v := (leVal input 0 8).toUInt64
  let bytes := (ffz (input 0).toUInt64).toNat + 1
  if e < bytes then none
  else if bytes < 9 then
    some (bytes, (v >>> bytes.toUInt64) &&& ~~~((~~~(0 : UInt64)) <<< (7 * bytes).toUInt64))
  else
    some (bytes, (leVal input 1 8).toUInt64)

end Bcachefs
