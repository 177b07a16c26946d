import Bcachefs.Util.Limits
import Mathlib.Tactic.Linter.Style

/-!
# `Bcachefs.Util.HumanReadable`: numbers with unit suffixes

`util/util.c` reads the sizes of options and of sysfs files, such as `1.5G`, with
`bch2_strto{int,uint,ll,ull,u64}_h`, and `util/printbuf.c` prints them with
`bch2_prt_human_readable_u64`:

* `parse_u64` reads a run of decimal digits, failing with `-ERANGE` past `U64_MAX`, and
  `bch2_pow` is a power checked for overflow;
* `parse_unit_suffix` skips one space and reads a unit: first a letter of `si_units`, then a
  whole entry of `units_2`, then one of `units_10`. The tables are searched in that order, so a
  letter shadows the longer units that start with it;
* `__bch2_strtou64_h` reads `D[.F]` and a unit of multiplier `b`, and returns
  `D * b + F * b / 10 ^ |F|` after three overflow checks;
* `__bch2_strtoh` reads a sign before and a newline after, requires the end of the string, and
  checks the range it is given; the `STRTO_H` macro gives it the range `ANYSINT_MAX(type)` of
  each of five types;
* `bch2_prt_human_readable_u64` divides by `1024` (`1000` for `si_units`) while the value is at
  least that, and prints the quotient with three significant digits, the last one rounded from
  the remainder of the last division.

A C string is the `List Char` of its characters: `*cp` is its head, and `'\x00'` at its end. A
function that returns a negative error or a count returns `Except Int`, the count with what it
stores through its pointer. `u64` is `UInt64`; the `int` counts, and the `unsigned` locals of the
printer, which stay below `2 ^ 17`, are `Nat`.
-/

set_option autoImplicit false
set_option linter.style.nameCheck false

namespace Bcachefs

/-- `EINVAL` (`include/uapi/asm-generic/errno-base.h`). -/
def EINVAL : Int := 22

/-- `ERANGE` (`include/uapi/asm-generic/errno-base.h`). -/
def ERANGE : Int := 34

/-- `*cp`: the character `cp` points at, the terminating `'\x00'` at the end of the string. -/
def deref (cp : List Char) : Char := cp.headD '\x00'

def si_units : List Char := "?kMGTPEZY".toList

/-- The units of `string_get_size`, in powers of `1024`. -/
def units_2 : List (List Char) :=
  ["B", "KiB", "MiB", "GiB", "TiB", "PiB", "EiB", "ZiB", "YiB"].map String.toList

/-- The units of `string_get_size`, in powers of `1000`. -/
def units_10 : List (List Char) :=
  ["B", "kB", "MB", "GB", "TB", "PB", "EB", "ZB", "YB"].map String.toList

/-! ### Parsing -/

/-- The `do ... while (isdigit(*cp))` loop of `parse_u64` at `cp`, with `v` read so far and `n`
characters consumed. -/
def parse_u64_loop : List Char → UInt64 → Nat → Except Int (Nat × UInt64)
  | [], v, n => .ok (n, v)
  | c :: cp, v, n =>
    if c.isDigit then
      if v > U64_MAX / 10 then .error (-ERANGE)
      else if v * 10 > U64_MAX - (c.toNat - '0'.toNat).toUInt64 then .error (-ERANGE)
      else parse_u64_loop cp (v * 10 + (c.toNat - '0'.toNat).toUInt64) (n + 1)
    else .ok (n, v)

/-- `parse_u64(cp, &v)`: the characters read, and `v`. -/
def parse_u64 (cp : List Char) : Except Int (Nat × UInt64) :=
  if !(deref cp).isDigit then .error (-EINVAL) else parse_u64_loop cp 0 0

/-- The `while (p--)` loop of `bch2_pow`: `p` more factors `n` on `res`. -/
def bch2_pow_loop (n : UInt64) : Nat → UInt64 → Except Int UInt64
  | 0, res => .ok res
  | p + 1, res => if res > U64_MAX / n then .error (-ERANGE) else bch2_pow_loop n p (res * n)

/-- `bch2_pow(n, p, &res)`: `res`. Its callers pass counts as the `u64` `p`, which are `Nat`
here. -/
def bch2_pow (n : UInt64) (p : Nat) : Except Int UInt64 := bch2_pow_loop n p 1

/-- `parse_unit_suffix(cp, &res)`: the characters read, and the multiplier. Each of its `for`
loops returns at the first index whose entry matches, which is `find?` on the entries paired
with their indices; the first starts at `u = 1`, past the `?` of `si_units`. -/
def parse_unit_suffix (cp : List Char) : Except Int (Nat × UInt64) :=
  let adv := if deref cp = ' ' then 1 else 0
  let cp := cp.drop adv
  match (si_units.zipIdx.drop 1).find? (fun p => deref cp == p.1) with
  | some (_, u) => do
    let res ← bch2_pow 1024 u
    pure (adv + 1, res)
  | none =>
    -- `!strncmp(cp, unit, strlen(unit))`: `unit` is a prefix of the string at `cp`
    match units_2.zipIdx.find? (fun p => p.1.isPrefixOf cp) with
    | some (unit, u) => do
      let res ← bch2_pow 1024 u
      pure (adv + unit.length, res)
    | none =>
      match units_10.zipIdx.find? (fun p => p.1.isPrefixOf cp) with
      | some (unit, u) => do
        let res ← bch2_pow 1000 u
        pure (adv + unit.length, res)
      | none => pure (0, 1)

/-- The fraction of `__bch2_strtou64_h`, at `cp` after the integer part: the characters read,
and `f_n` and `f_d`, the digits after a `.` and `10` to their number. -/
def strtou64_h_frac (cp : List Char) : Except Int (Nat × UInt64 × UInt64) :=
  if deref cp = '.' then do
    let (ret, f_n) ← parse_u64 (cp.drop 1)
    let f_d ← bch2_pow 10 ret
    pure (1 + ret, f_n, f_d)
  else pure (0, 0, 1)

/-- `__bch2_strtou64_h(cp, &v)`: the characters read, and `v`. -/
def __bch2_strtou64_h (cp : List Char) : Except Int (Nat × UInt64) := do
  let (n₁, v) ← parse_u64 cp
  let cp₁ := cp.drop n₁
  let (n₂, f_n, f_d) ← strtou64_h_frac cp₁
  let (n₃, b) ← parse_unit_suffix (cp₁.drop n₂)
  if v > U64_MAX / b then throw (-ERANGE)
  let v := v * b
  if f_n > U64_MAX / b then throw (-ERANGE)
  let f_n := f_n * b / f_d
  if v + f_n < v then throw (-ERANGE)
  pure (n₁ + n₂ + n₃, v + f_n)

/-- `__bch2_strtoh(cp, &v, t_max, t_signed)`: `v`. A negative value is stored negated in the
`u64`. -/
def __bch2_strtoh (cp : List Char) (t_max : UInt64) (t_signed : Bool) : Except Int UInt64 := do
  let positive := deref cp != '-'
  let cp := if deref cp = '+' ∨ deref cp = '-' then cp.drop 1 else cp
  let (n, v) ← __bch2_strtou64_h cp
  let cp := cp.drop n
  let cp := if deref cp = '\n' then cp.drop 1 else cp
  if deref cp ≠ '\x00' then throw (-EINVAL)
  if positive then
    if v > t_max then throw (-ERANGE)
    pure v
  else
    if v ≠ 0 ∧ !t_signed then throw (-ERANGE)
    if v > t_max + 1 then throw (-ERANGE)
    pure (-v)

/-- `ANYSINT_MAX(t)` (`util/util.h`) for a type of `size` bytes:
`((((t) 1 << (sizeof(t) * 8 - 2)) - (t) 1) * (t) 2 + (t) 1)`. No step of it leaves the range of
`t`, signed or unsigned, so it is computed on `Nat`. -/
def ANYSINT_MAX (size : Nat) : Nat := ((1 <<< (size * 8 - 2)) - 1) * 2 + 1

/-- `STRTO_H(name, type)`: `bch2_<name>_h(cp, &res)` for a type of `size` bytes whose conversion
from `u64` is `of_u64`. It returns the error of `__bch2_strtoh` or `0`, and stores `v`, which is
still `0` after an error. `ANYSINT_MAX(type)` is passed as a `u64` and compared, in the type,
with `(type) ~0ULL`. -/
def STRTO_H {α : Type} [BEq α] (size : Nat) (of_u64 : UInt64 → α) (cp : List Char) : Int × α :=
  let t_max := (ANYSINT_MAX size).toUInt64
  match __bch2_strtoh cp t_max (of_u64 t_max != of_u64 (~~~0)) with
  | .ok v => (0, of_u64 v)
  | .error ret => (ret, of_u64 0)

def bch2_strtoint_h : List Char → Int × Int32 := STRTO_H 4 (·.toUInt32.toInt32)

def bch2_strtouint_h : List Char → Int × UInt32 := STRTO_H 4 UInt64.toUInt32

def bch2_strtoll_h : List Char → Int × Int64 := STRTO_H 8 UInt64.toInt64

def bch2_strtoull_h : List Char → Int × UInt64 := STRTO_H 8 id

def bch2_strtou64_h : List Char → Int × UInt64 := STRTO_H 8 id

attribute [grind] parse_u64 parse_unit_suffix strtou64_h_frac __bch2_strtou64_h __bch2_strtoh

/-! ### Printing -/

/-- The `while` loop of `bch2_prt_human_readable_u64` from unit `u`: while a unit is `left` after
`u` and `v` is at least `base`, `r = do_div(v, base)` and `u++`. -/
def human_readable_units (base : UInt64) : Nat → UInt64 → Nat → Nat → UInt64 × Nat × Nat
  | 0, v, u, r => (v, u, r)
  | left + 1, v, u, r =>
    if v ≥ base then human_readable_units base left (v / base) (u + 1) (v % base).toNat
    else (v, u, r)

/-- The `units` of `bch2_prt_human_readable_u64`. -/
def human_readable_unit_chars : List Char := ['\x00', 'k', 'M', 'G', 'T', 'P', 'E', 'Z', 'Y']

/-- `prec = v < 10 ? 2 : v < 100 ? 1 : 0`. -/
def human_readable_prec (v : UInt64) : Nat := if v < 10 then 2 else if v < 100 then 1 else 0

/-- `bch2_prt_human_readable_u64(out, v)`: the text it appends to `out`, in units of `1000` when
`out->si_units` is set. `%0*u` pads `frac` with zeros to `prec` digits. -/
def bch2_prt_human_readable_u64 (si_units : Bool) (v : UInt64) : List Char :=
  let units := human_readable_unit_chars
  let base : Nat := if si_units then 1000 else 1024
  let (v, u, r) := human_readable_units base.toUInt64 (units.length - 1) v 0 0
  if u = 0 then Nat.toDigits 10 v.toNat
  else
    let prec := human_readable_prec v
    let scale := if prec = 2 then 100 else if prec = 1 then 10 else 1
    let frac := (r * scale + base / 2) / base
    -- rounded all the way up: carry
    let (frac, v, u, prec) :=
      if frac ≥ scale then
        let v := v + 1
        let (v, u) := if v.toNat ≥ base ∧ u + 1 < units.length then (1, u + 1) else (v, u)
        (0, v, u, human_readable_prec v)
      else (frac, v, u, prec)
    if prec ≠ 0 then
      Nat.toDigits 10 v.toNat ++ '.' :: List.leftpad prec '0' (Nat.toDigits 10 frac) ++
        [units.getD u '\x00']
    else Nat.toDigits 10 v.toNat ++ [units.getD u '\x00']

end Bcachefs
