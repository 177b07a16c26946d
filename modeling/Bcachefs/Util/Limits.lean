import Mathlib.Tactic.TypeStar

/-!
# `Bcachefs.Util.Limits`: the limits of `include/linux/kernel.h`
-/

namespace Bcachefs

/-- `U32_MAX`. -/
def U32_MAX : UInt32 := 0xffffffff

/-- `U64_MAX`. -/
def U64_MAX : UInt64 := ~~~0

end Bcachefs
