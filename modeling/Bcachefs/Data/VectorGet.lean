import Mathlib.Tactic.TypeStar

/-!
# `Bcachefs.Data.VectorGet`: fixed-size arrays read with `Vector.get`

The model reads its fixed-size arrays (the six per-field arrays of a key format, the
three skiplist slots of a snapshot) with `Vector.get`, at an index of type `Fin n`, and
writes them with `Vector.set`, whose bound is passed as a named lemma. Neither leaves a
bound for `get_elem_tactic` to prove, so a definition or a statement that indexes an
array carries no proof term of its own. The rules below take the bound of a write as
`i.isLt`; any other proof of it is the same by proof irrelevance, so they rewrite every
write.

These are the read-after-write and read-after-build rules for that access, in the
shapes the proofs rewrite with: `get_set_self`, `get_set_ne`, `get_replicate` and
`get_ofFn`.
-/

set_option autoImplicit false

namespace Bcachefs.Data

variable {α : Type*} {n : Nat}

/-- Reading the slot just written gives the value written. -/
@[simp] theorem get_set_self (v : Vector α n) (i : Fin n) (x : α) :
    (v.set i x i.isLt).get i = x :=
  Vector.getElem_set_self i.isLt

/-- Reading another slot than the one written gives what it held. -/
@[simp] theorem get_set_ne (v : Vector α n) {i j : Fin n} (x : α) (hij : i ≠ j) :
    (v.set i x i.isLt).get j = v.get j :=
  Vector.getElem_set_ne i.isLt j.isLt (Fin.val_ne_of_ne hij)

/-- Every slot of a filled array holds the fill. -/
@[simp] theorem get_replicate (a : α) (i : Fin n) : (Vector.replicate n a).get i = a :=
  Vector.getElem_replicate i.isLt

/-- Slot `i` of an array built from `f` holds `f i`. -/
@[simp] theorem get_ofFn (f : Fin n → α) (i : Fin n) : (Vector.ofFn f).get i = f i :=
  Vector.getElem_ofFn i.isLt

end Bcachefs.Data
