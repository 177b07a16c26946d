import Mathlib.Logic.Function.Basic
import Mathlib.Algebra.Group.Nat.Defs

/-!
# `Bcachefs.Ring.Window`: a window of a ring of slots

A ring buffer holds its entries in the slots of a memory taken modulo the buffer's size `M`:
the `n` entries from position `s` on are the slots `(s + k) % M` for `k < n`
(`window data M s n`). Positions run free; only their residues name slots. The theorems say
what the operations of a ring buffer do to the window:

* `window_succ` / `window_succ_left`: one entry more at the back, or at the front.
* `window_update_back` / `window_update_front`: a write into the slot behind the window, or
  the one in front of it, appends or prepends the value while the window leaves a slot free;
  `mod_ne_of_lt`, that distinct positions less than `M` apart have distinct slots, is what
  keeps the other entries.
* `window_congr`: positions with one residue give one window.
* `window_double`: a memory of twice the size whose two halves copy the old one holds the
  same windows.
* `epoch_add_slot`: positions also wrap, at a multiple `W` of `M`. A slot of the window, with
  the epoch (`M * (x / M)`) of its first position when the slot is not below the first
  position's, and else the epoch of the position past the window, is its position again.

`BoundedDeque` is what a ring buffer is for: a list of at most `bound` entries, pushed and
popped at both ends, and grown by doubling its bound.

Nothing here names the file system; the module is the ring-buffer library of the FIFO model.
-/

set_option autoImplicit false

namespace Bcachefs.Ring

variable {α : Type*}

/-- The `n` slots of `data` from position `s` on, positions taken modulo `M`. -/
def window (data : Nat → α) (M s n : Nat) : List α :=
  (List.range n).map fun k => data ((s + k) % M)

variable {data : Nat → α} {M s n : Nat}

/-- A window of `n` slots has `n` entries. -/
@[simp] theorem length_window : (window data M s n).length = n := by
  simp [window]

/-- A window of no slots is empty. -/
@[simp] theorem window_zero : window data M s 0 = [] := rfl

/-- Entry `k` of a window is the slot of position `s + k`. -/
theorem getElem_window {k : Nat} (hk : k < (window data M s n).length) :
    (window data M s n)[k] = data ((s + k) % M) := by
  simp [window]

/-- One entry more at the back. -/
theorem window_succ : window data M s (n + 1) = window data M s n ++ [data ((s + n) % M)] := by
  simp [window, List.range_succ]

/-- One entry more at the front: the first slot, then the window one position on. -/
theorem window_succ_left :
    window data M s (n + 1) = data (s % M) :: window data M (s + 1) n := by
  simp only [window, List.range_succ_eq_map, List.map_cons, List.map_map, Nat.add_zero]
  -- entry `k + 1` from `s` is entry `k` from `s + 1`
  congr 1
  apply List.map_congr_left
  intro k _
  simp only [Function.comp_apply]
  rw [Nat.succ_eq_add_one, Nat.add_comm k 1, Nat.add_assoc]

/-- Positions with one residue give one window. -/
theorem window_congr {s' : Nat} (h : s % M = s' % M) : window data M s n = window data M s' n := by
  unfold window
  apply List.map_congr_left
  intro k _
  rw [Nat.add_mod, h, ← Nat.add_mod]

/-- A window reads only its own slots. -/
theorem window_congr_data {data' : Nat → α}
    (h : ∀ k < n, data' ((s + k) % M) = data ((s + k) % M)) :
    window data' M s n = window data M s n := by
  unfold window
  apply List.map_congr_left
  intro k hk
  exact h k (List.mem_range.1 hk)

/-- Distinct positions less than `M` apart have distinct slots. -/
theorem mod_ne_of_lt {k l : Nat} (hk : k < l) (hl : l < M) : (s + k) % M ≠ (s + l) % M := by
  intro h
  have hdvd : (s + l - (s + k)) % M = 0 := Nat.sub_mod_eq_zero_of_mod_eq h.symm
  rw [show s + l - (s + k) = l - k by omega, Nat.mod_eq_of_lt (by omega)] at hdvd
  omega

/-- A write into the slot behind the window appends the value, while a slot is free. -/
theorem window_update_back (hn : n < M) (x : α) :
    window (Function.update data ((s + n) % M) x) M s (n + 1) = window data M s n ++ [x] := by
  rw [window_succ, Function.update_self, window_congr_data]
  intro k hk
  exact Function.update_of_ne (mod_ne_of_lt hk hn) _ _

/-- A write into the slot in front of the window prepends the value, while a slot is free:
the window then starts one position earlier, at `s'`. -/
theorem window_update_front (hn : n < M) (x : α) {s' : Nat} (hs : (s' + 1) % M = s % M) :
    window (Function.update data (s' % M) x) M s' (n + 1) = x :: window data M s n := by
  rw [window_succ_left, Function.update_self, window_congr hs, window_congr_data]
  intro k hk
  -- the slot of `s + k` is that of `s' + (k + 1)`, within `M` of `s'`
  have hslot : (s + k) % M = (s' + (k + 1)) % M := by
    rw [Nat.add_mod, ← hs, ← Nat.add_mod, Nat.add_assoc, Nat.add_comm 1 k]
  have hne : (s' + 0) % M ≠ (s' + (k + 1)) % M := mod_ne_of_lt (Nat.succ_pos k) (by omega)
  rw [hslot]
  exact Function.update_of_ne (Ne.symm hne) _ _

/-- A memory of twice the size whose halves both copy the old one holds the same windows. -/
theorem window_double {data' : Nat → α} (hM : 0 < M)
    (h : ∀ j < 2 * M, data' j = data (j % M)) : window data' (2 * M) s n = window data M s n := by
  unfold window
  apply List.map_congr_left
  intro k _
  rw [h _ (Nat.mod_lt _ (by omega)), Nat.mod_mul_left_mod]

/-- Division and remainder of `a + M * q` for `a < 2 * M`: the quotient goes up by one exactly
when `a` reaches `M`. -/
theorem add_mul_div_mod_of_lt_two_mul {a q : Nat} (hM : 0 < M) (ha : a < 2 * M) :
    (a + M * q) / M = (if a < M then q else q + 1) ∧
      (a + M * q) % M = (if a < M then a else a - M) := by
  rw [Nat.add_mul_div_left _ _ hM, Nat.add_mul_mod_self_left]
  by_cases h : a < M
  · rw [if_pos h, if_pos h, Nat.div_eq_of_lt h, Nat.mod_eq_of_lt h]
    exact ⟨Nat.zero_add q, rfl⟩
  -- `a` is in `[M, 2 * M)`: one more `M`, and `a - M` left
  · have hdiv : a / M = 1 := Nat.div_eq_of_lt_le (by omega) (by omega)
    rw [if_neg h, if_neg h, hdiv, Nat.mod_eq_sub_mod (by omega), Nat.mod_eq_of_lt (by omega)]
    exact ⟨Nat.add_comm 1 q, rfl⟩

/-- A position `k < u` into a window of `u ≤ M` positions from `F < W`, all positions taken
modulo a multiple `W` of `M`: its slot, with the epoch of `F` when the slot is not below `F`'s
and else the epoch of the end `F + u`, is the position. -/
theorem epoch_add_slot {W F k u : Nat} (hMW : M ∣ W) (hM : 0 < M) (hF : F < W) (hk : k < u)
    (hu : u ≤ M) :
    (if (F + k) % W % M ≥ F % M then M * (F / M) else M * ((F + u) % W / M)) +
      (F + k) % W % M = (F + k) % W := by
  obtain ⟨t, rfl⟩ := hMW
  have hq : F / M < t := by
    rw [Nat.div_lt_iff_lt_mul hM, Nat.mul_comm]
    exact hF
  have ha : F % M < M := Nat.mod_lt _ hM
  have hFdec : F = F % M + M * (F / M) := (Nat.mod_add_div F M).symm
  -- the position's slot and epoch, through its quotient by `M` before the wrap at `W`
  have hslot : (F + k) % (M * t) % M = (F + k) % M := Nat.mod_mul_right_mod _ _ _
  have hepoch : (F + k) % (M * t) / M = (F + k) / M % t := Nat.mod_mul_right_div_self _ _ _
  have hend : (F + u) % (M * t) / M = (F + u) / M % t := Nat.mod_mul_right_div_self _ _ _
  obtain ⟨hkd, hkm⟩ := add_mul_div_mod_of_lt_two_mul (a := F % M + k) (q := F / M) hM (by omega)
  obtain ⟨hud, -⟩ := add_mul_div_mod_of_lt_two_mul (a := F % M + u) (q := F / M) hM (by omega)
  rw [show F % M + k + M * (F / M) = F + k by omega] at hkd hkm
  rw [show F % M + u + M * (F / M) = F + u by omega] at hud
  have hdm := Nat.div_add_mod ((F + k) % (M * t)) M
  rw [hslot, hkm]
  rw [hepoch, hkd, hslot, hkm] at hdm
  by_cases hwrap : F % M + k < M
  · -- the slot follows `F`'s within `F`'s epoch
    rw [if_pos hwrap, if_pos (by omega)]
    rw [if_pos hwrap, if_pos hwrap, Nat.mod_eq_of_lt hq] at hdm
    exact hdm
  · -- the slot is in the next epoch, which the end `F + u` reaches as well
    rw [if_neg hwrap, if_neg (by omega), hend, hud, if_neg (by omega)]
    rw [if_neg hwrap, if_neg hwrap] at hdm
    exact hdm

/-! ### The bounded deque -/

/-- A deque of at most `bound` entries. -/
structure BoundedDeque (α : Type*) where
  entries : List α
  bound : Nat
  length_le : entries.length ≤ bound

namespace BoundedDeque

variable (d : BoundedDeque α)

/-- Append at the back, while there is room. -/
def pushBack (x : α) : Option (BoundedDeque α) :=
  if h : d.entries.length < d.bound then
    some ⟨d.entries ++ [x], d.bound, by rw [List.length_append, List.length_singleton]; omega⟩
  else none

/-- Prepend at the front, while there is room. -/
def pushFront (x : α) : Option (BoundedDeque α) :=
  if h : d.entries.length < d.bound then
    some ⟨x :: d.entries, d.bound, by rw [List.length_cons]; omega⟩
  else none

/-- Take the front entry. -/
def popFront : Option (α × BoundedDeque α) :=
  d.entries.head?.map fun x =>
    (x, ⟨d.entries.tail, d.bound, by have := d.length_le; rw [List.length_tail]; omega⟩)

/-- Take the back entry. -/
def popBack : Option (α × BoundedDeque α) :=
  d.entries.getLast?.map fun x =>
    (x, ⟨d.entries.dropLast, d.bound, by have := d.length_le; rw [List.length_dropLast]; omega⟩)

/-- Double the bound. -/
def grow : BoundedDeque α :=
  ⟨d.entries, 2 * d.bound, by have := d.length_le; omega⟩

attribute [grind] pushBack pushFront

/-- A push succeeds exactly while there is room. -/
theorem pushBack_isSome (x : α) :
    (d.pushBack x).isSome = decide (d.entries.length < d.bound) := by
  unfold pushBack
  by_cases h : d.entries.length < d.bound
  · rw [dif_pos h, decide_eq_true h, Option.isSome_some]
  · rw [dif_neg h, decide_eq_false h, Option.isSome_none]

/-- The entries after a push, or after a push that found no room. -/
theorem entries_pushBack_getD (x : α) :
    ((d.pushBack x).getD d).entries =
      if d.entries.length < d.bound then d.entries ++ [x] else d.entries := by
  unfold pushBack
  by_cases h : d.entries.length < d.bound
  · rw [dif_pos h, if_pos h, Option.getD_some]
  · rw [dif_neg h, if_neg h, Option.getD_none]

/-- A push at the back keeps the bound. -/
theorem bound_pushBack_getD (x : α) : ((d.pushBack x).getD d).bound = d.bound := by
  unfold pushBack
  by_cases h : d.entries.length < d.bound
  · rw [dif_pos h, Option.getD_some]
  · rw [dif_neg h, Option.getD_none]

/-- A push at the front succeeds exactly while there is room. -/
theorem pushFront_isSome (x : α) :
    (d.pushFront x).isSome = decide (d.entries.length < d.bound) := by
  unfold pushFront
  by_cases h : d.entries.length < d.bound
  · rw [dif_pos h, decide_eq_true h, Option.isSome_some]
  · rw [dif_neg h, decide_eq_false h, Option.isSome_none]

/-- The entries after a push at the front, or after one that found no room. -/
theorem entries_pushFront_getD (x : α) :
    ((d.pushFront x).getD d).entries =
      if d.entries.length < d.bound then x :: d.entries else d.entries := by
  unfold pushFront
  by_cases h : d.entries.length < d.bound
  · rw [dif_pos h, if_pos h, Option.getD_some]
  · rw [dif_neg h, if_neg h, Option.getD_none]

/-- A push at the front keeps the bound. -/
theorem bound_pushFront_getD (x : α) : ((d.pushFront x).getD d).bound = d.bound := by
  unfold pushFront
  by_cases h : d.entries.length < d.bound
  · rw [dif_pos h, Option.getD_some]
  · rw [dif_neg h, Option.getD_none]

/-- A pop at the front returns the first entry, and leaves the rest. -/
theorem popFront_map_fst : d.popFront.map Prod.fst = d.entries.head? := by
  obtain ⟨entries, bound, hle⟩ := d
  cases entries <;> rfl

/-- A pop at the front leaves the entries after the first. -/
theorem entries_popFront_getD : ((d.popFront.map Prod.snd).getD d).entries = d.entries.tail := by
  obtain ⟨entries, bound, hle⟩ := d
  cases entries <;> rfl

/-- A pop at the front keeps the bound. -/
theorem bound_popFront_getD : ((d.popFront.map Prod.snd).getD d).bound = d.bound := by
  obtain ⟨entries, bound, hle⟩ := d
  cases entries <;> rfl

/-- A pop at the back returns the last entry, and leaves the others. -/
theorem popBack_map_fst : d.popBack.map Prod.fst = d.entries.getLast? := by
  unfold popBack
  cases d.entries.getLast? <;> rfl

/-- A pop at the back leaves the entries before the last. -/
theorem entries_popBack_getD :
    ((d.popBack.map Prod.snd).getD d).entries = d.entries.dropLast := by
  obtain ⟨entries, bound, hle⟩ := d
  -- an empty list, or one with a last entry
  rcases List.eq_nil_or_concat entries with rfl | ⟨l, x, rfl⟩
  · rfl
  · simp [popBack]

/-- A pop at the back keeps the bound. -/
theorem bound_popBack_getD : ((d.popBack.map Prod.snd).getD d).bound = d.bound := by
  unfold popBack
  cases d.entries.getLast? <;> rfl

/-- Two deques are equal when their entries and bounds are. -/
theorem ext' {d d' : BoundedDeque α} (he : d.entries = d'.entries) (hb : d.bound = d'.bound) :
    d = d' := by
  cases d
  cases d'
  cases he
  cases hb
  rfl

end BoundedDeque

end Bcachefs.Ring
