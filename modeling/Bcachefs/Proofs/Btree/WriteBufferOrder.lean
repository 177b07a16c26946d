import Bcachefs.Btree.WriteBuffer
import Bcachefs.Proofs.Btree.Cmp

/-!
# `Bcachefs.Proofs.Btree.WriteBufferOrder`: what the write buffer's ref comparisons compute

A `struct wb_key_ref` is compared as the three `u64` words of a union, high word first.
Read as one number, `refKey`, the words spell the position (inode over offset over
snapshot) over `idx`, so:

* `wb_key_ref_cmp_iff`: `wb_key_ref_cmp l r` says `refKey r ≤ refKey l`; the order is total
  and transitive, which the sort needs.
* `wb_key_eq_iff`: `wb_key_eq` compares the numbers with their low 24 bits dropped. Two refs
  at one position are equal by it exactly when their `idx` agree above bit 24
  (`wb_key_eq_iff_pos`), so the dedup sees the refs of one position as one run only while
  every `idx` is below `2 ^ 24`.
* `bpos_cmp_eq_cmp_int_posKey`: `bpos_cmp` is the order of the positions as numbers.

The second half is about the refs the flush builds: the offset of each key
(`wb_offset`), the refs of `wb_sorted_build` and the keys `wb_keys_of` reads back.
-/

set_option autoImplicit false
set_option linter.style.nameCheck false

namespace Bcachefs.Proofs.Btree

open Bcachefs.Bits

/-! ### Refs as numbers -/

/-- A position as one number: inode over offset over snapshot. -/
def posKey (p : bpos) : Nat := (p.inode.toNat * 2 ^ 64 + p.offset.toNat) * 2 ^ 32 + p.snapshot.toNat

/-- A ref as one number: its position over its `idx`. -/
def refKey (r : wb_key_ref) : Nat := posKey r.pos * 2 ^ 32 + r.idx.toNat

/-- Distinct positions have distinct numbers: each field has its own digits. -/
theorem posKey_inj {p q : bpos} (h : posKey p = posKey q) : p = q := by
  obtain ⟨pi, po, ps⟩ := p
  obtain ⟨qi, qo, qs⟩ := q
  unfold posKey at h
  -- peel off the snapshot, then the offset
  obtain ⟨hio, hs⟩ := (mul_two_pow_add_inj ps.toNat_lt qs.toNat_lt).mp h
  obtain ⟨hi, ho⟩ := (mul_two_pow_add_inj po.toNat_lt qo.toNat_lt).mp hio
  obtain rfl : pi = qi := UInt64.toNat_inj.mp hi
  obtain rfl : po = qo := UInt64.toNat_inj.mp ho
  obtain rfl : ps = qs := UInt32.toNat_inj.mp hs
  rfl

/-- A ref's `idx` is the low 32 bits of its number. -/
theorem refKey_mod (r : wb_key_ref) : refKey r % 2 ^ 32 = r.idx.toNat := by
  rw [refKey, Nat.mul_add_mod_self_right, Nat.mod_eq_of_lt r.idx.toNat_lt]

/-- A ref's position is its number with the `idx` dropped. -/
theorem refKey_div (r : wb_key_ref) : refKey r / 2 ^ 32 = posKey r.pos := by
  rw [refKey, Nat.add_comm, Nat.add_mul_div_right _ _ (Nat.two_pow_pos 32),
    Nat.div_eq_of_lt r.idx.toNat_lt, Nat.zero_add]

/-- Refs at one position are ordered by `idx`. -/
theorem refKey_lt_iff_of_pos_eq {l r : wb_key_ref} (h : l.pos = r.pos) :
    refKey l < refKey r ↔ l.idx.toNat < r.idx.toNat := by
  rw [refKey, refKey, h]
  omega

/-- Refs at different positions are ordered by position. -/
theorem posKey_lt_of_refKey_lt {l r : wb_key_ref} (h : refKey l < refKey r) (hne : l.pos ≠ r.pos) :
    posKey l.pos < posKey r.pos := by
  have hle : posKey l.pos ≤ posKey r.pos := by
    rw [← refKey_div, ← refKey_div]
    exact Nat.div_le_div_right (Nat.le_of_lt h)
  exact Nat.lt_of_le_of_ne hle (fun he => hne (posKey_inj he))

/-! ### The words of the union -/

/-- The low word holds the snapshot over `idx`. -/
theorem toNat_lo (r : wb_key_ref) : r.lo.toNat = r.pos.snapshot.toNat * 2 ^ 32 + r.idx.toNat := by
  have hsnap : (r.pos.snapshot.toUInt64 <<< 32).toNat = r.pos.snapshot.toNat * 2 ^ 32 := by
    rw [UInt64.toNat_shiftLeft, UInt32.toNat_toUInt64, Nat.shiftLeft_eq]
    have := r.pos.snapshot.toNat_lt
    exact Nat.mod_eq_of_lt (by change _ < 2 ^ 32 * 2 ^ 32; exact Nat.mul_lt_mul_of_pos_right this (by norm_num))
  -- the snapshot sits above bit 32 and `idx` below, so the `|` is an addition
  rw [wb_key_ref.lo, UInt64.or_comm, toNat_or_of_disjoint _ _ (s := 32)
    (by rw [hsnap, Nat.mul_mod_left]) (by rw [UInt32.toNat_toUInt64]; exact r.idx.toNat_lt),
    hsnap, UInt32.toNat_toUInt64]

/-- The number a ref's words spell, high word first, is `refKey`. -/
theorem refKey_eq_words (r : wb_key_ref) :
    refKey r = (r.hi.toNat * 2 ^ 64 + r.mi.toNat) * 2 ^ 64 + r.lo.toNat := by
  rw [toNat_lo, refKey, posKey, wb_key_ref.hi, wb_key_ref.mi]
  ring

/-- `cmp_int a b` is not negative exactly when `b ≤ a`. -/
theorem cmp_int_nonneg_iff (a b : Nat) : 0 ≤ cmp_int a b ↔ b ≤ a := by
  unfold cmp_int
  split_ifs <;> omega

/-- `cmp_int a b` is negative exactly when `a < b`. -/
theorem cmp_int_neg_iff (a b : Nat) : cmp_int a b < 0 ↔ a < b := by
  unfold cmp_int
  split_ifs <;> omega

/-- One link of a `cmp_int ?:` chain: the comparison goes on to the next words only when
these are equal. -/
theorem ite_cmp_int_ne_zero (a b : Nat) (c : Int) :
    (if cmp_int a b ≠ 0 then cmp_int a b else c) = if a = b then c else cmp_int a b := by
  by_cases h : a = b
  · rw [if_neg (by rw [h, cmp_int_self]; exact not_not.mpr rfl), if_pos h]
  · rw [if_pos (by rwa [ne_eq, cmp_int_nat_eq_zero_iff]), if_neg h]

/-- `__wb_key_ref_cmp`'s chain of `cmp_int ?:` is the comparison of `refKey`s. -/
theorem __wb_key_ref_cmp_iff (l r : wb_key_ref) :
    __wb_key_ref_cmp l r = true ↔ refKey r ≤ refKey l := by
  unfold __wb_key_ref_cmp
  dsimp only
  simp only [cmp_int_uint64]
  -- fold the chain from the high word down into one comparison of numbers
  rw [ite_cmp_int_ne_zero, ← cmp_int_mul_two_pow_add l.mi.toNat_lt r.mi.toNat_lt,
    ite_cmp_int_ne_zero, ← cmp_int_mul_two_pow_add l.lo.toNat_lt r.lo.toNat_lt,
    ← refKey_eq_words, ← refKey_eq_words, decide_eq_true_iff, cmp_int_nonneg_iff]

/-- The sort's comparison is the reverse order of the refs' numbers. -/
theorem wb_key_ref_cmp_iff (l r : wb_key_ref) :
    wb_key_ref_cmp l r = true ↔ refKey r ≤ refKey l :=
  __wb_key_ref_cmp_iff l r

/-- The sort's comparison holds one way or the other. -/
theorem wb_key_ref_cmp_total (l r : wb_key_ref) :
    wb_key_ref_cmp l r = true ∨ wb_key_ref_cmp r l = true := by
  rw [wb_key_ref_cmp_iff, wb_key_ref_cmp_iff]
  omega

/-- The sort's comparison is transitive. -/
theorem wb_key_ref_cmp_trans (a b c : wb_key_ref) (hab : wb_key_ref_cmp a b = true)
    (hbc : wb_key_ref_cmp b c = true) : wb_key_ref_cmp a c = true := by
  rw [wb_key_ref_cmp_iff] at *
  omega

/-- `wb_key_eq` compares the refs' numbers with their low 24 bits dropped. -/
theorem wb_key_eq_iff (l r : wb_key_ref) :
    wb_key_eq l r = true ↔ refKey l / 2 ^ 24 = refKey r / 2 ^ 24 := by
  -- dropping 24 bits of the number drops them from its low word
  have hdiv : ∀ q : wb_key_ref,
      refKey q / 2 ^ 24 = (q.hi.toNat * 2 ^ 64 + q.mi.toNat) * 2 ^ 40 + q.lo.toNat / 2 ^ 24 := by
    intro q
    rw [refKey_eq_words, show (2 : Nat) ^ 64 = 2 ^ 40 * 2 ^ 24 by norm_num, ← Nat.mul_assoc,
      Nat.add_comm, Nat.add_mul_div_right _ _ (Nat.two_pow_pos 24), Nat.add_comm]
  have hlo : ∀ q : wb_key_ref, (q.lo >>> 24).toNat = q.lo.toNat / 2 ^ 24 := fun q =>
    toNat_shiftRight_of_lt q.lo (s := 24) (by norm_num)
  have hlt : ∀ q : wb_key_ref, q.lo.toNat / 2 ^ 24 < 2 ^ 40 := fun q =>
    Nat.div_lt_of_lt_mul (by have := q.lo.toNat_lt; norm_num at this ⊢; omega)
  rw [hdiv, hdiv, mul_two_pow_add_inj (hlt l) (hlt r),
    mul_two_pow_add_inj l.mi.toNat_lt r.mi.toNat_lt, ← hlo, ← hlo, UInt64.toNat_inj,
    UInt64.toNat_inj, UInt64.toNat_inj, wb_key_eq, beq_iff_eq, UInt64.or_eq_zero_iff,
    UInt64.or_eq_zero_iff, UInt64.xor_eq_zero_iff, UInt64.xor_eq_zero_iff, UInt64.xor_eq_zero_iff,
    and_assoc]

/-- A ref is equal to itself by `wb_key_eq`. -/
theorem wb_key_eq_refl (r : wb_key_ref) : wb_key_eq r r = true :=
  (wb_key_eq_iff r r).mpr rfl

/-- `wb_key_eq` is symmetric. -/
theorem wb_key_eq_comm (l r : wb_key_ref) : wb_key_eq l r = wb_key_eq r l := by
  rw [Bool.eq_iff_iff, wb_key_eq_iff, wb_key_eq_iff, eq_comm]

/-- `wb_key_eq` is transitive. -/
theorem wb_key_eq_trans {a b c : wb_key_ref} (hab : wb_key_eq a b = true) (hbc : wb_key_eq b c = true) :
    wb_key_eq a c = true := by
  rw [wb_key_eq_iff] at *
  exact hab.trans hbc

/-- A ref between two refs equal by `wb_key_eq` is equal to them. -/
theorem wb_key_eq_of_between {a b c : wb_key_ref} (hab : refKey a ≤ refKey b) (hbc : refKey b ≤ refKey c)
    (hac : wb_key_eq a c = true) : wb_key_eq a b = true := by
  rw [wb_key_eq_iff] at *
  have hab' : refKey a / 2 ^ 24 ≤ refKey b / 2 ^ 24 := Nat.div_le_div_right hab
  have hbc' : refKey b / 2 ^ 24 ≤ refKey c / 2 ^ 24 := Nat.div_le_div_right hbc
  rw [← hac] at hbc'
  exact Nat.le_antisymm hab' hbc'

/-- Equal refs are at the same position. -/
theorem pos_eq_of_wb_key_eq {l r : wb_key_ref} (h : wb_key_eq l r = true) : l.pos = r.pos := by
  rw [wb_key_eq_iff] at h
  have hsplit : ∀ q : wb_key_ref, posKey q.pos = refKey q / 2 ^ 24 / 2 ^ 8 := by
    intro q
    rw [Nat.div_div_eq_div_mul, ← pow_add, refKey_div]
  exact posKey_inj (by rw [hsplit, hsplit, h])

/-- Refs at one position are equal by `wb_key_eq` exactly when their `idx` agree above
bit 24: the comparison the dedup makes is not the one of positions. -/
theorem wb_key_eq_iff_pos (l r : wb_key_ref) :
    wb_key_eq l r = true ↔ l.pos = r.pos ∧ l.idx.toNat / 2 ^ 24 = r.idx.toNat / 2 ^ 24 := by
  have hsplit : ∀ q : wb_key_ref, refKey q / 2 ^ 24 = posKey q.pos * 2 ^ 8 + q.idx.toNat / 2 ^ 24 := by
    intro q
    rw [refKey, show (2 : Nat) ^ 32 = 2 ^ 8 * 2 ^ 24 by norm_num, ← Nat.mul_assoc, Nat.add_comm,
      Nat.add_mul_div_right _ _ (Nat.two_pow_pos 24), Nat.add_comm]
  -- the `idx` bits above 24 are the lowest 8 digits of the number over `2 ^ 24`
  have hlt : ∀ q : wb_key_ref, q.idx.toNat / 2 ^ 24 < 2 ^ 8 := fun q =>
    Nat.div_lt_of_lt_mul (by have := q.idx.toNat_lt; norm_num at this ⊢; omega)
  rw [wb_key_eq_iff, hsplit, hsplit, mul_two_pow_add_inj (hlt l) (hlt r)]
  exact ⟨fun ⟨hp, hi⟩ => ⟨posKey_inj hp, hi⟩, fun ⟨hp, hi⟩ => ⟨hp ▸ rfl, hi⟩⟩

/-- With `idx` below `2 ^ 24`, `wb_key_eq` is equality of positions. -/
theorem wb_key_eq_iff_of_lt {l r : wb_key_ref} (hl : l.idx.toNat < 2 ^ 24) (hr : r.idx.toNat < 2 ^ 24) :
    wb_key_eq l r = true ↔ l.pos = r.pos := by
  rw [wb_key_eq_iff_pos, Nat.div_eq_of_lt hl, Nat.div_eq_of_lt hr]
  simp

/-- `bpos_cmp` is the order of positions as numbers. -/
theorem bpos_cmp_eq_cmp_int_posKey (l r : bpos) : bpos_cmp l r = cmp_int (posKey l) (posKey r) := by
  rw [bpos_cmp_eq, posKey, posKey, cmp_int_mul_two_pow_add l.snapshot.toNat_lt r.snapshot.toNat_lt,
    cmp_int_mul_two_pow_add l.offset.toNat_lt r.offset.toNat_lt, cmp_int_uint64, cmp_int_uint64,
    cmp_int_uint32]
  simp only [mul_two_pow_add_inj l.offset.toNat_lt r.offset.toNat_lt, UInt64.toNat_inj]
  by_cases hi : l.inode = r.inode <;> by_cases ho : l.offset = r.offset <;> simp [hi, ho]

/-! ### The refs the flush builds -/

/-- The `u64` offset of entry `i` of the flushing array: the sizes of the entries before
it. -/
def wb_offset (F : List btree_write_buffered_key) (i : Nat) : Nat :=
  ((F.take i).map fun e => wb_key_u64s e.k).sum

/-- The `u64`s the flushing array takes. -/
def wb_size (F : List btree_write_buffered_key) : Nat :=
  (F.map fun e => wb_key_u64s e.k).sum

/-- The first entry is at offset `0`. -/
@[simp] theorem wb_offset_zero (F : List btree_write_buffered_key) : wb_offset F 0 = 0 := by
  simp [wb_offset]

/-- Past the first entry the offsets grow by its size. -/
@[simp] theorem wb_offset_cons_succ (e : btree_write_buffered_key) (F : List btree_write_buffered_key)
    (i : Nat) : wb_offset (e :: F) (i + 1) = wb_key_u64s e.k + wb_offset F i := by
  simp [wb_offset]

/-- An entry in front adds its size to the array's. -/
@[simp] theorem wb_size_cons (e : btree_write_buffered_key) (F : List btree_write_buffered_key) :
    wb_size (e :: F) = wb_key_u64s e.k + wb_size F := by
  simp [wb_size]

/-- Each key takes at least the `u64` of its `journal_seq`, so the offsets climb strictly,
and the last key ends within the array. -/
theorem wb_offset_add_le (F : List btree_write_buffered_key) {i j : Nat} (hij : i < j)
    (hj : j ≤ F.length) : wb_offset F i + 1 ≤ wb_offset F j := by
  induction F generalizing i j with
  | nil => simp at hj; omega
  | cons e F ih =>
      obtain ⟨j, rfl⟩ : ∃ j', j = j' + 1 := ⟨j - 1, by omega⟩
      -- from the first entry the offset grows by its size, at least one `u64`
      rcases i with _ | i
      · simp [wb_key_u64s]
        omega
      · have := ih (i := i) (j := j) (by omega) (by simpa using hj)
        simp only [wb_offset_cons_succ]
        omega

/-- The offset past the last entry is the array's size. -/
theorem wb_offset_length (F : List btree_write_buffered_key) : wb_offset F F.length = wb_size F := by
  rw [wb_offset, List.take_length, wb_size]

/-- Every key starts inside the array. -/
theorem wb_offset_lt_wb_size (F : List btree_write_buffered_key) {i : Nat} (hi : i < F.length) :
    wb_offset F i < wb_size F := by
  have := wb_offset_add_le F hi (Nat.le_refl _)
  rw [wb_offset_length] at this
  omega

/-- The refs of `wb->sorted`, entry by entry. -/
theorem wb_sorted_build_eq (F : List btree_write_buffered_key) (off : Nat) :
    wb_sorted_build F off = (List.range F.length).map fun i =>
      ⟨(off + wb_offset F i).toUInt32, (F.getD i btree_write_buffered_key_zero).k.k.p⟩ := by
  induction F generalizing off with
  | nil => rfl
  -- the first entry's ref, then the rest's with their offsets moved up by its size
  | cons e F ih =>
      rw [wb_sorted_build, ih, List.length_cons, List.range_succ_eq_map, List.map_cons, List.map_map]
      simp [Nat.add_assoc]

/-- `wb_keys_idx` at the offset of entry `i` reads entry `i`. -/
theorem wb_keys_of_offset (F : List btree_write_buffered_key) (off : Nat) {i : Nat} (hi : i < F.length) :
    wb_keys_of F off (off + wb_offset F i) = F.getD i btree_write_buffered_key_zero := by
  induction F generalizing off i with
  | nil => simp at hi
  | cons e F ih =>
      rcases i with _ | i
      · simp [wb_keys_of]
      -- a later entry's offset is past the first entry's
      · have hne : off + wb_offset (e :: F) (i + 1) ≠ off := by
          simp only [wb_offset_cons_succ, wb_key_u64s]
          omega
        rw [wb_keys_of]
        dsimp only
        rw [if_neg hne, wb_offset_cons_succ, ← Nat.add_assoc, ih _ (by simpa using hi)]
        simp

/-- With the array below `2 ^ 32` `u64`s, each ref's `idx` is its key's offset. -/
theorem toNat_toUInt32_wb_offset {F : List btree_write_buffered_key} (hsize : wb_size F ≤ 2 ^ 32)
    {i : Nat} (hi : i < F.length) : (wb_offset F i).toUInt32.toNat = wb_offset F i := by
  rw [Nat.toUInt32_eq, UInt32.toNat_ofNat', Nat.mod_eq_of_lt (by have := wb_offset_lt_wb_size F hi; omega)]

/-- The refs' `idx` climb strictly along the array. -/
theorem wb_sorted_build_idx_lt {F : List btree_write_buffered_key} (hsize : wb_size F ≤ 2 ^ 32) :
    (wb_sorted_build F 0).Pairwise fun a b => a.idx.toNat < b.idx.toNat := by
  rw [wb_sorted_build_eq, List.pairwise_map]
  refine List.pairwise_lt_range.imp_of_mem fun {i j} hi hj hij => ?_
  rw [List.mem_range] at hi hj
  simp only [Nat.zero_add, toNat_toUInt32_wb_offset hsize hi, toNat_toUInt32_wb_offset hsize hj]
  -- offsets climb strictly and, below `2 ^ 32`, do not wrap
  have := wb_offset_add_le F hij (Nat.le_of_lt hj)
  omega

end Bcachefs.Proofs.Btree
