import Bcachefs.Commands.Migrate
import Bcachefs.Intervals.Holes

/-!
# `Bcachefs.Proofs.Commands.Migrate`: the buckets `mark_unreserved_space` marks

`mark_unreserved_space` runs on machine words. Its ranges, read as intervals of numbers
(`CRange.toNat`), are merged by `ranges_sort_merge` and walked by `for_each_hole` exactly as
`Intervals.merge_sorted` and `Intervals.gaps` do (`ranges_sort_merge_toNat`,
`for_each_hole_toNat`), so the interval library says what the holes are. One call of
`mark_nouse_range` marks the bucket of its first sector and every later one that starts
below its last (`range_marks`, `mark_nouse_range_spec`), as long as no product wraps.

`mark_unreserved_space_spec` puts these together: the bits set after the call are the bits
set before, the buckets a hole below the device's end reaches, rounded out to sectors, and
the superblock area. From it, for extents that are well formed and far enough from `2 ^ 64`
and a device whose byte size fits in a word:

* `mark_unreserved_space_marks`: every bucket of the device that holds a byte no extent
  covers, or a sector of the superblock area, is marked;
* `mark_unreserved_space_keeps`: a bucket every byte of which an extent covers, above the
  superblock area, keeps its bit;
* `mark_unreserved_space_within`: when every extent starts on the device and the superblock
  area fits on it, no bit past the device's buckets is set;

and `mark_unreserved_space_safe` states the three together.

Without the last hypothesis the hole before an extent that starts past the last whole bucket
reaches past it, and `mark_nouse_range` sets the bit of bucket `nbuckets`.
-/

set_option autoImplicit false

namespace Bcachefs.Migrate

open Bcachefs.Loop Bcachefs.Intervals

/-! ### Ranges as intervals of numbers -/

/-- A range's bytes as an interval of numbers. -/
def CRange.toNat (r : CRange) : ℕ × ℕ := (r.start.toNat, r.end_.toNat)

/-- `max` of two words is the `max` of their values. -/
theorem toNat_max_of_uint64 (a b : UInt64) : (max a b).toNat = max a.toNat b.toNat := by
  rw [UInt64.max_def]
  by_cases h : a ≤ b
  · rw [if_pos h, max_eq_right (UInt64.le_iff_toNat_le.mp h)]
  · rw [if_neg h, max_eq_left (le_of_lt (not_le.mp (mt UInt64.le_iff_toNat_le.mpr h)))]

/-- One step of the merge loop of `ranges_sort_merge` on words is `merge_step` on their values: a
range that starts at or before the last merged end widens that range to the larger end, any other is
pushed. -/
theorem ranges_merge_step_toNat (merged : List CRange) (r : CRange) :
    (ranges_merge_step merged r).map CRange.toNat =
      merge_step (merged.map CRange.toNat) r.toNat := by
  cases merged with
  | nil => rfl
  | cons last rest =>
    simp only [ranges_merge_step, merge_step, List.map_cons, ge_iff_le, CRange.toNat]
    -- the comparison with the last merged end reads the same on words and on their values
    by_cases h : r.start ≤ last.end_
    · rw [if_pos h, if_pos (UInt64.le_iff_toNat_le.mp h)]
      simp [CRange.toNat, toNat_max_of_uint64]
    · rw [if_neg h, if_neg (mt UInt64.le_iff_toNat_le.mpr h)]
      rfl

/-- The merge loop on words is the merge loop of `Intervals.Holes` on their values, step by step. -/
theorem foldl_ranges_merge_step_toNat : ∀ (R merged : List CRange),
    (R.foldl ranges_merge_step merged).map CRange.toNat =
      (R.map CRange.toNat).foldl merge_step (merged.map CRange.toNat)
  | [], _ => rfl
  | r :: R, merged => by
    rw [List.foldl_cons, foldl_ranges_merge_step_toNat R, ranges_merge_step_toNat, List.map_cons,
      List.foldl_cons]

/-- `ranges_sort_merge` is the merge of the sorted ranges. -/
theorem ranges_sort_merge_toNat (R : List CRange) :
    (ranges_sort_merge R).map CRange.toNat =
      merge_sorted ((R.mergeSort fun a b => a.start ≤ b.start).map CRange.toNat) := by
  rw [ranges_sort_merge, List.map_reverse, foldl_ranges_merge_step_toNat, List.map_nil,
    merge_sorted]

/-- The ranges `sort_by_key(|r| r.start)` leaves have nondecreasing starts, as numbers. -/
theorem mergeSort_start_pairwise (R : List CRange) :
    ((R.mergeSort fun a b => a.start ≤ b.start).map CRange.toNat).Pairwise
      (fun a b => a.1 ≤ b.1) := by
  rw [List.pairwise_map]
  -- the key order of the sort is transitive and total, so its output is sorted by it
  refine (List.pairwise_mergeSort (fun a b c hab hbc => ?_) (fun a b => ?_) R).imp
    (fun h => ?_)
  · simp only [decide_eq_true_eq, UInt64.le_iff_toNat_le] at hab hbc ⊢
    exact le_trans hab hbc
  · simp only [Bool.or_eq_true, decide_eq_true_eq, UInt64.le_iff_toNat_le]
    exact Nat.le_total _ _
  · simpa [CRange.toNat, UInt64.le_iff_toNat_le] using h

/-- What the merge of well-formed ranges is: separated, well formed, covering the ranges'
bytes, each starting where a range does. -/
theorem ranges_sort_merge_spec {R : List CRange} (hwf : ∀ r ∈ R, r.start ≤ r.end_) :
    Separated ((ranges_sort_merge R).map CRange.toNat) ∧
      WellFormed ((ranges_sort_merge R).map CRange.toNat) ∧
      (∀ x, covers ((ranges_sort_merge R).map CRange.toNat) x ↔
        covers (R.map CRange.toNat) x) ∧
      ∀ a ∈ (ranges_sort_merge R).map CRange.toNat, ∃ b ∈ R, b.start.toNat = a.1 := by
  have hperm := (List.mergeSort_perm R fun a b => a.start ≤ b.start).map CRange.toNat
  have hwf' : WellFormed ((R.mergeSort fun a b => a.start ≤ b.start).map CRange.toNat) := by
    intro r hr
    obtain ⟨r', hr', rfl⟩ := List.mem_map.mp (hperm.mem_iff.mp hr)
    exact UInt64.le_iff_toNat_le.mp (hwf r' hr')
  obtain ⟨hsep, hwf'', hcov, hstart⟩ := merge_sorted_spec (mergeSort_start_pairwise R) hwf'
  rw [ranges_sort_merge_toNat]
  refine ⟨hsep, hwf'', fun x => ?_, fun a ha => ?_⟩
  · rw [hcov]
    exact ⟨fun ⟨r, hr, hx⟩ => ⟨r, hperm.mem_iff.mp hr, hx⟩,
      fun ⟨r, hr, hx⟩ => ⟨r, hperm.mem_iff.mpr hr, hx⟩⟩
  · obtain ⟨b, hb, hba⟩ := hstart a ha
    obtain ⟨b', hb', rfl⟩ := List.mem_map.mp (hperm.mem_iff.mp hb)
    exact ⟨b', hb', hba⟩

/-- One step of `for_each_hole` on words is `gaps_step` on their values: a range that starts past
the cursor yields the hole up to it, and the cursor moves to the range's end. -/
theorem for_each_hole_step_toNat (s : List CRange × UInt64) (r : CRange) :
    ((for_each_hole_step s r).1.map CRange.toNat, (for_each_hole_step s r).2.toNat) =
      gaps_step (s.1.map CRange.toNat, s.2.toNat) r.toNat := by
  unfold for_each_hole_step gaps_step
  -- the test `cursor < r.start` reads the same on words and on their values
  by_cases h : s.2 < r.start
  · have h' : s.2.toNat < r.start.toNat := UInt64.lt_iff_toNat_lt.mp h
    simp [h, h', CRange.toNat]
  · have h' : ¬ s.2.toNat < r.start.toNat := mt UInt64.lt_iff_toNat_lt.mpr h
    simp [h, h', CRange.toNat]

/-- The loop of `for_each_hole` on words is the fold of `gaps_step` on their values. -/
theorem foldl_for_each_hole_step_toNat : ∀ (R : List CRange) (s : List CRange × UInt64),
    (((R.foldl for_each_hole_step s).1.map CRange.toNat, (R.foldl for_each_hole_step s).2.toNat)
      : List (ℕ × ℕ) × ℕ) = (R.map CRange.toNat).foldl gaps_step (s.1.map CRange.toNat, s.2.toNat)
  | [], _ => rfl
  | r :: R, s => by
    rw [List.foldl_cons, foldl_for_each_hole_step_toNat R, for_each_hole_step_toNat,
      List.map_cons, List.foldl_cons]

/-- `for_each_hole` is the gaps of the ranges from `0` up to `max`. -/
theorem for_each_hole_toNat (R : List CRange) (max : UInt64) :
    (for_each_hole R max).map CRange.toNat = gaps 0 max.toNat (R.map CRange.toNat) := by
  have h := foldl_for_each_hole_step_toNat R ([], 0)
  simp only [List.map_nil, UInt64.toNat_zero] at h
  unfold for_each_hole gaps
  rw [← h]
  by_cases hlt : (R.foldl for_each_hole_step ([], 0)).2 < max
  · have hlt' := UInt64.lt_iff_toNat_lt.mp hlt
    simp [hlt, hlt', CRange.toNat]
  · have hlt' := mt UInt64.lt_iff_toNat_lt.mpr hlt
    simp [hlt, hlt']

/-! ### Marking a range of buckets -/

/-- `rust_set_bit` sets the one bit. -/
theorem set_bit_apply (nouse : ℕ → Bool) (nr : UInt64) (n : ℕ) :
    set_bit nouse nr n = true ↔ n = nr.toNat ∨ nouse n = true := by
  unfold set_bit
  by_cases h : n = nr.toNat <;> simp [h]

/-- Marking bucket `b` right after the buckets from `b0` below it extends them by one. -/
theorem set_bit_run {nouse old : ℕ → Bool} {b0 : ℕ} {b : UInt64} (hb : b0 ≤ b.toNat)
    (hold : ∀ n, old n = true ↔ nouse n = true ∨ (b0 ≤ n ∧ n < b.toNat)) (n : ℕ) :
    set_bit old b n = true ↔ nouse n = true ∨ (b0 ≤ n ∧ n < b.toNat + 1) := by
  rw [set_bit_apply, hold]
  by_cases hn : nouse n = true
  · simp [hn]
  · simp only [hn, Bool.false_eq_true, false_or]
    omega

/-- The buckets of `bucket_size` sectors that `mark_nouse_range` marks: the bucket of
`sector_from`, which the loop marks before its first test, and every later one that starts
below `sector_to`. -/
def range_marks (bucket_size sector_from sector_to n : ℕ) : Prop :=
  sector_from / bucket_size ≤ n ∧ (n = sector_from / bucket_size ∨ n * bucket_size < sector_to)

/-- What the loop of `mark_nouse_range` keeps: the next bucket `s.2` is past the first, `b0`,
and follows it or the bucket before it starts below `sector_to`; the bits set are those set
before and the buckets from `b0` below `s.2`. -/
structure mark_inv (bucket_size b0 sector_to : ℕ) (nouse : ℕ → Bool)
    (s : (ℕ → Bool) × UInt64) : Prop where
  first_lt : b0 < s.2.toNat
  prev : s.2.toNat = b0 + 1 ∨ (s.2.toNat - 1) * bucket_size < sector_to
  bits : ∀ n, s.1 n = true ↔ nouse n = true ∨ (b0 ≤ n ∧ n < s.2.toNat)

section MarkRange

variable {bucket_size sector_from sector_to : ℕ} {nouse : ℕ → Bool} {s : (ℕ → Bool) × UInt64}

/-- The next bucket, multiplied out to its first sector, does not wrap. -/
theorem mark_inv.mul_lt (hI : mark_inv bucket_size (sector_from / bucket_size) sector_to nouse s)
    (hfrom : sector_from + bucket_size < 2 ^ 64) (hto : sector_to + bucket_size < 2 ^ 64) :
    s.2.toNat * bucket_size < 2 ^ 64 := by
  have hpos : 0 < s.2.toNat := lt_of_le_of_lt (Nat.zero_le _) hI.first_lt
  obtain ⟨k, hk⟩ : ∃ k, s.2.toNat = k + 1 := ⟨s.2.toNat - 1, (Nat.succ_pred_eq_of_pos hpos).symm⟩
  rw [hk, Nat.add_mul, Nat.one_mul]
  rcases hI.prev with h | h
  · have hdiv := Nat.div_mul_le_self sector_from bucket_size
    have hk' : k = sector_from / bucket_size := by omega
    rw [hk']
    omega
  · rw [hk, Nat.add_sub_cancel] at h
    omega

/-- Where the loop stops, the buckets from the first below the next are those
`range_marks` names. -/
theorem mark_inv.range_marks_iff
    (hI : mark_inv bucket_size (sector_from / bucket_size) sector_to nouse s)
    (hexit : sector_to ≤ s.2.toNat * bucket_size) (n : ℕ) :
    (sector_from / bucket_size ≤ n ∧ n < s.2.toNat) ↔
      range_marks bucket_size sector_from sector_to n := by
  unfold range_marks
  constructor
  · rintro ⟨h1, h2⟩
    refine ⟨h1, ?_⟩
    by_cases hn : n = sector_from / bucket_size
    · exact Or.inl hn
    · -- a later bucket: the one before the next starts below `sector_to`, and so does `n`
      have hprev : (s.2.toNat - 1) * bucket_size < sector_to := by
        rcases hI.prev with h | h
        · omega
        · exact h
      exact Or.inr (lt_of_le_of_lt (Nat.mul_le_mul_right bucket_size (by omega)) hprev)
  · rintro ⟨h1, h2 | h2⟩
    · exact ⟨h1, h2 ▸ hI.first_lt⟩
    · exact ⟨h1, Nat.lt_of_mul_lt_mul_right (lt_of_lt_of_le h2 hexit)⟩

end MarkRange

/-- `mark_nouse_range` stops, and sets the bits `range_marks` names, when neither end plus a
bucket wraps. -/
theorem mark_nouse_range_spec (bucket_size : UInt32) (nouse : ℕ → Bool)
    (sector_from sector_to : UInt64) (hbs : 0 < bucket_size.toNat)
    (hfrom : sector_from.toNat + bucket_size.toNat < 2 ^ 64)
    (hto : sector_to.toNat + bucket_size.toNat < 2 ^ 64) :
    ∃ r, mark_nouse_range bucket_size nouse sector_from sector_to = some r ∧
      ∀ n, r n = true ↔ nouse n = true ∨
        range_marks bucket_size.toNat sector_from.toNat sector_to.toNat n := by
  have hbs64 : bucket_size.toUInt64.toNat = bucket_size.toNat := UInt32.toNat_toUInt64 _
  let I := mark_inv bucket_size.toNat (sector_from.toNat / bucket_size.toNat) sector_to.toNat nouse
  -- the test, on the states of the invariant, is the test on numbers
  have hcond : ∀ s, I s → (decide (bucket_to_sector bucket_size s.2 < sector_to) = true ↔
      s.2.toNat * bucket_size.toNat < sector_to.toNat) := by
    intro s hs
    rw [decide_eq_true_iff, bucket_to_sector, UInt64.lt_iff_toNat_lt, UInt64.toNat_mul, hbs64,
      Nat.mod_eq_of_lt (hs.mul_lt hfrom hto)]
  have hstep : ∀ s, I s → decide (bucket_to_sector bucket_size s.2 < sector_to) = true →
      I (mark_nouse_step s) ∧ 2 ^ 64 - (mark_nouse_step s).2.toNat < 2 ^ 64 - s.2.toNat := by
    intro s hs hc
    have hc' := (hcond s hs).mp hc
    have hle : s.2.toNat ≤ s.2.toNat * bucket_size.toNat := Nat.le_mul_of_pos_right _ hbs
    have hnext : (mark_nouse_step s).2.toNat = s.2.toNat + 1 := by
      show (s.2 + 1).toNat = s.2.toNat + 1
      rw [UInt64.toNat_add, UInt64.toNat_one, Nat.mod_eq_of_lt (by omega)]
    have hfirst := hs.first_lt
    refine ⟨⟨by omega, Or.inr (by rwa [hnext, Nat.add_sub_cancel]), fun n => ?_⟩,
      by have := UInt64.toNat_lt s.2; omega⟩
    rw [hnext]
    exact set_bit_run (le_of_lt hfirst) hs.bits n
  -- the first bucket is marked before the first test
  have hI0 : I (mark_nouse_step (nouse, sector_to_bucket bucket_size sector_from)) := by
    have hb0 : (sector_to_bucket bucket_size sector_from).toNat =
        sector_from.toNat / bucket_size.toNat := by
      rw [sector_to_bucket, UInt64.toNat_div, hbs64]
    have hle := Nat.div_le_self sector_from.toNat bucket_size.toNat
    have hnext : (sector_to_bucket bucket_size sector_from + 1).toNat =
        sector_from.toNat / bucket_size.toNat + 1 := by
      rw [UInt64.toNat_add, UInt64.toNat_one, hb0, Nat.mod_eq_of_lt (by omega)]
    refine ⟨by rw [mark_nouse_step, hnext]; exact Nat.lt_succ_self _, Or.inl hnext, fun n => ?_⟩
    show set_bit nouse _ n = true ↔ _
    rw [mark_nouse_step, hnext, ← hb0]
    exact set_bit_run le_rfl
      (fun n => ⟨Or.inl, fun h => h.elim id fun h => absurd h.2 (not_lt.mpr h.1)⟩) n
  have hfuel : 2 ^ 64 - (mark_nouse_step (nouse, sector_to_bucket bucket_size sector_from)).2.toNat <
      MARK_NOUSE_FUEL :=
    Nat.sub_lt (Nat.two_pow_pos 64) (lt_of_le_of_lt (Nat.zero_le _) hI0.first_lt)
  obtain ⟨r, hr⟩ := whileLoop_isSome_of_measure I (fun s => 2 ^ 64 - s.2.toNat) hstep hI0 hfuel
  obtain ⟨hI, hexit⟩ := whileLoop_inv I (fun s hs hc => (hstep s hs hc).1) hI0 hr
  have hexit' : sector_to.toNat ≤ r.2.toNat * bucket_size.toNat := by
    have := mt (hcond r hI).mpr (by simp [hexit])
    omega
  refine ⟨r.1, by rw [mark_nouse_range, hr]; rfl, fun n => ?_⟩
  rw [hI.bits, hI.range_marks_iff hexit' n]

/-! ### Bytes, sectors and buckets -/

/-- `>> 9` turns a byte offset into the sector that holds it. -/
theorem sector_of_byte_toNat (a : UInt64) : (a >>> 9).toNat = a.toNat / 512 := by
  rw [UInt64.toNat_shiftRight, Nat.shiftRight_eq_div_pow]
  rfl

/-- The sector after a hole's last byte, when adding a sector to its end does not wrap. -/
theorem sector_round_up_toNat {a : UInt64} (ha : a.toNat + 512 < 2 ^ 64) :
    ((a + ((1 : UInt64) <<< 9) - 1) >>> 9).toNat = (a.toNat + 511) / 512 := by
  have h512 : (1 : UInt64) <<< 9 = 512 := by decide
  have hadd : (a + 512).toNat = a.toNat + 512 := by
    rw [UInt64.toNat_add, show (512 : UInt64).toNat = 512 from rfl,
      Nat.mod_eq_of_lt (show a.toNat + 512 < 2 ^ 64 by omega)]
  have hsub : (a + 512 - 1).toNat = a.toNat + 511 := by
    rw [UInt64.toNat_sub_of_le (a + 512) 1
      (UInt64.le_iff_toNat_le.mpr (by rw [hadd, UInt64.toNat_one]; omega)), hadd, UInt64.toNat_one]
    omega
  rw [h512, sector_of_byte_toNat, hsub]

/-- The device's size in bytes, when it fits in a word. -/
theorem max_bytes_toNat (bucket_size : UInt32) (nbuckets : UInt64)
    (h : nbuckets.toNat * bucket_size.toNat * 512 < 2 ^ 64) :
    (bucket_to_sector bucket_size nbuckets <<< 9).toNat = nbuckets.toNat * bucket_size.toNat * 512 := by
  have hsec : (bucket_to_sector bucket_size nbuckets).toNat = nbuckets.toNat * bucket_size.toNat := by
    rw [bucket_to_sector, UInt64.toNat_mul, UInt32.toNat_toUInt64, Nat.mod_eq_of_lt (by omega)]
  rw [UInt64.toNat_shiftLeft, hsec, Nat.shiftLeft_eq]
  exact Nat.mod_eq_of_lt h

/-- The end of the superblock area, in sectors, for a layout of fewer than `63` size bits. -/
theorem sb_end_toNat {sb_max_size_bits : UInt8} (h : sb_max_size_bits.toNat < 63) :
    (BCH_SB_SECTOR + ((1 : UInt64) <<< sb_max_size_bits.toUInt64) * 2).toNat =
      8 + 2 ^ sb_max_size_bits.toNat * 2 := by
  have hpow : 2 ^ sb_max_size_bits.toNat ≤ 2 ^ 62 := Nat.pow_le_pow_right (by decide) (by omega)
  have hshift : ((1 : UInt64) <<< sb_max_size_bits.toUInt64).toNat = 2 ^ sb_max_size_bits.toNat := by
    rw [UInt64.toNat_shiftLeft, UInt8.toNat_toUInt64, Nat.mod_eq_of_lt (by omega : _ < 64),
      UInt64.toNat_one, Nat.shiftLeft_eq, Nat.one_mul, Nat.mod_eq_of_lt (by omega)]
  rw [UInt64.toNat_add, UInt64.toNat_mul, hshift, show BCH_SB_SECTOR.toNat = 8 from rfl,
    show (2 : UInt64).toNat = 2 from rfl,
    Nat.mod_eq_of_lt (show 2 ^ sb_max_size_bits.toNat * 2 < 2 ^ 64 by omega),
    Nat.mod_eq_of_lt (show 8 + 2 ^ sb_max_size_bits.toNat * 2 < 2 ^ 64 by omega)]

/-- The buckets a hole's marking reaches: its bytes rounded out to sectors. -/
def hole_marks (bucket_size : ℕ) (hole : ℕ × ℕ) (n : ℕ) : Prop :=
  range_marks bucket_size (hole.1 / 512) ((hole.2 + 511) / 512) n

/-- A hole reaches the bucket of each of its bytes. -/
theorem hole_marks_of_mem {bucket_size b x : ℕ} {h : ℕ × ℕ} (hbs : 0 < bucket_size) (hx : mem h x)
    (hb : b * bucket_size * 512 ≤ x ∧ x < (b + 1) * bucket_size * 512) :
    hole_marks bucket_size h b := by
  obtain ⟨hx1, hx2⟩ := hx
  rw [Nat.add_one_mul] at hb
  refine ⟨?_, Or.inr (by omega)⟩
  -- the hole starts at or before the byte's bucket
  have hstart : h.1 / 512 < (b + 1) * bucket_size := by
    rw [Nat.add_one_mul]
    omega
  exact Nat.lt_succ_iff.mp ((Nat.div_lt_iff_lt_mul hbs).mpr hstart)

/-- A hole that ends before a bucket or starts after it does not reach it. -/
theorem not_hole_marks_of_disjoint {bucket_size b : ℕ} {h : ℕ × ℕ} (hbs : 0 < bucket_size)
    (hlt : h.1 < h.2)
    (hd : h.2 ≤ b * bucket_size * 512 ∨ (b + 1) * bucket_size * 512 ≤ h.1) :
    ¬ hole_marks bucket_size h b := by
  rintro ⟨h1, h2⟩
  rcases hd with hd | hd
  · rcases h2 with h2 | h2
    · -- the bucket of the hole's start starts at or before it
      have hle := Nat.div_mul_le_self (h.1 / 512) bucket_size
      rw [← h2] at hle
      omega
    · omega
  · have hafter : b + 1 ≤ h.1 / 512 / bucket_size :=
      (Nat.le_div_iff_mul_le hbs).mpr (by rw [Nat.add_one_mul] at hd ⊢; omega)
    omega

/-- The buckets a marking reaches lie on a device of `nbuckets` buckets when its range starts
and ends on it. -/
theorem range_marks_lt {bucket_size sector_from sector_to nbuckets n : ℕ} (hbs : 0 < bucket_size)
    (hfrom : sector_from < nbuckets * bucket_size) (hto : sector_to ≤ nbuckets * bucket_size)
    (hm : range_marks bucket_size sector_from sector_to n) : n < nbuckets := by
  obtain ⟨-, h | h⟩ := hm
  · rw [h]
    exact (Nat.div_lt_iff_lt_mul hbs).mpr hfrom
  · exact Nat.lt_of_mul_lt_mul_right (lt_of_lt_of_le h hto)

/-! ### Marking the holes -/

/-- The body of `mark_unreserved_space`'s loop over the holes. -/
def mark_hole (bucket_size : UInt32) (nouse : ℕ → Bool) (hole : CRange) : Option (ℕ → Bool) :=
  if hole.start = hole.end_ then some nouse
  else mark_nouse_range bucket_size nouse (hole.start >>> 9)
    ((hole.end_ + ((1 : UInt64) <<< 9) - 1) >>> 9)

/-- `mark_unreserved_space` is the loop over the holes below the device's end, each marked by
`mark_hole`, and then the mark of the superblock area from sector `0`. -/
theorem mark_unreserved_space_eq (bucket_size : UInt16) (nbuckets : UInt64)
    (sb_max_size_bits : UInt8) (extents : List CRange) (nouse : ℕ → Bool) :
    mark_unreserved_space bucket_size nbuckets sb_max_size_bits extents nouse =
      ((for_each_hole extents (bucket_to_sector bucket_size.toUInt32 nbuckets <<< 9)).foldlM
        (mark_hole bucket_size.toUInt32) nouse).bind fun nouse =>
          mark_nouse_range bucket_size.toUInt32 nouse 0
            (BCH_SB_SECTOR + ((1 : UInt64) <<< sb_max_size_bits.toUInt64) * 2) := rfl

/-- `mark_hole` on a nonempty hole whose end is at least a sector below `2 ^ 64` marks the buckets
from the one holding its first byte to the one holding its last, and keeps every bit set before. -/
theorem mark_hole_spec (bucket_size : UInt32) (nouse : ℕ → Bool) (hole : CRange)
    (hbs : 0 < bucket_size.toNat) (hlt : hole.start.toNat < hole.end_.toNat)
    (hend : hole.end_.toNat + 512 < 2 ^ 64) :
    ∃ r, mark_hole bucket_size nouse hole = some r ∧
      ∀ n, r n = true ↔ nouse n = true ∨ hole_marks bucket_size.toNat hole.toNat n := by
  have hne : hole.start ≠ hole.end_ := fun h => absurd (congrArg UInt64.toNat h) (ne_of_lt hlt)
  have hbs32 := UInt32.toNat_lt bucket_size
  have hfrom := sector_of_byte_toNat hole.start
  have hto := sector_round_up_toNat hend
  -- the hole marks the sectors from its first byte's to the one past its last byte's
  obtain ⟨r, hr, hbits⟩ := mark_nouse_range_spec bucket_size nouse (hole.start >>> 9)
    ((hole.end_ + ((1 : UInt64) <<< 9) - 1) >>> 9) hbs (by rw [hfrom]; omega) (by rw [hto]; omega)
  refine ⟨r, by rw [mark_hole, if_neg hne]; exact hr, fun n => ?_⟩
  rw [hbits, hfrom, hto]
  exact Iff.rfl

/-- The run lemma of the loop over the holes: each nonempty hole far enough from `2 ^ 64`
adds the buckets it reaches. -/
theorem foldlM_mark_hole_spec (bucket_size : UInt32) (hbs : 0 < bucket_size.toNat) :
    ∀ (H : List CRange) (nouse : ℕ → Bool),
      (∀ h ∈ H, h.start.toNat < h.end_.toNat ∧ h.end_.toNat + 512 < 2 ^ 64) →
      ∃ r, H.foldlM (mark_hole bucket_size) nouse = some r ∧
        ∀ n, r n = true ↔ nouse n = true ∨
          ∃ h ∈ H.map CRange.toNat, hole_marks bucket_size.toNat h n
  | [], nouse, _ => ⟨nouse, rfl, fun n => by simp⟩
  | h :: H, nouse, hH => by
    obtain ⟨hlt, hend⟩ := hH h List.mem_cons_self
    obtain ⟨r₁, hr₁, hbits₁⟩ := mark_hole_spec bucket_size nouse h hbs hlt hend
    obtain ⟨r, hr, hbits⟩ := foldlM_mark_hole_spec bucket_size hbs H r₁
      (fun h' hh' => hH h' (List.mem_cons_of_mem h hh'))
    refine ⟨r, by rw [List.foldlM_cons, hr₁]; exact hr, fun n => ?_⟩
    rw [hbits, hbits₁]
    simp only [List.map_cons, List.mem_cons, exists_eq_or_imp, or_assoc]

/-! ### What `mark_unreserved_space` marks -/

section Unreserved

variable {bucket_size : UInt16} {nbuckets : UInt64} {sb_max_size_bits : UInt8}
  {extents : List CRange} (hbs : 0 < bucket_size.toNat) (hwf : ∀ r ∈ extents, r.start ≤ r.end_)
  (hext : ∀ r ∈ extents, r.start.toNat + 512 < 2 ^ 64)
  (hdev : nbuckets.toNat * bucket_size.toNat * 512 + 512 < 2 ^ 64)
  (hsb : sb_max_size_bits.toNat < 63)
include hbs hwf hext hdev hsb

/-- After `mark_unreserved_space` on the merged extents, the bits set are those set before,
the buckets the holes below the device's end reach, and the superblock area's. -/
theorem mark_unreserved_space_spec (nouse : ℕ → Bool) :
    ∃ r, mark_unreserved_space bucket_size nbuckets sb_max_size_bits (ranges_sort_merge extents)
        nouse = some r ∧
      ∀ n, r n = true ↔ nouse n = true ∨
        (∃ h ∈ gaps 0 (nbuckets.toNat * bucket_size.toNat * 512)
          ((ranges_sort_merge extents).map CRange.toNat), hole_marks bucket_size.toNat h n) ∨
        range_marks bucket_size.toNat 0 (8 + 2 ^ sb_max_size_bits.toNat * 2) n := by
  obtain ⟨hsep, hmwf, -, hstart⟩ := ranges_sort_merge_spec hwf
  have hbs32 : bucket_size.toUInt32.toNat = bucket_size.toNat := UInt16.toNat_toUInt32 _
  have hbs16 := UInt16.toNat_lt bucket_size
  have hmax := max_bytes_toNat bucket_size.toUInt32 nbuckets
    (by rw [hbs32]; exact lt_of_le_of_lt (Nat.le_add_right _ 512) hdev)
  rw [hbs32] at hmax
  have hholes := for_each_hole_toNat (ranges_sort_merge extents)
    (bucket_to_sector bucket_size.toUInt32 nbuckets <<< 9)
  rw [hmax] at hholes
  -- every hole is nonempty and ends below the device's end or an extent's start
  have hH : ∀ h ∈ for_each_hole (ranges_sort_merge extents)
      (bucket_to_sector bucket_size.toUInt32 nbuckets <<< 9),
      h.start.toNat < h.end_.toNat ∧ h.end_.toNat + 512 < 2 ^ 64 := by
    intro h hh
    have hmem : h.toNat ∈ gaps 0 (nbuckets.toNat * bucket_size.toNat * 512)
        ((ranges_sort_merge extents).map CRange.toNat) := hholes ▸ List.mem_map_of_mem hh
    have hle := gaps_le 0 _ _
      (show nbuckets.toNat * bucket_size.toNat * 512 ≤ 2 ^ 64 - 513 by omega)
      (fun a ha => by
        obtain ⟨b, hb, hba⟩ := hstart a ha
        have := hext b hb
        omega) h.toNat hmem
    have hlt := gaps_nonempty 0 _ hsep hmwf (fun _ _ => Nat.zero_le _) h.toNat hmem
    change h.end_.toNat ≤ 2 ^ 64 - 513 at hle
    exact ⟨hlt, by omega⟩
  obtain ⟨r₁, hr₁, hbits₁⟩ :=
    foldlM_mark_hole_spec bucket_size.toUInt32 (by rw [hbs32]; exact hbs) _ nouse hH
  have hsb_end := sb_end_toNat hsb
  have hpow : 2 ^ sb_max_size_bits.toNat ≤ 2 ^ 62 := Nat.pow_le_pow_right (by decide) (by omega)
  obtain ⟨r, hr, hbits⟩ := mark_nouse_range_spec bucket_size.toUInt32 r₁ 0
    (BCH_SB_SECTOR + ((1 : UInt64) <<< sb_max_size_bits.toUInt64) * 2) (by rw [hbs32]; exact hbs)
    (by rw [hbs32, UInt64.toNat_zero]; omega) (by rw [hbs32, hsb_end]; omega)
  refine ⟨r, by rw [mark_unreserved_space_eq, hr₁]; exact hr, fun n => ?_⟩
  rw [hbits, hbits₁, hholes, hbs32, hsb_end, UInt64.toNat_zero, or_assoc]

/-- Every bucket of the device that holds a byte no extent covers, or a sector of the
superblock area, is marked. -/
theorem mark_unreserved_space_marks (nouse : ℕ → Bool) :
    ∃ r, mark_unreserved_space bucket_size nbuckets sb_max_size_bits (ranges_sort_merge extents)
        nouse = some r ∧
      ∀ b < nbuckets.toNat,
        ((∃ x, b * bucket_size.toNat * 512 ≤ x ∧ x < (b + 1) * bucket_size.toNat * 512 ∧
            ¬ covers (extents.map CRange.toNat) x) ∨
          b * bucket_size.toNat < 8 + 2 ^ sb_max_size_bits.toNat * 2) → r b = true := by
  obtain ⟨r, hr, hbits⟩ := mark_unreserved_space_spec hbs hwf hext hdev hsb nouse
  obtain ⟨hsep, hmwf, hcov, -⟩ := ranges_sort_merge_spec hwf
  refine ⟨r, hr, fun b hb hout => (hbits b).mpr (Or.inr ?_)⟩
  rcases hout with ⟨x, hx1, hx2, hx⟩ | hsbb
  · -- the byte lies below the device's end, so in a hole
    have hbucket : (b + 1) * bucket_size.toNat * 512 ≤ nbuckets.toNat * bucket_size.toNat * 512 :=
      Nat.mul_le_mul_right 512 (Nat.mul_le_mul_right _ hb)
    have hgap : covers (gaps 0 (nbuckets.toNat * bucket_size.toNat * 512)
        ((ranges_sort_merge extents).map CRange.toNat)) x :=
      (gaps_covers_iff 0 _ hsep hmwf (fun _ _ => Nat.zero_le _) x).mpr
        ⟨Nat.zero_le _, fun h => hx ((hcov x).mp h), Or.inl (lt_of_lt_of_le hx2 hbucket)⟩
    obtain ⟨h, hh, hxh⟩ := hgap
    exact Or.inl ⟨h, hh, hole_marks_of_mem hbs hxh ⟨hx1, hx2⟩⟩
  · exact Or.inr ⟨by simp, Or.inr hsbb⟩

/-- A bucket every byte of which an extent covers, above the superblock area, keeps its bit. -/
theorem mark_unreserved_space_keeps (nouse : ℕ → Bool) :
    ∃ r, mark_unreserved_space bucket_size nbuckets sb_max_size_bits (ranges_sort_merge extents)
        nouse = some r ∧
      ∀ b, (∀ x, b * bucket_size.toNat * 512 ≤ x → x < (b + 1) * bucket_size.toNat * 512 →
          covers (extents.map CRange.toNat) x) →
        8 + 2 ^ sb_max_size_bits.toNat * 2 ≤ b * bucket_size.toNat → r b = nouse b := by
  obtain ⟨r, hr, hbits⟩ := mark_unreserved_space_spec hbs hwf hext hdev hsb nouse
  obtain ⟨hsep, hmwf, hcov, -⟩ := ranges_sort_merge_spec hwf
  refine ⟨r, hr, fun b hin hsbb => Bool.eq_iff_iff.mpr ?_⟩
  rw [hbits]
  refine ⟨fun h => h.elim id fun h => h.elim (fun ⟨g, hg, hm⟩ => ?_) (fun hm => ?_), Or.inl⟩
  · -- a hole reaching the bucket would share a byte with it, which no extent covers
    refine absurd hm (not_hole_marks_of_disjoint hbs
      (gaps_nonempty 0 _ hsep hmwf (fun _ _ => Nat.zero_le _) g hg) ?_)
    by_contra hnd
    simp only [not_or, not_le] at hnd
    have hbucket : b * bucket_size.toNat * 512 < (b + 1) * bucket_size.toNat * 512 :=
      Nat.mul_lt_mul_of_pos_right (Nat.mul_lt_mul_of_pos_right (Nat.lt_succ_self b) hbs)
        (by decide)
    have hy := hin (max g.1 (b * bucket_size.toNat * 512)) (le_max_right _ _)
      (max_lt hnd.2 hbucket)
    have hgy : covers (gaps 0 (nbuckets.toNat * bucket_size.toNat * 512)
        ((ranges_sort_merge extents).map CRange.toNat)) (max g.1 (b * bucket_size.toNat * 512)) :=
      ⟨g, hg, le_max_left _ _,
        max_lt (gaps_nonempty 0 _ hsep hmwf (fun _ _ => Nat.zero_le _) g hg) hnd.1⟩
    exact ((gaps_covers_iff 0 _ hsep hmwf (fun _ _ => Nat.zero_le _) _).mp hgy).2.1
      ((hcov _).mpr hy)
  · -- the superblock area ends at or before the bucket
    obtain ⟨-, h0 | hlt⟩ := hm
    · rw [Nat.zero_div] at h0
      rw [h0, Nat.zero_mul] at hsbb
      omega
    · omega

/-- When every extent starts on the device and the superblock area fits on it, no bit past
the device's buckets is set. -/
theorem mark_unreserved_space_within
    (hin : ∀ r ∈ extents, r.start.toNat ≤ nbuckets.toNat * bucket_size.toNat * 512)
    (hsbin : 8 + 2 ^ sb_max_size_bits.toNat * 2 ≤ nbuckets.toNat * bucket_size.toNat)
    (nouse : ℕ → Bool) :
    ∃ r, mark_unreserved_space bucket_size nbuckets sb_max_size_bits (ranges_sort_merge extents)
        nouse = some r ∧
      ∀ n, nbuckets.toNat ≤ n → r n = nouse n := by
  obtain ⟨r, hr, hbits⟩ := mark_unreserved_space_spec hbs hwf hext hdev hsb nouse
  obtain ⟨hsep, hmwf, -, hstart⟩ := ranges_sort_merge_spec hwf
  refine ⟨r, hr, fun n hn => Bool.eq_iff_iff.mpr ?_⟩
  rw [hbits]
  refine ⟨fun h => h.elim id fun h => h.elim (fun ⟨g, hg, hm⟩ => ?_) (fun hm => ?_), Or.inl⟩
  · -- every hole ends on the device
    have hle := gaps_le 0 _ _ le_rfl (fun a ha => by
      obtain ⟨b, hb, hba⟩ := hstart a ha
      rw [← hba]
      exact hin b hb) g hg
    have hlt := gaps_nonempty 0 _ hsep hmwf (fun _ _ => Nat.zero_le _) g hg
    exact absurd (range_marks_lt hbs (by omega) (by omega) hm) (not_lt.mpr hn)
  · exact absurd (range_marks_lt hbs (by omega) hsbin hm) (not_lt.mpr hn)

/-- What `mark_unreserved_space` guarantees while no word computation wraps: it marks every
bucket of the device that holds a byte no extent covers, or a sector of the superblock area;
a bucket every byte of which an extent covers, above that area, keeps its bit; and when every
extent starts on the device and the superblock area fits on it, no bit at or past `nbuckets`
changes. -/
theorem mark_unreserved_space_safe (nouse : ℕ → Bool) :
    ∃ r, mark_unreserved_space bucket_size nbuckets sb_max_size_bits (ranges_sort_merge extents)
        nouse = some r ∧
      (∀ b < nbuckets.toNat,
        ((∃ x, b * bucket_size.toNat * 512 ≤ x ∧ x < (b + 1) * bucket_size.toNat * 512 ∧
            ¬ covers (extents.map CRange.toNat) x) ∨
          b * bucket_size.toNat < 8 + 2 ^ sb_max_size_bits.toNat * 2) → r b = true) ∧
      (∀ b, (∀ x, b * bucket_size.toNat * 512 ≤ x → x < (b + 1) * bucket_size.toNat * 512 →
          covers (extents.map CRange.toNat) x) →
        8 + 2 ^ sb_max_size_bits.toNat * 2 ≤ b * bucket_size.toNat → r b = nouse b) ∧
      ((∀ e ∈ extents, e.start.toNat ≤ nbuckets.toNat * bucket_size.toNat * 512) →
        8 + 2 ^ sb_max_size_bits.toNat * 2 ≤ nbuckets.toNat * bucket_size.toNat →
        ∀ n, nbuckets.toNat ≤ n → r n = nouse n) := by
  obtain ⟨r, hr, hmarks⟩ := mark_unreserved_space_marks hbs hwf hext hdev hsb nouse
  obtain ⟨r', hr', hkeeps⟩ := mark_unreserved_space_keeps hbs hwf hext hdev hsb nouse
  -- the call has one result, which both describe
  obtain rfl : r = r' := Option.some.inj (hr.symm.trans hr')
  refine ⟨r, hr, hmarks, hkeeps, fun hin hsbin => ?_⟩
  obtain ⟨r'', hr'', hwithin⟩ := mark_unreserved_space_within hbs hwf hext hdev hsb hin hsbin nouse
  obtain rfl : r = r'' := Option.some.inj (hr.symm.trans hr'')
  exact hwithin

end Unreserved

/-- A device of 64 buckets of 16 sectors holding one extent, over buckets 1 to 1. -/
theorem mark_unreserved_space_safe_one_extent :
    ∃ r, mark_unreserved_space 16 64 0 (ranges_sort_merge [⟨8192, 16384⟩]) (fun _ => false) = some r ∧
      (∀ b < (64 : UInt64).toNat,
        ((∃ x, b * (16 : UInt16).toNat * 512 ≤ x ∧ x < (b + 1) * (16 : UInt16).toNat * 512 ∧
            ¬ covers (([⟨8192, 16384⟩] : List CRange).map CRange.toNat) x) ∨
          b * (16 : UInt16).toNat < 8 + 2 ^ (0 : UInt8).toNat * 2) → r b = true) ∧
      (∀ b, (∀ x, b * (16 : UInt16).toNat * 512 ≤ x → x < (b + 1) * (16 : UInt16).toNat * 512 →
          covers (([⟨8192, 16384⟩] : List CRange).map CRange.toNat) x) →
        8 + 2 ^ (0 : UInt8).toNat * 2 ≤ b * (16 : UInt16).toNat → r b = (fun _ => false) b) ∧
      ((∀ e ∈ ([⟨8192, 16384⟩] : List CRange), e.start.toNat ≤ (64 : UInt64).toNat * (16 : UInt16).toNat * 512) →
        8 + 2 ^ (0 : UInt8).toNat * 2 ≤ (64 : UInt64).toNat * (16 : UInt16).toNat →
        ∀ n, (64 : UInt64).toNat ≤ n → r n = (fun _ => false) n) :=
  mark_unreserved_space_safe (by decide) (by simp) (by simp) (by decide) (by decide) _

/-- A device of 64 buckets of 16 sectors and a reserved extent that starts one sector past
its last whole bucket: the hole before the extent is not clipped at the device's end, and
the bit of bucket 64 is set. -/
theorem mark_unreserved_space_past_nbuckets :
    (mark_unreserved_space 16 64 0 (ranges_sort_merge [⟨524800, 532480⟩]) fun _ => false).map
      (fun r => r 64) = some true := by
  decide +kernel

end Bcachefs.Migrate
