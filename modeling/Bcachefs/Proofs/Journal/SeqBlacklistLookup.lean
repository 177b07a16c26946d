import Bcachefs.Proofs.Journal.SeqBlacklist

/-!
# Looking up the blacklist

The lookups search a table whose entries, along the inorder, are a valid superblock list
(`TableInv`). On such a table the entries are sorted by start and by end alike, so the two
searches of `Util.Eytzinger` find the ranges of `Intervals.Ordered` (`find_le_table`,
`find_gt_table`): the last range that starts at or before `seq`, and the first that ends after
it. From them:

* `bch2_journal_seq_is_blacklisted` answers whether `seq` is blacklisted, and marking the range
  dirty keeps the table (`is_blacklisted_table`);
* `bch2_journal_seq_next_blacklisted` returns the least blacklisted number from `seq` on, or
  `U64_MAX` when there is none (`next_blacklisted_table`);
* the loop of `bch2_journal_seq_next_nonblacklisted` stops, each round moving `seq` to the end
  of the range it is in, at the least number from `seq` on that is not blacklisted
  (`next_nonblacklisted_loop_spec`);
* `bch2_journal_last_blacklisted_seq` returns the greatest blacklisted number
  (`last_blacklisted_table`);
* `bch2_blacklist_entries_gc` finds the table and the list in step, so none of its `BUG_ON`s
  fires, and keeps the ranges that are dirty or reach `oldest_seq_found_ondisk`
  (`blacklist_entries_gc_table`).

The searches are proved for fewer than `2 ^ 30 - 1` entries.
-/

set_option autoImplicit false
set_option linter.style.nameCheck false

namespace Bcachefs.Proofs.Journal

open Bcachefs Bcachefs.Journal Bcachefs.Intervals Bcachefs.Loop Bcachefs.Tree Bcachefs.Proofs.Util
open Bcachefs.Proofs.Btree

/-! ### Comparisons -/

/-- `cmp_int a b ≤ 0` on `u64`s is `a ≤ b` as numbers. -/
theorem cmp_int_uint64_nonpos_iff (a b : UInt64) : cmp_int a b ≤ 0 ↔ a.toNat ≤ b.toNat := by
  rw [cmp_int_uint64, ← cmpPreorder_cmp_int.swap, cmp_int_nonneg_iff]

/-- `cmp_int a b > 0` on `u64`s is `b < a` as numbers. -/
theorem cmp_int_uint64_pos_iff (a b : UInt64) : 0 < cmp_int a b ↔ b.toNat < a.toNat := by
  rw [← not_le, cmp_int_uint64_nonpos_iff, not_le]

/-- A count below `2 ^ 64` as a `u64`. -/
theorem toNat_toUInt64_nr {n : Nat} (hn : n < 2 ^ 64) : n.toUInt64.toNat = n := by
  rw [Nat.toUInt64_eq, UInt64.toNat_ofNat_of_lt' (by rw [UInt64.size]; omega)]

/-! ### The table is sorted by start and by end -/

section Table

variable {t : journal_seq_blacklist_table} {bl : List journal_seq_blacklist_entry}

/-- An order of the superblock list is one of the table along the inorder. -/
theorem TableInv.pairwise (h : TableInv t bl)
    {R : journal_seq_blacklist_entry → journal_seq_blacklist_entry → Prop} (hR : bl.Pairwise R) :
    ((inorder t.nr 1).map fun i => t.entries (i - 1)).Pairwise
      fun x y => R (toEntry x) (toEntry y) := by
  rw [← h.inorder_eq, List.pairwise_map] at hR
  rw [List.pairwise_map]
  exact hR

/-- Along the inorder the table's starts climb: the table is sorted by
`journal_seq_blacklist_table_cmp`. -/
theorem TableInv.sorted_start (h : TableInv t bl) (hv : Valid bl) :
    ((inorder t.nr 1).map fun i => t.entries (i - 1)).Pairwise
      fun x y => journal_seq_blacklist_table_cmp x y ≤ 0 := by
  have hs := Ordered.starts_lt hv.proper hv.ordered
  rw [List.pairwise_map] at hs
  -- the starts of a valid list climb strictly
  refine (h.pairwise hs).imp fun hxy => ?_
  rw [journal_seq_blacklist_table_cmp, cmp_int_uint64_nonpos_iff]
  exact le_of_lt hxy

/-- Along the inorder the table's ends climb: the table is sorted by
`journal_seq_blacklist_table_end_cmp`. -/
theorem TableInv.sorted_end (h : TableInv t bl) (hv : Valid bl) :
    ((inorder t.nr 1).map fun i => t.entries (i - 1)).Pairwise
      fun x y => journal_seq_blacklist_table_end_cmp x y ≤ 0 := by
  have hs := Ordered.ends_lt hv.proper hv.ordered
  rw [List.pairwise_map] at hs
  -- the ends of a valid list climb strictly
  refine (h.pairwise hs).imp fun hxy => ?_
  rw [journal_seq_blacklist_table_end_cmp, cmp_int_uint64_nonpos_iff]
  exact le_of_lt hxy

/-- Marking an entry dirty does not change what the table holds. -/
theorem TableInv.mark_dirty (h : TableInv t bl) (k : Nat) :
    TableInv { t with entries := Function.update t.entries k { t.entries k with dirty := true } }
      bl := by
  refine ⟨h.nr_eq, ?_⟩
  rw [← h.inorder_eq]
  refine List.map_congr_left fun x _ => ?_
  dsimp only
  -- the flag is not part of what the table holds
  by_cases hx : x - 1 = k
  · rw [hx, Function.update_self]
    rfl
  · rw [Function.update_of_ne hx]

/-! ### What the searches find -/

/-- The index a search returns for the node it found: `-1` for none, else the node less one. -/
theorem search_index {n : Nat} {o : Option Nat}
    (ho : ∀ i, o = some i → i ∈ inorder n 1) {idx : Int32}
    (hidx : idx.toInt = ((o.getD 0 : Nat) : Int) - 1) :
    (o = none → idx < 0) ∧ ∀ i, o = some i → ¬ idx < 0 ∧ idx.toNatClampNeg = i - 1 := by
  refine ⟨fun hnone => ?_, fun i hi => ?_⟩
  · rw [hnone, Option.getD_none] at hidx
    rw [Int32.lt_iff_toInt_lt, hidx, Int32.toInt_zero]
    omega
  -- a node is at least `1`, so its index is not negative
  · have hmem := mem_inorder_one.mp (ho i hi)
    rw [hi, Option.getD_some] at hidx
    rw [Int32.lt_iff_toInt_lt, hidx, Int32.toInt_zero, Int32.toNatClampNeg, hidx]
    omega

/-- The last node of the inorder whose entry starts at or before `seq` holds the list's last range
that does. -/
theorem lastStartLe_table (h : TableInv t bl) (seq : UInt64) :
    (((inorder t.nr 1).filter fun i => decide (journal_seq_blacklist_table_cmp (t.entries (i - 1))
        (blacklist_search_start seq) ≤ 0)).getLast?).map
        (fun i => span (toEntry (t.entries (i - 1)))) =
      lastStartLe (bl.map span) seq.toNat := by
  rw [← h.inorder_eq, lastStartLe, List.map_map, List.filter_map, List.getLast?_map]
  congr 2
  -- the table's comparison with `{ .start = seq }` is the comparison of starts
  refine List.filter_congr fun i _ => ?_
  simp only [journal_seq_blacklist_table_cmp, blacklist_search_start, cmp_int_uint64_nonpos_iff,
    Function.comp_apply, span_fst, toEntry_start]
  exact decide_eq_decide.mpr Iff.rfl

/-- The first node of the inorder whose entry ends after `seq` holds the list's first range that
does. -/
theorem firstEndGt_table (h : TableInv t bl) (seq : UInt64) :
    (((inorder t.nr 1).filter fun i => decide (0 < journal_seq_blacklist_table_end_cmp
        (t.entries (i - 1)) (blacklist_search_end seq))).head?).map
        (fun i => span (toEntry (t.entries (i - 1)))) =
      firstEndGt (bl.map span) seq.toNat := by
  rw [← h.inorder_eq, firstEndGt, List.map_map, List.filter_map, List.head?_map]
  congr 2
  -- the end comparison with `{ .end = seq }` is the comparison of ends
  refine List.filter_congr fun i _ => ?_
  simp only [journal_seq_blacklist_table_end_cmp, blacklist_search_end, cmp_int_uint64_pos_iff,
    Function.comp_apply, span_snd, toEntry_end]
  exact decide_eq_decide.mpr Iff.rfl

variable (h : TableInv t bl) (hv : Valid bl)
include h hv

/-- `eytzinger0_find_le` on `{ .start = seq }` finds the last range starting at or before
`seq`. -/
theorem find_le_table (hn : bl.length < 2 ^ 30) (seq : UInt64) :
    ∃ idx, eytzinger0_find_le t.entries t.nr.toUInt64 journal_seq_blacklist_table_cmp
        (blacklist_search_start seq) = some idx ∧
      (idx < 0 ∧ lastStartLe (bl.map span) seq.toNat = none ∨
        ¬ idx < 0 ∧
          lastStartLe (bl.map span) seq.toNat = some (span (toEntry (t.entries idx.toNatClampNeg)))) := by
  have hnr : t.nr.toUInt64.toNat = t.nr := toNat_toUInt64_nr (by rw [h.nr_eq]; omega)
  have hsorted := h.sorted_start hv
  rw [← hnr] at hsorted
  obtain ⟨idx, hfind, hval⟩ := Option.map_eq_some_iff.1
    (eytzinger0_find_le_spec cmpPreorder_table_cmp hsorted (by rw [hnr, h.nr_eq]; exact hn))
  refine ⟨idx, hfind, ?_⟩
  rw [lastLe, hnr] at hval
  -- the index is `-1` or the node the library's search finds, less one
  have hidx := search_index (n := t.nr)
    (fun i hi => (List.mem_filter.1 (List.mem_of_getLast? hi)).1) hval
  have hlast := lastStartLe_table h seq
  cases hF : ((inorder t.nr 1).filter fun i => decide (journal_seq_blacklist_table_cmp
      (t.entries (i - 1)) (blacklist_search_start seq) ≤ 0)).getLast? with
  | none =>
    rw [hF, Option.map_none] at hlast
    exact Or.inl ⟨hidx.1 hF, hlast.symm⟩
  | some i =>
    obtain ⟨hneg, hnat⟩ := hidx.2 i hF
    rw [hF, Option.map_some] at hlast
    exact Or.inr ⟨hneg, by rw [← hlast, hnat]⟩

/-- `eytzinger0_find_gt` on `{ .end = seq }` with the end comparison finds the first range
ending after `seq`. -/
theorem find_gt_table (hn : bl.length < 2 ^ 30 - 1) (seq : UInt64) :
    ∃ idx, eytzinger0_find_gt t.entries t.nr.toUInt64 journal_seq_blacklist_table_end_cmp
        (blacklist_search_end seq) = some idx ∧
      (idx < 0 ∧ firstEndGt (bl.map span) seq.toNat = none ∨
        ¬ idx < 0 ∧
          firstEndGt (bl.map span) seq.toNat = some (span (toEntry (t.entries idx.toNatClampNeg)))) := by
  have hnr : t.nr.toUInt64.toNat = t.nr := toNat_toUInt64_nr (by rw [h.nr_eq]; omega)
  have hsorted := h.sorted_end hv
  rw [← hnr] at hsorted
  obtain ⟨idx, hfind, hval⟩ := Option.map_eq_some_iff.1
    (eytzinger0_find_gt_spec cmpPreorder_table_end_cmp hsorted (by rw [hnr, h.nr_eq]; exact hn))
  refine ⟨idx, hfind, ?_⟩
  rw [firstGt, hnr] at hval
  -- the index is `-1` or the node the library's search finds, less one
  have hidx := search_index (n := t.nr)
    (fun i hi => (List.mem_filter.1 (List.mem_of_mem_head? hi)).1) hval
  have hfirst := firstEndGt_table h seq
  cases hF : ((inorder t.nr 1).filter fun i => decide (0 < journal_seq_blacklist_table_end_cmp
      (t.entries (i - 1)) (blacklist_search_end seq))).head? with
  | none =>
    rw [hF, Option.map_none] at hfirst
    exact Or.inl ⟨hidx.1 hF, hfirst.symm⟩
  | some i =>
    obtain ⟨hneg, hnat⟩ := hidx.2 i hF
    rw [hF, Option.map_some] at hfirst
    exact Or.inr ⟨hneg, by rw [← hfirst, hnat]⟩

end Table

/-! ### The lookups on a table -/

section Lookups

variable {c : bch_fs} {t : journal_seq_blacklist_table} {bl : List journal_seq_blacklist_entry}
  (hc : c.journal_seq_blacklist_table = some t) (h : TableInv t bl) (hv : Valid bl)
include hc h hv

/-- On a table that holds a valid list, `bch2_journal_seq_is_blacklisted` answers whether `seq` is
blacklisted, and changes at most a `dirty` flag of the table. -/
theorem is_blacklisted_table (hn : bl.length < 2 ^ 30) (seq : UInt64) (dirty : Bool) :
    ∃ b c', bch2_journal_seq_is_blacklisted c seq dirty = some (b, c') ∧
      (b = true ↔ Blacklisted bl seq.toNat) ∧
      c'.journal_seq_blacklist = c.journal_seq_blacklist ∧
      c'.oldest_seq_found_ondisk = c.oldest_seq_found_ondisk ∧
      ∃ t', c'.journal_seq_blacklist_table = some t' ∧ TableInv t' bl := by
  obtain ⟨idx, hfind, hcase⟩ := find_le_table h hv hn seq
  have hcov := covers_iff_lastStartLe hv.proper hv.ordered seq.toNat
  unfold bch2_journal_seq_is_blacklisted
  rw [hc]
  dsimp only
  rw [hfind, Option.map_some]
  rcases hcase with ⟨hneg, hnone⟩ | ⟨hneg, hsome⟩
  · -- no range starts at or before `seq`
    rw [if_pos hneg]
    refine ⟨false, c, rfl, ?_, rfl, rfl, t, hc, h⟩
    rw [Blacklisted, hcov, hnone]
    simp
  · rw [if_neg hneg]
    by_cases hge : seq ≥ (t.entries idx.toNatClampNeg).«end»
    · -- `seq` lies past the end of the last range that starts at or before it
      rw [if_pos hge]
      refine ⟨false, c, rfl, ?_, rfl, rfl, t, hc, h⟩
      rw [Blacklisted, hcov, hsome]
      rw [ge_iff_le, UInt64.le_iff_toNat_le] at hge
      simp only [Bool.false_eq_true, false_iff, not_exists, not_and, Option.some.injEq]
      rintro r rfl
      exact not_lt.2 hge
    -- `seq` is in the range
    · rw [if_neg hge]
      have hb : Blacklisted bl seq.toNat := by
        rw [Blacklisted, hcov, hsome]
        rw [ge_iff_le, UInt64.le_iff_toNat_le, not_le] at hge
        exact ⟨_, rfl, hge⟩
      -- with `dirty` the range is marked, which the table does not see
      cases dirty
      · exact ⟨true, c, rfl, iff_of_true rfl hb, rfl, rfl, t, hc, h⟩
      · exact ⟨true, _, rfl, iff_of_true rfl hb, rfl, rfl, _, rfl, h.mark_dirty _⟩

/-- On a table that holds a valid list, `bch2_journal_seq_next_blacklisted` returns the least
blacklisted number from `seq` on, or `U64_MAX` when there is none. -/
theorem next_blacklisted_table (hn : bl.length < 2 ^ 30 - 1) (seq : UInt64) :
    ∃ r, bch2_journal_seq_next_blacklisted c seq = some r ∧
      (IsLeast {y | Blacklisted bl y ∧ seq.toNat ≤ y} r.toNat ∨
        r = U64_MAX ∧ ∀ y, seq.toNat ≤ y → ¬ Blacklisted bl y) := by
  obtain ⟨idx, hfind, hcase⟩ := find_gt_table h hv hn seq
  unfold bch2_journal_seq_next_blacklisted
  rw [hc]
  dsimp only
  rw [hfind, Option.map_some]
  rcases hcase with ⟨hneg, hnone⟩ | ⟨hneg, hsome⟩
  · -- no range ends after `seq`
    rw [if_pos hneg]
    exact ⟨_, rfl, Or.inr ⟨rfl, fun y hy => not_covers_of_firstEndGt hnone hy⟩⟩
  -- the first range ending after `seq`: from its start, or from `seq` when inside it
  · rw [if_neg hneg]
    refine ⟨_, rfl, Or.inl ?_⟩
    rw [UInt64.toNat_max]
    exact isLeast_firstEndGt hv.proper hv.ordered hsome

omit hc in
/-- Each round of the loop of `bch2_journal_seq_next_nonblacklisted` moves `seq` to the end of
the range it is in; it stops at the least number from `seq` on that is not blacklisted. Fuel
of `2 ^ 64` less `seq` is enough, since `seq` goes up each round. -/
theorem next_nonblacklisted_loop_spec (hn : bl.length < 2 ^ 30) :
    ∀ fuel (seq : UInt64), 2 ^ 64 - seq.toNat ≤ fuel →
      ∃ r, next_nonblacklisted_loop t fuel seq = some r ∧
        IsLeast {y | ¬ Blacklisted bl y ∧ seq.toNat ≤ y} r.toNat := by
  intro fuel
  induction fuel with
  | zero =>
    intro seq hf
    have := seq.toNat_lt
    omega
  | succ fuel ih =>
    intro seq hf
    obtain ⟨idx, hfind, hcase⟩ := find_le_table h hv hn seq
    have hcov := covers_iff_lastStartLe hv.proper hv.ordered seq.toNat
    -- where `seq` is not blacklisted the loop returns it
    have hself : ¬ Blacklisted bl seq.toNat →
        IsLeast {y | ¬ Blacklisted bl y ∧ seq.toNat ≤ y} seq.toNat :=
      fun hnb => ⟨⟨hnb, le_refl _⟩, fun y hy => hy.2⟩
    rw [next_nonblacklisted_loop, hfind, Option.bind_some]
    rcases hcase with ⟨hneg, hnone⟩ | ⟨hneg, hsome⟩
    · rw [if_pos (by simp [hneg])]
      refine ⟨seq, rfl, hself ?_⟩
      rw [Blacklisted, hcov, hnone]
      simp
    · by_cases hle : (t.entries idx.toNatClampNeg).«end» ≤ seq
      · rw [if_pos (by simp [hle])]
        refine ⟨seq, rfl, hself ?_⟩
        rw [Blacklisted, hcov, hsome]
        rw [UInt64.le_iff_toNat_le] at hle
        simp only [not_exists, not_and, Option.some.injEq]
        rintro r rfl
        exact not_lt.2 hle
      · -- `seq` is in the range: go on from its end
        rw [if_neg (by simp [hneg, hle])]
        rw [UInt64.le_iff_toNat_le, not_le] at hle
        obtain ⟨r, hr, hleast⟩ := ih (t.entries idx.toNatClampNeg).«end» (by omega)
        refine ⟨r, hr, ⟨⟨hleast.1.1, le_trans hle.le hleast.1.2⟩, fun y hy => ?_⟩⟩
        by_cases hy' : y < (t.entries idx.toNatClampNeg).«end».toNat
        · exact absurd (covers_of_lastStartLe hsome hy.2 hy') hy.1
        · exact hleast.2 ⟨hy.1, not_lt.1 hy'⟩

/-- On a table that holds a valid list, `bch2_journal_last_blacklisted_seq` returns `0` for an empty
list and otherwise the greatest blacklisted number. -/
theorem last_blacklisted_table (hn : bl.length + 1 < 2 ^ 31) :
    bl = [] ∧ bch2_journal_last_blacklisted_seq c = 0 ∨
      IsGreatest {y | Blacklisted bl y} (bch2_journal_last_blacklisted_seq c).toNat := by
  unfold bch2_journal_last_blacklisted_seq
  rw [hc]
  dsimp only
  by_cases h0 : t.nr = 0
  · rw [if_pos h0]
    exact Or.inl ⟨List.length_eq_zero_iff.1 (h.nr_eq ▸ h0), rfl⟩
  rw [if_neg h0]
  right
  -- the last node of the inorder holds the last range
  have hsz : t.nr.toUInt32.toNat = t.nr := toNat_toUInt32_of_lt (by rw [h.nr_eq]; omega)
  have hlast := @getLast_inorder_eytzinger0_last t.nr.toUInt32 (by omega)
    (by rw [hsz, h.nr_eq]; omega)
  rw [hsz] at hlast
  have hbl : bl.getLast? = some (toEntry (t.entries (eytzinger0_last t.nr.toUInt32).toNat)) := by
    rw [← h.inorder_eq, List.getLast?_map, hlast, Option.map_some, Nat.add_sub_cancel]
  have hne : bl ≠ [] := fun hnil => by rw [hnil] at hbl; cases hbl
  have hget := Option.some.inj ((List.getLast?_eq_some_getLast hne).symm.trans hbl)
  have hmem := hget ▸ List.getLast_mem hne
  have hlt := hv.start_lt_end hmem
  simp only [toEntry_start, toEntry_end] at hlt
  have hone : (1 : UInt64) ≤ (t.entries (eytzinger0_last t.nr.toUInt32).toNat).«end» := by
    rw [UInt64.le_iff_toNat_le, UInt64.toNat_one]
    omega
  have hres : ((t.entries (eytzinger0_last t.nr.toUInt32).toNat).«end» - 1).toNat =
      (t.entries (eytzinger0_last t.nr.toUInt32).toNat).«end».toNat - 1 := by
    rw [UInt64.toNat_sub_of_le _ _ hone, UInt64.toNat_one]
  refine ⟨?_, fun y hy => ?_⟩
  · -- the last number of the last range is blacklisted
    rw [Set.mem_ofPred_eq, hres]
    refine ⟨_, List.mem_map_of_mem hmem, ?_, ?_⟩ <;>
      simp only [span_fst, span_snd, toEntry_start, toEntry_end] <;> omega
  · -- and every blacklisted number lies below the end of the last range
    have hy' := lt_getLast_of_covers hv.proper hv.ordered (by simpa using hne) hy
    rw [List.getLast_map, hget] at hy'
    simp only [span_snd, toEntry_end] at hy'
    rw [hres]
    omega

end Lookups

/-! ### Garbage collection -/

/-- What `bch2_blacklist_entries_gc` keeps: the table's entries along the inorder that are
dirty or end at or after `oldest_seq_found_ondisk`, without their flags. -/
def gcKept (t : journal_seq_blacklist_table) (oldest_seq_found_ondisk : UInt64) :
    List journal_seq_blacklist_entry :=
  (((inorder t.nr 1).map fun i => t.entries (i - 1)).filter
    fun e => e.dirty || decide (e.«end» ≥ oldest_seq_found_ondisk)).map toEntry

/-- The scan of `bch2_blacklist_entries_gc` over nodes `l` of the inorder, with `src` walking
the list the table holds there: every `BUG_ON` passes, and it keeps what `gcKept` does. -/
theorem blacklist_gc_scan_eq (t : journal_seq_blacklist_table) (oldest : UInt64) :
    ∀ (l : List Nat), (∀ x ∈ l, 0 < x ∧ x < 2 ^ 32) →
      blacklist_gc_scan t oldest ((l.map Nat.toUInt32).map (· - 1))
          (l.map fun x => toEntry (t.entries (x - 1))) =
        some ((((l.map fun x => t.entries (x - 1)).filter
          fun e => e.dirty || decide (e.«end» ≥ oldest))).map toEntry)
  | [], _ => rfl
  | x :: l, hl => by
    have hx := hl x List.mem_cons_self
    have hidx : (x.toUInt32 - 1).toNat = x - 1 := by
      rw [toUInt32_sub_one hx.1 hx.2, toNat_toUInt32_of_lt (by omega)]
    -- the node's index reads the entry `src` is at, so the `BUG_ON`s pass
    simp only [List.map_cons, blacklist_gc_scan, hidx, toEntry_start, toEntry_end, ne_eq,
      not_true_eq_false, or_self, if_false]
    rw [blacklist_gc_scan_eq t oldest l fun y hy => hl y (List.mem_cons_of_mem x hy),
      Option.map_some, List.filter_cons]
    split <;> rfl

/-- What the garbage collection keeps is a sublist of the list the table holds. -/
theorem gcKept_sublist {t : journal_seq_blacklist_table} {bl : List journal_seq_blacklist_entry}
    (h : TableInv t bl) (oldest : UInt64) : (gcKept t oldest).Sublist bl := by
  have hmap : (inorder t.nr 1).map (fun x => toEntry (t.entries (x - 1))) =
      ((inorder t.nr 1).map fun x => t.entries (x - 1)).map toEntry := by
    rw [List.map_map]
    rfl
  -- a filter of the table along the inorder
  rw [← h.inorder_eq, gcKept, hmap]
  exact List.filter_sublist.map _

/-- `bch2_blacklist_entries_gc` on a table that holds the superblock list: no `BUG_ON` fires,
nothing changes when every range is kept, and otherwise the superblock list becomes the kept ranges,
or none when none is kept. -/
theorem blacklist_entries_gc_table {c : bch_fs} {bl : List journal_seq_blacklist_entry}
    {t : journal_seq_blacklist_table} (hsb : c.journal_seq_blacklist = some bl)
    (hc : c.journal_seq_blacklist_table = some t) (h : TableInv t bl)
    (hn : bl.length + 1 < 2 ^ 31) :
    bch2_blacklist_entries_gc c =
      some (if (gcKept t c.oldest_seq_found_ondisk).length = bl.length then (false, c)
        else (true, { c with journal_seq_blacklist :=
                               (if gcKept t c.oldest_seq_found_ondisk = [] then none
                                else some (gcKept t c.oldest_seq_found_ondisk)) })) := by
  unfold bch2_blacklist_entries_gc
  rw [hsb, hc]
  dsimp only
  rw [if_neg (by rw [h.nr_eq]; exact fun hne => hne rfl)]
  -- the nodes `eytzinger0_for_each` visits, and the list the table holds along them
  have hvisit : eytzinger0_for_each bl.length.toUInt32 =
      some (((inorder t.nr 1).map Nat.toUInt32).map (· - 1)) := by
    rcases Nat.eq_zero_or_pos bl.length with h0 | h0
    · rw [h.nr_eq, h0, inorder_of_lt Nat.zero_lt_one]
      decide
    · have hsz : bl.length.toUInt32.toNat = bl.length := toNat_toUInt32_of_lt (by omega)
      rw [eytzinger0_for_each_eq_map, @eytzinger1_for_each_eq bl.length.toUInt32 (by omega)
        (by omega), hsz, Option.map_some, h.nr_eq]
  have hscan := blacklist_gc_scan_eq t c.oldest_seq_found_ondisk (inorder t.nr 1)
    fun x hx => by have := mem_inorder_one.mp hx; rw [h.nr_eq] at this; omega
  rw [h.inorder_eq] at hscan
  rw [hvisit, Option.bind_some, hscan, Option.map_some]
  rfl

end Bcachefs.Proofs.Journal
