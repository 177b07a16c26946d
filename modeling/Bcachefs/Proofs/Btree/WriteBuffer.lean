import Bcachefs.Proofs.Btree.WriteBufferDedup

/-!
# `Bcachefs.Proofs.Btree.WriteBuffer`: the flush keeps the newest update per position

`bch2_btree_write_buffer_flush_locked` sorts the refs of the flushing array and drops every
ref that `wb_key_eq` finds equal to the next one. `wb_flush_sort_dedup_newest` says what
that leaves when the array holds at most `2 ^ 24` `u64`s: one ref per position, in
increasing position order, each the ref of the last entry at its position; every other
entry's `journal_seq` zeroed; and at a position of accounting keys, the survivor holding the
sum of all their counters and the least of their `journal_seq`s.

The bound matters. `idx` is a 32-bit offset, and `wb_key_eq` drops only the low 24 bits of
the word that holds it: two entries of one position whose offsets differ above bit 24 are
not merged (`wb_key_eq_iff_pos`). `wb_flush_sort_dedup_two_at_one_pos` runs the flush on
`65537` keys of 256 `u64`s at one position, whose last two offsets are `0xffff00` and
`0x1000000`: both refs survive.
-/

set_option autoImplicit false
set_option linter.style.nameCheck false

namespace Bcachefs.Proofs.Btree

section Flush

variable {F : List btree_write_buffered_key}

/-- The sort leaves a sorted permutation of the built refs, with distinct `idx`, and the
flush is the dedup of it. -/
theorem wb_flush_sort_dedup_eq (hsize : wb_size F ≤ 2 ^ 32) :
    ∃ L, wb_flush_sort_dedup F = some (wb_dedup (wb_keys_of F 0) L) ∧
      L.Perm (wb_sorted_build F 0) ∧ WbSorted L ∧ (L.map fun r => r.idx.toNat).Nodup := by
  -- the built refs have increasing `idx`, so no two are equal
  have hidx : ((wb_sorted_build F 0).map fun r => r.idx.toNat).Nodup :=
    List.pairwise_map.mpr ((wb_sorted_build_idx_lt hsize).imp Nat.ne_of_lt)
  obtain ⟨L, hsd, hLR, hL⟩ := wb_sort_dedup_spec (wb_keys_of F 0) (wb_sorted_build F 0) hidx
  exact ⟨L, hsd, hLR, hL, (hLR.map _).nodup_iff.mpr hidx⟩

variable (hsize : wb_size F ≤ 2 ^ 24) {L : List wb_key_ref} (hLR : L.Perm (wb_sorted_build F 0))
  (hL : WbSorted L) (hidx : (L.map fun r => r.idx.toNat).Nodup)
include hsize hLR hL hidx

omit hidx in
/-- The refs that survive the dedup are those of the last entries at their positions. -/
theorem mem_wb_flush_iff (r : wb_key_ref) :
    r ∈ (wb_dedup (wb_keys_of F 0) L).1 ↔ ∃ i < F.length, WbNewest F i ∧ r = wb_ref F i := by
  rw [mem_wb_dedup _ hL, hLR.mem_iff, mem_wb_sorted_build_zero,
    wb_last_congr (fun q => hLR.mem_iff) r]
  -- the last ref at a position is the ref of the last entry there
  constructor
  · rintro ⟨⟨i, hi, rfl⟩, hlast⟩
    exact ⟨i, hi, (wb_last_wb_ref_iff hsize hi).mp hlast, rfl⟩
  · rintro ⟨i, hi, hnew, rfl⟩
    exact ⟨⟨i, hi, rfl⟩, (wb_last_wb_ref_iff hsize hi).mpr hnew⟩

/-- The key the dedup leaves at the offset of an entry: the merge of the entries at its
position up to it, its `journal_seq` zeroed unless the entry is the last there. -/
theorem wb_flush_val {i : Nat} (hi : i < F.length) :
    (wb_dedup (wb_keys_of F 0) L).2 (wb_offset F i) =
      if wb_last L (wb_ref F i) then
        wb_merge_run ((wb_run L (wb_ref F i)).map fun q => wb_keys_of F 0 q.idx.toNat)
      else { wb_merge_run ((wb_run L (wb_ref F i)).map fun q => wb_keys_of F 0 q.idx.toNat) with
        journal_seq := 0 } := by
  -- the entry's ref is among the sorted refs, and its `idx` is the entry's offset
  have hmem : wb_ref F i ∈ L := hLR.mem_iff.mpr (mem_wb_sorted_build_zero.mpr ⟨i, hi, rfl⟩)
  rw [← toNat_idx_wb_ref hsize hi, wb_dedup_val _ hL hidx hmem]

/-- The key left at the offset of the last entry at a position: all the entries there,
merged in order. -/
theorem wb_flush_val_newest {i : Nat} (hi : i < F.length) (hnew : WbNewest F i) :
    (wb_dedup (wb_keys_of F 0) L).2 (wb_offset F i) =
      wb_merge_run (F.filter fun e => e.k.k.p = F[i].k.k.p) := by
  -- the entry is the last at its position, and its run is every entry there, in order
  rw [wb_flush_val hsize hLR hL hidx hi, if_pos ((wb_last_congr (fun q => hLR.mem_iff) _).trans
    ((wb_last_wb_ref_iff hsize hi).mpr hnew)), wb_run_eq_of_perm hsize hL hLR,
    map_wb_run_wb_ref hsize hi hnew]

end Flush

/-- The flush of any key array of at most `2 ^ 24` `u64`s whose `journal_seq`s are nonzero
keeps one ref per position, in increasing position order, each pointing at the last entry at
its position; it zeroes the `journal_seq` of every other entry; it leaves the last entry as it
was unless it is an accounting key; and at a position of accounting keys it leaves in the
last entry the sum of all their counters and the least of their `journal_seq`s. -/
theorem wb_flush_sort_dedup_newest (F : List btree_write_buffered_key) (hsize : wb_size F ≤ 2 ^ 24)
    (hseq : ∀ e ∈ F, e.journal_seq ≠ 0) :
    ∃ out keys, wb_flush_sort_dedup F = some (out, keys) ∧
      out.Pairwise (fun a b => bpos_cmp a.pos b.pos < 0) ∧
      (∀ p, (∃ e ∈ F, e.k.k.p = p) ↔ ∃ r ∈ out, r.pos = p) ∧
      (∀ r, r ∈ out ↔ ∃ i, ∃ hi : i < F.length, WbNewest F i ∧
        r = ⟨(wb_offset F i).toUInt32, F[i].k.k.p⟩) ∧
      (∀ i < F.length, (keys (wb_offset F i)).journal_seq = 0 ↔ ¬ WbNewest F i) ∧
      (∀ i (hi : i < F.length), WbNewest F i → F[i].k.k.type ≠ KEY_TYPE_accounting →
        keys (wb_offset F i) = F[i]) ∧
      (∀ i (hi : i < F.length), WbNewest F i →
        (∀ e ∈ F, e.k.k.p = F[i].k.k.p → WbAccounting F[i].k.v.length e) →
        (keys (wb_offset F i)).k.v =
            wb_counter_sum ((F.filter fun e => e.k.k.p = F[i].k.k.p).map fun e => e.k.v)
              F[i].k.v.length ∧
          (∀ e ∈ F, e.k.k.p = F[i].k.k.p → (keys (wb_offset F i)).journal_seq ≤ e.journal_seq) ∧
          ∃ e ∈ F, e.k.k.p = F[i].k.k.p ∧ (keys (wb_offset F i)).journal_seq = e.journal_seq) := by
  obtain ⟨L, hsd, hLR, hL, hidx⟩ := wb_flush_sort_dedup_eq (F := F) (Nat.le_trans hsize (by norm_num))
  have hout := mem_wb_flush_iff hsize hLR hL
  have hsub := wb_dedup_sublist (wb_keys_of F 0) L
  -- the entries at the position of entry `i`, with entry `i` among them
  have hgroup : ∀ i (hi : i < F.length), F[i] ∈ F.filter fun e => e.k.k.p = F[i].k.k.p :=
    fun i hi => List.mem_filter.mpr ⟨List.getElem_mem hi, by simp⟩
  refine ⟨(wb_dedup (wb_keys_of F 0) L).1, (wb_dedup (wb_keys_of F 0) L).2, by rw [hsd], ?_, ?_, ?_,
    ?_, ?_, ?_⟩
  · -- two survivors are at different positions: the first is the last of its run
    refine (hL.sublist hsub).imp_of_mem fun {a b} ha hb hab => ?_
    obtain ⟨i, hi, -, rfl⟩ := (hout a).mp ha
    obtain ⟨j, hj, -, rfl⟩ := (hout b).mp hb
    have hne : (wb_ref F i).pos ≠ (wb_ref F j).pos := by
      intro hp
      have hlast := ((mem_wb_dedup _ hL _).mp ha).2
      have := wb_last_iff.mp hlast (wb_ref F j) (hsub.subset hb)
        ((wb_key_eq_iff_of_lt (idx_wb_ref_lt hsize hj) (idx_wb_ref_lt hsize hi)).mpr hp.symm)
      omega
    rw [bpos_cmp_eq_cmp_int_posKey, cmp_int_neg_iff]
    exact posKey_lt_of_refKey_lt hab hne
  · intro p
    constructor
    · rintro ⟨e, he, rfl⟩
      obtain ⟨j, hj, rfl⟩ := List.mem_iff_getElem.mp he
      obtain ⟨i, hi, -, hp, hnew⟩ := exists_wbNewest F _ j rfl hj
      exact ⟨wb_ref F i, (hout _).mpr ⟨i, hi, hnew, rfl⟩, by rw [wb_ref_pos hi, hp]⟩
    · rintro ⟨r, hr, rfl⟩
      obtain ⟨i, hi, -, rfl⟩ := (hout r).mp hr
      exact ⟨F[i], List.getElem_mem hi, (wb_ref_pos hi).symm⟩
  · intro r
    rw [hout r]
    refine exists_congr fun i => ⟨fun ⟨hi, hnew, hr⟩ => ⟨hi, hnew, ?_⟩, fun ⟨hi, hnew, hr⟩ => ⟨hi, hnew, ?_⟩⟩
    · rw [hr, ← wb_ref_pos hi]
      rfl
    · rw [hr, ← wb_ref_pos hi]
      rfl
  · intro i hi
    by_cases hnew : WbNewest F i
    · -- the last entry keeps a nonzero `journal_seq`: every entry merged into it has one
      rw [wb_flush_val_newest hsize hLR hL hidx hi hnew]
      refine iff_of_false (wb_merge_run_seq_ne_zero (List.ne_nil_of_mem (hgroup i hi))
        fun e he => hseq e (List.mem_filter.mp he).1) (not_not.mpr hnew)
    · rw [wb_flush_val hsize hLR hL hidx hi, if_neg (by
        rw [wb_last_congr (fun q => hLR.mem_iff), wb_last_wb_ref_iff hsize hi]
        exact hnew)]
      exact iff_of_true rfl hnew
  · intro i hi hnew htype
    -- the run of the last entry ends in it, and it is not an accounting key
    have hmem : wb_ref F i ∈ L := hLR.mem_iff.mpr (mem_wb_sorted_build_zero.mpr ⟨i, hi, rfl⟩)
    obtain ⟨T, hT⟩ := wb_run_eq_append_self hL hmem
    rw [wb_flush_val hsize hLR hL hidx hi, if_pos ((wb_last_congr (fun q => hLR.mem_iff) _).trans
      ((wb_last_wb_ref_iff hsize hi).mpr hnew)), hT, List.map_append, List.map_singleton,
      wb_keys_of_wb_ref hsize hi, wb_merge_run_append_of_type_ne _ htype]
  · intro i hi hnew hacc
    obtain ⟨hv, hle, e, he, heq⟩ := wb_merge_run_accounting (List.ne_nil_of_mem (hgroup i hi))
      fun e he => hacc e (List.mem_filter.mp he).1 (by simpa using (List.mem_filter.mp he).2)
    rw [wb_flush_val_newest hsize hLR hL hidx hi hnew]
    refine ⟨hv, fun e' he' hp => hle e' (List.mem_filter.mpr ⟨he', by simpa using hp⟩), e,
      (List.mem_filter.mp he).1, by simpa using (List.mem_filter.mp he).2, heq⟩

/-- An accounting key of one counter at position `1:2:3`. -/
def wb_flush_pair_key : bkey where
  u64s := 6
  format := 0
  needs_whiteout := false
  type := KEY_TYPE_accounting
  pad := 0
  bversion := ⟨0, 0⟩
  size := 0
  p := ⟨1, 2, 3⟩

/-- A flushing array of two accounting keys at one position. -/
def wb_flush_pair : List btree_write_buffered_key :=
  [⟨7, ⟨wb_flush_pair_key, [1]⟩⟩, ⟨4, ⟨wb_flush_pair_key, [2]⟩⟩]

/-- Two accounting keys at one position: the flush keeps one ref, at the later entry, whose key sums
the two counters. -/
theorem wb_flush_sort_dedup_newest_pair :
    wb_size wb_flush_pair ≤ 2 ^ 24 ∧ (∀ e ∈ wb_flush_pair, e.journal_seq ≠ 0) ∧
      ∃ out keys, wb_flush_sort_dedup wb_flush_pair = some (out, keys) ∧
        out.Pairwise (fun a b => bpos_cmp a.pos b.pos < 0) ∧
        (∀ p, (∃ e ∈ wb_flush_pair, e.k.k.p = p) ↔ ∃ r ∈ out, r.pos = p) ∧
        (∀ r, r ∈ out ↔ ∃ i, ∃ hi : i < wb_flush_pair.length, WbNewest wb_flush_pair i ∧
          r = ⟨(wb_offset wb_flush_pair i).toUInt32, wb_flush_pair[i].k.k.p⟩) ∧
        (∀ i < wb_flush_pair.length,
          (keys (wb_offset wb_flush_pair i)).journal_seq = 0 ↔ ¬ WbNewest wb_flush_pair i) ∧
        (∀ i (hi : i < wb_flush_pair.length), WbNewest wb_flush_pair i →
          wb_flush_pair[i].k.k.type ≠ KEY_TYPE_accounting → keys (wb_offset wb_flush_pair i) = wb_flush_pair[i]) ∧
        (∀ i (hi : i < wb_flush_pair.length), WbNewest wb_flush_pair i →
          (∀ e ∈ wb_flush_pair, e.k.k.p = wb_flush_pair[i].k.k.p →
            WbAccounting wb_flush_pair[i].k.v.length e) →
          (keys (wb_offset wb_flush_pair i)).k.v =
              wb_counter_sum ((wb_flush_pair.filter fun e => e.k.k.p = wb_flush_pair[i].k.k.p).map
                fun e => e.k.v) wb_flush_pair[i].k.v.length ∧
            (∀ e ∈ wb_flush_pair, e.k.k.p = wb_flush_pair[i].k.k.p →
              (keys (wb_offset wb_flush_pair i)).journal_seq ≤ e.journal_seq) ∧
            ∃ e ∈ wb_flush_pair, e.k.k.p = wb_flush_pair[i].k.k.p ∧
              (keys (wb_offset wb_flush_pair i)).journal_seq = e.journal_seq) :=
  ⟨by decide +kernel, by decide +kernel,
    wb_flush_sort_dedup_newest wb_flush_pair (by decide +kernel) (by decide +kernel)⟩

/-! ### Past `2 ^ 24` `u64`s -/

/-- `65537` keys of 256 `u64`s each, all at one position: the last two start at `0xffff00`
and `0x1000000`. -/
def wb_flush_past_idx_bits : List btree_write_buffered_key :=
  List.replicate 65537 ⟨1, ⟨{ wb_flush_pair_key with u64s := 255, type := KEY_TYPE_deleted }, []⟩⟩

/-- In an array of one key repeated, entry `i` starts `i` keys in. -/
theorem wb_offset_replicate (e : btree_write_buffered_key) {n i : Nat} (hi : i ≤ n) :
    wb_offset (List.replicate n e) i = i * wb_key_u64s e.k := by
  rw [wb_offset, List.take_replicate, Nat.min_eq_left hi, List.map_replicate, List.sum_replicate,
    smul_eq_mul]

/-- The refs the flush builds for it: entry `j` at offset `256 * j`. -/
theorem wb_ref_past_idx_bits {j : Nat} (hj : j < 65537) :
    wb_ref wb_flush_past_idx_bits j = ⟨(j * 256).toUInt32, ⟨1, 2, 3⟩⟩ := by
  rw [wb_ref, wb_flush_past_idx_bits, wb_offset_replicate _ (Nat.le_of_lt hj),
    List.getD_eq_getElem _ _ (by rw [List.length_replicate]; exact hj), List.getElem_replicate]
  rfl

/-- The `idx` of entry `j` is its offset `256 * j`, which fits the 32 bits of a ref. -/
theorem toNat_idx_wb_ref_past_idx_bits {j : Nat} (hj : j < 65537) :
    (wb_ref wb_flush_past_idx_bits j).idx.toNat = j * 256 := by
  rw [wb_ref_past_idx_bits hj, Nat.toUInt32_eq, UInt32.toNat_ofNat', Nat.mod_eq_of_lt (by omega)]

/-- Past `2 ^ 24` `u64`s the flush keeps two refs at one position: the entries at offsets
`0xffff00` and `0x1000000` differ in bit 24 of `idx`, which `wb_key_eq` compares. -/
theorem wb_flush_sort_dedup_two_at_one_pos :
    ∃ out keys, wb_flush_sort_dedup wb_flush_past_idx_bits = some (out, keys) ∧
      (⟨0xffff00, ⟨1, 2, 3⟩⟩ : wb_key_ref) ∈ out ∧ (⟨0x1000000, ⟨1, 2, 3⟩⟩ : wb_key_ref) ∈ out := by
  have hsize : wb_size wb_flush_past_idx_bits ≤ 2 ^ 32 := by
    rw [← wb_offset_length, wb_flush_past_idx_bits, List.length_replicate,
      wb_offset_replicate _ (Nat.le_refl _)]
    decide
  have hlen : wb_flush_past_idx_bits.length = 65537 := List.length_replicate
  obtain ⟨L, hsd, hLR, hL, -⟩ := wb_flush_sort_dedup_eq hsize
  -- a built ref that no equal ref follows survives
  have hsurv : ∀ j < 65537, (∀ j' < 65537,
      wb_key_eq (wb_ref wb_flush_past_idx_bits j') (wb_ref wb_flush_past_idx_bits j) = true → j' ≤ j) →
      wb_ref wb_flush_past_idx_bits j ∈ (wb_dedup (wb_keys_of wb_flush_past_idx_bits 0) L).1 := by
    intro j hj hlast
    refine (mem_wb_dedup _ hL _).mpr ⟨hLR.mem_iff.mpr (mem_wb_sorted_build_zero.mpr
      ⟨j, by rw [hlen]; exact hj, rfl⟩), ?_⟩
    rw [wb_last_congr (fun q => hLR.mem_iff), wb_last_iff]
    intro q hq heq
    obtain ⟨j', hj', rfl⟩ := mem_wb_sorted_build_zero.mp hq
    rw [hlen] at hj'
    have hle := hlast j' hj' heq
    -- one position, so the numbers compare as the offsets `256 * j`
    rw [← Nat.not_lt, refKey_lt_iff_of_pos_eq (pos_eq_of_wb_key_eq heq).symm,
      toNat_idx_wb_ref_past_idx_bits hj, toNat_idx_wb_ref_past_idx_bits hj']
    omega
  refine ⟨_, _, by rw [hsd], ?_, ?_⟩
  · -- the entry at `0xffff00` is the last of the refs below bit 24
    have h := hsurv 65535 (by norm_num) fun j' hj' heq => by
      have hdiv := ((wb_key_eq_iff_pos _ _).mp heq).2
      rw [toNat_idx_wb_ref_past_idx_bits hj', toNat_idx_wb_ref_past_idx_bits (by norm_num)] at hdiv
      omega
    rwa [wb_ref_past_idx_bits (by norm_num)] at h
  · -- the entry at `0x1000000` is the last of all
    have h := hsurv 65536 (by norm_num) fun j' hj' _ => by omega
    rwa [wb_ref_past_idx_bits (by norm_num)] at h

end Bcachefs.Proofs.Btree
