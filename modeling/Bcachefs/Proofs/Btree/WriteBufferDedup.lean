import Bcachefs.Proofs.Btree.WriteBufferOrder

/-!
# `Bcachefs.Proofs.Btree.WriteBufferDedup`: the flush's sort and dedup

The dedup of `bch2_btree_write_buffer_flush_locked` walks the sorted refs once. Over any list
of refs strictly sorted by `refKey` (`WbSorted`), which is what the sort leaves
(`wb_sort_dedup_spec`):

* `mem_wb_dedup`: it keeps exactly the refs that are last of their run, a run being the refs
  equal by `wb_key_eq` (`wb_last`);
* `wb_dedup_val`: at the `idx` of each ref it leaves the keys of the ref's run up to the ref,
  merged oldest first (`wb_merge_run`), with the `journal_seq` zeroed unless the ref is the
  last of its run; `wb_dedup_frame`: it writes nowhere else.

A run of accounting keys merges into the sum of their counters and the least of their
`journal_seq`s (`wb_merge_run_accounting`); a run ending in any other key leaves that key
(`wb_merge_run_append_of_type_ne`).

The last section reads the runs back on the refs the flush builds from a key array, where
a run is the entries at one position as long as the array stays below `2 ^ 24` `u64`s.
-/

set_option autoImplicit false
set_option linter.style.nameCheck false

namespace Bcachefs.Proofs.Btree

open Bcachefs.Sorting

/-! ### Runs of equal refs -/

/-- `r` is the last ref of `L` that `wb_key_eq` makes equal to it. -/
def wb_last (L : List wb_key_ref) (r : wb_key_ref) : Bool :=
  L.all fun q => !wb_key_eq q r || decide (refKey q ≤ refKey r)

/-- The refs of `L` equal to `r` by `wb_key_eq`, up to `r`, in the order of `L`. -/
def wb_run (L : List wb_key_ref) (r : wb_key_ref) : List wb_key_ref :=
  L.filter fun q => wb_key_eq q r && decide (refKey q ≤ refKey r)

/-- A ref is the last of its run when every equal ref of the list is at or before it. -/
theorem wb_last_iff {L : List wb_key_ref} {r : wb_key_ref} :
    wb_last L r = true ↔ ∀ q ∈ L, wb_key_eq q r = true → refKey q ≤ refKey r := by
  simp only [wb_last, List.all_eq_true, Bool.or_eq_true, Bool.not_eq_true', decide_eq_true_eq]
  exact forall₂_congr fun q _ => by cases wb_key_eq q r <;> simp

/-- A list of refs strictly sorted by `refKey`, as the sort leaves `wb->sorted`. -/
def WbSorted (L : List wb_key_ref) : Prop := L.Pairwise fun a b => refKey a < refKey b

/-- A sorted list is a head below every later ref, then a sorted list. -/
theorem WbSorted.cons_iff {src : wb_key_ref} {T : List wb_key_ref} :
    WbSorted (src :: T) ↔ (∀ q ∈ T, refKey src < refKey q) ∧ WbSorted T :=
  List.pairwise_cons

section Head

variable {src : wb_key_ref} {T : List wb_key_ref} (hlt : ∀ q ∈ T, refKey src < refKey q)
include hlt

/-- The head of a sorted list does not decide whether a later ref is the last of its run. -/
theorem wb_last_cons_of_mem {r : wb_key_ref} (hr : r ∈ T) : wb_last (src :: T) r = wb_last T r := by
  rw [Bool.eq_iff_iff, wb_last_iff, wb_last_iff, List.forall_mem_cons]
  exact ⟨And.right, fun h => ⟨fun _ => Nat.le_of_lt (hlt r hr), h⟩⟩

/-- The head of a sorted list is alone in its run so far. -/
theorem wb_run_cons_self : wb_run (src :: T) src = [src] := by
  rw [wb_run, List.filter_cons_of_pos (by simp [wb_key_eq_refl]), List.filter_eq_nil_iff.mpr]
  intro q hq
  have := hlt q hq
  simp only [Bool.and_eq_true, decide_eq_true_eq, not_and, Nat.not_le]
  exact fun _ => this

/-- A ref after the head is in the head's run only through the ref right after it. -/
theorem wb_key_eq_next_of_mem {next q : wb_key_ref} {T' : List wb_key_ref} (hT : T = next :: T')
    (hnext : ∀ q ∈ T', refKey next < refKey q) (hq : q ∈ T) (h : wb_key_eq src q = true) :
    wb_key_eq src next = true := by
  subst hT
  rcases List.mem_cons.mp hq with rfl | hq'
  · exact h
  -- a ref between the head and an equal one is equal to it too
  · exact wb_key_eq_of_between (Nat.le_of_lt (hlt next List.mem_cons_self))
      (Nat.le_of_lt (hnext q hq')) h

/-- The head of a sorted list ends its run exactly when the ref after it is not equal to
it. -/
theorem wb_last_cons_cons_self {next : wb_key_ref} {T' : List wb_key_ref} (hT : T = next :: T')
    (hnext : ∀ q ∈ T', refKey next < refKey q) :
    wb_last (src :: T) src = !wb_key_eq src next := by
  subst hT
  cases h : wb_key_eq src next
  -- the next ref differs, so no later one is equal to the head
  · rw [Bool.not_false, wb_last_iff]
    intro q hq hqr
    rcases List.mem_cons.mp hq with rfl | hq'
    · exact Nat.le_refl _
    · have := wb_key_eq_next_of_mem hlt rfl hnext hq' (by rw [wb_key_eq_comm]; exact hqr)
      rw [h] at this
      exact absurd this Bool.false_ne_true
  -- the next ref is equal and after the head
  · rw [Bool.not_true, Bool.eq_false_iff]
    intro hlast
    have := wb_last_iff.mp hlast next (List.mem_cons_of_mem _ List.mem_cons_self)
      (by rw [wb_key_eq_comm]; exact h)
    exact absurd (hlt next List.mem_cons_self) (Nat.not_lt.mpr this)

/-- When the ref after the head is not equal to it, no later ref is. -/
theorem wb_key_eq_eq_false_of_mem {next q : wb_key_ref} {T' : List wb_key_ref} (hT : T = next :: T')
    (hnext : ∀ q ∈ T', refKey next < refKey q) (h : wb_key_eq src next = false) (hq : q ∈ T) :
    wb_key_eq src q = false := by
  cases hq' : wb_key_eq src q
  · rfl
  · rw [← h, wb_key_eq_next_of_mem hlt hT hnext hq hq']

end Head

/-- A head not equal to `r` is not in the run of `r`. -/
theorem wb_run_cons_of_not_eq {src r : wb_key_ref} (T : List wb_key_ref) (h : wb_key_eq src r = false) :
    wb_run (src :: T) r = wb_run T r := by
  rw [wb_run, List.filter_cons_of_neg (by simp [h]), wb_run]

/-- A head equal to `r` and at or before it opens the run of `r`. -/
theorem wb_run_cons_of_eq {src r : wb_key_ref} (T : List wb_key_ref) (h : wb_key_eq src r = true)
    (hle : refKey src ≤ refKey r) : wb_run (src :: T) r = src :: wb_run T r := by
  rw [wb_run, List.filter_cons_of_pos (by simp [h, hle]), wb_run]

/-! ### What the dedup leaves in the keys -/

/-- What the dedup leaves in the newer key `n` of an equal pair whose older key is `k`: the
accumulation when both are accounting keys, `n` otherwise. -/
def wb_merge (n k : btree_write_buffered_key) : btree_write_buffered_key :=
  if k.k.k.type = KEY_TYPE_accounting ∧ n.k.k.type = KEY_TYPE_accounting then
    { journal_seq := min n.journal_seq k.journal_seq, k := bch2_accounting_accumulate n.k k.k }
  else n

/-- The key a run of keys, oldest first, leaves in its newest: each merged over the ones
before it. -/
def wb_merge_run : List btree_write_buffered_key → btree_write_buffered_key
  | [] => btree_write_buffered_key_zero
  | k :: ks => ks.foldl (fun acc n => wb_merge n acc) k

attribute [grind] wb_merge wb_merge_run

/-- One step of the dedup over an equal pair: the newer key becomes the merge, and the older
key's `journal_seq` is zeroed. -/
theorem wb_dedup_cons_cons_of_eq (K : Nat → btree_write_buffered_key) {src next : wb_key_ref}
    (rest : List wb_key_ref) (h : wb_key_eq src next = true)
    (hne : src.idx.toNat ≠ next.idx.toNat) :
    wb_dedup K (src :: next :: rest) =
      wb_dedup (Function.update
        (Function.update K next.idx.toNat (wb_merge (K next.idx.toNat) (K src.idx.toNat)))
        src.idx.toNat { K src.idx.toNat with journal_seq := 0 }) (next :: rest) := by
  rw [wb_dedup, if_pos h]
  dsimp only
  -- the source merges only two accounting keys; otherwise the newer key stays
  by_cases hc : (K src.idx.toNat).k.k.type = KEY_TYPE_accounting ∧
      (K next.idx.toNat).k.k.type = KEY_TYPE_accounting
  · rw [if_pos hc, wb_merge, if_pos hc, Function.update_of_ne hne]
  · rw [if_neg hc, wb_merge, if_neg hc, Function.update_eq_self]

/-- A head not equal to the next ref ends its run: it is kept, and the keys are left as they are. -/
theorem wb_dedup_cons_cons_of_not_eq (K : Nat → btree_write_buffered_key) {src next : wb_key_ref}
    (rest : List wb_key_ref) (h : wb_key_eq src next = false) :
    wb_dedup K (src :: next :: rest) =
      (src :: (wb_dedup K (next :: rest)).1, (wb_dedup K (next :: rest)).2) := by
  rw [wb_dedup, if_neg (by simp [h])]

/-- The dedup writes only the keys its refs point at. -/
theorem wb_dedup_frame (K : Nat → btree_write_buffered_key) (L : List wb_key_ref) {x : Nat}
    (hx : ∀ r ∈ L, r.idx.toNat ≠ x) : (wb_dedup K L).2 x = K x := by
  rcases L with _ | ⟨src, rest⟩
  · rfl
  induction rest generalizing src K with
  | nil => rfl
  | cons next rest ih =>
      have hsrc : src.idx.toNat ≠ x := hx src List.mem_cons_self
      have hnext : next.idx.toNat ≠ x := hx next (by simp)
      -- each step writes only at the head's and the next ref's `idx`
      cases h : wb_key_eq src next
      · rw [wb_dedup_cons_cons_of_not_eq K rest h]
        exact ih K next fun r hr => hx r (List.mem_cons_of_mem _ hr)
      · rw [wb_dedup, if_pos h]
        dsimp only
        rw [ih _ next fun r hr => hx r (List.mem_cons_of_mem _ hr), Function.update_of_ne hsrc.symm]
        split
        · rw [Function.update_of_ne hnext.symm]
        · rfl

/-- The refs the dedup keeps are the last of their runs, in order. -/
theorem mem_wb_dedup (K : Nat → btree_write_buffered_key) {L : List wb_key_ref} (hs : WbSorted L)
    (r : wb_key_ref) : r ∈ (wb_dedup K L).1 ↔ r ∈ L ∧ wb_last L r = true := by
  rcases L with _ | ⟨src, rest⟩
  · simp [wb_dedup]
  induction rest generalizing src K with
  | nil =>
      simp only [wb_dedup, List.mem_singleton, iff_self_and]
      rintro rfl
      simp [wb_last_iff]
  | cons next rest ih =>
      obtain ⟨hlt, hs'⟩ := WbSorted.cons_iff.mp hs
      have hnext := (WbSorted.cons_iff.mp hs').1
      cases h : wb_key_eq src next
      · rw [wb_dedup_cons_cons_of_not_eq K rest h]
        constructor
        · intro hr
          rcases List.mem_cons.mp hr with rfl | hr
          · -- a run ends where the next ref is not equal to the head
            refine ⟨List.mem_cons_self, wb_last_iff.mpr fun q hq hqr => ?_⟩
            rcases List.mem_cons.mp hq with rfl | hq'
            · exact Nat.le_refl _
            · have := wb_key_eq_next_of_mem hlt rfl hnext hq' (by rw [wb_key_eq_comm]; exact hqr)
              rw [h] at this
              exact absurd this Bool.false_ne_true
          · obtain ⟨hr, hlast⟩ := (ih K next hs').mp hr
            exact ⟨List.mem_cons_of_mem _ hr, by rwa [wb_last_cons_of_mem hlt hr]⟩
        · rintro ⟨hr, hlast⟩
          rcases List.mem_cons.mp hr with rfl | hr
          · exact List.mem_cons_self
          · exact List.mem_cons_of_mem _
              ((ih K next hs').mpr ⟨hr, by rwa [wb_last_cons_of_mem hlt hr] at hlast⟩)
      -- an equal pair drops the head and goes on from the next ref
      · rw [wb_dedup, if_pos h]
        dsimp only
        rw [ih _ next hs']
        constructor
        · rintro ⟨hr, hlast⟩
          exact ⟨List.mem_cons_of_mem _ hr, by rwa [wb_last_cons_of_mem hlt hr]⟩
        · rintro ⟨hr, hlast⟩
          rcases List.mem_cons.mp hr with rfl | hr
          · -- the head is followed by an equal ref, so it is not the last of its run
            have := wb_last_iff.mp hlast next (List.mem_cons_of_mem _ List.mem_cons_self)
              (by rw [wb_key_eq_comm]; exact h)
            exact absurd (hlt next List.mem_cons_self) (Nat.not_lt.mpr this)
          · exact ⟨hr, by rwa [wb_last_cons_of_mem hlt hr] at hlast⟩

/-- Merging a run folds its second key over its first, then goes on. -/
theorem wb_merge_run_cons_cons (k n : btree_write_buffered_key) (ks : List btree_write_buffered_key) :
    wb_merge_run (k :: n :: ks) = wb_merge_run (wb_merge n k :: ks) := rfl

/-- The key the dedup leaves at each ref's `idx`: the run up to the ref merged, with its
`journal_seq` zeroed unless the ref is the last of its run. The induction is on the refs
after the head, with the keys generalised: an equal pair hands its merge on to the next
step through the key array. -/
theorem wb_dedup_val (K : Nat → btree_write_buffered_key) {L : List wb_key_ref} (hs : WbSorted L)
    (hidx : (L.map fun r => r.idx.toNat).Nodup) {r : wb_key_ref} (hr : r ∈ L) :
    (wb_dedup K L).2 r.idx.toNat =
      if wb_last L r then wb_merge_run ((wb_run L r).map fun q => K q.idx.toNat)
      else { wb_merge_run ((wb_run L r).map fun q => K q.idx.toNat) with journal_seq := 0 } := by
  rcases L with _ | ⟨src, rest⟩
  · simp at hr
  induction rest generalizing src K r with
  | nil =>
      obtain rfl := List.mem_singleton.mp hr
      have hlast : wb_last [r] r = true := by simp [wb_last_iff]
      rw [hlast, if_pos rfl, wb_run_cons_self (fun q hq => by simp at hq)]
      rfl
  | cons next rest ih =>
      obtain ⟨hlt, hs'⟩ := WbSorted.cons_iff.mp hs
      have hnext := (WbSorted.cons_iff.mp hs').1
      obtain ⟨hsrc_idx, hidx'⟩ := List.nodup_cons.mp hidx
      have hsrc : ∀ q ∈ next :: rest, q.idx.toNat ≠ src.idx.toNat :=
        fun q hq he => hsrc_idx (List.mem_map.mpr ⟨q, hq, he⟩)
      have hne : src.idx.toNat ≠ next.idx.toNat := fun he => hsrc next List.mem_cons_self he.symm
      have hrun_src : wb_run (src :: next :: rest) src = [src] := wb_run_cons_self hlt
      have hlast_src := wb_last_cons_cons_self hlt rfl hnext
      cases h : wb_key_eq src next
      · -- the head ends its run: it is kept, and the rest is deduped with the same keys
        rw [wb_dedup_cons_cons_of_not_eq K rest h]
        rcases List.mem_cons.mp hr with rfl | hr'
        · rw [wb_dedup_frame K _ hsrc, hlast_src, h, Bool.not_false, if_pos rfl, hrun_src]
          rfl
        · rw [ih K next hs' hidx' hr', wb_last_cons_of_mem hlt hr',
            wb_run_cons_of_not_eq _ (wb_key_eq_eq_false_of_mem hlt rfl hnext h hr')]
      · -- the head's key is merged into the next one and its own `journal_seq` zeroed
        rw [wb_dedup_cons_cons_of_eq K rest h hne]
        rcases List.mem_cons.mp hr with rfl | hr'
        · rw [wb_dedup_frame _ _ hsrc, Function.update_self, hlast_src, h, Bool.not_true,
            if_neg Bool.false_ne_true, hrun_src]
          rfl
        · rw [ih _ next hs' hidx' hr', wb_last_cons_of_mem hlt hr']
          -- the keys of the run after `next` are the ones the head's step left alone
          have hrest : ∀ q ∈ rest, q.idx.toNat ≠ src.idx.toNat ∧ q.idx.toNat ≠ next.idx.toNat :=
            fun q hq => ⟨hsrc q (List.mem_cons_of_mem _ hq),
              fun he => (List.nodup_cons.mp hidx').1 (List.mem_map.mpr ⟨q, hq, he⟩)⟩
          have hkeys : ∀ T : List wb_key_ref, (∀ q ∈ T, q ∈ rest) →
              T.map (fun q => (Function.update (Function.update K next.idx.toNat
                (wb_merge (K next.idx.toNat) (K src.idx.toNat))) src.idx.toNat
                { K src.idx.toNat with journal_seq := 0 }) q.idx.toNat) =
              T.map fun q => K q.idx.toNat := fun T hT =>
            List.map_congr_left fun q hq => by
              rw [Function.update_of_ne (hrest q (hT q hq)).1, Function.update_of_ne (hrest q (hT q hq)).2]
          have hsub : ∀ q ∈ wb_run rest r, q ∈ rest := fun q hq => (List.mem_filter.mp hq).1
          have hnr : refKey next ≤ refKey r := by
            rcases List.mem_cons.mp hr' with rfl | hr''
            · exact Nat.le_refl _
            · exact Nat.le_of_lt (hnext r hr'')
          cases hsr : wb_key_eq src r
          · -- `r` is in a later run: neither the head nor `next` is in it
            have hnr' : wb_key_eq next r = false := by
              cases hq : wb_key_eq next r
              · rfl
              · rw [← hsr, wb_key_eq_trans h hq]
            rw [wb_run_cons_of_not_eq _ hsr, wb_run_cons_of_not_eq _ hnr', hkeys _ hsub]
          · -- `r` is in the head's run, which `next` continues
            have hnr' : wb_key_eq next r = true := wb_key_eq_trans (by rw [wb_key_eq_comm]; exact h) hsr
            rw [wb_run_cons_of_eq _ hsr (Nat.le_of_lt (hlt r hr')), wb_run_cons_of_eq _ hnr' hnr,
              List.map_cons, List.map_cons, List.map_cons, hkeys _ hsub, wb_merge_run_cons_cons,
              Function.update_of_ne hne.symm, Function.update_self]

/-- The dedup keeps a sublist of the refs. -/
theorem wb_dedup_sublist (K : Nat → btree_write_buffered_key) (L : List wb_key_ref) :
    (wb_dedup K L).1.Sublist L := by
  rcases L with _ | ⟨src, rest⟩
  · exact List.Sublist.refl _
  induction rest generalizing src K with
  | nil => exact List.Sublist.refl _
  | cons next rest ih =>
      -- each step keeps the head or drops it
      cases h : wb_key_eq src next
      · rw [wb_dedup_cons_cons_of_not_eq K rest h]
        exact (ih K next).cons_cons src
      · rw [wb_dedup, if_pos h]
        exact (ih _ next).cons src

/-! ### The merged keys -/

/-- A merge keeps the newer key's type. -/
@[simp] theorem wb_merge_type (n k : btree_write_buffered_key) :
    (wb_merge n k).k.k.type = n.k.k.type := by
  unfold wb_merge bch2_accounting_accumulate
  split_ifs <;> rfl

/-- A newer key that is not an accounting key is left as it is. -/
theorem wb_merge_of_type_ne {n : btree_write_buffered_key} (k : btree_write_buffered_key)
    (hn : n.k.k.type ≠ KEY_TYPE_accounting) : wb_merge n k = n := by
  rw [wb_merge, if_neg fun h => hn h.2]

/-- A run ending in a key that is not an accounting key leaves that key as it is. -/
theorem wb_merge_run_append_of_type_ne (ks : List btree_write_buffered_key)
    {n : btree_write_buffered_key} (hn : n.k.k.type ≠ KEY_TYPE_accounting) :
    wb_merge_run (ks ++ [n]) = n := by
  rcases ks with _ | ⟨k, ks⟩
  · rfl
  · rw [List.cons_append, wb_merge_run, List.foldl_append, List.foldl_cons, List.foldl_nil,
      wb_merge_of_type_ne _ hn]

/-- Merging two keys with nonzero `journal_seq`s leaves a nonzero one. -/
theorem wb_merge_seq_ne_zero {n k : btree_write_buffered_key} (hn : n.journal_seq ≠ 0)
    (hk : k.journal_seq ≠ 0) : (wb_merge n k).journal_seq ≠ 0 := by
  unfold wb_merge
  split_ifs
  -- two accounting keys: the smaller `journal_seq` of two nonzero ones
  · intro h
    have := congrArg UInt64.toNat h
    rw [UInt64.toNat_min] at this
    have hn' : n.journal_seq.toNat ≠ 0 := fun h' => hn (UInt64.toNat_inj.mp h')
    have hk' : k.journal_seq.toNat ≠ 0 := fun h' => hk (UInt64.toNat_inj.mp h')
    simp only [UInt64.toNat_zero] at this
    omega
  · exact hn

/-- Merging keys whose `journal_seq`s are all nonzero leaves a nonzero one. -/
theorem wb_merge_run_seq_ne_zero {ks : List btree_write_buffered_key} (hne : ks ≠ [])
    (hks : ∀ k ∈ ks, k.journal_seq ≠ 0) : (wb_merge_run ks).journal_seq ≠ 0 := by
  obtain ⟨k, ks, rfl⟩ := List.exists_cons_of_ne_nil hne
  rw [wb_merge_run]
  -- the running merge keeps a nonzero `journal_seq`
  have hfold : ∀ (ks : List btree_write_buffered_key) (acc : btree_write_buffered_key),
      acc.journal_seq ≠ 0 → (∀ k ∈ ks, k.journal_seq ≠ 0) →
      (ks.foldl (fun acc n => wb_merge n acc) acc).journal_seq ≠ 0 := by
    intro ks
    induction ks with
    | nil => exact fun acc hacc _ => hacc
    | cons n ks ih =>
        intro acc hacc hks
        exact ih _ (wb_merge_seq_ne_zero (hks n List.mem_cons_self) hacc)
          fun k hk => hks k (List.mem_cons_of_mem _ hk)
  exact hfold ks k (hks k List.mem_cons_self) fun k' hk' => hks k' (List.mem_cons_of_mem _ hk')

/-! ### Accounting keys -/

/-- The counters of a list of values added up entry by entry, `m` of them. -/
def wb_counter_sum (vs : List (List UInt64)) (m : Nat) : List UInt64 :=
  (List.range m).map fun c => (vs.map fun v => v.getD c 0).sum

/-- An accounting key with `m` counters. -/
def WbAccounting (m : Nat) (e : btree_write_buffered_key) : Prop :=
  e.k.k.type = KEY_TYPE_accounting ∧ e.k.v.length = m

/-- The counters `bch2_accounting_accumulate` leaves add up entry by entry, with the longer list's
tail kept. -/
theorem getD_zipWith_add_append_drop {a b : List UInt64} (hab : a.length = b.length) (c : Nat) :
    (List.zipWith (· + ·) a b ++ a.drop b.length).getD c 0 = a.getD c 0 + b.getD c 0 := by
  rw [← hab, List.drop_length, List.append_nil]
  by_cases hc : c < a.length
  · rw [List.getD_eq_getElem _ _ (by simpa [hab] using hc), List.getElem_zipWith,
      List.getD_eq_getElem _ _ hc, List.getD_eq_getElem _ _ (by omega)]
  · rw [List.getD_eq_default _ _ (by simp [hab]; omega), List.getD_eq_default _ _ (by omega),
      List.getD_eq_default _ _ (by omega), UInt64.add_zero]

/-- One merge of two accounting keys: the counters add up entry by entry and the smaller
`journal_seq` is kept. -/
theorem wb_merge_accounting {m : Nat} {n k : btree_write_buffered_key} (hn : WbAccounting m n)
    (hk : WbAccounting m k) :
    WbAccounting m (wb_merge n k) ∧
      (∀ c, (wb_merge n k).k.v.getD c 0 = n.k.v.getD c 0 + k.k.v.getD c 0) ∧
      (wb_merge n k).journal_seq = min n.journal_seq k.journal_seq := by
  have hlen : n.k.v.length = k.k.v.length := hn.2.trans hk.2.symm
  rw [wb_merge, if_pos ⟨hk.1, hn.1⟩]
  -- the accumulation keeps the type and, for equal lengths, the counters' number
  refine ⟨⟨?_, ?_⟩, fun c => getD_zipWith_add_append_drop hlen c, rfl⟩
  · unfold bch2_accounting_accumulate
    split_ifs
    · exact hn.1
    · exact hn.1
  · simp [bch2_accounting_accumulate, hlen, hk.2]

/-- Merging a run of accounting keys adds up their counters and keeps the least
`journal_seq`. The induction is on the keys after the first, carrying the running merge. -/
theorem foldl_wb_merge_accounting {m : Nat} (ks : List btree_write_buffered_key)
    (hks : ∀ e ∈ ks, WbAccounting m e) (acc : btree_write_buffered_key) (hacc : WbAccounting m acc) :
    let res := ks.foldl (fun acc n => wb_merge n acc) acc
    WbAccounting m res ∧
      (∀ c, res.k.v.getD c 0 = acc.k.v.getD c 0 + (ks.map fun e => e.k.v.getD c 0).sum) ∧
      res.journal_seq ≤ acc.journal_seq ∧ (∀ e ∈ ks, res.journal_seq ≤ e.journal_seq) ∧
      (res.journal_seq = acc.journal_seq ∨ ∃ e ∈ ks, res.journal_seq = e.journal_seq) := by
  induction ks generalizing acc with
  | nil => simp [hacc]
  | cons n ks ih =>
      obtain ⟨hm, hsum, hseq⟩ := wb_merge_accounting (hks n List.mem_cons_self) hacc
      obtain ⟨hres, hrsum, hrle, hrall, hreq⟩ :=
        ih (fun e he => hks e (List.mem_cons_of_mem _ he)) _ hm
      simp only [List.foldl_cons]
      -- the merged key's `journal_seq` is the smaller of the two, as numbers
      have hmin := UInt64.toNat_min n.journal_seq acc.journal_seq
      rw [← hseq] at hmin
      simp only [UInt64.le_iff_toNat_le] at hrle hrall ⊢
      refine ⟨hres, fun c => ?_, by omega, ?_, ?_⟩
      · rw [hrsum c, hsum c, List.map_cons, List.sum_cons, UInt64.add_assoc, UInt64.add_comm (n.k.v.getD c 0)]
        ac_rfl
      · intro e he
        rcases List.mem_cons.mp he with rfl | he'
        · omega
        · exact hrall e he'
      · rcases hreq with heq | ⟨e, he, heq⟩
        · rw [heq]
          rcases Nat.le_total n.journal_seq.toNat acc.journal_seq.toNat with hle | hle
          · exact Or.inr ⟨n, List.mem_cons_self, UInt64.toNat_inj.mp (by omega)⟩
          · exact Or.inl (UInt64.toNat_inj.mp (by omega))
        · exact Or.inr ⟨e, List.mem_cons_of_mem _ he, heq⟩

/-- A run of accounting keys leaves in its newest the sum of all their counters and the least
of their `journal_seq`s. -/
theorem wb_merge_run_accounting {m : Nat} {ks : List btree_write_buffered_key} (hne : ks ≠ [])
    (hks : ∀ e ∈ ks, WbAccounting m e) :
    (wb_merge_run ks).k.v = wb_counter_sum (ks.map fun e => e.k.v) m ∧
      (∀ e ∈ ks, (wb_merge_run ks).journal_seq ≤ e.journal_seq) ∧
      ∃ e ∈ ks, (wb_merge_run ks).journal_seq = e.journal_seq := by
  obtain ⟨k, ks, rfl⟩ := List.exists_cons_of_ne_nil hne
  obtain ⟨hres, hsum, hle, hall, heq⟩ :=
    foldl_wb_merge_accounting ks (fun e he => hks e (List.mem_cons_of_mem _ he)) k
      (hks k List.mem_cons_self)
  rw [wb_merge_run]
  refine ⟨?_, ?_, ?_⟩
  -- the counters, compared entry by entry
  · apply List.ext_getElem (by rw [hres.2, wb_counter_sum, List.length_map, List.length_range])
    intro c h₁ h₂
    have hc : c < m := by rwa [hres.2] at h₁
    unfold wb_counter_sum
    rw [← List.getD_eq_getElem _ 0 h₁, hsum c]
    simp only [List.getElem_map, List.getElem_range, List.map_cons, List.map_map, List.sum_cons]
    rfl
  -- the `journal_seq` is the least, and is one of the keys'
  · intro e he
    rcases List.mem_cons.mp he with rfl | he'
    · exact hle
    · exact hall e he'
  · rcases heq with heq | ⟨e, he, heq⟩
    · exact ⟨k, List.mem_cons_self, heq⟩
    · exact ⟨e, List.mem_cons_of_mem _ he, heq⟩

/-! ### The sort -/

/-- A list read back at each of its indices. -/
theorem map_getD_range {α : Type} (l : List α) (d : α) :
    (List.range l.length).map (fun i => l.getD i d) = l := by
  apply List.ext_getElem
  · rw [List.length_map, List.length_range]
  · intro i h₁ h₂
    simp only [List.getElem_map, List.getElem_range]
    exact List.getD_eq_getElem _ _ h₂

/-- The sort leaves the refs strictly sorted and permuted: `wb_sort` sorts by
`wb_key_ref_cmp`, and refs with distinct `idx` have distinct numbers. -/
theorem wb_sort_dedup_spec (K : Nat → btree_write_buffered_key) (S : List wb_key_ref)
    (hidx : (S.map fun r => r.idx.toNat).Nodup) :
    ∃ L, wb_sort_dedup K S = some (wb_dedup K L) ∧ L.Perm S ∧ WbSorted L := by
  obtain ⟨g, hg, hsorted, hperm⟩ := heapSort_spec wb_key_ref_cmp_total wb_key_ref_cmp_trans
    (fun i => S.getD i wb_key_ref_zero) S.length
  have hLS : ((List.range S.length).map g).Perm S := by
    have := hperm.perm_map_range
    rwa [map_getD_range] at this
  refine ⟨(List.range S.length).map g, by rw [wb_sort_dedup, wb_sort, hg]; rfl, hLS, ?_⟩
  -- sorted by the comparison, and no two refs share a number
  have hle : ((List.range S.length).map g).Pairwise fun a b => refKey a ≤ refKey b := by
    rw [List.pairwise_map]
    refine List.pairwise_lt_range.imp_of_mem fun {i j} _ hj hij => ?_
    exact (wb_key_ref_cmp_iff _ _).mp (hsorted i j hij (List.mem_range.mp hj))
  have hnd : (((List.range S.length).map g).map fun r : wb_key_ref => r.idx.toNat).Nodup :=
    (hLS.map fun r : wb_key_ref => r.idx.toNat).nodup_iff.mpr hidx
  have hne : ((List.range S.length).map g).Pairwise fun a b => a.idx.toNat ≠ b.idx.toNat :=
    List.pairwise_map.mp hnd
  exact (hle.and hne).imp fun ⟨h₁, h₂⟩ =>
    Nat.lt_of_le_of_ne h₁ fun he => h₂ (by rw [← refKey_mod, he, refKey_mod])

/-- Whether a ref is the last of its run depends only on which refs the list holds. -/
theorem wb_last_congr {L L' : List wb_key_ref} (h : ∀ q, q ∈ L ↔ q ∈ L') (r : wb_key_ref) :
    wb_last L r = wb_last L' r := by
  rw [Bool.eq_iff_iff, wb_last_iff, wb_last_iff]
  exact forall_congr' fun q => by rw [h q]

/-- In a sorted list a ref closes its own run. -/
theorem wb_run_eq_append_self {L : List wb_key_ref} (hs : WbSorted L) {r : wb_key_ref} (hr : r ∈ L) :
    ∃ T, wb_run L r = T ++ [r] := by
  obtain ⟨A, B, rfl⟩ := List.append_of_mem hr
  -- the refs after `r` are above it, so none of them is in its run
  have hB : ∀ q ∈ B, refKey r < refKey q :=
    (WbSorted.cons_iff.mp (List.pairwise_append.mp hs).2.1).1
  have hnil : B.filter (fun q => wb_key_eq q r && decide (refKey q ≤ refKey r)) = [] :=
    List.filter_eq_nil_iff.mpr fun q hq => by simp [Nat.not_le.mpr (hB q hq)]
  refine ⟨wb_run A r, ?_⟩
  rw [wb_run, List.filter_append, List.filter_cons_of_pos (by simp [wb_key_eq_refl]), hnil]
  rfl

/-! ### The flush of a key array -/

/-- Entry `i` of the flushing array is the last one at its position. -/
def WbNewest (F : List btree_write_buffered_key) (i : Nat) : Prop :=
  ∀ j, (hij : i < j) → (hj : j < F.length) → F[j].k.k.p ≠ F[i].k.k.p

/-- Every entry has a last entry at its position at or after it. The induction is on the
entries left after `j`. -/
theorem exists_wbNewest (F : List btree_write_buffered_key) :
    ∀ d j, F.length - j = d → (hj : j < F.length) →
      ∃ i, ∃ hi : i < F.length, j ≤ i ∧ F[i].k.k.p = F[j].k.k.p ∧ WbNewest F i := by
  intro d
  induction d using Nat.strong_induction_on with
  | _ d ih =>
      intro j hd hj
      by_cases hnew : WbNewest F j
      · exact ⟨j, hj, Nat.le_refl j, rfl, hnew⟩
      · -- a later entry at the same position has fewer entries after it
        simp only [WbNewest, not_forall, not_not] at hnew
        obtain ⟨j', hjj', hj', hp⟩ := hnew
        obtain ⟨i, hi, hle, hpi, hn⟩ := ih (F.length - j') (by omega) j' rfl hj'
        exact ⟨i, hi, by omega, hpi.trans hp, hn⟩

/-- The ref the flush builds for entry `i`. -/
def wb_ref (F : List btree_write_buffered_key) (i : Nat) : wb_key_ref :=
  ⟨(wb_offset F i).toUInt32, (F.getD i btree_write_buffered_key_zero).k.k.p⟩

/-- The ref of entry `i` carries the entry's position. -/
theorem wb_ref_pos {F : List btree_write_buffered_key} {i : Nat} (hi : i < F.length) :
    (wb_ref F i).pos = F[i].k.k.p := by
  rw [← List.getD_eq_getElem _ btree_write_buffered_key_zero hi]
  rfl

/-- The refs the flush builds are those of the entries, in the array's order. -/
theorem wb_sorted_build_zero (F : List btree_write_buffered_key) :
    wb_sorted_build F 0 = (List.range F.length).map (wb_ref F) := by
  rw [wb_sorted_build_eq]
  simp only [Nat.zero_add]
  rfl

/-- Entries' offsets are in the order of the entries. -/
theorem wb_offset_lt_iff (F : List btree_write_buffered_key) {i j : Nat} (hi : i < F.length)
    (hj : j < F.length) : wb_offset F i < wb_offset F j ↔ i < j := by
  constructor
  -- offsets only grow along the array
  · intro h
    by_contra hji
    rcases Nat.lt_or_eq_of_le (Nat.le_of_not_lt hji) with hlt | rfl
    · have := wb_offset_add_le F hlt (Nat.le_of_lt hi)
      omega
    · exact Nat.lt_irrefl _ h
  · intro h
    have := wb_offset_add_le F h (Nat.le_of_lt hj)
    omega

section Flush

variable {F : List btree_write_buffered_key} (hsize : wb_size F ≤ 2 ^ 24)
include hsize

/-- Below `2 ^ 24` `u64`s the ref's `idx` is the entry's offset, not wrapped. -/
theorem toNat_idx_wb_ref {i : Nat} (hi : i < F.length) : (wb_ref F i).idx.toNat = wb_offset F i :=
  toNat_toUInt32_wb_offset (Nat.le_trans hsize (by norm_num)) hi

/-- Below `2 ^ 24` `u64`s every ref's `idx` fits the field. -/
theorem idx_wb_ref_lt {i : Nat} (hi : i < F.length) : (wb_ref F i).idx.toNat < 2 ^ 24 := by
  rw [toNat_idx_wb_ref hsize hi]
  have := wb_offset_lt_wb_size F hi
  omega

/-- `wb_keys_idx` at a ref's `idx` reads the ref's entry. -/
theorem wb_keys_of_wb_ref {i : Nat} (hi : i < F.length) :
    wb_keys_of F 0 (wb_ref F i).idx.toNat = F[i] := by
  rw [toNat_idx_wb_ref hsize hi, ← List.getD_eq_getElem _ btree_write_buffered_key_zero hi,
    ← wb_keys_of_offset F 0 hi, Nat.zero_add]

/-- Of two refs at one position, the later entry's has the larger number. -/
theorem refKey_wb_ref_le_iff {i j : Nat} (hi : i < F.length) (hj : j < F.length)
    (hp : (wb_ref F j).pos = (wb_ref F i).pos) :
    refKey (wb_ref F j) ≤ refKey (wb_ref F i) ↔ j ≤ i := by
  rw [← Nat.not_lt, refKey_lt_iff_of_pos_eq hp.symm, toNat_idx_wb_ref hsize hi,
    toNat_idx_wb_ref hsize hj, wb_offset_lt_iff F hi hj, Nat.not_lt]

/-- An entry's ref is the last of its run in the built refs exactly when the entry is the
last at its position. -/
theorem wb_last_wb_ref_iff {i : Nat} (hi : i < F.length) :
    wb_last (wb_sorted_build F 0) (wb_ref F i) = true ↔ WbNewest F i := by
  rw [wb_last_iff, wb_sorted_build_zero]
  simp only [List.mem_map, List.mem_range, forall_exists_index, and_imp, forall_apply_eq_imp_iff₂]
  constructor
  -- a later entry at the position would be a later ref in the run
  · intro h j hij hj hp
    have hpos : (wb_ref F j).pos = (wb_ref F i).pos := by rw [wb_ref_pos hi, wb_ref_pos hj, hp]
    have := h j hj ((wb_key_eq_iff_of_lt (idx_wb_ref_lt hsize hj) (idx_wb_ref_lt hsize hi)).mpr hpos)
    rw [refKey_wb_ref_le_iff hsize hi hj hpos] at this
    omega
  -- every ref equal to the entry's is at the same position, so not after it
  · intro hnew j hj heq
    have hpos := pos_eq_of_wb_key_eq heq
    rw [refKey_wb_ref_le_iff hsize hi hj hpos]
    by_contra hij
    refine hnew j (by omega) hj ?_
    rwa [wb_ref_pos hi, wb_ref_pos hj] at hpos

/-- The keys of the run of a last entry's ref, read through `wb_keys_idx`, are the entries
at its position, in the array's order. -/
theorem map_wb_run_wb_ref {i : Nat} (hi : i < F.length) (hnew : WbNewest F i) :
    (wb_run (wb_sorted_build F 0) (wb_ref F i)).map (fun q => wb_keys_of F 0 q.idx.toNat) =
      F.filter fun e => e.k.k.p = F[i].k.k.p := by
  have hF := congrArg (List.filter fun e : btree_write_buffered_key => decide (e.k.k.p = F[i].k.k.p))
    (map_getD_range F btree_write_buffered_key_zero)
  rw [wb_sorted_build_zero, wb_run, List.filter_map, List.map_map, ← hF, List.filter_map]
  -- a ref is in the run exactly when its entry is at the position: none is later
  have hsel : ∀ j ∈ List.range F.length,
      ((fun q => wb_key_eq q (wb_ref F i) && decide (refKey q ≤ refKey (wb_ref F i))) ∘ wb_ref F) j =
        ((fun e : btree_write_buffered_key => decide (e.k.k.p = F[i].k.k.p)) ∘
          fun j => F.getD j btree_write_buffered_key_zero) j := by
    intro j hj
    have hj' := List.mem_range.mp hj
    have hposj := wb_ref_pos hj'
    have hposi := wb_ref_pos hi
    simp only [Function.comp_apply, List.getD_eq_getElem _ _ hj']
    rw [Bool.eq_iff_iff, Bool.and_eq_true, decide_eq_true_iff, decide_eq_true_iff,
      wb_key_eq_iff_of_lt (idx_wb_ref_lt hsize hj') (idx_wb_ref_lt hsize hi), hposj, hposi]
    constructor
    · exact And.left
    · intro hp
      refine ⟨hp, (refKey_wb_ref_le_iff hsize hi hj' (by rw [hposj, hposi, hp])).mpr ?_⟩
      by_contra hij
      exact hnew j (by omega) hj' hp
  -- and each ref reads its own entry back
  rw [List.filter_congr hsel]
  refine List.map_congr_left fun j hj => ?_
  have hj' := (List.mem_range.mp (List.mem_filter.mp hj).1)
  rw [Function.comp_apply, wb_keys_of_wb_ref hsize hj', List.getD_eq_getElem _ _ hj']

/-- Sorting does not reorder a run: the run of an entry's ref is the same in any sorted
permutation of the built refs. -/
theorem wb_run_eq_of_perm {L : List wb_key_ref} (hL : WbSorted L) (hLR : L.Perm (wb_sorted_build F 0))
    (r : wb_key_ref) : wb_run L r = wb_run (wb_sorted_build F 0) r := by
  -- the built refs of one position climb in `idx`, so their run is sorted too
  have hR : WbSorted (wb_run (wb_sorted_build F 0) r) := by
    refine ((wb_sorted_build_idx_lt (Nat.le_trans hsize (by norm_num))).sublist
      List.filter_sublist).imp_of_mem fun {a b} ha hb hab => ?_
    have hpa := pos_eq_of_wb_key_eq (Bool.and_eq_true_iff.mp (List.mem_filter.mp ha).2).1
    have hpb := pos_eq_of_wb_key_eq (Bool.and_eq_true_iff.mp (List.mem_filter.mp hb).2).1
    exact (refKey_lt_iff_of_pos_eq (hpa.trans hpb.symm)).mpr hab
  exact List.Perm.eq_of_pairwise (fun a b _ _ hab hba => absurd (Nat.lt_trans hab hba) (Nat.lt_irrefl _))
    (hL.sublist List.filter_sublist) hR (hLR.filter _)

end Flush

/-- The built refs are the refs of the entries. -/
theorem mem_wb_sorted_build_zero {F : List btree_write_buffered_key} {r : wb_key_ref} :
    r ∈ wb_sorted_build F 0 ↔ ∃ i < F.length, r = wb_ref F i := by
  rw [wb_sorted_build_zero, List.mem_map]
  simp only [List.mem_range]
  exact ⟨fun ⟨i, hi, h⟩ => ⟨i, hi, h.symm⟩, fun ⟨i, hi, h⟩ => ⟨i, hi, h.symm⟩⟩

end Bcachefs.Proofs.Btree
