import Bcachefs.Alloc.Bucket

/-!
# What one committed update does to a bucket

`bucket_step` runs a writer and then the transactional phase of `bch2_trigger_alloc`. This
module says, once per block of that phase and once per writer, what the block or the writer
can change, and assembles from those lemmas the facts about one step the allocator's safety
rests on:

* `BucketInv`, the invariant of every bucket state reachable from a new bucket: an empty
  bucket has no sectors, a bucket with anything in it still owes its discard and its
  generation bump, and a free bucket's generation gap is below `BUCKET_GC_GEN_MAX`.
  `bucket_step_inv` is its step and `bucket_run_inv` the run lemma;
* `trigger_generation` and `trigger_need_discard_flag`: the generation moves by at most one,
  and only when the bump the bucket owes is taken; the two flags are raised only when the
  bucket starts to hold data;
* `trigger_free_bumped`: a bucket that becomes free with its `NEED_DISCARD` flag still set
  took its bump in the same update;
* `bucket_step_holds_data`: from a bucket that holds data, one update leads to a bucket that
  holds data or to `need_discard`, never straight to `free`.
-/

set_option autoImplicit false

namespace Bcachefs.Proofs.Alloc

open Bcachefs Bcachefs.bch_data_type

/-! ### Bucket types and the invariant -/

/-- A bucket type that holds data the allocator hands out again once it is discarded: not
empty, and not a superblock or journal bucket. -/
def holds_data (t : bch_data_type) : Prop :=
  data_type_is_empty t = false ∧ t ≠ BCH_DATA_sb ∧ t ≠ BCH_DATA_journal

instance (t : bch_data_type) : Decidable (holds_data t) :=
  inferInstanceAs (Decidable (_ ∧ _ ∧ _))

/-- No sector of any kind is accounted to the bucket. -/
def counts_zero (a : bch_alloc_v4) : Prop :=
  a.stripe_refcount = 0 ∧ a.dirty_sectors = 0 ∧ a.cached_sectors = 0 ∧ a.stripe_sectors = 0

/-- An empty type is only given to a bucket without sectors. -/
def empty_counts_zero (a : bch_alloc_v4) : Prop :=
  data_type_is_empty a.data_type = true → counts_zero a

/-- The invariant of the bucket states the writers and the trigger reach. -/
structure BucketInv (a : bch_alloc_v4) : Prop where
  empty_zero : empty_counts_zero a
  /-- A bucket with anything in it owes the discard and the bump of its reuse. -/
  owed : data_type_is_empty a.data_type = false → a.need_discard = true ∧ a.need_inc_gen = true
  /-- A free bucket may be handed out: no pointer into it is too old to compare with. -/
  free_gap : a.data_type = BCH_DATA_free → (alloc_gc_gen a).toNat < BUCKET_GC_GEN_MAX

/-- The updates of the allocator's runs: a pointer carries data a bucket holds, and the
discard path runs with the bucket not open. -/
def UpdateOk : bucket_update × Bool → Prop
  | (.mark_pointer _ _ ptr_data_type _, _) => holds_data ptr_data_type
  | (.discard_mark_free, is_open) => is_open = false
  | (.write_oldest_gen _, _) => True

instance (x : bucket_update × Bool) : Decidable (UpdateOk x) :=
  match x with
  | (.mark_pointer _ _ t _, _) => inferInstanceAs (Decidable (holds_data t))
  | (.discard_mark_free, o) => inferInstanceAs (Decidable (o = false))
  | (.write_oldest_gen _, _) => instDecidableTrue

/-! ### Types -/

/-- `bucket_data_type` keeps whether a type is empty. -/
@[simp] theorem data_type_is_empty_bucket_data_type (t : bch_data_type) :
    data_type_is_empty (bucket_data_type t) = data_type_is_empty t := by
  cases t <;> rfl

/-- No sectors, in the terms `alloc_data_type` tests: no stripe reference, no dirty sectors, no
cached sectors. -/
theorem counts_zero_iff (a : bch_alloc_v4) :
    counts_zero a ↔ a.stripe_refcount = 0 ∧ bch2_bucket_sectors_dirty a = 0 ∧
      a.cached_sectors = 0 := by
  have h0 : ∀ x : UInt32, x.toNat = 0 ↔ x = 0 := fun x => by rw [← UInt32.toNat_inj]; rfl
  simp only [counts_zero, bch2_bucket_sectors_dirty, Nat.add_eq_zero_iff, h0]
  constructor
  · rintro ⟨hr, hd, hc, hs⟩
    exact ⟨hr, ⟨hs, hd⟩, hc⟩
  · rintro ⟨hr, ⟨hs, hd⟩, hc⟩
    exact ⟨hr, hd, hc, hs⟩

/-- On a bucket without sectors, `alloc_data_type` keeps the hint `need_discard` and
otherwise decides between free and `need_gc_gens` by the generation gap. -/
theorem alloc_data_type_of_counts_zero {a : bch_alloc_v4} (t : bch_data_type)
    (hz : counts_zero a) (hm : a.data_type ≠ BCH_DATA_multiple) :
    alloc_data_type a t =
      if t = BCH_DATA_need_discard then BCH_DATA_need_discard
      else if BUCKET_GC_GEN_MAX ≤ (alloc_gc_gen a).toNat then BCH_DATA_need_gc_gens
      else BCH_DATA_free := by
  obtain ⟨hr, hd, hc⟩ := (counts_zero_iff a).1 hz
  simp [alloc_data_type, hm, hr, hd, hc]

/-- A bucket with sectors, typed for data it holds, is typed as holding data. -/
theorem alloc_data_type_not_empty {a : bch_alloc_v4} {t : bch_data_type}
    (hz : ¬counts_zero a) (ht : data_type_is_empty t = false) :
    data_type_is_empty (alloc_data_type a t) = false := by
  rw [counts_zero_iff] at hz
  unfold alloc_data_type
  split_ifs <;> first | rfl | simp_all

/-- `alloc_data_type` gives an empty type only to a bucket without sectors, as long as an
empty hint comes with none. -/
theorem alloc_data_type_empty {a : bch_alloc_v4} {t : bch_data_type}
    (hz : data_type_is_empty t = true → counts_zero a)
    (he : data_type_is_empty (alloc_data_type a t) = true) : counts_zero a := by
  by_contra hc
  cases ht : data_type_is_empty t
  · rw [alloc_data_type_not_empty hc ht] at he
    cases he
  · exact hc (hz ht)

/-- A bucket is typed free only when its generation gap allows it. -/
theorem alloc_data_type_free {a : bch_alloc_v4} {t : bch_data_type}
    (hz : data_type_is_empty t = true → counts_zero a)
    (hf : alloc_data_type a t = BCH_DATA_free) :
    (alloc_gc_gen a).toNat < BUCKET_GC_GEN_MAX := by
  have hc : counts_zero a := alloc_data_type_empty hz (by rw [hf]; rfl)
  have hm : a.data_type ≠ BCH_DATA_multiple := by
    intro hm
    simp [alloc_data_type, hm] at hf
  rw [alloc_data_type_of_counts_zero t hc hm] at hf
  split_ifs at hf with h1 h2
  exact Nat.lt_of_not_le h2

/-- Nothing but a superblock or journal hint types a bucket as one. -/
theorem alloc_data_type_ne_sb_journal (a : bch_alloc_v4) {t : bch_data_type}
    (hsb : t ≠ BCH_DATA_sb) (hj : t ≠ BCH_DATA_journal) :
    alloc_data_type a t ≠ BCH_DATA_sb ∧ alloc_data_type a t ≠ BCH_DATA_journal := by
  unfold alloc_data_type
  split_ifs <;> cases t <;> simp_all [bucket_data_type]

/-! ### The blocks of the trigger -/

section Blocks

variable (old_a new_a : bch_alloc_v4)

/-- The block that sends an emptied bucket to `need_discard`, as an update of the type: a bucket
that held data, not superblock or journal, and is empty now. -/
theorem alloc_trigger_need_discard_eq :
    alloc_trigger_need_discard old_a new_a =
      { new_a with data_type :=
          if data_type_is_empty old_a.data_type = false ∧
              data_type_is_empty new_a.data_type = true ∧
              old_a.data_type ≠ BCH_DATA_sb ∧ old_a.data_type ≠ BCH_DATA_journal then
            BCH_DATA_need_discard
          else new_a.data_type } := by
  unfold alloc_trigger_need_discard
  split_ifs <;> simp_all

/-- The block for a bucket that starts to hold data, as an update of the two flags: both are raised.
-/
theorem alloc_trigger_nonempty_eq :
    alloc_trigger_nonempty old_a new_a =
      { new_a with
        need_inc_gen :=
          new_a.need_inc_gen || (data_type_is_empty old_a.data_type &&
            !data_type_is_empty new_a.data_type)
        need_discard :=
          new_a.need_discard || (data_type_is_empty old_a.data_type &&
            !data_type_is_empty new_a.data_type) } := by
  unfold alloc_trigger_nonempty
  cases (data_type_is_empty old_a.data_type && !data_type_is_empty new_a.data_type) <;> simp

/-- The repair of free buckets changes the type and the journal sequence numbers only; the
numbers it clears are zero already when it does not run. -/
theorem alloc_trigger_free_bookkeeping_eq :
    alloc_trigger_free_bookkeeping new_a =
      { new_a with
        data_type :=
          if new_a.data_type = BCH_DATA_free ∧ new_a.need_discard = true then
            BCH_DATA_need_discard
          else new_a.data_type
        journal_seq_nonempty :=
          if new_a.data_type = BCH_DATA_free ∧ new_a.need_discard = false then 0
          else new_a.journal_seq_nonempty
        journal_seq_empty :=
          if new_a.data_type = BCH_DATA_free ∧ new_a.need_discard = false then 0
          else new_a.journal_seq_empty } := by
  -- the block's two branches, free with the flag and free without, against the three fields
  cases new_a
  unfold alloc_trigger_free_bookkeeping
  split_ifs <;> simp_all

variable {new_a} (is_open : Bool)

/-- The deferred bump of an empty bucket that owes it and is not open: the generation goes up by
one, the oldest generation with it when no pointer is left, the flag is cleared and the type
recomputed. -/
theorem alloc_trigger_inc_gen_of_owed
    (h : data_type_is_empty new_a.data_type = true ∧ new_a.need_inc_gen = true ∧
      is_open = false) :
    alloc_trigger_inc_gen new_a is_open =
      alloc_data_type_set
        { new_a with
          oldest_gen :=
            if new_a.oldest_gen = new_a.generation ∧ bch2_bucket_sectors_total new_a = 0 then
              new_a.oldest_gen + 1
            else new_a.oldest_gen
          generation := new_a.generation + 1
          need_inc_gen := false }
        new_a.data_type := by
  obtain ⟨he, hg, ho⟩ := h
  unfold alloc_trigger_inc_gen
  rw [if_pos (by simp [he, hg, ho])]
  -- the oldest generation follows only when no pointer to the old generation is left
  split_ifs <;> rfl

/-- Without an owed bump, or with the bucket open, the deferred bump changes nothing. -/
theorem alloc_trigger_inc_gen_of_not_owed
    (h : ¬(data_type_is_empty new_a.data_type = true ∧ new_a.need_inc_gen = true ∧
      is_open = false)) :
    alloc_trigger_inc_gen new_a is_open = new_a := by
  unfold alloc_trigger_inc_gen
  rw [if_neg (by simpa using h)]

/-! The deferred bump changes the generation, the oldest generation and the flag only, and
recomputes the type for the new gap: an empty bucket stays empty, and one waiting for its
discard keeps waiting. -/

/-- The deferred bump keeps the `NEED_DISCARD` flag. -/
@[simp] theorem alloc_trigger_inc_gen_need_discard :
    (alloc_trigger_inc_gen new_a is_open).need_discard = new_a.need_discard := by
  by_cases h : data_type_is_empty new_a.data_type = true ∧ new_a.need_inc_gen = true ∧
      is_open = false
  · rw [alloc_trigger_inc_gen_of_owed is_open h]
    rfl
  · rw [alloc_trigger_inc_gen_of_not_owed is_open h]

/-- The deferred bump keeps the sector counts. -/
@[simp] theorem alloc_trigger_inc_gen_counts_zero :
    counts_zero (alloc_trigger_inc_gen new_a is_open) ↔ counts_zero new_a := by
  by_cases h : data_type_is_empty new_a.data_type = true ∧ new_a.need_inc_gen = true ∧
      is_open = false
  · rw [alloc_trigger_inc_gen_of_owed is_open h]
    rfl
  · rw [alloc_trigger_inc_gen_of_not_owed is_open h]

/-- A bucket with data takes no bump. -/
theorem alloc_trigger_inc_gen_of_not_empty (he : data_type_is_empty new_a.data_type = false) :
    alloc_trigger_inc_gen new_a is_open = new_a :=
  alloc_trigger_inc_gen_of_not_owed is_open (by simp [he])

/-- Either the bump is not taken, or the bucket owed it and its generation moves by one. -/
theorem alloc_trigger_inc_gen_generation :
    alloc_trigger_inc_gen new_a is_open = new_a ∨
      (data_type_is_empty new_a.data_type = true ∧ new_a.need_inc_gen = true ∧
        (alloc_trigger_inc_gen new_a is_open).generation = new_a.generation + 1 ∧
        (alloc_trigger_inc_gen new_a is_open).need_inc_gen = false) := by
  by_cases h : data_type_is_empty new_a.data_type = true ∧ new_a.need_inc_gen = true ∧
      is_open = false
  · rw [alloc_trigger_inc_gen_of_owed is_open h]
    exact Or.inr ⟨h.1, h.2.1, rfl, rfl⟩
  · exact Or.inl (alloc_trigger_inc_gen_of_not_owed is_open h)

/-- An empty bucket that is not open leaves the trigger with no bump owed. -/
theorem alloc_trigger_inc_gen_not_open (ho : is_open = false)
    (he : data_type_is_empty new_a.data_type = true) :
    (alloc_trigger_inc_gen new_a is_open).need_inc_gen = false := by
  by_cases hg : new_a.need_inc_gen = true
  · rw [alloc_trigger_inc_gen_of_owed is_open ⟨he, hg, ho⟩]
    rfl
  · rw [alloc_trigger_inc_gen_of_not_owed is_open (by simp [hg])]
    simpa using hg

section Empty

variable {is_open} (hz : empty_counts_zero new_a) (he : data_type_is_empty new_a.data_type = true)
include hz he

/-- The type the bump recomputes for an empty bucket, which has no sectors. -/
theorem alloc_trigger_inc_gen_data_type_of_owed
    (h : new_a.need_inc_gen = true ∧ is_open = false) :
    (alloc_trigger_inc_gen new_a is_open).data_type =
      if new_a.data_type = BCH_DATA_need_discard then BCH_DATA_need_discard
      else if BUCKET_GC_GEN_MAX ≤ (alloc_gc_gen (alloc_trigger_inc_gen new_a is_open)).toNat then
        BCH_DATA_need_gc_gens
      else BCH_DATA_free := by
  -- an empty type is never `multiple`, so `alloc_data_type` goes by the counts, which are zero
  have hm : new_a.data_type ≠ BCH_DATA_multiple := by
    intro hm
    rw [hm] at he
    cases he
  rw [alloc_trigger_inc_gen_of_owed is_open ⟨he, h⟩]
  exact alloc_data_type_of_counts_zero _ (hz he) hm

/-- An empty bucket stays empty through the bump. -/
theorem alloc_trigger_inc_gen_empty :
    data_type_is_empty (alloc_trigger_inc_gen new_a is_open).data_type = true := by
  by_cases h : new_a.need_inc_gen = true ∧ is_open = false
  · rw [alloc_trigger_inc_gen_data_type_of_owed hz he h]
    split_ifs <;> rfl
  · rw [alloc_trigger_inc_gen_of_not_owed is_open (by simpa [he] using h)]
    exact he

/-- A bucket waiting for its discard still waits for it after the bump. -/
theorem alloc_trigger_inc_gen_need_discard_type (hnd : new_a.data_type = BCH_DATA_need_discard) :
    (alloc_trigger_inc_gen new_a is_open).data_type = BCH_DATA_need_discard := by
  by_cases h : new_a.need_inc_gen = true ∧ is_open = false
  · rw [alloc_trigger_inc_gen_data_type_of_owed hz he h, if_pos hnd]
  · rw [alloc_trigger_inc_gen_of_not_owed is_open (by simpa [he] using h)]
    exact hnd

/-- The bump recomputes free or `need_gc_gens` from the new gap. -/
theorem alloc_trigger_inc_gen_free_gap
    (hf : new_a.data_type = BCH_DATA_free → (alloc_gc_gen new_a).toNat < BUCKET_GC_GEN_MAX)
    (hfree : (alloc_trigger_inc_gen new_a is_open).data_type = BCH_DATA_free) :
    (alloc_gc_gen (alloc_trigger_inc_gen new_a is_open)).toNat < BUCKET_GC_GEN_MAX := by
  by_cases h : new_a.need_inc_gen = true ∧ is_open = false
  · rw [alloc_trigger_inc_gen_data_type_of_owed hz he h] at hfree
    split_ifs at hfree with h1 h2
    exact Nat.lt_of_not_le h2
  · rw [alloc_trigger_inc_gen_of_not_owed is_open (by simpa [he] using h)] at hfree ⊢
    exact hf hfree

end Empty

/-- The bump keeps the invariant's first half: an empty type only on a bucket without sectors. -/
theorem alloc_trigger_inc_gen_empty_counts_zero (hz : empty_counts_zero new_a) :
    empty_counts_zero (alloc_trigger_inc_gen new_a is_open) := by
  intro he'
  rw [alloc_trigger_inc_gen_counts_zero]
  cases he : data_type_is_empty new_a.data_type
  · rw [alloc_trigger_inc_gen_of_not_empty is_open he] at he'
    rw [he'] at he
    cases he
  · exact hz he

/-- The bump keeps whether the bucket is empty. -/
theorem alloc_trigger_inc_gen_empty_iff (hz : empty_counts_zero new_a) :
    data_type_is_empty (alloc_trigger_inc_gen new_a is_open).data_type =
      data_type_is_empty new_a.data_type := by
  cases he : data_type_is_empty new_a.data_type
  · rw [alloc_trigger_inc_gen_of_not_empty is_open he, he]
  · exact alloc_trigger_inc_gen_empty hz he

/-- What the repair leaves free has no discard pending. -/
theorem alloc_trigger_free_bookkeeping_free
    (hf : (alloc_trigger_free_bookkeeping new_a).data_type = BCH_DATA_free) :
    (alloc_trigger_free_bookkeeping new_a).need_discard = false := by
  rw [alloc_trigger_free_bookkeeping_eq] at hf ⊢
  dsimp only at hf ⊢
  split_ifs at hf with h
  cases hnd : new_a.need_discard
  · rfl
  · exact absurd ⟨hf, hnd⟩ h

end Blocks

/-! ### The trigger -/

section Trigger

variable (old_a new_a : bch_alloc_v4)

/-- The bucket as the trigger's blocks leave it before the deferred bump. -/
def trigger_before_bump : bch_alloc_v4 :=
  alloc_trigger_free_bookkeeping
    (alloc_trigger_nonempty old_a
      (alloc_trigger_need_discard old_a (alloc_data_type_set new_a new_a.data_type)))

/-- The transactional trigger is the deferred bump after the other blocks. -/
theorem bch2_trigger_alloc_transactional_eq (is_open : Bool) :
    bch2_trigger_alloc_transactional old_a new_a is_open =
      alloc_trigger_inc_gen (trigger_before_bump old_a new_a) is_open := rfl

/-- The blocks before the bump keep the generation. -/
@[simp] theorem trigger_before_bump_generation :
    (trigger_before_bump old_a new_a).generation = new_a.generation := by
  simp [trigger_before_bump, alloc_trigger_free_bookkeeping_eq, alloc_trigger_nonempty_eq,
    alloc_trigger_need_discard_eq, alloc_data_type_set]

/-- The blocks before the bump keep the generation gap. -/
@[simp] theorem trigger_before_bump_gc_gen :
    alloc_gc_gen (trigger_before_bump old_a new_a) = alloc_gc_gen new_a := by
  simp [alloc_gc_gen, trigger_before_bump, alloc_trigger_free_bookkeeping_eq,
    alloc_trigger_nonempty_eq, alloc_trigger_need_discard_eq, alloc_data_type_set]

/-- The blocks before the bump keep the sector counts. -/
@[simp] theorem trigger_before_bump_counts_zero :
    counts_zero (trigger_before_bump old_a new_a) ↔ counts_zero new_a := by
  simp [counts_zero, trigger_before_bump, alloc_trigger_free_bookkeeping_eq,
    alloc_trigger_nonempty_eq, alloc_trigger_need_discard_eq, alloc_data_type_set]

/-- After the blocks the bucket is empty exactly when the type `alloc_data_type` recomputes is. -/
theorem trigger_before_bump_empty :
    data_type_is_empty (trigger_before_bump old_a new_a).data_type =
      data_type_is_empty (alloc_data_type new_a new_a.data_type) := by
  simp only [trigger_before_bump, alloc_trigger_free_bookkeeping_eq, alloc_trigger_nonempty_eq,
    alloc_trigger_need_discard_eq, alloc_data_type_set]
  split_ifs <;> simp_all [data_type_is_empty]

/-- Both flags are raised when the bucket starts to hold data, and kept otherwise. -/
theorem trigger_before_bump_flags :
    (trigger_before_bump old_a new_a).need_inc_gen =
        (new_a.need_inc_gen || (data_type_is_empty old_a.data_type &&
          !data_type_is_empty (alloc_data_type new_a new_a.data_type))) ∧
      (trigger_before_bump old_a new_a).need_discard =
        (new_a.need_discard || (data_type_is_empty old_a.data_type &&
          !data_type_is_empty (alloc_data_type new_a new_a.data_type))) := by
  simp only [trigger_before_bump, alloc_trigger_free_bookkeeping_eq, alloc_trigger_nonempty_eq,
    alloc_trigger_need_discard_eq, alloc_data_type_set]
  split_ifs <;> simp_all

/-- A bucket the blocks leave free has its generation gap below `BUCKET_GC_GEN_MAX`. -/
theorem trigger_before_bump_free_gap (hz : empty_counts_zero new_a)
    (hf : (trigger_before_bump old_a new_a).data_type = BCH_DATA_free) :
    (alloc_gc_gen (trigger_before_bump old_a new_a)).toNat < BUCKET_GC_GEN_MAX := by
  -- only the recomputed type can make the bucket free: the blocks make `need_discard` only
  have ht : alloc_data_type new_a new_a.data_type = BCH_DATA_free := by
    simp only [trigger_before_bump, alloc_trigger_free_bookkeeping_eq, alloc_trigger_nonempty_eq,
      alloc_trigger_need_discard_eq, alloc_data_type_set] at hf
    split_ifs at hf
    simp_all
  rw [trigger_before_bump_gc_gen]
  exact alloc_data_type_free hz ht

/-- The blocks give an empty type only to a bucket without sectors. -/
theorem trigger_before_bump_empty_counts_zero (hz : empty_counts_zero new_a) :
    empty_counts_zero (trigger_before_bump old_a new_a) := by
  intro he
  rw [trigger_before_bump_empty] at he
  rw [trigger_before_bump_counts_zero]
  exact alloc_data_type_empty hz he

/-- A bucket that held data and is not typed as superblock or journal by the writer holds
data after the blocks, or goes to `need_discard`. -/
theorem trigger_before_bump_holds_data (hold : holds_data old_a.data_type)
    (hsb : new_a.data_type ≠ BCH_DATA_sb) (hj : new_a.data_type ≠ BCH_DATA_journal) :
    holds_data (trigger_before_bump old_a new_a).data_type ∨
      (trigger_before_bump old_a new_a).data_type = BCH_DATA_need_discard := by
  obtain ⟨hne, hosb, hoj⟩ := hold
  obtain ⟨h1, h2⟩ := alloc_data_type_ne_sb_journal new_a hsb hj
  simp only [trigger_before_bump, alloc_trigger_free_bookkeeping_eq, alloc_trigger_nonempty_eq,
    alloc_trigger_need_discard_eq, alloc_data_type_set]
  split_ifs <;> simp_all [holds_data]

variable (is_open : Bool)

/-- The generation moves by one exactly when the owed bump is taken; otherwise the flag is the
writer's, raised if the bucket started to hold data. -/
theorem trigger_generation (hz : empty_counts_zero new_a) :
    ((bch2_trigger_alloc_transactional old_a new_a is_open).generation = new_a.generation ∧
      (bch2_trigger_alloc_transactional old_a new_a is_open).need_inc_gen =
        (new_a.need_inc_gen || (data_type_is_empty old_a.data_type &&
          !data_type_is_empty (bch2_trigger_alloc_transactional old_a new_a is_open).data_type))) ∨
    ((bch2_trigger_alloc_transactional old_a new_a is_open).generation = new_a.generation + 1 ∧
      (bch2_trigger_alloc_transactional old_a new_a is_open).need_inc_gen = false ∧
      new_a.need_inc_gen = true ∧
      data_type_is_empty (bch2_trigger_alloc_transactional old_a new_a is_open).data_type = true) := by
  have hz4 := trigger_before_bump_empty_counts_zero old_a new_a hz
  rw [bch2_trigger_alloc_transactional_eq]
  -- either the bump is not taken and the flags are those of the blocks, or it is taken, which it is only on an empty bucket
  rcases @alloc_trigger_inc_gen_generation (trigger_before_bump old_a new_a) is_open with
    h | ⟨he, hg, hgen, hflag⟩
  · left
    rw [h, trigger_before_bump_generation, (trigger_before_bump_flags old_a new_a).1,
      trigger_before_bump_empty]
    exact ⟨rfl, rfl⟩
  · right
    refine ⟨by rw [hgen, trigger_before_bump_generation], hflag, ?_,
      alloc_trigger_inc_gen_empty hz4 he⟩
    rw [(trigger_before_bump_flags old_a new_a).1] at hg
    rw [trigger_before_bump_empty] at he
    simpa [he] using hg

/-- The trigger raises `NEED_DISCARD` exactly when the bucket starts to hold data, and keeps the
writer's flag otherwise. -/
theorem trigger_need_discard_flag (hz : empty_counts_zero new_a) :
    (bch2_trigger_alloc_transactional old_a new_a is_open).need_discard =
      (new_a.need_discard || (data_type_is_empty old_a.data_type &&
        !data_type_is_empty (bch2_trigger_alloc_transactional old_a new_a is_open).data_type)) := by
  have hz4 := trigger_before_bump_empty_counts_zero old_a new_a hz
  rw [bch2_trigger_alloc_transactional_eq, alloc_trigger_inc_gen_need_discard,
    alloc_trigger_inc_gen_empty_iff is_open hz4, trigger_before_bump_empty]
  exact (trigger_before_bump_flags old_a new_a).2

/-- A bucket the trigger leaves free with a discard still flagged took its bump here. -/
theorem trigger_free_bumped
    (hf : (bch2_trigger_alloc_transactional old_a new_a is_open).data_type = BCH_DATA_free)
    (hnd : (bch2_trigger_alloc_transactional old_a new_a is_open).need_discard = true) :
    (bch2_trigger_alloc_transactional old_a new_a is_open).generation = new_a.generation + 1 := by
  rw [bch2_trigger_alloc_transactional_eq] at hf hnd ⊢
  rcases @alloc_trigger_inc_gen_generation (trigger_before_bump old_a new_a) is_open with
    h | ⟨-, -, hgen, -⟩
  · rw [h] at hf hnd
    rw [trigger_before_bump, alloc_trigger_free_bookkeeping_free hf] at hnd
    cases hnd
  · rw [hgen, trigger_before_bump_generation]

/-- An update that leaves the bucket empty and not open leaves no bump owed. -/
theorem trigger_not_open (hz : empty_counts_zero new_a) (ho : is_open = false)
    (he : data_type_is_empty (bch2_trigger_alloc_transactional old_a new_a is_open).data_type) :
    (bch2_trigger_alloc_transactional old_a new_a is_open).need_inc_gen = false := by
  have hz4 := trigger_before_bump_empty_counts_zero old_a new_a hz
  rw [bch2_trigger_alloc_transactional_eq] at he ⊢
  rw [alloc_trigger_inc_gen_empty_iff is_open hz4] at he
  exact alloc_trigger_inc_gen_not_open is_open ho he

/-- A bucket that held data, typed by the writer as neither superblock nor journal, holds data after
the trigger or waits for its discard. -/
theorem trigger_holds_data (hz : empty_counts_zero new_a) (hold : holds_data old_a.data_type)
    (hsb : new_a.data_type ≠ BCH_DATA_sb) (hj : new_a.data_type ≠ BCH_DATA_journal) :
    holds_data (bch2_trigger_alloc_transactional old_a new_a is_open).data_type ∨
      (bch2_trigger_alloc_transactional old_a new_a is_open).data_type = BCH_DATA_need_discard := by
  have hz4 := trigger_before_bump_empty_counts_zero old_a new_a hz
  rw [bch2_trigger_alloc_transactional_eq]
  -- a bucket with data takes no bump, and one waiting for its discard keeps waiting
  rcases trigger_before_bump_holds_data old_a new_a hold hsb hj with h | h
  · left
    rw [alloc_trigger_inc_gen_of_not_empty is_open h.1]
    exact h
  · right
    exact alloc_trigger_inc_gen_need_discard_type hz4 (by rw [h]; rfl) h

/-- The trigger establishes the invariant from a writer that keeps the flags of a bucket with
anything in it and types no bucket empty that has sectors. -/
theorem trigger_inv
    (howed : data_type_is_empty old_a.data_type = false →
      new_a.need_discard = true ∧ new_a.need_inc_gen = true)
    (hz : empty_counts_zero new_a) :
    BucketInv (bch2_trigger_alloc_transactional old_a new_a is_open) where
  empty_zero := by
    rw [bch2_trigger_alloc_transactional_eq]
    exact alloc_trigger_inc_gen_empty_counts_zero is_open
      (trigger_before_bump_empty_counts_zero old_a new_a hz)
  owed := by
    intro hne
    -- the flags of a bucket with data are the writer's or raised by the blocks; a bucket that took the bump is empty
    rcases trigger_generation old_a new_a is_open hz with ⟨-, hflag⟩ | ⟨-, -, -, he⟩
    · rw [trigger_need_discard_flag old_a new_a is_open hz, hflag, hne]
      cases ho : data_type_is_empty old_a.data_type
      · obtain ⟨h1, h2⟩ := howed ho
        simp [h1, h2]
      · simp
    · rw [hne] at he
      cases he
  free_gap := by
    intro hf
    have hz4 := trigger_before_bump_empty_counts_zero old_a new_a hz
    rw [bch2_trigger_alloc_transactional_eq] at hf ⊢
    -- a bucket with data is not touched by the bump; an empty one has its gap recomputed
    cases he : data_type_is_empty (trigger_before_bump old_a new_a).data_type
    · rw [alloc_trigger_inc_gen_of_not_empty is_open he] at hf ⊢
      exact trigger_before_bump_free_gap old_a new_a hz hf
    · exact alloc_trigger_inc_gen_free_gap hz4 he (trigger_before_bump_free_gap old_a new_a hz) hf

end Trigger

/-! ### The writers -/

section Writers

variable {p : extent_ptr_decoded} {sectors : Int} {ptr_data_type : bch_data_type} {b_gen : UInt8}
  {dt dt' : bch_data_type} {n : UInt32}

/-- The error path of the reference update succeeds only for an overwrite, and then keeps the type
and the count. -/
theorem bucket_ref_update_err_eq_ok {inserting : Bool} {c : UInt32} :
    bucket_ref_update_err inserting dt c = .ok dt' n ↔ inserting = false ∧ dt' = dt ∧ n = c := by
  cases inserting <;> simp [bucket_ref_update_err, eq_comm]

/-- A successful reference update keeps the type or makes it `multiple`. -/
theorem bch2_bucket_ref_update_ok_type {c : UInt32}
    (h : bch2_bucket_ref_update p sectors ptr_data_type b_gen dt c = .ok dt' n) :
    dt' = dt ∨ dt' = BCH_DATA_multiple := by
  unfold bch2_bucket_ref_update __bch2_bucket_ref_update at h
  split_ifs at h <;> simp_all [bucket_ref_update_err_eq_ok]

/-- An overwrite of an empty bucket, whose count is zero, succeeds only with the type and the count
as they were. -/
theorem bch2_bucket_ref_update_overwrite_empty (hs : sectors ≤ 0)
    (hdt : data_type_is_empty dt = true)
    (h : bch2_bucket_ref_update p sectors ptr_data_type b_gen dt 0 = .ok dt' n) :
    dt' = dt ∧ n = 0 := by
  have hm : bucket_data_type_mismatch dt ptr_data_type = false := by
    simp [bucket_data_type_mismatch, hdt]
  unfold bch2_bucket_ref_update __bch2_bucket_ref_update at h
  split_ifs at h <;> simp_all [bucket_ref_update_err_eq_ok]
  -- the branches left are those where the count stays at zero: no sectors are removed
  all_goals
    obtain rfl : sectors = 0 := by omega
    simp_all

variable {a new_a : bch_alloc_v4} {insert : Bool}

/-- The count `__mark_pointer` adds the pointer's sectors to: stripe, dirty or cached. -/
def mark_pointer_dst (p : extent_ptr_decoded) (a : bch_alloc_v4) : UInt32 :=
  if p.has_ec then a.stripe_sectors else if !p.cached then a.dirty_sectors else a.cached_sectors

/-- The bucket with its type and that count written back. -/
def mark_pointer_set (p : extent_ptr_decoded) (a : bch_alloc_v4) (data_type : bch_data_type)
    (n : UInt32) : bch_alloc_v4 :=
  if p.has_ec then { a with data_type, stripe_sectors := n }
  else if !p.cached then { a with data_type, dirty_sectors := n }
  else { a with data_type, cached_sectors := n }

attribute [grind] mark_pointer_dst

/-- `__mark_pointer` as the reference update on the count the pointer reads, written back with the
type, which an insert then recomputes. -/
theorem mark_pointer_eq (a : bch_alloc_v4) :
    __mark_pointer p sectors ptr_data_type a insert =
      match bch2_bucket_ref_update p sectors ptr_data_type a.generation a.data_type
          (mark_pointer_dst p a) with
      | .err => none
      | .stale => some a
      | .ok data_type n =>
          some (if insert then alloc_data_type_set (mark_pointer_set p a data_type n) ptr_data_type
            else mark_pointer_set p a data_type n) := by
  unfold __mark_pointer mark_pointer_set mark_pointer_dst
  rfl

section Set

variable (p a) (t : bch_data_type) (n : UInt32)

/-- Writing back the count keeps the generation. -/
@[simp] theorem mark_pointer_set_generation : (mark_pointer_set p a t n).generation = a.generation := by
  unfold mark_pointer_set; split_ifs <;> rfl

/-- Writing back the count keeps the oldest generation. -/
@[simp] theorem mark_pointer_set_oldest_gen : (mark_pointer_set p a t n).oldest_gen = a.oldest_gen := by
  unfold mark_pointer_set; split_ifs <;> rfl

/-- Writing back the count keeps the `NEED_DISCARD` flag. -/
@[simp] theorem mark_pointer_set_need_discard :
    (mark_pointer_set p a t n).need_discard = a.need_discard := by
  unfold mark_pointer_set; split_ifs <;> rfl

/-- Writing back the count keeps the `NEED_INC_GEN` flag. -/
@[simp] theorem mark_pointer_set_need_inc_gen :
    (mark_pointer_set p a t n).need_inc_gen = a.need_inc_gen := by
  unfold mark_pointer_set; split_ifs <;> rfl

/-- Writing back the count sets the type it is given. -/
@[simp] theorem mark_pointer_set_data_type : (mark_pointer_set p a t n).data_type = t := by
  unfold mark_pointer_set; split_ifs <;> rfl

/-- Writing back the type and the count read changes nothing. -/
theorem mark_pointer_set_self : mark_pointer_set p a a.data_type (mark_pointer_dst p a) = a := by
  unfold mark_pointer_set mark_pointer_dst; split_ifs <;> rfl

end Set

/-- `__mark_pointer` keeps the generations and both flags. -/
theorem mark_pointer_fields (h : __mark_pointer p sectors ptr_data_type a insert = some new_a) :
    new_a.generation = a.generation ∧ new_a.oldest_gen = a.oldest_gen ∧
      new_a.need_discard = a.need_discard ∧ new_a.need_inc_gen = a.need_inc_gen := by
  rw [mark_pointer_eq] at h
  -- the three outcomes of the reference update: an error, a stale pointer, a new count
  split at h
  · cases h
  · cases h
    exact ⟨rfl, rfl, rfl, rfl⟩
  · split_ifs at h <;> cases h <;> simp [alloc_data_type_set]

/-- A pointer that is neither superblock nor journal data makes no bucket a superblock or journal
bucket. -/
theorem mark_pointer_ne_sb_journal
    (ha : a.data_type ≠ BCH_DATA_sb ∧ a.data_type ≠ BCH_DATA_journal)
    (ht : ptr_data_type ≠ BCH_DATA_sb ∧ ptr_data_type ≠ BCH_DATA_journal)
    (h : __mark_pointer p sectors ptr_data_type a insert = some new_a) :
    new_a.data_type ≠ BCH_DATA_sb ∧ new_a.data_type ≠ BCH_DATA_journal := by
  rw [mark_pointer_eq] at h
  split at h
  · cases h
  · cases h
    exact ha
  · rename_i dt n hr
    -- an insert recomputes the type from the pointer's; an overwrite keeps the type or makes it `multiple`
    split_ifs at h <;> cases h
    · exact alloc_data_type_ne_sb_journal _ ht.1 ht.2
    · rw [mark_pointer_set_data_type]
      rcases bch2_bucket_ref_update_ok_type hr with rfl | rfl
      · exact ha
      · simp

/-- An overwrite of an empty bucket changes nothing: its counts are zero and cannot go lower. -/
theorem mark_pointer_overwrite_empty (hz : counts_zero a)
    (he : data_type_is_empty a.data_type = true) (hs : sectors ≤ 0)
    (h : __mark_pointer p sectors ptr_data_type a false = some new_a) : new_a = a := by
  rw [mark_pointer_eq] at h
  split at h
  · cases h
  · exact (Option.some.inj h).symm
  · rename_i dt n hr
    -- the count the pointer reads is one of the bucket's, all zero
    have hdst : mark_pointer_dst p a = 0 := by
      obtain ⟨-, hd0, hc0, hs0⟩ := hz
      unfold mark_pointer_dst
      split_ifs <;> assumption
    rw [hdst] at hr
    obtain ⟨rfl, rfl⟩ := bch2_bucket_ref_update_overwrite_empty hs he hr
    rw [← hdst, mark_pointer_set_self] at h
    exact (Option.some.inj h).symm

/-- An overwrite keeps the type or makes it `multiple`. -/
theorem mark_pointer_overwrite_data_type
    (h : __mark_pointer p sectors ptr_data_type a false = some new_a) :
    new_a.data_type = a.data_type ∨ new_a.data_type = BCH_DATA_multiple := by
  rw [mark_pointer_eq] at h
  split at h
  · cases h
  · cases h
    exact Or.inl rfl
  · rename_i dt n hr
    cases h
    -- an overwrite writes back the type the update returns, with no recomputation
    rw [if_neg (by decide), mark_pointer_set_data_type]
    exact bch2_bucket_ref_update_ok_type hr

/-- `__mark_pointer` keeps the invariant's first half, for a pointer to nonempty data whose
overwrites remove sectors. -/
theorem mark_pointer_empty_counts_zero (hz : empty_counts_zero a)
    (ht : data_type_is_empty ptr_data_type = false) (hs : insert = false → sectors ≤ 0)
    (h : __mark_pointer p sectors ptr_data_type a insert = some new_a) :
    empty_counts_zero new_a := by
  cases insert
  · -- an overwrite leaves an empty bucket as it was
    intro he
    have ha : data_type_is_empty a.data_type = true := by
      rcases mark_pointer_overwrite_data_type h with h' | h'
      · rwa [← h']
      · rw [h'] at he
        cases he
    rw [mark_pointer_overwrite_empty (hz ha) ha (hs rfl) h]
    exact hz ha
  · -- an insert types the bucket for the pointer's data, which is not empty
    rw [mark_pointer_eq] at h
    split at h
    · cases h
    · cases h
      exact hz
    · rename_i dt n hr
      cases h
      intro he
      rw [if_pos rfl] at he ⊢
      have hc : counts_zero (mark_pointer_set p a dt n) :=
        alloc_data_type_empty (fun h' => by rw [ht] at h'; cases h') he
      exact hc

/-- `__discard_mark_free` runs only on a `need_discard` bucket, and clears the flag and nothing else
the invariant reads. -/
theorem discard_mark_free_eq (h : __discard_mark_free a = some new_a) :
    a.data_type = BCH_DATA_need_discard ∧ new_a.generation = a.generation ∧
      new_a.need_discard = false ∧ new_a.need_inc_gen = a.need_inc_gen ∧
      (counts_zero new_a ↔ counts_zero a) := by
  unfold __discard_mark_free at h
  split_ifs at h with hnd
  cases h
  exact ⟨not_not.1 hnd, rfl, rfl, rfl, Iff.rfl⟩

/-- `bch2_alloc_write_oldest_gen` writes the oldest generation only. -/
theorem write_oldest_gen_eq {g : UInt8} (h : bch2_alloc_write_oldest_gen a g = some new_a) :
    new_a = { a with oldest_gen := g } := by
  unfold bch2_alloc_write_oldest_gen at h
  split_ifs at h
  exact (Option.some.inj h).symm

/-! ### One update, and runs -/

variable {u : bucket_update} {is_open : Bool}

/-- No writer changes the generation. -/
theorem write_generation (h : u.write a = some new_a) : new_a.generation = a.generation := by
  cases u with
  | mark_pointer p len t ins => exact (mark_pointer_fields h).1
  | discard_mark_free => exact (discard_mark_free_eq h).2.1
  | write_oldest_gen g => rw [write_oldest_gen_eq h]

/-- No writer changes the `NEED_INC_GEN` flag. -/
theorem write_need_inc_gen (h : u.write a = some new_a) : new_a.need_inc_gen = a.need_inc_gen := by
  cases u with
  | mark_pointer p len t ins => exact (mark_pointer_fields h).2.2.2
  | discard_mark_free => exact (discard_mark_free_eq h).2.2.2.1
  | write_oldest_gen g => rw [write_oldest_gen_eq h]

/-- Only the discard clears the `NEED_DISCARD` flag, and only of a `need_discard` bucket. -/
theorem write_need_discard (h : u.write a = some new_a) :
    new_a.need_discard = a.need_discard ∨
      (u = .discard_mark_free ∧ a.data_type = BCH_DATA_need_discard ∧
        new_a.need_discard = false) := by
  cases u with
  | mark_pointer p len t ins => exact Or.inl (mark_pointer_fields h).2.2.1
  | discard_mark_free =>
      obtain ⟨hnd, -, hflag, -⟩ := discard_mark_free_eq h
      exact Or.inr ⟨rfl, hnd, hflag⟩
  | write_oldest_gen g => rw [write_oldest_gen_eq h]; exact Or.inl rfl

/-- Every allowed writer, from a bucket that keeps the invariant, gives an empty type only to a
bucket without sectors. -/
theorem write_empty_counts_zero (hinv : BucketInv a) (hu : UpdateOk (u, is_open))
    (h : u.write a = some new_a) : empty_counts_zero new_a := by
  cases u with
  | mark_pointer p len t ins =>
      refine mark_pointer_empty_counts_zero hinv.empty_zero hu.1 (fun hi => ?_) h
      simp [hi]
  -- the discard runs on a `need_discard` bucket, empty by type, so its counts were zero and stay
  | discard_mark_free =>
      obtain ⟨hnd, -, -, -, hc⟩ := discard_mark_free_eq h
      exact fun _ => hc.2 (hinv.empty_zero (by rw [hnd]; rfl))
  | write_oldest_gen g =>
      rw [write_oldest_gen_eq h]
      exact hinv.empty_zero

/-- No allowed writer makes a bucket a superblock or journal bucket. -/
theorem write_ne_sb_journal (ha : a.data_type ≠ BCH_DATA_sb ∧ a.data_type ≠ BCH_DATA_journal)
    (hu : UpdateOk (u, is_open)) (h : u.write a = some new_a) :
    new_a.data_type ≠ BCH_DATA_sb ∧ new_a.data_type ≠ BCH_DATA_journal := by
  cases u with
  | mark_pointer p len t ins => exact mark_pointer_ne_sb_journal ha hu.2 h
  -- the discard recomputes the type from `free`
  | discard_mark_free =>
      unfold bucket_update.write __discard_mark_free at h
      split_ifs at h
      cases h
      dsimp only [alloc_data_type_set]
      exact alloc_data_type_ne_sb_journal _ (t := BCH_DATA_free) (by decide) (by decide)
  | write_oldest_gen g =>
      rw [write_oldest_gen_eq h]
      exact ha

/-- Every update keeps the invariant. -/
theorem bucket_step_inv (hinv : BucketInv a) (hu : UpdateOk (u, is_open)) :
    BucketInv (bucket_step a u is_open) := by
  unfold bucket_step
  split
  · rename_i new_a h
    refine trigger_inv a new_a is_open (fun hne => ?_) (write_empty_counts_zero hinv hu h)
    obtain ⟨hnd, hng⟩ := hinv.owed hne
    rw [write_need_inc_gen h]
    -- only the discard clears `NEED_DISCARD`, and only on an empty bucket
    rcases write_need_discard h with h' | ⟨-, hd, -⟩
    · exact ⟨h'.trans hnd, hng⟩
    · rw [hd] at hne
      cases hne
  · exact hinv

/-- From a bucket that holds data, an update leads to a bucket that holds data or waits for its
discard. -/
theorem bucket_step_holds_data (hinv : BucketInv a) (hu : UpdateOk (u, is_open))
    (hold : holds_data a.data_type) :
    holds_data (bucket_step a u is_open).data_type ∨
      (bucket_step a u is_open).data_type = BCH_DATA_need_discard := by
  unfold bucket_step
  split
  · rename_i new_a h
    obtain ⟨hsb, hj⟩ := write_ne_sb_journal ⟨hold.2.1, hold.2.2⟩ hu h
    exact trigger_holds_data a new_a is_open (write_empty_counts_zero hinv hu h) hold hsb hj
  · exact Or.inl hold

/-- Every run of allowed updates keeps the invariant: the run lemma from `bucket_step_inv`. -/
theorem bucket_run_inv {us : List (bucket_update × Bool)} (hinv : BucketInv a)
    (hus : ∀ x ∈ us, UpdateOk x) : BucketInv (bucket_run a us) := by
  -- induction on the updates, the bucket generalized; `bucket_step_inv` carries the invariant
  induction us generalizing a with
  | nil => exact hinv
  | cons x us ih =>
      rw [bucket_run_cons]
      exact ih (bucket_step_inv hinv (hus x List.mem_cons_self))
        (fun y hy => hus y (List.mem_cons_of_mem x hy))

end Writers

end Bcachefs.Proofs.Alloc
