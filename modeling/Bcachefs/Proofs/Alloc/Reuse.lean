import Bcachefs.Proofs.Alloc.Trigger

/-!
# Reusing a bucket makes the pointers into it stale, until its generation wraps

A pointer records its bucket's generation when it is created, and `bch2_bucket_ref_update`
treats it as stale once the bucket's generation is after it (`gen_after`). A bucket that
holds data owes a discard and a generation bump (`BucketInv`), and the trigger takes the bump
as soon as the bucket is empty and not open, so the bucket is free again only with a newer
generation.

Generations are `u8`, and a bucket is bumped each time it is emptied. `ReuseInv` follows a run
with two proof-only counts, the bumps `k` taken and the refills `r` made (`bucket_refills`),
and keeps `1 ≤ k ≤ r + 1` once the bucket is free. `bucket_reuse_invalidates_old_pointers`
is the result: from a bucket that holds data, the bucket waits for its discard before it is
free, is free at a generation after the one it started at as long as fewer than 127 refills
happened in between, and a free bucket's generation gap is below `BUCKET_GC_GEN_MAX`.
`bucket_reuse_generation_not_after` gives runs without those two conditions whose bucket is
free again at a generation that is not after the first one.
-/

set_option autoImplicit false

namespace Bcachefs.Proofs.Alloc

open Bcachefs Bcachefs.bch_data_type

/-! ### Generations -/

/-- A `u8` below 128 read as an `s8` keeps its value. -/
theorem toInt_toInt8_of_lt (x : UInt8) (h : x.toNat < 128) : x.toInt8.toInt = x.toNat := by
  rw [← Int8.toInt_toBitVec]
  simp [UInt8.toInt8, Int8.toBitVec, BitVec.toInt]
  omega

/-- A generation at most 127 bumps after `g` is after it by that many. -/
theorem gen_after_add (g : UInt8) {k : Nat} (hk : k ≤ 127) :
    gen_after (g + k.toUInt8) g = k := by
  have hlt : k.toUInt8.toNat < 128 := by
    rw [UInt8.toNat_ofNat']
    omega
  unfold gen_after gen_cmp
  rw [add_sub_cancel_left, toInt_toInt8_of_lt _ hlt, UInt8.toNat_ofNat']
  omega

/-- 128 bumps after `g`, `gen_after` sees the generation as before `g`. -/
theorem gen_after_add_128 (g : UInt8) : gen_after (g + 128) g = 0 := by
  unfold gen_after gen_cmp
  rw [add_sub_cancel_left]
  decide

/-- `(k + 1)` as a `u8` is one more than `k` as a `u8`, modulo 256. -/
theorem toUInt8_succ (k : Nat) : (k + 1).toUInt8 = k.toUInt8 + 1 := by
  simp [Nat.toUInt8_eq, UInt8.ofNat_add]

/-! ### Runs and their ghost counts -/

/-- The update makes the bucket hold data again. -/
def bucket_refill (a b : bch_alloc_v4) : Bool :=
  data_type_is_empty a.data_type && !data_type_is_empty b.data_type

/-- How many times a run makes the bucket hold data again. -/
def bucket_refills (a : bch_alloc_v4) : List (bucket_update × Bool) → Nat
  | [] => 0
  | u :: us =>
      (bucket_refill a (bucket_step a u.1 u.2)).toNat + bucket_refills (bucket_step a u.1 u.2) us

attribute [grind] bucket_refills

/-- The refills of two runs one after the other add up. -/
theorem bucket_refills_append (a : bch_alloc_v4) (us vs : List (bucket_update × Bool)) :
    bucket_refills a (us ++ vs) = bucket_refills a us + bucket_refills (bucket_run a us) vs := by
  -- induction on the first run, the bucket generalized
  induction us generalizing a with
  | nil => simp [bucket_refills]
  | cons u us ih =>
      rw [List.cons_append, bucket_refills, bucket_refills, ih, bucket_run_cons]
      omega

/-- What a run from a bucket that held data at generation `g` keeps, with `k` bumps taken
and `r` refills made so far. -/
structure ReuseInv (g : UInt8) (k r : Nat) (a : bch_alloc_v4) : Prop where
  inv : BucketInv a
  generation : a.generation = g + k.toUInt8
  /-- The first bump is taken or still owed. -/
  owed : 1 ≤ k + a.need_inc_gen.toNat
  /-- The discard comes after the first bump. -/
  discarded : a.need_discard = false → 1 ≤ k
  free_bumped : a.data_type = BCH_DATA_free → 1 ≤ k
  /-- One bump for the data held at the start and one for each refill, taken or owed. -/
  bound : k + a.need_inc_gen.toNat ≤ r + 1

/-- A bucket that keeps the invariant and holds data starts the counts: no bump taken yet, one owed,
no refill. -/
theorem reuse_inv_start {a : bch_alloc_v4} (hinv : BucketInv a)
    (hold : holds_data a.data_type) : ReuseInv a.generation 0 0 a where
  inv := hinv
  generation := by simp
  owed := by simp [(hinv.owed hold.1).2]
  discarded := by simp [(hinv.owed hold.1).1]
  free_bumped := fun hf => absurd hold.1 (by rw [hf]; decide)
  bound := by simp [(hinv.owed hold.1).2]

section Step

variable {g : UInt8} {k r : Nat} {a : bch_alloc_v4} {u : bucket_update} {is_open : Bool}

/-- An update that commits nothing keeps the counts. -/
theorem reuse_inv_step_none (h : ReuseInv g k r a) (hw : u.write a = none) :
    ReuseInv g k (r + (bucket_refill a (bucket_step a u is_open)).toNat)
      (bucket_step a u is_open) := by
  have hs : bucket_step a u is_open = a := by simp [bucket_step, hw]
  rw [hs]
  simpa [bucket_refill] using h

/-- One update takes at most the bump it owes, and owes one more only by a refill. -/
theorem reuse_inv_step (h : ReuseInv g k r a) (hu : UpdateOk (u, is_open)) :
    ∃ k', ReuseInv g k' (r + (bucket_refill a (bucket_step a u is_open)).toNat)
      (bucket_step a u is_open) := by
  cases hw : u.write a with
  | none => exact ⟨k, reuse_inv_step_none h hw⟩
  | some new_a =>
      have hinv := bucket_step_inv h.inv hu
      have hs : bucket_step a u is_open = bch2_trigger_alloc_transactional a new_a is_open := by
        simp [bucket_step, hw]
      rw [hs] at hinv ⊢
      have hz := write_empty_counts_zero h.inv hu hw
      have hg := write_generation hw
      have hng := write_need_inc_gen hw
      have hnd := trigger_need_discard_flag a new_a is_open hz
      have hrf : (data_type_is_empty a.data_type &&
          !data_type_is_empty (bch2_trigger_alloc_transactional a new_a is_open).data_type) =
          bucket_refill a (bch2_trigger_alloc_transactional a new_a is_open) := rfl
      rw [hrf] at hnd
      have hb := h.bound
      have ho := h.owed
      rcases trigger_generation a new_a is_open hz with ⟨hgen, hflag⟩ | ⟨hgen, hflag, hnew, -⟩
      · -- no bump: the flag is the writer's, raised again by a refill
        rw [hrf, hng] at hflag
        have hdisc : (bch2_trigger_alloc_transactional a new_a is_open).need_discard = false →
            1 ≤ k := by
          intro hd
          rw [hnd, Bool.or_eq_false_iff] at hd
          rcases write_need_discard hw with h1 | ⟨rfl, hnda, -⟩
          · exact h.discarded (h1 ▸ hd.1)
          · -- the discard ran with the bucket not open, so the bump owed was taken
            have he : data_type_is_empty
                (bch2_trigger_alloc_transactional a new_a is_open).data_type = true := by
              simpa [bucket_refill, hnda, data_type_is_empty] using hd.2
            have hno := trigger_not_open a new_a is_open hz hu he
            rw [hflag, Bool.or_eq_false_iff] at hno
            simpa [hno.1] using ho
        refine ⟨k, hinv, by rw [hgen, hg, h.generation], ?_, hdisc, fun hf => hdisc ?_, ?_⟩
        · rw [hflag]
          -- only the case with no bump owed is left to count
          cases hn : a.need_inc_gen <;> simp_all
          omega
        · -- a free bucket with a discard flagged took its bump here, which it did not
          cases hd : (bch2_trigger_alloc_transactional a new_a is_open).need_discard
          · rfl
          · have hbump := trigger_free_bumped a new_a is_open hf hd
            rw [hgen] at hbump
            simp at hbump
        · rw [hflag]
          cases hn : a.need_inc_gen <;>
            cases hr : bucket_refill a (bch2_trigger_alloc_transactional a new_a is_open) <;>
            simp_all
          omega
      · -- the bump is taken: it was owed before this update
        rw [← hng, hnew] at hb
        refine ⟨k + 1, hinv, ?_, by omega, fun _ => by omega, fun _ => by omega, ?_⟩
        · rw [hgen, hg, h.generation, toUInt8_succ, add_assoc]
        · rw [hflag]
          simp at hb ⊢
          omega

end Step

/-- Every run of allowed updates keeps the ghost counts, the refills counted along it: the run lemma
from `reuse_inv_step`. -/
theorem reuse_inv_run {g : UInt8} (us : List (bucket_update × Bool)) :
    ∀ {k r : Nat} {a : bch_alloc_v4}, ReuseInv g k r a → (∀ x ∈ us, UpdateOk x) →
      ∃ k', ReuseInv g k' (r + bucket_refills a us) (bucket_run a us) := by
  -- induction on the updates, the counts and the bucket generalized; `reuse_inv_step` carries the counts
  induction us with
  | nil =>
      intro k r a h _
      exact ⟨k, by simpa [bucket_refills] using h⟩
  | cons x us ih =>
      intro k r a h hus
      obtain ⟨k', h'⟩ := reuse_inv_step h (hus x List.mem_cons_self)
      obtain ⟨k'', h''⟩ := ih h' (fun y hy => hus y (List.mem_cons_of_mem x hy))
      refine ⟨k'', ?_⟩
      rw [bucket_run_cons, bucket_refills, ← Nat.add_assoc]
      exact h''

/-- A free bucket fewer than 127 refills after `g` is at a generation after `g`. -/
theorem ReuseInv.gen_after_pos {g : UInt8} {k r : Nat} {a : bch_alloc_v4}
    (h : ReuseInv g k r a) (hf : a.data_type = BCH_DATA_free) (hr : r < 127) :
    0 < gen_after a.generation g := by
  -- a free bucket took at least one bump and at most `r + 1`, below 128
  have h1 := h.free_bumped hf
  have h2 : k ≤ 127 := by
    have := h.bound
    omega
  rw [h.generation, gen_after_add g h2]
  exact_mod_cast h1

/-- A run from a bucket that holds data reaches free only through `need_discard`. -/
theorem bucket_run_need_discard {a : bch_alloc_v4} {us : List (bucket_update × Bool)}
    (hinv : BucketInv a) (hold : holds_data a.data_type) (hus : ∀ x ∈ us, UpdateOk x)
    (hf : (bucket_run a us).data_type = BCH_DATA_free) :
    ∃ n < us.length, (bucket_run a (us.take n)).data_type = BCH_DATA_need_discard := by
  -- induction on the run: each step keeps the data or goes to `need_discard`
  induction us generalizing a with
  | nil =>
      rw [bucket_run_nil] at hf
      exact absurd hold.1 (by rw [hf]; decide)
  | cons x us ih =>
      rw [bucket_run_cons] at hf
      have hx := hus x List.mem_cons_self
      rcases bucket_step_holds_data hinv hx hold with h' | h'
      · obtain ⟨n, hn, hnd⟩ :=
          ih (bucket_step_inv hinv hx) h' (fun y hy => hus y (List.mem_cons_of_mem x hy)) hf
        exact ⟨n + 1, by simpa using hn, by simpa using hnd⟩
      · refine ⟨1, ?_, by simpa using h'⟩
        -- the run goes on: it would end waiting for the discard, not free
        cases us with
        | nil =>
            rw [bucket_run_nil, h'] at hf
            cases hf
        | cons _ _ => simp

/-! ### Runs on one user bucket -/

/-- A bucket holding one dirty sector of user data at generation `g`, no pointer into it older
than `g`, owing the discard and the bump of its reuse. -/
def user_bucket (g : UInt8) : bch_alloc_v4 := ⟨0, true, true, g, g, BCH_DATA_user, 1, 0, 0, 0, 0⟩

/-- The same bucket emptied with its bump taken: it waits for its discard at generation `g`. -/
def need_discard_bucket (g : UInt8) : bch_alloc_v4 :=
  ⟨0, true, false, g, g, BCH_DATA_need_discard, 0, 0, 0, 0, 0⟩

/-- The bucket discarded: free at generation `g`. -/
def free_bucket (g : UInt8) : bch_alloc_v4 := ⟨0, false, false, g, g, BCH_DATA_free, 0, 0, 0, 0, 0⟩

/-- The pointer to the bucket's sector made at generation `g`, not cached, not erasure coded. -/
def user_ptr (g : UInt8) : extent_ptr_decoded := ⟨g, false, false⟩

/-- The pointer made at generation `g` is overwritten, with the bucket not open. -/
def user_overwrite (g : UInt8) : bucket_update × Bool :=
  (.mark_pointer (user_ptr g) 1 BCH_DATA_user false, false)

/-- A pointer made at generation `g` is inserted. -/
def user_insert (g : UInt8) : bucket_update × Bool :=
  (.mark_pointer (user_ptr g) 1 BCH_DATA_user true, false)

/-- The discard path marks the bucket free; the bucket is not open. -/
def discard_update : bucket_update × Bool := (.discard_mark_free, false)

/-- User data is data a bucket holds. -/
theorem holds_data_user : holds_data BCH_DATA_user := by decide

/-- The user bucket keeps the invariant. -/
theorem user_bucket_inv (g : UInt8) : BucketInv (user_bucket g) where
  empty_zero := fun h => by cases h
  owed := fun _ => ⟨rfl, rfl⟩
  free_gap := fun h => by cases h

/-- The bucket waiting for its discard keeps the invariant. -/
theorem need_discard_bucket_inv (g : UInt8) : BucketInv (need_discard_bucket g) where
  empty_zero := fun _ => ⟨rfl, rfl, rfl, rfl⟩
  owed := fun h => by cases h
  free_gap := fun h => by cases h

/-- Overwriting the last sector empties the bucket, which takes its bump at once: it is not
open. -/
theorem bucket_step_user_overwrite (g : UInt8) :
    bucket_step (user_bucket g) (user_overwrite g).1 (user_overwrite g).2 =
      need_discard_bucket (g + 1) := by
  simp [bucket_step, bucket_update.write, __mark_pointer, bch2_bucket_ref_update, user_bucket,
    user_overwrite, user_ptr, bucket_data_type_mismatch, bch2_trigger_alloc_transactional,
    alloc_data_type_set, alloc_data_type, alloc_trigger_need_discard, alloc_trigger_nonempty,
    alloc_trigger_free_bookkeeping, alloc_trigger_inc_gen, need_discard_bucket, alloc_gc_gen,
    bch2_bucket_sectors_dirty, bch2_bucket_sectors_total, data_type_is_empty, BUCKET_GC_GEN_MAX,
    U32_MAX_NAT]

/-- A pointer at the new generation fills the bucket again, which owes a new bump. -/
theorem bucket_step_user_insert (g : UInt8) :
    bucket_step (need_discard_bucket g) (user_insert g).1 (user_insert g).2 = user_bucket g := by
  simp [bucket_step, bucket_update.write, __mark_pointer, bch2_bucket_ref_update, user_bucket,
    user_insert, user_ptr, bucket_data_type_mismatch, bch2_trigger_alloc_transactional,
    alloc_data_type_set, alloc_data_type, alloc_trigger_need_discard, alloc_trigger_nonempty,
    alloc_trigger_free_bookkeeping, alloc_trigger_inc_gen, need_discard_bucket,
    bch2_bucket_sectors_dirty, data_type_is_empty, bucket_data_type, U32_MAX_NAT]

/-- The discard frees the bucket at the generation it waited at. -/
theorem bucket_step_discard (g : UInt8) :
    bucket_step (need_discard_bucket g) discard_update.1 discard_update.2 = free_bucket g := by
  simp [bucket_step, bucket_update.write, __discard_mark_free, discard_update,
    bch2_trigger_alloc_transactional, alloc_data_type_set, alloc_data_type,
    alloc_trigger_need_discard, alloc_trigger_nonempty, alloc_trigger_free_bookkeeping,
    alloc_trigger_inc_gen, need_discard_bucket, free_bucket, alloc_gc_gen,
    bch2_bucket_sectors_dirty, data_type_is_empty, BUCKET_GC_GEN_MAX]

/-- The last sector is overwritten and the bucket discarded. -/
def discard_run (g : UInt8) : List (bucket_update × Bool) := [user_overwrite g, discard_update]

/-- The overwrite and the discard free the bucket one generation on. -/
theorem bucket_run_discard_run (g : UInt8) :
    bucket_run (user_bucket g) (discard_run g) = free_bucket (g + 1) := by
  simp [discard_run, bucket_step_user_overwrite, bucket_step_discard]

/-- `n` refills: the sector's pointer is overwritten, which empties the bucket and takes its
bump, and a pointer at the new generation is inserted. -/
def refill_cycles (g : UInt8) : Nat → List (bucket_update × Bool)
  | 0 => []
  | n + 1 => user_overwrite g :: user_insert (g + 1) :: refill_cycles (g + 1) n

attribute [grind] refill_cycles

/-- `n` cycles are `2 n` updates. -/
theorem refill_cycles_length (g : UInt8) (n : Nat) : (refill_cycles g n).length = 2 * n := by
  -- induction on the cycles, two updates each
  induction n generalizing g with
  | zero => rfl
  | succ n ih =>
      rw [refill_cycles, List.length_cons, List.length_cons, ih]
      omega

/-- Every update of the cycles is allowed. -/
theorem refill_cycles_ok (g : UInt8) (n : Nat) : ∀ x ∈ refill_cycles g n, UpdateOk x := by
  -- induction on the cycles: overwrites and inserts of user data
  induction n generalizing g with
  | zero => simp [refill_cycles]
  | succ n ih =>
      intro x hx
      rw [refill_cycles, List.mem_cons, List.mem_cons] at hx
      rcases hx with rfl | rfl | hx
      · exact holds_data_user
      · exact holds_data_user
      · exact ih (g + 1) x hx

/-- `n` cycles leave the user bucket `n` generations on. -/
theorem bucket_run_refill_cycles (g : UInt8) (n : Nat) :
    bucket_run (user_bucket g) (refill_cycles g n) = user_bucket (g + n.toUInt8) := by
  -- induction on the cycles: each one takes a bump and refills
  induction n generalizing g with
  | zero => simp [refill_cycles]
  | succ n ih =>
      rw [refill_cycles, bucket_run_cons, bucket_run_cons, bucket_step_user_overwrite,
        bucket_step_user_insert, ih, toUInt8_succ, add_assoc, add_comm 1]

/-- Each cycle refills the bucket once. -/
theorem bucket_refills_refill_cycles (g : UInt8) (n : Nat) :
    bucket_refills (user_bucket g) (refill_cycles g n) = n := by
  -- induction on the cycles: the insert refills, the overwrite does not
  induction n generalizing g with
  | zero => rfl
  | succ n ih =>
      rw [refill_cycles, bucket_refills, bucket_refills, bucket_step_user_overwrite,
        bucket_step_user_insert, ih]
      simp [bucket_refill, user_bucket, need_discard_bucket, data_type_is_empty]
      omega

/-- The cycles never leave the bucket free: it holds data or waits for its discard. -/
theorem refill_cycles_not_free (n : Nat) (g : UInt8) (m : Nat)
    (hm : m ≤ (refill_cycles g n).length) :
    (bucket_run (user_bucket g) ((refill_cycles g n).take m)).data_type ≠ BCH_DATA_free := by
  -- induction on the cycles, the prefix split on whether it ends inside the first cycle
  induction n generalizing g m with
  | zero =>
      rw [refill_cycles, List.take_nil, bucket_run_nil]
      exact fun h => by cases h
  | succ n ih =>
      rw [refill_cycles_length] at hm
      match m, hm with
      | 0, _ => exact fun h => by cases h
      | 1, _ =>
          rw [refill_cycles, List.take_succ_cons, List.take_zero, bucket_run_cons, bucket_run_nil,
            bucket_step_user_overwrite]
          exact fun h => by cases h
      | m + 2, hm =>
          rw [refill_cycles, List.take_succ_cons, List.take_succ_cons, bucket_run_cons,
            bucket_run_cons, bucket_step_user_overwrite, bucket_step_user_insert]
          exact ih (g + 1) m (by rw [refill_cycles_length]; omega)

/-- 127 refills, then the last sector is overwritten and the bucket discarded. -/
def wrap_run (g : UInt8) : List (bucket_update × Bool) := refill_cycles g 127 ++ discard_run (g + 127)

/-- 127 cycles leave the user bucket 127 generations on. -/
theorem bucket_run_refill_cycles_127 (g : UInt8) :
    bucket_run (user_bucket g) (refill_cycles g 127) = user_bucket (g + 127) :=
  bucket_run_refill_cycles g 127

/-- The wrap run frees the bucket 128 generations on. -/
theorem bucket_run_wrap_run (g : UInt8) :
    bucket_run (user_bucket g) (wrap_run g) = free_bucket (g + 128) := by
  rw [wrap_run, bucket_run_append, bucket_run_refill_cycles_127, bucket_run_discard_run, add_assoc]
  rfl

/-- The overwrite and the discard refill nothing. -/
theorem bucket_refills_discard_run (g : UInt8) :
    bucket_refills (user_bucket g) (discard_run g) = 0 := by
  simp only [discard_run, bucket_refills, bucket_step_user_overwrite, bucket_step_discard]
  rfl

/-- The wrap run frees the bucket only at its end. -/
theorem wrap_run_not_free (g : UInt8) (n : Nat) (hn : n < (wrap_run g).length) :
    (bucket_run (user_bucket g) ((wrap_run g).take n)).data_type ≠ BCH_DATA_free := by
  have hlen := refill_cycles_length g 127
  rw [wrap_run, List.length_append, hlen] at hn
  rw [wrap_run, List.take_append, bucket_run_append]
  -- a prefix inside the cycles, or the cycles and the overwrite
  by_cases h : n ≤ 254
  · rw [Nat.sub_eq_zero_of_le (by omega), List.take_zero, bucket_run_nil]
    exact refill_cycles_not_free 127 g n (by omega)
  · -- the last state before the discard waits for it
    have h255 : n = 255 := by
      simp [discard_run] at hn
      omega
    subst h255
    rw [List.take_of_length_le (by omega), bucket_run_refill_cycles_127, hlen]
    simp [discard_run, bucket_step_user_overwrite, need_discard_bucket]

/-- From a bucket that holds data, a run that leaves the bucket free has taken it through
`need_discard`, leaves it free at a generation after the first one as long as it refilled the
bucket fewer than 127 times, and leaves a generation gap below `BUCKET_GC_GEN_MAX`. -/
theorem bucket_reuse_invalidates_old_pointers (a : bch_alloc_v4)
    (us : List (bucket_update × Bool)) (hinv : BucketInv a) (hold : holds_data a.data_type)
    (hus : ∀ x ∈ us, UpdateOk x) (hf : (bucket_run a us).data_type = BCH_DATA_free) :
    (∃ n < us.length, (bucket_run a (us.take n)).data_type = BCH_DATA_need_discard) ∧
      (bucket_refills a us < 127 →
        0 < gen_after (bucket_run a us).generation a.generation) ∧
      (alloc_gc_gen (bucket_run a us)).toNat < BUCKET_GC_GEN_MAX := by
  obtain ⟨k, h⟩ := reuse_inv_run us (reuse_inv_start hinv hold) hus
  rw [Nat.zero_add] at h
  exact ⟨bucket_run_need_discard hinv hold hus hf, h.gen_after_pos hf,
    (bucket_run_inv hinv hus).free_gap hf⟩

/-- The reuse theorem at the user bucket, overwritten and discarded. -/
theorem bucket_reuse_invalidates_old_pointers_user :
    BucketInv (user_bucket 0) ∧ holds_data (user_bucket 0).data_type ∧
      (∀ x ∈ discard_run 0, UpdateOk x) ∧
      (bucket_run (user_bucket 0) (discard_run 0)).data_type = BCH_DATA_free ∧
      ((∃ n < (discard_run 0).length,
          (bucket_run (user_bucket 0) ((discard_run 0).take n)).data_type =
            BCH_DATA_need_discard) ∧
        (bucket_refills (user_bucket 0) (discard_run 0) < 127 →
          0 < gen_after (bucket_run (user_bucket 0) (discard_run 0)).generation
            (user_bucket 0).generation) ∧
        (alloc_gc_gen (bucket_run (user_bucket 0) (discard_run 0))).toNat < BUCKET_GC_GEN_MAX) :=
  have hf : (bucket_run (user_bucket 0) (discard_run 0)).data_type = BCH_DATA_free := by
    rw [bucket_run_discard_run]
    rfl
  ⟨user_bucket_inv 0, by decide, by decide, hf,
    bucket_reuse_invalidates_old_pointers _ _ (user_bucket_inv 0) (by decide) (by decide) hf⟩

/-- A bucket that already took its bump is freed by the discard at the generation it had
while it waited. -/
theorem bucket_run_discard_after_bump (g : UInt8) :
    BucketInv (need_discard_bucket g) ∧ (need_discard_bucket g).data_type ≠ BCH_DATA_sb ∧
      (need_discard_bucket g).data_type ≠ BCH_DATA_journal ∧ UpdateOk discard_update ∧
      (bucket_run (need_discard_bucket g) [discard_update]).data_type = BCH_DATA_free ∧
      gen_after (bucket_run (need_discard_bucket g) [discard_update]).generation
        (need_discard_bucket g).generation = 0 := by
  -- the discard keeps the generation, taken before the bucket waited
  have hd : bucket_run (need_discard_bucket g) [discard_update] = free_bucket g := by
    rw [bucket_run_cons, bucket_run_nil, bucket_step_discard]
  refine ⟨need_discard_bucket_inv g, (fun h => by cases h), (fun h => by cases h), rfl,
    by rw [hd]; rfl, ?_⟩
  rw [hd]
  unfold gen_after gen_cmp
  rw [free_bucket, need_discard_bucket, sub_self]
  decide

/-- After 127 refills, the bucket is first free again at a generation `gen_after` does not see
as after the one it started at. -/
theorem bucket_run_wrap_run_not_after (g : UInt8) :
    BucketInv (user_bucket g) ∧ holds_data (user_bucket g).data_type ∧
      (∀ x ∈ wrap_run g, UpdateOk x) ∧
      (∀ n < (wrap_run g).length,
        (bucket_run (user_bucket g) ((wrap_run g).take n)).data_type ≠ BCH_DATA_free) ∧
      (bucket_run (user_bucket g) (wrap_run g)).data_type = BCH_DATA_free ∧
      bucket_refills (user_bucket g) (wrap_run g) = 127 ∧
      gen_after (bucket_run (user_bucket g) (wrap_run g)).generation
        (user_bucket g).generation = 0 := by
  -- the updates are allowed, the refills are the 127 cycles', and 128 bumps wrap `gen_after`
  refine ⟨user_bucket_inv g, holds_data_user, ?_, wrap_run_not_free g,
    by rw [bucket_run_wrap_run]; rfl, ?_, ?_⟩
  · intro x hx
    rw [wrap_run, List.mem_append] at hx
    rcases hx with hx | hx
    · exact refill_cycles_ok g 127 x hx
    · simp only [discard_run, List.mem_cons, List.not_mem_nil, or_false] at hx
      rcases hx with rfl | rfl
      · exact holds_data_user
      · rfl
  · rw [wrap_run, bucket_refills_append, bucket_refills_refill_cycles,
      bucket_run_refill_cycles_127, bucket_refills_discard_run]
  · rw [bucket_run_wrap_run, free_bucket, user_bucket]
    exact gen_after_add_128 g

/-- Two runs that free the bucket at a generation `gen_after` does not see as after the first:
without holding data first, and after 127 refills. -/
theorem bucket_reuse_generation_not_after :
    (BucketInv (need_discard_bucket 0) ∧ (need_discard_bucket 0).data_type ≠ BCH_DATA_sb ∧
        (need_discard_bucket 0).data_type ≠ BCH_DATA_journal ∧ UpdateOk discard_update ∧
        (bucket_run (need_discard_bucket 0) [discard_update]).data_type = BCH_DATA_free ∧
        gen_after (bucket_run (need_discard_bucket 0) [discard_update]).generation
          (need_discard_bucket 0).generation = 0) ∧
      (BucketInv (user_bucket 0) ∧ holds_data (user_bucket 0).data_type ∧
        (∀ x ∈ wrap_run 0, UpdateOk x) ∧
        (∀ n < (wrap_run 0).length,
          (bucket_run (user_bucket 0) ((wrap_run 0).take n)).data_type ≠ BCH_DATA_free) ∧
        (bucket_run (user_bucket 0) (wrap_run 0)).data_type = BCH_DATA_free ∧
        bucket_refills (user_bucket 0) (wrap_run 0) = 127 ∧
        gen_after (bucket_run (user_bucket 0) (wrap_run 0)).generation
          (user_bucket 0).generation = 0) :=
  ⟨bucket_run_discard_after_bump 0, bucket_run_wrap_run_not_after 0⟩

end Bcachefs.Proofs.Alloc
