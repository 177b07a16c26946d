import Bcachefs.Data.ReadDevice
import Bcachefs.Loop.Ranking

/-!
# Replica selection and the termination of read retries

`bch2_bkey_pick_read_device` returns, with `1`, a pick of one of the key's pointers
(`pick_of_ptr`): a pointer the walk's checks let through (`ptr_readable`: written, live if
cached, on the required device), made a candidate on its device (`candidate_of`): read
directly only from an online device, and as the failure entry of the device allows
(`entry_allows`). The walk keeps that of its pick as it goes (`picks_from`,
`pick_read_device_loop_picks_from`), from one lemma per iteration
(`pick_read_device_step_pick`), itself from one lemma for each part of the iteration: the
checks, the failure entry, the candidate and the comparison. It returns `0` only on an
unwritten pointer, or for a key whose pointers are all cached
(`bch2_bkey_pick_read_device_eq_none`).

A retry loop reads the pick, records its failure with `bch2_mark_io_failure` and picks again
(`read_retry_run`). Each round lowers the retries left on the key's devices
(`key_retries`), a sum over the devices of what their failure entries leave
(`entry_retries`): a failed reconstruction, an I/O error, and each checksum error past the
first `checksum_err_retry_nr`. The sum starts at most `R + 3` for each pointer, which bounds
the rounds (`read_retry_run_length_le`). Two hypotheses carry it: the option is below `127`,
the largest count the 7-bit `csum_nr` holds (its range is `0` to `32`), and the errors are
error codes, from `-MAX_ERRNO` to `-1`, which the `s16` fields keep nonzero.
-/

set_option autoImplicit false

namespace Bcachefs.Proofs.Data

open Bcachefs.Read

section Walk

variable {c : bch_fs} {failed : Option bch_io_failures} {preferred_dev : UInt8} {flags : Nat}

/-- What the failure entry of `p`'s device allows: reading by reconstruction only an
erasure-coded pointer whose stripe has not failed there, and reading directly only from a
device with no I/O error and no more checksum errors than the option allows. -/
structure entry_allows (c : bch_fs) (failed : Option bch_io_failures)
    (p : Read.extent_ptr_decoded) : Prop where
  has_ec_of_do_ec : p.do_ec_reconstruct = true → p.has_ec = true
  ec_ok : p.has_ec = true →
    ∀ f, failed.bind (bch2_dev_io_failures · p.ptr.dev) = some f → f.ec_errcode = 0
  direct_ok : p.do_ec_reconstruct = false →
    ∀ f, failed.bind (bch2_dev_io_failures · p.ptr.dev) = some f →
      f.errcode = 0 ∧ f.csum_nr.toNat ≤ c.checksum_err_retry_nr.toNat

/-- `p'` is a candidate the walk makes of `p` on the device `ca`: the same pointer, read
directly only from an online device, as the failure entry allows. -/
structure candidate_of (c : bch_fs) (failed : Option bch_io_failures) (ca : Option bch_dev)
    (p p' : Read.extent_ptr_decoded) : Prop where
  ptr_eq : p'.ptr = p.ptr
  crc_eq : p'.crc = p.crc
  has_ec_of : p'.has_ec = true → p.has_ec = true
  online_of_direct : p'.do_ec_reconstruct = false → ∃ ca', ca = some ca' ∧ ca'.online = true
  allows : entry_allows c failed p'

/-- The checks of the walk before the failure entry: `q` is written, live if it is cached,
and on the device the caller requires. -/
structure ptr_readable (c : bch_fs) (preferred_dev : UInt8) (flags : Nat)
    (q : Read.extent_ptr_decoded) : Prop where
  written : q.ptr.unwritten = false
  live : q.ptr.cached = true →
    ∃ ca, c.devs q.ptr.dev = some ca ∧ dev_ptr_stale_rcu ca q.ptr = 0
  required : flags &&& BCH_READ_hard_require_read_device ≠ 0 → q.ptr.dev = preferred_dev

/-- `p` is a pick the walk makes of the decoded pointer `q`. -/
structure pick_of_ptr (c : bch_fs) (failed : Option bch_io_failures) (preferred_dev : UInt8)
    (flags : Nat) (q p : Read.extent_ptr_decoded) : Prop where
  readable : ptr_readable c preferred_dev flags q
  candidate : candidate_of c failed (c.devs q.ptr.dev) q p

/-- A device is not offline exactly when it is present and online. -/
theorem dev_offline_eq_false_iff {ca : Option bch_dev} :
    dev_offline ca = false ↔ ∃ ca', ca = some ca' ∧ ca'.online = true := by
  cases ca <;> simp [dev_offline]

/-- The candidate of `p` is `p`, read by reconstruction where it must or may be. -/
theorem pick_read_device_candidate_eq_some {ca : Option bch_dev} {p p' : Read.extent_ptr_decoded}
    (h : pick_read_device_candidate c ca p = some p') :
    ∃ e, p' = { p with do_ec_reconstruct := e } ∧
      (e = p.do_ec_reconstruct ∨ (e = true ∧ p.has_ec = true)) ∧
      (e = false → ∃ ca', ca = some ca' ∧ ca'.online = true) := by
  unfold pick_read_device_candidate at h
  cases hoff : dev_offline ca
  · -- on an online device: reconstructed only when forced
    cases hf : (c.force_reconstruct_read && p.has_ec)
    · refine ⟨p.do_ec_reconstruct, ?_, Or.inl rfl, fun _ => dev_offline_eq_false_iff.1 hoff⟩
      simp_all
    · refine ⟨true, ?_, Or.inr ⟨rfl, by simp_all⟩, by simp⟩
      simp_all
  · -- on a missing or offline device: reconstructed, which needs an erasure-coded pointer
    have hec : p.has_ec = true := by
      cases hp : p.has_ec <;> simp_all
    refine ⟨true, ?_, Or.inr ⟨rfl, hec⟩, by simp⟩
    simp_all

/-- A candidate made of a pointer the failure entry allows is a candidate of it. -/
theorem candidate_of_candidate {ca : Option bch_dev} {p p' : Read.extent_ptr_decoded}
    (hp : entry_allows c failed p) (h : pick_read_device_candidate c ca p = some p') :
    candidate_of c failed ca p p' := by
  obtain ⟨e, rfl, he, hon⟩ := pick_read_device_candidate_eq_some h
  -- the candidate keeps `p`'s pointer and entry; only `do_ec_reconstruct` may change
  refine ⟨rfl, rfl, id, hon, ⟨?_, hp.ec_ok, ?_⟩⟩
  · intro hr
    rcases he with rfl | ⟨_, hec⟩
    · exact hp.has_ec_of_do_ec hr
    · exact hec
  · intro hr
    rcases he with rfl | ⟨rfl, _⟩
    · exact hp.direct_ok hr
    · cases hr

/-- An offered candidate becomes the pick, or the pick stays. -/
theorem pick_state_offer_pick (rnd : UInt64 → UInt64) (ca : Option bch_dev) (s : pick_state)
    (p : Read.extent_ptr_decoded) :
    (s.offer c preferred_dev flags rnd ca p).pick = s.pick ∨
      ∃ lat, (s.offer c preferred_dev flags rnd ca p).pick = some (p, lat) := by
  unfold pick_state.offer
  dsimp only
  -- the first candidate, a better one, or none taken
  split
  · exact Or.inr ⟨_, rfl⟩
  · split
    · exact Or.inr ⟨_, rfl⟩
    · exact Or.inl rfl

/-- The pick after the device check is the old one or a candidate of `p`. -/
theorem pick_read_device_consider_pick (rnd : UInt64 → UInt64) (ca : Option bch_dev)
    {p : Read.extent_ptr_decoded} (hp : entry_allows c failed p) (s : pick_state) :
    (pick_read_device_consider c preferred_dev flags rnd ca p s).pick = s.pick ∨
      ∃ p' lat, (pick_read_device_consider c preferred_dev flags rnd ca p s).pick =
        some (p', lat) ∧ candidate_of c failed ca p p' := by
  unfold pick_read_device_consider
  dsimp only
  -- a device the check rejects leaves the pick
  split
  · exact Or.inl rfl
  · rename_i p' hp'
    rcases pick_state_offer_pick rnd ca _ p' with h | ⟨lat, h⟩
    · exact Or.inl h
    · exact Or.inr ⟨p', lat, h, candidate_of_candidate hp hp'⟩

/-- A candidate of a copy of `p` with the same pointer and checksum entry, and no more
erasure coding, is one of `p`. -/
theorem candidate_of.of_base {ca : Option bch_dev} {p p₁ p' : Read.extent_ptr_decoded}
    (h : candidate_of c failed ca p₁ p') (hptr : p₁.ptr = p.ptr) (hcrc : p₁.crc = p.crc)
    (hec : p₁.has_ec = true → p.has_ec = true) : candidate_of c failed ca p p' :=
  ⟨h.ptr_eq.trans hptr, h.crc_eq.trans hcrc, fun h' => hec (h.has_ec_of h'), h.online_of_direct,
    h.allows⟩

/-- Where `has_ec` survives its clearing on a failed stripe, the stripe has not failed. -/
theorem ec_ok_of_cleared {b : Bool} {f : bch_dev_io_failures} {p : Read.extent_ptr_decoded}
    (hf : failed.bind (bch2_dev_io_failures · p.ptr.dev) = some f)
    (hb : p.has_ec = (b && f.ec_errcode == 0)) :
    p.has_ec = true →
      ∀ f', failed.bind (bch2_dev_io_failures · p.ptr.dev) = some f' → f'.ec_errcode = 0 := by
  intro hec f' hf'
  obtain rfl : f' = f := Option.some_inj.1 (hf'.symm.trans hf)
  rw [hb, Bool.and_eq_true, beq_iff_eq] at hec
  exact hec.2

/-- The pick after the failure entry is the old one or a candidate of `p`: the entry is
what makes the candidate one it allows. -/
theorem pick_read_device_failed_pick (rnd : UInt64 → UInt64) (ca : Option bch_dev)
    {p : Read.extent_ptr_decoded} (hp : p.do_ec_reconstruct = false) (s : pick_state) :
    (pick_read_device_failed c failed preferred_dev flags rnd ca p s).pick = s.pick ∨
      ∃ p' lat, (pick_read_device_failed c failed preferred_dev flags rnd ca p s).pick =
        some (p', lat) ∧ candidate_of c failed ca p p' := by
  unfold pick_read_device_failed
  split
  · -- no failure on the device
    rename_i hf
    have hallow : entry_allows c failed p :=
      ⟨by simp [hp], fun _ f h => by simp [hf] at h, fun _ f h => by simp [hf] at h⟩
    exact pick_read_device_consider_pick rnd ca hallow s
  · rename_i f hf
    dsimp only
    split_ifs with hec hskip
    · -- the device failed but its stripe did not: read by reconstruction
      rcases pick_read_device_consider_pick (p := { p with
          crc_retry_nr := f.csum_nr.toNat.toUInt8
          has_ec := p.has_ec && f.ec_errcode == 0
          do_ec_reconstruct := true }) rnd ca
          ⟨fun _ => by simp_all, ec_ok_of_cleared hf rfl, by simp⟩ _ with h | ⟨p', lat, h, hc⟩
      · exact Or.inl h
      · exact Or.inr ⟨p', lat, h, hc.of_base rfl rfl (by simp_all)⟩
    · exact Or.inl rfl
    · -- read directly: the device has no I/O error and few enough checksum errors
      have hdirect : f.errcode = 0 ∧ f.csum_nr.toNat ≤ c.checksum_err_retry_nr.toNat := by
        simp only [Bool.or_eq_true, bne_iff_ne, ne_eq, decide_eq_true_eq, not_or, not_not,
          not_lt] at hskip
        exact hskip
      have hallow : entry_allows c failed { p with
          crc_retry_nr := f.csum_nr.toNat.toUInt8
          has_ec := p.has_ec && f.ec_errcode == 0 } := by
        refine ⟨by simp [hp], ec_ok_of_cleared hf rfl, fun _ f' hf' => ?_⟩
        obtain rfl : f' = f := Option.some_inj.1 (hf'.symm.trans hf)
        exact hdirect
      rcases pick_read_device_consider_pick rnd ca hallow _ with h | ⟨p', lat, h, hc⟩
      · exact Or.inl h
      · exact Or.inr ⟨p', lat, h, hc.of_base rfl rfl (by simp_all)⟩

/-- A pointer past the checks of the iteration is readable. -/
theorem ptr_readable_of_checks {q : Read.extent_ptr_decoded} (hun : ¬q.ptr.unwritten = true)
    (hreq : ¬((flags &&& BCH_READ_hard_require_read_device != 0) = true ∧
      q.ptr.dev ≠ preferred_dev))
    (hstale : ¬(q.ptr.cached && dev_ptr_stale (c.devs q.ptr.dev) q.ptr) = true) :
    ptr_readable c preferred_dev flags q := by
  refine ⟨by simpa using hun, fun hc => ?_, fun hf => ?_⟩
  · rw [hc, Bool.true_and] at hstale
    cases hca : c.devs q.ptr.dev with
    | none => simp [hca, dev_ptr_stale] at hstale
    | some ca => exact ⟨ca, rfl, by simpa [hca, dev_ptr_stale] using hstale⟩
  · by_contra hne
    exact hreq ⟨by simpa using hf, hne⟩

/-- An iteration that goes on either skips the pointer, with the state as it was but for
`have_dirty_ptrs`, or takes it, readable, to its failure entry. -/
theorem pick_read_device_step_eq_next {rnd : UInt64 → UInt64} {s s' : pick_state}
    {q : Read.extent_ptr_decoded}
    (h : pick_read_device_step c failed preferred_dev flags rnd s q = .next s') :
    let s₀ := { s with have_dirty_ptrs := s.have_dirty_ptrs || !q.ptr.cached }
    s' = s₀ ∨ ptr_readable c preferred_dev flags q ∧
      s' = pick_read_device_failed c failed preferred_dev flags rnd (c.devs q.ptr.dev)
        { q with do_ec_reconstruct := false, crc_retry_nr := 0 } s₀ := by
  unfold pick_read_device_step at h
  dsimp only at h
  split_ifs at h <;> cases h
  · -- off the required device
    exact Or.inl rfl
  · -- on a missing device, stale or taken
    exact Or.inl rfl
  · exact Or.inr ⟨ptr_readable_of_checks ‹_› ‹_› ‹_›, rfl⟩
  · -- on a present device, stale or taken
    exact Or.inl rfl
  · exact Or.inr ⟨ptr_readable_of_checks ‹_› ‹_› ‹_›, rfl⟩

/-- The step lemma of the walk: an iteration keeps the pick or takes one of `q`. -/
theorem pick_read_device_step_pick {rnd : UInt64 → UInt64} {s s' : pick_state}
    {q : Read.extent_ptr_decoded}
    (h : pick_read_device_step c failed preferred_dev flags rnd s q = .next s') :
    s'.pick = s.pick ∨
      ∃ p lat, s'.pick = some (p, lat) ∧ pick_of_ptr c failed preferred_dev flags q p := by
  rcases pick_read_device_step_eq_next h with rfl | ⟨hread, rfl⟩
  · exact Or.inl rfl
  · rcases pick_read_device_failed_pick rnd (c.devs q.ptr.dev) (p := { q with
        do_ec_reconstruct := false, crc_retry_nr := 0 }) rfl _ with h | ⟨p, lat, h, hc⟩
    · exact Or.inl h
    · exact Or.inr ⟨p, lat, h, hread, hc.of_base rfl rfl id⟩

/-- An iteration returns only on an unwritten pointer, with `0`, or with the error of
`bch2_dev_missing_bkey`. -/
theorem pick_read_device_step_eq_ret {rnd : UInt64 → UInt64} {s : pick_state}
    {q : Read.extent_ptr_decoded} {r : Except Int (Option Read.extent_ptr_decoded)}
    (h : pick_read_device_step c failed preferred_dev flags rnd s q = .ret r) :
    (q.ptr.unwritten = true ∧ r = .ok none) ∨ ∃ e, e ≠ 0 ∧ r = .error e := by
  unfold pick_read_device_step at h
  dsimp only at h
  -- the iterations that return: unwritten, or a missing device reported
  split_ifs at h <;> cases h
  · exact Or.inl ⟨‹_›, rfl⟩
  · exact Or.inr ⟨_, ‹_›, rfl⟩
  · -- a present device: nothing was missing
    exact (‹(0 : Int) ≠ 0› rfl).elim

/-- The device check and the failure entry leave `have_dirty_ptrs` alone. -/
theorem pick_read_device_failed_have_dirty_ptrs (rnd : UInt64 → UInt64) (ca : Option bch_dev)
    (p : Read.extent_ptr_decoded) (s : pick_state) :
    (pick_read_device_failed c failed preferred_dev flags rnd ca p s).have_dirty_ptrs =
      s.have_dirty_ptrs := by
  have hconsider : ∀ p (s : pick_state),
      (pick_read_device_consider c preferred_dev flags rnd ca p s).have_dirty_ptrs =
        s.have_dirty_ptrs := by
    intro p s
    unfold pick_read_device_consider
    dsimp only
    split
    · rfl
    · unfold pick_state.offer
      dsimp only
      split
      · rfl
      · split <;> rfl
  -- every branch ends in the device check, or skips the pointer
  unfold pick_read_device_failed
  split
  · exact hconsider p s
  · dsimp only
    split_ifs
    · exact hconsider _ _
    · rfl
    · exact hconsider _ _

/-- The walk's invariant: its pick, if it has one, is a pick of one of the pointers `K`. -/
def picks_from (c : bch_fs) (failed : Option bch_io_failures) (preferred_dev : UInt8)
    (flags : Nat) (K : List Read.extent_ptr_decoded) (s : pick_state) : Prop :=
  ∀ p lat, s.pick = some (p, lat) → ∃ q ∈ K, pick_of_ptr c failed preferred_dev flags q p

/-- The walk starts with no pick. -/
theorem picks_from_init (K : List Read.extent_ptr_decoded) :
    picks_from c failed preferred_dev flags K pick_state.init := by
  intro p lat h
  cases h

/-- A walk over pointers of `K` keeps its pick one of theirs. -/
theorem pick_read_device_loop_picks_from {rand : Nat → UInt64 → UInt64}
    {K : List Read.extent_ptr_decoded} :
    ∀ (ptrs : List Read.extent_ptr_decoded) (i : Nat) (s s' : pick_state), (∀ q ∈ ptrs, q ∈ K) →
      picks_from c failed preferred_dev flags K s →
      pick_read_device_loop c failed preferred_dev flags rand ptrs i s = .next s' →
      picks_from c failed preferred_dev flags K s'
  | [], _, s, s', _, hs, h => by
    cases h
    exact hs
  | q :: ptrs, i, s, s', hK, hs, h => by
    unfold pick_read_device_loop at h
    split at h
    · cases h
    · rename_i s₁ hstep
      refine pick_read_device_loop_picks_from ptrs (i + 1) s₁ s'
        (fun q' hq' => hK q' (List.mem_cons_of_mem q hq')) ?_ h
      -- the step keeps the pick or takes one of `q`
      intro p lat hp
      rcases pick_read_device_step_pick hstep with hpick | ⟨p', lat', hpick, hq⟩
      · exact hs p lat (hpick ▸ hp)
      · obtain ⟨rfl, -⟩ := Prod.mk.inj (Option.some_inj.1 (hp.symm.trans hpick))
        exact ⟨q, hK q List.mem_cons_self, hq⟩

/-- An iteration that goes on records whether its pointer is dirty. -/
theorem pick_read_device_step_have_dirty_ptrs {rnd : UInt64 → UInt64} {s s' : pick_state}
    {q : Read.extent_ptr_decoded}
    (h : pick_read_device_step c failed preferred_dev flags rnd s q = .next s') :
    s'.have_dirty_ptrs = (s.have_dirty_ptrs || !q.ptr.cached) := by
  rcases pick_read_device_step_eq_next h with rfl | ⟨_, rfl⟩
  · rfl
  · exact pick_read_device_failed_have_dirty_ptrs _ _ _ _

/-- A walk that goes to its end has seen a dirty pointer if any of its pointers is one. -/
theorem pick_read_device_loop_have_dirty_ptrs {rand : Nat → UInt64 → UInt64} :
    ∀ (ptrs : List Read.extent_ptr_decoded) (i : Nat) (s s' : pick_state),
      pick_read_device_loop c failed preferred_dev flags rand ptrs i s = .next s' →
      s'.have_dirty_ptrs = (s.have_dirty_ptrs || ptrs.any fun q => !q.ptr.cached)
  | [], _, s, s', h => by
    cases h
    simp
  | q :: ptrs, i, s, s', h => by
    unfold pick_read_device_loop at h
    split at h
    · cases h
    · rename_i s₁ hstep
      rw [pick_read_device_loop_have_dirty_ptrs ptrs (i + 1) s₁ s' h,
        pick_read_device_step_have_dirty_ptrs hstep, List.any_cons, Bool.or_assoc]

/-- A walk returns early only on an unwritten pointer, with `0`, or with an error. -/
theorem pick_read_device_loop_eq_ret {rand : Nat → UInt64 → UInt64} :
    ∀ (ptrs : List Read.extent_ptr_decoded) (i : Nat) (s : pick_state)
      (r : Except Int (Option Read.extent_ptr_decoded)),
      pick_read_device_loop c failed preferred_dev flags rand ptrs i s = .ret r →
      (r = .ok none ∧ ∃ q ∈ ptrs, q.ptr.unwritten = true) ∨ ∃ e, e ≠ 0 ∧ r = .error e
  | [], _, _, _, h => by cases h
  | q :: ptrs, i, s, r, h => by
    unfold pick_read_device_loop at h
    split at h
    · -- this pointer's iteration returned
      cases h
      rcases pick_read_device_step_eq_ret ‹_› with ⟨hun, rfl⟩ | he
      · exact Or.inl ⟨rfl, q, List.mem_cons_self, hun⟩
      · exact Or.inr he
    · rcases pick_read_device_loop_eq_ret ptrs (i + 1) _ r h with ⟨rfl, q', hq', hun⟩ | he
      · exact Or.inl ⟨rfl, q', List.mem_cons_of_mem q hq', hun⟩
      · exact Or.inr he

end Walk

section Pick

variable (c : bch_fs) (failed : Option bch_io_failures) (preferred_dev : UInt8) (flags : Nat)

/-- A pick that `bch2_bkey_pick_read_device` returns is a pick of one of the key's
pointers. -/
theorem bch2_bkey_pick_read_device_eq_some {k : bkey_s_c} {rand : Nat → UInt64 → UInt64}
    {p : Read.extent_ptr_decoded}
    (h : bch2_bkey_pick_read_device c failed preferred_dev flags k rand = .ok (some p)) :
    ∃ q ∈ k.ptrs, pick_of_ptr c failed preferred_dev flags q p := by
  unfold bch2_bkey_pick_read_device at h
  split_ifs at h
  -- the walk returned early, or went to the end
  split at h
  · rcases pick_read_device_loop_eq_ret _ _ _ _ ‹_› with ⟨rfl, -⟩ | ⟨e, -, rfl⟩ <;> cases h
  · rename_i s hloop
    have hs := pick_read_device_loop_picks_from k.ptrs 0 _ s (fun _ => id)
      (picks_from_init k.ptrs) hloop
    split at h
    · cases h
      exact hs _ _ ‹_›
    · -- no pick: `0` or an error
      split_ifs at h
      cases h

/-- `bch2_bkey_pick_read_device` returns `0` only for a key with an unwritten pointer or with
no dirty pointer. -/
theorem bch2_bkey_pick_read_device_eq_none {k : bkey_s_c} {rand : Nat → UInt64 → UInt64}
    (h : bch2_bkey_pick_read_device c failed preferred_dev flags k rand = .ok none) :
    (∃ q ∈ k.ptrs, q.ptr.unwritten = true) ∨ ∀ q ∈ k.ptrs, q.ptr.cached = true := by
  unfold bch2_bkey_pick_read_device at h
  split_ifs at h
  split at h
  · rcases pick_read_device_loop_eq_ret _ _ _ _ ‹_› with ⟨-, hun⟩ | ⟨e, -, rfl⟩
    · exact Or.inl hun
    · cases h
  · rename_i s hloop
    have hdirty := pick_read_device_loop_have_dirty_ptrs k.ptrs 0 _ s hloop
    split at h
    · cases h
    · split_ifs at h with hnone
      · -- no dirty pointer was seen
        right
        intro q hq
        simp only [Bool.and_eq_true, Bool.not_eq_true'] at hnone
        simp [hnone.1, pick_state.init] at hdirty
        simpa using hdirty q hq
/-- A pick on a device whose entry records an I/O error or too many checksum errors is read
by reconstruction, from a stripe that has not failed there. -/
theorem pick_of_ptr.reconstruct_of_failed {q p : Read.extent_ptr_decoded}
    (h : pick_of_ptr c failed preferred_dev flags q p) (f : bch_dev_io_failures)
    (hf : failed.bind (bch2_dev_io_failures · p.ptr.dev) = some f)
    (hbad : f.errcode ≠ 0 ∨ c.checksum_err_retry_nr.toNat < f.csum_nr.toNat) :
    p.do_ec_reconstruct = true ∧ p.has_ec = true ∧ f.ec_errcode = 0 := by
  have hallow := h.candidate.allows
  cases hdo : p.do_ec_reconstruct
  · -- read directly: the entry would have had to be clean
    obtain ⟨he, hc⟩ := hallow.direct_ok hdo f hf
    rcases hbad with hbad | hbad
    · exact absurd he hbad
    · omega
  · have hec := hallow.has_ec_of_do_ec hdo
    exact ⟨rfl, hec, hallow.ec_ok hec f hf⟩

end Pick

section Retry

/-- What a device's failure entry leaves of the retries on it: one while no reconstruction
has failed there, one while no I/O error is recorded, and one for each checksum error the
option still allows. -/
def entry_retries (R : Nat) (f : bch_dev_io_failures) : Nat :=
  (if f.ec_errcode = 0 then 1 else 0) + (if f.errcode = 0 then 1 else 0) +
    (R + 1 - f.csum_nr.toNat)

/-- The retries left on the device `d`: those of its entry, or of a zeroed one. -/
def dev_retries (R : Nat) (F : bch_io_failures) (d : UInt8) : Nat :=
  entry_retries R ((bch2_dev_io_failures F d).getD (bch_dev_io_failures.zeroed d))

attribute [grind] entry_retries

/-- An entry leaves at most `R + 3` retries. -/
theorem entry_retries_le (R : Nat) (f : bch_dev_io_failures) : entry_retries R f ≤ R + 3 := by
  unfold entry_retries
  split_ifs <;> omega

/-- A negative error code within `MAX_ERRNO` is not `0` as an `s16`. -/
theorem toInt16_ne_zero {err : Int} (herr : -MAX_ERRNO ≤ err ∧ err < 0) : err.toInt16 ≠ 0 := by
  intro h
  have hval : (Int16.ofInt err).toInt = err :=
    Int16.toInt_ofInt_of_le (by simp [MAX_ERRNO] at herr; omega) (by omega)
  have hzero : (Int16.ofInt err).toInt = 0 := by
    rw [show Int16.ofInt err = err.toInt16 from rfl, h]
    rfl
  omega

/-- Recording a failure lowers the retries the entry leaves, when the pick was allowed by
it. -/
theorem entry_retries_mark {R : Nat} {p : Read.extent_ptr_decoded} {err : Int}
    {f : bch_dev_io_failures} (hR : R < 127) (herr : -MAX_ERRNO ≤ err ∧ err < 0)
    (hrec : p.do_ec_reconstruct = true → f.ec_errcode = 0)
    (hdir : p.do_ec_reconstruct = false → f.errcode = 0 ∧ f.csum_nr.toNat ≤ R) :
    entry_retries R (mark_io_failure_entry p err f) < entry_retries R f := by
  have hne := toInt16_ne_zero herr
  unfold mark_io_failure_entry
  cases hdo : p.do_ec_reconstruct
  · obtain ⟨he, hc⟩ := hdir hdo
    rw [if_neg Bool.false_ne_true]
    split_ifs with hcsum
    · -- a checksum error: one fewer allowed
      have hinc : (f.csum_nr + 1).toNat = f.csum_nr.toNat + 1 := by
        rw [BitVec.toNat_add]
        simp
        omega
      simp only [entry_retries, hinc]
      omega
    · simp [entry_retries, he, hne]
  · rw [if_pos rfl]
    simp [entry_retries, hrec hdo, hne]

/-- Recording a failure keeps the entry's device. -/
theorem mark_io_failure_entry_dev (p : Read.extent_ptr_decoded) (err : Int)
    (f : bch_dev_io_failures) : (mark_io_failure_entry p err f).dev = f.dev := by
  unfold mark_io_failure_entry
  split_ifs <;> rfl

/-- After `bch2_mark_io_failure`, the pointer's device has the entry it recorded, and every
other device the entry it had. -/
theorem bch2_dev_io_failures_mark {F F' : bch_io_failures} {p : Read.extent_ptr_decoded}
    {err : Int} (h : bch2_mark_io_failure F p err = some F') (d : UInt8) :
    bch2_dev_io_failures F' d =
      if d = p.ptr.dev then
        some (mark_io_failure_entry p err
          ((bch2_dev_io_failures F p.ptr.dev).getD (bch_dev_io_failures.zeroed p.ptr.dev)))
      else bch2_dev_io_failures F d := by
  -- the device's entry is found and updated, or a new one appended while there is room
  unfold bch2_mark_io_failure at h
  split at h
  · cases h
  split at h
  · -- the device had an entry: updated in place
    rename_i i hi
    cases h
    obtain ⟨f, hf⟩ : ∃ f, bch2_dev_io_failures F p.ptr.dev = some f := by
      apply Option.isSome_iff_exists.1
      rw [bch2_dev_io_failures, List.find?_isSome, ← List.any_eq_true, ← List.findIdx?_isSome, hi]
      rfl
    unfold bch2_dev_io_failures at hf ⊢
    rw [Loop.find?_modify_findIdx? bch_dev_io_failures.dev _ (mark_io_failure_entry_dev p err) _
      _ _ hi d, hf]
    rfl
  · -- a new entry, appended
    rename_i hi
    split at h
    · cases h
    cases h
    have hnone : bch2_dev_io_failures F p.ptr.dev = none := by
      rw [bch2_dev_io_failures, List.find?_eq_none]
      simpa [List.findIdx?_eq_none_iff] using hi
    unfold bch2_dev_io_failures at hnone ⊢
    rw [Loop.find?_append_of_find?_eq_none bch_dev_io_failures.dev _ _ (by
      rw [mark_io_failure_entry_dev]; exact hnone) d, mark_io_failure_entry_dev, hnone]
    rfl

/-- Recording the failure of a read that the entry allowed lowers the retries left on its
device, and leaves every other device's. -/
theorem dev_retries_mark {c : bch_fs} {F F' : bch_io_failures} {p : Read.extent_ptr_decoded}
    {err : Int} (hR : c.checksum_err_retry_nr.toNat < 127) (herr : -MAX_ERRNO ≤ err ∧ err < 0)
    (hallow : entry_allows c (some F) p) (h : bch2_mark_io_failure F p err = some F') :
    dev_retries c.checksum_err_retry_nr.toNat F' p.ptr.dev <
        dev_retries c.checksum_err_retry_nr.toNat F p.ptr.dev ∧
      ∀ d, d ≠ p.ptr.dev →
        dev_retries c.checksum_err_retry_nr.toNat F' d =
          dev_retries c.checksum_err_retry_nr.toNat F d := by
  -- the device's own entry, then every other device's
  constructor
  · unfold dev_retries
    rw [bch2_dev_io_failures_mark h, if_pos rfl, Option.getD_some]
    apply entry_retries_mark hR herr
    · intro hdo
      cases hf : bch2_dev_io_failures F p.ptr.dev with
      | none => rfl
      | some f => exact hallow.ec_ok (hallow.has_ec_of_do_ec hdo) f hf
    · intro hdo
      cases hf : bch2_dev_io_failures F p.ptr.dev with
      | none => exact ⟨rfl, by simp [bch_dev_io_failures.zeroed]⟩
      | some f => exact hallow.direct_ok hdo f hf
  · intro d hd
    unfold dev_retries
    rw [bch2_dev_io_failures_mark h, if_neg hd]

/-- A run of `n` retries of a read of `k`: the `i`-th read is of the pick made against the
failure list `F i`, and its failure with `err i` is recorded to give `F (i + 1)`. -/
def read_retry_run (c : bch_fs) (k : bkey_s_c) (preferred_dev : UInt8) (flags : Nat)
    (rand : Nat → Nat → UInt64 → UInt64) (F : Nat → bch_io_failures)
    (pick : Nat → Read.extent_ptr_decoded) (err : Nat → Int) (n : Nat) : Prop :=
  ∀ i < n, bch2_bkey_pick_read_device c (some (F i)) preferred_dev flags k (rand i) =
      .ok (some (pick i)) ∧
    bch2_mark_io_failure (F i) (pick i) (err i) = some (F (i + 1))

/-- The retries left on the devices of the key's pointers. -/
def key_retries (R : Nat) (k : bkey_s_c) (F : bch_io_failures) : Nat :=
  ∑ d ∈ (k.ptrs.map fun q => q.ptr.dev).toFinset, dev_retries R F d

/-- Each pointer's device leaves at most `R + 3` retries. -/
theorem key_retries_le (R : Nat) (k : bkey_s_c) (F : bch_io_failures) :
    key_retries R k F ≤ k.ptrs.length * (R + 3) := by
  -- each distinct device leaves at most `R + 3`, and there are at most as many as pointers
  calc key_retries R k F
      ≤ (k.ptrs.map fun q => q.ptr.dev).toFinset.card * (R + 3) := by
        have := Finset.sum_le_card_nsmul (k.ptrs.map fun q => q.ptr.dev).toFinset
          (dev_retries R F) (R + 3) fun d _ => entry_retries_le R _
        simpa [key_retries] using this
    _ ≤ k.ptrs.length * (R + 3) := by
        apply Nat.mul_le_mul_right
        simpa using List.toFinset_card_le (k.ptrs.map fun q => q.ptr.dev)

/-- Each retry lowers the retries left on the key's devices. -/
theorem key_retries_step {c : bch_fs} {k : bkey_s_c} {preferred_dev : UInt8} {flags : Nat}
    {rand : Nat → UInt64 → UInt64} {F F' : bch_io_failures} {p : Read.extent_ptr_decoded}
    {err : Int} (hR : c.checksum_err_retry_nr.toNat < 127) (herr : -MAX_ERRNO ≤ err ∧ err < 0)
    (hpick : bch2_bkey_pick_read_device c (some F) preferred_dev flags k rand = .ok (some p))
    (hmark : bch2_mark_io_failure F p err = some F') :
    key_retries c.checksum_err_retry_nr.toNat k F' < key_retries c.checksum_err_retry_nr.toNat k F := by
  obtain ⟨q, hq, hpq⟩ := bch2_bkey_pick_read_device_eq_some c _ _ _ hpick
  -- the pick's device loses a retry, every other keeps its own
  obtain ⟨hlt, heq⟩ := dev_retries_mark hR herr hpq.candidate.allows hmark
  have hmem : p.ptr.dev ∈ (k.ptrs.map fun q => q.ptr.dev).toFinset := by
    rw [List.mem_toFinset, hpq.candidate.ptr_eq]
    exact List.mem_map_of_mem hq
  exact Loop.sum_lt_of_lower_one _ _ _ hmem hlt heq

/-- A retry loop picks at most as many times as the key's devices allow retries. -/
theorem read_retry_run_length_le {c : bch_fs} {k : bkey_s_c} {preferred_dev : UInt8}
    {flags : Nat} {rand : Nat → Nat → UInt64 → UInt64} {F : Nat → bch_io_failures}
    {pick : Nat → Read.extent_ptr_decoded} {err : Nat → Int} {n : Nat}
    (hR : c.checksum_err_retry_nr.toNat < 127) (herr : ∀ i < n, -MAX_ERRNO ≤ err i ∧ err i < 0)
    (hrun : read_retry_run c k preferred_dev flags rand F pick err n) :
    n ≤ k.ptrs.length * (c.checksum_err_retry_nr.toNat + 3) := by
  calc n ≤ key_retries c.checksum_err_retry_nr.toNat k (F 0) :=
        Loop.run_length_le_of_ranking (key_retries c.checksum_err_retry_nr.toNat k) F n
          fun i hi => key_retries_step hR (herr i hi) (hrun i hi).1 (hrun i hi).2
    _ ≤ k.ptrs.length * (c.checksum_err_retry_nr.toNat + 3) := key_retries_le _ _ _

end Retry

/-! ### Replica selection -/

/-- `bch2_bkey_pick_read_device` picks one of the key's pointers as the checks of its loop allow,
returns `0` only for an unwritten or an all-cached key, and a run of retries against the failures it
records ends within the retries the key's devices allow. -/
theorem bch2_bkey_pick_read_device_sound (c : bch_fs) (preferred_dev : UInt8) (flags : Nat)
    (k : bkey_s_c) :
    (∀ failed rand p,
      bch2_bkey_pick_read_device c failed preferred_dev flags k rand = .ok (some p) →
      ∃ q ∈ k.ptrs, p.ptr = q.ptr ∧ p.crc = q.crc ∧ (p.has_ec = true → q.has_ec = true) ∧
        (p.ptr.cached = true →
          ∃ ca, c.devs p.ptr.dev = some ca ∧ dev_ptr_stale_rcu ca p.ptr = 0) ∧
        (flags &&& BCH_READ_hard_require_read_device ≠ 0 → p.ptr.dev = preferred_dev) ∧
        (∀ f, failed.bind (bch2_dev_io_failures · p.ptr.dev) = some f →
          (f.errcode ≠ 0 ∨ c.checksum_err_retry_nr.toNat < f.csum_nr.toNat) →
          p.do_ec_reconstruct = true ∧ p.has_ec = true ∧ f.ec_errcode = 0) ∧
        (p.do_ec_reconstruct = false →
          ∃ ca, c.devs p.ptr.dev = some ca ∧ ca.online = true)) ∧
    (∀ failed rand,
      bch2_bkey_pick_read_device c failed preferred_dev flags k rand = .ok none →
      (∃ q ∈ k.ptrs, q.ptr.unwritten = true) ∨ ∀ q ∈ k.ptrs, q.ptr.cached = true) ∧
    (c.checksum_err_retry_nr.toNat < 127 → ∀ rand F pick err n,
      (∀ i < n, -MAX_ERRNO ≤ err i ∧ err i < 0) →
      read_retry_run c k preferred_dev flags rand F pick err n →
      n ≤ k.ptrs.length * (c.checksum_err_retry_nr.toNat + 3)) := by
  refine ⟨fun failed rand p h => ?_,
    fun failed rand h => bch2_bkey_pick_read_device_eq_none c failed preferred_dev flags h,
    fun hR rand F pick err n herr hrun => read_retry_run_length_le hR herr hrun⟩
  -- the pick comes from a pointer `q`, which the checks let through
  obtain ⟨q, hq, hpq⟩ := bch2_bkey_pick_read_device_eq_some c failed preferred_dev flags h
  have hptr : p.ptr = q.ptr := hpq.candidate.ptr_eq
  refine ⟨q, hq, hptr, hpq.candidate.crc_eq, hpq.candidate.has_ec_of, ?_, ?_,
    hpq.reconstruct_of_failed, ?_⟩
  · rw [hptr]
    exact hpq.readable.live
  · rw [hptr]
    exact hpq.readable.required
  · rw [hptr]
    exact hpq.candidate.online_of_direct

/-- A device of a filesystem of two: online, with every bucket at generation `0`. -/
def online_dev : bch_dev :=
  { online := true, cur_latency := 100, bucket_size := 128, bucket_gens := fun _ => some 0 }

/-- Two online devices, `0` and `1`, and the default `checksum_err_retry_nr`. -/
def two_dev_fs : bch_fs :=
  { devs := fun d => if d = 0 ∨ d = 1 then some online_dev else none
    checksum_err_retry_nr := 3
    devs_rotational := fun _ => false
    force_reconstruct_read := false
    force_read_device := -1
    dev_missing_bkey := fun _ => 0 }

/-- An uncompressed, unchecksummed entry of eight sectors. -/
def replica_crc : bch_extent_crc_unpacked :=
  { compressed_size := 8, uncompressed_size := 8, live_size := 8, csum_type := 0,
    compression_type := 0, offset := 0, nonce := 0, csum := { lo := 0, hi := 0 } }

/-- A dirty, written replica on the device `dev`. -/
def replica_ptr (dev : UInt8) : Read.extent_ptr_decoded :=
  { has_ec := false, do_ec_reconstruct := false, crc_retry_nr := 0, crc := replica_crc,
    ptr := { cached := false, unwritten := false, offset := 0, dev := dev, generation := 0 } }

/-- The header of a btree node pointer. -/
def btree_ptr_v2_key : bkey :=
  { u64s := 0, format := 0, needs_whiteout := false, type := KEY_TYPE_btree_ptr_v2, pad := 0,
    bversion := { hi := 0, lo := 0 }, size := 0, p := { inode := 0, offset := 0, snapshot := 0 } }

/-- A btree node with a replica on each device. -/
def two_replica_key : bkey_s_c :=
  { k := btree_ptr_v2_key, ptrs := [replica_ptr 0, replica_ptr 1] }

/-- The entry of a device after one I/O error. -/
def io_err_entry (dev : UInt8) : bch_dev_io_failures :=
  { dev := dev, csum_nr := 0, ec_errcode := 0, errcode := (-BCH_ERR_data_read_io_err).toInt16 }

/-- The failures of two reads of `two_replica_key`, one on each replica. -/
def two_replica_failures : Nat → bch_io_failures
  | 0 => ⟨[]⟩
  | 1 => ⟨[io_err_entry 0]⟩
  | _ => ⟨[io_err_entry 0, io_err_entry 1]⟩

/-- Two replicas, each failing with an I/O error: the two picks are within the bound of `2 * (3 +
3)` retries. -/
theorem bch2_bkey_pick_read_device_sound_two_replicas :
    two_dev_fs.checksum_err_retry_nr.toNat < 127 ∧
      read_retry_run two_dev_fs two_replica_key 0 0 (fun _ _ _ => 0) two_replica_failures
        (fun i => replica_ptr i.toUInt8) (fun _ => -BCH_ERR_data_read_io_err) 2 ∧
      2 ≤ two_replica_key.ptrs.length * (two_dev_fs.checksum_err_retry_nr.toNat + 3) := by
  have hR : two_dev_fs.checksum_err_retry_nr.toNat < 127 := by decide
  -- each read picks the replica whose device has not failed yet
  have hrun : read_retry_run two_dev_fs two_replica_key 0 0 (fun _ _ _ => 0)
      two_replica_failures (fun i => replica_ptr i.toUInt8)
      (fun _ => -BCH_ERR_data_read_io_err) 2 := by
    unfold read_retry_run
    decide
  exact ⟨hR, hrun, (bch2_bkey_pick_read_device_sound two_dev_fs 0 0 two_replica_key).2.2 hR
    _ _ _ _ 2 (fun _ _ => by decide) hrun⟩

end Bcachefs.Proofs.Data
