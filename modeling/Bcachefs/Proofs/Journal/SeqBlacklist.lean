import Bcachefs.Journal.SeqBlacklist
import Bcachefs.Intervals.Ordered
import Bcachefs.Proofs.Util.EytzingerSort
import Bcachefs.Proofs.Btree.WriteBufferOrder
import Mathlib.Data.List.InsertIdx

/-!
# The superblock list of blacklisted ranges, and the table built from it

A superblock list stands for the set of the sequence numbers its ranges cover
(`Blacklisted`). `bch2_sb_journal_seq_blacklist_validate` accepts exactly the lists whose
ranges are nonempty and in order, touching allowed (`Valid`), and otherwise prints the text
for the first entry that fails a check (`bch2_sb_journal_seq_blacklist_validate_spec`).

`bch2_journal_seq_blacklist_add` keeps a list valid and adds `[start, end)` to its set
(`blacklist_add_loop_spec`). Its loop keeps `AddInv`: the entries before `i` end at or before
the range being added, which stays nonempty, the entries are the list with some taken out,
and they and that range together cover what the list and `[start, end)` cover. Each round
passes one entry or takes one out, so the loop stops within one round per entry, on the entry
that starts after the range, or at the end.

`bch2_blacklist_table_initialize` builds a table whose entries, read along the inorder, are the
superblock list (`TableInv`, `blacklist_table_initialize_spec`): `eytzinger0_sort` leaves the
starts nondecreasing along the inorder, and a valid list is the only arrangement of its
entries whose starts do not decrease, since they are distinct.

The calls these make can fail. A resize fails only where it grows the field, after a loop
that took nothing out, so `-ENOSPC` leaves the list as it was (`field_eq_of_not_resize_ok`);
a failed `bch2_write_super` or `kzalloc` leaves the new list with the old table. What holds
between the calls is then `BlacklistStale`: the table holds a valid list whose numbers the
superblock list blacklists too, and `BlacklistInv`, where the table holds the list itself,
is restored by each table built (`BlacklistStale.table_init`, `BlacklistStale.add`).
-/

set_option autoImplicit false
set_option linter.style.nameCheck false

namespace Bcachefs.Proofs.Journal

open Bcachefs Bcachefs.Journal Bcachefs.Intervals Bcachefs.Loop Bcachefs.Tree Bcachefs.Proofs.Util
open Bcachefs.Proofs.Btree

/-! ### Ranges as numbers -/

/-- The sequence numbers `[start, end)` of a superblock entry. -/
def span (e : journal_seq_blacklist_entry) : Nat × Nat := (e.start.toNat, e.«end».toNat)

/-- A table entry without its `dirty` flag. -/
def toEntry (e : journal_seq_blacklist_table_entry) : journal_seq_blacklist_entry :=
  ⟨e.start, e.«end»⟩

/-- The sequence numbers a superblock list blacklists. -/
def Blacklisted (bl : List journal_seq_blacklist_entry) (seq : Nat) : Prop :=
  covers (bl.map span) seq

/-- What validation asks of a superblock list: every range nonempty, and each ending at or
before the next starts. -/
structure Valid (bl : List journal_seq_blacklist_entry) : Prop where
  proper : Proper (bl.map span)
  ordered : Ordered (bl.map span)

/-- The span of an entry starts at its `start`. -/
@[simp] theorem span_fst (e : journal_seq_blacklist_entry) : (span e).1 = e.start.toNat := rfl

/-- The span of an entry ends at its `end`. -/
@[simp] theorem span_snd (e : journal_seq_blacklist_entry) : (span e).2 = e.«end».toNat := rfl

/-- Dropping the `dirty` flag keeps the start. -/
@[simp] theorem toEntry_start (e : journal_seq_blacklist_table_entry) :
    (toEntry e).start = e.start := rfl

/-- Dropping the `dirty` flag keeps the end. -/
@[simp] theorem toEntry_end (e : journal_seq_blacklist_table_entry) :
    (toEntry e).«end» = e.«end» := rfl

/-- Taking entries out of a valid list keeps it valid. -/
theorem Valid.sublist {bl bl' : List journal_seq_blacklist_entry} (h : Valid bl)
    (hs : bl'.Sublist bl) : Valid bl' :=
  ⟨h.proper.sublist (hs.map span), h.ordered.sublist (hs.map span)⟩

/-- Every entry of a valid list is a nonempty range. -/
theorem Valid.start_lt_end {bl : List journal_seq_blacklist_entry} (h : Valid bl)
    {e : journal_seq_blacklist_entry} (he : e ∈ bl) : e.start.toNat < e.«end».toNat :=
  h.proper _ (List.mem_map_of_mem he)

/-- The entries before `i` end at or before entry `i` starts. -/
theorem Valid.end_le_of_mem_take {bl : List journal_seq_blacklist_entry} (h : Valid bl) {i : Nat}
    (hi : i < bl.length) {a : journal_seq_blacklist_entry} (ha : a ∈ bl.take i) :
    a.«end».toNat ≤ bl[i].start.toNat := by
  have hO := h.ordered
  rw [Ordered, ← List.take_append_drop i bl, List.map_append, List.pairwise_append] at hO
  exact hO.2.2 _ (List.mem_map_of_mem ha) _
    (List.mem_map_of_mem (by rw [List.drop_eq_getElem_cons hi]; exact List.mem_cons_self))

/-- The entries from `i` on start at or after entry `i` does. -/
theorem Valid.start_le_of_mem_drop {bl : List journal_seq_blacklist_entry} (h : Valid bl) {i : Nat}
    (hi : i < bl.length) {b : journal_seq_blacklist_entry} (hb : b ∈ bl.drop i) :
    bl[i].start.toNat ≤ b.start.toNat := by
  rw [List.drop_eq_getElem_cons hi, List.mem_cons] at hb
  rcases hb with rfl | hb
  · exact le_refl _
  · -- a later entry starts after entry `i` ends
    have hO := h.ordered
    rw [Ordered, ← List.take_append_drop i bl, List.drop_eq_getElem_cons hi, List.map_append,
      List.pairwise_append, List.map_cons, List.pairwise_cons] at hO
    have hend := hO.2.1.1 _ (List.mem_map_of_mem hb)
    have hlt := h.start_lt_end (List.getElem_mem hi)
    simp only [span_fst, span_snd] at hend
    omega

/-! ### Validation -/

/-- The empty list is valid. -/
theorem valid_nil : Valid [] := ⟨proper_nil, ordered_nil⟩

/-- One nonempty range is a valid list. -/
theorem valid_singleton {e : journal_seq_blacklist_entry} (he : e.start.toNat < e.«end».toNat) :
    Valid [e] :=
  ⟨by simpa [Proper] using he, by simp [Ordered]⟩

/-- A range that ends at or before the next starts extends a valid list. -/
theorem valid_cons_cons_iff {e e' : journal_seq_blacklist_entry} {R : List journal_seq_blacklist_entry}
    (he : e.start.toNat < e.«end».toNat) (hee' : e.«end».toNat ≤ e'.start.toNat) :
    Valid (e :: e' :: R) ↔ Valid (e' :: R) := by
  constructor
  · intro h
    exact h.sublist (List.sublist_cons_self e _)
  · intro h
    -- the new head is nonempty and ends at or before the old head starts
    have he' := h.start_lt_end List.mem_cons_self
    refine ⟨(proper_cons _ _).2 ⟨he, h.proper⟩, ?_⟩
    rw [List.map_cons, List.map_cons, ordered_cons_cons he']
    exact ⟨hee', h.ordered⟩

/-- The validation loop from entry `i` on accepts exactly the valid lists. -/
theorem blacklist_validate_from_ok_iff :
    ∀ (bl : List journal_seq_blacklist_entry) (i : Nat),
      blacklist_validate_from bl i = .ok () ↔ Valid bl
  | [], _ => by simp [blacklist_validate_from, valid_nil]
  | e :: rest, i => by
    simp only [blacklist_validate_from]
    by_cases he : e.start ≥ e.«end»
    · -- an empty range
      rw [if_pos he]
      refine ⟨fun h => (by cases h), fun h => ?_⟩
      have := h.start_lt_end List.mem_cons_self
      rw [ge_iff_le, UInt64.le_iff_toNat_le] at he
      omega
    · rw [if_neg he]
      rw [ge_iff_le, UInt64.le_iff_toNat_le, not_le] at he
      cases rest with
      -- a last entry that is not empty passes
      | nil => exact ⟨fun _ => valid_singleton he, fun _ => rfl⟩
      | cons e' rest' =>
        dsimp only
        by_cases ho : e.«end» > e'.start
        · -- the range overlaps the next
          rw [if_pos ho]
          refine ⟨fun h => (by cases h), fun h => ?_⟩
          have hO := (ordered_cons _ _).1 h.ordered
          have := hO.1 _ List.mem_cons_self
          rw [gt_iff_lt, UInt64.lt_iff_toNat_lt] at ho
          simp only [span_fst, span_snd] at this
          omega
        -- both checks pass: the rest of the list decides
        · rw [if_neg ho, blacklist_validate_from_ok_iff (e' :: rest') (i + 1)]
          rw [gt_iff_lt, UInt64.lt_iff_toNat_lt, not_lt] at ho
          exact (valid_cons_cons_iff he ho).symm

/-- Entry `j` passes both of the validation's checks: its range is nonempty, and it ends at
or before the next entry starts. -/
def EntryPasses (bl : List journal_seq_blacklist_entry) (j : Nat) : Prop :=
  ∀ e ∈ bl[j]?, e.start < e.«end» ∧ ∀ e' ∈ bl[j + 1]?, e.«end» ≤ e'.start

/-- The validation, counting entries from `k`, stops at entry `i` with the text `msg`: entry `i`
is empty, or it ends after entry `i + 1` starts. -/
def FailsAt (bl : List journal_seq_blacklist_entry) (k i : Nat) (msg : String) : Prop :=
  ∃ e ∈ bl[i]?, e.«end» ≤ e.start ∧ msg = blacklist_start_end_msg (k + i) e ∨
    e.start < e.«end» ∧ ∃ e' ∈ bl[i + 1]?, e'.start < e.«end» ∧
      msg = blacklist_order_msg (k + i + 1) e e'

/-- Entry `j + 1` of `e :: bl` passes exactly when entry `j` of `bl` does. -/
theorem entryPasses_cons_succ (e : journal_seq_blacklist_entry)
    (bl : List journal_seq_blacklist_entry) (j : Nat) :
    EntryPasses (e :: bl) (j + 1) ↔ EntryPasses bl j := by
  simp only [EntryPasses, List.getElem?_cons_succ]

/-- Entry `i + 1` of `e :: bl`, counted from `k`, fails as entry `i` of `bl` counted from `k + 1`.
-/
theorem failsAt_cons_succ (e : journal_seq_blacklist_entry) (bl : List journal_seq_blacklist_entry)
    (k i : Nat) (msg : String) : FailsAt (e :: bl) k (i + 1) msg ↔ FailsAt bl (k + 1) i msg := by
  simp only [FailsAt, List.getElem?_cons_succ]
  rw [show k + (i + 1) = k + 1 + i by omega]

/-- Past an entry that passes, the validation fails where it fails on the rest of the list. -/
theorem exists_failsAt_cons_iff {e : journal_seq_blacklist_entry}
    {bl : List journal_seq_blacklist_entry} {k : Nat} {msg : String}
    (hpass : EntryPasses (e :: bl) 0) (hfail : ¬ FailsAt (e :: bl) k 0 msg) :
    (∃ i, (∀ j < i, EntryPasses (e :: bl) j) ∧ FailsAt (e :: bl) k i msg) ↔
      ∃ i, (∀ j < i, EntryPasses bl j) ∧ FailsAt bl (k + 1) i msg := by
  constructor
  -- the head passes, so the first failure is at an index of the tail
  · rintro ⟨_ | i, hbefore, hi⟩
    · exact absurd hi hfail
    · refine ⟨i, fun j hj => ?_, (failsAt_cons_succ e bl k i msg).1 hi⟩
      exact (entryPasses_cons_succ e bl j).1 (hbefore (j + 1) (by omega))
  · rintro ⟨i, hbefore, hi⟩
    refine ⟨i + 1, fun j hj => ?_, (failsAt_cons_succ e bl k i msg).2 hi⟩
    cases j with
    | zero => exact hpass
    | succ j => exact (entryPasses_cons_succ e bl j).2 (hbefore j (by omega))

/-- The validation loop from entry `k` on fails with `msg` exactly when some entry fails a check
with that text and every entry before it passes both. -/
theorem blacklist_validate_from_eq_error_iff :
    ∀ (bl : List journal_seq_blacklist_entry) (k : Nat) (msg : String),
      blacklist_validate_from bl k = .error msg ↔
        ∃ i, (∀ j < i, EntryPasses bl j) ∧ FailsAt bl k i msg
  | [], _, _ => by simp [blacklist_validate_from, FailsAt]
  | e :: rest, k, msg => by
    simp only [blacklist_validate_from]
    by_cases he : e.start ≥ e.«end»
    · -- an empty range fails at once, and no later entry is reached
      rw [if_pos he, Except.error.injEq]
      constructor
      · rintro rfl
        exact ⟨0, fun _ h => absurd h (Nat.not_lt_zero _), e, rfl, Or.inl ⟨he, rfl⟩⟩
      · rintro ⟨_ | i, hbefore, e₀, he₀, hi⟩
        · cases he₀
          rcases hi with ⟨-, hmsg⟩ | ⟨hlt, -⟩
          · exact hmsg.symm
          · exact absurd hlt (UInt64.not_lt.2 he)
        · exact absurd (hbefore 0 (Nat.succ_pos i) e rfl).1 (UInt64.not_lt.2 he)
    · rw [if_neg he]
      rw [ge_iff_le, UInt64.not_le] at he
      cases rest with
      | nil =>
        -- a last entry that is not empty passes
        refine ⟨fun h => (by cases h), ?_⟩
        rintro ⟨_ | i, -, e₀, he₀, hi⟩
        · cases he₀
          rcases hi with ⟨hle, -⟩ | ⟨-, e', he', -⟩
          · exact absurd hle (UInt64.not_le.2 he)
          · cases he'
        · cases he₀
      | cons e' rest' =>
        dsimp only
        by_cases ho : e.«end» > e'.start
        · -- entry `k` ends after entry `k + 1` starts
          rw [if_pos ho, Except.error.injEq]
          constructor
          · rintro rfl
            exact ⟨0, fun _ h => absurd h (Nat.not_lt_zero _), e, rfl,
              Or.inr ⟨he, e', rfl, ho, rfl⟩⟩
          · rintro ⟨_ | i, hbefore, e₀, he₀, hi⟩
            · cases he₀
              rcases hi with ⟨hle, -⟩ | ⟨-, e'', he'', -, hmsg⟩
              · exact absurd hle (UInt64.not_le.2 he)
              · cases he''
                exact hmsg.symm
            · exact absurd ((hbefore 0 (Nat.succ_pos i) e rfl).2 e' rfl) (UInt64.not_le.2 ho)
        · rw [if_neg ho, blacklist_validate_from_eq_error_iff (e' :: rest') (k + 1) msg]
          rw [gt_iff_lt, UInt64.not_lt] at ho
          -- entry `k` passes both checks, so the failure is further on
          refine (exists_failsAt_cons_iff (fun e₀ he₀ => ?_) ?_).symm
          · cases he₀
            exact ⟨he, fun e'' he'' => by cases he''; exact ho⟩
          · rintro ⟨e₀, he₀, ⟨hle, -⟩ | ⟨-, e'', he'', hlt, -⟩⟩
            · cases he₀
              exact absurd hle (UInt64.not_le.2 he)
            · cases he₀
              cases he''
              exact absurd hlt (UInt64.not_lt.2 ho)

/-- `bch2_sb_journal_seq_blacklist_validate` accepts exactly the valid lists, and otherwise
prints the text for the first entry that fails a check. -/
theorem bch2_sb_journal_seq_blacklist_validate_spec (bl : List journal_seq_blacklist_entry) :
    (bch2_sb_journal_seq_blacklist_validate bl = .ok () ↔ Valid bl) ∧
      ∀ msg, bch2_sb_journal_seq_blacklist_validate bl = .error msg ↔
        ∃ i, (∀ j < i, EntryPasses bl j) ∧ FailsAt bl 0 i msg :=
  ⟨blacklist_validate_from_ok_iff bl 0, blacklist_validate_from_eq_error_iff bl 0⟩

/-! ### Adding a range -/

/-- `array_insert_item` at `i`. -/
theorem insertIdx_eq_take_cons_drop {α : Type} :
    ∀ (l : List α) (i : Nat) (a : α), i ≤ l.length → l.insertIdx i a = l.take i ++ a :: l.drop i
  | l, 0, a, _ => by rw [List.insertIdx_zero, List.take_zero, List.drop_zero, List.nil_append]
  | [], _ + 1, _, h => by simp at h
  | b :: l, i + 1, a, h => by
    rw [List.insertIdx_succ_cons, insertIdx_eq_take_cons_drop l i a (by simp at h; omega)]
    rfl

/-- The loop of `bch2_journal_seq_blacklist_add`, adding `[start, end)` to `L`: what holds of
its variables at every test of the condition. -/
structure AddInv (L : List journal_seq_blacklist_entry) (start «end» : UInt64)
    (s : blacklist_add_state) : Prop where
  valid : Valid s.entries
  i_le : s.i ≤ s.entries.length
  before : ∀ a ∈ s.entries.take s.i, a.«end».toNat ≤ s.start.toNat
  lt : s.start.toNat < s.«end».toNat
  covers_eq : ∀ x, Blacklisted s.entries x ∨ mem (s.start.toNat, s.«end».toNat) x ↔
    Blacklisted L x ∨ mem (start.toNat, «end».toNat) x
  sublist : s.entries.Sublist L

/-- The loop goes on only at an entry that starts at or before the range ends. -/
theorem blacklist_add_cond_eq_true {s : blacklist_add_state} (h : blacklist_add_cond s = true) :
    ∃ e, s.entries[s.i]? = some e ∧ e.start.toNat ≤ s.«end».toNat := by
  unfold blacklist_add_cond at h
  cases he : s.entries[s.i]? with
  | none => rw [he] at h; cases h
  | some e =>
    rw [he] at h
    simp only [Bool.not_eq_eq_eq_not, Bool.not_true, decide_eq_false_iff_not,
      UInt64.lt_iff_toNat_lt, not_lt] at h
    exact ⟨e, rfl, h⟩

/-- An entry that ends before the range is passed over. -/
theorem addInv_pass {L : List journal_seq_blacklist_entry} {start «end» : UInt64}
    {s : blacklist_add_state} (hinv : AddInv L start «end» s) {e : journal_seq_blacklist_entry}
    (he : s.entries[s.i]? = some e) (hlt : e.«end».toNat < s.start.toNat) :
    AddInv L start «end» { s with i := s.i + 1 } := by
  obtain ⟨hi, rfl⟩ := List.getElem?_eq_some_iff.1 he
  refine ⟨hinv.valid, hi, fun a ha => ?_, hinv.lt, hinv.covers_eq, hinv.sublist⟩
  -- the entries passed over are the old ones and entry `i`, which ends before the range starts
  rw [List.take_add_one, List.mem_append] at ha
  rcases ha with ha | ha
  · exact hinv.before a ha
  · rw [List.getElem?_eq_getElem hi, Option.toList_some, List.mem_singleton] at ha
    rw [ha]
    exact hlt.le

/-- An entry that overlaps or touches the range is merged into it and taken out. -/
theorem addInv_merge {L : List journal_seq_blacklist_entry} {start «end» : UInt64}
    {s : blacklist_add_state} (hinv : AddInv L start «end» s) {e : journal_seq_blacklist_entry}
    (he : s.entries[s.i]? = some e) (hle : e.start.toNat ≤ s.«end».toNat)
    (hge : s.start.toNat ≤ e.«end».toNat) :
    AddInv L start «end»
      { s with entries := s.entries.eraseIdx s.i, start := min s.start e.start,
               «end» := max s.«end» e.«end» } := by
  obtain ⟨hi, rfl⟩ := List.getElem?_eq_some_iff.1 he
  have hlen := List.length_eraseIdx_of_lt hi
  -- the list loses entry `i` and the range grows to cover it
  refine ⟨hinv.valid.sublist (List.eraseIdx_sublist _ _), by dsimp only; omega, fun a ha => ?_,
    ?_, fun x => ?_, (List.eraseIdx_sublist _ _).trans hinv.sublist⟩
  · -- the entries before `i` end before both the range and entry `i` start
    dsimp only at ha ⊢
    rw [List.take_eraseIdx_eq_take_of_le _ _ _ (le_refl _)] at ha
    rw [UInt64.toNat_min]
    exact le_min (hinv.before a ha) (hinv.valid.end_le_of_mem_take hi ha)
  · dsimp only
    rw [UInt64.toNat_min, UInt64.toNat_max]
    exact lt_of_le_of_lt (min_le_left _ _) (lt_of_lt_of_le hinv.lt (le_max_left _ _))
  · -- the merged range covers the range and entry `i`
    dsimp only
    have hmerge : mem (min s.start.toNat s.entries[s.i].start.toNat,
        max s.«end».toNat s.entries[s.i].«end».toNat) x ↔
        mem (s.start.toNat, s.«end».toNat) x ∨ mem (span s.entries[s.i]) x :=
      mem_min_max_iff (a := (s.start.toNat, s.«end».toNat)) (b := span s.entries[s.i]) hge hle x
    rw [UInt64.toNat_min, UInt64.toNat_max, hmerge, ← hinv.covers_eq x, Blacklisted, Blacklisted,
      ← List.eraseIdx_map, covers_eraseIdx (R := s.entries.map span) (by simpa using hi) x,
      List.getElem_map]
    tauto

/-- One step of the loop keeps the invariant and shortens what is left of the list. -/
theorem addInv_step {L : List journal_seq_blacklist_entry} {start «end» : UInt64}
    (s : blacklist_add_state) (hinv : AddInv L start «end» s) (hc : blacklist_add_cond s = true) :
    AddInv L start «end» (blacklist_add_step s) ∧
      (blacklist_add_step s).entries.length - (blacklist_add_step s).i <
        s.entries.length - s.i := by
  obtain ⟨e, he, hle⟩ := blacklist_add_cond_eq_true hc
  have hi := (List.getElem?_eq_some_iff.1 he).1
  unfold blacklist_add_step
  rw [he]
  dsimp only
  -- the source's two cases: the entry ends before the range, or it meets it
  by_cases hpass : s.start > e.«end»
  · rw [if_pos hpass]
    rw [gt_iff_lt, UInt64.lt_iff_toNat_lt] at hpass
    exact ⟨addInv_pass hinv he hpass, by dsimp only; omega⟩
  · rw [if_neg hpass]
    rw [gt_iff_lt, UInt64.lt_iff_toNat_lt, not_lt] at hpass
    refine ⟨addInv_merge hinv he hle hpass, ?_⟩
    dsimp only
    rw [List.length_eraseIdx_of_lt hi]
    omega

/-- The loop of `bch2_journal_seq_blacklist_add` stops with entries it only took some out of,
and inserting the merged range where it stopped gives a valid list that blacklists the old set
and `[start, end)`. -/
theorem blacklist_add_loop_spec {L : List journal_seq_blacklist_entry} (hL : Valid L)
    {start «end» : UInt64} (hlt : start.toNat < «end».toNat) :
    ∃ s, whileLoop blacklist_add_cond blacklist_add_step (L.length + 1)
        { entries := L, i := 0, start := start, «end» := «end» } = some s ∧
      s.entries.Sublist L ∧
      Valid (s.entries.insertIdx s.i ⟨s.start, s.«end»⟩) ∧
      (∀ x, Blacklisted (s.entries.insertIdx s.i ⟨s.start, s.«end»⟩) x ↔
        Blacklisted L x ∨ mem (start.toNat, «end».toNat) x) ∧
      (s.entries.insertIdx s.i ⟨s.start, s.«end»⟩).length = s.entries.length + 1 := by
  have hinit : AddInv L start «end» { entries := L, i := 0, start := start, «end» := «end» } :=
    ⟨hL, Nat.zero_le _, fun a ha => by simp at ha, hlt, fun x => Iff.rfl, List.Sublist.refl L⟩
  have hstops : ∃ s, whileLoop blacklist_add_cond blacklist_add_step (L.length + 1)
      { entries := L, i := 0, start := start, «end» := «end» } = some s :=
    whileLoop_isSome_of_measure (AddInv L start «end») (fun s => s.entries.length - s.i)
      addInv_step hinit (by dsimp only; omega)
  obtain ⟨s, hs⟩ := hstops
  obtain ⟨hinv, hstop⟩ := whileLoop_inv (AddInv L start «end») (fun s h hc => (addInv_step s h hc).1)
    hinit hs
  refine ⟨s, hs, hinv.sublist, ?_, fun x => ?_, List.length_insertIdx_of_le_length hinv.i_le _⟩
  · rw [insertIdx_eq_take_cons_drop _ _ _ hinv.i_le]
    -- the loop stopped at the end, or at an entry that starts after the range ends
    have hafter : ∀ b ∈ s.entries.drop s.i, s.«end».toNat ≤ b.start.toNat := by
      intro b hb
      unfold blacklist_add_cond at hstop
      cases he : s.entries[s.i]? with
      | none =>
        rw [List.getElem?_eq_none_iff] at he
        rw [List.drop_eq_nil_of_le he] at hb
        cases hb
      | some e =>
        rw [he] at hstop
        obtain ⟨hi, rfl⟩ := List.getElem?_eq_some_iff.1 he
        simp only [Bool.not_eq_false', decide_eq_true_eq, UInt64.lt_iff_toNat_lt] at hstop
        exact le_of_lt (lt_of_lt_of_le hstop (hinv.valid.start_le_of_mem_drop hi hb))
    have hO := hinv.valid.ordered
    have hP := hinv.valid.proper
    rw [Ordered, List.pairwise_map, ← List.take_append_drop s.i s.entries, List.pairwise_append]
      at hO
    rw [Proper, ← List.take_append_drop s.i s.entries, List.map_append] at hP
    refine ⟨fun r hr => ?_, ?_⟩
    · simp only [List.map_append, List.map_cons, List.mem_append, List.mem_cons] at hr
      rcases hr with hr | rfl | hr
      · exact hP r (List.mem_append_left _ hr)
      · exact hinv.lt
      · exact hP r (List.mem_append_right _ hr)
    · rw [Ordered, List.pairwise_map, List.pairwise_append, List.pairwise_cons]
      refine ⟨hO.1, ⟨fun b hb => hafter b hb, hO.2.1⟩, fun a ha b hb => ?_⟩
      rcases List.mem_cons.1 hb with rfl | hb
      · exact hinv.before a ha
      · exact hO.2.2 a ha b hb
  · rw [← hinv.covers_eq x, insertIdx_eq_take_cons_drop _ _ _ hinv.i_le, Blacklisted,
      Blacklisted]
    conv_rhs => rw [← List.take_append_drop s.i s.entries]
    simp only [List.map_append, List.map_cons, covers_append, covers_cons]
    rw [show span ⟨s.start, s.«end»⟩ = (s.start.toNat, s.«end».toNat) from rfl]
    tauto

/-! ### The table -/

/-- A comparison of `u64` keys with `cmp_int` is a total preorder. -/
theorem cmpPreorder_cmp_int_uint64 {β : Type} (f : β → UInt64) :
    CmpPreorder fun x y => cmp_int (f x) (f y) where
  trans hxy hyz := by
    rw [cmp_int_uint64] at hxy hyz ⊢
    exact cmpPreorder_cmp_int.trans hxy hyz
  swap := by
    intro x y
    rw [cmp_int_uint64, cmp_int_uint64]
    exact cmpPreorder_cmp_int.swap

/-- The table's comparison by start is a total preorder. -/
theorem cmpPreorder_table_cmp : CmpPreorder journal_seq_blacklist_table_cmp :=
  cmpPreorder_cmp_int_uint64 journal_seq_blacklist_table_entry.start

/-- The table's comparison by end is a total preorder. -/
theorem cmpPreorder_table_end_cmp : CmpPreorder journal_seq_blacklist_table_end_cmp :=
  cmpPreorder_cmp_int_uint64 journal_seq_blacklist_table_entry.«end»

/-- The table read along the inorder of the tree on `[1, nr]`, node `x` at index `x - 1`, is the
superblock list, up to the `dirty` flags. -/
structure TableInv (t : journal_seq_blacklist_table) (bl : List journal_seq_blacklist_entry) :
    Prop where
  nr_eq : t.nr = bl.length
  inorder_eq : (inorder t.nr 1).map (fun x => toEntry (t.entries (x - 1))) = bl

/-- The superblock entries, as the table's entries before the sort. -/
theorem map_range_blacklist_table_entries (bl : List journal_seq_blacklist_entry) :
    (List.range bl.length).map (blacklist_table_entries bl) =
      bl.map fun e => { start := e.start, «end» := e.«end», dirty := false } := by
  refine List.ext_getElem (by simp) fun k hk _ => ?_
  have hk' : k < bl.length := by simpa using hk
  simp [blacklist_table_entries, List.getElem?_eq_getElem hk']

/-- The starts of a valid list increase, so no two entries share one. -/
theorem Valid.starts_nodup {bl : List journal_seq_blacklist_entry} (hv : Valid bl) :
    (bl.map fun e => e.start.toNat).Nodup := by
  have h := Ordered.starts_lt hv.proper hv.ordered
  rw [List.pairwise_map] at h
  exact (List.pairwise_map.2 h).nodup

/-- `bch2_blacklist_table_initialize` on a valid list, when the allocation succeeds, builds a
table that reads back as the list along the inorder. -/
theorem blacklist_table_initialize_spec {c : bch_fs} {bl : List journal_seq_blacklist_entry}
    (hsb : c.journal_seq_blacklist = some bl) (hv : Valid bl) (hn : bl.length + 1 < 2 ^ 31) :
    ∃ t, bch2_blacklist_table_initialize c true =
      some (.ok (), { c with journal_seq_blacklist_table := some t }) ∧ TableInv t bl := by
  unfold bch2_blacklist_table_initialize
  rw [hsb]
  simp only [Bool.not_true, Bool.false_eq_true, if_false]
  rcases Nat.eq_zero_or_pos bl.length with h0 | h0
  · -- an empty list: the sort has nothing to do
    obtain rfl := List.length_eq_zero_iff.1 h0
    exact ⟨_, rfl, rfl, by rw [List.length_nil, inorder_of_lt Nat.zero_lt_one, List.map_nil]⟩
  obtain ⟨base', hsort, hperm, hsorted⟩ :=
    eytzinger0_sort_inorder cmpPreorder_table_cmp h0 hn (blacklist_table_entries bl)
  rw [hsort, Option.map_some]
  refine ⟨_, rfl, rfl, ?_⟩
  -- the table along the inorder is an arrangement of the list
  have hperm' : ((inorder bl.length 1).map fun x => toEntry (base' (x - 1))).Perm bl := by
    have h1 := (inorder_one_perm bl.length).map (fun x => base' (x - 1))
    rw [List.range'_eq_map_range, List.map_map] at h1
    have h2 := (h1.trans (by simpa [Function.comp_def, Nat.add_comm 1] using hperm)).map toEntry
    rw [map_range_blacklist_table_entries, List.map_map, List.map_map] at h2
    simpa [Function.comp_def, toEntry] using h2
  -- whose starts do not decrease, as the list's increase
  refine @List.Perm.eq_of_pairwise _ (fun a b => a.start.toNat ≤ b.start.toNat) _ _ ?_ ?_ ?_
    hperm'
  · intro a b ha hb hab hba
    exact List.inj_on_of_nodup_map hv.starts_nodup (hperm'.subset ha) hb (le_antisymm hab hba)
  · rw [List.pairwise_map]
    refine (List.pairwise_map.1 hsorted).imp fun {a b} h => ?_
    rw [journal_seq_blacklist_table_cmp, cmp_int_uint64, cmp_int_nonneg_iff] at h
    exact h
  · have h := Ordered.starts_lt hv.proper hv.ordered
    rw [List.pairwise_map] at h
    exact h.imp le_of_lt

/-! ### The state the blacklist code keeps -/

/-- The table matches the superblock list; there is no table only while there is no list. -/
def TableOk : Option journal_seq_blacklist_table → Option (List journal_seq_blacklist_entry) → Prop
  | none, sb => sb = none
  | some t, sb => TableInv t (sb.getD [])

/-- The invariant of the blacklist: the superblock list is valid, and the table matches it. -/
structure BlacklistInv (c : bch_fs) : Prop where
  valid : Valid (c.journal_seq_blacklist.getD [])
  table_ok : TableOk c.journal_seq_blacklist_table c.journal_seq_blacklist

/-- The list a table holds along the inorder; no table holds the empty list. -/
def TableHolds : Option journal_seq_blacklist_table → List journal_seq_blacklist_entry → Prop
  | none, L => L = []
  | some t, L => TableInv t L

/-- What holds between the calls also after one that failed part way: the superblock list is
valid, and the table holds a valid list, the superblock's when the table was last built, all
of whose numbers the superblock still blacklists. -/
structure BlacklistStale (c : bch_fs) : Prop where
  valid : Valid (c.journal_seq_blacklist.getD [])
  table : ∃ L, TableHolds c.journal_seq_blacklist_table L ∧ Valid L ∧
    ∀ x, Blacklisted L x → Blacklisted (c.journal_seq_blacklist.getD []) x

instance (bl : List journal_seq_blacklist_entry) : Decidable (Valid bl) :=
  decidable_of_iff (Proper (bl.map span) ∧ Ordered (bl.map span))
    ⟨fun h => ⟨h.1, h.2⟩, fun h => ⟨h.1, h.2⟩⟩

/-- A file system with no blacklist field and no table. -/
theorem blacklistInv_empty (oldest_seq_found_ondisk : UInt64) :
    BlacklistInv ⟨none, none, oldest_seq_found_ondisk⟩ :=
  ⟨valid_nil, rfl⟩

/-- A valid list blacklists nothing only when it is empty. -/
theorem Valid.eq_nil_of_not_blacklisted {L : List journal_seq_blacklist_entry} (hv : Valid L)
    (h : ∀ x, ¬ Blacklisted L x) : L = [] := by
  cases L with
  | nil => rfl
  | cons e L =>
    -- the start of the first range is blacklisted
    have hlt := hv.start_lt_end List.mem_cons_self
    exact absurd (by simp [Blacklisted, mem, hlt] : Blacklisted (e :: L) e.start.toNat) (h _)

/-- A table that matches the superblock list is a stale one too. -/
theorem BlacklistInv.stale {c : bch_fs} (h : BlacklistInv c) : BlacklistStale c := by
  refine ⟨h.valid, ?_⟩
  have hok := h.table_ok
  cases ht : c.journal_seq_blacklist_table with
  | none => exact ⟨[], rfl, valid_nil, fun x hx => by simp [Blacklisted] at hx⟩
  | some t =>
    rw [ht] at hok
    exact ⟨_, hok, h.valid, fun _ hx => hx⟩

/-- A file system read from disk, before its table is built. -/
theorem blacklistStale_of_table_eq_none {c : bch_fs} (hv : Valid (c.journal_seq_blacklist.getD []))
    (ht : c.journal_seq_blacklist_table = none) : BlacklistStale c :=
  ⟨hv, [], by rw [ht]; rfl, valid_nil, fun x hx => by simp [Blacklisted] at hx⟩

/-- A valid list that blacklists at least what the superblock's did keeps the old table stale. -/
theorem BlacklistStale.set_sb {c : bch_fs} (hinv : BlacklistStale c)
    {bl : List journal_seq_blacklist_entry} (hv : Valid bl)
    (hsup : ∀ x, Blacklisted (c.journal_seq_blacklist.getD []) x → Blacklisted bl x) :
    BlacklistStale { c with journal_seq_blacklist := some bl } := by
  obtain ⟨L, hL, hvL, hsub⟩ := hinv.table
  exact ⟨hv, L, hL, hvL, fun x hx => hsup x (hsub x hx)⟩

/-! ### Building the table, and adding a range, whatever the calls they make return -/

/-- `bch2_blacklist_table_initialize` on a list: a table that holds the list when the
allocation succeeds, and nothing changed when it fails. -/
theorem blacklist_table_initialize_some {c : bch_fs} {bl : List journal_seq_blacklist_entry}
    (hsb : c.journal_seq_blacklist = some bl) (hv : Valid bl) (hn : bl.length + 1 < 2 ^ 31)
    (alloc_ok : Bool) :
    (alloc_ok = true ∧ ∃ t, bch2_blacklist_table_initialize c alloc_ok =
        some (.ok (), { c with journal_seq_blacklist_table := some t }) ∧ TableInv t bl) ∨
      alloc_ok = false ∧ bch2_blacklist_table_initialize c alloc_ok =
        some (.error .ENOMEM_blacklist_table_init, c) := by
  cases alloc_ok with
  | true => exact Or.inl ⟨rfl, blacklist_table_initialize_spec hsb hv hn⟩
  -- `kzalloc` failed: `-ENOMEM`, and the table is left alone
  | false =>
    refine Or.inr ⟨rfl, ?_⟩
    rw [ bch2_blacklist_table_initialize, hsb]
    rfl

/-- What `bch2_blacklist_table_initialize` does: it changes only the table, which then holds
the list, or, when the allocation fails, nothing. -/
def TableInitSpec (c : bch_fs) (alloc_ok : Bool) (r : Except blacklist_err Unit) (c' : bch_fs) :
    Prop :=
  c'.journal_seq_blacklist = c.journal_seq_blacklist ∧
    c'.oldest_seq_found_ondisk = c.oldest_seq_found_ondisk ∧
    (r = .ok () ∧ BlacklistInv c' ∨
      r = .error .ENOMEM_blacklist_table_init ∧ alloc_ok = false ∧ c' = c)

/-- From a stale state, `bch2_blacklist_table_initialize` returns and changes only the table, which
then matches the superblock list, or changes nothing when the allocation fails. -/
theorem BlacklistStale.table_init {c : bch_fs} (hinv : BlacklistStale c)
    (hn : (c.journal_seq_blacklist.getD []).length + 1 < 2 ^ 31) (alloc_ok : Bool) :
    ∃ r c', bch2_blacklist_table_initialize c alloc_ok = some (r, c') ∧
      TableInitSpec c alloc_ok r c' := by
  unfold TableInitSpec
  cases hsb : c.journal_seq_blacklist with
  | none =>
    -- no list: the table there, if any, holds the empty list
    refine ⟨.ok (), c, by rw [ bch2_blacklist_table_initialize, hsb], hsb, rfl,
      Or.inl ⟨rfl, hinv.valid, ?_⟩⟩
    obtain ⟨L, hL, hv, hsub⟩ := hinv.table
    rw [hsb] at hsub
    have hnil : L = [] := hv.eq_nil_of_not_blacklisted fun x hx => by
      simpa [Blacklisted] using hsub x hx
    subst hnil
    cases ht : c.journal_seq_blacklist_table with
    | none => exact hsb
    | some t =>
      rw [ht] at hL
      show TableInv t _
      rw [hsb]
      exact hL
  | some bl =>
    have hv := hinv.valid
    rw [hsb, Option.getD_some] at hv hn
    rcases blacklist_table_initialize_some hsb hv hn alloc_ok with
      ⟨-, t, hinit, htab⟩ | ⟨rfl, hinit⟩
    · refine ⟨_, _, hinit, hsb, rfl, Or.inl ⟨rfl, ?_, ?_⟩⟩
      · show Valid (c.journal_seq_blacklist.getD [])
        rw [hsb]
        exact hv
      · show TableInv t (c.journal_seq_blacklist.getD [])
        rw [hsb]
        exact htab
    · exact ⟨_, _, hinit, hsb, rfl, Or.inr ⟨rfl, rfl, rfl⟩⟩

/-- The field's size grows with the number of entries. -/
theorem sb_blacklist_u64s_le_iff (a b : Nat) : sb_blacklist_u64s a ≤ sb_blacklist_u64s b ↔ a ≤ b := by
  unfold sb_blacklist_u64s
  omega

/-- The resize of `bch2_journal_seq_blacklist_add` fails only when growing the superblock fails
and the field grows, so after a loop that merged nothing: the field is as it was. -/
theorem field_eq_of_not_resize_ok {field : Option (List journal_seq_blacklist_entry)}
    {entries : List journal_seq_blacklist_entry} (hsub : entries.Sublist (field.getD []))
    {grow_ok : Bool}
    (hres : blacklist_resize_ok field (sb_blacklist_u64s (entries.length + 1)) grow_ok = false) :
    grow_ok = false ∧ field.map (fun _ => entries) = field := by
  rw [blacklist_resize_ok, Bool.or_eq_false_iff, decide_eq_false_iff_not] at hres
  refine ⟨hres.2, ?_⟩
  -- a field that does not grow had no entry merged, so the loop's list is the field's
  cases field with
  | none => rfl
  | some bl =>
    rw [Option.map_some, Option.getD_some] at *
    rw [sb_blacklist_u64s_le_iff] at hres
    rw [hsub.eq_of_length (le_antisymm hsub.length_le (by omega))]

/-- What `bch2_journal_seq_blacklist_add` does, by the outcome of the calls it makes: a
superblock that cannot grow leaves everything as it was; otherwise `[start, end)` is in the
list, and the table is built again when the write and the allocation succeed, and is the old
one when either fails. -/
def AddSpec (c : bch_fs) (start «end» : UInt64) (grow_ok : Bool) (write_super : Int)
    (alloc_ok : Bool) (r : Except blacklist_err Unit) (c' : bch_fs) : Prop :=
  r = .error .ENOSPC_sb_journal_seq_blacklist ∧ grow_ok = false ∧ c' = c ∨
  (∀ x, Blacklisted (c'.journal_seq_blacklist.getD []) x ↔
      Blacklisted (c.journal_seq_blacklist.getD []) x ∨ start.toNat ≤ x ∧ x < «end».toNat) ∧
    (c'.journal_seq_blacklist.getD []).length ≤ (c.journal_seq_blacklist.getD []).length + 1 ∧
    c'.oldest_seq_found_ondisk = c.oldest_seq_found_ondisk ∧
    (write_super = 0 ∧ alloc_ok = true ∧ r = .ok () ∧ BlacklistInv c' ∨
      write_super ≠ 0 ∧ r = .error (.write_super write_super) ∧
        c'.journal_seq_blacklist_table = c.journal_seq_blacklist_table ∨
      write_super = 0 ∧ alloc_ok = false ∧ r = .error .ENOMEM_blacklist_table_init ∧
        c'.journal_seq_blacklist_table = c.journal_seq_blacklist_table)

/-- From a stale state, `bch2_journal_seq_blacklist_add` of a nonempty range returns, whatever the
calls it makes return, in a stale state, with the outcome `AddSpec` gives. -/
theorem BlacklistStale.add {c : bch_fs} (hinv : BlacklistStale c) {start «end» : UInt64}
    (hlt : start < «end») (hn : (c.journal_seq_blacklist.getD []).length + 2 < 2 ^ 31)
    (grow_ok : Bool) (write_super : Int) (alloc_ok : Bool) :
    ∃ r c', bch2_journal_seq_blacklist_add c start «end» grow_ok write_super alloc_ok =
        some (r, c') ∧ BlacklistStale c' ∧ AddSpec c start «end» grow_ok write_super alloc_ok r c' := by
  unfold AddSpec
  -- the loop stops, with a list that holds the merged range where it stopped
  obtain ⟨s, hs, hsub, hvalid, hcov, hlen⟩ := blacklist_add_loop_spec hinv.valid
    (UInt64.lt_iff_toNat_lt.1 hlt)
  unfold bch2_journal_seq_blacklist_add
  dsimp only
  rw [hs, Option.bind_some]
  cases hres : blacklist_resize_ok c.journal_seq_blacklist
      (sb_blacklist_u64s (s.entries.length + 1)) grow_ok with
  | false =>
    -- `-ENOSPC`: the field is what it was
    obtain ⟨hgrow, hfield⟩ := field_eq_of_not_resize_ok hsub hres
    rw [Bool.not_false, if_pos rfl, hfield]
    exact ⟨_, _, rfl, hinv, Or.inl ⟨rfl, hgrow, rfl⟩⟩
  | true =>
    rw [Bool.not_true, if_neg Bool.false_ne_true]
    have hlen' : (s.entries.insertIdx s.i ⟨s.start, s.«end»⟩).length ≤
        (c.journal_seq_blacklist.getD []).length + 1 := by
      rw [hlen]
      exact Nat.add_le_add_right hsub.length_le 1
    have hstale := hinv.set_sb hvalid fun x hx => (hcov x).2 (Or.inl hx)
    by_cases hws : write_super ≠ 0
    · -- the write failed: the table is the old one
      rw [if_pos hws]
      exact ⟨_, _, rfl, hstale, Or.inr ⟨hcov, hlen', rfl, Or.inr (Or.inl ⟨hws, rfl, rfl⟩)⟩⟩
    · rw [if_neg hws]
      rw [not_not] at hws
      -- the superblock is written: the table is built again from the new list
      rcases blacklist_table_initialize_some
          (c := { c with journal_seq_blacklist := some (s.entries.insertIdx s.i ⟨s.start, s.«end»⟩) })
          rfl hvalid (by omega) alloc_ok with ⟨halloc, t, hinit, htab⟩ | ⟨halloc, hinit⟩
      · rw [hinit]
        exact ⟨_, _, rfl, BlacklistInv.stale ⟨hvalid, htab⟩,
          Or.inr ⟨hcov, hlen', rfl, Or.inl ⟨hws, halloc, rfl, hvalid, htab⟩⟩⟩
      · -- the allocation failed: the table is the old one
        rw [hinit]
        exact ⟨_, _, rfl, hstale, Or.inr ⟨hcov, hlen', rfl, Or.inr (Or.inr ⟨hws, halloc, rfl, rfl⟩)⟩⟩

end Bcachefs.Proofs.Journal
