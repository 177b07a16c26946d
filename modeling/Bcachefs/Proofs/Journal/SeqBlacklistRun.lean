import Bcachefs.Proofs.Journal.SeqBlacklistLookup

/-!
# The blacklist over whole runs

Recovery adds ranges to the blacklist (`bch2_journal_seq_blacklist_add`), mount builds the
table (`bch2_blacklist_table_initialize`), and the btree and journal read paths look sequence
numbers up, marking the ranges they hit dirty (`bch2_journal_seq_is_blacklisted`). A run is a
list of these calls (`blacklist_op`), each with the outcomes of the calls it makes that can
fail, applied one after the other whatever each returns (`blacklist_run`).

Each call does what `blacklist_op.Spec` says (`AddSpec`, `TableInitSpec`): a superblock that
cannot grow leaves everything as it was, and a failed write or allocation leaves the range in
the superblock list and the old table. Between the calls `BlacklistStale` holds: the table may
lag the list, but it holds a valid list all of whose numbers the list blacklists. From any
such state, a run does at every call what the call's spec says (`blacklist_op_run_spec`,
`blacklist_run_spec`).

Where the table holds the list (`BlacklistInv`), the lookups answer for the numbers the list
blacklists:

* `bch2_journal_seq_is_blacklisted_spec`, `bch2_journal_seq_next_blacklisted_spec`,
  `bch2_journal_seq_next_nonblacklisted_spec` and `bch2_journal_last_blacklisted_seq_spec`;
* `bch2_blacklist_entries_gc_spec` runs without a `BUG_ON` and leaves a valid list.

Each is shown at the file system a recovery leaves (`recovered_fs`).
-/

set_option autoImplicit false
set_option linter.style.nameCheck false

namespace Bcachefs.Proofs.Journal

open Bcachefs Bcachefs.Journal Bcachefs.Intervals Bcachefs.Tree

section Inv

variable {c : bch_fs} (hinv : BlacklistInv c)
include hinv

/-- With no table there is no list. -/
theorem BlacklistInv.getD_eq_nil (ht : c.journal_seq_blacklist_table = none) :
    c.journal_seq_blacklist.getD [] = [] := by
  have h := hinv.table_ok
  rw [ht] at h
  rw [show c.journal_seq_blacklist = none from h, Option.getD_none]

/-- With a table, the table holds the list. -/
theorem BlacklistInv.tableInv {t : journal_seq_blacklist_table}
    (ht : c.journal_seq_blacklist_table = some t) :
    TableInv t (c.journal_seq_blacklist.getD []) := by
  have h := hinv.table_ok
  rw [ht] at h
  exact h

end Inv

/-! ### Runs -/

/-- The calls that change the blacklist, or mark it, with the outcomes of the calls they make
that can fail: whether the superblock can grow, what `bch2_write_super` returns, and whether
`kzalloc` of the table succeeds. -/
inductive blacklist_op where
  | add (start «end» : UInt64) (grow_ok : Bool) (write_super : Int) (alloc_ok : Bool)
  | is_blacklisted (seq : UInt64) (dirty : Bool)
  | table_init (alloc_ok : Bool)
deriving DecidableEq, Repr

/-- One call: what it returns, and the file system after it. A lookup returns no error. -/
def blacklist_op.run (c : bch_fs) : blacklist_op → Option (Except blacklist_err Unit × bch_fs)
  | .add start «end» grow_ok write_super alloc_ok =>
    bch2_journal_seq_blacklist_add c start «end» grow_ok write_super alloc_ok
  | .is_blacklisted seq dirty =>
    (bch2_journal_seq_is_blacklisted c seq dirty).map fun p => (.ok (), p.2)
  | .table_init alloc_ok => bch2_blacklist_table_initialize c alloc_ok

/-- The calls of a run, one after the other whatever each returns: what each returned, and the
file system after it. -/
def blacklist_run (c : bch_fs) :
    List blacklist_op → Option (List (Except blacklist_err Unit × bch_fs))
  | [] => some []
  | op :: ops => (op.run c).bind fun p => (blacklist_run p.2 ops).map (p :: ·)

/-- Whether a call adds a range. -/
def blacklist_op.isAdd : blacklist_op → Bool
  | .add .. => true
  | _ => false

/-- The calls the proofs cover: every range added is nonempty, as recovery's are. -/
def blacklist_op.Allowed : blacklist_op → Prop
  | .add start «end» .. => start < «end»
  | _ => True

/-- What a call does, given what it returned and the file system it left. A lookup changes at
most the table's `dirty` flags, so the table holds the list it held. -/
def blacklist_op.Spec : blacklist_op → bch_fs → Except blacklist_err Unit → bch_fs → Prop
  | .add start «end» grow_ok write_super alloc_ok, c, r, c' =>
    AddSpec c start «end» grow_ok write_super alloc_ok r c'
  | .is_blacklisted .., c, r, c' =>
    r = .ok () ∧ c'.journal_seq_blacklist = c.journal_seq_blacklist ∧
      c'.oldest_seq_found_ondisk = c.oldest_seq_found_ondisk ∧
      ∀ L, TableHolds c.journal_seq_blacklist_table L →
        TableHolds c'.journal_seq_blacklist_table L
  | .table_init alloc_ok, c, r, c' => TableInitSpec c alloc_ok r c'

/-- A trace of a run from `c`: every call returned and left what its spec says, from the state
the call before it left, and every state on the way is one of `BlacklistStale`. -/
def RunSpec : bch_fs → List blacklist_op → List (Except blacklist_err Unit × bch_fs) → Prop
  | _, [], [] => True
  | c, op :: ops, (r, c') :: trace => BlacklistStale c' ∧ op.Spec c r c' ∧ RunSpec c' ops trace
  | _, _, _ => False

/-- The entries of the superblock list or of the table, whichever has more: what bounds the
searches of a run. -/
def blacklist_size (c : bch_fs) : Nat :=
  max (c.journal_seq_blacklist.getD []).length
    ((c.journal_seq_blacklist_table.map (·.nr)).getD 0)

section Runs

variable {c c' : bch_fs}

/-- On a state of the invariant the table has as many entries as the list. -/
theorem BlacklistInv.size_eq (hinv : BlacklistInv c) :
    blacklist_size c = (c.journal_seq_blacklist.getD []).length := by
  unfold blacklist_size
  cases ht : c.journal_seq_blacklist_table with
  | none => simp
  -- the table holds the list, so has its length
  | some t =>
    have htab := hinv.tableInv ht
    simp [htab.nr_eq]

/-- A call that keeps the table bounds the size by the list it leaves. -/
theorem blacklist_size_le_of_table_eq {k : Nat}
    (hsb : (c'.journal_seq_blacklist.getD []).length ≤ (c.journal_seq_blacklist.getD []).length + k)
    (ht : c'.journal_seq_blacklist_table = c.journal_seq_blacklist_table) :
    blacklist_size c' ≤ blacklist_size c + k := by
  unfold blacklist_size
  rw [ht]
  omega

/-- Building the table leaves a stale state: the new table matches the list, or nothing changed. -/
theorem TableInitSpec.stale {alloc_ok : Bool} {r : Except blacklist_err Unit}
    (hinv : BlacklistStale c) (h : TableInitSpec c alloc_ok r c') : BlacklistStale c' := by
  rcases h with ⟨-, -, ⟨-, hinv'⟩ | ⟨-, -, rfl⟩⟩
  · exact hinv'.stale
  · exact hinv

/-- Building the table does not grow the size. -/
theorem TableInitSpec.size_le {alloc_ok : Bool} {r : Except blacklist_err Unit}
    (h : TableInitSpec c alloc_ok r c') : blacklist_size c' ≤ blacklist_size c := by
  rcases h with ⟨hsb, -, ⟨-, hinv'⟩ | ⟨-, -, rfl⟩⟩
  · rw [hinv'.size_eq, hsb]
    exact le_max_left _ _
  · exact le_refl _

/-- Adding a range grows the size by at most one. -/
theorem AddSpec.size_le {start «end» : UInt64} {grow_ok : Bool} {write_super : Int}
    {alloc_ok : Bool} {r : Except blacklist_err Unit}
    (h : AddSpec c start «end» grow_ok write_super alloc_ok r c') :
    blacklist_size c' ≤ blacklist_size c + 1 := by
  rcases h with ⟨-, -, rfl⟩ | ⟨-, hlen, -, ⟨-, -, -, hinv'⟩ | ⟨-, -, ht⟩ | ⟨-, -, -, ht⟩⟩
  · exact Nat.le_succ _
  · -- the table was built again from the new list
    rw [hinv'.size_eq]
    exact le_trans hlen (Nat.add_le_add_right (le_max_left _ _) 1)
  -- the write or the allocation failed: the old table stays
  · exact blacklist_size_le_of_table_eq hlen ht
  · exact blacklist_size_le_of_table_eq hlen ht

/-- A lookup keeps the superblock list, and the table holds the list it held. -/
theorem blacklist_is_blacklisted_run (hinv : BlacklistStale c) (seq : UInt64) (dirty : Bool)
    (hn : blacklist_size c < 2 ^ 30) :
    ∃ r c', (blacklist_op.is_blacklisted seq dirty).run c = some (r, c') ∧ BlacklistStale c' ∧
      (blacklist_op.is_blacklisted seq dirty).Spec c r c' ∧ blacklist_size c' ≤ blacklist_size c := by
  obtain ⟨L, hL, hvL, hsub⟩ := hinv.table
  cases ht : c.journal_seq_blacklist_table with
  | none =>
    -- no table: the answer is no, and nothing changes
    refine ⟨.ok (), c, by rw [blacklist_op.run, bch2_journal_seq_is_blacklisted, ht]; rfl, hinv,
      ⟨rfl, rfl, rfl, fun _ h => h⟩, le_refl _⟩
  | some t =>
    rw [ht] at hL
    have hL : TableInv t L := hL
    have hnr : L.length < 2 ^ 30 := by
      have : t.nr ≤ blacklist_size c := by
        unfold blacklist_size
        rw [ht]
        exact le_max_right _ _
      rw [← hL.nr_eq]
      omega
    obtain ⟨b, c', hrun, -, hsb, hold, t', ht', htab⟩ := is_blacklisted_table ht hL hvL hnr seq dirty
    refine ⟨.ok (), c', by rw [blacklist_op.run, hrun]; rfl,
      ⟨by rw [hsb]; exact hinv.valid, L, by rw [ht']; exact htab, hvL, by rw [hsb]; exact hsub⟩,
      ⟨rfl, hsb, hold, fun L' hL' => ?_⟩, ?_⟩
    · -- a table holds one list, the one it reads along the inorder
      rw [ht] at hL'
      have hL' : TableInv t L' := hL'
      rw [ht', ← hL'.inorder_eq, hL.inorder_eq]
      exact htab
    · unfold blacklist_size
      rw [hsb, ht', ht, Option.map_some, Option.map_some, Option.getD_some, Option.getD_some,
        htab.nr_eq, hL.nr_eq]

/-- One call, from a state of `BlacklistStale`, does what its spec says and leaves such a
state, with at most one more entry when it adds a range. -/
theorem blacklist_op_run_spec (hinv : BlacklistStale c) (op : blacklist_op) (hop : op.Allowed)
    (hn : blacklist_size c + 1 < 2 ^ 30) :
    ∃ r c', op.run c = some (r, c') ∧ BlacklistStale c' ∧ op.Spec c r c' ∧
      blacklist_size c' ≤ blacklist_size c + (if op.isAdd then 1 else 0) := by
  have hlen : (c.journal_seq_blacklist.getD []).length ≤ blacklist_size c := le_max_left _ _
  -- each call by its own spec lemma
  cases op with
  | add start «end» grow_ok write_super alloc_ok =>
    obtain ⟨r, c', hrun, hstale, hspec⟩ := hinv.add hop (by omega) grow_ok write_super alloc_ok
    exact ⟨r, c', hrun, hstale, hspec, hspec.size_le⟩
  | is_blacklisted seq dirty =>
    obtain ⟨r, c', hrun, hstale, hspec, hsize⟩ := blacklist_is_blacklisted_run hinv seq dirty (by omega)
    exact ⟨r, c', hrun, hstale, hspec, hsize⟩
  | table_init alloc_ok =>
    obtain ⟨r, c', hrun, hspec⟩ := hinv.table_init (by omega) alloc_ok
    exact ⟨r, c', hrun, hspec.stale hinv, hspec, hspec.size_le⟩

end Runs

/-- A whole run from a state of `BlacklistStale`, whatever its calls return, does at every
call what the call's spec says, through states of `BlacklistStale`. -/
theorem blacklist_run_spec :
    ∀ (ops : List blacklist_op) {c : bch_fs}, BlacklistStale c → (∀ op ∈ ops, op.Allowed) →
      blacklist_size c + ops.countP blacklist_op.isAdd + 1 < 2 ^ 30 →
      ∃ trace, blacklist_run c ops = some trace ∧ RunSpec c ops trace
  | [], _, _, _, _ => ⟨[], rfl, trivial⟩
  | op :: ops, c, hinv, hops, hn => by
    rw [List.countP_cons] at hn
    obtain ⟨r, c₁, hrun₁, hinv₁, hspec₁, hsize₁⟩ :=
      blacklist_op_run_spec hinv op (hops op List.mem_cons_self) (by omega)
    -- the rest of the run from the state the call left
    obtain ⟨trace, hrun, hspec⟩ := blacklist_run_spec ops hinv₁
      (fun op' hop' => hops op' (List.mem_cons_of_mem op hop')) (by omega)
    refine ⟨(r, c₁) :: trace, ?_, hinv₁, hspec₁, hspec⟩
    rw [blacklist_run, hrun₁, Option.bind_some, hrun, Option.map_some]

/-- A superblock read from disk, with two ranges that touch and a third, before its table is
built; the oldest sequence number found on disk is `6`. -/
def recovery_fs : bch_fs := ⟨some [⟨1, 3⟩, ⟨3, 5⟩, ⟨8, 9⟩], none, 6⟩

/-- The calls of a recovery: the table built; a lookup that marks the range it hits; a range
the superblock has no room for; a range merged into the third whose write fails; and the
table built again. -/
def recovery_ops : List blacklist_op :=
  [.table_init true, .is_blacklisted 4 true, .add 10 12 false 0 true,
    .add 9 10 false 5 true, .table_init true]

/-- The calls of the recovery, from the superblock read from disk, each do what their spec says. -/
theorem blacklist_run_spec_recovery :
    ∃ trace, blacklist_run recovery_fs recovery_ops = some trace ∧
      RunSpec recovery_fs recovery_ops trace :=
  blacklist_run_spec recovery_ops (blacklistStale_of_table_eq_none (by decide) rfl)
    (by simp [recovery_ops, blacklist_op.Allowed]) (by decide)

/-- The file system the recovery leaves. -/
def recovered_fs : bch_fs :=
  (((blacklist_run recovery_fs recovery_ops).bind List.getLast?).map Prod.snd).getD recovery_fs

/-- The recovery leaves `[1, 3) [3, 5) [8, 10)`. -/
theorem recovered_fs_sb :
    recovered_fs.journal_seq_blacklist = some [⟨1, 3⟩, ⟨3, 5⟩, ⟨8, 10⟩] := by
  decide

/-- and the table built from it, read along the inorder `2, 1, 3` of three nodes. -/
theorem blacklistInv_recovered_fs : BlacklistInv recovered_fs := by
  have hinorder : inorder 3 1 = [2, 1, 3] := by
    simp [inorder_of_le, inorder_of_lt]
  have htable : recovered_fs.journal_seq_blacklist_table.map
      (fun t => (t.nr, [2, 1, 3].map fun x => toEntry (t.entries (x - 1)))) =
        some (3, [⟨1, 3⟩, ⟨3, 5⟩, ⟨8, 10⟩]) := by
    decide
  -- the list is valid, and the table reads it back
  refine ⟨by rw [recovered_fs_sb]; decide, ?_⟩
  cases ht : recovered_fs.journal_seq_blacklist_table with
  | none =>
    rw [ht] at htable
    cases htable
  | some t =>
    rw [ht, Option.map_some, Option.some.injEq, Prod.mk.injEq] at htable
    rw [recovered_fs_sb]
    exact ⟨htable.1, by rw [htable.1, hinorder]; exact htable.2⟩

/-! ### The lookups on a state of the invariant -/

section Lookups

variable {c : bch_fs} (hinv : BlacklistInv c)
include hinv

/-- From a state of the invariant, `bch2_journal_seq_is_blacklisted` answers whether `seq` is in a
range of the superblock list and leaves a state of the invariant. -/
theorem bch2_journal_seq_is_blacklisted_spec
    (hn : (c.journal_seq_blacklist.getD []).length < 2 ^ 30) (seq : UInt64) (dirty : Bool) :
    ∃ b c', bch2_journal_seq_is_blacklisted c seq dirty = some (b, c') ∧
      (b = true ↔ Blacklisted (c.journal_seq_blacklist.getD []) seq.toNat) ∧
      c'.journal_seq_blacklist = c.journal_seq_blacklist ∧ BlacklistInv c' := by
  cases ht : c.journal_seq_blacklist_table with
  -- no table: the list is empty, and the answer is no
  | none =>
    refine ⟨false, c, by rw [bch2_journal_seq_is_blacklisted, ht], ?_, rfl, hinv⟩
    rw [hinv.getD_eq_nil ht]
    simp [Blacklisted]
  | some t =>
    obtain ⟨b, c', hrun, hb, hsb, -, t', ht', htab⟩ :=
      is_blacklisted_table ht (hinv.tableInv ht) hinv.valid hn seq dirty
    refine ⟨b, c', hrun, hb, hsb, ⟨by rw [hsb]; exact hinv.valid, ?_⟩⟩
    rw [ht', hsb]
    exact htab

omit hinv in
/-- `4` lies in `[3, 5)`: the search finds it and marks it dirty. -/
theorem bch2_journal_seq_is_blacklisted_spec_recovered :
    ∃ b c', bch2_journal_seq_is_blacklisted recovered_fs 4 true = some (b, c') ∧
      (b = true ↔ Blacklisted (recovered_fs.journal_seq_blacklist.getD []) (4 : UInt64).toNat) ∧
      c'.journal_seq_blacklist = recovered_fs.journal_seq_blacklist ∧ BlacklistInv c' :=
  bch2_journal_seq_is_blacklisted_spec blacklistInv_recovered_fs
    (by rw [recovered_fs_sb]; decide) 4 true

/-- From a state of the invariant, `bch2_journal_seq_next_blacklisted` returns the least blacklisted
number from `seq` on, or `U64_MAX` when there is none. -/
theorem bch2_journal_seq_next_blacklisted_spec
    (hn : (c.journal_seq_blacklist.getD []).length < 2 ^ 30 - 1) (seq : UInt64) :
    ∃ r, bch2_journal_seq_next_blacklisted c seq = some r ∧
      (IsLeast {y | Blacklisted (c.journal_seq_blacklist.getD []) y ∧ seq.toNat ≤ y} r.toNat ∨
        r = U64_MAX ∧ ∀ y, seq.toNat ≤ y → ¬ Blacklisted (c.journal_seq_blacklist.getD []) y) := by
  cases ht : c.journal_seq_blacklist_table with
  -- no table: nothing is blacklisted, and the answer is `U64_MAX`
  | none =>
    refine ⟨U64_MAX, by rw [bch2_journal_seq_next_blacklisted, ht], Or.inr ⟨rfl, fun y _ => ?_⟩⟩
    rw [hinv.getD_eq_nil ht]
    simp [Blacklisted]
  | some t => exact next_blacklisted_table ht (hinv.tableInv ht) hinv.valid hn seq

omit hinv in
/-- From `5`, past the two ranges that touch, the next blacklisted number is `8`. -/
theorem bch2_journal_seq_next_blacklisted_spec_recovered :
    ∃ r, bch2_journal_seq_next_blacklisted recovered_fs 5 = some r ∧
      (IsLeast {y | Blacklisted (recovered_fs.journal_seq_blacklist.getD []) y ∧
          (5 : UInt64).toNat ≤ y} r.toNat ∨
        r = U64_MAX ∧ ∀ y, (5 : UInt64).toNat ≤ y →
          ¬ Blacklisted (recovered_fs.journal_seq_blacklist.getD []) y) :=
  bch2_journal_seq_next_blacklisted_spec blacklistInv_recovered_fs
    (by rw [recovered_fs_sb]; decide) 5

/-- From a state of the invariant, `bch2_journal_seq_next_nonblacklisted` returns the least number
from `seq` on that is not blacklisted. -/
theorem bch2_journal_seq_next_nonblacklisted_spec
    (hn : (c.journal_seq_blacklist.getD []).length < 2 ^ 30) (seq : UInt64) :
    ∃ r, bch2_journal_seq_next_nonblacklisted c seq = some r ∧
      IsLeast {y | ¬ Blacklisted (c.journal_seq_blacklist.getD []) y ∧ seq.toNat ≤ y} r.toNat := by
  cases ht : c.journal_seq_blacklist_table with
  -- no table: `seq` itself is not blacklisted
  | none =>
    refine ⟨seq, by rw [bch2_journal_seq_next_nonblacklisted, ht], ⟨⟨?_, le_refl _⟩,
      fun y hy => hy.2⟩⟩
    rw [hinv.getD_eq_nil ht]
    simp [Blacklisted]
  | some t =>
    unfold bch2_journal_seq_next_nonblacklisted
    rw [ht]
    -- `2 ^ 64` rounds of fuel, more than `seq` can climb
    exact next_nonblacklisted_loop_spec (hinv.tableInv ht) hinv.valid hn _ seq (by omega)

omit hinv in
/-- From `1` the loop hops from `[1, 3)` to `[3, 5)` and stops at `5`. -/
theorem bch2_journal_seq_next_nonblacklisted_spec_recovered :
    ∃ r, bch2_journal_seq_next_nonblacklisted recovered_fs 1 = some r ∧
      IsLeast {y | ¬ Blacklisted (recovered_fs.journal_seq_blacklist.getD []) y ∧
        (1 : UInt64).toNat ≤ y} r.toNat :=
  bch2_journal_seq_next_nonblacklisted_spec blacklistInv_recovered_fs
    (by rw [recovered_fs_sb]; decide) 1

/-- From a state of the invariant, `bch2_journal_last_blacklisted_seq` returns `0` when nothing is
blacklisted, and otherwise the greatest blacklisted number. -/
theorem bch2_journal_last_blacklisted_seq_spec
    (hn : (c.journal_seq_blacklist.getD []).length + 1 < 2 ^ 31) :
    (∀ y, ¬ Blacklisted (c.journal_seq_blacklist.getD []) y) ∧
        bch2_journal_last_blacklisted_seq c = 0 ∨
      IsGreatest {y | Blacklisted (c.journal_seq_blacklist.getD []) y}
        (bch2_journal_last_blacklisted_seq c).toNat := by
  cases ht : c.journal_seq_blacklist_table with
  -- no table: the list is empty
  | none =>
    refine Or.inl ⟨fun y => ?_, by rw [bch2_journal_last_blacklisted_seq, ht]⟩
    rw [hinv.getD_eq_nil ht]
    simp [Blacklisted]
  | some t =>
    rcases last_blacklisted_table ht (hinv.tableInv ht) hinv.valid hn with ⟨hnil, hzero⟩ | hmax
    · refine Or.inl ⟨fun y => ?_, hzero⟩
      rw [hnil]
      simp [Blacklisted]
    · exact Or.inr hmax

omit hinv in
/-- After the recovery the last blacklisted number is `9`, in `[8, 10)`. -/
theorem bch2_journal_last_blacklisted_seq_spec_recovered :
    (∀ y, ¬ Blacklisted (recovered_fs.journal_seq_blacklist.getD []) y) ∧
        bch2_journal_last_blacklisted_seq recovered_fs = 0 ∨
      IsGreatest {y | Blacklisted (recovered_fs.journal_seq_blacklist.getD []) y}
        (bch2_journal_last_blacklisted_seq recovered_fs).toNat :=
  bch2_journal_last_blacklisted_seq_spec blacklistInv_recovered_fs
    (by rw [recovered_fs_sb]; decide)

/-- `bch2_blacklist_entries_gc` finds the table in step with the list, and keeps a valid part
of it: the ranges that are dirty or reach `oldest_seq_found_ondisk`. -/
theorem bch2_blacklist_entries_gc_spec {bl : List journal_seq_blacklist_entry}
    (hsb : c.journal_seq_blacklist = some bl) (hn : bl.length + 1 < 2 ^ 31) :
    ∃ t, c.journal_seq_blacklist_table = some t ∧
      bch2_blacklist_entries_gc c =
        some (if (gcKept t c.oldest_seq_found_ondisk).length = bl.length then (false, c)
          else (true, { c with journal_seq_blacklist :=
                               (if gcKept t c.oldest_seq_found_ondisk = [] then none
                                else some (gcKept t c.oldest_seq_found_ondisk)) })) ∧
      (gcKept t c.oldest_seq_found_ondisk).Sublist bl ∧ Valid (gcKept t c.oldest_seq_found_ondisk) := by
  -- a list comes with a table
  obtain ⟨t, ht⟩ : ∃ t, c.journal_seq_blacklist_table = some t := by
    have h := hinv.table_ok
    cases ht : c.journal_seq_blacklist_table with
    | none =>
      rw [ht, hsb] at h
      cases h
    | some t => exact ⟨t, rfl⟩
  have htab := hinv.tableInv ht
  have hv := hinv.valid
  rw [hsb, Option.getD_some] at htab hv
  have hsub := gcKept_sublist htab c.oldest_seq_found_ondisk
  exact ⟨t, ht, blacklist_entries_gc_table hsb ht htab hn, hsub, hv.sublist hsub⟩

omit hinv in
/-- With `6` the oldest sequence number on disk, only `[8, 10)` reaches it. -/
theorem bch2_blacklist_entries_gc_spec_recovered :
    ∃ t, recovered_fs.journal_seq_blacklist_table = some t ∧
      bch2_blacklist_entries_gc recovered_fs =
        some (if (gcKept t recovered_fs.oldest_seq_found_ondisk).length = ([⟨1, 3⟩, ⟨3, 5⟩, ⟨8, 10⟩] : List journal_seq_blacklist_entry).length
          then (false, recovered_fs)
          else (true, { recovered_fs with journal_seq_blacklist :=
                               (if gcKept t recovered_fs.oldest_seq_found_ondisk = [] then none
                                else some (gcKept t recovered_fs.oldest_seq_found_ondisk)) })) ∧
      (gcKept t recovered_fs.oldest_seq_found_ondisk).Sublist ([⟨1, 3⟩, ⟨3, 5⟩, ⟨8, 10⟩] : List journal_seq_blacklist_entry) ∧
      Valid (gcKept t recovered_fs.oldest_seq_found_ondisk) :=
  bch2_blacklist_entries_gc_spec blacklistInv_recovered_fs recovered_fs_sb (by decide)

end Lookups

end Bcachefs.Proofs.Journal
