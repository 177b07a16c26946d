import Bcachefs.Btree.JournalKeys

/-!
# The journal keys' order breaks down between two rewinds

`journal_sort_key_cmp` is not transitive. At one position it orders keys by their place in the journal, and the other way round only when
both keys are rewound; a key of an entry between two rewind ranges is after the rewound key
of the first range and before that of the second, while those two compare the other way.

`journal_keys_sort_drops_update_between_rewinds` runs `bch2_journal_keys_sort` on three
entries that update one position, at sequence numbers 15, 25 and 35, with the ranges
`(10, 20]` and `(30, 40]` rewound. The keys compare in a cycle, and the sort keeps the key of
entry 15 alone: the deletion its overwrite entry recorded, the value from before entry 15.
Replay then deletes the key that entry 25, which no rewind undoes, had written.
-/

set_option autoImplicit false
set_option linter.style.nameCheck false

namespace Bcachefs.Proofs.Btree

open Bcachefs

/-! ### Three entries, two rewinds -/

/-- A key at the position every entry of the failing input updates. -/
def rewind_pos_key (type : UInt8) (v : UInt64) : bkey_i :=
  { k := { u64s := 3, format := 0, needs_whiteout := false, type, pad := 0,
           bversion := ⟨0, 0⟩, size := 0, p := ⟨1, 0, 0⟩ }
    v := [v] }

/-- Two rewinds: back to 10 from 20, and later back to 30 from 40. -/
def two_rewinds : List journal_rewind_range := [⟨20, 10⟩, ⟨40, 30⟩]

/-- Entries 15, 25 and 35, each overwriting the key at the position (type 3,
`KEY_TYPE_cookie`) and recording the value it overwrote; before entry 15 there was none. -/
def two_rewinds_journal : List journal_replay :=
  [⟨15, false, true, [⟨BCH_JSET_ENTRY_overwrite, 0, 0, [(rewind_pos_key KEY_TYPE_deleted 0, 2)]⟩,
                      ⟨BCH_JSET_ENTRY_btree_keys, 0, 0, [(rewind_pos_key 3 1, 6)]⟩]⟩,
   ⟨25, false, true, [⟨BCH_JSET_ENTRY_overwrite, 0, 0, [(rewind_pos_key 3 1, 2)]⟩,
                      ⟨BCH_JSET_ENTRY_btree_keys, 0, 0, [(rewind_pos_key 3 2, 6)]⟩]⟩,
   ⟨35, false, true, [⟨BCH_JSET_ENTRY_overwrite, 0, 0, [(rewind_pos_key 3 2, 2)]⟩,
                      ⟨BCH_JSET_ENTRY_btree_keys, 0, 0, [(rewind_pos_key 3 3, 6)]⟩]⟩]

/-- The key of entry 15, rewound: the value before it, no key. -/
def rewound_key_15 : journal_key := ⟨15, 2, 0, 0, false, true, rewind_pos_key KEY_TYPE_deleted 0⟩

/-- The key of entry 25, not rewound: the value it wrote. -/
def key_25 : journal_key := ⟨25, 6, 0, 0, false, false, rewind_pos_key 3 2⟩

/-- The key of entry 35, rewound: the value before it, which entry 25 wrote. -/
def rewound_key_35 : journal_key := ⟨35, 2, 0, 0, false, true, rewind_pos_key 3 2⟩

/-- Three updates of one position, the first and the last rewound: the sort keeps only the first, a
deletion, and drops the update of entry 25 that lies between them. -/
theorem journal_keys_sort_drops_update_between_rewinds :
    two_rewinds_journal.map (journal_replay_keys two_rewinds 0 0) =
        [some [rewound_key_15], some [key_25], some [rewound_key_35]] ∧
      journal_sort_key_cmp rewound_key_15 key_25 < 0 ∧
      journal_sort_key_cmp key_25 rewound_key_35 < 0 ∧
      0 < journal_sort_key_cmp rewound_key_15 rewound_key_35 ∧
      bch2_journal_keys_sort two_rewinds 0 0 two_rewinds_journal [] = some [rewound_key_15] ∧
      (journal_key_k rewound_key_15).k.type = KEY_TYPE_deleted :=
  ⟨by decide, by decide, by decide, by decide, by decide, rfl⟩

end Bcachefs.Proofs.Btree
