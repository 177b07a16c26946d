import Bcachefs.Btree.FormatState
import Bcachefs.Proofs.Btree.FastPack

/-!
# `Bcachefs.Proofs.Btree.FormatDone`: the format built from a set of keys holds them

A caller that builds a format runs `bch2_bkey_format_init`, adds keys and positions, and
calls `bch2_bkey_format_done`. `bch2_bkey_format_done_packs` shows the result is a format
`bch2_bkey_format_invalid` accepts, in which every key added packs and every position
added packs exactly.

* The state records one range per field. `opCovered_foldl` is its run lemma: after any
  sequence of calls, each value a call added lies in its field's range (`Covers`).
* `set_format_field` caps the width at the member's and moves the offset down far
  enough for the field's range to fit the member. `fieldFits_set_format_field`: a value
  that fit the width and offset asked for still fits what the call writes.
* `FieldDone` says a field passes the overflow check and takes in its whole range. The
  first loop of `bch2_bkey_format_done` makes every field done (`format_done_fields_spec`),
  and the rounding loop keeps them done, because it only widens fields, and within the
  spare bits of the last word (`format_round_fields_spec`). That bound is what keeps
  `key_u64s` right after the rounding.
-/

set_option autoImplicit false
set_option linter.style.nameCheck false

namespace Bcachefs.Proofs.Btree

open Bcachefs.Bits Bcachefs.Data

/-! ## The ranges of the state -/

/-- `v` lies in the range the state records for field `i`. -/
def Covers (s : bkey_format_state) (i : Fin 6) (v : UInt64) : Prop :=
  s.field_min.get i ≤ v ∧ v ≤ s.field_max.get i

/-- Adding a value to a field covers it. -/
theorem covers___bkey_format_add_self (s : bkey_format_state) (i : Fin 6) (v : UInt64) :
    Covers (__bkey_format_add s i v) i v := by
  unfold Covers __bkey_format_add
  dsimp only
  rw [get_set_self, get_set_self, UInt64.le_iff_toNat_le,
    UInt64.le_iff_toNat_le, UInt64.toNat_min, UInt64.toNat_max]
  omega

/-- Adding a value only widens the ranges: what was covered stays covered. -/
theorem covers___bkey_format_add {s : bkey_format_state} {j : Fin 6} {w : UInt64}
    (h : Covers s j w) (i : Fin 6) (v : UInt64) : Covers (__bkey_format_add s i v) j w := by
  unfold Covers __bkey_format_add at *
  dsimp only
  -- the field added to widens its range; every other range is untouched
  by_cases hij : i = j
  · subst hij
    rw [get_set_self, get_set_self, UInt64.le_iff_toNat_le,
      UInt64.le_iff_toNat_le, UInt64.toNat_min, UInt64.toNat_max]
    rw [UInt64.le_iff_toNat_le, UInt64.le_iff_toNat_le] at h
    omega
  · rw [get_set_ne _ _ hij, get_set_ne _ _ hij]
    exact h

/-- A run of adds, one value per field of `ids`: it keeps what was covered and covers
each value it adds. -/
theorem covers_foldl___bkey_format_add (g : Fin 6 → UInt64) :
    ∀ (ids : List (Fin 6)) (s : bkey_format_state),
      (∀ j w, Covers s j w →
        Covers (ids.foldl (fun s id => __bkey_format_add s id (g id)) s) j w) ∧
      ∀ i ∈ ids, Covers (ids.foldl (fun s id => __bkey_format_add s id (g id)) s) i (g i) := by
  intro ids
  -- induction on the fields, with the state free: the tail's run starts after the head's add
  induction ids with
  | nil => exact fun s => ⟨fun _ _ h => h, fun _ hi => absurd hi List.not_mem_nil⟩
  | cons id ids ih =>
      intro s
      obtain ⟨hkeep, hown⟩ := ih (__bkey_format_add s id (g id))
      refine ⟨fun j w h => hkeep j w (covers___bkey_format_add h _ _), fun i hi => ?_⟩
      rcases List.mem_cons.mp hi with rfl | hi
      · exact hkeep _ _ (covers___bkey_format_add_self _ _ _)
      · exact hown i hi

/-- The values one call adds: the six fields of a key, or the three of a position. -/
def OpCovered (s : bkey_format_state) : format_add → Prop
  | .key k => ∀ i, Covers s i (bkey_field k i)
  | .pos p => Covers s BKEY_FIELD_INODE p.inode ∧ Covers s BKEY_FIELD_OFFSET p.offset ∧
      Covers s BKEY_FIELD_SNAPSHOT p.snapshot.toUInt64

/-- One call keeps what was covered. -/
theorem covers_format_add_apply {s : bkey_format_state} {j : Fin 6} {w : UInt64}
    (h : Covers s j w) (op : format_add) : Covers (format_add_apply s op) j w := by
  cases op with
  | key k => exact (covers_foldl___bkey_format_add (bkey_field k) bkey_fields s).1 j w h
  | pos p =>
      exact covers___bkey_format_add (covers___bkey_format_add
        (covers___bkey_format_add h _ _) _ _) _ _

/-- One call covers the values it adds. -/
theorem opCovered_format_add_apply (s : bkey_format_state) (op : format_add) :
    OpCovered (format_add_apply s op) op := by
  cases op with
  | key k =>
      exact fun i => (covers_foldl___bkey_format_add (bkey_field k) bkey_fields s).2 i
        (mem_bkey_fields i)
  | pos p =>
      refine ⟨?_, ?_, covers___bkey_format_add_self _ _ _⟩
      · exact covers___bkey_format_add (covers___bkey_format_add
          (covers___bkey_format_add_self _ _ _) _ _) _ _
      · exact covers___bkey_format_add (covers___bkey_format_add_self _ _ _) _ _

/-- What a call covered stays covered when the ranges widen. -/
theorem opCovered_mono {s s' : bkey_format_state}
    (hmono : ∀ j w, Covers s j w → Covers s' j w) :
    ∀ op, OpCovered s op → OpCovered s' op
  | .key _, h => fun i => hmono _ _ (h i)
  | .pos _, h => ⟨hmono _ _ h.1, hmono _ _ h.2.1, hmono _ _ h.2.2⟩

/-- The run lemma of the state: after any sequence of calls, the state covers every
value any of them added. -/
theorem opCovered_foldl :
    ∀ (ops : List format_add) (s : bkey_format_state),
      (∀ j w, Covers s j w → Covers (ops.foldl format_add_apply s) j w) ∧
      ∀ op ∈ ops, OpCovered (ops.foldl format_add_apply s) op := by
  intro ops
  -- induction on the calls, with the state free; a call's values stay covered by monotonicity
  induction ops with
  | nil => exact fun s => ⟨fun _ _ h => h, fun _ hop => absurd hop List.not_mem_nil⟩
  | cons op ops ih =>
      intro s
      obtain ⟨hkeep, hown⟩ := ih (format_add_apply s op)
      refine ⟨fun j w h => hkeep j w (covers_format_add_apply h op), fun op' hop' => ?_⟩
      rcases List.mem_cons.mp hop' with rfl | hop'
      · exact opCovered_mono hkeep _ (opCovered_format_add_apply s _)
      · exact hown op' hop'

/-! ## The overflow check -/

/-- A field no wider than its member, with no offset at the member's width, and whose
offset plus its range fits the member, passes `bch2_bkey_format_field_overflows`: the
converse of `FormatValid.offset_add_le`. -/
theorem bch2_bkey_format_field_overflows_eq_false (f : bkey_format) (i : Fin 6)
    (hb : (f.bits_per_field.get i).toNat ≤ (bch2_bkey_format_current.bits_per_field.get i).toNat)
    (hfull : (f.bits_per_field.get i).toNat = (bch2_bkey_format_current.bits_per_field.get i).toNat →
      f.field_offset.get i = 0)
    (hoff : (f.field_offset.get i).toNat + 2 ^ (f.bits_per_field.get i).toNat ≤
      2 ^ (bch2_bkey_format_current.bits_per_field.get i).toNat) :
    bch2_bkey_format_field_overflows f i = false := by
  have hcur := bits_current_le i
  have hpos := bits_current_pos i
  have hcur64 : 2 ^ (bch2_bkey_format_current.bits_per_field.get i).toNat ≤ 2 ^ 64 :=
    Nat.pow_le_pow_right (by norm_num) hcur
  unfold bch2_bkey_format_field_overflows
  dsimp only
  rw [if_neg (by omega), if_neg (fun h => h.2 (hfull h.1)), decide_eq_false_iff_not,
    UInt64.lt_iff_toNat_lt, UInt64.toNat_and, toNat_mask_of_bits hpos hcur,
    Nat.and_two_pow_sub_one_eq_mod, UInt64.toNat_add, toNat_f_mask (by omega),
    Nat.mod_mod_of_dvd _ (pow_dvd_pow 2 hcur)]
  -- the offset plus the field's mask stays below the member's width: nothing wraps
  have := Nat.one_le_two_pow (n := (f.bits_per_field.get i).toNat)
  rw [Nat.mod_eq_of_lt (by omega)]
  omega

/-! ## `set_format_field` -/

section SetFormatField

variable (f : bkey_format) (i : Fin 6) (b : Nat) (o : UInt64)

/-- `set_format_field` leaves the key's word count alone. -/
@[simp] theorem set_format_field_key_u64s : (set_format_field f i b o).key_u64s = f.key_u64s :=
  rfl

/-- `set_format_field` leaves the field count alone. -/
@[simp] theorem set_format_field_nr_fields : (set_format_field f i b o).nr_fields = f.nr_fields :=
  rfl

/-- `set_format_field` leaves the width of every other field alone. -/
theorem set_format_field_bits_ne {j : Fin 6} (hij : i ≠ j) :
    (set_format_field f i b o).bits_per_field.get j = f.bits_per_field.get j :=
  get_set_ne _ _ hij

/-- `set_format_field` leaves the offset of every other field alone. -/
theorem set_format_field_offset_ne {j : Fin 6} (hij : i ≠ j) :
    (set_format_field f i b o).field_offset.get j = f.field_offset.get j :=
  get_set_ne _ _ hij

/-- The width `set_format_field` gives: capped at the member's. -/
theorem toNat_set_format_field_bits :
    ((set_format_field f i b o).bits_per_field.get i).toNat =
      min b (bch2_bkey_format_current.bits_per_field.get i).toNat := by
  have hcur := bits_current_le i
  -- the width written is `min(bits, unpacked_bits)`, which fits a byte
  show ((f.bits_per_field.set i _ (bkey_field_lt i)).get i).toNat = _
  rw [get_set_self, Nat.toUInt8, UInt8.toNat_ofNat', Nat.mod_eq_of_lt (by omega)]

/-- The offset `set_format_field` gives: none at the member's width, and otherwise at
most `2 ^ unpacked_bits - 2 ^ bits`, so that the field's range fits the member. -/
theorem toNat_set_format_field_offset :
    ((set_format_field f i b o).field_offset.get i).toNat =
      if b < (bch2_bkey_format_current.bits_per_field.get i).toNat then
        min o.toNat (2 ^ (bch2_bkey_format_current.bits_per_field.get i).toNat - 2 ^ b)
      else 0 := by
  have hcur := bits_current_le i
  have hpos := bits_current_pos i
  show ((f.field_offset.set i _ (bkey_field_lt i)).get i).toNat = _
  rw [get_set_self]
  by_cases hb : b < (bch2_bkey_format_current.bits_per_field.get i).toNat
  · have hmin : min b (bch2_bkey_format_current.bits_per_field.get i).toNat ≠
        (bch2_bkey_format_current.bits_per_field.get i).toNat := by omega
    rw [if_neg hmin, if_pos hb, Nat.min_eq_left hb.le]
    have hpow : 2 ^ b ≤ 2 ^ (bch2_bkey_format_current.bits_per_field.get i).toNat :=
      Nat.pow_le_pow_right (by norm_num) hb.le
    have hone : ((1 : UInt64) <<< b.toUInt64).toNat = 2 ^ b := by
      rw [toNat_shiftLeft_of_lt _ (by omega), UInt64.toNat_one, Nat.one_mul,
        Nat.mod_eq_of_lt (Nat.pow_lt_pow_right (by norm_num) (by omega))]
    have hone_le : (1 : UInt64) ≤ 1 <<< b.toUInt64 := by
      rw [UInt64.le_iff_toNat_le, hone, UInt64.toNat_one]
      exact Nat.one_le_two_pow
    have hb1 : ((1 : UInt64) <<< b.toUInt64 - 1).toNat = 2 ^ b - 1 := by
      rw [UInt64.toNat_sub_of_le _ _ hone_le, hone, UInt64.toNat_one]
    have hle : (1 : UInt64) <<< b.toUInt64 - 1 ≤
        mask_of_bits (bch2_bkey_format_current.bits_per_field.get i).toNat := by
      rw [UInt64.le_iff_toNat_le, hb1, toNat_mask_of_bits hpos hcur]
      omega
    rw [UInt64.toNat_min, UInt64.toNat_sub_of_le _ _ hle, hb1, toNat_mask_of_bits hpos hcur]
    congr 1
    have := Nat.one_le_two_pow (n := b)
    omega
  · rw [if_pos (by omega), if_neg hb]
    rfl

/-- The field `set_format_field` writes passes the overflow check. -/
theorem set_format_field_overflows :
    bch2_bkey_format_field_overflows (set_format_field f i b o) i = false :=
  bch2_bkey_format_field_overflows_eq_false _ i
    -- the three conditions of `bch2_bkey_format_field_overflows_eq_false`, in order
    (by rw [toNat_set_format_field_bits]; omega)
    (fun hfull => by
      rw [toNat_set_format_field_bits] at hfull
      rw [← UInt64.toNat_inj, toNat_set_format_field_offset, if_neg (by omega)]
      rfl)
    (by
      rw [toNat_set_format_field_offset, toNat_set_format_field_bits]
      split_ifs with hb
      · rw [Nat.min_eq_left hb.le]
        have := Nat.pow_le_pow_right (n := 2) (by norm_num) hb.le
        omega
      · rw [Nat.min_eq_right (by omega)]
        omega)

/-- A value of the member's width that fits the field before the call (when the call
leaves the field narrower than the member) fits the field `set_format_field` writes. -/
theorem fieldFits_set_format_field {v : UInt64}
    (hv : v.toNat < 2 ^ (bch2_bkey_format_current.bits_per_field.get i).toNat)
    (hpre : b < (bch2_bkey_format_current.bits_per_field.get i).toNat →
      o ≤ v ∧ (v - o).toNat < 2 ^ b) :
    FieldFits (set_format_field f i b o) v i := by
  have hoff := toNat_set_format_field_offset f i b o
  unfold FieldFits
  rw [toNat_set_format_field_bits]
  by_cases hb : b < (bch2_bkey_format_current.bits_per_field.get i).toNat
  · -- the offset may have moved down, but no further than the top of the member allows
    obtain ⟨hov, hdiff⟩ := hpre hb
    rw [if_pos hb] at hoff
    rw [UInt64.le_iff_toNat_le] at hov
    rw [UInt64.toNat_sub_of_le _ _ hov] at hdiff
    have hle : (set_format_field f i b o).field_offset.get i ≤ v := by
      rw [UInt64.le_iff_toNat_le, hoff]
      omega
    refine ⟨hle, ?_⟩
    have hpow := Nat.pow_le_pow_right (n := 2) (by norm_num) hb.le
    rw [UInt64.toNat_sub_of_le _ _ hle, hoff, Nat.min_eq_left hb.le]
    omega
  · -- a field as wide as its member: no offset, and every value of the member fits
    rw [if_neg hb] at hoff
    have hle : (set_format_field f i b o).field_offset.get i ≤ v := by
      rw [UInt64.le_iff_toNat_le, hoff]
      omega
    refine ⟨hle, ?_⟩
    rw [UInt64.toNat_sub_of_le _ _ hle, hoff, Nat.min_eq_right (by omega)]
    omega

end SetFormatField

/-! ## The loops of `bch2_bkey_format_done` -/

/-- Field `i` of `f` is finished for the ranges of `s`: it passes the overflow check,
and every value of the member's width in its range fits it. -/
def FieldDone (s : bkey_format_state) (f : bkey_format) (i : Fin 6) : Prop :=
  bch2_bkey_format_field_overflows f i = false ∧
    ∀ v, Covers s i v → v.toNat < 2 ^ (bch2_bkey_format_current.bits_per_field.get i).toNat →
      FieldFits f v i

/-- Whether a field is finished depends on its own width and offset only. -/
theorem fieldDone_congr {s : bkey_format_state} {f f' : bkey_format} {i : Fin 6}
    (hb : f'.bits_per_field.get i = f.bits_per_field.get i)
    (ho : f'.field_offset.get i = f.field_offset.get i) (h : FieldDone s f i) :
    FieldDone s f' i := by
  unfold FieldDone FieldFits bch2_bkey_format_field_overflows at *
  rw [hb, ho]
  exact h

/-- The first loop gives each field of `is` the width of its range and its minimum as
offset: afterwards each of them is finished, the others are as they were, and the
result adds up their widths. -/
theorem format_done_fields_spec (s : bkey_format_state) :
    ∀ (is : List (Fin 6)) (bits : Nat) (ret : bkey_format), is.Nodup →
      (format_done_fields s is bits ret).1 =
          bits + (is.map fun i => ((format_done_fields s is bits ret).2.bits_per_field.get i).toNat).sum ∧
        (∀ i ∈ is, FieldDone s (format_done_fields s is bits ret).2 i) ∧
        (∀ j, j ∉ is → (format_done_fields s is bits ret).2.bits_per_field.get j =
            ret.bits_per_field.get j ∧
          (format_done_fields s is bits ret).2.field_offset.get j = ret.field_offset.get j) ∧
        (format_done_fields s is bits ret).2.key_u64s = ret.key_u64s ∧
        (format_done_fields s is bits ret).2.nr_fields = ret.nr_fields := by
  intro is
  induction is with
  | nil => intro bits ret _; simp [format_done_fields]
  | cons i is ih =>
      intro bits ret hnd
      obtain ⟨hi, hnd'⟩ := List.nodup_cons.mp hnd
      set ret₁ := set_format_field ret i (fls64 (s.field_max.get i - min (s.field_min.get i) (s.field_max.get i)))
        (min (s.field_min.get i) (s.field_max.get i)) with hret₁
      obtain ⟨hsum, hdone, hframe, hkey, hnr⟩ :=
        ih (bits + (ret₁.bits_per_field.get i).toNat) ret₁ hnd'
      have hrun : format_done_fields s (i :: is) bits ret =
          format_done_fields s is (bits + (ret₁.bits_per_field.get i).toNat) ret₁ := rfl
      obtain ⟨hbi, hoi⟩ := hframe i hi
      -- the field this step writes is finished, and the rest of the loop leaves it alone
      have hdone₁ : FieldDone s ret₁ i := by
        refine ⟨set_format_field_overflows _ _ _ _, fun v hcov hv => ?_⟩
        apply fieldFits_set_format_field _ _ _ _ hv
        intro _
        obtain ⟨hmin, hmax⟩ := hcov
        rw [UInt64.le_iff_toNat_le] at hmin hmax ⊢
        have hm := UInt64.toNat_min (s.field_min.get i) (s.field_max.get i)
        have hrange := (fls64_le_iff (s.field_max.get i - min (s.field_min.get i) (s.field_max.get i)) _).mp
          le_rfl
        rw [UInt64.toNat_sub_of_le _ _ (by rw [UInt64.le_iff_toNat_le, hm]; omega), hm] at hrange
        refine ⟨by rw [hm]; omega, ?_⟩
        rw [UInt64.toNat_sub_of_le _ _ (by rw [UInt64.le_iff_toNat_le, hm]; omega), hm]
        omega
      rw [hrun]
      refine ⟨?_, ?_, ?_, by rw [hkey]; rfl, by rw [hnr]; rfl⟩
      · rw [hsum, List.map_cons, List.sum_cons, hbi]
        ring
      · intro j hj
        rcases List.mem_cons.mp hj with rfl | hj
        · exact fieldDone_congr hbi hoi hdone₁
        · exact hdone j hj
      · intro j hj
        have hij : i ≠ j := fun h => hj (h ▸ List.mem_cons_self)
        obtain ⟨hb, ho⟩ := hframe j (fun h => hj (List.mem_cons_of_mem _ h))
        exact ⟨hb.trans (set_format_field_bits_ne _ _ _ _ hij),
          ho.trans (set_format_field_offset_ne _ _ _ _ hij)⟩

/-- Changing one entry of a function changes the sum over a list without repeats that
holds the entry by the difference. -/
theorem sum_map_add_eq_of_ne {i : Fin 6} (g g' : Fin 6 → Nat) (h : ∀ j, j ≠ i → g' j = g j) :
    ∀ l : List (Fin 6), l.Nodup → i ∈ l → (l.map g').sum + g i = (l.map g).sum + g' i := by
  intro l
  induction l with
  | nil => intro _ hi; exact absurd hi List.not_mem_nil
  | cons a l ih =>
      intro hnd hi
      obtain ⟨ha, hnd'⟩ := List.nodup_cons.mp hnd
      simp only [List.map_cons, List.sum_cons]
      by_cases hai : a = i
      · -- the entry is at the head; the tail does not hold it
        subst hai
        have hrest : (l.map g').sum = (l.map g).sum :=
          congrArg List.sum (List.map_congr_left fun j hj => h j (fun h' => ha (h' ▸ hj)))
        rw [hrest]
        ring
      · rw [h a hai, Nat.add_assoc, ih hnd' ((List.mem_cons.mp hi).resolve_left (Ne.symm hai))]
        ring

/-- The width of a format after `set_format_field`. -/
theorem formatBits_set_format_field (f : bkey_format) (i : Fin 6) (b : Nat) (o : UInt64) :
    formatBits (set_format_field f i b o) + (f.bits_per_field.get i).toNat =
      formatBits f + min b (bch2_bkey_format_current.bits_per_field.get i).toNat := by
  rw [← toNat_set_format_field_bits f i b o]
  -- only field `i`'s width changes, and it is counted once
  exact sum_map_add_eq_of_ne (fun j => (f.bits_per_field.get j).toNat)
    (fun j => ((set_format_field f i b o).bits_per_field.get j).toNat)
    (fun j hj => by rw [set_format_field_bits_ne _ _ _ _ (Ne.symm hj)])
    bkey_fields (by decide) (mem_bkey_fields i)

/-- `round_up(b, 8)` for the widths a field can have. -/
theorem round_up_eight {b : Nat} (hb : b ≤ 64) : round_up b 8 = (b + 7) / 8 * 8 := by
  have h : ∀ x : Fin 65, round_up x 8 = (x + 7) / 8 * 8 := by decide
  exact h ⟨b, by omega⟩

/-- Every member of an unpacked key is a whole number of bytes. -/
theorem bits_current_mod_eight (i : Fin 6) :
    (bch2_bkey_format_current.bits_per_field.get i).toNat % 8 = 0 := by
  revert i; decide

/-- The second loop rounds fields up while the spare bits last: the fields stay
finished, and the format grows by at most the spare bits. -/
theorem format_round_fields_spec (s : bkey_format_state) :
    ∀ (is : List (Fin 6)) (spare : Nat) (ret : bkey_format), is.Nodup →
      (∀ i ∈ is, FieldDone s ret i) →
      (∀ i ∈ is, FieldDone s (format_round_fields is spare ret) i) ∧
        (∀ j, j ∉ is → (format_round_fields is spare ret).bits_per_field.get j =
            ret.bits_per_field.get j ∧
          (format_round_fields is spare ret).field_offset.get j = ret.field_offset.get j) ∧
        (format_round_fields is spare ret).key_u64s = ret.key_u64s ∧
        (format_round_fields is spare ret).nr_fields = ret.nr_fields ∧
        formatBits ret ≤ formatBits (format_round_fields is spare ret) ∧
        formatBits (format_round_fields is spare ret) ≤ formatBits ret + spare := by
  intro is
  induction is with
  | nil => intro spare ret _ _; simp [format_round_fields]
  | cons i is ih =>
      intro spare ret hnd hdone
      obtain ⟨hi, hnd'⟩ := List.nodup_cons.mp hnd
      have hdone_i := hdone i List.mem_cons_self
      have hdone_is : ∀ j ∈ is, FieldDone s ret j := fun j hj => hdone j (List.mem_cons_of_mem _ hj)
      have hb := bits_le_of_field_overflows hdone_i.1
      have hcur := bits_current_le i
      have hmod := bits_current_mod_eight i
      have hround := round_up_eight (b := (ret.bits_per_field.get i).toNat) (by omega)
      by_cases hr : round_up (ret.bits_per_field.get i).toNat 8 - (ret.bits_per_field.get i).toNat ≤ spare
      · -- the field is rounded up: it stays finished, and the format grows by `r`
        rw [format_round_fields, if_pos hr]
        generalize hr_def : round_up (ret.bits_per_field.get i).toNat 8 - (ret.bits_per_field.get i).toNat
          = r at hr
        have hdone₁ : FieldDone s (set_format_field ret i ((ret.bits_per_field.get i).toNat + r)
            (ret.field_offset.get i)) i := by
          refine ⟨set_format_field_overflows _ _ _ _, fun v hcov hv => ?_⟩
          obtain ⟨hov, hfit⟩ := hdone_i.2 v hcov hv
          apply fieldFits_set_format_field _ _ _ _ hv
          intro _
          exact ⟨hov, hfit.trans_le (Nat.pow_le_pow_right (by norm_num) (by omega))⟩
        have hdone₁' : ∀ j ∈ is, FieldDone s (set_format_field ret i
            ((ret.bits_per_field.get i).toNat + r) (ret.field_offset.get i)) j := fun j hj =>
          have hij : i ≠ j := fun h => hi (h ▸ hj)
          fieldDone_congr (set_format_field_bits_ne _ _ _ _ hij)
            (set_format_field_offset_ne _ _ _ _ hij) (hdone_is j hj)
        have hsum := formatBits_set_format_field ret i ((ret.bits_per_field.get i).toNat + r)
          (ret.field_offset.get i)
        rw [Nat.min_eq_left (by omega)] at hsum
        obtain ⟨hdone', hframe, hkey, hnr, hlo, hhi⟩ := ih (spare - r) _ hnd' hdone₁'
        obtain ⟨hbi, hoi⟩ := hframe i hi
        refine ⟨?_, ?_, by rw [hkey]; rfl, by rw [hnr]; rfl, by omega, by omega⟩
        · intro j hj
          rcases List.mem_cons.mp hj with rfl | hj
          · exact fieldDone_congr hbi hoi hdone₁
          · exact hdone' j hj
        · intro j hj
          have hij : i ≠ j := fun h => hj (h ▸ List.mem_cons_self)
          obtain ⟨hb', ho'⟩ := hframe j (fun h => hj (List.mem_cons_of_mem _ h))
          exact ⟨hb'.trans (set_format_field_bits_ne _ _ _ _ hij),
            ho'.trans (set_format_field_offset_ne _ _ _ _ hij)⟩
      · -- too few spare bits: the field stays as it is
        rw [format_round_fields, if_neg hr]
        obtain ⟨hdone', hframe, hkey, hnr, hlo, hhi⟩ := ih spare ret hnd' hdone_is
        refine ⟨?_, fun j hj => hframe j (fun h => hj (List.mem_cons_of_mem _ h)), hkey, hnr,
          hlo, hhi⟩
        intro j hj
        rcases List.mem_cons.mp hj with rfl | hj
        · obtain ⟨hbi, hoi⟩ := hframe j hi
          exact fieldDone_congr hbi hoi hdone_i
        · exact hdone' j hj

/-- Every field of a key fits its member. -/
theorem toNat_bkey_field_lt (k : bkey) (i : Fin 6) :
    (bkey_field k i).toNat < 2 ^ (bch2_bkey_format_current.bits_per_field.get i).toNat := by
  have h64 : ∀ x : UInt64, x.toNat < 2 ^ 64 := UInt64.toNat_lt
  have h32 : ∀ x : UInt32, x.toUInt64.toNat < 2 ^ 32 := fun x => by
    simpa using x.toNat_lt
  -- the three 64-bit members and the three 32-bit ones
  fin_cases i
  all_goals first | exact h64 _ | exact h32 _

/-- `bch2_bkey_format_done` returns a valid format, each field of which takes in every
value of its member's width in the state's range for it. -/
theorem bch2_bkey_format_done_spec (s : bkey_format_state) :
    FormatValid (bch2_bkey_format_done s) ∧ ∀ i, FieldDone s (bch2_bkey_format_done s) i := by
  -- the first loop: every field finished, and the widths added up after the header
  obtain ⟨hsum, hdone, -, -, hnr⟩ := format_done_fields_spec s (List.finRange 6)
    KEY_PACKED_BITS_START
    { key_u64s := 0, nr_fields := BKEY_NR_FIELDS.toUInt8, bits_per_field := Vector.replicate 6 0,
      field_offset := Vector.replicate 6 0 } (List.nodup_finRange 6)
  unfold bch2_bkey_format_done
  dsimp only
  generalize format_done_fields s (List.finRange 6) KEY_PACKED_BITS_START _ = r at hsum hdone hnr ⊢
  obtain ⟨bits, ret⟩ := r
  dsimp only at hsum hdone hnr ⊢
  have hbits : bits = KEY_PACKED_BITS_START + formatBits ret := by
    rw [hsum, formatBits, bkey_fields_eq_finRange]
  have hwidth : formatBits ret ≤ 288 := formatBits_le_of_bits_le ret fun i =>
    bits_le_of_field_overflows (hdone i (List.mem_finRange i)).1
  have hu64s : (DIV_ROUND_UP bits 64).toUInt8.toNat = DIV_ROUND_UP bits 64 := by
    rw [Nat.toUInt8, UInt8.toNat_ofNat', Nat.mod_eq_of_lt]
    rw [DIV_ROUND_UP, hbits, KEY_PACKED_BITS_START]
    omega
  -- the second loop keeps the fields finished and spends at most the spare bits
  obtain ⟨hdone', -, hkey, hnr', hlo, hhi⟩ := format_round_fields_spec s (List.finRange 6)
    ((DIV_ROUND_UP bits 64).toUInt8.toNat * 64 - bits)
    { ret with key_u64s := (DIV_ROUND_UP bits 64).toUInt8 } (List.nodup_finRange 6)
    (fun i _ => fieldDone_congr rfl rfl (hdone i (List.mem_finRange i)))
  have hret : formatBits { ret with key_u64s := (DIV_ROUND_UP bits 64).toUInt8 } =
    formatBits ret := rfl
  rw [hret] at hlo hhi
  generalize format_round_fields _ _ _ = F at hdone' hkey hnr' hlo hhi ⊢
  refine ⟨⟨?_, fun i => (hdone' i (List.mem_finRange i)).1, ?_⟩,
    fun i => hdone' i (List.mem_finRange i)⟩
  · rw [hnr', hnr]
    rfl
  · -- the rounding stays within the last word, so the word count does not change
    rw [hkey]
    show (DIV_ROUND_UP bits 64).toUInt8.toNat = _
    rw [hu64s] at hhi ⊢
    rw [DIV_ROUND_UP, DIV_ROUND_UP] at *
    rw [hbits, KEY_PACKED_BITS_START] at *
    omega

/-! ## Building a format -/

/-- Format construction covers its inputs: after any calls of `bch2_bkey_format_add_key`
and `bch2_bkey_format_add_pos` on a fresh state, `bch2_bkey_format_done` returns a format
that `bch2_bkey_format_invalid` accepts, in which every key added packs, and every
position added packs exactly on a node of that format. -/
theorem bch2_bkey_format_done_packs (ops : List format_add) (b : btree) (out : bkey_packed) :
    bch2_bkey_format_invalid (bch2_bkey_format_done (format_state_of ops)) = .ok () ∧
      (∀ k, format_add.key k ∈ ops →
        (bch2_bkey_pack_key out k (bch2_bkey_format_done (format_state_of ops))).1 = true) ∧
      (∀ p, format_add.pos p ∈ ops →
        (bch2_bkey_pack_pos out p
          (btree_node_set_format b (bch2_bkey_format_done (format_state_of ops)))).1 = true) := by
  obtain ⟨hvalid, hdone⟩ := bch2_bkey_format_done_spec (format_state_of ops)
  have hcov := (opCovered_foldl ops bch2_bkey_format_init).2
  refine ⟨(formatValid_iff _).mpr hvalid, fun k hk => ?_, fun p hp => ?_⟩
  · rw [bch2_bkey_pack_key_fst, pack_key_fields_fst_iff hvalid]
    exact fun id _ => (hdone id).2 _ (hcov _ hk id) (toNat_bkey_field_lt k id)
  · -- a position is the first three fields of a key
    obtain ⟨hI, hO, hS⟩ := hcov _ hp
    have hsnap : p.snapshot.toUInt64.toNat < 2 ^ 32 := by
      simpa using p.snapshot.toNat_lt
    rw [bch2_bkey_pack_pos_fst hvalid]
    exact ⟨(hdone _).2 _ hI (UInt64.toNat_lt _), (hdone _).2 _ hO (UInt64.toNat_lt _),
      (hdone _).2 _ hS hsnap⟩

end Bcachefs.Proofs.Btree
