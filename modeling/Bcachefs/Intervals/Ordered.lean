import Bcachefs.Intervals.Holes
import Mathlib.Order.Bounds.Defs
import Mathlib.Data.List.Perm.Basic

/-!
# `Bcachefs.Intervals.Ordered`: intervals in order, which may touch

A list of half-open intervals is `Ordered` when each ends at or before the next one starts,
so that two neighbours may touch but never overlap, and `Proper` when each is nonempty. On
such a list the starts and the ends both increase (`Ordered.starts_lt`, `Ordered.ends_lt`),
and a point is found by the intervals on either side of it:

* it is covered exactly when the last interval that starts at or before it ends after it
  (`covers_iff_lastStartLe`);
* the least covered point from `x` on is `x` or the start of the first interval that ends
  after `x` (`isLeast_firstEndGt`), and there is none when no interval ends after `x`
  (`not_covers_of_firstEndGt`);
* every covered point lies below the end of the last interval (`lt_getLast_of_covers`).

Two intervals that overlap or touch cover what the interval from the lesser start to the
greater end covers (`mem_min_max_iff`), which is how an interval is merged into a list.

Nothing here names the file system.
-/

set_option autoImplicit false

namespace Bcachefs.Intervals

variable {α : Type*} [LinearOrder α]

/-- Every interval starts before it ends. -/
def Proper (R : List (α × α)) : Prop := ∀ r ∈ R, r.1 < r.2

/-- Each interval ends at or before every later one starts. -/
def Ordered (R : List (α × α)) : Prop := R.Pairwise fun a b => a.2 ≤ b.1

instance (R : List (α × α)) : Decidable (Proper R) :=
  inferInstanceAs (Decidable (∀ r ∈ R, r.1 < r.2))

instance (R : List (α × α)) : Decidable (Ordered R) :=
  inferInstanceAs (Decidable (R.Pairwise fun a b => a.2 ≤ b.1))

/-- The empty list has no empty interval. -/
@[simp] theorem proper_nil : Proper ([] : List (α × α)) := by simp [Proper]

/-- A list is of nonempty intervals when its head and its tail are. -/
@[simp] theorem proper_cons (r : α × α) (R : List (α × α)) :
    Proper (r :: R) ↔ r.1 < r.2 ∧ Proper R := by
  simp [Proper]

/-- The empty list is in order. -/
@[simp] theorem ordered_nil : Ordered ([] : List (α × α)) := List.Pairwise.nil

/-- A list is in order when its head ends before every later interval starts, and its tail is in
order. -/
@[simp] theorem ordered_cons (r : α × α) (R : List (α × α)) :
    Ordered (r :: R) ↔ (∀ b ∈ R, r.2 ≤ b.1) ∧ Ordered R := List.pairwise_cons

/-- For nonempty intervals it is enough that each ends before its neighbour starts. -/
theorem ordered_cons_cons {a b : α × α} {R : List (α × α)} (hb : b.1 < b.2) :
    Ordered (a :: b :: R) ↔ a.2 ≤ b.1 ∧ Ordered (b :: R) := by
  rw [ordered_cons, List.forall_mem_cons]
  constructor
  · rintro ⟨⟨hab, -⟩, hbR⟩
    exact ⟨hab, hbR⟩
  · rintro ⟨hab, hbR⟩
    -- `a` ends before `b` starts, and `b`, being nonempty, ends before the rest starts
    refine ⟨⟨hab, fun c hc => ?_⟩, hbR⟩
    have hbc := ((ordered_cons b R).1 hbR).1 c hc
    exact le_trans hab (le_trans hb.le hbc)

/-- Some of a list's intervals are nonempty when all are. -/
theorem Proper.sublist {R S : List (α × α)} (h : Proper R) (hs : S.Sublist R) : Proper S :=
  fun r hr => h r (hs.subset hr)

/-- Some of a list's intervals, in their order, are in order. -/
theorem Ordered.sublist {R S : List (α × α)} (h : Ordered R) (hs : S.Sublist R) : Ordered S :=
  List.Pairwise.sublist hs h

section Order

variable {R : List (α × α)} (hP : Proper R) (hO : Ordered R)
include hP hO

/-- The starts increase. -/
theorem Ordered.starts_lt : R.Pairwise fun a b => a.1 < b.1 :=
  hO.imp_of_mem fun ha _ hab => lt_of_lt_of_le (hP _ ha) hab

/-- The ends increase. -/
theorem Ordered.ends_lt : R.Pairwise fun a b => a.2 < b.2 :=
  hO.imp_of_mem fun _ hb hab => lt_of_le_of_lt hab (hP _ hb)

end Order

/-! ### Finding a point -/

/-- The last interval that starts at or before `x`. -/
def lastStartLe (R : List (α × α)) (x : α) : Option (α × α) :=
  (R.filter fun r => decide (r.1 ≤ x)).getLast?

/-- The first interval that ends after `x`. -/
def firstEndGt (R : List (α × α)) (x : α) : Option (α × α) :=
  (R.filter fun r => decide (x < r.2)).head?

/-- The interval found is in the list and starts at or before `x`. -/
theorem mem_of_lastStartLe {R : List (α × α)} {x : α} {r : α × α}
    (h : lastStartLe R x = some r) : r ∈ R ∧ r.1 ≤ x := by
  have hr := List.mem_filter.1 (List.mem_of_getLast? h)
  exact ⟨hr.1, of_decide_eq_true hr.2⟩

/-- The points from `x` below the end of the last interval starting at or before `x` are
covered. -/
theorem covers_of_lastStartLe {R : List (α × α)} {x y : α} {r : α × α}
    (h : lastStartLe R x = some r) (hxy : x ≤ y) (hy : y < r.2) : covers R y :=
  ⟨r, (mem_of_lastStartLe h).1, le_trans (mem_of_lastStartLe h).2 hxy, hy⟩

/-- A point is covered exactly when the last interval that starts at or before it ends after
it. -/
theorem covers_iff_lastStartLe :
    ∀ {R : List (α × α)}, Proper R → Ordered R → ∀ x : α,
      (covers R x ↔ ∃ r, lastStartLe R x = some r ∧ x < r.2)
  | [], _, _, x => by simp [lastStartLe]
  | r :: R, hP, hO, x => by
    obtain ⟨hr, hP'⟩ := (proper_cons r R).1 hP
    obtain ⟨hrR, hO'⟩ := (ordered_cons r R).1 hO
    have ih := covers_iff_lastStartLe hP' hO' x
    unfold lastStartLe at ih ⊢
    rw [covers_cons]
    by_cases hrx : r.1 ≤ x
    · rw [List.filter_cons_of_pos (p := fun r : α × α => decide (r.1 ≤ x)) (decide_eq_true hrx),
        List.getLast?_cons]
      cases hF : (R.filter fun r => decide (r.1 ≤ x)).getLast? with
      | none =>
        -- no later interval starts at or before `x`: `r` is the one
        rw [hF] at ih
        have hnc : ¬ covers R x := by simpa using ih
        simp only [mem, hrx, true_and, hnc, or_false, Option.getD_none, Option.some.injEq,
          exists_eq_left']
      | some r' =>
        -- a later interval starts at or before `x`, and `r` ends before it does
        rw [hF] at ih
        have hr'x := mem_of_lastStartLe (R := R) hF
        have hmem : ¬ mem r x := fun hm => absurd (lt_of_lt_of_le hm.2 (hrR r' hr'x.1))
          (not_lt.2 hr'x.2)
        simp only [hmem, false_or, Option.getD_some]
        exact ih
    · -- `r` starts after `x`, and every later interval after `r`
      rw [List.filter_cons_of_neg (p := fun r : α × α => decide (r.1 ≤ x)) (by simpa using hrx)]
      have hnot : ∀ b ∈ R, x < b.1 := fun b hb =>
        lt_of_lt_of_le (not_le.1 hrx) (le_trans hr.le (hrR b hb))
      constructor
      · rintro (hm | hc)
        · exact absurd hm.1 hrx
        · obtain ⟨b, hb, hbx⟩ := hc
          exact absurd hbx.1 (not_le.2 (hnot b hb))
      · rintro ⟨r', hr', -⟩
        exact absurd (mem_of_lastStartLe (R := R) hr').2 (not_le.2 (hnot r' (mem_of_lastStartLe
          (R := R) hr').1))

/-- The least covered point from `x` on is `x` itself or the start of the first interval
that ends after `x`. -/
theorem isLeast_firstEndGt :
    ∀ {R : List (α × α)}, Proper R → Ordered R → ∀ {x : α} {r : α × α},
      firstEndGt R x = some r → IsLeast {y | covers R y ∧ x ≤ y} (max x r.1)
  | [], _, _, x, r, h => by simp [firstEndGt] at h
  | b :: R, hP, hO, x, r, h => by
    obtain ⟨hb, hP'⟩ := (proper_cons b R).1 hP
    obtain ⟨hbR, hO'⟩ := (ordered_cons b R).1 hO
    unfold firstEndGt at h
    by_cases hxb : x < b.2
    · -- `b` is the first: its start, or `x` inside it, is the least
      rw [List.filter_cons_of_pos (p := fun r : α × α => decide (x < r.2)) (decide_eq_true hxb),
        List.head?_cons, Option.some.injEq] at h
      subst h
      refine ⟨⟨(covers_cons _ _ _).2 (Or.inl ⟨le_max_right x b.1, max_lt hxb hb⟩),
        le_max_left x b.1⟩, ?_⟩
      rintro y ⟨hy, hxy⟩
      rcases (covers_cons _ _ _).1 hy with hm | ⟨c, hc, hcy⟩
      · exact max_le hxy hm.1
      · exact le_of_lt (lt_of_lt_of_le (max_lt hxb hb) (le_trans (hbR c hc) hcy.1))
    · -- `b` ends at or before `x`: nothing from `x` on is in it
      rw [List.filter_cons_of_neg (p := fun r : α × α => decide (x < r.2)) (by simpa using hxb)] at h
      have ih := isLeast_firstEndGt hP' hO' h
      have hset : {y | covers (b :: R) y ∧ x ≤ y} = {y | covers R y ∧ x ≤ y} := by
        ext y
        simp only [Set.mem_ofPred_eq, covers_cons]
        constructor
        · rintro ⟨hm | hc, hxy⟩
          · exact absurd (lt_of_lt_of_le hm.2 (not_lt.1 hxb)) (not_lt.2 hxy)
          · exact ⟨hc, hxy⟩
        · rintro ⟨hc, hxy⟩
          exact ⟨Or.inr hc, hxy⟩
      rw [hset]
      exact ih

/-- No point from `x` on is covered when no interval ends after `x`. -/
theorem not_covers_of_firstEndGt {R : List (α × α)} {x y : α} (h : firstEndGt R x = none)
    (hxy : x ≤ y) : ¬ covers R y := by
  -- an interval covering `y` would end after `x`
  rintro ⟨r, hr, hry⟩
  have hnil := List.head?_eq_none_iff.1 h
  have hmem : r ∈ R.filter fun r => decide (x < r.2) :=
    List.mem_filter.2 ⟨hr, decide_eq_true (lt_of_le_of_lt hxy hry.2)⟩
  rw [hnil] at hmem
  exact List.not_mem_nil hmem

/-- Every covered point lies below the end of the last interval. -/
theorem lt_getLast_of_covers {R : List (α × α)} (hP : Proper R) (hO : Ordered R) (hR : R ≠ [])
    {y : α} (hy : covers R y) : y < (R.getLast hR).2 := by
  obtain ⟨r, hr, hry⟩ := hy
  rw [← List.dropLast_concat_getLast hR, List.mem_append, List.mem_singleton] at hr
  rcases hr with hr | rfl
  · -- an earlier interval ends before the last one starts
    have hO' := hO
    rw [Ordered, ← List.dropLast_concat_getLast hR, List.pairwise_append] at hO'
    have hlast := hO'.2.2 r hr _ (List.mem_singleton_self _)
    have hnon := hP _ (List.getLast_mem hR)
    exact lt_trans (lt_of_lt_of_le hry.2 hlast) hnon
  · exact hry.2

/-! ### Merging -/

/-- Two intervals that overlap or touch cover what the interval from the lesser start to the
greater end covers. -/
theorem mem_min_max_iff {a b : α × α} (hab : a.1 ≤ b.2) (hba : b.1 ≤ a.2) (x : α) :
    mem (min a.1 b.1, max a.2 b.2) x ↔ mem a x ∨ mem b x := by
  simp only [mem, min_le_iff, lt_max_iff]
  constructor
  · rintro ⟨h1, h2⟩
    by_cases hxa : a.1 ≤ x
    · by_cases hxa2 : x < a.2
      · exact Or.inl ⟨hxa, hxa2⟩
      · -- past the end of `a`, so below the end of `b`, which starts at or before it
        exact Or.inr ⟨le_trans hba (not_lt.1 hxa2), h2.resolve_left hxa2⟩
    · -- before the start of `a`, so after the start of `b`, which ends at or after it
      exact Or.inr ⟨h1.resolve_left hxa, lt_of_lt_of_le (not_le.1 hxa) hab⟩
  · rintro (⟨h1, h2⟩ | ⟨h1, h2⟩)
    · exact ⟨Or.inl h1, Or.inl h2⟩
    · exact ⟨Or.inr h1, Or.inr h2⟩

/-- Removing one interval and keeping it aside covers the same. -/
theorem covers_eraseIdx {R : List (α × α)} {i : Nat} (hi : i < R.length) (x : α) :
    covers R x ↔ covers (R.eraseIdx i) x ∨ mem R[i] x := by
  have hperm := List.getElem_cons_eraseIdx_perm hi
  -- the list is the erased interval in front of the rest, reordered
  constructor
  · rintro ⟨r, hr, hx⟩
    rcases List.mem_cons.1 (hperm.mem_iff.2 hr) with rfl | hr'
    · exact Or.inr hx
    · exact Or.inl ⟨r, hr', hx⟩
  · rintro (⟨r, hr, hx⟩ | hx)
    · exact ⟨r, hperm.mem_iff.1 (List.mem_cons_of_mem _ hr), hx⟩
    · exact ⟨R[i], List.getElem_mem hi, hx⟩

end Bcachefs.Intervals
