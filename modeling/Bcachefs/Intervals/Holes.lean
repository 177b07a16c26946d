import Mathlib.Order.MinMax

/-!
# `Bcachefs.Intervals.Holes`: merging intervals, and the gaps between them

Half-open intervals `[r.1, r.2)` of a linear order, in a list sorted by start, merge into a
list whose intervals are apart: each ends before the next starts (`Separated`). The merge
folds the intervals into the merged ones, kept last first (`merge_step`): an interval that
starts at or before the end of the last merged one extends it, any other is kept as it is.
It covers what the intervals cover, and every merged interval starts where one of the given
ones does (`merge_sorted_spec`, from the step's `merge_step_spec` by `merge_fold_spec`).

The gaps of separated intervals, from a bottom `bot` up to `top` (`gaps`), are the intervals
between consecutive ones, before the first and after the last, up to `top`. They cover the
points from `bot` the intervals do not cover that lie below `top` or below the end of the
last interval (`gaps_covers_iff`). Every gap is nonempty (`gaps_nonempty`), and ends at
`top` or where an interval starts (`gaps_le`).

Nothing here names the file system.
-/

set_option autoImplicit false

namespace Bcachefs.Intervals

variable {α : Type*} [LinearOrder α]

/-- `x` lies in the half-open interval `[r.1, r.2)`. -/
def mem (r : α × α) (x : α) : Prop := r.1 ≤ x ∧ x < r.2

/-- `x` lies in one of the intervals of `R`. -/
def covers (R : List (α × α)) (x : α) : Prop := ∃ r ∈ R, mem r x

/-- Each interval ends before the next one starts. -/
def Separated (R : List (α × α)) : Prop := R.Pairwise fun a b => a.2 < b.1

/-- No interval ends before it starts. -/
def WellFormed (R : List (α × α)) : Prop := ∀ r ∈ R, r.1 ≤ r.2

/-- No interval covers nothing. -/
@[simp] theorem covers_nil (x : α) : ¬ covers ([] : List (α × α)) x := by simp [covers]

/-- An interval in front covers its own points and those of the rest. -/
@[simp] theorem covers_cons (r : α × α) (R : List (α × α)) (x : α) :
    covers (r :: R) x ↔ mem r x ∨ covers R x := by simp [covers]

/-- Two lists of intervals together cover what either covers. -/
@[simp] theorem covers_append (R S : List (α × α)) (x : α) :
    covers (R ++ S) x ↔ covers R x ∨ covers S x := by
  simp only [covers, List.mem_append]
  constructor
  · rintro ⟨r, hr | hr, hx⟩
    · exact Or.inl ⟨r, hr, hx⟩
    · exact Or.inr ⟨r, hr, hx⟩
  · rintro (⟨r, hr, hx⟩ | ⟨r, hr, hx⟩)
    · exact ⟨r, Or.inl hr, hx⟩
    · exact ⟨r, Or.inr hr, hx⟩

/-- The order of the intervals does not change what they cover. -/
@[simp] theorem covers_reverse (R : List (α × α)) (x : α) : covers R.reverse x ↔ covers R x := by
  simp [covers]

/-! ### Merging -/

/-- One interval into the merged ones, the last merged first. -/
def merge_step (acc : List (α × α)) (r : α × α) : List (α × α) :=
  match acc with
  | last :: rest => if r.1 ≤ last.2 then (last.1, max last.2 r.2) :: rest else r :: acc
  | [] => [r]

/-- The merge of intervals sorted by start. -/
def merge_sorted (R : List (α × α)) : List (α × α) := (R.foldl merge_step []).reverse

attribute [grind] merge_step

/-- What the merged intervals, last first, keep while the fold goes on over `rest`: they are
apart, none ends before it starts, and none starts after an interval still to come. -/
structure merge_inv (acc rest : List (α × α)) : Prop where
  apart : acc.Pairwise fun b a => a.2 < b.1
  wf : WellFormed acc
  start_le : ∀ a ∈ acc, ∀ r ∈ rest, a.1 ≤ r.1

/-- One step of the merge keeps the invariant, covers what was covered and the interval
merged in, and starts no interval where none started. -/
theorem merge_step_spec {acc rest : List (α × α)} {r : α × α} (hinv : merge_inv acc (r :: rest))
    (hr : r.1 ≤ r.2) (hsorted : ∀ r' ∈ rest, r.1 ≤ r'.1) :
    merge_inv (merge_step acc r) rest ∧
      (∀ x, covers (merge_step acc r) x ↔ covers acc x ∨ mem r x) ∧
      ∀ a ∈ merge_step acc r, a.1 = r.1 ∨ ∃ b ∈ acc, b.1 = a.1 := by
  match acc, hinv with
  | [], _ =>
    have hone : merge_step [] r = [r] := rfl
    rw [hone]
    refine ⟨⟨by simp, fun a ha => ?_, ?_⟩, fun x => by simp, fun a ha => Or.inl ?_⟩
    · rw [List.mem_singleton.mp ha]
      exact hr
    · intro a ha r' hr'
      rw [List.mem_singleton.mp ha]
      exact hsorted r' hr'
    · rw [List.mem_singleton.mp ha]
  | last :: acc, hinv =>
    have hlast : last.1 ≤ r.1 := hinv.start_le last List.mem_cons_self r List.mem_cons_self
    have hlast_wf : last.1 ≤ last.2 := hinv.wf last List.mem_cons_self
    obtain ⟨happ, hrest⟩ := List.pairwise_cons.mp hinv.apart
    by_cases hm : r.1 ≤ last.2
    · -- `r` starts inside or right after `last`: `last` grows to cover it
      simp only [merge_step, if_pos hm]
      refine ⟨⟨List.pairwise_cons.mpr ⟨happ, hrest⟩, ?_, ?_⟩, fun x => ?_, ?_⟩
      · intro a ha
        rcases List.mem_cons.mp ha with rfl | ha
        · exact le_trans hlast_wf (le_max_left _ _)
        · exact hinv.wf a (List.mem_cons_of_mem _ ha)
      · intro a ha r' hr'
        rcases List.mem_cons.mp ha with rfl | ha
        · exact hinv.start_le last List.mem_cons_self r' (List.mem_cons_of_mem _ hr')
        · exact hinv.start_le a (List.mem_cons_of_mem _ ha) r' (List.mem_cons_of_mem _ hr')
      · simp only [covers_cons, mem, lt_max_iff]
        constructor
        · rintro (⟨h1, h2 | h2⟩ | h)
          · exact Or.inl (Or.inl ⟨h1, h2⟩)
          · by_cases hx : x < last.2
            · exact Or.inl (Or.inl ⟨h1, hx⟩)
            · exact Or.inr ⟨le_trans hm (not_lt.mp hx), h2⟩
          · exact Or.inl (Or.inr h)
        · rintro ((⟨h1, h2⟩ | h) | ⟨h1, h2⟩)
          · exact Or.inl ⟨h1, Or.inl h2⟩
          · exact Or.inr h
          · exact Or.inl ⟨le_trans hlast h1, Or.inr h2⟩
      · intro a ha
        rcases List.mem_cons.mp ha with rfl | ha
        · exact Or.inr ⟨last, List.mem_cons_self, rfl⟩
        · exact Or.inr ⟨a, List.mem_cons_of_mem _ ha, rfl⟩
    · -- `r` starts after `last` ends: it is kept, apart from the others
      have hgap : last.2 < r.1 := not_le.mp hm
      simp only [merge_step, if_neg hm]
      refine ⟨⟨List.pairwise_cons.mpr ⟨fun a ha => ?_, hinv.apart⟩, ?_, ?_⟩, fun x => ?_, ?_⟩
      · rcases List.mem_cons.mp ha with rfl | ha
        · exact hgap
        · exact lt_of_lt_of_le (happ a ha) (le_trans hlast_wf (le_of_lt hgap))
      · intro a ha
        rcases List.mem_cons.mp ha with rfl | ha
        · exact hr
        · exact hinv.wf a ha
      · intro a ha r' hr'
        rcases List.mem_cons.mp ha with rfl | ha
        · exact hsorted r' hr'
        · exact hinv.start_le a ha r' (List.mem_cons_of_mem _ hr')
      · simp only [covers_cons]
        exact or_comm
      · intro a ha
        rcases List.mem_cons.mp ha with rfl | ha
        · exact Or.inl rfl
        · exact Or.inr ⟨a, ha, rfl⟩

/-- The merge fold over intervals sorted by start, from merged intervals that keep the
invariant: the result keeps it, covers what they and the intervals cover, and starts every
interval where one of them starts. -/
theorem merge_fold_spec :
    ∀ (L acc : List (α × α)), L.Pairwise (fun a b => a.1 ≤ b.1) → WellFormed L →
      merge_inv acc L →
      merge_inv (L.foldl merge_step acc) [] ∧
        (∀ x, covers (L.foldl merge_step acc) x ↔ covers acc x ∨ covers L x) ∧
        ∀ a ∈ L.foldl merge_step acc, ∃ b ∈ acc ++ L, b.1 = a.1
  | [], acc, _, _, hinv =>
    ⟨⟨hinv.apart, hinv.wf, by simp⟩, fun x => by simp, fun a ha => ⟨a, List.mem_append_left _ ha, rfl⟩⟩
  | r :: L, acc, hsorted, hwf, hinv => by
    obtain ⟨hr_le, hsorted'⟩ := List.pairwise_cons.mp hsorted
    -- one step on `r`, then the fold on the rest from what it leaves
    obtain ⟨hinv', hcov, hstart⟩ := merge_step_spec hinv (hwf r List.mem_cons_self) hr_le
    obtain ⟨hfin, hcov', hstart'⟩ := merge_fold_spec L _ hsorted'
      (fun r' hr' => hwf r' (List.mem_cons_of_mem _ hr')) hinv'
    refine ⟨hfin, fun x => ?_, fun a ha => ?_⟩
    · rw [List.foldl_cons, hcov', hcov, covers_cons]
      exact or_assoc
    · rw [List.foldl_cons] at ha
      obtain ⟨b, hb, hba⟩ := hstart' a ha
      -- a start kept from the step's list is `r`'s or one of `acc`'s
      rcases List.mem_append.mp hb with hb | hb
      · rcases hstart b hb with h | ⟨c, hc, hcb⟩
        · exact ⟨r, by simp, h.symm.trans hba⟩
        · exact ⟨c, by simp [hc], hcb.trans hba⟩
      · exact ⟨b, by simp [hb], hba⟩

section Merged

variable {R : List (α × α)} (hsorted : R.Pairwise (fun a b => a.1 ≤ b.1)) (hwf : WellFormed R)
include hsorted hwf

/-- The merge of sorted, well-formed intervals: apart, well formed, covering what they cover, and
starting each interval where one of them starts. -/
theorem merge_sorted_spec :
    Separated (merge_sorted R) ∧ WellFormed (merge_sorted R) ∧
      (∀ x, covers (merge_sorted R) x ↔ covers R x) ∧
      ∀ a ∈ merge_sorted R, ∃ b ∈ R, b.1 = a.1 := by
  obtain ⟨hinv, hcov, hstart⟩ := merge_fold_spec R [] hsorted hwf ⟨by simp, by simp [WellFormed], by simp⟩
  refine ⟨?_, fun a ha => hinv.wf a (List.mem_reverse.mp ha), fun x => ?_, fun a ha => ?_⟩
  -- the fold keeps the merged intervals last first; reversed, they are apart in order
  · unfold Separated merge_sorted
    rw [List.pairwise_reverse]
    exact hinv.apart
  · simp [merge_sorted, hcov]
  · simpa using hstart a (List.mem_reverse.mp ha)

end Merged

/-! ### Gaps -/

/-- One interval past the gaps found so far and the position reached: the gap before it, if
there is one, and its end. -/
def gaps_step (s : List (α × α) × α) (r : α × α) : List (α × α) × α :=
  (if s.2 < r.1 then (s.2, r.1) :: s.1 else s.1, r.2)

/-- The gaps of `R` from `bot` up: between its intervals, and after the last up to `top`. -/
def gaps (bot top : α) (R : List (α × α)) : List (α × α) :=
  let s := R.foldl gaps_step ([], bot)
  (if s.2 < top then (s.2, top) :: s.1 else s.1).reverse

attribute [grind] gaps_step gaps

/-- What the gaps found so far, last first, and the position reached keep over the intervals
`P` passed: the position is `bot` or the end of one of them, and is past them all; the gaps
are nonempty and cover the points from `bot` below it that `P` does not. -/
structure gaps_inv (bot : α) (P : List (α × α)) (s : List (α × α) × α) : Prop where
  pos_of : s.2 = bot ∨ ∃ p ∈ P, p.2 = s.2
  bot_le : bot ≤ s.2
  ends_le : ∀ p ∈ P, p.2 ≤ s.2
  nonempty : ∀ h ∈ s.1, h.1 < h.2
  covers_iff : ∀ x, covers s.1 x ↔ bot ≤ x ∧ x < s.2 ∧ ¬ covers P x

/-- The gap fold over intervals that continue, apart, those passed, keeps the invariant. -/
theorem gaps_fold_spec (bot : α) :
    ∀ (L P : List (α × α)) (s : List (α × α) × α), Separated (P ++ L) → WellFormed L →
      (∀ r ∈ L, bot ≤ r.1) → gaps_inv bot P s → gaps_inv bot (P ++ L) (L.foldl gaps_step s)
  | [], P, s, _, _, _, hinv => by simpa using hinv
  | r :: L, P, s, hsep, hwf, hbot, hinv => by
    have hr : r.1 ≤ r.2 := hwf r List.mem_cons_self
    -- the position reached is at or before the start of `r`
    have hpos : s.2 ≤ r.1 := by
      rcases hinv.pos_of with h | ⟨p, hp, hps⟩
      · rw [h]
        exact hbot r List.mem_cons_self
      · rw [← hps]
        exact le_of_lt ((List.pairwise_append.mp hsep).2.2 p hp r List.mem_cons_self)
    have hstep : gaps_inv bot (P ++ [r]) (gaps_step s r) := by
      refine ⟨Or.inr ⟨r, by simp, rfl⟩, le_trans hinv.bot_le (le_trans hpos hr), ?_, ?_, ?_⟩
      · intro p hp
        rcases List.mem_append.mp hp with hp | hp
        · exact le_trans (hinv.ends_le p hp) (le_trans hpos hr)
        · rw [List.mem_singleton.mp hp]
          exact le_rfl
      · intro h hh
        unfold gaps_step at hh
        split_ifs at hh with hlt
        · rcases List.mem_cons.mp hh with rfl | hh
          · exact hlt
          · exact hinv.nonempty h hh
        · exact hinv.nonempty h hh
      · intro x
        have hold := hinv.covers_iff x
        have hnotP : s.2 ≤ x → ¬ covers P x := fun hx ⟨p, hp, hpx⟩ =>
          absurd (lt_of_lt_of_le hpx.2 (hinv.ends_le p hp)) (not_lt.mpr hx)
        unfold gaps_step
        simp only [covers_append, covers_cons, covers_nil, or_false, mem]
        split_ifs with hlt
        · simp only [covers_cons, mem]
          constructor
          · rintro (⟨h1, h2⟩ | h)
            · exact ⟨le_trans hinv.bot_le h1, lt_of_lt_of_le h2 hr, by
                rintro (hP | ⟨h3, -⟩)
                · exact hnotP h1 hP
                · exact absurd h2 (not_lt.mpr h3)⟩
            · obtain ⟨h1, h2, h3⟩ := hold.mp h
              exact ⟨h1, lt_of_lt_of_le (lt_of_lt_of_le h2 hpos) hr, by
                rintro (hP | ⟨h4, -⟩)
                · exact h3 hP
                · exact absurd (lt_of_lt_of_le h2 hpos) (not_lt.mpr h4)⟩
          · rintro ⟨h1, h2, h3⟩
            have hx : x < r.1 := by
              by_contra hx
              exact h3 (Or.inr ⟨not_lt.mp hx, h2⟩)
            by_cases hxs : x < s.2
            · exact Or.inr (hold.mpr ⟨h1, hxs, fun hP => h3 (Or.inl hP)⟩)
            · exact Or.inl ⟨not_lt.mp hxs, hx⟩
        · rw [hold]
          constructor
          · rintro ⟨h1, h2, h3⟩
            exact ⟨h1, lt_of_lt_of_le (lt_of_lt_of_le h2 hpos) hr, by
              rintro (hP | ⟨h4, -⟩)
              · exact h3 hP
              · exact absurd (lt_of_lt_of_le h2 hpos) (not_lt.mpr h4)⟩
          · rintro ⟨h1, h2, h3⟩
            have hx : x < r.1 := by
              by_contra hx
              exact h3 (Or.inr ⟨not_lt.mp hx, h2⟩)
            exact ⟨h1, lt_of_lt_of_le hx (not_lt.mp hlt), fun hP => h3 (Or.inl hP)⟩
    have := gaps_fold_spec bot L (P ++ [r]) (gaps_step s r) (by simpa using hsep)
      (fun r' hr' => hwf r' (List.mem_cons_of_mem _ hr'))
      (fun r' hr' => hbot r' (List.mem_cons_of_mem _ hr')) hstep
    simpa using this

/-- A bound of the starts of the intervals bounds the ends of the gaps the fold adds: each
ends where an interval starts. -/
theorem gaps_fold_le {B : α} : ∀ (L : List (α × α)) (s : List (α × α) × α),
    (∀ h ∈ s.1, h.2 ≤ B) → (∀ r ∈ L, r.1 ≤ B) → ∀ h ∈ (L.foldl gaps_step s).1, h.2 ≤ B
  | [], _, hs, _ => hs
  | r :: L, s, hs, hL => by
    refine gaps_fold_le L (gaps_step s r) ?_ (fun r' hr' => hL r' (List.mem_cons_of_mem r hr'))
    intro h hh
    -- a gap the step adds ends where `r` starts
    unfold gaps_step at hh
    split_ifs at hh
    · rcases List.mem_cons.mp hh with rfl | hh
      · exact hL r List.mem_cons_self
      · exact hs h hh
    · exact hs h hh

/-- A bound of `top` and of the starts of the intervals bounds the ends of the gaps. -/
theorem gaps_le {B : α} (bot top : α) (R : List (α × α)) (htop : top ≤ B)
    (hR : ∀ r ∈ R, r.1 ≤ B) : ∀ h ∈ gaps bot top R, h.2 ≤ B := by
  intro h hh
  unfold gaps at hh
  simp only [List.mem_reverse] at hh
  have hfold := gaps_fold_le R ([], bot) (by simp) hR
  -- the last gap ends at `top`; the others where an interval starts
  split_ifs at hh
  · rcases List.mem_cons.mp hh with rfl | hh
    · exact htop
    · exact hfold h hh
  · exact hfold h hh

section Gaps

variable {R : List (α × α)} (bot top : α) (hsep : Separated R) (hwf : WellFormed R)
  (hbot : ∀ r ∈ R, bot ≤ r.1)
include hsep hwf hbot

/-- The gaps of the intervals after the fold, before the last one up to `top` is added. -/
theorem gaps_fold_inv : gaps_inv bot R (R.foldl gaps_step ([], bot)) := by
  have := gaps_fold_spec bot R [] ([], bot) (by simpa using hsep) hwf hbot
    ⟨Or.inl rfl, le_rfl, by simp, by simp, fun x => by simp⟩
  simpa using this

/-- The gaps are the points from `bot` the intervals do not cover, below `top` or below the
end of the last interval. -/
theorem gaps_covers_iff (x : α) :
    covers (gaps bot top R) x ↔ bot ≤ x ∧ ¬ covers R x ∧
      (x < top ∨ x < (R.foldl gaps_step ([], bot)).2) := by
  have hinv := gaps_fold_inv bot hsep hwf hbot
  unfold gaps
  simp only [covers_reverse]
  -- with a last gap up to `top`, the points past the last interval below `top` are added
  split_ifs with htop
  · rw [covers_cons, hinv.covers_iff]
    simp only [mem]
    constructor
    · rintro (⟨h1, h2⟩ | ⟨h1, h2, h3⟩)
      · refine ⟨le_trans hinv.bot_le h1, fun ⟨p, hp, hpx⟩ => ?_, Or.inl h2⟩
        exact absurd (lt_of_lt_of_le hpx.2 (hinv.ends_le p hp)) (not_lt.mpr h1)
      · exact ⟨h1, h3, Or.inr h2⟩
    · rintro ⟨h1, h2, h3 | h3⟩
      · by_cases hx : x < (R.foldl gaps_step ([], bot)).2
        · exact Or.inr ⟨h1, hx, h2⟩
        · exact Or.inl ⟨not_lt.mp hx, h3⟩
      · exact Or.inr ⟨h1, h3, h2⟩
  · rw [hinv.covers_iff]
    constructor
    · rintro ⟨h1, h2, h3⟩
      exact ⟨h1, h3, Or.inr h2⟩
    · rintro ⟨h1, h2, h3 | h3⟩
      · exact ⟨h1, lt_of_lt_of_le h3 (not_lt.mp htop), h2⟩
      · exact ⟨h1, h3, h2⟩

/-- Every gap is nonempty. -/
theorem gaps_nonempty : ∀ h ∈ gaps bot top R, h.1 < h.2 := by
  have hinv := gaps_fold_inv bot hsep hwf hbot
  intro h hh
  unfold gaps at hh
  simp only [List.mem_reverse] at hh
  -- the last gap is added only when it is nonempty
  split_ifs at hh with htop
  · rcases List.mem_cons.mp hh with rfl | hh
    · exact htop
    · exact hinv.nonempty h hh
  · exact hinv.nonempty h hh

end Gaps

end Bcachefs.Intervals
