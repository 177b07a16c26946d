import Mathlib.Logic.Relation
import Mathlib.Logic.Relator
import Mathlib.Logic.Function.Iterate

/-!
# `Bcachefs.Forest.Chain`: ancestors in a forest of parent pointers

A forest given by a parent function on its nodes and a null node `z`: a walk up stops at
`z`, which has no parent of its own. `IsAncestor parent z x a` says the walk up from `x`
reaches `a`, so `a` is `x` or one of its ancestors.

A node has one parent, so the ancestors of a node form a chain (`isAncestor_total`).
When every parent ranks above its child (`RankIncreasing`, with an injective rank into
`Nat`), the chain climbs in rank, and the lemmas below are what a walk up it needs:

* `isAncestor_iff_parent`: stepping to the parent keeps whether the target lies ahead.
* `isAncestor_iff_of_jump`: so does a jump to an ancestor that does not pass the target.
* `isAncestor_iff_eq_of_exit`: once the walk is at the null node or at the target's rank
  or above, the target lies ahead exactly when the walk is on it.
* `below_parent_iff`: the step of a walk that records the ancestors it passes.

Two more facts serve walks that count their steps or change the forest:

* `isAncestor_iff_iterate`: the ancestors are the iterates of the parent function, when the
  null node is its own parent; in a ranked forest the iterates climb strictly until the null
  node (`rank_iterate_lt`).
* `isAncestor_congr`: changing parents off the chain above `x` changes no ancestor of `x`.
-/

set_option autoImplicit false

namespace Bcachefs.Forest

variable {α : Type*} (parent : α → α) (z : α)

/-- One step up, from a node other than the null node to its parent. -/
def Up (x y : α) : Prop := x ≠ z ∧ parent x = y

/-- `a` is `x` or one of its ancestors. -/
def IsAncestor (x a : α) : Prop := Relation.ReflTransGen (Up parent z) x a

variable {parent z}

/-- Every node is its own ancestor. -/
theorem isAncestor_refl (x : α) : IsAncestor parent z x x := Relation.ReflTransGen.refl

/-- The parent of a node other than the null node is its ancestor. -/
theorem isAncestor_parent {x : α} (hx : x ≠ z) : IsAncestor parent z x (parent x) :=
  Relation.ReflTransGen.single ⟨hx, rfl⟩

/-- An ancestor of an ancestor is an ancestor. -/
theorem IsAncestor.trans {x a b : α} (hxa : IsAncestor parent z x a)
    (hab : IsAncestor parent z a b) : IsAncestor parent z x b :=
  Relation.ReflTransGen.trans hxa hab

/-- A walk up from `x` that has not reached `a` yet goes on through the parent of `x`. -/
theorem isAncestor_iff_parent {x a : α} (hx : x ≠ z) (hxa : x ≠ a) :
    IsAncestor parent z x a ↔ IsAncestor parent z (parent x) a := by
  constructor
  · intro h
    -- a walk that does not stay at `x` takes its first step to `parent x`
    rcases Relation.ReflTransGen.cases_head h with rfl | ⟨y, ⟨-, rfl⟩, hy⟩
    · exact absurd rfl hxa
    · exact hy
  · exact (isAncestor_parent hx).trans

/-- The walk stops at the null node. -/
theorem eq_of_isAncestor_null {a : α} (h : IsAncestor parent z z a) : a = z := by
  rcases Relation.ReflTransGen.cases_head h with rfl | ⟨y, ⟨hz, -⟩, -⟩
  · rfl
  · exact absurd rfl hz

/-- Two ancestors of one node are ancestors one of the other. -/
theorem isAncestor_total {x a b : α} (ha : IsAncestor parent z x a)
    (hb : IsAncestor parent z x b) : IsAncestor parent z a b ∨ IsAncestor parent z b a :=
  Relation.ReflTransGen.total_of_right_unique (fun _ _ _ h₁ h₂ => h₁.2.symm.trans h₂.2) ha hb

/-- Parents that agree on the chain above `x` give `x` the same ancestors. -/
theorem isAncestor_congr {parent' : α → α} {x a : α}
    (h : ∀ y, IsAncestor parent z x y → y ≠ z → parent' y = parent y) :
    IsAncestor parent' z x a ↔ IsAncestor parent z x a := by
  constructor
  · intro h'
    -- induction on the walk from its first step: each node it leaves has the same parent in both
    induction h' using Relation.ReflTransGen.head_induction_on with
    | refl => exact isAncestor_refl _
    | head hxy _ ih =>
        obtain ⟨hx, rfl⟩ := hxy
        have hp : parent' _ = parent _ := h _ (isAncestor_refl _) hx
        rw [hp] at ih
        exact (isAncestor_parent hx).trans
          (ih fun y hy hyz => h y ((isAncestor_parent hx).trans hy) hyz)
  · intro h'
    induction h' using Relation.ReflTransGen.head_induction_on with
    | refl => exact isAncestor_refl _
    | head hxy _ ih =>
        obtain ⟨hx, rfl⟩ := hxy
        have hp : parent' _ = parent _ := h _ (isAncestor_refl _) hx
        have hstep : IsAncestor parent' z _ (parent' _) := isAncestor_parent hx
        rw [hp] at hstep
        exact hstep.trans (ih fun y hy hyz => h y ((isAncestor_parent hx).trans hy) hyz)

section Iterate

variable (hz : parent z = z)
include hz

/-- With the null node its own parent, the walk from it stays there. -/
theorem iterate_null (n : Nat) : parent^[n] z = z :=
  Function.iterate_fixed hz n

/-- With the null node its own parent, the ancestors of `x` are the iterates of `parent` on
it. -/
theorem isAncestor_iff_iterate {x a : α} : IsAncestor parent z x a ↔ ∃ n, parent^[n] x = a := by
  constructor
  · intro h
    -- each step of the walk is one more iterate
    induction h with
    | refl => exact ⟨0, rfl⟩
    | tail _ hya ih =>
        obtain ⟨n, rfl⟩ := ih
        exact ⟨n + 1, by rw [Function.iterate_succ_apply', hya.2]⟩
  · rintro ⟨n, rfl⟩
    -- an iterate past the null node repeats it, so the walk need not move
    induction n with
    | zero => exact isAncestor_refl x
    | succ n ih =>
        rw [Function.iterate_succ_apply']
        by_cases hn : parent^[n] x = z
        · rw [hn, hz]
          rw [hn] at ih
          exact ih
        · exact ih.trans (isAncestor_parent hn)

/-- Past the null node the iterates stay there. -/
theorem iterate_eq_null_of_le {x : α} {n m : Nat} (hnm : n ≤ m) (hn : parent^[n] x = z) :
    parent^[m] x = z := by
  obtain ⟨k, rfl⟩ := Nat.exists_eq_add_of_le hnm
  rw [Nat.add_comm, Function.iterate_add_apply, hn, iterate_null hz]

end Iterate

/-! ## Forests whose parents rank above their children -/

section Ranked

variable (parent z)

/-- `a` is a proper ancestor of `x` that a walk up from `x` passed before reaching `p`. -/
def Below (rank : α → Nat) (x p a : α) : Prop :=
  IsAncestor parent z x a ∧ rank x < rank a ∧ (p = z ∨ rank a < rank p)

/-- Every parent other than the null node ranks above its child. -/
def RankIncreasing (rank : α → Nat) : Prop := ∀ x, x ≠ z → parent x = z ∨ rank x < rank (parent x)

variable {parent z} {rank : α → Nat} (hinc : RankIncreasing parent z rank)
include hinc

/-- An ancestor other than the null node ranks at least as high as the node. -/
theorem rank_le_of_isAncestor {x a : α} (h : IsAncestor parent z x a) (ha : a ≠ z) :
    rank x ≤ rank a := by
  induction h using Relation.ReflTransGen.head_induction_on with
  | refl => exact Nat.le_refl _
  | head hxy hya ih =>
      obtain ⟨hx, rfl⟩ := hxy
      rcases hinc _ hx with hnull | hlt
      · -- the walk went on from the null node, so it ended there
        rw [hnull] at hya
        exact absurd (eq_of_isAncestor_null hya) ha
      · exact Nat.le_trans (Nat.le_of_lt hlt) ih

/-- The iterates of `parent` climb strictly in rank until the null node. -/
theorem rank_iterate_lt (hz : parent z = z) {x : α} {n m : Nat} (hnm : n < m)
    (hm : parent^[m] x ≠ z) : rank (parent^[n] x) < rank (parent^[m] x) := by
  -- induction on the later iterate: each step below it climbs in rank
  induction m with
  | zero => omega
  | succ m ih =>
      have hm' : parent^[m] x ≠ z := fun h =>
        hm (iterate_eq_null_of_le hz (Nat.le_succ m) h)
      rw [Function.iterate_succ_apply'] at hm ⊢
      have hstep := (hinc _ hm').resolve_left hm
      by_cases hnm' : n = m
      · subst hnm'
        exact hstep
      · exact Nat.lt_trans (ih (by omega) hm') hstep

variable (hinj : Function.Injective rank)
include hinj

/-- Of two ancestors of a node, the one of lower rank is below the other. -/
theorem isAncestor_of_rank_le {x a b : α} (hxa : IsAncestor parent z x a)
    (hxb : IsAncestor parent z x b) (hab : rank a ≤ rank b) (ha : a ≠ z) :
    IsAncestor parent z a b := by
  -- the ancestors of `x` form a chain; the one above cannot rank lower unless it is the same node
  rcases isAncestor_total hxa hxb with h | h
  · exact h
  · have hba := rank_le_of_isAncestor hinc h ha
    rw [hinj (Nat.le_antisymm hab hba)]
    exact isAncestor_refl b

/-- A jump from `x` either to its parent, or to an ancestor of `x` that is not above the
target, keeps whether the target lies ahead. -/
theorem isAncestor_iff_of_jump {x a y : α} (hx : x ≠ z) (hxa : x ≠ a)
    (hy : y = parent x ∨ IsAncestor parent z x y ∧ rank y ≤ rank a ∧ y ≠ z) :
    IsAncestor parent z x a ↔ IsAncestor parent z y a := by
  rcases hy with rfl | ⟨hxy, hle, hyz⟩
  · exact isAncestor_iff_parent hx hxa
  · exact ⟨fun h => isAncestor_of_rank_le hinc hinj hxy h hle hyz, hxy.trans⟩

/-- Where a walk up stops, at the null node or at the target's rank or above, the target
lies ahead exactly when the walk is on it. -/
theorem isAncestor_iff_eq_of_exit {x a : α} (ha : a ≠ z) (hexit : x = z ∨ rank a ≤ rank x) :
    IsAncestor parent z x a ↔ x = a := by
  constructor
  · intro h
    -- from the null node nothing but itself is ahead; at or above the target's rank only the target itself
    rcases hexit with rfl | hle
    · exact absurd (eq_of_isAncestor_null h).symm (Ne.symm ha)
    · exact hinj (Nat.le_antisymm (rank_le_of_isAncestor hinc h ha) hle)
  · rintro rfl
    exact isAncestor_refl x

omit hinj in
/-- Nothing lies between a node and its parent. -/
theorem not_below_parent {x a : α} (ha : a ≠ z) : ¬ Below parent z rank x (parent x) a := by
  rintro ⟨hxa, hlt, hp⟩
  have hx : x ≠ z := by
    rintro rfl
    exact ha (eq_of_isAncestor_null hxa)
  -- an ancestor of `x` other than `x` is one of `parent x`, hence not below it
  rw [isAncestor_iff_parent hx (fun h => by subst h; exact Nat.lt_irrefl _ hlt)] at hxa
  rcases hp with hnull | hlt'
  · rw [hnull] at hxa
    exact ha (eq_of_isAncestor_null hxa)
  · exact absurd (rank_le_of_isAncestor hinc hxa ha) (Nat.not_le.mpr hlt')

/-- The step of a walk that records each ancestor it passes: recording `p` and moving on
to its parent. -/
theorem below_parent_iff {x p a : α} (hp : p ≠ z) (ha : a ≠ z)
    (hxp : IsAncestor parent z x p) (hxlt : rank x < rank p) :
    Below parent z rank x p a ∨ a = p ↔ Below parent z rank x (parent p) a := by
  -- past `p` the chain climbs to `parent p`, or stops at the null node
  have hstep : parent p = z ∨ rank p < rank (parent p) := hinc p hp
  constructor
  · rintro (⟨hxa, hlt, hap⟩ | rfl)
    · have hap' : rank a < rank p := hap.resolve_left hp
      exact ⟨hxa, hlt, hstep.imp_right (Nat.lt_trans hap')⟩
    · exact ⟨hxp, hxlt, hstep⟩
  · rintro ⟨hxa, hlt, hpa⟩
    rcases Nat.lt_trichotomy (rank a) (rank p) with h | h | h
    · exact Or.inl ⟨hxa, hlt, Or.inr h⟩
    · exact Or.inr (hinj h)
    · -- `a` above `p` is an ancestor of `parent p`, which it cannot pass
      have hpa' : IsAncestor parent z p a := isAncestor_of_rank_le hinc hinj hxp hxa (Nat.le_of_lt h) hp
      rw [isAncestor_iff_parent hp (fun e => by subst e; exact Nat.lt_irrefl _ h)] at hpa'
      rcases hpa with hnull | hlt'
      · rw [hnull] at hpa'
        exact absurd (eq_of_isAncestor_null hpa') ha
      · exact absurd (rank_le_of_isAncestor hinc hpa' ha) (Nat.not_le.mpr hlt')

end Ranked

end Bcachefs.Forest
