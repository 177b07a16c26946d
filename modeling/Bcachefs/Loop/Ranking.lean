import Mathlib.Algebra.Order.BigOperators.Group.Finset

/-!
# Rankings of runs, as sums of per-key potentials

A run `s 0, s 1, …, s n` along which a ranking `μ` drops at every step has at most `μ (s 0)`
steps (`run_length_le_of_ranking`). The rankings here are sums of potentials, one for each key
of a finite set: a step that lowers the potential of one key of the set and leaves the
others' as they are lowers the sum (`sum_lt_of_lower_one`).

The state whose potentials are summed is a table: a list of records looked up by key, the
first record that has it (`List.find?`). Updating that record in place, or appending a record
for a key the table lacks, changes what the lookup returns for that key only
(`find?_modify_findIdx?`, `find?_append_of_find?_eq_none`).
-/

set_option autoImplicit false

namespace Bcachefs.Loop

section Runs

variable {σ : Type*} (μ : σ → Nat)

/-- Along a run of `n` steps, each of which lowers `μ`, `μ` drops by at least `n`. -/
theorem ranking_drop_le (s : Nat → σ) (n : Nat) (h : ∀ i < n, μ (s (i + 1)) < μ (s i)) :
    n + μ (s n) ≤ μ (s 0) := by
  induction n with
  | zero => simp
  | succ n ih =>
    have hrun := ih fun i hi => h i (by omega)
    have hstep := h n (by omega)
    omega

/-- A run of `n` steps, each of which lowers `μ`, has at most `μ (s 0)` steps. -/
theorem run_length_le_of_ranking (s : Nat → σ) (n : Nat)
    (h : ∀ i < n, μ (s (i + 1)) < μ (s i)) : n ≤ μ (s 0) := by
  have := ranking_drop_le μ s n h
  omega

end Runs

section Potentials

variable {κ : Type*}

/-- Lowering the potential of one key of `S`, and of no other, lowers the sum over `S`. -/
theorem sum_lt_of_lower_one (S : Finset κ) (φ φ' : κ → Nat) {d : κ} (hd : d ∈ S)
    (hlt : φ' d < φ d) (heq : ∀ x, x ≠ d → φ' x = φ x) :
    ∑ x ∈ S, φ' x < ∑ x ∈ S, φ x := by
  apply Finset.sum_lt_sum
  · intro x _
    by_cases hx : x = d
    · subst hx
      exact hlt.le
    · exact (heq x hx).le
  · exact ⟨d, hd, hlt⟩

end Potentials

section Table

variable {β κ : Type*} [DecidableEq κ] (key : β → κ)

/-- Updating, in place, the first record of key `d` by an update that keeps keys: the lookup
of `d` finds the updated record, and that of any other key what it found before. -/
theorem find?_modify_findIdx? (r : β → β) (hr : ∀ b, key (r b) = key b) (d : κ) :
    ∀ (l : List β) (i : Nat), l.findIdx? (fun b => key b == d) = some i →
      ∀ d', (l.modify i r).find? (fun b => key b == d') =
        if d' = d then (l.find? fun b => key b == d).map r else l.find? fun b => key b == d'
  | [], _, h, _ => by simp at h
  | b :: l, i, h, d' => by
    by_cases hb : key b = d
    · -- the first record has the key: it is the one updated
      have hi : i = 0 := by simpa [List.findIdx?_cons, hb] using h.symm
      subst hi
      by_cases hd : d' = d
      · simp [hd, hb, hr]
      · have hne : key b ≠ d' := fun h' => hd (h'.symm.trans hb)
        simp [hd, hr, hne]
    · obtain ⟨j, hj, rfl⟩ :
          ∃ j, l.findIdx? (fun b => key b == d) = some j ∧ i = j + 1 := by
        simp only [List.findIdx?_cons, hb, beq_iff_eq, if_false, Option.map_eq_some_iff] at h
        obtain ⟨j, hj, hji⟩ := h
        exact ⟨j, hj, hji.symm⟩
      have ih := find?_modify_findIdx? r hr d l j hj d'
      by_cases hd : d' = d
      · subst hd
        simp [hb, ih]
      · by_cases hb' : key b = d'
        · simp [hb', hd]
        · simp [hb', hd, ih]

/-- Appending a record whose key the table lacks: the lookup of that key finds it, and that
of any other key what it found before. -/
theorem find?_append_of_find?_eq_none (l : List β) (b : β)
    (h : l.find? (fun x => key x == key b) = none) (d' : κ) :
    (l ++ [b]).find? (fun x => key x == d') =
      if d' = key b then some b else l.find? fun x => key x == d' := by
  rw [List.find?_append]
  by_cases hd : d' = key b
  · subst hd
    simp [h]
  · have hne : ¬ key b = d' := fun h' => hd h'.symm
    simp [hd, hne]

end Table

end Bcachefs.Loop
