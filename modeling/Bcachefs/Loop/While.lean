import Mathlib.Tactic.TypeStar

/-!
# `Bcachefs.Loop.While`: `while` loops run on fuel

A C loop `while (cond(s)) s = body(s);` on a state `s` need not stop. `whileLoop cond body
fuel s` runs it for at most `fuel` tests of the condition: it is `some` of the state the
loop stops in, or `none` when the fuel runs out first. A claim that the loop stops is
then a claim that some fuel gives `some`.

The rules the proofs use:

* `whileLoop_mono`: more fuel gives the same answer, so the answer does not depend on
  the fuel once there is enough.
* `whileLoop_inv`: an invariant that each iteration keeps holds where the loop stops,
  and the condition is false there.
* `whileLoop_isSome_of_measure`: a measure into `ℕ` that each iteration lowers bounds
  the fuel the loop needs.
* `whileLoop_congr`: two bodies that agree on the states the loop passes through run the
  same loop.
* `whileLoop_map`: a map of states that takes one loop's condition and body to another's
  takes its runs to the other's, so a loop on machine words can be run on numbers.
* `whileLoop_seq`: a loop with a weaker condition runs through the state a loop with the
  same body stops in, and goes on from there.
-/

set_option autoImplicit false

namespace Bcachefs.Loop

variable {σ : Type*} (cond : σ → Bool) (body : σ → σ)

/-- `while (cond(s)) s = body(s);`, testing the condition at most `fuel` times. -/
def whileLoop : Nat → σ → Option σ
  | 0, _ => none
  | fuel + 1, s => if cond s then whileLoop fuel (body s) else some s

attribute [grind] whileLoop

variable {cond body}

/-- Out of fuel the loop gives no state. -/
@[simp] theorem whileLoop_zero (s : σ) : whileLoop cond body 0 s = none := rfl

/-- While the condition holds, the loop runs the body and goes on with one less fuel. -/
theorem whileLoop_succ_of_cond {s : σ} (h : cond s = true) (fuel : Nat) :
    whileLoop cond body (fuel + 1) s = whileLoop cond body fuel (body s) := by
  rw [whileLoop, if_pos h]

/-- Where the condition fails, the loop stops in the state it is in. -/
theorem whileLoop_succ_of_not_cond {s : σ} (h : cond s = false) (fuel : Nat) :
    whileLoop cond body (fuel + 1) s = some s := by
  rw [whileLoop, if_neg (by rw [h]; decide)]

/-- A loop that stops on some fuel stops in the same state on more. -/
theorem whileLoop_mono {fuel fuel' : Nat} {s r : σ} (h : whileLoop cond body fuel s = some r)
    (hle : fuel ≤ fuel') : whileLoop cond body fuel' s = some r := by
  -- induction on the smaller fuel; the larger one follows it step for step
  induction fuel generalizing fuel' s with
  | zero => cases h
  | succ n ih =>
      obtain ⟨m, rfl⟩ : ∃ m, fuel' = m + 1 := ⟨fuel' - 1, by omega⟩
      cases hc : cond s
      · rw [whileLoop_succ_of_not_cond hc] at h ⊢
        exact h
      · rw [whileLoop_succ_of_cond hc] at h ⊢
        exact ih h (by omega)

/-- Two runs that both stop stop in the same state. -/
theorem whileLoop_eq_of_some {fuel fuel' : Nat} {s r r' : σ}
    (h : whileLoop cond body fuel s = some r) (h' : whileLoop cond body fuel' s = some r') :
    r = r' := by
  have h₁ := whileLoop_mono h (Nat.le_max_left fuel fuel')
  have h₂ := whileLoop_mono h' (Nat.le_max_right fuel fuel')
  rw [h₁] at h₂
  exact Option.some.inj h₂

/-- The invariant rule: what holds initially and is kept by every iteration holds where
the loop stops, together with the negated condition. -/
theorem whileLoop_inv (I : σ → Prop) (hstep : ∀ s, I s → cond s = true → I (body s))
    {fuel : Nat} {s r : σ} (hs : I s) (h : whileLoop cond body fuel s = some r) :
    I r ∧ cond r = false := by
  -- induction on the fuel, with the state free: each iteration keeps `I`
  induction fuel generalizing s with
  | zero => cases h
  | succ n ih =>
      cases hc : cond s
      · rw [whileLoop_succ_of_not_cond hc] at h
        cases h
        exact ⟨hs, hc⟩
      · rw [whileLoop_succ_of_cond hc] at h
        exact ih (hstep s hs hc) h

/-- The variant rule: when every iteration from a state of the invariant lowers a measure,
fuel above the measure is enough for the loop to stop. -/
theorem whileLoop_isSome_of_measure (I : σ → Prop) (μ : σ → Nat)
    (hstep : ∀ s, I s → cond s = true → I (body s) ∧ μ (body s) < μ s)
    {fuel : Nat} {s : σ} (hs : I s) (hfuel : μ s < fuel) :
    ∃ r, whileLoop cond body fuel s = some r := by
  -- induction on the fuel, with the state free: each iteration lowers the measure by one at least
  induction fuel generalizing s with
  | zero => omega
  | succ n ih =>
      cases hc : cond s
      · exact ⟨s, whileLoop_succ_of_not_cond hc n⟩
      · rw [whileLoop_succ_of_cond hc]
        obtain ⟨hI, hμ⟩ := hstep s hs hc
        exact ih hI (by omega)

/-- A body that agrees with `body` on every state an invariant allows, where the loop goes
on, runs the same loop. -/
theorem whileLoop_congr {body' : σ → σ} (I : σ → Prop)
    (hstep : ∀ s, I s → cond s = true → body' s = body s ∧ I (body s)) {fuel : Nat} {s : σ}
    (hs : I s) : whileLoop cond body' fuel s = whileLoop cond body fuel s := by
  -- induction on the fuel, with the state free: the two bodies agree wherever the loop runs one
  induction fuel generalizing s with
  | zero => rfl
  | succ n ih =>
      cases hc : cond s
      · rw [whileLoop_succ_of_not_cond hc, whileLoop_succ_of_not_cond hc]
      · obtain ⟨hb, hI⟩ := hstep s hs hc
        rw [whileLoop_succ_of_cond hc, whileLoop_succ_of_cond hc, hb]
        exact ih hI

/-- The simulation rule: a map of states that takes the condition and the body of this loop
to those of another, on the states an invariant allows, takes its runs to the other's. -/
theorem whileLoop_map {τ : Type*} {cond' : τ → Bool} {body' : τ → τ} (f : σ → τ)
    (I : σ → Prop) (hcond : ∀ s, I s → cond' (f s) = cond s)
    (hstep : ∀ s, I s → cond s = true → body' (f s) = f (body s) ∧ I (body s))
    {fuel : Nat} {s : σ} (hs : I s) :
    whileLoop cond' body' fuel (f s) = (whileLoop cond body fuel s).map f := by
  -- induction on the fuel, with the state free: each iteration commutes with `f`
  induction fuel generalizing s with
  | zero => rfl
  | succ n ih =>
      cases hc : cond s
      · rw [whileLoop_succ_of_not_cond hc, whileLoop_succ_of_not_cond (by rw [hcond s hs, hc])]
        rfl
      · obtain ⟨hb, hI⟩ := hstep s hs hc
        rw [whileLoop_succ_of_cond hc, whileLoop_succ_of_cond (by rw [hcond s hs, hc]), hb]
        exact ih hI

/-- The sequencing rule: a loop whose condition holds wherever this one's does, on the states
an invariant allows, runs through the state this one stops in and goes on from there. -/
theorem whileLoop_seq {cond' : σ → Bool} (I : σ → Prop)
    (hstep : ∀ s, I s → cond s = true → cond' s = true ∧ I (body s)) {fuel fuel' : Nat}
    {s r r' : σ} (hs : I s) (h : whileLoop cond body fuel s = some r)
    (h' : whileLoop cond' body fuel' r = some r') : whileLoop cond' body (fuel + fuel') s = some r' := by
  -- induction on the first loop's fuel: each of its iterations is one of the second loop
  induction fuel generalizing s with
  | zero => cases h
  | succ n ih =>
      cases hc : cond s
      · rw [whileLoop_succ_of_not_cond hc] at h
        cases h
        exact whileLoop_mono h' (by omega)
      · obtain ⟨hc', hI⟩ := hstep s hs hc
        rw [whileLoop_succ_of_cond hc] at h
        rw [show n + 1 + fuel' = n + fuel' + 1 by omega, whileLoop_succ_of_cond hc']
        exact ih hI h

end Bcachefs.Loop
