import Bcachefs.Loop.While
import Mathlib.Algebra.Group.End
import Mathlib.Logic.Function.Iterate
import Mathlib.Data.List.Nodup

/-!
# `Bcachefs.Sorting.Heap`: bottom-up heapsort

The in-place heapsort of the kernel's `lib/sort.c`, which code that sorts fixed-size records
copies with its own comparison. The array is a function on indices, `ge x y` is the
comparison the code calls (`cmp(x, y) >= 0`), and each `while` loop runs on fuel that covers
its own bound (`Loop.While`).

The sift is the "bottom-up" one: it walks from the slot being sifted down to a leaf along
the larger children (`siftDescend`), backs up while the sifted entry is at least the entry
there (`siftBacktrack`), and then moves the entries on the way down by one level and the
sifted entry into the slot found (`siftRotate`), with swaps.

For any `ge` that is total and transitive, `heapSort_spec` shows the sort stops with an
array sorted by `ge` that is a permutation of the input on its first `num` entries. The
proof follows the code: `sift_spec` (the sift restores the heap order below a slot), the
build loop that makes the whole array a heap, and the extraction loop, which keeps a
sorted suffix of entries no smaller than any in the heap.

The path the descent takes is `pathPos`, the iterates of `descendNext` from the slot. It
climbs strictly until the leaf `pathLeaf`, each step going to a child of the step before.
-/

set_option autoImplicit false

namespace Bcachefs.Sorting

open Bcachefs.Loop

variable {α : Type*}

/-- `swap(base[i], base[j])`. -/
def swapAt (f : Nat → α) (i j : Nat) : Nat → α := fun k => f (Equiv.swap i j k)

/-- A swapped array reads the original through the swap of the two slots. -/
@[simp] theorem swapAt_apply (f : Nat → α) (i j k : Nat) : swapAt f i j k = f (Equiv.swap i j k) :=
  rfl

variable (ge : α → α → Bool)

/-- The first loop of the sift: from `b`, go to the larger child while both children are
in the heap (`for (b = a; c = 2*b + 1, (d = c + 1) < n;)`), then to a last child that has
no sibling (`if (d == n) b = c;`). -/
def siftDescend (f : Nat → α) (n b : Nat) : Option Nat :=
  (whileLoop (fun b => decide (2 * b + 2 < n))
      (fun b => if ge (f (2 * b + 1)) (f (2 * b + 2)) then 2 * b + 1 else 2 * b + 2)
      (n + 1) b).map
    fun b => if 2 * b + 2 = n then 2 * b + 1 else b

/-- The second loop: back up from `b` towards `a` while the entry at `a` is at least the
entry at `b` (`while (b != a && cmp_func(base + a, base + b) >= 0) b = (b - 1) / 2;`). -/
def siftBacktrack (f : Nat → α) (a b : Nat) : Option Nat :=
  whileLoop (fun b => b != a && ge (f a) (f b)) (fun b => (b - 1) / 2) (b + 1) b

/-- The third loop: `while (b != a) { b = (b - 1) / 2; swap(base[b], base[c]); }`, which
moves the entries on the way from `a` down to `c` up one level and the entry at `a` to
`c`. -/
def siftRotate (a c : Nat) (f : Nat → α) : Option (Nat → α) :=
  (whileLoop (fun s : Nat × (Nat → α) => s.1 != a)
      (fun s => ((s.1 - 1) / 2, swapAt s.2 ((s.1 - 1) / 2) c)) (c + 1) (c, f)).map Prod.snd

/-- Sift the entry at `a` down into the heap `[0, n)`. -/
def sift (f : Nat → α) (n a : Nat) : Option (Nat → α) :=
  (siftDescend ge f n a).bind fun b => (siftBacktrack ge f a b).bind fun c => siftRotate a c f

/-- The `for (;;)` loop of the sort: while `a` is nonzero it builds the heap by sifting
`--a`; then it swaps the root to `--n` and sifts the new root, until `n` reaches `0`. -/
def heapSortLoop : Nat → Nat → Nat → (Nat → α) → Option (Nat → α)
  | 0, _, _, _ => none
  | fuel + 1, a, n, f =>
      if a ≠ 0 then (sift ge f n (a - 1)).bind (heapSortLoop fuel (a - 1) n)
      else if n - 1 ≠ 0 then
        (sift ge (swapAt f 0 (n - 1)) (n - 1) 0).bind (heapSortLoop fuel 0 (n - 1))
      else some f

/-- The sort of the first `num` entries of `f`: `n = num`, `a = num / 2`, and nothing to
do when `a` is `0`. -/
def heapSort (f : Nat → α) (num : Nat) : Option (Nat → α) :=
  if num / 2 = 0 then some f else heapSortLoop ge (num / 2 + num + 1) (num / 2) num f

/-! ## Heap order -/

/-- The entry at `q` is at least each of its children in `[0, n)`. -/
def HeapAt (f : Nat → α) (n q : Nat) : Prop :=
  ∀ c, (c = 2 * q + 1 ∨ c = 2 * q + 2) → c < n → ge (f q) (f c) = true

/-- Every slot from `a` on is in heap order. -/
def HeapFrom (f : Nat → α) (n a : Nat) : Prop := ∀ q, a ≤ q → HeapAt ge f n q

/-- The first `num` entries are sorted by `ge`. -/
def Sorted (f : Nat → α) (num : Nat) : Prop :=
  ∀ i j, i < j → j < num → ge (f j) (f i) = true

/-- `g` is `f` with its entries in `[lo, hi)` permuted. -/
def PermOn (lo hi : Nat) (f g : Nat → α) : Prop :=
  ∃ σ : Equiv.Perm Nat, (∀ k, k < lo ∨ hi ≤ k → σ k = k) ∧ g = f ∘ σ

/-- An array is a permutation of itself. -/
theorem PermOn.refl (lo hi : Nat) (f : Nat → α) : PermOn lo hi f f :=
  ⟨1, fun _ _ => rfl, rfl⟩

/-- Permutations of one range compose. -/
theorem PermOn.trans {lo hi : Nat} {f g h : Nat → α} (hfg : PermOn lo hi f g)
    (hgh : PermOn lo hi g h) : PermOn lo hi f h := by
  obtain ⟨σ, hσ, rfl⟩ := hfg
  obtain ⟨τ, hτ, rfl⟩ := hgh
  refine ⟨σ * τ, fun k hk => ?_, rfl⟩
  rw [Equiv.Perm.mul_apply, hτ k hk, hσ k hk]

/-- A swap of two slots of `[lo, hi)` permutes `[lo, hi)`. -/
theorem PermOn.of_swapAt {lo hi i j : Nat} (f : Nat → α) (hi' : lo ≤ i ∧ i < hi)
    (hj : lo ≤ j ∧ j < hi) : PermOn lo hi f (swapAt f i j) := by
  refine ⟨Equiv.swap i j, fun k hk => ?_, rfl⟩
  exact Equiv.swap_apply_of_ne_of_ne (by omega) (by omega)

/-- A permutation of a range permutes every range around it. -/
theorem PermOn.widen {lo hi lo' hi' : Nat} {f g : Nat → α} (h : PermOn lo hi f g)
    (hlo : lo' ≤ lo) (hhi : hi ≤ hi') : PermOn lo' hi' f g := by
  obtain ⟨σ, hσ, rfl⟩ := h
  exact ⟨σ, fun k hk => hσ k (by omega), rfl⟩

/-- An entry of a permuted array is an entry of `[lo, hi)` of the original, or the
original entry at the same slot. -/
theorem PermOn.apply {lo hi : Nat} {f g : Nat → α} (h : PermOn lo hi f g) (k : Nat) :
    ∃ k', (lo ≤ k' ∧ k' < hi ∨ k' = k) ∧ g k = f k' := by
  obtain ⟨σ, hσ, rfl⟩ := h
  by_cases hk : k < lo ∨ hi ≤ k
  · exact ⟨k, Or.inr rfl, by rw [Function.comp_apply, hσ k hk]⟩
  · refine ⟨σ k, Or.inl ?_, rfl⟩
    -- `σ` fixes the slots outside `[lo, hi)`, so it maps the slots inside into it
    by_contra hout
    have hfix : σ (σ k) = σ k := hσ (σ k) (by omega)
    exact hk (by rw [σ.injective hfix] at hout; omega)

/-- The first `hi` entries of a permutation of `[0, hi)`, read as a list, are a
permutation of the original's. -/
theorem PermOn.perm_map_range {hi : Nat} {f g : Nat → α} (h : PermOn 0 hi f g) :
    ((List.range hi).map g).Perm ((List.range hi).map f) := by
  obtain ⟨σ, hσ, rfl⟩ := h
  -- a permutation fixing every slot from `hi` on maps the slots below `hi` among themselves
  have hinside : ∀ τ : Equiv.Perm Nat, (∀ k, hi ≤ k → τ k = k) → ∀ k, k < hi → τ k < hi := by
    intro τ hτ k hk
    by_contra hout
    have hfix : τ (τ k) = τ k := hτ (τ k) (by omega)
    rw [τ.injective hfix] at hout
    exact hout hk
  have hσ' : ∀ k, hi ≤ k → σ k = k := fun k hk => hσ k (Or.inr hk)
  have hσsymm : ∀ k, hi ≤ k → σ.symm k = k := fun k hk => by
    rw [Equiv.symm_apply_eq, hσ' k hk]
  have hrange : ((List.range hi).map σ).Perm (List.range hi) := by
    rw [List.perm_ext_iff_of_nodup (List.nodup_range.map σ.injective) List.nodup_range]
    intro x
    simp only [List.mem_map, List.mem_range]
    constructor
    · rintro ⟨k, hk, rfl⟩
      exact hinside σ hσ' k hk
    · intro hx
      exact ⟨σ.symm x, hinside σ.symm hσsymm x hx, σ.apply_symm_apply x⟩
  rw [← List.map_map]
  exact hrange.map f

/-! ## The path of the descent -/

/-- One step of the descent: to the larger child when both are in the heap, to a last
child without a sibling, and nowhere from a leaf. -/
def descendNext (f : Nat → α) (n b : Nat) : Nat :=
  if 2 * b + 2 < n then (if ge (f (2 * b + 1)) (f (2 * b + 2)) then 2 * b + 1 else 2 * b + 2)
  else if 2 * b + 2 = n then 2 * b + 1 else b

/-- The slot the descent from `a` is at after `i` steps. -/
def pathPos (f : Nat → α) (n a i : Nat) : Nat := (descendNext ge f n)^[i] a

attribute [grind] descendNext

section Path

variable {ge} {f : Nat → α} {n : Nat}

/-- The path starts at `a`. -/
theorem pathPos_zero (a : Nat) : pathPos ge f n a 0 = a := rfl

/-- Each step of the path is one step of the descent. -/
theorem pathPos_succ (a i : Nat) :
    pathPos ge f n a (i + 1) = descendNext ge f n (pathPos ge f n a i) :=
  Function.iterate_succ_apply' _ _ _

/-- From a slot with a child in the heap, the descent goes to a child in the heap. -/
theorem descendNext_child {b : Nat} (h : 2 * b + 1 < n) :
    (descendNext ge f n b = 2 * b + 1 ∨ descendNext ge f n b = 2 * b + 2) ∧
      descendNext ge f n b < n := by
  unfold descendNext
  -- two children in the heap, or a last child without a sibling
  by_cases h2 : 2 * b + 2 < n
  · rw [if_pos h2]
    split_ifs <;> omega
  · rw [if_neg h2, if_pos (by omega)]
    omega

/-- From a slot with a child in the heap, the descent's parent is the slot. -/
theorem parent_descendNext {b : Nat} (h : 2 * b + 1 < n) : (descendNext ge f n b - 1) / 2 = b := by
  rcases (@descendNext_child _ ge f _ _ h).1 with h' | h' <;> rw [h'] <;> omega

/-- The descent goes to the larger child: its entry is at least each child's in the heap. -/
theorem ge_descendNext (htotal : ∀ x y, ge x y = true ∨ ge y x = true) {b : Nat}
    (h : 2 * b + 1 < n) {c : Nat} (hc : c = 2 * b + 1 ∨ c = 2 * b + 2) (hcn : c < n) :
    ge (f (descendNext ge f n b)) (f c) = true := by
  have hrefl : ∀ x, ge x x = true := fun x => (htotal x x).elim id id
  unfold descendNext
  by_cases h2 : 2 * b + 2 < n
  · rw [if_pos h2]
    -- the comparison picks the child the other is at most
    by_cases hcmp : ge (f (2 * b + 1)) (f (2 * b + 2)) = true
    · rw [if_pos hcmp]
      rcases hc with rfl | rfl
      · exact hrefl _
      · exact hcmp
    · rw [if_neg hcmp]
      rcases hc with rfl | rfl
      · exact (htotal _ _).resolve_left hcmp
      · exact hrefl _
  · -- a last child without a sibling: it is the only child in the heap
    rw [if_neg h2, if_pos (by omega)]
    have : c = 2 * b + 1 := by omega
    rw [this]
    exact hrefl _

variable {a k : Nat} (hk : ∀ l < k, 2 * pathPos ge f n a l + 1 < n)
include hk

/-- Before the leaf, each slot of the path is a child, in the heap, of the slot before. -/
theorem pathPos_succ_child {l : Nat} (hl : l < k) :
    (pathPos ge f n a (l + 1) = 2 * pathPos ge f n a l + 1 ∨
        pathPos ge f n a (l + 1) = 2 * pathPos ge f n a l + 2) ∧
      pathPos ge f n a (l + 1) < n := by
  rw [pathPos_succ]
  exact descendNext_child (hk l hl)

/-- Before the leaf, the parent of each next slot of the path is the slot before. -/
theorem parent_pathPos_succ {l : Nat} (hl : l < k) :
    (pathPos ge f n a (l + 1) - 1) / 2 = pathPos ge f n a l := by
  rw [pathPos_succ]
  exact parent_descendNext (hk l hl)

/-- The path climbs strictly up to the leaf. -/
theorem pathPos_lt_pathPos {l m : Nat} (hlm : l < m) (hm : m ≤ k) :
    pathPos ge f n a l < pathPos ge f n a m := by
  induction m with
  | zero => omega
  | succ m ih =>
      -- each step goes to a child, so further down
      have hstep : pathPos ge f n a m < pathPos ge f n a (m + 1) := by
        rcases (pathPos_succ_child hk (show m < k by omega)).1 with h | h <;> omega
      rcases Nat.lt_succ_iff_lt_or_eq.mp hlm with h | rfl
      · exact Nat.lt_trans (ih h (by omega)) hstep
      · exact hstep

/-- No slot is on the path twice. -/
theorem pathPos_inj {l m : Nat} (hl : l ≤ k) (hm : m ≤ k)
    (h : pathPos ge f n a l = pathPos ge f n a m) : l = m := by
  rcases Nat.lt_trichotomy l m with hlm | hlm | hlm
  · exact absurd h (Nat.ne_of_lt (pathPos_lt_pathPos hk hlm hm))
  · exact hlm
  · exact absurd h.symm (Nat.ne_of_lt (pathPos_lt_pathPos hk hlm hl))

/-- The path stays at or below its start. -/
theorem le_pathPos (l : Nat) (hl : l ≤ k) : a ≤ pathPos ge f n a l := by
  rcases Nat.eq_zero_or_pos l with rfl | hpos
  · exact Nat.le_refl a
  · exact Nat.le_of_lt (pathPos_lt_pathPos hk hpos hl)

/-- From a slot of the heap the path stays in the heap. -/
theorem pathPos_lt (ha : a < n) (l : Nat) (hl : l ≤ k) : pathPos ge f n a l < n := by
  rcases l with _ | l
  · exact ha
  · exact (pathPos_succ_child hk (by omega)).2

/-- A child of a slot on the path is on the path only as the next slot. -/
theorem eq_succ_of_child_pathPos {l m : Nat} (hl : l ≤ k) (hm : m ≤ k)
    (hc : pathPos ge f n a m = 2 * pathPos ge f n a l + 1 ∨
      pathPos ge f n a m = 2 * pathPos ge f n a l + 2) : m = l + 1 := by
  rcases m with _ | m
  · -- the start of the path is below every slot of it
    have := le_pathPos hk l hl
    rw [pathPos_zero] at hc
    omega
  · have hpar := parent_pathPos_succ hk (show m < k by omega)
    have : pathPos ge f n a m = pathPos ge f n a l := by
      rw [← hpar]
      omega
    rw [pathPos_inj hk (by omega) hl this]

end Path

/-! ## The three loops of the sift -/

/-- What the rotation leaves: the sifted entry at the stop `j`, each entry above it on the
path moved up one slot, and every other slot as it was. -/
structure Rotated (f : Nat → α) (n a j : Nat) (g : Nat → α) : Prop where
  stop : g (pathPos ge f n a j) = f a
  above : ∀ l < j, g (pathPos ge f n a l) = f (pathPos ge f n a (l + 1))
  off : ∀ q, (∀ l ≤ j, q ≠ pathPos ge f n a l) → g q = f q

section Loops

variable {ge} (f : Nat → α) (n : Nat)

/-- The descent stops at the first leaf of the path, after `k` steps. -/
theorem siftDescend_spec (a : Nat) :
    ∃ k, siftDescend ge f n a = some (pathPos ge f n a k) ∧ n ≤ 2 * pathPos ge f n a k + 1 ∧
      ∀ l < k, 2 * pathPos ge f n a l + 1 < n := by
  -- the loop keeps to the path, through slots that are not leaves
  let I : Nat → Prop := fun b => ∃ i, b = pathPos ge f n a i ∧ ∀ l < i, 2 * pathPos ge f n a l + 1 < n
  have hstep : ∀ b, I b → decide (2 * b + 2 < n) = true →
      I (if ge (f (2 * b + 1)) (f (2 * b + 2)) then 2 * b + 1 else 2 * b + 2) ∧
        n - (if ge (f (2 * b + 1)) (f (2 * b + 2)) then 2 * b + 1 else 2 * b + 2) < n - b := by
    rintro b ⟨i, rfl, hi⟩ hc
    have hc' : 2 * pathPos ge f n a i + 2 < n := of_decide_eq_true hc
    have hnext : descendNext ge f n (pathPos ge f n a i) =
        if ge (f (2 * pathPos ge f n a i + 1)) (f (2 * pathPos ge f n a i + 2)) then
          2 * pathPos ge f n a i + 1 else 2 * pathPos ge f n a i + 2 := by
      rw [descendNext, if_pos hc']
    refine ⟨⟨i + 1, by rw [pathPos_succ, hnext], fun l hl => ?_⟩, by split_ifs <;> omega⟩
    rcases Nat.lt_succ_iff_lt_or_eq.mp hl with hl | rfl
    · exact hi l hl
    · omega
  have hI0 : I a := ⟨0, rfl, fun l hl => absurd hl (Nat.not_lt_zero l)⟩
  obtain ⟨b, hb⟩ := whileLoop_isSome_of_measure I (fun b => n - b) hstep hI0
    (show n - a < n + 1 by omega)
  obtain ⟨⟨i, rfl, hi⟩, hexit⟩ := whileLoop_inv I (fun b hb hc => (hstep b hb hc).1) hI0 hb
  have hexit' : ¬ 2 * pathPos ge f n a i + 2 < n := by simpa using hexit
  unfold siftDescend
  rw [hb, Option.map_some]
  by_cases hlast : 2 * pathPos ge f n a i + 2 = n
  · -- a last child without a sibling is one more step, to a leaf
    refine ⟨i + 1, ?_, ?_, fun l hl => ?_⟩
    · rw [if_pos hlast, pathPos_succ, descendNext, if_neg hexit', if_pos hlast]
    · rw [pathPos_succ, descendNext, if_neg hexit', if_pos hlast]
      omega
    · rcases Nat.lt_succ_iff_lt_or_eq.mp hl with hl | rfl
      · exact hi l hl
      · omega
  · exact ⟨i, by rw [if_neg hlast], by omega, hi⟩

variable {a k : Nat} (hk : ∀ l < k, 2 * pathPos ge f n a l + 1 < n)
include hk

/-- The backtrack stops on the path at `j`: the sifted entry is at least every entry below
`j` on the path, and smaller than the entry at `j` unless `j` is the start. -/
theorem siftBacktrack_spec :
    ∃ j ≤ k, siftBacktrack ge f a (pathPos ge f n a k) = some (pathPos ge f n a j) ∧
      (∀ l, j < l → l ≤ k → ge (f a) (f (pathPos ge f n a l)) = true) ∧
      (j = 0 ∨ ge (f a) (f (pathPos ge f n a j)) = false) := by
  -- the loop walks up the path; the sifted entry is at least everything passed
  let I : Nat → Prop := fun b => ∃ i ≤ k, b = pathPos ge f n a i ∧
    ∀ l, i < l → l ≤ k → ge (f a) (f (pathPos ge f n a l)) = true
  have hstep : ∀ b, I b → (b != a && ge (f a) (f b)) = true → I ((b - 1) / 2) ∧ (b - 1) / 2 < b := by
    rintro b ⟨i, hik, rfl, hi⟩ hc
    simp only [Bool.and_eq_true, bne_iff_ne, ne_eq] at hc
    obtain ⟨hne, hge⟩ := hc
    obtain ⟨i, rfl⟩ : ∃ i', i = i' + 1 := ⟨i - 1, by
      rcases i with _ | i
      · exact absurd (pathPos_zero a) hne
      · rfl⟩
    have hpar := parent_pathPos_succ hk (show i < k by omega)
    have hlt := pathPos_lt_pathPos hk (Nat.lt_succ_self i) hik
    refine ⟨⟨i, by omega, hpar, fun l hl hlk => ?_⟩, by rw [hpar]; exact hlt⟩
    rcases Nat.lt_or_ge (i + 1) l with h | h
    · exact hi l h hlk
    · rw [show l = i + 1 by omega]
      exact hge
  have hI0 : I (pathPos ge f n a k) := ⟨k, Nat.le_refl k, rfl, fun l hl hlk => absurd hlk (by omega)⟩
  obtain ⟨c, hc⟩ := whileLoop_isSome_of_measure I id hstep hI0 (Nat.lt_succ_self _)
  obtain ⟨⟨j, hjk, rfl, hj⟩, hexit⟩ := whileLoop_inv I (fun b hb hc => (hstep b hb hc).1) hI0 hc
  refine ⟨j, hjk, hc, hj, ?_⟩
  simp only [Bool.and_eq_false_iff, bne_eq_false_iff_eq] at hexit
  rcases hexit with h | h
  · exact Or.inl (pathPos_inj hk hjk (Nat.zero_le k) h)
  · exact Or.inr h

/-- The rotation from the stop `j` up to `a` stops, leaves the entries as `Rotated` says, and
permutes `[a, n)`. -/
theorem siftRotate_spec (ha : a < n) {j : Nat} (hjk : j ≤ k) :
    ∃ g, siftRotate a (pathPos ge f n a j) f = some g ∧ Rotated ge f n a j g ∧ PermOn a n f g := by
  -- after the swaps up to slot `t` of the path: the entry of `t` sits at `j`
  let I : Nat × (Nat → α) → Prop := fun s => ∃ t ≤ j, s.1 = pathPos ge f n a t ∧
    s.2 (pathPos ge f n a j) = f (pathPos ge f n a t) ∧
    (∀ l, t ≤ l → l < j → s.2 (pathPos ge f n a l) = f (pathPos ge f n a (l + 1))) ∧
    (∀ q, (∀ l, t ≤ l → l ≤ j → q ≠ pathPos ge f n a l) → s.2 q = f q) ∧ PermOn a n f s.2
  have hpos : ∀ l ≤ k, a ≤ pathPos ge f n a l ∧ pathPos ge f n a l < n :=
    fun l hl => ⟨le_pathPos hk l hl, pathPos_lt hk ha l hl⟩
  have hstep : ∀ s, I s → (s.1 != a) = true →
      I ((s.1 - 1) / 2, swapAt s.2 ((s.1 - 1) / 2) (pathPos ge f n a j)) ∧ (s.1 - 1) / 2 < s.1 := by
    rintro ⟨b, g⟩ ⟨t, htj, hb, hstop, habove, hoff, hperm⟩ hne
    simp only [bne_iff_ne, ne_eq] at hne hb
    subst hb
    obtain ⟨t, rfl⟩ : ∃ t', t = t' + 1 := ⟨t - 1, by
      rcases t with _ | t
      · exact absurd (pathPos_zero a) hne
      · rfl⟩
    have hpar := parent_pathPos_succ hk (show t < k by omega)
    have hlt := pathPos_lt_pathPos hk (Nat.lt_succ_self t) (show t + 1 ≤ k by omega)
    simp only [hpar]
    dsimp only at hstop habove hoff hperm ⊢
    have hne_tj : pathPos ge f n a t ≠ pathPos ge f n a j :=
      fun h => by have := pathPos_inj hk (by omega) hjk h; omega
    refine ⟨⟨t, by omega, rfl, ?_, fun l htl hlj => ?_, fun q hq => ?_, ?_⟩, hlt⟩
    · -- the slot `t` was untouched so far, and its entry now sits at `j`
      dsimp only
      rw [swapAt_apply, Equiv.swap_apply_right]
      exact hoff _ fun l htl hlj h => by
        have := pathPos_inj hk (by omega) (by omega) h
        omega
    · dsimp only
      rcases Nat.lt_or_ge t l with h | h
      · have hne_l : pathPos ge f n a l ≠ pathPos ge f n a t :=
          fun e => by have := pathPos_inj hk (by omega) (by omega) e; omega
        have hne_lj : pathPos ge f n a l ≠ pathPos ge f n a j :=
          fun e => by have := pathPos_inj hk (by omega) hjk e; omega
        rw [swapAt_apply, Equiv.swap_apply_of_ne_of_ne hne_l hne_lj]
        exact habove l (by omega) hlj
      · rw [show l = t by omega, swapAt_apply, Equiv.swap_apply_left]
        exact hstop
    · dsimp only
      have hq_t : q ≠ pathPos ge f n a t := hq t (Nat.le_refl t) (by omega)
      have hq_j : q ≠ pathPos ge f n a j := hq j (by omega) (Nat.le_refl j)
      rw [swapAt_apply, Equiv.swap_apply_of_ne_of_ne hq_t hq_j]
      exact hoff q fun l htl hlj => hq l (by omega) hlj
    · exact hperm.trans (PermOn.of_swapAt g (hpos t (by omega)) (hpos j hjk))
  have hI0 : I (pathPos ge f n a j, f) :=
    ⟨j, Nat.le_refl j, rfl, rfl, fun l hjl hlj => absurd hlj (by omega), fun q _ => rfl,
      PermOn.refl a n f⟩
  obtain ⟨r, hr⟩ := whileLoop_isSome_of_measure I Prod.fst hstep hI0 (Nat.lt_succ_self _)
  obtain ⟨⟨t, htj, hb, hstop, habove, hoff, hperm⟩, hexit⟩ :=
    whileLoop_inv I (fun s hs hc => (hstep s hs hc).1) hI0 hr
  simp only [bne_eq_false_iff_eq] at hexit
  -- the walk ended at the start of the path
  have ht : t = 0 := pathPos_inj hk (by omega) (Nat.zero_le k) (hb.symm.trans hexit)
  subst ht
  refine ⟨r.2, by unfold siftRotate; rw [hr, Option.map_some], ⟨hstop, fun l hl => habove l
    (Nat.zero_le l) hl, fun q hq => hoff q fun l _ hl => hq l hl⟩, hperm⟩

end Loops

/-! ## The sift -/

section Sift

variable {ge} (htotal : ∀ x y, ge x y = true ∨ ge y x = true)
  (htrans : ∀ x y z, ge x y = true → ge y z = true → ge x z = true)

/-- A slot whose child is on the path of the descent is on it too, one step earlier. -/
theorem pathPos_of_child {f : Nat → α} {n a k : Nat} (hk : ∀ l < k, 2 * pathPos ge f n a l + 1 < n)
    {q m : Nat} (hq : a ≤ q) (hm : m ≤ k)
    (hc : pathPos ge f n a m = 2 * q + 1 ∨ pathPos ge f n a m = 2 * q + 2) :
    ∃ l, m = l + 1 ∧ q = pathPos ge f n a l := by
  rcases m with _ | l
  · rw [pathPos_zero] at hc
    omega
  -- the parent of the child is `q`, and the slot before
  · refine ⟨l, rfl, ?_⟩
    rw [← parent_pathPos_succ hk (show l < k by omega)]
    omega

include htotal htrans in
/-- The sift puts the slot `a` in heap order over slots that were in order below it, by
a permutation of `[a, n)`. -/
theorem sift_spec (f : Nat → α) {n a : Nat} (ha : a < n) (hheap : HeapFrom ge f n (a + 1)) :
    ∃ g, sift ge f n a = some g ∧ HeapFrom ge g n a ∧ PermOn a n f g := by
  obtain ⟨k, hdesc, hleaf, hk⟩ := siftDescend_spec f n a
  obtain ⟨j, hjk, hback, hbelow, hstopj⟩ := siftBacktrack_spec f n hk
  obtain ⟨g, hrot, hR, hperm⟩ := siftRotate_spec f n hk ha hjk
  refine ⟨g, by unfold sift; rw [hdesc, Option.bind_some, hback, Option.bind_some, hrot], ?_, hperm⟩
  have hP : ∀ l < k, (pathPos ge f n a (l + 1) = 2 * pathPos ge f n a l + 1 ∨
      pathPos ge f n a (l + 1) = 2 * pathPos ge f n a l + 2) ∧ pathPos ge f n a (l + 1) < n :=
    fun l hl => pathPos_succ_child hk hl
  have hlt : ∀ l m, l < m → m ≤ k → pathPos ge f n a l < pathPos ge f n a m :=
    fun l m hlm hm => pathPos_lt_pathPos hk hlm hm
  -- off the path from `a` to `j`, the rotation changes nothing
  have hoff : ∀ q, (∀ l ≤ k, q ≠ pathPos ge f n a l) → g q = f q :=
    fun q hq => hR.off q fun l hl => hq l (by omega)
  have hoff_succ : ∀ l, j < l → l ≤ k → g (pathPos ge f n a l) = f (pathPos ge f n a l) :=
    fun l hjl hlk => hR.off _ fun m hm e => by
      have := pathPos_inj hk hlk (by omega) e
      omega
  -- a child in the heap of a slot on the path is the next slot, or off the path
  have hchild : ∀ l, l ≤ k → ∀ c, (c = 2 * pathPos ge f n a l + 1 ∨ c = 2 * pathPos ge f n a l + 2) →
      c = pathPos ge f n a (l + 1) ∨ ∀ m ≤ k, c ≠ pathPos ge f n a m := by
    intro l hl c hc
    by_cases hon : ∃ m ≤ k, c = pathPos ge f n a m
    · obtain ⟨m, hm, rfl⟩ := hon
      exact Or.inl (by rw [eq_succ_of_child_pathPos hk hl hm hc])
    · exact Or.inr fun m hm e => hon ⟨m, hm, e⟩
  have hfrom : ∀ l, 1 ≤ l → l ≤ k → a + 1 ≤ pathPos ge f n a l :=
    fun l h1 hl => hlt 0 l h1 hl
  intro q hq c hc hcn
  by_cases hon : ∃ l ≤ k, q = pathPos ge f n a l
  · obtain ⟨l, hlk, rfl⟩ := hon
    rcases Nat.lt_trichotomy l j with hlj | rfl | hjl
    · -- above the stop: the slot now holds the next entry of the path
      rw [hR.above l hlj]
      rcases hchild l hlk c hc with rfl | hcoff
      · by_cases hnext : l + 1 < j
        · rw [hR.above (l + 1) hnext]
          exact hheap _ (hfrom (l + 1) (by omega) (by omega)) _ (hP (l + 1) (by omega)).1
            (hP (l + 1) (by omega)).2
        · rw [show l + 1 = j by omega, hR.stop]
          exact (htotal _ _).resolve_left (by
            rcases hstopj with h0 | h
            · omega
            · rw [h]; decide)
      · rw [hoff c hcoff, pathPos_succ]
        exact ge_descendNext htotal (hk l (by omega)) hc hcn
    · -- the stop: the sifted entry, at least everything below it on the path
      rw [hR.stop]
      have hjk' : l < k := by
        rcases Nat.lt_or_ge l k with h | h
        · exact h
        · have : l = k := by omega
          subst this
          omega
      have hnext : ge (f a) (f (pathPos ge f n a (l + 1))) = true := hbelow (l + 1) (by omega) (by omega)
      rcases hchild l hlk c hc with rfl | hcoff
      · rw [hoff_succ (l + 1) (by omega) (by omega)]
        exact hnext
      · rw [hoff c hcoff]
        exact htrans _ _ _ hnext (by rw [pathPos_succ]; exact ge_descendNext htotal (hk l hjk') hc hcn)
    · -- below the stop nothing moved
      rw [hoff_succ l hjl hlk]
      have hgc : g c = f c := by
        rcases hchild l hlk c hc with rfl | hcoff
        · exact hoff_succ (l + 1) (by omega) (by
            by_contra hgt
            have : l = k := by omega
            subst this
            omega)
        · exact hoff c hcoff
      rw [hgc]
      exact hheap _ (hfrom l (by omega) hlk) c hc hcn
  · -- off the path: the slot and its children are untouched
    have hqoff : ∀ l ≤ k, q ≠ pathPos ge f n a l := fun l hl e => hon ⟨l, hl, e⟩
    have hcoff : ∀ m ≤ k, c ≠ pathPos ge f n a m := by
      intro m hm e
      obtain ⟨l, rfl, hql⟩ := pathPos_of_child hk hq hm (by rw [← e]; exact hc)
      exact hqoff l (by omega) hql
    rw [hoff q hqoff, hoff c hcoff]
    have hqa : a + 1 ≤ q := by
      have := hqoff 0 (Nat.zero_le k)
      rw [pathPos_zero] at this
      omega
    exact hheap q hqa c hc hcn

end Sift

/-! ## The sort -/

/-- What the sort loop keeps, for the input `f₀` of `num` entries: the array is a
permutation of the input; while `a` is nonzero, the heap over all `num` entries is in
order from `a`; once it is zero, `[0, n)` is a heap, `[n, num)` is sorted, and no entry
of the heap is above an entry of the sorted part. -/
structure LoopInv (f₀ : Nat → α) (num a n : Nat) (f : Nat → α) : Prop where
  perm : PermOn 0 num f₀ f
  le_num : n ≤ num
  build : a ≠ 0 → n = num ∧ a ≤ num / 2 ∧ HeapFrom ge f num a
  heap : a = 0 → HeapFrom ge f n 0
  sorted : a = 0 → ∀ i j, n ≤ i → i < j → j < num → ge (f j) (f i) = true
  cross : a = 0 → ∀ i j, i < n → n ≤ j → j < num → ge (f j) (f i) = true

section Extract

variable {ge} (htotal : ∀ x y, ge x y = true ∨ ge y x = true)
  (htrans : ∀ x y z, ge x y = true → ge y z = true → ge x z = true)
include htotal htrans

/-- The root of a heap is at least every entry of it. -/
theorem ge_root {f : Nat → α} {n : Nat} (h : HeapFrom ge f n 0) :
    ∀ i < n, ge (f 0) (f i) = true := by
  intro i
  induction i using Nat.strongRecOn with
  | ind i ih =>
      intro hi
      rcases Nat.eq_zero_or_pos i with rfl | hpos
      · exact (htotal (f 0) (f 0)).elim id id
      · -- up one level to the parent, which is in order over `i`
        have hpar : (i - 1) / 2 < i := by omega
        exact htrans _ _ _ (ih _ hpar (by omega)) (h _ (Nat.zero_le _) i (by omega) hi)

/-- One round of the extraction: the root goes to the end of the heap, and the sift of
the new root restores the heap in front of it. -/
theorem loopInv_extract {f₀ f : Nat → α} {num n : Nat} (hinv : LoopInv ge f₀ num 0 n f)
    (hn : n - 1 ≠ 0) :
    ∃ g, sift ge (swapAt f 0 (n - 1)) (n - 1) 0 = some g ∧ LoopInv ge f₀ num 0 (n - 1) g := by
  have hheap := hinv.heap rfl
  have hroot := ge_root htotal htrans hheap
  have hn' := hinv.le_num
  -- after the swap the slots from 1 on are still in order within `[0, n - 1)`
  have hheap1 : HeapFrom ge (swapAt f 0 (n - 1)) (n - 1) 1 := by
    intro q hq c hc hcn
    rw [swapAt_apply, swapAt_apply, Equiv.swap_apply_of_ne_of_ne (by omega) (by omega),
      Equiv.swap_apply_of_ne_of_ne (by omega) (by omega)]
    exact hheap q (Nat.zero_le q) c hc (by omega)
  obtain ⟨g, hsift, hgheap, hgperm⟩ := sift_spec htotal htrans _ (by omega) hheap1
  -- the sift moved nothing from `n - 1` on
  have hfix : ∀ k, n - 1 ≤ k → g k = swapAt f 0 (n - 1) k := by
    intro k hk
    obtain ⟨σ, hσ, rfl⟩ := hgperm
    rw [Function.comp_apply, hσ k (Or.inr hk)]
  have htail : ∀ k, n - 1 ≤ k → g k = if k = n - 1 then f 0 else f k := by
    intro k hk
    rw [hfix k hk, swapAt_apply]
    split_ifs with h
    · rw [h, Equiv.swap_apply_right]
    · rw [Equiv.swap_apply_of_ne_of_ne (by omega) h]
  refine ⟨g, hsift, ⟨?_, by omega, fun h => absurd rfl h, fun _ => hgheap, fun _ i j hi hij hj => ?_,
    fun _ i j hi hj hjn => ?_⟩⟩
  · exact hinv.perm.trans ((PermOn.of_swapAt f ⟨Nat.zero_le 0, by omega⟩
      ⟨Nat.zero_le _, by omega⟩).trans (hgperm.widen (Nat.le_refl 0) (by omega)))
  · rw [htail i hi, htail j (by omega), if_neg (by omega)]
    split_ifs with h
    · exact hinv.cross rfl 0 j (by omega) (by omega) hj
    · exact hinv.sorted rfl i j (by omega) hij hj
  · -- an entry of the new heap came from the old heap
    obtain ⟨k', hk', hgi⟩ := hgperm.apply i
    have hk'lt : k' < n - 1 := by omega
    rw [hgi, swapAt_apply, htail j hj]
    have hfrom : ∃ m < n, f (Equiv.swap 0 (n - 1) k') = f m := by
      by_cases h0 : k' = 0
      · exact ⟨n - 1, by omega, by rw [h0, Equiv.swap_apply_left]⟩
      · exact ⟨k', by omega, by rw [Equiv.swap_apply_of_ne_of_ne h0 (by omega)]⟩
    obtain ⟨m, hm, hfm⟩ := hfrom
    rw [hfm]
    split_ifs with h
    · exact hroot m hm
    · exact hinv.cross rfl m j hm (by omega) hjn

/-- The run lemma of the sort loop: from a state of the invariant, with fuel above
`a + n`, the loop stops with the input sorted. -/
theorem heapSortLoop_spec (f₀ : Nat → α) (num : Nat) :
    ∀ fuel a n (f : Nat → α), LoopInv ge f₀ num a n f → a + n < fuel →
      ∃ g, heapSortLoop ge fuel a n f = some g ∧ Sorted ge g num ∧ PermOn 0 num f₀ g := by
  intro fuel
  induction fuel with
  | zero => intro a n f _ h; omega
  | succ fuel ih =>
      intro a n f hinv hfuel
      by_cases ha : a ≠ 0
      · -- building the heap: sift `a - 1`
        obtain ⟨hn, hale, hbuild⟩ := hinv.build ha
        have hheap : HeapFrom ge f n (a - 1 + 1) := by
          rw [Nat.sub_add_cancel (Nat.pos_of_ne_zero ha), hn]
          exact hbuild
        obtain ⟨g, hsift, hgheap, hgperm⟩ := sift_spec htotal htrans f (by omega) hheap
        have hinv' : LoopInv ge f₀ num (a - 1) n g := by
          refine ⟨hinv.perm.trans (hgperm.widen (Nat.zero_le _) (by omega)), hinv.le_num,
            fun _ => ⟨hn, by omega, hn ▸ hgheap⟩, fun h => by rw [← h]; exact hgheap,
            fun _ i j hi hij hj => ?_, fun _ i j hi hj hjn => ?_⟩
          -- the sorted part is still empty while building
          · omega
          · omega
        obtain ⟨r, hr, hsorted, hperm⟩ := ih (a - 1) n g hinv' (by omega)
        exact ⟨r, by rw [heapSortLoop, if_pos ha, hsift, Option.bind_some, hr], hsorted, hperm⟩
      · have ha0 : a = 0 := by omega
        subst ha0
        by_cases hn : n - 1 ≠ 0
        · obtain ⟨g, hsift, hinv'⟩ := loopInv_extract htotal htrans hinv hn
          obtain ⟨r, hr, hsorted, hperm⟩ := ih 0 (n - 1) g hinv' (by omega)
          exact ⟨r, by rw [heapSortLoop, if_neg ha, if_pos hn, hsift, Option.bind_some, hr],
            hsorted, hperm⟩
        · -- at most one entry left in the heap: the whole array is sorted
          refine ⟨f, by rw [heapSortLoop, if_neg ha, if_neg hn], fun i j hij hj => ?_, hinv.perm⟩
          by_cases hi : n ≤ i
          · exact hinv.sorted rfl i j hi hij hj
          · exact hinv.cross rfl i j (by omega) (by omega) hj

/-- The sort stops, and leaves the first `num` entries sorted by `ge` and permuted. -/
theorem heapSort_spec (f : Nat → α) (num : Nat) :
    ∃ g, heapSort ge f num = some g ∧ Sorted ge g num ∧ PermOn 0 num f g := by
  unfold heapSort
  by_cases h : num / 2 = 0
  · -- fewer than two entries
    rw [if_pos h]
    exact ⟨f, rfl, fun i j hij hj => by omega, PermOn.refl 0 num f⟩
  · rw [if_neg h]
    -- the loop starts building, with nothing sorted and every slot from `num / 2` on a leaf
    refine heapSortLoop_spec htotal htrans f num _ _ _ f ⟨PermOn.refl 0 num f, Nat.le_refl num,
      fun _ => ⟨rfl, Nat.le_refl _, fun q hq c hc hcn => by omega⟩, fun h' => absurd h' h,
      fun h' => absurd h' h, fun h' => absurd h' h⟩ (by omega)

end Extract

end Bcachefs.Sorting
