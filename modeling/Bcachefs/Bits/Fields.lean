import Mathlib

/-!
# `Bcachefs.Bits.Fields`: fields laid end to end, most significant first

A bit stream that holds fields of fixed widths one after the other, the first field
in the most significant bits, is the number `fieldsVal L` of its list of
`(width, value)` pairs. The packer builds that number one field at a time and the
unpacker peels it from the top, both by `fieldsVal_cons`: the first field sits above the
rest. The comparison of two streams with the same widths is the lexicographic comparison
of their fields (`mul_two_pow_add_lt_iff`).

* `fieldsWidth L`: the total width.
* `Fits L`: every value is below `2 ^` its width.
* `fieldsVal_lt`: a stream of fitting fields is below `2 ^ fieldsWidth L`.
* `fieldsVal_cons_div`, `fieldsVal_cons_read` and `fieldsVal_cons_rest`: the top field
  of a stream and the rest of it, also when the stream sits above lower bits.
* `mod_two_pow_div_split`: the bits of a number between two heads, split into the
  field at the top and the bits below it.
-/

set_option autoImplicit false

namespace Bcachefs.Bits

/-- The number whose bits are the fields of `L` end to end, first field on top. -/
def fieldsVal (L : List (Nat × Nat)) : Nat :=
  L.foldl (fun acc f => acc * 2 ^ f.1 + f.2) 0

/-- The total width of the fields of `L`. -/
def fieldsWidth (L : List (Nat × Nat)) : Nat := (L.map Prod.fst).sum

/-- Every value of `L` fits its width. -/
def Fits (L : List (Nat × Nat)) : Prop := ∀ f ∈ L, f.2 < 2 ^ f.1

/-- No fields make the stream `0`. -/
@[simp] theorem fieldsVal_nil : fieldsVal [] = 0 := rfl

/-- No fields take no bits. -/
@[simp] theorem fieldsWidth_nil : fieldsWidth [] = 0 := rfl

/-- A field in front adds its width. -/
@[simp] theorem fieldsWidth_cons (f : Nat × Nat) (L : List (Nat × Nat)) :
    fieldsWidth (f :: L) = f.1 + fieldsWidth L := by
  simp [fieldsWidth]

/-- The widths of two runs of fields add up. -/
@[simp] theorem fieldsWidth_append (L M : List (Nat × Nat)) :
    fieldsWidth (L ++ M) = fieldsWidth L + fieldsWidth M := by
  simp [fieldsWidth]

/-- A field in front fits, and so does the rest. -/
theorem fits_cons {f : Nat × Nat} {L : List (Nat × Nat)} :
    Fits (f :: L) ↔ f.2 < 2 ^ f.1 ∧ Fits L := by
  simp [Fits]

/-- The fold with a nonzero start: the start sits above the whole stream. -/
theorem foldl_fieldsVal (L : List (Nat × Nat)) (acc : Nat) :
    L.foldl (fun acc f => acc * 2 ^ f.1 + f.2) acc
      = acc * 2 ^ fieldsWidth L + fieldsVal L := by
  induction L generalizing acc with
  | nil => simp
  | cons f L ih =>
      -- the stream of `f :: L` is `f`'s value over `L`'s stream
      have hcons : fieldsVal (f :: L) = f.2 * 2 ^ fieldsWidth L + fieldsVal L := by
        show List.foldl _ (0 * 2 ^ f.1 + f.2) L = _
        rw [ih]
        simp
      rw [List.foldl_cons, ih, hcons, fieldsWidth_cons, pow_add]
      ring

/-- The top field of a stream sits above the rest. This is one step of the
unpacker. -/
theorem fieldsVal_cons (f : Nat × Nat) (L : List (Nat × Nat)) :
    fieldsVal (f :: L) = f.2 * 2 ^ fieldsWidth L + fieldsVal L := by
  rw [fieldsVal, List.foldl_cons, foldl_fieldsVal]
  simp

/-- A stream of fitting fields is below `2 ^` its width. -/
theorem fieldsVal_lt {L : List (Nat × Nat)} (h : Fits L) : fieldsVal L < 2 ^ fieldsWidth L := by
  induction L with
  | nil => simp
  | cons f L ih =>
      obtain ⟨hf, hL⟩ := fits_cons.mp h
      have hrest := ih hL
      -- the top field is below `2 ^ f.1`, and the rest below `2 ^` its width
      rw [fieldsVal_cons, fieldsWidth_cons, pow_add]
      calc f.2 * 2 ^ fieldsWidth L + fieldsVal L
          < f.2 * 2 ^ fieldsWidth L + 2 ^ fieldsWidth L := by omega
        _ = (f.2 + 1) * 2 ^ fieldsWidth L := by ring
        _ ≤ 2 ^ f.1 * 2 ^ fieldsWidth L := Nat.mul_le_mul_right _ hf

/-- The top field of a stream of fitting fields. -/
theorem fieldsVal_cons_div {f : Nat × Nat} {L : List (Nat × Nat)} (h : Fits L) :
    fieldsVal (f :: L) / 2 ^ fieldsWidth L = f.2 := by
  rw [fieldsVal_cons, Nat.add_comm, Nat.add_mul_div_right _ _ (Nat.two_pow_pos _),
    Nat.div_eq_of_lt (fieldsVal_lt h), Nat.zero_add]

/-- Reading the top field of a stream that sits `T` bits up, above `low`: the field
is the quotient by everything below it. -/
theorem fieldsVal_cons_read {b x : Nat} {L : List (Nat × Nat)} (T low : Nat) (h : Fits L)
    (hlow : low < 2 ^ T) :
    (fieldsVal ((b, x) :: L) * 2 ^ T + low) / 2 ^ (fieldsWidth L + T) = x := by
  rw [pow_add, Nat.mul_comm (2 ^ fieldsWidth L), ← Nat.div_div_eq_div_mul, Nat.add_comm,
    Nat.add_mul_div_right _ _ (Nat.two_pow_pos _), Nat.div_eq_of_lt hlow, Nat.zero_add,
    fieldsVal_cons_div h]

/-- What is left below the top field of a stream that sits `T` bits up, above `low`:
the rest of the stream, still `T` bits up. -/
theorem fieldsVal_cons_rest {b x : Nat} {L : List (Nat × Nat)} (T low : Nat) (h : Fits L)
    (hlow : low < 2 ^ T) :
    (fieldsVal ((b, x) :: L) * 2 ^ T + low) % 2 ^ (fieldsWidth L + T)
      = fieldsVal L * 2 ^ T + low := by
  have hlt : fieldsVal L * 2 ^ T + low < 2 ^ (fieldsWidth L + T) := by
    rw [pow_add]
    calc fieldsVal L * 2 ^ T + low < fieldsVal L * 2 ^ T + 2 ^ T := by omega
      _ = (fieldsVal L + 1) * 2 ^ T := by ring
      _ ≤ 2 ^ fieldsWidth L * 2 ^ T := Nat.mul_le_mul_right _ (fieldsVal_lt h)
  have hsplit : fieldsVal ((b, x) :: L) * 2 ^ T + low
      = fieldsVal L * 2 ^ T + low + x * 2 ^ (fieldsWidth L + T) := by
    rw [fieldsVal_cons, pow_add]
    ring
  rw [hsplit, Nat.add_mul_mod_self_right, Nat.mod_eq_of_lt hlt]

/-- Two numbers made of a high part over `k` low bits compare as their high parts, and
as their low parts when the high parts are equal. -/
theorem mul_two_pow_add_lt_iff {a b x y k : Nat} (hx : x < 2 ^ k) (hy : y < 2 ^ k) :
    a * 2 ^ k + x < b * 2 ^ k + y ↔ a < b ∨ (a = b ∧ x < y) := by
  constructor
  · intro h
    rcases Nat.lt_trichotomy a b with hab | hab | hab
    · exact .inl hab
    · subst hab
      exact .inr ⟨rfl, by omega⟩
    · -- a high part above the other's outweighs any low parts
      have : b * 2 ^ k + 2 ^ k ≤ a * 2 ^ k := by
        rw [← Nat.succ_mul]
        exact Nat.mul_le_mul_right _ hab
      omega
  · rintro (hab | ⟨rfl, hxy⟩)
    · have : a * 2 ^ k + 2 ^ k ≤ b * 2 ^ k := by
        rw [← Nat.succ_mul]
        exact Nat.mul_le_mul_right _ hab
      omega
    · omega

/-- A number made of a high part over `k` low bits determines both parts. -/
theorem mul_two_pow_add_inj {a b x y k : Nat} (hx : x < 2 ^ k) (hy : y < 2 ^ k) :
    a * 2 ^ k + x = b * 2 ^ k + y ↔ a = b ∧ x = y := by
  constructor
  · intro h
    -- compare the quotients and the remainders by `2 ^ k`
    have hdiv := congrArg (· / 2 ^ k) h
    have hmod := congrArg (· % 2 ^ k) h
    simp only [Nat.add_comm (_ * 2 ^ k), Nat.add_mul_div_right _ _ (Nat.two_pow_pos k),
      Nat.div_eq_of_lt hx, Nat.div_eq_of_lt hy, Nat.zero_add, Nat.add_mul_mod_self_right,
      Nat.mod_eq_of_lt hx, Nat.mod_eq_of_lt hy] at hdiv hmod
    exact ⟨hdiv, hmod⟩
  · rintro ⟨rfl, rfl⟩
    rfl

/-- The bits of `K` from `h - (a + c)` to `h` are its `a` bits below `h`, over its `c`
bits below those. -/
theorem mod_two_pow_div_split (K : Nat) {h a c : Nat} (hac : a + c ≤ h) :
    K % 2 ^ h / 2 ^ (h - (a + c)) =
      K % 2 ^ h / 2 ^ (h - a) * 2 ^ c + K % 2 ^ (h - a) / 2 ^ (h - a - c) := by
  have hlow : K % 2 ^ h % 2 ^ (h - a) = K % 2 ^ (h - a) :=
    Nat.mod_mod_of_dvd _ (pow_dvd_pow 2 (Nat.sub_le h a))
  have hsplit : (2 : Nat) ^ (h - a) = 2 ^ c * 2 ^ (h - (a + c)) := by
    rw [← pow_add]
    congr 1
    omega
  -- split `K % 2 ^ h` at bit `h - a`, and the upper part at bit `h - (a + c)`
  conv_lhs => rw [← Nat.div_add_mod (K % 2 ^ h) (2 ^ (h - a)), hlow, hsplit]
  rw [show 2 ^ c * 2 ^ (h - (a + c)) * (K % 2 ^ h / (2 ^ c * 2 ^ (h - (a + c)))) =
      (K % 2 ^ h / (2 ^ c * 2 ^ (h - (a + c))) * 2 ^ c) * 2 ^ (h - (a + c)) by ring,
    Nat.add_comm, Nat.add_mul_div_right _ _ (Nat.two_pow_pos _), Nat.add_comm, ← hsplit,
    show h - (a + c) = h - a - c by omega]

end Bcachefs.Bits
