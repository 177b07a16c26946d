import Bcachefs.Data.Checksum
import Bcachefs.Crc.Linear
import Mathlib.Tactic.SplitIfs

/-!
# Merged checksums are checksums of the concatenation

For the types `bch2_checksum_mergeable` allows, `bch2_checksum_merge` of the checksums of
`A` and of `B`, with the length of `B`, is the checksum of `A ++ B`
(`bch2_checksum_merge_append`), when `B` is shorter than `2 ^ 32` bytes.

The CRCs have no final inversion, so each is linear in exclusive or (`Crc.XorLinear`): the
CRC of `A ++ B` is the CRC of `A` run over zeros of the length of `B`, xored with the CRC of
`B` from zero (`crc32c_append`, `crc64_be_append`), which is what the merge computes. The
steps are linear because the source's tables are the CRC register's shifts of their
indices, eight of them (`crc32c_tab_shifts`, `crc64table_shifts`): for `crc32c_tab` least
significant bit first under the reflected Castagnoli polynomial, for `crc64table` most
significant bit first under the ECMA-182 polynomial.

Every caller passes a length below `2 ^ 32`: `bch2_rechecksum_bio` merges `i->len << 9` and
the extent merge `crc_r.uncompressed_size << 9`, both shifts of 32-bit values computed in 32
bits. The bound is what the merge loop needs, since `min_t(unsigned, b_len, PAGE_SIZE)` keeps
only the low 32 bits of `b_len`.
-/

set_option autoImplicit false

namespace Bcachefs.Proofs.Data

open Bcachefs Bcachefs.Crc Bcachefs.Loop

/-! ### The tables -/

/-- The reflected CRC-32C polynomial, `crc32c_tab[128]`. -/
def crc32c_poly : BitVec 32 := 0x82F63B78#32

/-- The ECMA-182 polynomial, `crc64table[1]`. -/
def crc64_poly : BitVec 64 := 0x42F0E1EBA9EA3693#64

/-- Each entry of `crc32c_tab` is its index shifted through the CRC-32C register eight times. -/
theorem crc32c_tab_shifts :
    ∀ i < 256, (crc32c_tab.getD i 0).toBitVec = (shiftLsb crc32c_poly)^[8] (BitVec.ofNat 32 i) := by
  decide +kernel

/-- Each entry of `crc64table` is its index, in the top byte, shifted through the CRC-64 register
eight times. -/
theorem crc64table_shifts : ∀ i < 256,
    (crc64table.getD i 0).toBitVec = (shiftMsb crc64_poly)^[8] (BitVec.ofNat 64 i <<< 56) := by
  decide +kernel

/-- `crc32c_tab` is linear on bytes: the entry of a xor is the xor of the entries. -/
theorem crc32c_tab_xor {i j : Nat} (hi : i < 2 ^ 8) (hj : j < 2 ^ 8) :
    crc32c_tab.getD (i ^^^ j) 0 = crc32c_tab.getD i 0 ^^^ crc32c_tab.getD j 0 := by
  apply UInt32.toBitVec_inj.1
  rw [UInt32.toBitVec_xor, crc32c_tab_shifts _ (Nat.xor_lt_two_pow hi hj), crc32c_tab_shifts _ hi,
    crc32c_tab_shifts _ hj, BitVec.ofNat_xor]
  exact (shiftLsb_xor crc32c_poly).iterate 8 _ _

/-- `crc64table` is linear on bytes. -/
theorem crc64table_xor {i j : Nat} (hi : i < 2 ^ 8) (hj : j < 2 ^ 8) :
    crc64table.getD (i ^^^ j) 0 = crc64table.getD i 0 ^^^ crc64table.getD j 0 := by
  apply UInt64.toBitVec_inj.1
  rw [UInt64.toBitVec_xor, crc64table_shifts _ (Nat.xor_lt_two_pow hi hj), crc64table_shifts _ hi,
    crc64table_shifts _ hj, BitVec.ofNat_xor, BitVec.shiftLeft_xor_distrib]
  exact (shiftMsb_xor crc64_poly).iterate 8 _ _

/-! ### The byte steps -/

/-- The low byte of a `u32` is a byte. -/
theorem toNat_and_0xFF_lt_32 (x : UInt32) : (x &&& 0xFF).toNat < 2 ^ 8 := by
  rw [UInt32.toNat_and]
  exact Nat.and_lt_two_pow _ (by decide)

/-- The low byte of a `u64` is a byte. -/
theorem toNat_and_0xFF_lt_64 (x : UInt64) : (x &&& 0xFF).toNat < 2 ^ 8 := by
  rw [UInt64.toNat_and]
  exact Nat.and_lt_two_pow _ (by decide)

/-- The step of `crc32c_default` with any table linear on bytes is linear: its index and its
shift are. -/
theorem crc32c_step_linear (T : Nat → UInt32)
    (hT : ∀ i j, i < 2 ^ 8 → j < 2 ^ 8 → T (i ^^^ j) = T i ^^^ T j) :
    XorLinear fun (c : UInt32) (b : UInt8) => T ((c ^^^ b.toUInt32) &&& 0xFF).toNat ^^^ (c >>> 8) := by
  refine xorLinear_of_table (W := UInt32) (B := UInt8) (I := Nat) T
    (fun c b => ((c ^^^ b.toUInt32) &&& 0xFF).toNat) (· >>> 8) ?_ ?_ ?_
  · -- the index of the xor is the xor of the indices
    intro s t b c
    have h : (s ^^^ t) ^^^ (b ^^^ c).toUInt32 = (s ^^^ b.toUInt32) ^^^ (t ^^^ c.toUInt32) := by
      rw [UInt8.toUInt32_xor]
      ac_rfl
    simp only [h, UInt32.toNat_and, UInt32.toNat_xor, Nat.and_xor_distrib_right]
  · intro s t b c
    exact hT _ _ (toNat_and_0xFF_lt_32 _) (toNat_and_0xFF_lt_32 _)
  · intro s t
    exact UInt32.shiftRight_xor

/-- The step of `crc64_be` with any table linear on bytes is linear. -/
theorem crc64_step_linear (T : Nat → UInt64)
    (hT : ∀ i j, i < 2 ^ 8 → j < 2 ^ 8 → T (i ^^^ j) = T i ^^^ T j) :
    XorLinear fun (c : UInt64) (b : UInt8) =>
      T (((c >>> 56) ^^^ b.toUInt64) &&& 0xFF).toNat ^^^ (c <<< 8) := by
  refine xorLinear_of_table (W := UInt64) (B := UInt8) (I := Nat) T
    (fun c b => (((c >>> 56) ^^^ b.toUInt64) &&& 0xFF).toNat) (· <<< 8)
    ?_ ?_ ?_
  · intro s t b c
    have h : ((s ^^^ t) >>> 56) ^^^ (b ^^^ c).toUInt64 =
        ((s >>> 56) ^^^ b.toUInt64) ^^^ ((t >>> 56) ^^^ c.toUInt64) := by
      rw [UInt8.toUInt64_xor, UInt64.shiftRight_xor]
      ac_rfl
    simp only [h, UInt64.toNat_and, UInt64.toNat_xor, Nat.and_xor_distrib_right]
  · intro s t b c
    exact hT _ _ (toNat_and_0xFF_lt_64 _) (toNat_and_0xFF_lt_64 _)
  · intro s t
    exact UInt64.shiftLeft_xor

/-- The byte step of `crc32c_default` is linear. -/
theorem crc32c_default_byte_linear : XorLinear crc32c_default_byte :=
  crc32c_step_linear (fun i => crc32c_tab.getD i 0) fun _ _ hi hj => crc32c_tab_xor hi hj

/-- The byte step of `crc64_be` is linear. -/
theorem crc64_be_byte_linear : XorLinear crc64_be_byte :=
  crc64_step_linear (fun i => crc64table.getD i 0) fun _ _ hi hj => crc64table_xor hi hj

/-- The CRC-32C of a concatenation, from the CRC of its first part run over zeros and the
CRC of its second part from zero. -/
theorem crc32c_append (crc : UInt32) (A B : List UInt8) :
    crc32c crc (A ++ B) = crc32c (crc32c crc A) (List.replicate B.length 0) ^^^ crc32c 0 B :=
  crc32c_default_byte_linear.foldl_append (fun _ => UInt8.zero_xor) (fun _ => UInt32.xor_zero)
    crc A B

/-- The CRC-64 of a concatenation, in the same way. -/
theorem crc64_be_append (crc : UInt64) (A B : List UInt8) :
    crc64_be crc (A ++ B) = crc64_be (crc64_be crc A) (List.replicate B.length 0) ^^^ crc64_be 0 B :=
  crc64_be_byte_linear.foldl_append (fun _ => UInt8.zero_xor) (fun _ => UInt64.xor_zero) crc A B

/-! ### The checksum state -/

/-- An update keeps the state's type. -/
@[simp] theorem bch2_checksum_update_type (state : bch2_checksum_state) (data : List UInt8) :
    (bch2_checksum_update state data).type = state.type := by
  unfold bch2_checksum_update
  split_ifs <;> rfl

/-- `none` reads nothing. -/
theorem bch2_checksum_update_none {state : bch2_checksum_state}
    (h : state.type = BCH_CSUM_none) (data : List UInt8) : bch2_checksum_update state data = state := by
  rw [bch2_checksum_update, if_pos h]

/-- The CRC-32C types run `crc32c` on the seed cut to 32 bits. -/
theorem bch2_checksum_update_crc32c {state : bch2_checksum_state}
    (h : state.type = BCH_CSUM_crc32c_nonzero ∨ state.type = BCH_CSUM_crc32c) (data : List UInt8) :
    bch2_checksum_update state data =
      { state with seed := (crc32c state.seed.toUInt32 data).toUInt64 } := by
  have hn : state.type ≠ BCH_CSUM_none := by rcases h with h | h <;> rw [h] <;> decide
  rw [bch2_checksum_update, if_neg hn, if_pos h]

/-- The CRC-64 types run `crc64_be` on the seed. -/
theorem bch2_checksum_update_crc64 {state : bch2_checksum_state}
    (h : state.type = BCH_CSUM_crc64_nonzero ∨ state.type = BCH_CSUM_crc64) (data : List UInt8) :
    bch2_checksum_update state data = { state with seed := crc64_be state.seed data } := by
  have hn : state.type ≠ BCH_CSUM_none := by rcases h with h | h <;> rw [h] <;> decide
  have h32 : ¬(state.type = BCH_CSUM_crc32c_nonzero ∨ state.type = BCH_CSUM_crc32c) := by
    rcases h with h | h <;> rw [h] <;> decide
  rw [bch2_checksum_update, if_neg hn, if_neg h32, if_pos h]

/-- Updating by two buffers is updating by their concatenation: the seed a CRC leaves is the
seed it takes, and `crc32c`'s result fits the `u32` it is read back as. -/
theorem bch2_checksum_update_append (state : bch2_checksum_state) (X Y : List UInt8) :
    bch2_checksum_update (bch2_checksum_update state X) Y = bch2_checksum_update state (X ++ Y) := by
  unfold bch2_checksum_update
  -- one case per type: each CRC is a fold, and a fold over `X ++ Y` is one over `Y` after `X`
  by_cases h0 : state.type = BCH_CSUM_none
  · simp only [h0, if_true]
  by_cases h32 : state.type = BCH_CSUM_crc32c_nonzero ∨ state.type = BCH_CSUM_crc32c
  · simp only [h0, h32, if_false, if_true, UInt32.toUInt32_toUInt64, crc32c, crc32c_default,
      List.foldl_append]
  by_cases h64 : state.type = BCH_CSUM_crc64_nonzero ∨ state.type = BCH_CSUM_crc64
  · simp only [h0, h32, h64, if_false, if_true, crc64_be, List.foldl_append]
  · simp only [h0, h32, h64, if_false, List.append_assoc]

/-- An update by nothing after an update changes nothing. -/
theorem bch2_checksum_update_nil_update (state : bch2_checksum_state) (X : List UInt8) :
    bch2_checksum_update (bch2_checksum_update state X) [] = bch2_checksum_update state X := by
  rw [bch2_checksum_update_append, List.append_nil]

/-- The mergeable types' state is its seed, and the final value the seed. -/
theorem bch2_checksum_final_of_mergeable (P : bch2_checksum_primitives)
    {state : bch2_checksum_state} (h : bch2_checksum_mergeable state.type = true) :
    bch2_checksum_final P state = state.seed := by
  unfold bch2_checksum_mergeable at h
  rw [bch2_checksum_final, if_pos (of_decide_eq_true h)]

/-- The checksum of a type with a state is the final value of the state updated by the data. -/
theorem bch2_checksum_of_state_type (P : bch2_checksum_primitives) {type : Nat}
    (h : bch2_checksum_state_type type) (nonce : nonce) (data : List UInt8) :
    bch2_checksum P type nonce data =
      { lo := bch2_checksum_final P (bch2_checksum_update (bch2_checksum_init type h) data),
        hi := 0 } := by
  rw [bch2_checksum, dif_pos h]

/-- The mergeable types have a state. -/
theorem bch2_checksum_state_type_of_mergeable {type : Nat}
    (h : bch2_checksum_mergeable type = true) : bch2_checksum_state_type type := by
  rcases of_decide_eq_true h with h | h | h
  · exact .inl h
  · exact .inr (.inl h)
  · exact .inr (.inr (.inl h))

/-- The initial state has its type. -/
@[simp] theorem bch2_checksum_init_type (type : Nat) (h : bch2_checksum_state_type type) :
    (bch2_checksum_init type h).type = type := by
  unfold bch2_checksum_init
  split_ifs <;> rfl

/-- The mergeable types start from a zero seed. -/
theorem bch2_checksum_init_seed_of_mergeable {type : Nat} (h : bch2_checksum_state_type type)
    (hm : bch2_checksum_mergeable type = true) : (bch2_checksum_init type h).seed = 0 := by
  rw [bch2_checksum_init, if_pos (of_decide_eq_true hm)]

/-- A mergeable type's update changes the seed alone. -/
theorem bch2_checksum_update_eq_seed {state : bch2_checksum_state}
    (hm : bch2_checksum_mergeable state.type = true) (data : List UInt8) :
    { state with seed := (bch2_checksum_update state data).seed } =
      bch2_checksum_update state data := by
  rcases of_decide_eq_true hm with ht | ht | ht
  · rw [bch2_checksum_update_none ht]
  · rw [bch2_checksum_update_crc32c (.inr ht)]
  · rw [bch2_checksum_update_crc64 (.inr ht)]

/-- The register of a mergeable type, started at zero, is linear: its value on `A ++ B` is its
value on `A` run over zeros of the length of `B`, xored with its value on `B`. -/
theorem bch2_checksum_update_seed_append {state : bch2_checksum_state}
    (hm : bch2_checksum_mergeable state.type = true) (h0 : state.seed = 0) (A B : List UInt8) :
    (bch2_checksum_update state (A ++ B)).seed =
      (bch2_checksum_update (bch2_checksum_update state A) (List.replicate B.length 0)).seed ^^^
        (bch2_checksum_update state B).seed := by
  rcases of_decide_eq_true hm with ht | ht | ht
  · -- `none` reads nothing: its register stays at zero
    rw [bch2_checksum_update_none ht, bch2_checksum_update_none ht, bch2_checksum_update_none ht,
      bch2_checksum_update_none ht, h0, UInt64.xor_zero]
  -- the CRC-32C register, as a `u32`: `crc32c_append`
  · have hA : (bch2_checksum_update state A).type = BCH_CSUM_crc32c_nonzero ∨
        (bch2_checksum_update state A).type = BCH_CSUM_crc32c := by
      rw [bch2_checksum_update_type]
      exact .inr ht
    rw [bch2_checksum_update_crc32c hA, bch2_checksum_update_crc32c (.inr ht) A,
      bch2_checksum_update_crc32c (.inr ht) B, bch2_checksum_update_crc32c (.inr ht) (A ++ B)]
    simp only [h0, UInt32.toUInt32_toUInt64, show (0 : UInt64).toUInt32 = 0 from rfl]
    rw [crc32c_append, UInt32.toUInt64_xor]
  · have hA : (bch2_checksum_update state A).type = BCH_CSUM_crc64_nonzero ∨
        (bch2_checksum_update state A).type = BCH_CSUM_crc64 := by
      rw [bch2_checksum_update_type]
      exact .inr ht
    rw [bch2_checksum_update_crc64 hA, bch2_checksum_update_crc64 (.inr ht) A,
      bch2_checksum_update_crc64 (.inr ht) B, bch2_checksum_update_crc64 (.inr ht) (A ++ B)]
    simp only [h0]
    rw [crc64_be_append]

/-! ### The zero-page loop -/

/-- One iteration: a page of `b_len` cut to 32 bits, at most `PAGE_SIZE`. -/
theorem bch2_checksum_merge_page_spec (s : bch2_checksum_state × UInt64) :
    (bch2_checksum_merge_page s).1 =
        bch2_checksum_update s.1 (List.replicate (min (s.2.toNat % 2 ^ 32) 4096) 0) ∧
      (bch2_checksum_merge_page s).2.toNat = s.2.toNat - min (s.2.toNat % 2 ^ 32) 4096 := by
  -- `min_t(unsigned, b_len, PAGE_SIZE)` compares the low 32 bits of `b_len`
  have hpage : (if s.2.toUInt32 < PAGE_SIZE.toUInt32 then s.2.toUInt32 else PAGE_SIZE.toUInt32).toNat =
      min (s.2.toNat % 2 ^ 32) 4096 := by
    have hP : PAGE_SIZE.toUInt32.toNat = 4096 := rfl
    have hx : s.2.toUInt32.toNat = s.2.toNat % 2 ^ 32 := UInt64.toNat_toUInt32 _
    split_ifs with hlt
    · rw [UInt32.lt_iff_toNat_lt, hx, hP] at hlt
      rw [hx]
      omega
    · rw [UInt32.lt_iff_toNat_lt, hx, hP] at hlt
      rw [hP]
      omega
  refine ⟨by rw [bch2_checksum_merge_page, ← hpage], ?_⟩
  have hle : (if s.2.toUInt32 < PAGE_SIZE.toUInt32 then s.2.toUInt32 else PAGE_SIZE.toUInt32).toUInt64 ≤
      s.2 := by
    rw [UInt64.le_iff_toNat_le, UInt32.toNat_toUInt64, hpage]
    omega
  rw [bch2_checksum_merge_page, UInt64.toNat_sub_of_le _ _ hle, UInt32.toNat_toUInt64, hpage]

/-- From a length below `2 ^ 32`, the loop stops with the state updated by zeros of that
length. -/
theorem bch2_checksum_merge_loop {state : bch2_checksum_state}
    (hs : bch2_checksum_update state [] = state) {b_len : UInt64} (hb : b_len.toNat < 2 ^ 32) :
    whileLoop (fun s => s.2 != 0) bch2_checksum_merge_page CHECKSUM_MERGE_FUEL (state, b_len) =
      some (bch2_checksum_update state (List.replicate b_len.toNat 0), 0) := by
  -- what is left to read, read from the loop's state, is what was to read from the start
  let I : bch2_checksum_state × UInt64 → Prop := fun s =>
    bch2_checksum_update s.1 (List.replicate s.2.toNat 0) =
        bch2_checksum_update state (List.replicate b_len.toNat 0) ∧
      s.2.toNat < 2 ^ 32 ∧ bch2_checksum_update s.1 [] = s.1
  have hstep : ∀ s, I s → (s.2 != 0) = true →
      I (bch2_checksum_merge_page s) ∧ (bch2_checksum_merge_page s).2.toNat < s.2.toNat := by
    rintro s ⟨hI, hlt, hnil⟩ hc
    have hpos : 0 < s.2.toNat := by
      have : s.2 ≠ 0 := by simpa using hc
      rw [Ne, ← UInt64.toNat_inj] at this
      simp only [UInt64.toNat_zero] at this
      omega
    obtain ⟨h1, h2⟩ := bch2_checksum_merge_page_spec s
    rw [Nat.mod_eq_of_lt hlt] at h1 h2
    refine ⟨⟨?_, by omega, by rw [h1, bch2_checksum_update_nil_update]⟩, by omega⟩
    rw [h1, h2, bch2_checksum_update_append, List.replicate_append_replicate, ← hI]
    congr 2
    omega
  have hI : I (state, b_len) := ⟨rfl, hb, hs⟩
  obtain ⟨r, hr⟩ := whileLoop_isSome_of_measure I (fun s => s.2.toNat) hstep hI
    (show b_len.toNat < CHECKSUM_MERGE_FUEL by unfold CHECKSUM_MERGE_FUEL; omega)
  obtain ⟨⟨hrI, -, hrnil⟩, hrc⟩ := whileLoop_inv I (fun s hs hc => (hstep s hs hc).1) hI hr
  have hr0 : r.2 = 0 := by simpa using hrc
  rw [hr]
  obtain ⟨r1, r2⟩ := r
  simp only at hr0 hrI hrnil
  subst hr0
  rw [UInt64.toNat_zero, List.replicate_zero, hrnil] at hrI
  rw [hrI]

/-! ### The merge -/

/-- The merge of the checksums of `A` and of `B`, with the length of `B`, is the checksum of
`A ++ B`, for every type the merge allows and every `B` shorter than `2 ^ 32` bytes. -/
theorem bch2_checksum_merge_checksum (P : bch2_checksum_primitives) {type : Nat}
    (htype : bch2_checksum_mergeable type = true) (nonce : nonce) (A B : List UInt8)
    (hB : B.length < 2 ^ 32) :
    bch2_checksum_merge P type (bch2_checksum P type nonce A) (bch2_checksum P type nonce B)
        B.length.toUInt64 =
      some (bch2_checksum P type nonce (A ++ B)) := by
  have hst := bch2_checksum_state_type_of_mergeable htype
  have hm : bch2_checksum_mergeable (bch2_checksum_init type hst).type = true := by
    rw [bch2_checksum_init_type]
    exact htype
  have hmA : ∀ X, bch2_checksum_mergeable
      (bch2_checksum_update (bch2_checksum_init type hst) X).type = true := by
    intro X
    rw [bch2_checksum_update_type]
    exact hm
  have hlen : B.length.toUInt64.toNat = B.length := by
    rw [Nat.toUInt64_eq, UInt64.toNat_ofNat']
    omega
  -- the merge starts from the state the checksum of `A` ends in
  have hstart : { bch2_checksum_init type hst with
      seed := bch2_checksum_final P (bch2_checksum_update (bch2_checksum_init type hst) A) } =
      bch2_checksum_update (bch2_checksum_init type hst) A := by
    rw [bch2_checksum_final_of_mergeable P (hmA A)]
    exact bch2_checksum_update_eq_seed hm A
  -- the loop runs the state of `A` over zeros of the length of `B`, and the merge xors in the checksum of `B`
  simp only [bch2_checksum_of_state_type P hst, bch2_checksum_merge, dif_pos hst, if_pos htype]
  have hmAZ : bch2_checksum_mergeable (bch2_checksum_update
      (bch2_checksum_update (bch2_checksum_init type hst) A) (List.replicate B.length 0)).type =
      true := by
    rw [bch2_checksum_update_type]
    exact hmA A
  rw [hstart, bch2_checksum_merge_loop (bch2_checksum_update_nil_update _ A) (by rw [hlen]; exact hB),
    Option.map_some, hlen]
  dsimp only
  rw [bch2_checksum_final_of_mergeable P hmAZ, bch2_checksum_final_of_mergeable P (hmA B),
    bch2_checksum_final_of_mergeable P (hmA (A ++ B)),
    bch2_checksum_update_seed_append hm (bch2_checksum_init_seed_of_mergeable hst htype),
    UInt64.xor_zero]

/-- The merge of the checksums of `A` and of `B`, with the length of `B`, is the checksum of `A ++
B`, for every type the merge allows and every `B` shorter than `2 ^ 32` bytes. -/
theorem bch2_checksum_merge_append (P : bch2_checksum_primitives) {type : Nat}
    (htype : bch2_checksum_mergeable type = true) (nonce : nonce) (A B : List UInt8)
    (hB : B.length < 2 ^ 32) :
    bch2_checksum_merge P type (bch2_checksum P type nonce A) (bch2_checksum P type nonce B)
        B.length.toUInt64 =
      some (bch2_checksum P type nonce (A ++ B)) :=
  bch2_checksum_merge_checksum P htype nonce A B hB

/-- Primitives that give zero, for running the merge on fixed inputs. -/
def zero_primitives : bch2_checksum_primitives :=
  { xxh64 := fun _ => 0, poly1305 := fun _ _ => { lo := 0, hi := 0 } }

/-- A nonce of zeros. -/
def zero_nonce : nonce := ⟨Vector.replicate 4 0⟩

/-- The merge of the CRC-32Cs of `[1, 2]` and of `[3]`. -/
theorem bch2_checksum_merge_append_crc32c :
    bch2_checksum_merge zero_primitives BCH_CSUM_crc32c
        (bch2_checksum zero_primitives BCH_CSUM_crc32c zero_nonce [1, 2])
        (bch2_checksum zero_primitives BCH_CSUM_crc32c zero_nonce [3])
        ([3] : List UInt8).length.toUInt64 =
      some (bch2_checksum zero_primitives BCH_CSUM_crc32c zero_nonce ([1, 2] ++ [3])) :=
  bch2_checksum_merge_append zero_primitives (by decide) zero_nonce [1, 2] [3] (by decide)

end Bcachefs.Proofs.Data
