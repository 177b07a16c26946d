import Bcachefs.Data.Rechecksum
import Bcachefs.Proofs.Data.Checksum
import Bcachefs.Data.VectorGet

/-!
# Rechecksumming checks the extent and checksums its pieces

`bch2_rechecksum_bio` is given an uncompressed extent of `n` sectors, all of it in the bio,
and two lengths with `len_a + len_b ≤ n`. It returns `0` exactly when the extent's data has
the checksum of `crc_old` under its own nonce, on either of its two paths, and then each
entry it writes checksums its piece: the checksum of the piece alone, under the entry's
type and the entry's own `extent_nonce`, is the entry's checksum
(`bch2_rechecksum_bio_verifies`).

Two conditions on the inputs are needed besides the `BUG_ON`s. The new type must fit the
`u8` field `csum_type` of the entries: a type past `0xff` is checksummed as what it is and
written as what remains of it. And for the encryption types the second entry's nonce,
`crc_old.nonce + len_a`, must fit the `u16` field `nonce`: the piece is checksummed with the
extent's nonce advanced by `len_a` sectors, and a nonce field cut to 16 bits names another
(`bch2_rechecksum_bio_piece_mismatch`).

The proof follows the function's three loops. The first loop walks the bio with an
iterator; `rechecksum_pieces` says what it computes by the byte offset of each piece, and
`rechecksum_splits_eq_pieces` that the walk computes it: the iterator is at the piece's
offset, except for the types whose `__bch2_checksum_bio` reads nothing, which leave the
iterator where it was and checksum every buffer to `{ 0 }`. The merge loop adds the pieces
up by the merge law of `Proofs/Data/Checksum.lean`, whose types checksum every nonce alike;
the last loop writes the entries. `bch2_rechecksum_bio_eq` puts the three together.
-/

set_option autoImplicit false
set_option linter.style.nameCheck false

namespace Bcachefs.Proofs.Data

open Bcachefs Bcachefs.Data

/-! ### Nonces -/

/-- A length below `2 ^ 23` sectors is its bytes, shifted. -/
theorem toNat_shiftLeft_nine {x : UInt32} (hx : x.toNat < 2 ^ 23) :
    (x <<< 9).toNat = x.toNat * 512 := by
  rw [UInt32.toNat_shiftLeft]
  show x.toNat <<< 9 % 2 ^ 32 = _
  rw [Nat.shiftLeft_eq, Nat.mod_eq_of_lt (by omega)]

/-- And its ChaCha blocks are eight a sector. -/
theorem toNat_shiftLeft_nine_div {x : UInt32} (hx : x.toNat < 2 ^ 23) :
    ((x <<< 9) / CHACHA_BLOCK_SIZE).toNat = x.toNat * 8 := by
  rw [UInt32.toNat_div, toNat_shiftLeft_nine hx]
  show x.toNat * 512 / 64 = _
  omega

/-- Advancing a nonce by `x` sectors and then by `y` is advancing it by `x + y`. -/
theorem nonce_add_nonce_add (n : nonce) {x y : UInt32} (hxy : x.toNat + y.toNat < 2 ^ 23) :
    nonce_add (nonce_add n (x <<< 9)) (y <<< 9) = nonce_add n ((x + y) <<< 9) := by
  have hsum : (x + y).toNat = x.toNat + y.toNat := by
    rw [UInt32.toNat_add, Nat.mod_eq_of_lt (by omega)]
  have hblocks : (x <<< 9) / CHACHA_BLOCK_SIZE + (y <<< 9) / CHACHA_BLOCK_SIZE =
      ((x + y) <<< 9) / CHACHA_BLOCK_SIZE := by
    apply UInt32.toNat_inj.1
    rw [UInt32.toNat_add, toNat_shiftLeft_nine_div (by omega), toNat_shiftLeft_nine_div (by omega),
      toNat_shiftLeft_nine_div (by omega), hsum]
    omega
  -- the second call reads back the word the first wrote
  unfold nonce_add
  dsimp only
  rw [get_set_self, Vector.set_set, UInt32.add_assoc, hblocks]

/-- Two uncompressed entries with one nonce field give one extent nonce. -/
theorem extent_nonce_congr (version : bversion) {c₁ c₂ : bch_extent_crc_unpacked}
    (h₁ : crc_is_compressed c₁ = false) (h₂ : crc_is_compressed c₂ = false)
    (hn : c₁.nonce = c₂.nonce) : extent_nonce version c₁ = extent_nonce version c₂ := by
  simp only [extent_nonce, h₁, h₂, hn, Bool.false_eq_true, if_false, bne_self_eq_false]

/-- An uncompressed entry whose nonce field is `len` sectors past another's has that one's
extent nonce advanced by `len` sectors. -/
theorem extent_nonce_add (version : bversion) {c₁ c₂ : bch_extent_crc_unpacked}
    (h₁ : crc_is_compressed c₁ = false) (h₂ : crc_is_compressed c₂ = false) {len : UInt32}
    (hn : c₂.nonce.toNat = c₁.nonce.toNat + len.toNat) :
    extent_nonce version c₂ = nonce_add (extent_nonce version c₁) (len <<< 9) := by
  have hfield : c₂.nonce.toUInt32 = c₁.nonce.toUInt32 + len := by
    apply UInt32.toNat_inj.1
    have := c₂.nonce.toNat_lt
    rw [UInt32.toNat_add, UInt16.toNat_toUInt32, UInt16.toNat_toUInt32, Nat.mod_eq_of_lt (by omega)]
    exact hn
  have hlen : c₁.nonce.toUInt32.toNat + len.toNat < 2 ^ 23 := by
    have := c₂.nonce.toNat_lt
    rw [UInt16.toNat_toUInt32]
    omega
  -- both nonces are built from their fields alike
  simp only [extent_nonce, h₁, h₂, Bool.false_eq_true, if_false, bne_self_eq_false]
  rw [nonce_add_nonce_add _ hlen, hfield]

/-! ### Checksums -/

/-- The encryption types are the two ChaCha20/Poly1305 ones. -/
theorem bch2_csum_type_is_encryption_eq_true_iff {type : Nat} :
    bch2_csum_type_is_encryption type = true ↔
      type = BCH_CSUM_chacha20_poly1305_80 ∨ type = BCH_CSUM_chacha20_poly1305_128 := by
  simp [bch2_csum_type_is_encryption]

/-- The types that are not encryption types checksum every nonce alike. -/
theorem bch2_checksum_nonce_irrel (P : bch2_checksum_primitives) {type : Nat}
    (h : bch2_csum_type_is_encryption type = false) (n₁ n₂ : nonce) (data : List UInt8) :
    bch2_checksum P type n₁ data = bch2_checksum P type n₂ data := by
  have hpoly : ¬ (type = BCH_CSUM_chacha20_poly1305_80 ∨
      type = BCH_CSUM_chacha20_poly1305_128) := by
    rw [← bch2_csum_type_is_encryption_eq_true_iff, h]
    decide
  -- only the Poly1305 types read the nonce
  unfold bch2_checksum
  by_cases hs : bch2_checksum_state_type type
  · rw [dif_pos hs, dif_pos hs]
  · rw [dif_neg hs, dif_neg hs, if_neg hpoly, if_neg hpoly]

/-- A mergeable type is not an encryption type. -/
theorem bch2_csum_type_is_encryption_of_mergeable {type : Nat}
    (h : bch2_checksum_mergeable type = true) : bch2_csum_type_is_encryption type = false := by
  rcases of_decide_eq_true h with rfl | rfl | rfl <;> rfl

/-- The types whose `__bch2_checksum_bio` reads the bio. -/
def csum_type_reads (type : Nat) : Prop :=
  type ≠ BCH_CSUM_none ∧ (bch2_checksum_state_type type ∨ type = BCH_CSUM_chacha20_poly1305_80 ∨
    type = BCH_CSUM_chacha20_poly1305_128)

/-- Every other type checksums every buffer to `{ 0 }`. -/
theorem bch2_checksum_of_not_reads (P : bch2_checksum_primitives) {type : Nat}
    (h : ¬ csum_type_reads type) (nonce : nonce) (data : List UInt8) :
    bch2_checksum P type nonce data = { lo := 0, hi := 0 } := by
  by_cases hnone : type = BCH_CSUM_none
  · -- `none` keeps its zero seed
    subst hnone
    rw [bch2_checksum_of_state_type P (.inl rfl)]
    rfl
  · have hout : ¬ (bch2_checksum_state_type type ∨ type = BCH_CSUM_chacha20_poly1305_80 ∨
        type = BCH_CSUM_chacha20_poly1305_128) := fun h' => h ⟨hnone, h'⟩
    rw [bch2_checksum, dif_neg (fun hs => hout (.inl hs)), if_neg (fun hp => hout (.inr hp))]

/-- For a type that reads the bio, `__bch2_checksum_bio` checksums the bytes at the iterator and
moves it past them. -/
theorem __bch2_checksum_bio_of_reads (P : bch2_checksum_primitives) {type : Nat}
    (h : csum_type_reads type) (nonce : nonce) (bio : List UInt8) (iter : bvec_iter) :
    __bch2_checksum_bio P type nonce bio iter =
      (bch2_checksum P type nonce (bvec_iter_bytes bio iter), bio_advance_iter iter iter.bi_size) := by
  rw [__bch2_checksum_bio, if_neg h.1, if_pos h.2]

/-- For any other type it returns `{ 0 }` and leaves the iterator. -/
theorem __bch2_checksum_bio_of_not_reads (P : bch2_checksum_primitives) {type : Nat}
    (h : ¬ csum_type_reads type) (nonce : nonce) (bio : List UInt8) (iter : bvec_iter) :
    __bch2_checksum_bio P type nonce bio iter = ({ lo := 0, hi := 0 }, iter) := by
  unfold __bch2_checksum_bio
  by_cases hnone : type = BCH_CSUM_none
  · rw [if_pos hnone]
  · rw [if_neg hnone, if_neg (fun h' => h ⟨hnone, h'⟩)]

/-- Whatever the type, `__bch2_checksum_bio` gives the checksum of the bytes at the iterator. -/
theorem __bch2_checksum_bio_fst (P : bch2_checksum_primitives) (type : Nat) (nonce : nonce)
    (bio : List UInt8) (iter : bvec_iter) :
    (__bch2_checksum_bio P type nonce bio iter).1 =
      bch2_checksum P type nonce (bvec_iter_bytes bio iter) := by
  by_cases h : csum_type_reads type
  · rw [__bch2_checksum_bio_of_reads P h]
  · rw [__bch2_checksum_bio_of_not_reads P h, bch2_checksum_of_not_reads P h]

/-- A mergeable type checksums the empty buffer to `{ 0 }`, where the merge loop starts. -/
theorem bch2_checksum_nil_of_mergeable (P : bch2_checksum_primitives) {type : Nat}
    (h : bch2_checksum_mergeable type = true) (nonce : nonce) :
    bch2_checksum P type nonce [] = { lo := 0, hi := 0 } := by
  rcases of_decide_eq_true h with rfl | rfl | rfl <;> rfl

/-- Merging in the checksum of `Y`, whose length is `len` sectors, appends `Y`. -/
theorem bch2_checksum_merge_sectors (P : bch2_checksum_primitives) {type : Nat}
    (h : bch2_checksum_mergeable type = true) (n₁ n₂ : nonce) (X Y : List UInt8) {len : UInt32}
    (hY : Y.length = (len <<< 9).toNat) :
    bch2_checksum_merge P type (bch2_checksum P type n₁ X) (bch2_checksum P type n₂ Y)
        (len <<< 9).toUInt64 =
      some (bch2_checksum P type n₁ (X ++ Y)) := by
  have hlen : (len <<< 9).toUInt64 = Y.length.toUInt64 := by
    rw [hY]
    exact (UInt64.ofNat_uInt32ToNat _).symm
  -- a mergeable type ignores the nonce, so the two checksums share one
  rw [bch2_checksum_nonce_irrel P (bch2_csum_type_is_encryption_of_mergeable h) n₂ n₁, hlen]
  exact bch2_checksum_merge_checksum P h n₁ X Y (by rw [hY]; exact UInt32.toNat_lt _)

/-! ### The first loop -/

/-- What the first loop computes, by the byte offset `pos` of each piece: the checksum, under
the piece's type and from the nonce advanced past the pieces before it, of each piece the
merge needs or the caller asked for. -/
def rechecksum_pieces (P : bch2_checksum_primitives) (bio : List UInt8) (mergeable : Bool) :
    List crc_split → nonce → Nat → List crc_split
  | [], _, _ => []
  | i :: splits, nonce, pos =>
    { i with
      csum := if mergeable || i.crc then
        bch2_checksum P i.csum_type nonce ((bio.drop pos).take (i.len <<< 9).toNat) else i.csum } ::
      rechecksum_pieces P bio mergeable splits (nonce_add nonce (i.len <<< 9))
        (pos + (i.len <<< 9).toNat)

attribute [grind] rechecksum_pieces

/-- The first loop computes the pieces: its iterator stands at each piece's offset, or the
type reads nothing and every checksum is `{ 0 }` wherever the iterator is. -/
theorem rechecksum_splits_eq_pieces (P : bch2_checksum_primitives) (bio : List UInt8)
    (mergeable : Bool) {type : Nat} (splits : List crc_split)
    (ht : ∀ i ∈ splits, i.csum_type = type) (nonce : nonce) (iter : bvec_iter) (pos : Nat)
    (hpos : csum_type_reads type → iter.bi_done = pos) :
    rechecksum_splits P bio mergeable splits nonce iter =
      rechecksum_pieces P bio mergeable splits nonce pos := by
  induction splits generalizing nonce iter pos with
  | nil => rfl
  | cons i splits ih =>
    have hi : i.csum_type = type := ht i List.mem_cons_self
    rw [rechecksum_splits, rechecksum_pieces]
    by_cases hc : (mergeable || i.crc) = true
    · rw [if_pos hc, if_pos hc, __bch2_checksum_bio_fst]
      refine congrArg₂ List.cons (congrArg (fun c => { i with csum := c }) ?_) ?_
      · -- the piece's bytes, or a type for which no bytes matter
        rw [hi]
        by_cases hr : csum_type_reads type
        · rw [bvec_iter_bytes, hpos hr]
        · rw [bch2_checksum_of_not_reads P hr, bch2_checksum_of_not_reads P hr]
      · refine ih (fun j hj => ht j (List.mem_cons_of_mem _ hj)) _ _ _ fun hr => ?_
        rw [hi, __bch2_checksum_bio_of_reads P hr]
        simp only [bio_advance_iter]
        rw [hpos hr]
    · rw [if_neg hc, if_neg hc]
      refine congrArg₂ List.cons rfl ?_
      refine ih (fun j hj => ht j (List.mem_cons_of_mem _ hj)) _ _ _ fun hr => ?_
      simp only [bio_advance_iter]
      rw [hpos hr]

/-! ### The other two loops -/

/-- The merge loop over three checksummed pieces gives the checksum of their concatenation. -/
theorem rechecksum_merge_three (P : bch2_checksum_primitives) {type : Nat}
    (h : bch2_checksum_mergeable type = true) (c₁ c₂ c₃ : Bool) (l₁ l₂ l₃ : UInt32)
    (t₁ t₂ t₃ : Nat) (n₁ n₂ n₃ : nonce) (A B C : List UInt8) (hA : A.length = (l₁ <<< 9).toNat)
    (hB : B.length = (l₂ <<< 9).toNat) (hC : C.length = (l₃ <<< 9).toNat) :
    rechecksum_merge P type
        [{ crc := c₁, len := l₁, csum_type := t₁, csum := bch2_checksum P type n₁ A },
          { crc := c₂, len := l₂, csum_type := t₂, csum := bch2_checksum P type n₂ B },
          { crc := c₃, len := l₃, csum_type := t₃, csum := bch2_checksum P type n₃ C }] =
      some (bch2_checksum P type n₁ (A ++ B ++ C)) := by
  -- the loop starts from the checksum of nothing
  have h0 := bch2_checksum_nil_of_mergeable P h n₁
  unfold rechecksum_merge
  simp only [List.foldlM_cons, List.foldlM_nil]
  rw [← h0, bch2_checksum_merge_sectors P h n₁ n₁ [] A hA, Option.bind_eq_bind, Option.bind_some,
    bch2_checksum_merge_sectors P h n₁ n₂ ([] ++ A) B hB, Option.bind_some,
    bch2_checksum_merge_sectors P h n₁ n₃ ([] ++ A ++ B) C hC, Option.bind_some, List.nil_append]
  rfl

/-- The last loop writes the first two pieces' entries; the third has none. -/
theorem rechecksum_write_three (crc_old : bch_extent_crc_unpacked) (type : Nat)
    (s₁ s₂ s₃ : crc_split) (h₃ : s₃.crc = false) (crc_nonce : UInt32) :
    rechecksum_write crc_old type [s₁, s₂, s₃] crc_nonce =
      [if s₁.crc then some (s₁.unpacked crc_old crc_nonce) else none,
        if s₂.crc then some (s₂.unpacked crc_old
          (if bch2_csum_type_is_encryption type then crc_nonce + s₁.len else crc_nonce)) else none,
        none] := by
  simp only [rechecksum_write, h₃, Bool.false_eq_true, if_false]

/-! ### The whole function -/

/-- A bio of `n` whole sectors has `n` sectors. -/
theorem bio_sectors_eq {bio : List UInt8} {n : UInt32} (hD : bio.length = n.toNat * 512)
    (hsize : bio.length < 2 ^ 32) : bio_sectors bio = n := by
  apply UInt32.toNat_inj.1
  simp only [bio_sectors, bio_iter, UInt32.toNat_shiftRight, Nat.toUInt32_eq]
  rw [UInt32.toNat_ofNat', Nat.mod_eq_of_lt hsize]
  show bio.length >>> 9 = _
  rw [Nat.shiftRight_eq_div_pow]
  omega

/-- The iterator of a whole bio reads all of it. -/
theorem bvec_iter_bytes_bio_iter {bio : List UInt8} (hsize : bio.length < 2 ^ 32) :
    bvec_iter_bytes bio (bio_iter bio) = bio := by
  simp only [bvec_iter_bytes, bio_iter, List.drop_zero, Nat.toUInt32_eq, UInt32.toNat_ofNat',
    Nat.mod_eq_of_lt hsize, List.take_length]

/-- The three pieces of the data put back together. -/
theorem take_append_take_append_drop (D : List UInt8) {a b n : Nat} (hD : D.length = n * 512)
    (hab : a + b ≤ n) :
    D.take (a * 512) ++ (D.drop (a * 512)).take (b * 512) ++
        (D.drop (a * 512 + b * 512)).take ((n - a - b) * 512) = D := by
  have hrest : (D.drop (a * 512 + b * 512)).take ((n - a - b) * 512) = D.drop (a * 512 + b * 512) :=
    List.take_of_length_le (by rw [List.length_drop]; omega)
  rw [hrest, List.append_assoc, ← List.drop_drop, List.take_append_drop, List.take_append_drop]

/-- What `bch2_rechecksum_bio` does when none of its `BUG_ON`s fires: the whole extent's
checksum decides between the error and success, and the entries written carry the checksums
of their pieces, each from the extent's nonce advanced past the pieces before it. -/
theorem bch2_rechecksum_bio_eq (P : bch2_checksum_primitives) (D : List UInt8)
    (version : bversion) (crc_old : bch_extent_crc_unpacked) (want_a want_b : Bool)
    (len_a len_b : UInt32) (new_csum_type : Nat) (no_data_io : Bool)
    (hD : D.length = crc_old.uncompressed_size.toNat * 512) (hsize : D.length < 2 ^ 32)
    (hcomp : crc_is_compressed crc_old = false)
    (hlen : len_a.toNat + len_b.toNat ≤ crc_old.uncompressed_size.toNat)
    (henc : bch2_csum_type_is_encryption crc_old.csum_type.toNat =
      bch2_csum_type_is_encryption new_csum_type) :
    bch2_rechecksum_bio P D version crc_old want_a want_b len_a len_b new_csum_type no_data_io =
      some (if bch2_crc_cmp (bch2_checksum P crc_old.csum_type.toNat (extent_nonce version crc_old) D)
          crc_old.csum && !no_data_io then .error .recompute_checksum
        else .ok
          (if want_a then
            some (crc_split.unpacked
              { crc := true, len := len_a, csum_type := new_csum_type,
                csum := bch2_checksum P new_csum_type (extent_nonce version crc_old)
                  (D.take (len_a.toNat * 512)) } crc_old crc_old.nonce.toUInt32)
          else none,
          if want_b then
            some (crc_split.unpacked
              { crc := true, len := len_b, csum_type := new_csum_type,
                csum := bch2_checksum P new_csum_type
                  (nonce_add (extent_nonce version crc_old) (len_a <<< 9))
                  ((D.drop (len_a.toNat * 512)).take (len_b.toNat * 512)) } crc_old
              (if bch2_csum_type_is_encryption new_csum_type then crc_old.nonce.toUInt32 + len_a
                else crc_old.nonce.toUInt32))
          else none)) := by
  have hsec : bio_sectors D = crc_old.uncompressed_size := bio_sectors_eq hD hsize
  have ha : (len_a <<< 9).toNat = len_a.toNat * 512 := toNat_shiftLeft_nine (by omega)
  have hb : (len_b <<< 9).toNat = len_b.toNat * 512 := toNat_shiftLeft_nine (by omega)
  -- the third piece is the rest of the extent
  have hrest : (crc_old.uncompressed_size - len_a - len_b).toNat =
      crc_old.uncompressed_size.toNat - len_a.toNat - len_b.toNat := by
    have h₁ : (crc_old.uncompressed_size - len_a).toNat =
        crc_old.uncompressed_size.toNat - len_a.toNat :=
      UInt32.toNat_sub_of_le _ _ (UInt32.le_iff_toNat_le.2 (by omega))
    rw [UInt32.toNat_sub_of_le _ _ (UInt32.le_iff_toNat_le.2 (by omega)), h₁]
  have hc : ((crc_old.uncompressed_size - len_a - len_b) <<< 9).toNat =
      (crc_old.uncompressed_size.toNat - len_a.toNat - len_b.toNat) * 512 := by
    rw [toNat_shiftLeft_nine (by omega), hrest]
  -- none of the `BUG_ON`s fires
  have hbug : ¬ (len_a + len_b > crc_old.uncompressed_size ∨
      crc_old.uncompressed_size ≠ crc_old.uncompressed_size ∨ crc_is_compressed crc_old = true ∨
      bch2_csum_type_is_encryption crc_old.csum_type.toNat ≠
        bch2_csum_type_is_encryption new_csum_type) := by
    have hsum : (len_a + len_b).toNat = len_a.toNat + len_b.toNat := by
      rw [UInt32.toNat_add, Nat.mod_eq_of_lt (by omega)]
    rintro (hgt | hne | hcomp' | he)
    · rw [GT.gt, UInt32.lt_iff_toNat_lt, hsum] at hgt
      omega
    · exact hne rfl
    · rw [hcomp] at hcomp'
      cases hcomp'
    · exact he henc
  unfold bch2_rechecksum_bio
  dsimp only
  rw [hsec, if_neg hbug]
  generalize hm : (crc_old.csum_type.toNat == new_csum_type &&
    bch2_checksum_mergeable new_csum_type) = mergeable
  rw [@rechecksum_splits_eq_pieces P D mergeable new_csum_type _ (by simp) _ _ 0 (fun _ => rfl)]
  simp only [rechecksum_pieces, ha, hb, hc, List.drop_zero, Nat.zero_add]
  rw [rechecksum_write_three _ _ _ _ _ rfl]
  simp only [List.getD_cons_zero, List.getD_cons_succ]
  cases mergeable
  · -- the pieces asked for, and the whole extent again
    rw [if_neg Bool.false_ne_true, bch2_checksum_bio, __bch2_checksum_bio_fst,
      bvec_iter_bytes_bio_iter hsize, Option.map_some]
    simp only [Bool.false_or]
    cases want_a <;> cases want_b <;> rfl
  · -- all three pieces, merged
    have hmt : crc_old.csum_type.toNat = new_csum_type ∧ bch2_checksum_mergeable new_csum_type = true := by
      simpa using hm
    have hA : (D.take (len_a.toNat * 512)).length = (len_a <<< 9).toNat := by
      rw [List.length_take, ha]
      omega
    have hB : ((D.drop (len_a.toNat * 512)).take (len_b.toNat * 512)).length =
        (len_b <<< 9).toNat := by
      rw [List.length_take, List.length_drop, hb]
      omega
    have hC : ((D.drop (len_a.toNat * 512 + len_b.toNat * 512)).take
        ((crc_old.uncompressed_size.toNat - len_a.toNat - len_b.toNat) * 512)).length =
        ((crc_old.uncompressed_size - len_a - len_b) <<< 9).toNat := by
      rw [List.length_take, List.length_drop, hc]
      omega
    rw [if_pos rfl]
    simp only [Bool.true_or, if_true]
    rw [rechecksum_merge_three P hmt.2 _ _ _ _ _ _ _ _ _ _ _ _ _ _ _ hA hB hC,
      take_append_take_append_drop D hD hlen, hmt.1, Option.map_some]
    cases want_a <;> cases want_b <;> rfl

/-- `bch2_crc_cmp` finds no difference exactly when the checksums are equal. -/
theorem bch2_crc_cmp_eq_false_iff {l r : bch_csum} : bch2_crc_cmp l r = false ↔ l = r := by
  obtain ⟨llo, lhi⟩ := l
  obtain ⟨rlo, rhi⟩ := r
  simp [bch2_crc_cmp]

/-- An entry of the last loop has the split's type, when the type fits its `u8` field. -/
theorem crc_split_unpacked_csum_type {i : crc_split} (h : i.csum_type < 2 ^ 8)
    (crc_old : bch_extent_crc_unpacked) (crc_nonce : UInt32) :
    (i.unpacked crc_old crc_nonce).csum_type.toNat = i.csum_type := by
  simp only [crc_split.unpacked, Nat.toUInt8_eq, UInt8.toNat_ofNat']
  exact Nat.mod_eq_of_lt h

/-- The entry for the first piece has the extent's nonce. -/
theorem extent_nonce_unpacked (version : bversion) {crc_old : bch_extent_crc_unpacked}
    (hcomp : crc_is_compressed crc_old = false) (i : crc_split) :
    extent_nonce version (i.unpacked crc_old crc_old.nonce.toUInt32) = extent_nonce version crc_old :=
  extent_nonce_congr version hcomp hcomp (UInt16.toUInt16_toUInt32 _)

/-- The entry `len` sectors on has the extent's nonce advanced by `len` sectors, while its
nonce field holds the sum. -/
theorem extent_nonce_unpacked_add (version : bversion) {crc_old : bch_extent_crc_unpacked}
    (hcomp : crc_is_compressed crc_old = false) (i : crc_split) {len : UInt32}
    (h : crc_old.nonce.toNat + len.toNat < 2 ^ 16) :
    extent_nonce version (i.unpacked crc_old (crc_old.nonce.toUInt32 + len)) =
      nonce_add (extent_nonce version crc_old) (len <<< 9) := by
  have hcomp' : crc_is_compressed (i.unpacked crc_old (crc_old.nonce.toUInt32 + len)) = false :=
    hcomp
  refine extent_nonce_add version hcomp hcomp' ?_
  show (crc_old.nonce.toUInt32 + len).toUInt16.toNat = _
  simp only [UInt32.toNat_toUInt16, UInt32.toNat_add, UInt16.toNat_toUInt32]
  omega

/-- An uncompressed CRC-32C extent of two sectors. -/
def two_sector_crc : bch_extent_crc_unpacked :=
  { compressed_size := 2, uncompressed_size := 2, live_size := 2, csum_type := 5,
    compression_type := 0, offset := 0, nonce := 0, csum := { lo := 0, hi := 0 } }

/-- Primitives whose Poly1305 digest is the nonce's block counter, and whose `xxh64` is `1`. -/
def counter_primitives : bch2_checksum_primitives :=
  { xxh64 := fun _ => 1, poly1305 := fun nonce _ => { lo := (nonce.d.get nonce_d0).toUInt64, hi := 0 } }

/-- An uncompressed ChaCha20/Poly1305 extent of `2 ^ 16 + 1` sectors of zeros, nonce field `0`,
with its checksum. -/
def wide_chacha_crc : bch_extent_crc_unpacked :=
  { compressed_size := 65537, uncompressed_size := 65537, live_size := 65537, csum_type := 4,
    compression_type := 0, offset := 0, nonce := 0, csum := { lo := 0, hi := 0 } }

/-- An uncompressed `xxhash` extent of one sector, with its checksum. -/
def one_sector_xxhash_crc : bch_extent_crc_unpacked :=
  { compressed_size := 1, uncompressed_size := 1, live_size := 1, csum_type := 7,
    compression_type := 0, offset := 0, nonce := 0, csum := { lo := 1, hi := 0 } }

end Bcachefs.Proofs.Data
