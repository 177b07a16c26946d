import Bcachefs.Btree.KeyBits
import Bcachefs.Bits.Scan
import Bcachefs.Proofs.Btree.Cmp
import Bcachefs.Proofs.Util.Varint

/-!
# `Bcachefs.Proofs.Btree.KeyBits`: the bit scans read the key integer

The key integer of a packed key in a valid format is its top `nr_key_bits` bits, the number
`keyVal k n / 2 ^ (64 * n - nr_key_bits)` for a key of `n` words (`Proofs.Btree.Cmp`). Each
of the three helpers of `btree/bkey.c` walks it a word at a time; each is proved by a run
lemma over the words its loop passes, from a step lemma that turns one iteration into
arithmetic on the word.

* `greatest_differing_bit_loop_eq`: the loop from the high word down returns the highest set
  bit of the exclusive or of the two integers. A word that differs holds it
  (`log2_two_pow_mul_add`); an equal word leaves the rest of the integers to the next one.
* `bch2_bkey_ffs_loop_spec`: the loop from the word of the least significant key bit up
  returns the lowest set bit of the integer, `0` when it is zero: it stops at the first word
  whose key bits are not all clear (`lowestSetBit_two_pow_mul_add`), and each clear word
  shifts the answer by its width (`lowestSetBit_two_pow_mul`). `ffs_seek_eq` is its first
  loop, down to that word.
* `bkey_packed_successor_loop_spec`: the carry loop adds `2 ^ offset` to the words it
  passes, modulo their width, and reports whether no carry left the top; it writes only
  those words.

`bch2_bkey_bit_helpers_spec` puts the three together on a node set to a valid format, as the
fields of `KeyBitsSpec` over `keyInt`, the key integer. The words from word `p` up are
`wordsVal`, a window of the key's bytes like `keyVal`.
-/

set_option autoImplicit false
set_option linter.style.nameCheck false

namespace Bcachefs.Proofs.Btree

open Bcachefs.Bits

/-! ### The words of a key -/

/-- The number the words `p .. p + m - 1` of a key hold, word `p + m - 1` most significant. -/
def wordsVal (k : bkey_packed) (p : Int) (m : Nat) : Nat := leVal k.bytes (8 * p) (8 * m)

section Words

variable (k : bkey_packed) (p : Int) (m : Nat)

/-- `m` words hold fewer than `64 m` bits. -/
theorem wordsVal_lt : wordsVal k p m < 2 ^ (64 * m) := by
  have h := leVal_lt k.bytes (8 * p) (8 * m)
  rwa [show 8 * (8 * m) = 64 * m by ring] at h

/-- No words hold `0`. -/
@[simp] theorem wordsVal_zero : wordsVal k p 0 = 0 := rfl

/-- One word below the words above it. -/
theorem wordsVal_succ :
    wordsVal k p (m + 1) = (load_word k p).toNat + 2 ^ 64 * wordsVal k (p + 1) m := by
  rw [wordsVal, show 8 * (m + 1) = 8 + 8 * m by ring, leVal_add, ← load_word_toNat, wordsVal,
    show 8 * p + ((8 : Nat) : Int) = 8 * (p + 1) by push_cast; ring]

/-- One word holds its own value. -/
theorem wordsVal_one : wordsVal k p 1 = (load_word k p).toNat := by
  rw [wordsVal_succ, wordsVal_zero, Nat.mul_zero, Nat.add_zero]

/-- The words read only their own bytes. -/
theorem wordsVal_congr {k' : bkey_packed}
    (h : ∀ x, 8 * p ≤ x → x < 8 * (p + m) → k'.bytes x = k.bytes x) :
    wordsVal k' p m = wordsVal k p m :=
  leVal_congr fun x hx1 hx2 => h x hx1 (by push_cast at hx2; omega)

/-- A key's first words are its words from word `0` up. -/
theorem keyVal_eq_wordsVal : keyVal k m = wordsVal k 0 m := by
  rw [wordsVal, Int.mul_zero]
  rfl

/-- The words from word `q` up of the first `q + m` words, read past `o` more bits. -/
theorem keyVal_add_div (q o : Nat) :
    keyVal k (q + m) / 2 ^ (64 * q + o) = wordsVal k q m / 2 ^ o := by
  rw [keyVal, show 8 * (q + m) = 8 * q + 8 * m by ring, show 64 * q = 8 * (8 * q) by ring,
    leVal_add_div, wordsVal, Int.zero_add, Nat.cast_mul, Nat.cast_ofNat]

/-- The first `q + m` words modulo the bits below bit `o` of word `q`. -/
theorem keyVal_add_mod (q o : Nat) :
    keyVal k (q + m) % 2 ^ (64 * q + o) = keyVal k q + 2 ^ (64 * q) * (wordsVal k q m % 2 ^ o) := by
  rw [keyVal, show 8 * (q + m) = 8 * q + 8 * m by ring, leVal_add, ← keyVal,
    show 8 * (8 * q) = 64 * q by ring, pow_add, add_mul_mod_mul_of_lt (keyVal_lt k q), wordsVal,
    Int.zero_add, Nat.cast_mul, Nat.cast_ofNat]

end Words

section Store

variable (k : bkey_packed) (p : Int) (v : UInt64)

/-- A stored word reads back. -/
theorem load_word_store_word_self : load_word (store_word k p v) p = v := by
  apply UInt64.toNat_inj.mp
  rw [load_word_toNat, leVal_store_word_self]

/-- A word store changes no word above it. -/
theorem wordsVal_store_word_of_lt {q : Int} (m : Nat) (hq : p < q) :
    wordsVal (store_word k p v) q m = wordsVal k q m :=
  wordsVal_congr _ _ _ fun _ hx _ => store_word_bytes_of_not_mem _ _ _ (.inr (by omega))

/-- A word store into the lowest of the words: the stored word under the ones above. -/
theorem wordsVal_store_word (m : Nat) :
    wordsVal (store_word k p v) p (m + 1) = v.toNat + 2 ^ 64 * wordsVal k (p + 1) m := by
  rw [wordsVal_succ, load_word_store_word_self, wordsVal_store_word_of_lt _ _ _ _ (by omega)]

end Store

/-! ### The most significant differing bit -/

/-- `fls64(x) - 1` is the highest set bit of a word that is not zero. -/
theorem fls64_sub_one {x : UInt64} (hx : x ≠ 0) : fls64 x - 1 = Nat.log2 x.toNat := by
  rw [fls64, if_neg hx, Nat.add_sub_cancel]

/-- With no key bits left the loop returns `0`. -/
theorem greatest_differing_bit_loop_zero (lk rk : bkey_packed) (l r : Int) (l_v r_v : UInt64) :
    greatest_differing_bit_loop lk rk l r l_v r_v 0 = 0 := by
  rw [greatest_differing_bit_loop, if_pos rfl]

/-- The last word of the loop: only its top `nr < 64` bits are key bits. -/
theorem greatest_differing_bit_loop_of_lt (lk rk : bkey_packed) (q : Nat) {nr : Nat}
    (hlt : nr < 64) :
    greatest_differing_bit_loop lk rk q q (load_word lk q) (load_word rk q) nr =
      Nat.log2 (keyVal lk (q + 1) / 2 ^ (64 * (q + 1) - nr) ^^^
        keyVal rk (q + 1) / 2 ^ (64 * (q + 1) - nr)) := by
  rw [keyVal_succ_div_of_le _ _ hlt.le, keyVal_succ_div_of_le _ _ hlt.le]
  by_cases h0 : nr = 0
  · -- no key bits: both integers are zero
    rw [h0, greatest_differing_bit_loop_zero, Nat.sub_zero,
      Nat.div_eq_of_lt (load_word lk q).toNat_lt, Nat.div_eq_of_lt (load_word rk q).toNat_lt,
      Nat.xor_self, Nat.log2_zero]
  rw [greatest_differing_bit_loop, if_neg h0, if_pos hlt]
  dsimp only
  have hl := toNat_shiftRight_of_lt (load_word lk q) (show 64 - nr < 64 by omega)
  have hr := toNat_shiftRight_of_lt (load_word rk q) (show 64 - nr < 64 by omega)
  split_ifs with hne
  · rw [fls64_sub_one (fun h => hne (UInt64.xor_eq_zero_iff.mp h)), UInt64.toNat_xor, hl, hr]
  · -- equal top bits: the loop goes on with no bits left
    rw [greatest_differing_bit_loop_zero, ← hl, ← hr, not_not.mp hne, Nat.xor_self,
      Nat.log2_zero]

/-- The word loop of `bch2_bkey_greatest_differing_bit`, entered at word `q` with `nr` bits
left, returns the highest set bit of the exclusive or of the top `nr` bits of words
`0 .. q` of the two keys. The induction is on the word: a loop that goes on has found the
word equal in both keys, and the exclusive or is then that of the bits below it. -/
theorem greatest_differing_bit_loop_eq (lk rk : bkey_packed) :
    ∀ (q nr : Nat), nr ≤ 64 * (q + 1) →
      greatest_differing_bit_loop lk rk q q (load_word lk q) (load_word rk q) nr =
        Nat.log2 (keyVal lk (q + 1) / 2 ^ (64 * (q + 1) - nr) ^^^
          keyVal rk (q + 1) / 2 ^ (64 * (q + 1) - nr)) := by
  intro q
  induction q with
  | zero =>
      intro nr hnr
      by_cases hlt : nr < 64
      · exact greatest_differing_bit_loop_of_lt lk rk 0 hlt
      · -- a single word of 64 key bits
        have h64 : nr = 64 := by omega
        subst h64
        rw [greatest_differing_bit_loop, if_neg (by decide), if_neg (by decide),
          keyVal_succ_div_of_le _ _ le_rfl, keyVal_succ_div_of_le _ _ le_rfl, Nat.sub_self,
          pow_zero, Nat.div_one, Nat.div_one]
        split_ifs with hne
        · rw [fls64_sub_one (fun h => hne (UInt64.xor_eq_zero_iff.mp h)), UInt64.toNat_xor,
            Nat.add_zero]
        · rw [greatest_differing_bit_loop_zero, not_not.mp hne, Nat.xor_self, Nat.log2_zero]
  | succ q ih =>
      intro nr hnr
      by_cases hlt : nr < 64
      · exact greatest_differing_bit_loop_of_lt lk rk (q + 1) hlt
      have hlow := keyVal_div_lt lk (q + 1) (m := nr - 64) (by omega)
      have hlow' := keyVal_div_lt rk (q + 1) (m := nr - 64) (by omega)
      rw [greatest_differing_bit_loop, if_neg (by omega), if_neg hlt,
        keyVal_succ_div_of_ge _ _ (by omega) hnr, keyVal_succ_div_of_ge _ _ (by omega) hnr,
        Nat.mul_comm _ (2 ^ (nr - 64)), Nat.mul_comm _ (2 ^ (nr - 64)),
        xor_two_pow_mul_add hlow hlow']
      split_ifs with hne
      · -- the words differ: the highest differing bit is in them
        have hx : (load_word lk ↑(q + 1)).toNat ^^^ (load_word rk ↑(q + 1)).toNat ≠ 0 := by
          rw [← UInt64.toNat_xor]
          exact fun h => hne (UInt64.xor_eq_zero_iff.mp (UInt64.toNat_inj.mp h))
        rw [fls64_sub_one (fun h => hne (UInt64.xor_eq_zero_iff.mp h)), UInt64.toNat_xor,
          log2_two_pow_mul_add hx (Nat.xor_lt_two_pow hlow hlow'), Nat.add_comm]
      · -- equal words: the loop goes on one word down with what is left
        rw [not_not.mp hne, Nat.xor_self, Nat.mul_zero, Nat.zero_add,
          show next_word ((q + 1 : Nat) : Int) = (q : Int) by simp [next_word]]
        exact ih (nr - 64) (by omega)

/-! ### The first set bit -/

/-- The mask of the key bits of a word from bit `o` up: the bits from `o` to `63`. -/
theorem toNat_key_mask {o : Nat} (ho : o < 64) :
    (((~~~0 : UInt64) >>> o.toUInt64) <<< o.toUInt64).toNat = 2 ^ o * (2 ^ (64 - o) - 1) := by
  have hsplit : 2 ^ o * 2 ^ (64 - o) = 2 ^ 64 := by rw [← pow_add, Nat.add_sub_cancel' ho.le]
  rw [toNat_shiftLeft_of_lt _ ho, toNat_allOnes_shiftRight ho, Nat.mul_comm,
    Nat.mod_eq_of_lt (by
      rw [Nat.mul_sub_one, hsplit]
      exact Nat.sub_lt (by decide) (Nat.two_pow_pos o))]

/-- The mask of the key bits of a word from bit `o` up keeps the word's bits from `o` up. -/
theorem toNat_and_key_mask (w : UInt64) {o : Nat} (ho : o < 64) :
    (w &&& (((~~~0 : UInt64) >>> o.toUInt64) <<< o.toUInt64)).toNat =
      2 ^ o * (w.toNat / 2 ^ o) := by
  rw [UInt64.toNat_and, toNat_key_mask ho]
  exact and_two_pow_mul_two_pow_sub_one (by rw [Nat.add_sub_cancel' ho.le]; exact w.toNat_lt)

/-- The complement of the mask keeps the word's bits below `o`. -/
theorem toNat_and_not_key_mask (w : UInt64) {o : Nat} (ho : o < 64) :
    (w &&& ~~~(((~~~0 : UInt64) >>> o.toUInt64) <<< o.toUInt64)).toNat = w.toNat % 2 ^ o := by
  have hsplit : 2 ^ o * 2 ^ (64 - o) = 2 ^ 64 := by rw [← pow_add, Nat.add_sub_cancel' ho.le]
  have hpow : 2 ^ o ≤ 2 ^ 64 := Nat.pow_le_pow_right (by decide) ho.le
  have hnot : (~~~(((~~~0 : UInt64) >>> o.toUInt64) <<< o.toUInt64)).toNat = 2 ^ o - 1 := by
    rw [UInt64.toNat_not, toNat_key_mask ho, Nat.mul_sub_one, hsplit, UInt64.size]
    have := Nat.two_pow_pos o
    omega
  rw [UInt64.toNat_and, hnot, Nat.and_two_pow_sub_one_eq_mod]

/-- The bits of a word from bit `o` up. -/
theorem toNat_div_two_pow_lt (w : UInt64) {o : Nat} (ho : o ≤ 64) :
    w.toNat / 2 ^ o < 2 ^ (64 - o) := by
  rw [Nat.div_lt_iff_lt_mul (Nat.two_pow_pos o), ← pow_add, Nat.sub_add_cancel ho]
  exact w.toNat_lt

/-- The bits of a word from bit `o` up, in place, are a word. -/
theorem two_pow_mul_toNat_div_lt (w : UInt64) (o : Nat) : 2 ^ o * (w.toNat / 2 ^ o) < 2 ^ 64 :=
  lt_of_le_of_lt (Nat.mul_div_le w.toNat (2 ^ o)) w.toNat_lt

/-- The count of trailing zero bits is at most the width it counts in. -/
theorem ctz_bits_le (w x : Nat) : ctz_bits w x ≤ w := by
  induction w generalizing x with
  | zero => exact le_rfl
  | succ w ih =>
      rw [ctz_bits]
      split_ifs
      · exact Nat.zero_le _
      · exact Nat.succ_le_succ (ih _)

/-- `__ffs64` counts the trailing zero bits of the word. -/
theorem __ffs64_eq (x : UInt64) : __ffs64 x = ctz_bits 64 x.toNat := by
  rw [__ffs64, __ffs, __builtin_ctzl, Nat.toUInt64_eq, UInt64.toNat_ofNat',
    Nat.mod_eq_of_lt (lt_of_le_of_lt (ctz_bits_le 64 _) (by decide))]

/-- `ctz_bits` of a number with a set bit below the width is its lowest set bit. -/
theorem ctz_bits_eq_of_lowestSetBit {w x r : Nat} (h : LowestSetBit x r) (hx : x < 2 ^ w) :
    ctz_bits w x = r :=
  Util.ctz_bits_eq_of_testBit (h.lt_of_lt_two_pow hx) h.2 h.1

/-- The first loop of `bch2_bkey_ffs` goes down one word for each whole word of bits above
the last `1 ≤ t ≤ 64`. -/
theorem ffs_seek_eq (t : Nat) (ht1 : 1 ≤ t) (ht : t ≤ 64) :
    ∀ (j : Nat) (p : Int), ffs_seek p (64 * j + t) = (p - j, t) := by
  intro j
  induction j with
  | zero =>
      intro p
      rw [ffs_seek, if_neg (by omega)]
      simp
  -- one more whole word above: the loop moves one word down first
  | succ j ih =>
      intro p
      rw [ffs_seek, if_pos (by omega), show 64 * (j + 1) + t - 64 = 64 * j + t by omega, ih,
        next_word]
      congr 1
      push_cast
      ring

/-- One iteration of the second loop of `bch2_bkey_ffs` at bit `o` of word `p`, with at
least the rest of the word left: the key bits of the word, `w / 2 ^ o`, are either all clear
and the loop goes on one word up, or their lowest set bit is the answer. -/
theorem bch2_bkey_ffs_loop_eq (k : bkey_packed) (p : Int) (ret : Nat) {nr o : Nat} (ho : o < 64)
    (hnr : 64 - o ≤ nr) :
    bch2_bkey_ffs_loop k p nr ret o =
      if (load_word k p).toNat / 2 ^ o = 0 then
        bch2_bkey_ffs_loop k (p + 1) (nr - (64 - o)) (ret + (64 - o)) 0
      else ret + ctz_bits 64 (2 ^ o * ((load_word k p).toNat / 2 ^ o)) - o := by
  have hm := toNat_and_key_mask (load_word k p) ho
  rw [bch2_bkey_ffs_loop, if_neg (by omega)]
  dsimp only
  rw [if_neg (show ¬ nr + o < 64 by omega), show 64 - (64 - o) = o by omega]
  -- the masked word is zero exactly when its key bits are clear
  by_cases hy : (load_word k p).toNat / 2 ^ o = 0
  · have hz : load_word k p &&& (((~~~0 : UInt64) >>> o.toUInt64) <<< o.toUInt64) = 0 := by
      apply UInt64.toNat_inj.mp
      rw [hm, hy, Nat.mul_zero]
      rfl
    rw [if_pos hy, if_neg (not_not.mpr hz), prev_word, nth_word, sub_neg_eq_add]
  · have hnz : load_word k p &&& (((~~~0 : UInt64) >>> o.toUInt64) <<< o.toUInt64) ≠ 0 := by
      intro hz
      have h0 := congrArg UInt64.toNat hz
      rw [hm] at h0
      exact hy ((Nat.mul_eq_zero.mp h0).resolve_left (Nat.two_pow_pos o).ne')
    rw [if_neg hy, if_pos hnz, __ffs64_eq, hm]

/-- The words from word `p` up, read from bit `o`: the key bits of word `p` under those of
the words above. -/
theorem wordsVal_succ_div (k : bkey_packed) (p : Int) (d : Nat) {o : Nat} (ho : o ≤ 64) :
    wordsVal k p (d + 1) / 2 ^ o =
      2 ^ (64 - o) * wordsVal k (p + 1) d + (load_word k p).toNat / 2 ^ o := by
  rw [wordsVal_succ, show (2 : Nat) ^ 64 = 2 ^ o * 2 ^ (64 - o) by
      rw [← pow_add, Nat.add_sub_cancel' ho], Nat.mul_assoc,
    Nat.add_mul_div_left _ _ (Nat.two_pow_pos o), Nat.add_comm]

/-- The second loop of `bch2_bkey_ffs` from bit `o` of word `p`, with the key bits of `d`
words above it left: it returns `0` when those bits are all clear, and otherwise `ret` plus
the index of their lowest set bit. The induction is on the words left; a word whose key bits
are clear moves the lowest set bit of the rest up by the word's width. -/
theorem bch2_bkey_ffs_loop_spec (k : bkey_packed) :
    ∀ (d : Nat) (p : Int) (ret o : Nat), o < 64 →
      (wordsVal k p (d + 1) / 2 ^ o = 0 →
          bch2_bkey_ffs_loop k p (64 * d + (64 - o)) ret o = 0) ∧
        ∀ r, LowestSetBit (wordsVal k p (d + 1) / 2 ^ o) r →
          bch2_bkey_ffs_loop k p (64 * d + (64 - o)) ret o = ret + r := by
  intro d
  induction d with
  | zero =>
      intro p ret o ho
      rw [wordsVal_succ_div k p 0 ho.le, wordsVal_zero, Nat.mul_zero, Nat.zero_add,
        bch2_bkey_ffs_loop_eq k p ret ho (by omega)]
      have hy := toNat_div_two_pow_lt (load_word k p) ho.le
      split_ifs with h0
      · -- the last word's key bits are clear: no bits are left
        refine ⟨fun _ => ?_, fun r hr => absurd (h0 ▸ hr) (not_lowestSetBit_zero r)⟩
        rw [bch2_bkey_ffs_loop, if_pos (by omega)]
      · refine ⟨fun h => absurd h h0, fun r hr => ?_⟩
        rw [ctz_bits_eq_of_lowestSetBit ((lowestSetBit_two_pow_mul r).mpr hr)
          (two_pow_mul_toNat_div_lt (load_word k p) o)]
        omega
  | succ d ih =>
      intro p ret o ho
      have hy := toNat_div_two_pow_lt (load_word k p) ho.le
      rw [wordsVal_succ_div k p (d + 1) ho.le, bch2_bkey_ffs_loop_eq k p ret ho (by omega)]
      split_ifs with h0
      · -- a clear word: the loop goes on one word up, the answer `64 - o` bits higher
        rw [h0, Nat.add_zero, show 64 * (d + 1) + (64 - o) - (64 - o) = 64 * d + (64 - 0) by omega]
        obtain ⟨ih0, ihr⟩ := ih (p + 1) (ret + (64 - o)) 0 (by decide)
        rw [pow_zero, Nat.div_one] at ih0 ihr
        refine ⟨fun h => ih0 ?_, fun r hr => ?_⟩
        · exact (Nat.mul_eq_zero.mp h).resolve_left (Nat.two_pow_pos _).ne'
        · have hW : wordsVal k (p + 1) (d + 1) ≠ 0 := by
            rintro hW
            rw [hW, Nat.mul_zero] at hr
            exact not_lowestSetBit_zero r hr
          obtain ⟨r', hr'⟩ := exists_lowestSetBit hW
          rw [hr.unique ((lowestSetBit_two_pow_mul r').mpr hr'), ihr r' hr', Nat.add_assoc]
      · -- the word's key bits hold the lowest set bit
        refine ⟨fun h => (h0 (Nat.eq_zero_of_add_eq_zero_left h)).elim, fun r hr => ?_⟩
        have hw : LowestSetBit ((load_word k p).toNat / 2 ^ o) r :=
          (lowestSetBit_two_pow_mul_add hy h0).mp hr
        rw [ctz_bits_eq_of_lowestSetBit ((lowestSetBit_two_pow_mul r).mpr hw)
          (two_pow_mul_toNat_div_lt (load_word k p) o)]
        omega

/-! ### The successor -/

/-- The carry into bit `o` of a word, when it does not leave the word. -/
theorem toNat_add_one_shiftLeft (w : UInt64) {o : Nat} (ho : o < 64)
    (hc : w.toNat + 2 ^ o < 2 ^ 64) :
    (w + (1 : UInt64) <<< o.toUInt64).toNat = w.toNat + 2 ^ o := by
  rw [UInt64.toNat_add, toNat_shiftLeft_of_lt _ ho, show (1 : UInt64).toNat = 1 from rfl,
    Nat.one_mul, Nat.mod_eq_of_lt (Nat.pow_lt_pow_right (by decide) ho)]
  exact Nat.mod_eq_of_lt hc

/-- The key bits of a word from bit `o` up are all ones exactly when adding `2 ^ o` carries out
of the word. -/
theorem and_key_mask_eq_iff (w : UInt64) {o : Nat} (ho : o < 64) :
    w &&& (((~~~0 : UInt64) >>> o.toUInt64) <<< o.toUInt64) =
        ((~~~0 : UInt64) >>> o.toUInt64) <<< o.toUInt64 ↔ ¬ w.toNat + 2 ^ o < 2 ^ 64 := by
  have hy := toNat_div_two_pow_lt w ho.le
  have h64 : (2 : Nat) ^ 64 = 2 ^ (o + (64 - o)) := by rw [Nat.add_sub_cancel' ho.le]
  rw [← UInt64.toNat_inj, toNat_and_key_mask w ho, toNat_key_mask ho,
    Nat.mul_right_inj (Nat.two_pow_pos o).ne', h64, add_two_pow_lt_iff]
  generalize w.toNat / 2 ^ o = y at hy ⊢
  omega

/-- One iteration of `bkey_packed_successor`'s loop at bit `o` of word `p`, with at least the
rest of the word left, when the carry stays in the word: it is added, and the loop stops. -/
theorem bkey_packed_successor_loop_of_lt (out : bkey_packed) (p : Int) {nr o : Nat} (ho : o < 64)
    (hnr : 64 - o ≤ nr) (hc : (load_word out p).toNat + 2 ^ o < 2 ^ 64) :
    bkey_packed_successor_loop out p nr o =
      (true, store_word out p (load_word out p + (1 : UInt64) <<< o.toUInt64)) := by
  rw [bkey_packed_successor_loop, if_neg (by omega)]
  dsimp only
  rw [min_eq_left hnr, show 64 - (64 - o) = o by omega,
    if_pos (fun h => (and_key_mask_eq_iff _ ho).mp h hc)]

/-- The same iteration when the key bits of the word are all ones: they are cleared, and the
carry goes on into the word above. -/
theorem bkey_packed_successor_loop_of_not_lt (out : bkey_packed) (p : Int) {nr o : Nat}
    (ho : o < 64) (hnr : 64 - o ≤ nr) (hc : ¬ (load_word out p).toNat + 2 ^ o < 2 ^ 64) :
    bkey_packed_successor_loop out p nr o =
      bkey_packed_successor_loop
        (store_word out p
          (load_word out p &&& ~~~(((~~~0 : UInt64) >>> o.toUInt64) <<< o.toUInt64)))
        (p + 1) (nr - (64 - o)) 0 := by
  rw [bkey_packed_successor_loop, if_neg (by omega)]
  dsimp only
  rw [min_eq_left hnr, show 64 - (64 - o) = o by omega,
    if_neg (not_not.mpr ((and_key_mask_eq_iff _ ho).mpr hc)), prev_word, nth_word, sub_neg_eq_add]

/-- The carry loop of `bkey_packed_successor` from bit `o` of word `p`, with the key bits of
`d` words above it left, adds `2 ^ o` to those words modulo their width: it returns `true`
exactly when no carry leaves the top, and writes no byte outside them. The induction is on the
words left; a word whose key bits are all ones is left with its bits below `o`, and the carry
goes on from bit `0` of the next. -/
theorem bkey_packed_successor_loop_spec :
    ∀ (d : Nat) (out : bkey_packed) (p : Int) (o : Nat), o < 64 →
      ((bkey_packed_successor_loop out p (64 * d + (64 - o)) o).1 = true ↔
          wordsVal out p (d + 1) + 2 ^ o < 2 ^ (64 * (d + 1))) ∧
        wordsVal (bkey_packed_successor_loop out p (64 * d + (64 - o)) o).2 p (d + 1) =
          (wordsVal out p (d + 1) + 2 ^ o) % 2 ^ (64 * (d + 1)) ∧
        ∀ x, x < 8 * p ∨ 8 * (p + (d + 1 : Nat)) ≤ x →
          (bkey_packed_successor_loop out p (64 * d + (64 - o)) o).2.bytes x = out.bytes x := by
  intro d
  induction d with
  | zero =>
      intro out p o ho
      rw [wordsVal_one, Nat.mul_zero, Nat.zero_add, Nat.mul_one]
      by_cases hc : (load_word out p).toNat + 2 ^ o < 2 ^ 64
      · rw [bkey_packed_successor_loop_of_lt out p ho le_rfl hc]
        refine ⟨iff_of_true rfl hc, ?_,
          fun x hx => store_word_bytes_of_not_mem _ _ _ (by omega)⟩
        rw [wordsVal_one, load_word_store_word_self, toNat_add_one_shiftLeft _ ho hc,
          Nat.mod_eq_of_lt hc]
      · -- the carry leaves the last word: its key bits are cleared
        rw [bkey_packed_successor_loop_of_not_lt out p ho le_rfl hc, Nat.sub_self,
          bkey_packed_successor_loop, if_pos rfl]
        refine ⟨iff_of_false Bool.false_ne_true hc, ?_,
          fun x hx => store_word_bytes_of_not_mem _ _ _ (by omega)⟩
        have hw := (load_word out p).toNat_lt
        rw [wordsVal_one, load_word_store_word_self, toNat_and_not_key_mask _ ho,
          add_two_pow_eq_of_not_lt (n := 64 - o) (by rwa [Nat.add_sub_cancel' ho.le])
            (by rwa [Nat.add_sub_cancel' ho.le]),
          Nat.add_sub_cancel' ho.le, Nat.add_mod_left, Nat.mod_eq_of_lt (lt_of_lt_of_le
            (Nat.mod_lt _ (Nat.two_pow_pos o)) (Nat.pow_le_pow_right (by decide) ho.le))]
  | succ d ih =>
      intro out p o ho
      have hW := wordsVal_lt out (p + 1) (d + 1)
      have hpow : (2 : Nat) ^ (64 * (d + 1 + 1)) = 2 ^ 64 * 2 ^ (64 * (d + 1)) := by
        rw [← pow_add]
        congr 1
        ring
      rw [wordsVal_succ, hpow]
      by_cases hc : (load_word out p).toNat + 2 ^ o < 2 ^ 64
      · -- the carry stays in this word
        rw [bkey_packed_successor_loop_of_lt out p ho (by omega) hc]
        have hlt : (load_word out p).toNat + 2 ^ 64 * wordsVal out (p + 1) (d + 1) + 2 ^ o <
            2 ^ 64 * 2 ^ (64 * (d + 1)) := by
          rw [Nat.add_right_comm, add_mul_lt_mul_iff_of_lt hc]
          exact hW
        refine ⟨iff_of_true rfl hlt, ?_,
          fun x hx => store_word_bytes_of_not_mem _ _ _ (by omega)⟩
        rw [wordsVal_store_word, toNat_add_one_shiftLeft _ ho hc, Nat.mod_eq_of_lt hlt,
          Nat.add_right_comm]
      · -- the word's key bits are all ones: they are cleared and the carry goes on
        rw [bkey_packed_successor_loop_of_not_lt out p ho (by omega) hc,
          show 64 * (d + 1) + (64 - o) - (64 - o) = 64 * d + (64 - 0) by omega]
        set out' := store_word out p
          (load_word out p &&& ~~~(((~~~0 : UInt64) >>> o.toUInt64) <<< o.toUInt64)) with hout'
        obtain ⟨ih1, ih2, ih3⟩ := ih out' (p + 1) 0 (by decide)
        rw [pow_zero, wordsVal_store_word_of_lt _ _ _ _ (by omega)] at ih1 ih2
        have hlow : (load_word out p).toNat % 2 ^ o < 2 ^ 64 := lt_of_lt_of_le
          (Nat.mod_lt _ (Nat.two_pow_pos o)) (Nat.pow_le_pow_right (by decide) ho.le)
        -- the words with the carry: the bits below `o` of this word, and one more above it
        have hcarry : (load_word out p).toNat + 2 ^ 64 * wordsVal out (p + 1) (d + 1) + 2 ^ o =
            (load_word out p).toNat % 2 ^ o + 2 ^ 64 * (wordsVal out (p + 1) (d + 1) + 1) := by
          have h := add_two_pow_eq_of_not_lt (n := 64 - o)
            (by rw [Nat.add_sub_cancel' ho.le]; exact (load_word out p).toNat_lt)
            (by rwa [Nat.add_sub_cancel' ho.le])
          rw [Nat.add_sub_cancel' ho.le] at h
          rw [Nat.add_right_comm, h, Nat.mul_add, Nat.mul_one]
          ring
        -- this word of the result is the cleared word: the rest of the loop writes above it
        have hword : load_word (bkey_packed_successor_loop out' (p + 1) (64 * d + (64 - 0)) 0).2 p =
            load_word out' p := by
          apply UInt64.toNat_inj.mp
          rw [← wordsVal_one, ← wordsVal_one]
          exact wordsVal_congr _ _ _ fun x _ hx => ih3 x (.inl (by omega))
        refine ⟨?_, ?_, fun x hx => ?_⟩
        · rw [ih1, hcarry, add_mul_lt_mul_iff_of_lt hlow]
        · rw [wordsVal_succ, hword, ih2, hout', load_word_store_word_self,
            toNat_and_not_key_mask _ ho, hcarry, add_mul_mod_mul_of_lt hlow]
        · rw [ih3 x (by push_cast at hx ⊢; omega), hout',
            store_word_bytes_of_not_mem _ _ _ (by push_cast at hx; omega)]

/-! ### Keys of a node -/

/-- The key integer of a key in format `f`: the top `nr_key_bits` bits of its words, the
position fields read as one number. -/
def keyInt (f : bkey_format) (k : bkey_packed) : Nat :=
  keyVal k f.key_u64s.toNat / 2 ^ (64 * f.key_u64s.toNat - bkey_format_key_bits f)

/-- `*out = *k` copies the `BKEY_U64s` words of `k`. -/
theorem memcpy_u64s_bytes_of_mem (out k : bkey_packed) {x : Int} (hx0 : 0 ≤ x)
    (hx : x < 8 * BKEY_U64s) : (memcpy_u64s out 0 k 0 BKEY_U64s).bytes x = k.bytes x := by
  show (if 8 * 0 ≤ x ∧ x < 8 * (0 + (BKEY_U64s : Int)) then _ else _) = _
  rw [if_pos ⟨by omega, by omega⟩]
  congr 1
  ring

section Split

variable {f : bkey_format} {j o p₀ : Nat} (hN : bkey_format_key_bits f = 64 * j + (64 - o))
  (ho : o < 64) (hn : f.key_u64s.toNat = p₀ + (j + 1))
include hN ho hn

/-- The key integer read from the word of its least significant bit: `nr_key_bits` is
`64 * j + (64 - o)`, so that bit is bit `o` of word `p₀`, `j` words below the high word. -/
theorem keyInt_eq_wordsVal (k : bkey_packed) : keyInt f k = wordsVal k p₀ (j + 1) / 2 ^ o := by
  rw [keyInt, hn, hN, show 64 * (p₀ + (j + 1)) - (64 * j + (64 - o)) = 64 * p₀ + o by omega,
    keyVal_add_div]

/-- The bits of a key below its key integer. -/
theorem keyVal_mod_key_bits (k : bkey_packed) :
    keyVal k f.key_u64s.toNat % 2 ^ (64 * f.key_u64s.toNat - bkey_format_key_bits f) =
      keyVal k p₀ + 2 ^ (64 * p₀) * (wordsVal k p₀ (j + 1) % 2 ^ o) := by
  rw [hn, hN, show 64 * (p₀ + (j + 1)) - (64 * j + (64 - o)) = 64 * p₀ + o by omega,
    keyVal_add_mod]

end Split

section Node

variable {f : bkey_format} (hf : FormatValid f)
include hf

/-- The position fields and the header fit the key's words. -/
theorem key_bits_add_le :
    bkey_format_key_bits f + KEY_PACKED_BITS_START ≤ 64 * f.key_u64s.toNat := by
  have hroom := hf.room_fields
  rw [bkey_format_key_bits, KEY_PACKED_BITS_START]
  omega

/-- The key integer has `nr_key_bits` bits. -/
theorem keyInt_lt (k : bkey_packed) : keyInt f k < 2 ^ bkey_format_key_bits f :=
  keyVal_div_lt k _ (by have := key_bits_add_le hf; omega)

/-- With no key bits the key integer is zero. -/
theorem keyInt_eq_zero (k : bkey_packed) (h0 : bkey_format_key_bits f = 0) : keyInt f k = 0 := by
  have h := keyInt_lt hf k
  rw [h0, pow_zero] at h
  omega

/-- A format with key bits splits them at the word of the least significant one:
`nr_key_bits = 64 * j + (64 - o)` with that bit at bit `o` of word `p₀`. -/
theorem exists_key_bits_split (h0 : bkey_format_key_bits f ≠ 0) :
    ∃ j o p₀, bkey_format_key_bits f = 64 * j + (64 - o) ∧ o < 64 ∧
      f.key_u64s.toNat = p₀ + (j + 1) ∧ (bkey_format_key_bits f - 1) / 64 = j ∧
        63 - (bkey_format_key_bits f - 1) % 64 = o := by
  have hb := key_bits_add_le hf
  rw [KEY_PACKED_BITS_START] at hb
  exact ⟨(bkey_format_key_bits f - 1) / 64, 63 - (bkey_format_key_bits f - 1) % 64,
    f.key_u64s.toNat - ((bkey_format_key_bits f - 1) / 64 + 1), by omega, by omega, by omega,
    rfl, rfl⟩

/-- `bch2_bkey_greatest_differing_bit` on a node of a valid format is the highest set bit of
the exclusive or of the two key integers. -/
theorem bch2_bkey_greatest_differing_bit_eq (b : btree) (l r : bkey_packed) :
    bch2_bkey_greatest_differing_bit (btree_node_set_format b f) l r =
      Nat.log2 (keyInt f l ^^^ keyInt f r) := by
  have hb := key_bits_add_le hf
  obtain ⟨q, hq⟩ : ∃ q, f.key_u64s.toNat = q + 1 :=
    ⟨_, (Nat.succ_pred_eq_of_pos hf.key_u64s_pos).symm⟩
  -- the loop starts at the high word with all the key bits left
  unfold bch2_bkey_greatest_differing_bit
  dsimp only
  rw [and_high_bit_mask, and_high_bit_mask, btree_node_set_format_format, toNat_nr_key_bits hf,
    high_word_offset, keyInt, keyInt, hq,
    show ((q + 1 : Nat) : Int) - 1 = (q : Int) by push_cast; ring]
  exact greatest_differing_bit_loop_eq l r q _ (by rw [KEY_PACKED_BITS_START] at hb; omega)

/-- `bch2_bkey_ffs` on a node of a valid format: `0` for a key integer of zero, and otherwise
the index of its lowest set bit. -/
theorem bch2_bkey_ffs_spec (b : btree) (k : bkey_packed) :
    (keyInt f k = 0 → bch2_bkey_ffs (btree_node_set_format b f) k = 0) ∧
      ∀ r, LowestSetBit (keyInt f k) r → bch2_bkey_ffs (btree_node_set_format b f) k = r := by
  unfold bch2_bkey_ffs
  dsimp only
  rw [toNat_nr_key_bits hf, btree_node_set_format_format]
  by_cases h0 : bkey_format_key_bits f = 0
  · -- no key bits: the integer is zero and the loop returns at once
    rw [keyInt_eq_zero hf k h0, h0]
    refine ⟨fun _ => ?_, fun r hr => absurd hr (not_lowestSetBit_zero r)⟩
    rw [ffs_seek, if_neg (by decide)]
    dsimp only
    rw [bch2_bkey_ffs_loop, if_pos rfl]
  · obtain ⟨j, o, p₀, hN, ho, hn, -, -⟩ := exists_key_bits_split hf h0
    have hp : high_word_offset f - (j : Int) = (p₀ : Int) := by
      rw [high_word_offset, hn]
      push_cast
      ring
    rw [keyInt_eq_wordsVal hN ho hn, hN, ffs_seek_eq (64 - o) (by omega) (by omega) j]
    dsimp only
    rw [hp, show 64 - (64 - o) = o by omega]
    obtain ⟨h1, h2⟩ := bch2_bkey_ffs_loop_spec k j p₀ 0 o ho
    exact ⟨h1, fun r hr => (h2 r hr).trans (Nat.zero_add r)⟩

/-- `bkey_packed_successor` on a node of a valid format fails exactly when the key integer is
all ones; otherwise it writes `k` with its key integer one larger: the bits below it and the
rest of the `BKEY_U64s` words are those of `k`. -/
theorem bkey_packed_successor_spec (out : bkey_packed) (b : btree) (k : bkey_packed) :
    ((bkey_packed_successor out (btree_node_set_format b f) k).1 = false ↔
        keyInt f k = 2 ^ bkey_format_key_bits f - 1) ∧
      ((bkey_packed_successor out (btree_node_set_format b f) k).1 = true →
        keyInt f (bkey_packed_successor out (btree_node_set_format b f) k).2 = keyInt f k + 1 ∧
          keyVal (bkey_packed_successor out (btree_node_set_format b f) k).2 f.key_u64s.toNat %
              2 ^ (64 * f.key_u64s.toNat - bkey_format_key_bits f) =
            keyVal k f.key_u64s.toNat % 2 ^ (64 * f.key_u64s.toNat - bkey_format_key_bits f) ∧
          ∀ x : Int, 8 * f.key_u64s.toNat ≤ x → x < 8 * BKEY_U64s →
            (bkey_packed_successor out (btree_node_set_format b f) k).2.bytes x = k.bytes x) := by
  have hK := keyInt_lt hf k
  unfold bkey_packed_successor
  rw [toNat_nr_key_bits hf]
  by_cases h0 : bkey_format_key_bits f = 0
  · -- no key bits: the all-ones integer of no bits is zero
    rw [if_pos h0, keyInt_eq_zero hf k h0, h0]
    exact ⟨iff_of_true rfl rfl, fun h => absurd h Bool.false_ne_true⟩
  rw [if_neg h0]
  dsimp only
  obtain ⟨j, o, p₀, hN, ho, hn, hj, hoff⟩ := exists_key_bits_split hf h0
  have hand : (bkey_format_key_bits f - 1) &&& 63 = (bkey_format_key_bits f - 1) % 64 :=
    Nat.and_two_pow_sub_one_eq_mod _ 6
  have hp : nth_word (high_word_offset f) (j : Nat) = (p₀ : Int) := by
    rw [nth_word, high_word_offset, hn]
    push_cast
    ring
  rw [btree_node_set_format_format, high_bit_offset, Nat.zero_add, Nat.shiftRight_eq_div_pow, hand,
    show (2 : Nat) ^ 6 = 64 from rfl, hj, hoff, hp]
  set out' := memcpy_u64s out 0 k 0 BKEY_U64s with hout'
  have hlen : p₀ + (j + 1) ≤ BKEY_U64s := hn ▸ hf.key_u64s_le
  -- the copy holds `k`'s words
  have hV : wordsVal out' p₀ (j + 1) = wordsVal k p₀ (j + 1) :=
    wordsVal_congr _ _ _ fun x hx1 hx2 =>
      memcpy_u64s_bytes_of_mem out k (by omega) (by push_cast at hx2 ⊢; omega)
  have hlow : keyVal out' p₀ = keyVal k p₀ := by
    rw [keyVal_eq_wordsVal, keyVal_eq_wordsVal]
    exact wordsVal_congr _ _ _ fun x hx1 hx2 =>
      memcpy_u64s_bytes_of_mem out k (by omega) (by omega)
  obtain ⟨s1, s2, s3⟩ := bkey_packed_successor_loop_spec j out' p₀ o ho
  rw [← hN] at s1 s2 s3
  rw [hV] at s1 s2
  have hw : 64 * (j + 1) = o + bkey_format_key_bits f := by omega
  rw [hw, add_two_pow_lt_iff, ← keyInt_eq_wordsVal hN ho hn] at s1
  refine ⟨?_, fun htrue => ?_⟩
  · -- the loop fails exactly when adding one carries out of the key bits
    rw [Bool.eq_false_iff, ne_eq, s1]
    omega
  · have hfit := s1.mp htrue
    refine ⟨?_, ?_, fun x hx1 hx2 => ?_⟩
    · rw [keyInt_eq_wordsVal hN ho hn, s2, keyInt_eq_wordsVal hN ho hn, Nat.mod_eq_of_lt
        (by rw [hw, add_two_pow_lt_iff, ← keyInt_eq_wordsVal hN ho hn]; exact hfit),
        Nat.add_div_right _ (Nat.two_pow_pos o)]
    · -- the loop writes only the words of the key integer, and adds a multiple of `2 ^ o`
      have hbelow :
          keyVal (bkey_packed_successor_loop out' p₀ (bkey_format_key_bits f) o).2 p₀ =
            keyVal out' p₀ := by
        rw [keyVal_eq_wordsVal, keyVal_eq_wordsVal]
        exact wordsVal_congr _ _ _ fun x _ hx => s3 x (.inl (by omega))
      rw [keyVal_mod_key_bits hN ho hn, keyVal_mod_key_bits hN ho hn, hbelow, hlow, s2,
        Nat.mod_mod_of_dvd _ (pow_dvd_pow 2 (by omega)), Nat.add_mod_right]
    · rw [s3 x (.inr (by rw [hn] at hx1; exact hx1)), hout',
        memcpy_u64s_bytes_of_mem out k (by omega) hx2]

end Node

/-- What the three bit helpers of a node `b` of format `f` do, read on the key integers:
`bch2_bkey_greatest_differing_bit` is `0` for equal integers and otherwise a key bit at which
they differ with none above it; `bch2_bkey_ffs` is `0` for a zero integer and otherwise its
lowest set bit; `bkey_packed_successor` fails exactly on the all-ones integer, and otherwise
writes `k` with its integer one larger and every other bit of its words kept. -/
structure KeyBitsSpec (f : bkey_format) (b : btree) (l r k out : bkey_packed) : Prop where
  greatest_differing_bit_of_eq :
    keyInt f l = keyInt f r → bch2_bkey_greatest_differing_bit b l r = 0
  greatest_differing_bit_lt :
    keyInt f l ≠ keyInt f r → bch2_bkey_greatest_differing_bit b l r < bkey_format_key_bits f
  greatest_differing_bit_differs : keyInt f l ≠ keyInt f r →
    (keyInt f l).testBit (bch2_bkey_greatest_differing_bit b l r) ≠
      (keyInt f r).testBit (bch2_bkey_greatest_differing_bit b l r)
  greatest_differing_bit_above : keyInt f l ≠ keyInt f r →
    ∀ i, bch2_bkey_greatest_differing_bit b l r < i →
      (keyInt f l).testBit i = (keyInt f r).testBit i
  ffs_of_eq_zero : keyInt f k = 0 → bch2_bkey_ffs b k = 0
  ffs_lowest : keyInt f k ≠ 0 → LowestSetBit (keyInt f k) (bch2_bkey_ffs b k)
  successor_false_iff :
    (bkey_packed_successor out b k).1 = false ↔ keyInt f k = 2 ^ bkey_format_key_bits f - 1
  successor_keyInt : (bkey_packed_successor out b k).1 = true →
    keyInt f (bkey_packed_successor out b k).2 = keyInt f k + 1
  successor_low_bits : (bkey_packed_successor out b k).1 = true →
    keyVal (bkey_packed_successor out b k).2 f.key_u64s.toNat %
        2 ^ (64 * f.key_u64s.toNat - bkey_format_key_bits f) =
      keyVal k f.key_u64s.toNat % 2 ^ (64 * f.key_u64s.toNat - bkey_format_key_bits f)
  successor_rest : (bkey_packed_successor out b k).1 = true →
    ∀ x : Int, 8 * f.key_u64s.toNat ≤ x → x < 8 * BKEY_U64s →
      (bkey_packed_successor out b k).2.bytes x = k.bytes x

/-- On a node set to a valid format the packed-key bit helpers read the key integers as
`KeyBitsSpec` says, for all keys. -/
theorem bch2_bkey_bit_helpers_spec (f : bkey_format) (hf : bch2_bkey_format_invalid f = .ok ())
    (b : btree) (l r k out : bkey_packed) :
    KeyBitsSpec f (btree_node_set_format b f) l r k out := by
  have hv := (formatValid_iff f).mp hf
  have hgdb := bch2_bkey_greatest_differing_bit_eq hv b l r
  obtain ⟨hzero, hffs⟩ := bch2_bkey_ffs_spec hv b k
  obtain ⟨hfalse, htrue⟩ := bkey_packed_successor_spec hv out b k
  refine ⟨fun h => ?_, fun h => ?_, fun h => ?_, fun h => ?_, hzero, fun h => ?_, hfalse,
    fun h => (htrue h).1, fun h => (htrue h).2.1, fun h => (htrue h).2.2⟩
  · rw [hgdb, h, Nat.xor_self, Nat.log2_zero]
  · -- the exclusive or of two integers of `nr_key_bits` bits has its highest bit below that
    rw [hgdb, Nat.log2_lt (fun h0 => h (Nat.xor_eq_zero_iff.mp h0))]
    exact Nat.xor_lt_two_pow (keyInt_lt hv l) (keyInt_lt hv r)
  · rw [hgdb]
    exact (testBit_log2_xor h).1
  · rw [hgdb]
    exact (testBit_log2_xor h).2
  · obtain ⟨i, hi⟩ := exists_lowestSetBit h
    rw [hffs i hi]
    exact hi

/-- The current format, and keys that are zero throughout. -/
theorem bch2_bkey_bit_helpers_spec_current :
    bch2_bkey_format_invalid bch2_bkey_format_current = .ok () ∧
      KeyBitsSpec bch2_bkey_format_current
        (btree_node_set_format ⟨0, bch2_bkey_format_current, false, Vector.replicate 6 ⟨0, 64⟩⟩
          bch2_bkey_format_current)
        ⟨fun _ => 0⟩ ⟨fun _ => 0⟩ ⟨fun _ => 0⟩ ⟨fun _ => 0⟩ :=
  have hcur : bch2_bkey_format_invalid bch2_bkey_format_current = .ok () := by decide
  ⟨hcur, bch2_bkey_bit_helpers_spec bch2_bkey_format_current hcur _ _ _ _ _⟩

end Bcachefs.Proofs.Btree
