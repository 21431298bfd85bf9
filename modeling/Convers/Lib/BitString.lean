import Mathlib

/-!
# Bits of a byte string

The bits of a list of bytes, numbered from the most significant bit of the first
byte on. `BitString.bitAt` reads one bit; past the end every bit is `false`.

A bit is read by a test with its mask (`BitString.mask`), and writing one by an *or* with the mask
changes that bit alone (`BitString.bitAt_set_mask`), so a packing loop and an unpacking loop need no
other fact about bytes.
-/

namespace BitString

/-- The mask of bit `j` of a byte, the most significant bit first. -/
def mask (j : ℕ) : UInt8 := [0x80, 0x40, 0x20, 0x10, 0x08, 0x04, 0x02, 0x01].getD j 0

/-- Bit `j` of a byte, the most significant bit first. -/
def byteBit (b : UInt8) (j : ℕ) : Bool := b &&& mask j ≠ 0

/-- Bit `i` of a byte string. -/
def bitAt (bs : List UInt8) (i : ℕ) : Bool := byteBit (bs.getD (i / 8) 0) (i % 8)

@[simp] theorem byteBit_zero (j : ℕ) : byteBit 0 j = false := by
  simp [byteBit]

/-- The masks are apart. -/
theorem byteBit_mask {i j : ℕ} (hi : i < 8) (hj : j < 8) :
    byteBit (mask i) j = decide (i = j) := by
  have hall : ∀ i < 8, ∀ j < 8, byteBit (mask i) j = decide (i = j) := by decide
  exact hall i hi j hj

theorem byteBit_or (a b : UInt8) (j : ℕ) : byteBit (a ||| b) j = (byteBit a j || byteBit b j) := by
  have hdistrib : (a ||| b) &&& mask j = (a &&& mask j) ||| (b &&& mask j) := by
    apply UInt8.toBitVec_inj.mp
    ext k
    simp [Bool.and_or_distrib_right]
  rw [Bool.eq_iff_iff]
  simp only [byteBit, decide_eq_true_eq, Bool.or_eq_true, hdistrib, ne_eq, UInt8.or_eq_zero_iff]
  tauto

/-- Setting a bit of a byte changes that bit alone. -/
theorem byteBit_or_mask (b : UInt8) {i j : ℕ} (hi : i < 8) (hj : j < 8) :
    byteBit (b ||| mask i) j = (decide (i = j) || byteBit b j) := by
  rw [byteBit_or, byteBit_mask hi hj, Bool.or_comm]

theorem toNat_mask {j : ℕ} (hj : j < 8) : (mask j).toNat = 2 ^ (7 - j) := by
  have hall : ∀ j < 8, (mask j).toNat = 2 ^ (7 - j) := by decide
  exact hall j hj

/-- The bits of a byte are those of its number. -/
theorem byteBit_eq_testBit (b : UInt8) {j : ℕ} (hj : j < 8) :
    byteBit b j = b.toNat.testBit (7 - j) := by
  have hand : (b &&& mask j).toNat = (b.toNat.testBit (7 - j)).toNat * 2 ^ (7 - j) := by
    rw [UInt8.toNat_and, toNat_mask hj, Nat.and_two_pow]
  have hzero : b &&& mask j = 0 ↔ (b &&& mask j).toNat = 0 := UInt8.toNat_inj.symm
  rw [byteBit, Bool.eq_iff_iff, decide_eq_true_eq, Ne, hzero, hand]
  rcases b.toNat.testBit (7 - j) with _ | _
  · simp
  · simp

/-- A byte is its bits. -/
theorem byte_ext {a b : UInt8} (h : ∀ j < 8, byteBit a j = byteBit b j) : a = b := by
  refine UInt8.toNat_inj.mp (Nat.eq_of_testBit_eq fun i => ?_)
  rcases Nat.lt_or_ge i 8 with hi | hi
  · have hbit := h (7 - i) (by omega)
    rw [byteBit_eq_testBit a (by omega), byteBit_eq_testBit b (by omega),
      show 7 - (7 - i) = i by omega] at hbit
    exact hbit
  · have hpow : 2 ^ 8 ≤ 2 ^ i := Nat.pow_le_pow_right (by norm_num) hi
    rw [Nat.testBit_lt_two_pow (lt_of_lt_of_le a.toNat_lt hpow),
      Nat.testBit_lt_two_pow (lt_of_lt_of_le b.toNat_lt hpow)]

theorem bitAt_append_left {as bs : List UInt8} {i : ℕ} (h : i < 8 * as.length) :
    bitAt (as ++ bs) i = bitAt as i := by
  rw [bitAt, bitAt, List.getD_append _ _ _ _ (by omega)]

/-- Writing a byte changes the bits of that byte. -/
theorem bitAt_set {bs : List UInt8} {k : ℕ} (hk : k < bs.length) (b : UInt8) (i : ℕ) :
    bitAt (bs.set k b) i = if i / 8 = k then byteBit b (i % 8) else bitAt bs i := by
  simp only [bitAt, List.getD_eq_getElem?_getD, List.getElem?_set]
  split
  · rename_i h
    rw [if_pos h.symm, Option.getD_some]
  · rename_i h
    rw [if_neg (Ne.symm h)]

/-- **Setting a bit changes that bit alone.** This is all a writer of bits does to its buffer. -/
theorem bitAt_set_mask {bs : List UInt8} {k : ℕ} (hk : k / 8 < bs.length) (i : ℕ) :
    bitAt (bs.set (k / 8) (bs.getD (k / 8) 0 ||| mask (k % 8))) i =
      (decide (i = k) || bitAt bs i) := by
  rw [bitAt_set hk]
  split
  · rename_i h
    rw [byteBit_or_mask _ (Nat.mod_lt _ (by omega)) (Nat.mod_lt _ (by omega)), bitAt, h]
    congr 1
    rw [decide_eq_decide]
    omega
  · rename_i h
    rw [decide_eq_false (by rintro rfl; exact h rfl), Bool.false_or]

/-- A string keeps its bits when a longer one is cut back to it. -/
theorem bitAt_take {bs : List UInt8} {n i : ℕ} (h : i < 8 * n) :
    bitAt (bs.take n) i = bitAt bs i := by
  rw [bitAt, bitAt, List.getD_eq_getElem?_getD, List.getD_eq_getElem?_getD,
    List.getElem?_take_of_lt (by omega)]

end BitString
