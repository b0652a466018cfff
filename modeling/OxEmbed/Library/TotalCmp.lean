import Mathlib.Data.BitVec
import Mathlib.Order.Lattice
import Mathlib.Tactic.Ring

/-!
# The total order of floating-point numbers

A floating-point number is stored as a sign bit in front of `w` bits of exponent and mantissa, its
magnitude. `total_cmp` compares two numbers, NaN and the two zeros included, by the integers that
it gets from the patterns: where the sign bit is set, it inverts the other bits, and it reads the
result as a signed integer.

## Main definitions

* `totalKey` : the integer by which a pattern is compared.
* `F32` : the numbers of 32 bits, in the order of `total_cmp`.

## Main results

* `totalKey_of_pos`, `totalKey_of_neg` : the integer is the magnitude, or below zero, the more the
  larger the magnitude is.
* `totalKey_injective` : patterns that compare as equal are the same.
* `F32.le_iff_of_same_sign` : the order of two numbers with one sign.
-/

namespace OxEmbed.TotalCmp

section Key

variable {w : ℕ} {x y : BitVec (w + 1)}

/-- `bits ^ (((bits >> w) as unsigned) >> 1)`, read as a signed integer; the first shift copies the
sign bit. -/
def totalKey (x : BitVec (w + 1)) : ℤ := (x ^^^ ((x.sshiftRight w) >>> 1)).toInt

/-- The bits behind the sign. -/
def magnitude (x : BitVec (w + 1)) : ℕ := x.toNat % 2 ^ w

theorem magnitude_lt (x : BitVec (w + 1)) : magnitude x < 2 ^ w :=
  Nat.mod_lt _ (Nat.two_pow_pos w)

/-- A pattern is its sign and its magnitude. -/
theorem toNat_eq (x : BitVec (w + 1)) :
    x.toNat = (if x.msb then 2 ^ w else 0) + magnitude x := by
  have hmsb := x.msb_eq_decide
  have hlt := x.isLt
  have hdiv := Nat.div_add_mod x.toNat (2 ^ w)
  rw [Nat.add_sub_cancel] at hmsb
  rw [Nat.pow_succ] at hlt
  rw [magnitude]
  by_cases hle : 2 ^ w ≤ x.toNat
  · have hone : x.toNat / 2 ^ w = 1 := by
      refine Nat.div_eq_of_lt_le (by omega) (by omega)
    rw [hone] at hdiv
    simp only [hmsb, hle, decide_true, if_true]
    omega
  · have hmod := Nat.mod_eq_of_lt (not_le.1 hle)
    simp only [hmsb, hle, decide_false, Bool.false_eq_true, if_false]
    omega

/-- The shifts leave nothing of a pattern without the sign bit. -/
theorem totalKey_of_pos (hx : x.msb = false) : totalKey x = magnitude x := by
  have hnat := toNat_eq x
  simp only [hx, Bool.false_eq_true, if_false, zero_add] at hnat
  have hlt : x.toNat < 2 ^ w := hnat ▸ magnitude_lt x
  have hzero : x >>> w = 0#(w + 1) := BitVec.eq_of_toNat_eq (by
    rw [BitVec.toNat_ushiftRight, Nat.shiftRight_eq_div_pow, Nat.div_eq_of_lt hlt]
    rfl)
  rw [totalKey, BitVec.sshiftRight_eq_of_msb_false hx, hzero, BitVec.zero_ushiftRight,
    BitVec.xor_zero, BitVec.toInt_eq_toNat_of_msb hx, hnat]

/-- With the sign bit, all other bits are inverted. -/
theorem xor_sshiftRight_of_neg (hx : x.msb = true) :
    x ^^^ ((x.sshiftRight w) >>> 1) = ~~~ BitVec.ofNat (w + 1) (magnitude x) := by
  refine BitVec.eq_of_getLsbD_eq fun i hi => ?_
  have hlast : x.getLsbD w = true := by rwa [BitVec.msb_eq_getLsbD_last] at hx
  rw [BitVec.getLsbD_xor, BitVec.getLsbD_ushiftRight, BitVec.getLsbD_sshiftRight,
    BitVec.getLsbD_not, BitVec.getLsbD_ofNat, magnitude, Nat.testBit_mod_two_pow,
    BitVec.testBit_toNat]
  rcases Nat.lt_succ_iff_lt_or_eq.1 hi with hi | rfl
  · have hrange : 1 + i < w + 1 := by omega
    by_cases hfirst : w + (1 + i) < w + 1
    · omega
    · simp [hi, hx, hfirst, Nat.lt_succ_of_lt hi, not_le.2 hrange]
  · have hout : i + 1 ≤ 1 + i := by omega
    rw [hlast]
    simp [hout]

theorem totalKey_of_neg (hx : x.msb = true) : totalKey x = -(magnitude x : ℤ) - 1 := by
  have hlt := magnitude_lt x
  have hbound : magnitude x < 2 ^ (w + 1) := by rw [Nat.pow_succ]; omega
  have hnat : (BitVec.ofNat (w + 1) (magnitude x)).toNat = magnitude x := by
    rw [BitVec.toNat_ofNat, Nat.mod_eq_of_lt hbound]
  have hnot : (~~~ BitVec.ofNat (w + 1) (magnitude x)).toNat = 2 ^ (w + 1) - 1 - magnitude x := by
    rw [BitVec.toNat_not, hnat]
  rw [totalKey, xor_sshiftRight_of_neg hx, BitVec.toInt_eq_toNat_cond, hnot,
    if_neg (by rw [Nat.pow_succ]; omega)]
  have hcast : ((2 ^ (w + 1) - 1 - magnitude x : ℕ) : ℤ) = (2 ^ (w + 1) : ℕ) - 1 - magnitude x := by
    omega
  rw [hcast]
  ring

/-- Every pattern with the sign bit is below every pattern without it: `-0` is below `+0`, and the
negative NaN patterns are below all numbers. -/
theorem totalKey_lt_of_sign (hx : x.msb = true) (hy : y.msb = false) :
    totalKey x < totalKey y := by
  rw [totalKey_of_neg hx, totalKey_of_pos hy]
  omega

/-- **Patterns that compare as equal are the same.** -/
theorem totalKey_injective : Function.Injective (totalKey : BitVec (w + 1) → ℤ) := by
  intro x y hxy
  refine BitVec.eq_of_toNat_eq ?_
  rw [toNat_eq x, toNat_eq y]
  rcases Bool.eq_false_or_eq_true x.msb with hx | hx <;>
    rcases Bool.eq_false_or_eq_true y.msb with hy | hy
  · rw [totalKey_of_neg hx, totalKey_of_neg hy] at hxy
    rw [hx, hy]
    omega
  · exact absurd hxy (totalKey_lt_of_sign hx hy).ne
  · exact absurd hxy (totalKey_lt_of_sign hy hx).ne'
  · rw [totalKey_of_pos hx, totalKey_of_pos hy] at hxy
    rw [hx, hy]
    omega

end Key

/-! ### Numbers of 32 bits -/

/-- `f32`, by `to_bits`. -/
structure F32 where
  bits : BitVec 32
  deriving DecidableEq, Repr

namespace F32

theorem bits_injective : Function.Injective bits := by
  rintro ⟨a⟩ ⟨b⟩ rfl
  rfl

/-- The order of `total_cmp`. -/
instance : LinearOrder F32 :=
  LinearOrder.lift' (fun a => totalKey a.bits) (totalKey_injective.comp bits_injective)

theorem le_iff {a b : F32} : a ≤ b ↔ totalKey a.bits ≤ totalKey b.bits := Iff.rfl

/-- **Of two numbers with one sign the order of the magnitudes decides**, and it is turned round
below zero. -/
theorem le_iff_of_same_sign {a b : F32} (h : a.bits.msb = b.bits.msb) :
    a ≤ b ↔ if a.bits.msb then magnitude b.bits ≤ magnitude a.bits
      else magnitude a.bits ≤ magnitude b.bits := by
  rw [le_iff]
  cases ha : a.bits.msb with
  | false =>
    rw [totalKey_of_pos ha, totalKey_of_pos (h.symm.trans ha), if_neg (by decide)]
    omega
  | true =>
    rw [totalKey_of_neg ha, totalKey_of_neg (h.symm.trans ha), if_pos rfl]
    omega

/-- `-inf < -1 < -0 < +0 < 1 < inf < NaN`. -/
example : ([0xff800000, 0xbf800000, 0x80000000, 0, 0x3f800000, 0x7f800000, 0x7fc00000].map
    F32.mk).Pairwise (· < ·) := by decide

end F32

end OxEmbed.TotalCmp
