import RiscvScratch.Crc.Division

/-! Words given by their bits, and words as polynomials over the field of two elements with bit `i`
the coefficient of `X ^ i`. -/
namespace Bits

open Polynomial

variable {w v : ℕ}

def ofBits (f : ℕ → Bool) : BitVec w :=
  (BitVec.ofBoolListLE ((List.range w).map f)).setWidth w

@[simp] theorem getLsbD_ofBits (f : ℕ → Bool) (i : ℕ) :
    (ofBits f : BitVec w).getLsbD i = (decide (i < w) && f i) := by
  rw [ofBits, BitVec.getLsbD_setWidth, BitVec.getLsbD_ofBoolListLE]
  by_cases h : i < w <;> simp [h]

theorem eq_ofBits {x : BitVec w} {f : ℕ → Bool} (h : ∀ i < w, x.getLsbD i = f i) :
    x = ofBits f := by
  apply BitVec.eq_of_getLsbD_eq
  intro i hi
  rw [getLsbD_ofBits, h i hi]
  simp [hi]

/-- The polynomial of the lowest `n` bits. -/
noncomputable def polyUpTo (x : BitVec w) (n : ℕ) : (ZMod 2)[X] :=
  ∑ i ∈ Finset.range n, monomial i (Crc.coefficient (x.getLsbD i))

noncomputable def poly (x : BitVec w) : (ZMod 2)[X] := polyUpTo x w

theorem coefficient_eq_one_iff (b : Bool) : Crc.coefficient b = 1 ↔ b = true := by
  cases b <;> decide

theorem poly_coeff (x : BitVec w) (i : ℕ) : (poly x).coeff i = Crc.coefficient (x.getLsbD i) := by
  simp only [poly, polyUpTo, finsetSum_coeff, coeff_monomial]
  by_cases h : i < w
  · simp [Finset.mem_range, h]
  · rw [BitVec.getLsbD_of_ge x i (Nat.not_lt.mp h)]
    simp [Finset.mem_range, h, Crc.coefficient]

@[simp] theorem poly_zero : poly (0#w) = 0 := by
  ext i
  rw [poly_coeff]
  simp [Crc.coefficient]

theorem poly_xor (x y : BitVec w) : poly (x ^^^ y) = poly x + poly y := by
  ext i
  rw [coeff_add, poly_coeff, poly_coeff, poly_coeff, BitVec.getLsbD_xor, Crc.coefficient_xor]

theorem poly_shiftLeft (x : BitVec w) {n : ℕ} (h : w + n ≤ v) :
    poly (x.setWidth v <<< n) = poly x * X ^ n := by
  ext i
  rw [poly_coeff, coeff_mul_X_pow', poly_coeff, BitVec.getLsbD_shiftLeft, BitVec.getLsbD_setWidth]
  by_cases hn : n ≤ i
  · by_cases hi : i - n < w
    · simp [hn, show i < v by omega, show i - n < v by omega, Nat.not_lt.mpr hn]
    · rw [BitVec.getLsbD_of_ge x _ (Nat.not_lt.mp hi)]
      simp [Crc.coefficient]
  · simp [hn, Nat.lt_of_not_le hn, Crc.coefficient]

theorem polyUpTo_succ (x : BitVec w) (n : ℕ) :
    polyUpTo x (n + 1) = polyUpTo x n + if x.getLsbD n then X ^ n else 0 := by
  rw [polyUpTo, Finset.sum_range_succ, ← polyUpTo]
  cases x.getLsbD n with
  | false => simp [Crc.coefficient]
  | true => simp [Crc.coefficient, X_pow_eq_monomial]

end Bits
