import Mathlib.Algebra.Polynomial.Div
import Mathlib.Algebra.Polynomial.Monic
import Mathlib.Data.ZMod.Basic
import RiscvScratch.Crc.Reflected

/-! A reflected CRC as polynomial division over the field of two elements. Bit `i` of the register
from the top is the coefficient of `X ^ i`; a message is read low bit first, its first bit the
highest power. -/
namespace Crc

open Polynomial

noncomputable section

variable {w : ℕ}

def coefficient (b : Bool) : ZMod 2 := if b then 1 else 0

def toPoly (c : BitVec w) : (ZMod 2)[X] :=
  ∑ i ∈ Finset.range w, monomial i (coefficient (c.getMsbD i))

/-- The divisor of a CRC with the reflected polynomial `poly`. -/
def divisor (poly : BitVec w) : (ZMod 2)[X] := X ^ w + toPoly poly

def message : List (BitVec 8) → (ZMod 2)[X]
  | [] => 0
  | b :: l => toPoly b * X ^ (8 * l.length) + message l

/-- The remainder of the message, shifted up by the register's width and started from `c`. -/
def remainder (poly c : BitVec w) (l : List (BitVec 8)) : (ZMod 2)[X] :=
  (toPoly c * X ^ (8 * l.length) + message l * X ^ w) %ₘ divisor poly

theorem coefficient_xor (a b : Bool) : coefficient (a ^^ b) = coefficient a + coefficient b := by
  cases a <;> cases b <;> decide

theorem toPoly_coeff (c : BitVec w) (i : ℕ) : (toPoly c).coeff i = coefficient (c.getMsbD i) := by
  simp only [toPoly, finsetSum_coeff, coeff_monomial]
  by_cases h : i < w
  · simp [Finset.mem_range, h]
  · rw [BitVec.getMsbD_of_ge c i (Nat.not_lt.mp h)]
    simp [Finset.mem_range, h, coefficient]

theorem toPoly_injective : Function.Injective (toPoly : BitVec w → (ZMod 2)[X]) := by
  intro a b h
  apply BitVec.eq_of_getMsbD_eq
  intro i _
  have hi := congrArg (fun p => p.coeff i) h
  simp only [toPoly_coeff] at hi
  revert hi
  cases a.getMsbD i <;> cases b.getMsbD i <;> decide

theorem toPoly_xor (a b : BitVec w) : toPoly (a ^^^ b) = toPoly a + toPoly b := by
  ext i
  rw [coeff_add, toPoly_coeff, toPoly_coeff, toPoly_coeff, BitVec.getMsbD_xor, coefficient_xor]

theorem toPoly_degree_lt (c : BitVec w) : (toPoly c).degree < w := by
  rw [degree_lt_iff_coeff_zero]
  intro i hi
  rw [toPoly_coeff, BitVec.getMsbD_of_ge c i hi]
  rfl

theorem divisor_monic (poly : BitVec w) : (divisor poly).Monic :=
  monic_X_pow_add (toPoly_degree_lt poly)

theorem divisor_degree (poly : BitVec w) : (divisor poly).degree = w := by
  have h : (toPoly poly).degree < (X ^ w : (ZMod 2)[X]).degree := by
    rw [degree_X_pow]
    exact toPoly_degree_lt poly
  rw [divisor, degree_add_eq_left_of_degree_lt h, degree_X_pow]

/-- Moving down by one place multiplies by `X`, less the coefficient that falls out. -/
theorem X_mul_toPoly_coeff (c : BitVec w) (i : ℕ) :
    (X * toPoly c).coeff i =
      coefficient ((c >>> 1).getMsbD i) + if i = w then coefficient (c.getLsbD 0) else 0 := by
  cases i with
  | zero =>
    rw [coeff_X_mul_zero, BitVec.getMsbD_ushiftRight]
    split
    · next h => subst h; rw [BitVec.getLsbD_of_ge c 0 le_rfl]; rfl
    · simp [coefficient]
  | succ i =>
    rw [coeff_X_mul, toPoly_coeff, BitVec.getMsbD_ushiftRight, Nat.add_sub_cancel]
    rcases Nat.lt_trichotomy (i + 1) w with h | h | h
    · simp [h, h.ne]
    · have hlast : c.getMsbD i = c.getLsbD 0 := by
        rw [BitVec.getMsbD_eq_getLsbD, show w - 1 - i = 0 by omega]
        simp [show i < w by omega]
      simp [h, hlast, coefficient]
    · rw [BitVec.getMsbD_of_ge c i (by omega)]
      simp [show ¬i + 1 < w by omega, h.ne', coefficient]

/-- A shift multiplies by `X` and takes the divisor off when the top coefficient falls out. -/
theorem toPoly_shift (poly c : BitVec w) :
    toPoly (shift poly c) = X * toPoly c + C (coefficient (c.getLsbD 0)) * divisor poly := by
  ext i
  rw [coeff_add, X_mul_toPoly_coeff, coeff_C_mul, divisor, coeff_add, coeff_X_pow, toPoly_coeff,
    toPoly_coeff, shift]
  have htwo : (1 : ZMod 2) + 1 = 0 := by decide
  cases c.getLsbD 0 with
  | false => simp [coefficient]
  | true =>
    rw [if_pos rfl, BitVec.getMsbD_xor, coefficient_xor, show coefficient true = 1 from rfl]
    split
    · linear_combination -htwo
    · ring

/-- Shifts are multiplication by a power of `X`, up to multiples of the divisor. -/
theorem dvd_toPoly_iterate (poly c : BitVec w) (n : ℕ) :
    divisor poly ∣ toPoly ((shift poly)^[n] c) - X ^ n * toPoly c := by
  induction n with
  | zero => simp
  | succ n ih =>
    rw [Function.iterate_succ_apply', toPoly_shift]
    have hstep : X * toPoly ((shift poly)^[n] c) +
        C (coefficient (((shift poly)^[n] c).getLsbD 0)) * divisor poly - X ^ (n + 1) * toPoly c =
        X * (toPoly ((shift poly)^[n] c) - X ^ n * toPoly c) +
          C (coefficient (((shift poly)^[n] c).getLsbD 0)) * divisor poly := by ring
    rw [hstep]
    exact dvd_add (ih.mul_left _) (dvd_mul_left _ _)

theorem toPoly_setWidth (hw : 8 ≤ w) (b : BitVec 8) :
    toPoly (b.setWidth w) = X ^ (w - 8) * toPoly b := by
  ext i
  rw [toPoly_coeff, coeff_X_pow_mul']
  split
  · next h =>
    rw [toPoly_coeff, BitVec.getMsbD_eq_getLsbD, BitVec.getMsbD_eq_getLsbD, BitVec.getLsbD_setWidth]
    by_cases hi : i < w
    · rw [show 8 - 1 - (i - (w - 8)) = w - 1 - i by omega]
      simp [hi, show i - (w - 8) < 8 by omega, show w - 1 - i < w by omega]
    · simp [hi, show ¬i - (w - 8) < 8 by omega]
  · next h =>
    rw [BitVec.getMsbD_eq_getLsbD, BitVec.getLsbD_setWidth,
      BitVec.getLsbD_of_ge b _ (show 8 ≤ w - 1 - i by omega)]
    simp [coefficient]

theorem dvd_toPoly_byte (hw : 8 ≤ w) (poly c : BitVec w) (b : BitVec 8) :
    divisor poly ∣ toPoly (byte poly c b) - (toPoly c * X ^ 8 + toPoly b * X ^ w) := by
  have h := dvd_toPoly_iterate poly (c ^^^ b.setWidth w) 8
  have hexp : (X : (ZMod 2)[X]) ^ w = X ^ 8 * X ^ (w - 8) := by
    rw [← pow_add, Nat.add_sub_cancel' hw]
  have hsplit : X ^ 8 * toPoly (c ^^^ b.setWidth w) = toPoly c * X ^ 8 + toPoly b * X ^ w := by
    rw [toPoly_xor, toPoly_setWidth hw, hexp]
    ring
  rwa [hsplit] at h

theorem dvd_toPoly_run (hw : 8 ≤ w) (poly c : BitVec w) (l : List (BitVec 8)) :
    divisor poly ∣
      toPoly (run poly c l) - (toPoly c * X ^ (8 * l.length) + message l * X ^ w) := by
  induction l generalizing c with
  | nil => simp [run, message]
  | cons b l ih =>
    have hrun : run poly c (b :: l) = run poly (byte poly c b) l := rfl
    have hbyte := (dvd_toPoly_byte hw poly c b).mul_right (X ^ (8 * l.length))
    have hsum := dvd_add (ih (byte poly c b)) hbyte
    rw [hrun, message, List.length_cons, Nat.mul_succ, pow_add]
    convert hsum using 1
    ring

theorem toPoly_run (hw : 8 ≤ w) (poly c : BitVec w) (l : List (BitVec 8)) :
    toPoly (run poly c l) = remainder poly c l := by
  have hdeg : (toPoly (run poly c l)).degree < (divisor poly).degree := by
    rw [divisor_degree]
    exact toPoly_degree_lt _
  rw [remainder, ← (modByMonic_eq_self_iff (divisor_monic poly)).mpr hdeg]
  exact (modByMonic_eq_of_dvd_sub (divisor_monic poly) (dvd_toPoly_run hw poly c l))

end

end Crc
