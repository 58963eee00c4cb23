import RiscvScratch.Float.Sticky
import RiscvScratch.Fpu.Fields

/-! What the rounder delivers: the real number its arguments stand for, rounded to 24 bits. -/
namespace RiscvScratch.FpuF

open Rounding

def rmOf : Mode → BitVec 3
  | .nearestEven => rne
  | .towardZero => rtz
  | .down => rdn
  | .up => rup
  | .nearestAway => rmm

noncomputable def magnitude (a : Word) : ℝ := mant a * pow2 (expo a - 150)

/-- A word with exponent field 0 is read as a zero. -/
noncomputable def value (a : Word) : ℝ := sgn (sign a) * magnitude a

/-- Neither infinite nor NaN. -/
def IsFinite (a : Word) : Prop := expo a ≠ 255

def IsNormal (a : Word) : Prop := expo a ≠ 0 ∧ expo a ≠ 255

instance (a : Word) : Decidable (IsFinite a) := inferInstanceAs (Decidable (expo a ≠ 255))

instance (a : Word) : Decidable (IsNormal a) := inferInstanceAs (Decidable (_ ∧ _))

variable {a : Word}

theorem mant_normal (h : expo a ≠ 0) : mant a = 2 ^ 23 + frac a := by
  simp [mant, isZero, h]

theorem mant_bounds (h : expo a ≠ 0) : 2 ^ 23 ≤ mant a ∧ mant a < 2 ^ 24 := by
  have := frac_lt a
  rw [mant_normal h]
  omega

theorem magnitude_pos (h : expo a ≠ 0) : 0 < magnitude a := by
  have hm : (0 : ℝ) < mant a := by exact_mod_cast lt_of_lt_of_le (by decide) (mant_bounds h).1
  exact mul_pos hm (zpow_pos two_pos _)

theorem value_pack {s : Bool} {e k : ℕ} (he₀ : 0 < e) (he : e < 256) (hk₀ : 2 ^ 23 ≤ k)
    (hk : k < 2 ^ 24) :
    value (pack s e (k % 2 ^ 23)) = sgn s * (k * 2 ^ (e - 150 : ℤ)) := by
  obtain ⟨hs, hx, hf⟩ := fields_pack (s := s) (e := e) (f := k % 2 ^ 23) he
    (Nat.mod_lt _ (by decide))
  have hm : mant (pack s e (k % 2 ^ 23)) = k := by
    rw [mant_normal (by omega), hf]
    omega
  rw [value, magnitude, pow2, hs, hx, hm]

/-- The result of an overflow: the infinity, or the largest number where the mode rounds toward
zero. -/
def overflowed (mode : Mode) (s : Bool) : Word :=
  match mode, s with
  | .towardZero, _ | .down, false | .up, true => pack s 254 0x7FFFFF
  | _, _ => pack s 255 0

/-- The outcome of the rounder for the real number `x`, of sign `s` and not 0. -/
structure Delivers (mode : Mode) (s : Bool) (x : ℝ) (rp : Rounded) : Prop where
  nonzero : roundTo 24 mode x ≠ 0
  overflow : pow2 128 ≤ |roundTo 24 mode x| → rp = ⟨true, false, true, overflowed mode s⟩
  underflow : |roundTo 24 mode x| < pow2 (-126) → rp = ⟨false, true, true, pack s 0 0⟩
  normal : pow2 (-126) ≤ |roundTo 24 mode x| → |roundTo 24 mode x| < pow2 128 →
    rp.of = false ∧ rp.uf = false ∧ (rp.nx = true ↔ roundTo 24 mode x ≠ x) ∧
      IsNormal rp.f32 ∧ value rp.f32 = roundTo 24 mode x

section roundPack
variable {mode : Mode} {s : Bool} {sig : ℕ} {q : ℝ} {e : ℤ}

theorem roundInc_eq : roundInc s sig (rmOf mode) = increment mode s sig := by
  have hb (i : ℕ) : sig.testBit i = decide (sig / 2 ^ i % 2 = 1) :=
    Nat.testBit_eq_decide_div_mod_eq
  cases mode <;> rw [Bool.eq_iff_iff] <;>
    simp [roundInc, rmOf, increment, hb, rne, rtz, rdn, rup, rmm] <;> omega

theorem overflowed_eq : (if rmOf mode = rtz ∨ (rmOf mode = rdn ∧ s = false) ∨
    (rmOf mode = rup ∧ s = true) then pack s 254 0x7FFFFF else pack s 255 0) =
      overflowed mode s := by
  cases mode <;> cases s <;> rfl

variable {k : ℕ}

theorem scaled_bounds (hk₀ : 2 ^ 23 ≤ k) (hk : k < 2 ^ 24) (e : ℤ) :
    2 ^ (e - 127) ≤ (k : ℝ) * 2 ^ (e - 150) ∧ (k : ℝ) * 2 ^ (e - 150) < 2 ^ (e - 126) := by
  have he : (0 : ℝ) < 2 ^ (e - 150) := zpow_pos two_pos _
  have h₀ : (2 ^ 23 : ℝ) ≤ k := by exact_mod_cast hk₀
  have h₁ : (k : ℝ) < 2 ^ 24 := by exact_mod_cast hk
  constructor
  · rw [two_zpow_add 23 (show e - 127 = e - 150 + (23 : ℕ) by omega), mul_comm]
    exact mul_le_mul_of_nonneg_right h₀ he.le
  · rw [two_zpow_add 24 (show e - 126 = e - 150 + (24 : ℕ) by omega), mul_comm _ ((2 : ℝ) ^ 24)]
    exact mul_lt_mul_of_pos_right h₁ he

theorem scaled_iff (hk₀ : 2 ^ 23 ≤ k) (hk : k < 2 ^ 24) (e j : ℤ) :
    2 ^ j ≤ (k : ℝ) * 2 ^ (e - 150) ↔ j + 127 ≤ e := by
  obtain ⟨hlo, hhi⟩ := scaled_bounds hk₀ hk e
  constructor
  · intro h
    have := (zpow_lt_zpow_iff_right₀ (one_lt_two (α := ℝ))).mp (h.trans_lt hhi)
    omega
  · intro h
    exact (zpow_le_zpow_right₀ one_le_two (by omega)).trans hlo

theorem delivers_of {x : ℝ} {nx : Bool} (hk₀ : 2 ^ 23 ≤ k) (hk : k < 2 ^ 24)
    (hy : roundTo 24 mode x = sgn s * (k * 2 ^ (e - 150)))
    (hnx : nx = true ↔ roundTo 24 mode x ≠ x) :
    Delivers mode s x
      (if e ≥ 255 then ⟨true, false, true, overflowed mode s⟩
        else if e ≤ 0 then ⟨false, k % 2 ^ 24 != 0, nx || k % 2 ^ 24 != 0, pack s 0 0⟩
        else ⟨false, false, nx, pack s e.toNat (k % 2 ^ 23)⟩) := by
  have habs : |roundTo 24 mode x| = k * 2 ^ (e - 150) := by
    rw [hy, abs_mul, abs_sgn, one_mul, abs_of_nonneg (by positivity)]
  have huf : (k % 2 ^ 24 != 0) = true := by
    rw [bne_iff_ne]
    omega
  have hover : pow2 128 ≤ |roundTo 24 mode x| ↔ e ≥ 255 := by
    rw [habs, pow2, scaled_iff hk₀ hk]
    omega
  have hunder : |roundTo 24 mode x| < pow2 (-126) ↔ e ≤ 0 := by
    rw [habs, ← not_le, pow2, scaled_iff hk₀ hk]
    omega
  have hpos : (0 : ℝ) < k := by exact_mod_cast (by omega)
  refine ⟨?_, ?_, ?_, ?_⟩
  · rw [hy]
    exact mul_ne_zero (sgn_ne_zero s) (mul_pos hpos (zpow_pos two_pos _)).ne'
  · intro h
    rw [if_pos (hover.mp h)]
  · intro h
    have he := hunder.mp h
    rw [if_neg (by omega), if_pos he, huf, Bool.or_true]
  · intro h₁ h₂
    have he₁ : ¬e ≤ 0 := hunder.not.mp h₁.not_gt
    have he₂ : ¬e ≥ 255 := hover.not.mp h₂.not_ge
    obtain ⟨n, rfl⟩ := Int.eq_ofNat_of_zero_le (by omega : 0 ≤ e)
    rw [if_neg he₂, if_neg he₁, Int.toNat_natCast]
    obtain ⟨-, hx, -⟩ := fields_pack (s := s) (e := n) (f := k % 2 ^ 23) (by omega)
      (Nat.mod_lt _ (by decide))
    refine ⟨rfl, rfl, hnx, ⟨hx.trans_ne (by omega), hx.trans_ne (by omega)⟩, ?_⟩
    rw [value_pack (by omega) (by omega) hk₀ hk, hy]

theorem roundPack_delivers (h₀ : 2 ^ 26 ≤ sig) (h₁ : sig < 2 ^ 27) (hq : Sticks sig q)
    (he₀ : -512 ≤ e) (he₁ : e < 511) :
    Delivers mode s (sgn s * (q * 2 ^ (e - 153))) (roundPack s e sig (rmOf mode)) := by
  obtain ⟨hy, hex⟩ := hq.roundTo mode s (e - 153) (p := 24) h₀ h₁
  have hnx : (sig % 8 != 0) = true ↔
      roundTo 24 mode (sgn s * (q * 2 ^ (e - 153))) ≠ sgn s * (q * 2 ^ (e - 153)) := by
    rw [bne_iff_ne, Ne, Ne, hex]
  have hb : (increment mode s sig).toNat ≤ 1 := Bool.toNat_le _
  rw [← Nat.cast_add, show e - 153 + 3 = e - 150 by ring] at hy
  simp only [roundPack, roundInc_eq, overflowed_eq]
  have hk : 2 ^ 23 ≤ sig / 8 + (increment mode s sig).toNat ∧
      sig / 8 + (increment mode s sig).toNat ≤ 2 ^ 24 := by omega
  generalize sig / 8 + (increment mode s sig).toNat = k at hk hy
  by_cases hc : k = 2 ^ 24
  · -- the increment carried out of the 24 bits
    have ht : (2 ^ 24 : ℕ).testBit 24 = true := by decide
    have he : int10 (e + 1) = e + 1 := by
      unfold int10
      omega
    rw [hc] at hy ⊢
    rw [if_pos ht, if_pos ht, he]
    refine delivers_of (by norm_num) (by norm_num) ?_ hnx
    rw [hy, two_zpow_add 1 (show e + 1 - 150 = e - 150 + (1 : ℕ) by omega),
      show ((2 ^ 24 : ℕ) : ℝ) = (2 ^ 24 / 2 : ℕ) * 2 by norm_num]
    ring
  · have ht : ¬k.testBit 24 = true := by
      rw [Nat.testBit_lt_two_pow (by omega)]
      exact Bool.false_ne_true
    rw [if_neg ht, if_neg ht]
    exact delivers_of hk.1 (by omega) hy hnx

end roundPack

/-- The result and flags for the exact result `x`; a zero has the sign `zs`. -/
def Rounds (mode : Mode) (zs : Bool) (x : ℝ) (o : Outcome) : Prop :=
  (x = 0 ∧ o = (pack zs 0 0, 0#5)) ∨
    ∃ s rp, 0 < sgn s * x ∧ Delivers mode s x rp ∧ o = rp.outcome

section outcome
variable {mode : Mode} {s zs : Bool} {sig : ℕ} {x q : ℝ} {e : ℤ}

theorem rounds_roundPack (h₀ : 2 ^ 26 ≤ sig) (h₁ : sig < 2 ^ 27) (hq : Sticks sig q)
    (he₀ : -512 ≤ e) (he₁ : e < 511) (hx : x = sgn s * (q * 2 ^ (e - 153))) :
    Rounds mode zs x (roundPack s e sig (rmOf mode)).outcome := by
  have hpos : 0 < q := lt_of_lt_of_le (by exact_mod_cast (by omega : 0 < sig / 4 * 4)) hq.le
  refine Or.inr ⟨s, _, ?_, hx ▸ roundPack_delivers h₀ h₁ hq he₀ he₁, rfl⟩
  rw [hx, ← mul_assoc, ← sgn_xor, Bool.xor_self, sgn_false, one_mul]
  positivity

theorem roundTo_value {a : Word} (ha : IsNormal a) : roundTo 24 mode (value a) = value a := by
  obtain ⟨h₀, h₁⟩ := mant_bounds ha.1
  have hv : value a = sgn (sign a) * ((mant a * 8 : ℕ) * 2 ^ (expo a - 153 : ℤ)) := by
    rw [value, magnitude, pow2,
      two_zpow_add 3 (show (expo a - 150 : ℤ) = expo a - 153 + (3 : ℕ) by omega)]
    push_cast
    ring
  rw [hv]
  exact ((Sticks.refl (mant a * 8)).roundTo mode (sign a) (expo a - 153) (p := 24)
    (by omega) (by omega)).2.mpr (by omega)

theorem rounds_value {a : Word} (ha : IsNormal a) : Rounds mode zs (value a) (a, 0#5) := by
  obtain ⟨h₀, h₁⟩ := mant_bounds ha.1
  have hlt := expo_lt a
  have hpos := magnitude_pos ha.1
  have habs : |value a| = magnitude a := by
    rw [value, abs_mul, abs_sgn, one_mul, abs_of_pos hpos]
  have hfl : 0#5 = flags5 false false false false false := by decide
  refine Or.inr ⟨sign a, ⟨false, false, false, a⟩, ?_, ⟨?_, ?_, ?_, ?_⟩, congrArg (Prod.mk a) hfl⟩
  · rw [value, ← mul_assoc, ← sgn_xor, Bool.xor_self, sgn_false, one_mul]
    exact hpos
  · rw [roundTo_value ha]
    exact mul_ne_zero (sgn_ne_zero _) hpos.ne'
  · intro h
    rw [roundTo_value ha, habs, magnitude, pow2, pow2, scaled_iff h₀ h₁] at h
    have := ha.2
    omega
  · intro h
    rw [roundTo_value ha, habs, magnitude, ← not_le, pow2, pow2, scaled_iff h₀ h₁] at h
    have := ha.1
    omega
  · intro _ _
    simp [roundTo_value ha, ha]

end outcome

end RiscvScratch.FpuF
