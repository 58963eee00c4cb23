import Mathlib.Analysis.Real.Sqrt
import RiscvScratch.Fpu.MulDiv

/-! The square root, digit by digit, and the conversions from integers. -/
namespace RiscvScratch.FpuF

open Rounding

section sqrt
variable {mode : Mode} {a : Word}

theorem sqrtStart_eq {rad : ℕ} (h₀ : 2 ^ 52 ≤ rad) (h₁ : rad < 2 ^ 54) :
    sqrtStart rad 28 (2 ^ 54) = 2 ^ 52 := by
  have hstay (n : ℕ) : sqrtStart rad n (2 ^ 52) = 2 ^ 52 := by
    induction n with
    | zero => rfl
    | succ n ih => rw [sqrtStart, if_neg (by omega), ih]
  rw [sqrtStart, if_pos (by omega)]
  exact hstay 27

theorem sqrtLoop_zero (n rad res : ℕ) : sqrtLoop n rad res 0 = (rad, res) := by
  induction n with
  | zero => rfl
  | succ n ih => rw [sqrtLoop, if_neg (by simp), ih]

/-- The digits still to come are those below `2 ^ n`; `r` is the root as far as it is known. -/
theorem sqrtLoop_spec {N : ℕ} (n r extra : ℕ) (hr : r + 2 ^ n ≤ 2 ^ 27) (hlo : r ^ 2 ≤ N)
    (hhi : N < (r + 2 ^ n) ^ 2) :
    sqrtLoop (n + extra) (N - r ^ 2) (r * 2 ^ n) (4 ^ n / 4) = (N - N.sqrt ^ 2, N.sqrt) := by
  induction n generalizing r with
  | zero =>
    have hs : r = N.sqrt := Nat.eq_sqrt'.mpr ⟨hlo, hhi⟩
    rw [← hs, pow_zero, mul_one, pow_zero]
    exact sqrtLoop_zero _ _ _
  | succ n ih =>
    have hp : 2 ^ (n + 1) = 2 ^ n + 2 ^ n := by ring
    have hpos : 0 < 2 ^ n := by positivity
    have h4 : 4 ^ n = 2 ^ n * 2 ^ n := by rw [← mul_pow, show 2 * 2 = 4 by rfl]
    have hsq : (r + 2 ^ n) ^ 2 = r ^ 2 + (r * 2 ^ (n + 1) + 4 ^ n) := by
      rw [h4]
      ring
    have hle : (r + 2 ^ n) ^ 2 ≤ (2 ^ 27) ^ 2 := Nat.pow_le_pow_left (by omega) 2
    have hres : r * 2 ^ (n + 1) / 2 = r * 2 ^ n := by
      rw [pow_succ, ← mul_assoc, Nat.mul_div_cancel _ two_pos]
    have hnew : r * 2 ^ n + 4 ^ n = (r + 2 ^ n) * 2 ^ n := by
      rw [h4]
      ring
    have hfit : (r + 2 ^ n) * 2 ^ n ≤ (r + 2 ^ n) ^ 2 := by
      rw [pow_two]
      exact Nat.mul_le_mul_left _ (by omega)
    have hbit : 4 ^ (n + 1) / 4 = 4 ^ n := by rw [pow_succ, Nat.mul_div_cancel _ (by decide)]
    have hmod : (r * 2 ^ (n + 1) + 4 ^ n) % 2 ^ 56 = r * 2 ^ (n + 1) + 4 ^ n :=
      Nat.mod_eq_of_lt (by omega)
    have hmod' : (r + 2 ^ n) * 2 ^ n % 2 ^ 56 = (r + 2 ^ n) * 2 ^ n := Nat.mod_eq_of_lt (by omega)
    rw [show n + 1 + extra = n + extra + 1 by omega, sqrtLoop, hbit, if_pos (by positivity), hmod,
      hres, hnew, hmod']
    by_cases htake : N - r ^ 2 ≥ r * 2 ^ (n + 1) + 4 ^ n
    · rw [if_pos htake, Nat.sub_sub, ← hsq]
      apply ih
      · omega
      · omega
      · rwa [add_assoc, ← hp]
    · rw [if_neg htake]
      apply ih
      · omega
      · exact hlo
      · omega

theorem sqrt_jams (N : ℕ) :
    Jams (N.sqrt ||| (N - N.sqrt ^ 2 != 0).toNat) (Real.sqrt N) := by
  have hlo : N.sqrt ^ 2 ≤ N := Nat.sqrt_le' N
  have hlo' : ((N.sqrt : ℝ)) ^ 2 ≤ N := by exact_mod_cast hlo
  have hhi' : (N : ℝ) < (N.sqrt + 1) ^ 2 := by exact_mod_cast Nat.lt_succ_sqrt' N
  apply Jams.of_floor
  · exact Real.le_sqrt_of_sq_le hlo'
  · exact (Real.sqrt_lt' (by positivity)).mpr hhi'
  · have heq : Real.sqrt N = N.sqrt ↔ N.sqrt ^ 2 = N := by
      rw [Real.sqrt_eq_iff_eq_sq (by positivity) (by positivity), eq_comm]
      exact_mod_cast Iff.rfl
    rw [bne_iff_ne, Ne, Ne, heq]
    omega

variable {M : ℕ}

theorem sqrt_scaled {x : ℝ} {k : ℤ} (hx : x = M * 2 ^ (2 * k)) :
    Real.sqrt x = Real.sqrt M * 2 ^ k := by
  rw [hx, Real.sqrt_mul (by positivity), mul_comm 2 k, zpow_mul, zpow_ofNat,
    Real.sqrt_sq (by positivity)]

theorem sqrt_radicand (a : Word) :
    magnitude a = ((if expo a % 2 = 0 then mant a * 2 else mant a) * 2 ^ 29 : ℕ) *
      2 ^ (2 * (((expo a - 127 : ℤ) / 2 + 127) - 153)) := by
  rw [magnitude, pow2]
  split_ifs with h
  · rw [two_zpow_add 30 (show (expo a - 150 : ℤ) =
      2 * (((expo a - 127 : ℤ) / 2 + 127) - 153) + (30 : ℕ) by omega)]
    push_cast
    ring
  · rw [two_zpow_add 29 (show (expo a - 150 : ℤ) =
      2 * (((expo a - 127 : ℤ) / 2 + 127) - 153) + (29 : ℕ) by omega)]
    push_cast
    ring

theorem sqrtLoop_root (h₀ : 2 ^ 52 ≤ M) (h₁ : M < 2 ^ 54) :
    sqrtLoop 28 M 0 (sqrtStart M 28 (2 ^ 54)) = (M - M.sqrt ^ 2, M.sqrt) := by
  have hspec := sqrtLoop_spec (N := M) 27 0 1 (by omega) (by omega) (by omega)
  rw [sqrtStart_eq h₀ h₁]
  simpa using hspec

theorem root_rounds {zs : Bool} {e : ℤ} (h₀ : 2 ^ 52 ≤ M) (h₁ : M < 2 ^ 54)
    (he₀ : -500 < e) (he₁ : e < 500) :
    Rounds mode zs (Real.sqrt M * 2 ^ (e - 153))
      (roundPack false e (M.sqrt % 2 ^ 27 / 2 * 2 +
        (M.sqrt.testBit 0 || (M - M.sqrt ^ 2 != 0)).toNat) (rmOf mode)).outcome := by
  have hlo : 2 ^ 26 ≤ M.sqrt := Nat.le_sqrt'.mpr (by omega)
  have hhi : M.sqrt < 2 ^ 27 := Nat.sqrt_lt'.mpr (by omega)
  have hst := Bool.toNat_le (M - M.sqrt ^ 2 != 0)
  have hle : M.sqrt ≤ M.sqrt ||| (M - M.sqrt ^ 2 != 0).toNat := Nat.left_le_or
  rw [Nat.mod_eq_of_lt hhi, or_sticky]
  refine rounds_roundPack (by omega) (Nat.or_lt_two_pow hhi (by omega)) (sqrt_jams M).sticks
    (by omega) (by omega) ?_
  rw [sgn_false, one_mul]

theorem fsqrtCore_rounds (ha : IsFinite a) (hs : sign a = false ∨ isZero a = true) :
    Rounds mode (sign a) (Real.sqrt (value a)) (fsqrtCore (rmOf mode) a) := by
  obtain ⟨han, hai⟩ := finite_flags ha
  unfold fsqrtCore
  cases hz : isZero a with
  | true =>
    simp only [han, Bool.false_eq_true, if_false, if_true]
    exact Or.inl ⟨by rw [value_zero hz, Real.sqrt_zero], rfl⟩
  | false =>
    have hsa := hs.resolve_right (by simp [hz])
    obtain ⟨h₀, h₁⟩ := mant_bounds (isNormal_of ha hz).1
    have hlt := expo_lt a
    have hv : value a = magnitude a := by rw [value, hsa, sgn_false, one_mul]
    have hrad : 2 ^ 23 ≤ (if expo a % 2 = 0 then mant a * 2 else mant a) ∧
        (if expo a % 2 = 0 then mant a * 2 else mant a) < 2 ^ 25 := by
      split_ifs <;> omega
    have hx := sqrt_scaled (sqrt_radicand a)
    have he : int10 ((expo a - 127 : ℤ) / 2 + 127) = (expo a - 127 : ℤ) / 2 + 127 :=
      int10_eq (by omega) (by omega)
    have hM : 2 ^ 52 ≤ (if expo a % 2 = 0 then mant a * 2 else mant a) * 2 ^ 29 ∧
        (if expo a % 2 = 0 then mant a * 2 else mant a) * 2 ^ 29 < 2 ^ 54 := by omega
    simp only [han, hai, hsa, Bool.false_eq_true, if_false, he, sqrtLoop_root hM.1 hM.2]
    rw [hv, hx]
    exact root_rounds hM.1 hM.2 (by omega) (by omega)

end sqrt

section integers
variable {mode : Mode} {ui : ℕ}

theorem topBit_scan (h₀ : 0 < ui) (h₁ : ui < 2 ^ 32) {n : ℕ} (hn : n ≤ 32) :
    (List.range n).foldl (fun sh j => if sh = 0 ∧ ui.testBit (31 - j) then 31 - j else sh) 0 =
      if 32 - n ≤ ui.log2 then ui.log2 else 0 := by
  have hlog : ui.log2 < 32 := (Nat.log2_lt h₀.ne').mpr h₁
  induction n with
  | zero => simp [hlog]
  | succ n ih =>
    rw [List.range_succ, List.foldl_append, ih (by omega)]
    simp only [List.foldl_cons, List.foldl_nil]
    rcases Nat.lt_trichotomy ui.log2 (31 - n) with h | h | h
    · have hlt : ui < 2 ^ (31 - n) := (Nat.log2_lt h₀.ne').mp h
      simp [Nat.testBit_lt_two_pow hlt, show ¬32 - n ≤ ui.log2 by omega,
        show ¬31 - n ≤ ui.log2 by omega]
    · have hbit : ui.testBit (31 - n) = true := h ▸ Nat.testBit_log2 h₀.ne'
      simp [hbit, h]
      omega
    · simp [show 32 - n ≤ ui.log2 by omega, show 31 - n ≤ ui.log2 by omega,
        show ¬ui.log2 = 0 by omega]

theorem topBit_eq (h₀ : 0 < ui) (h₁ : ui < 2 ^ 32) : topBit ui = ui.log2 := by
  rw [topBit, topBit_scan h₀ h₁ le_rfl, if_pos (by omega)]

theorem cvtSig_spec {sh : ℕ} (h₀ : 2 ^ sh ≤ ui) (h₁ : ui < 2 ^ (sh + 1)) :
    2 ^ 26 ≤ cvtSig ui sh ∧ cvtSig ui sh < 2 ^ 27 ∧
      Sticks (cvtSig ui sh) (ui * 2 ^ (26 - sh : ℤ)) := by
  rcases Nat.lt_or_ge 24 sh with h | h
  · obtain ⟨d, rfl⟩ := Nat.exists_eq_add_of_le (show 25 ≤ sh by omega)
    have hm₀ : 2 ^ 25 ≤ ui / 2 ^ d := (Nat.le_div_iff_mul_le (by positivity)).mpr
      (by rwa [← pow_add])
    have hm₁ : ui / 2 ^ d < 2 ^ 26 := by
      rw [Nat.div_lt_iff_lt_mul (by positivity), ← pow_add]
      rwa [show 26 + d = 25 + d + 1 by ring]
    have hdiv (k : ℕ) : ui / 2 ^ (d + k) = ui / 2 ^ d / 2 ^ k := by
      rw [pow_add, Nat.div_div_eq_div_mul]
    have hsig : cvtSig ui (25 + d) = ui / 2 ^ d * 2 + (ui % 2 ^ d != 0).toNat := by
      rw [cvtSig, if_neg (by omega), if_pos (by omega), show 25 + d - 23 = d + 2 by omega,
        show 25 + d - 24 = d + 1 by omega, show 25 + d - 25 = d by omega, hdiv, hdiv]
      omega
    have hst := Bool.toNat_le (ui % 2 ^ d != 0)
    have hj := (Jams.of_div (n := ui) (d := 2 ^ d) (by positivity) bne_iff_ne).2
    have hq : (ui : ℝ) * 2 ^ (26 - (25 + d : ℕ) : ℤ) = (ui : ℝ) / (2 ^ d : ℕ) * 2 := by
      have hz := two_zpow_add d (show (1 : ℤ) = 26 - (25 + d : ℕ) + d by push_cast; ring)
      rw [zpow_one] at hz
      rw [div_mul_eq_mul_div, eq_div_iff (by positivity)]
      push_cast at hz ⊢
      linear_combination -(ui : ℝ) * hz
    rw [hsig, hq]
    exact ⟨by omega, by omega, hj.sticks⟩
  · have hp : 2 ^ 26 = 2 ^ sh * 2 ^ (26 - sh) := by
      rw [← pow_add]
      congr 1
      omega
    have hlt : ui * 2 ^ (26 - sh) < 2 ^ 27 := by
      rw [pow_succ 2 26, hp, mul_right_comm, ← pow_succ]
      exact Nat.mul_lt_mul_of_pos_right h₁ (by positivity)
    have hsig : cvtSig ui sh = ui * 2 ^ (26 - sh) := by
      rw [cvtSig]
      rcases Nat.lt_or_ge 23 sh with h23 | h23
      · obtain rfl : sh = 24 := by omega
        norm_num
        omega
      · rw [if_pos h23, ← Nat.mod_eq_of_lt hlt, mul_assoc, show 26 - sh = 3 + (23 - sh) by omega,
          pow_add, show 2 ^ 3 = 8 by rfl]
    have hq : (ui : ℝ) * 2 ^ (26 - sh : ℤ) = (ui * 2 ^ (26 - sh) : ℕ) := by
      rw [show (26 - sh : ℤ) = (26 - sh : ℕ) by omega, zpow_natCast]
      push_cast
      rfl
    rw [hsig, hq]
    refine ⟨?_, hlt, .refl _⟩
    rw [hp]
    exact Nat.mul_le_mul_right _ h₀

noncomputable def intValue (signed : Bool) (a : Word) : ℝ := if signed then a.toInt else a.toNat

theorem intValue_eq (signed : Bool) {a : Word} (ha : a ≠ 0#32) :
    intValue signed a = sgn (signed && a.getLsbD 31) *
      (if (signed && a.getLsbD 31) = true then ~~~a + 1#32 else a).toNat ∧
    0 < (if (signed && a.getLsbD 31) = true then ~~~a + 1#32 else a).toNat := by
  have hlt := a.isLt
  have hpos : 0 < a.toNat := by
    rw [Nat.pos_iff_ne_zero]
    exact fun h => ha (BitVec.eq_of_toNat_eq h)
  have hneg : (~~~a + 1#32).toNat = 2 ^ 32 - a.toNat := by
    rw [← BitVec.neg_eq_not_add, BitVec.toNat_neg, Nat.mod_eq_of_lt (by omega)]
  have hint := a.toInt_eq_msb_cond
  have hmsb : a.getLsbD 31 = a.msb := (BitVec.msb_eq_getLsbD_last a).symm
  rw [hmsb]
  cases signed with
  | false => simp [intValue, hpos]
  | true =>
    cases hm : a.msb with
    | false => simp [intValue, hint, hm, hpos]
    | true =>
      simp only [intValue, hint, hm, Bool.and_self, if_true, hneg, sgn_true]
      refine ⟨?_, by omega⟩
      rw [Nat.cast_sub hlt.le]
      push_cast
      ring

theorem fromInteger_rounds (a : Word) (signed : Bool) :
    Rounds mode false (intValue signed a) (fromInteger (rmOf mode) a signed) := by
  rw [fromInteger]
  by_cases ha : a = 0#32
  · rw [if_pos ha, ha]
    exact Or.inl ⟨by cases signed <;> simp [intValue], by decide⟩
  · rw [if_neg ha]
    obtain ⟨hx, hpos⟩ := intValue_eq signed ha
    dsimp only
    generalize (if (signed && a.getLsbD 31) = true then ~~~a + 1#32 else a) = w at hx hpos ⊢
    have hlog : w.toNat.log2 < 32 := (Nat.log2_lt hpos.ne').mpr w.isLt
    rw [topBit_eq hpos w.isLt, Int.emod_eq_of_lt (by omega) (by omega)]
    obtain ⟨h₀, h₁, hq⟩ := cvtSig_spec (Nat.log2_self_le hpos.ne') Nat.lt_log2_self
    refine rounds_roundPack h₀ h₁ hq (by omega) (by omega) ?_
    rw [hx, mul_assoc, ← zpow_add₀ two_ne_zero,
      show (26 - w.toNat.log2 + ((w.toNat.log2 + 127 : ℕ) - 153) : ℤ) = 0 by push_cast; ring,
      zpow_zero, mul_one]

end integers

end RiscvScratch.FpuF
