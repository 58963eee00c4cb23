import RiscvScratch.Fpu.AddSub

/-! Multiplication and division: the product or quotient of the significands, with a sticky last
bit. -/
namespace RiscvScratch.FpuF

open Rounding

section mul
variable {mode : Mode} {a b : Word}

theorem value_mul (a b : Word) : value a * value b =
    sgn (sign a ^^ sign b) * ((mant a * mant b : ℕ) * 2 ^ (expo a + expo b - 300 : ℤ)) := by
  rw [value, value, magnitude, magnitude, pow2, pow2, sgn_xor,
    show (expo a + expo b - 300 : ℤ) = expo a - 150 + (expo b - 150) by ring,
    zpow_add₀ two_ne_zero]
  push_cast
  ring

theorem product_rounds {zs s : Bool} {n : ℕ} {e : ℤ} (h₀ : 2 ^ 46 ≤ n) (h₁ : n < 2 ^ 48)
    (he₀ : -500 < e) (he₁ : e < 500) :
    Rounds mode zs (sgn s * (n * 2 ^ (e - 173)))
      (if n.testBit 47 = true then
        (roundPack s (int10 (e + 1)) (n / 2 ^ 22 * 2 + (n % 2 ^ 22 != 0).toNat) (rmOf mode)).outcome
      else
        (roundPack s e (n / 2 ^ 21 * 2 + (n % 2 ^ 21 != 0).toNat) (rmOf mode)).outcome) := by
  rw [testBit_top h₁]
  have hst (k : ℕ) := Bool.toNat_le (n % 2 ^ k != 0)
  by_cases hn : 2 ^ 47 ≤ n
  · rw [if_pos (decide_eq_true hn), int10_eq (by omega) (by omega)]
    have := hst 22
    refine rounds_roundPack (by omega) (by omega)
      (Jams.of_div (d := 2 ^ 22) (by positivity) bne_iff_ne).2.sticks (by omega) (by omega) ?_
    rw [two_zpow_add 21 (show e + 1 - 153 = e - 173 + (21 : ℕ) by push_cast; ring)]
    push_cast
    ring
  · rw [if_neg (by simpa using hn)]
    have := hst 21
    refine rounds_roundPack (by omega) (by omega)
      (Jams.of_div (d := 2 ^ 21) (by positivity) bne_iff_ne).2.sticks (by omega) (by omega) ?_
    rw [two_zpow_add 20 (show e - 153 = e - 173 + (20 : ℕ) by push_cast; ring)]
    push_cast
    ring

theorem doMul_rounds (ha : IsFinite a) (hb : IsFinite b) :
    Rounds mode (sign a ^^ sign b) (value a * value b) (doMul (rmOf mode) a b) := by
  obtain ⟨han, hai⟩ := finite_flags ha
  obtain ⟨hbn, hbi⟩ := finite_flags hb
  rw [doMul]
  simp only [han, hai, hbn, hbi, Bool.or_false, Bool.false_and, Bool.false_eq_true, if_false]
  by_cases hz : (isZero a || isZero b) = true
  · rw [if_pos hz]
    refine Or.inl ⟨?_, rfl⟩
    rcases Bool.or_eq_true_iff.mp hz with h | h <;> simp [value_zero h]
  · rw [if_neg hz]
    obtain ⟨hza, hzb⟩ := Bool.or_eq_false_iff.mp (Bool.eq_false_iff.mpr hz)
    obtain ⟨ha₀, ha₁⟩ := mant_bounds (isNormal_of ha hza).1
    obtain ⟨hb₀, hb₁⟩ := mant_bounds (isNormal_of hb hzb).1
    have := expo_lt a
    have := expo_lt b
    have h₀ : 2 ^ 23 * 2 ^ 23 ≤ mant a * mant b := Nat.mul_le_mul ha₀ hb₀
    have h₁ : mant a * mant b < 2 ^ 24 * 2 ^ 24 := Nat.mul_lt_mul'' ha₁ hb₁
    have he : int10 (expo a + expo b - 127) = expo a + expo b - 127 :=
      int10_eq (by omega) (by omega)
    rw [value_mul, he, show (expo a + expo b - 300 : ℤ) = expo a + expo b - 127 - 173 by ring]
    exact product_rounds (by omega) (by omega) (by omega) (by omega)

end mul

section div
variable {mode : Mode} {a b : Word} {num mb : ℕ}

theorem div_mod_double {h c : ℕ} (hm : 0 < mb) (hc : c < 2) :
    (2 * h + c) / mb = h / mb * 2 + (if h % mb * 2 + c ≥ mb then 1 else 0) ∧
      (2 * h + c) % mb = if h % mb * 2 + c ≥ mb then h % mb * 2 + c - mb else h % mb * 2 + c := by
  have hlt := Nat.mod_lt h hm
  have hd := Nat.div_add_mod h mb
  rw [Nat.div_mod_unique hm]
  generalize h % mb = r at hd hlt ⊢
  generalize h / mb = q at hd ⊢
  have hmul : mb * (q * 2 + 1) = 2 * (mb * q) + mb := by ring
  have hmul' : mb * (q * 2 + 0) = 2 * (mb * q) := by ring
  split_ifs with hge
  · rw [hmul]
    omega
  · rw [hmul']
    omega

theorem divLoop_eq (hm₀ : 0 < mb) (hm : mb ≤ 2 ^ 24) (hq : num / mb < 2 ^ 27) (n : ℕ) :
    divLoop num mb n (num / 2 ^ n % mb) (num / 2 ^ n / mb) = (num % mb, num / mb) := by
  induction n with
  | zero => simp [divLoop]
  | succ n ih =>
    have hbit : (num.testBit n).toNat = num / 2 ^ n % 2 := Nat.toNat_testBit num n
    have hnext : num / 2 ^ n = 2 * (num / 2 ^ (n + 1)) + num / 2 ^ n % 2 := by
      rw [pow_succ, ← Nat.div_div_eq_div_mul]
      omega
    have hle : num / 2 ^ n / mb ≤ num / mb := Nat.div_le_div_right (Nat.div_le_self _ _)
    have hlt := Nat.mod_lt (num / 2 ^ (n + 1)) hm₀
    obtain ⟨hdiv, hmod⟩ := div_mod_double (h := num / 2 ^ (n + 1)) hm₀
      (Nat.mod_lt (num / 2 ^ n) two_pos)
    rw [← hnext] at hdiv hmod
    have hquo : num / 2 ^ (n + 1) / mb * 2 % 2 ^ 27 = num / 2 ^ (n + 1) / mb * 2 :=
      Nat.mod_eq_of_lt (by omega)
    rw [← ih, divLoop]
    simp only [hbit, Nat.mod_eq_of_lt (lt_of_lt_of_le hlt hm), hquo]
    rw [hdiv, hmod]
    split_ifs <;> rfl

theorem quotient_rounds {zs s : Bool} {e : ℤ} {n : ℕ} (hm₀ : 0 < mb) (h₀ : 2 ^ 25 ≤ n / mb)
    (h₁ : n / mb < 2 ^ 27) (he₀ : -500 < e) (he₁ : e < 500) :
    Rounds mode zs (sgn s * ((n : ℝ) / mb * 2 ^ (e - 153)))
      (if (n / mb).testBit 26 = true then
        (roundPack s e (n / mb / 2 * 2 + ((n / mb).testBit 0 || n % mb != 0).toNat)
          (rmOf mode)).outcome
      else
        (roundPack s (int10 (e - 1)) (n / mb % 2 ^ 26 * 2 + (n % mb != 0).toNat)
          (rmOf mode)).outcome) := by
  obtain ⟨hj, hj₂⟩ := Jams.of_div (n := n) hm₀ (bne_iff_ne (a := n % mb) (b := 0))
  have hst := Bool.toNat_le (n % mb != 0)
  rw [testBit_top h₁]
  by_cases hn : 2 ^ 26 ≤ n / mb
  · rw [if_pos (decide_eq_true hn), or_sticky]
    have hle : n / mb ≤ n / mb ||| (n % mb != 0).toNat := Nat.left_le_or
    exact rounds_roundPack (by omega) (Nat.or_lt_two_pow h₁ (by omega)) hj.sticks (by omega)
      (by omega) rfl
  · rw [if_neg (by simpa using hn), int10_eq (by omega) (by omega), Nat.mod_eq_of_lt (by omega)]
    refine rounds_roundPack (by omega) (by omega) hj₂.sticks (by omega) (by omega) ?_
    rw [two_zpow_add 1 (show e - 153 = e - 1 - 153 + (1 : ℕ) by push_cast; ring)]
    ring

theorem value_div (a b : Word) : value a / value b =
    sgn (sign a ^^ sign b) *
      ((mant a * 2 ^ 26 : ℕ) / mant b * 2 ^ ((expo a - expo b + 127 : ℤ) - 153)) := by
  have hs : sgn (sign a) / sgn (sign b) = sgn (sign a) * sgn (sign b) := by
    cases sign b <;> simp [div_neg]
  have hz : (2 : ℝ) ^ (expo a - 150 : ℤ) / 2 ^ (expo b - 150 : ℤ) =
      2 ^ ((expo a - expo b + 127 : ℤ) - 153) * 2 ^ 26 := by
    rw [← zpow_sub₀ two_ne_zero]
    exact two_zpow_add 26 (by push_cast; ring)
  rw [value, value, magnitude, magnitude, pow2, pow2, mul_div_mul_comm, mul_div_mul_comm, hs, hz,
    sgn_xor]
  push_cast
  ring

theorem fdivCore_rounds (ha : IsFinite a) (hb : IsFinite b) (hzb : isZero b = false) :
    Rounds mode (sign a ^^ sign b) (value a / value b) (fdivCore (rmOf mode) a b) := by
  obtain ⟨han, hai⟩ := finite_flags ha
  obtain ⟨hbn, hbi⟩ := finite_flags hb
  rw [fdivCore]
  simp only [han, hai, hbn, hbi, hzb, Bool.or_false, Bool.and_false, Bool.false_eq_true, if_false]
  by_cases hz : isZero a = true
  · rw [if_pos hz]
    exact Or.inl ⟨by rw [value_zero hz, zero_div], rfl⟩
  · rw [if_neg hz]
    obtain ⟨ha₀, ha₁⟩ := mant_bounds (isNormal_of ha (by simpa using hz)).1
    obtain ⟨hb₀, hb₁⟩ := mant_bounds (isNormal_of hb hzb).1
    have := expo_lt a
    have := expo_lt b
    have hm₀ : 0 < mant b := by omega
    have h₀ : 2 ^ 25 ≤ mant a * 2 ^ 26 / mant b := by
      rw [Nat.le_div_iff_mul_le hm₀]
      omega
    have h₁ : mant a * 2 ^ 26 / mant b < 2 ^ 27 := by
      rw [Nat.div_lt_iff_lt_mul hm₀]
      omega
    have hloop := divLoop_eq hm₀ hb₁.le h₁ 50
    rw [Nat.div_eq_of_lt (by omega : mant a * 2 ^ 26 < 2 ^ 50), Nat.zero_mod, Nat.zero_div] at hloop
    have he : int10 (expo a - expo b + 127) = expo a - expo b + 127 :=
      int10_eq (by omega) (by omega)
    simp only [hloop]
    rw [value_div, he]
    exact quotient_rounds hm₀ h₀ h₁ (by omega) (by omega)

end div

end RiscvScratch.FpuF
