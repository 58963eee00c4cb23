import RiscvScratch.Fpu.RoundPack

/-! Addition and subtraction, with the smaller operand shifted to the exponent of the larger. -/
namespace RiscvScratch.FpuF

open Rounding

theorem int10_eq {x : ℤ} (h₀ : -512 ≤ x) (h₁ : x < 512) : int10 x = x := by
  unfold int10
  omega

theorem testBit_top {n k : ℕ} (h : n < 2 ^ (k + 1)) : n.testBit k = decide (2 ^ k ≤ n) := by
  have hlt : n / 2 ^ k < 2 := Nat.div_lt_of_lt_mul (by rwa [← pow_succ])
  have hle : 1 ≤ n / 2 ^ k ↔ 2 ^ k ≤ n := Nat.one_le_div_iff (by positivity)
  rw [Nat.testBit_eq_decide_div_mod_eq, decide_eq_decide, ← hle]
  generalize n / 2 ^ k = m at hlt
  omega

theorem lzc27_spec {x : ℕ} (h₀ : 0 < x) (h₁ : x < 2 ^ 27) :
    lzc27 x ≤ 26 ∧ 2 ^ 26 ≤ x * 2 ^ lzc27 x ∧ x * 2 ^ lzc27 x < 2 ^ 27 := by
  have hlog : x.log2 < 27 := (Nat.log2_lt h₀.ne').mpr h₁
  have hfind : (List.range 27).find? (fun j => x.testBit (26 - j)) = some (26 - x.log2) := by
    rw [List.find?_range_eq_some]
    refine ⟨?_, by simp; omega, ?_⟩
    · rw [show 26 - (26 - x.log2) = x.log2 by omega]
      exact Nat.testBit_log2 h₀.ne'
    · intro j hj
      have hlt : x < 2 ^ (26 - j) := lt_of_lt_of_le Nat.lt_log2_self
        (Nat.pow_le_pow_right two_pos (by omega))
      simp [Nat.testBit_lt_two_pow hlt]
  have hl : lzc27 x = 26 - x.log2 := by rw [lzc27, hfind, Option.getD_some]
  have hp : 2 ^ 26 = 2 ^ x.log2 * 2 ^ (26 - x.log2) := by
    rw [← pow_add]
    congr 1
    omega
  rw [hl]
  refine ⟨by omega, ?_, ?_⟩
  · rw [hp]
    exact Nat.mul_le_mul_right _ (Nat.log2_self_le h₀.ne')
  · rw [pow_succ 2 26, hp, mul_right_comm, ← pow_succ]
    exact Nat.mul_lt_mul_of_pos_right Nat.lt_log2_self (by positivity)

section shifted
variable {m d : ℕ}

theorem smallSh_eq (hm : m < 2 ^ 24) :
    smallSh m d = m * 8 / 2 ^ d ||| (m * 8 % 2 ^ d != 0).toNat := by
  rw [smallSh]
  by_cases hd : d ≥ 27
  · have hlt : m * 8 < 2 ^ d := lt_of_lt_of_le (by omega) (Nat.pow_le_pow_right two_pos hd)
    simp only [if_pos hd, Nat.div_eq_of_lt hlt, Nat.mod_eq_of_lt hlt]
  · have hp : 2 ^ 27 = 2 ^ d * 2 ^ (27 - d) := by
      rw [← pow_add]
      congr 1
      omega
    have hst : (m * 8 * 2 ^ (27 - d) % 2 ^ 27 != 0) = (m * 8 % 2 ^ d != 0) := by
      rw [hp, Nat.mul_mod_mul_right, Bool.eq_iff_iff, bne_iff_ne, bne_iff_ne, Ne, Ne,
        Nat.mul_eq_zero, or_iff_left (by positivity)]
    simp only [if_neg hd, hst]

theorem smallSh_jams (hm : m < 2 ^ 24) : Jams (smallSh m d) ((m * 8 : ℕ) / (2 ^ d : ℕ)) := by
  rw [smallSh_eq hm]
  exact (Jams.of_div (by positivity) bne_iff_ne).1

theorem smallSh_lt (hm : m < 2 ^ 24) : smallSh m d < 2 ^ 27 := by
  rw [smallSh_eq hm]
  apply Nat.or_lt_two_pow
  · exact lt_of_le_of_lt (Nat.div_le_self _ _) (by omega)
  · exact lt_of_le_of_lt (Bool.toNat_le _) (by decide)

theorem smallSh_exact (hd : d ≤ 3) (hm : m < 2 ^ 24) :
    (smallSh m d : ℝ) = (m * 8 : ℕ) / (2 ^ d : ℕ) := by
  have hdvd : 2 ^ d ∣ m * 8 := (pow_dvd_pow 2 hd).mul_left m
  rw [smallSh_eq hm, Nat.mod_eq_zero_of_dvd hdvd, bne_self_eq_false, Bool.toNat_false, Nat.or_zero,
    Nat.cast_div hdvd (by positivity)]

theorem smallSh_small (hd : 4 ≤ d) (hm : m < 2 ^ 24) : smallSh m d < 2 ^ 23 := by
  rw [smallSh_eq hm]
  have hp : 2 ^ 4 ≤ 2 ^ d := Nat.pow_le_pow_right two_pos hd
  apply Nat.or_lt_two_pow
  · exact lt_of_le_of_lt (Nat.div_le_div_left hp (by decide)) (by omega)
  · exact lt_of_le_of_lt (Bool.toNat_le _) (by decide)

theorem magnitude_shifted (m : ℕ) (e d : ℕ) :
    (m : ℝ) * 2 ^ (e - 150 : ℤ) =
      (m * 8 : ℕ) / (2 ^ d : ℕ) * 2 ^ ((e + d : ℕ) - 153 : ℤ) := by
  have hd := two_zpow_add d (show (e + d - 150 : ℤ) = e - 150 + d by ring)
  rw [two_zpow_add 3
    (show (e + d - 150 : ℤ) = (e + d : ℕ) - 153 + (3 : ℕ) by push_cast; ring)] at hd
  have hp : (2 : ℝ) ^ d ≠ 0 := by positivity
  push_cast at hd ⊢
  rw [div_mul_eq_mul_div, eq_div_iff hp]
  linear_combination -(m : ℝ) * hd

end shifted

section magnitudes
variable {mode : Mode} {bigS zs : Bool} {mBig mSmall e d : ℕ}

theorem magnitude_unshifted (m e : ℕ) :
    (m : ℝ) * 2 ^ (e - 150 : ℤ) = (m * 8 : ℕ) * 2 ^ (e - 153 : ℤ) := by
  simpa using magnitude_shifted m e 0

theorem addMagnitudes_rounds (mode : Mode) (bigS zs : Bool)
    (hb : 2 ^ 23 ≤ mBig ∧ mBig < 2 ^ 24) (hs : mSmall < 2 ^ 24)
    (he : e + d < 255) :
    Rounds mode zs
      (sgn bigS * (mBig * 2 ^ ((e + d : ℕ) - 150 : ℤ) + mSmall * 2 ^ (e - 150 : ℤ)))
      (addMagnitudes (rmOf mode) bigS (e + d) (mBig * 8) (smallSh mSmall d)).outcome := by
  have hj : Jams (mBig * 8 + smallSh mSmall d) ((mBig * 8 : ℕ) + (mSmall * 8 : ℕ) / (2 ^ d : ℕ)) :=
    (smallSh_jams hs).add (by omega)
  have hlt := smallSh_lt (d := d) hs
  rw [magnitude_shifted mSmall e d, magnitude_unshifted, ← add_mul, addMagnitudes]
  generalize ((mBig * 8 : ℕ) : ℝ) + (mSmall * 8 : ℕ) / (2 ^ d : ℕ) = q at hj ⊢
  have hsum : 2 ^ 26 ≤ mBig * 8 + smallSh mSmall d ∧ mBig * 8 + smallSh mSmall d < 2 ^ 28 := by
    omega
  generalize mBig * 8 + smallSh mSmall d = n at hj hsum
  rw [testBit_top hsum.2]
  by_cases hn : 2 ^ 27 ≤ n
  · -- the sum has one bit more
    rw [if_pos (decide_eq_true hn), int10_eq (by omega) (by omega)]
    have hle : n / 2 ≤ n / 2 ||| n % 2 := Nat.left_le_or
    refine rounds_roundPack (by omega) (Nat.or_lt_two_pow (by omega) (by omega))
      hj.halve.sticks (by omega) (by omega) ?_
    rw [two_zpow_add 1
      (show ((e + d : ℕ) + 1 - 153 : ℤ) = (e + d : ℕ) - 153 + (1 : ℕ) by push_cast; ring)]
    ring
  · rw [if_neg (by simpa using hn), int10_eq (by omega) (by omega), Nat.mod_eq_of_lt (by omega)]
    exact rounds_roundPack (by omega) (by omega) hj.sticks (by omega) (by omega) rfl

theorem sticks_shifted {n l : ℕ} {q : ℝ} (hj : Jams n q) (hl : l ≤ 1 ∨ q = n) :
    Sticks (n * 2 ^ l) (q * 2 ^ l) := by
  rcases hl with hl | hq
  · interval_cases l
    · simpa using hj.sticks
    · simpa using hj.sticks_double
  · rw [hq]
    exact_mod_cast Sticks.refl (n * 2 ^ l)

theorem normalised_rounds {n : ℕ} {q : ℝ} {rs : Bool} (hn₀ : 0 < n) (hn : n < 2 ^ 27)
    (hj : Jams n q) (hex : 2 ^ 25 ≤ n ∨ q = n) (he : e < 255) :
    Rounds mode zs (sgn rs * (q * 2 ^ (e - 153 : ℤ)))
      (roundPack rs (int10 (e - lzc27 n)) (n * 2 ^ lzc27 n % 2 ^ 27) (rmOf mode)).outcome := by
  obtain ⟨hl, hlo, hhi⟩ := lzc27_spec hn₀ hn
  have hl1 : lzc27 n ≤ 1 ∨ q = n := by
    refine hex.imp_left fun h => ?_
    by_contra hc
    have h4 : 2 ^ 2 ≤ 2 ^ lzc27 n := Nat.pow_le_pow_right two_pos (by omega)
    have := Nat.mul_le_mul h h4
    omega
  rw [Nat.mod_eq_of_lt hhi, int10_eq (by omega) (by omega)]
  refine rounds_roundPack hlo hhi (sticks_shifted hj hl1) (by omega) (by omega) ?_
  rw [two_zpow_add (lzc27 n) (show (e - 153 : ℤ) = e - lzc27 n - 153 + lzc27 n by ring)]
  ring

theorem subMagnitudes_rounds (mode : Mode) (bigS : Bool)
    (hb : 2 ^ 23 ≤ mBig ∧ mBig < 2 ^ 24) (hs : mSmall < 2 ^ 24)
    (he : e + d < 255) :
    Rounds mode (rmOf mode == rdn)
      (sgn bigS * (mBig * 2 ^ ((e + d : ℕ) - 150 : ℤ) - mSmall * 2 ^ (e - 150 : ℤ)))
      (subMagnitudes (rmOf mode) bigS (e + d) (mBig * 8) (smallSh mSmall d)) := by
  have hj := smallSh_jams (d := d) hs
  have hlt := smallSh_lt (d := d) hs
  have hd : (smallSh mSmall d : ℝ) = (mSmall * 8 : ℕ) / (2 ^ d : ℕ) ∨
      smallSh mSmall d < 2 ^ 23 := by
    rcases Nat.lt_or_ge 3 d with h | h
    · exact Or.inr (smallSh_small h hs)
    · exact Or.inl (smallSh_exact h hs)
  rw [magnitude_shifted mSmall e d, magnitude_unshifted, ← sub_mul, subMagnitudes]
  generalize ((mSmall * 8 : ℕ) : ℝ) / (2 ^ d : ℕ) = q at hj hd ⊢
  generalize smallSh mSmall d = n at hj hlt hd
  by_cases hge : mBig * 8 ≥ n
  · simp only [if_pos hge]
    rw [Nat.mod_eq_of_lt (by omega)]
    have hc : ((mBig * 8 - n : ℕ) : ℝ) = (mBig * 8 : ℕ) - n := Nat.cast_sub hge
    by_cases hz : mBig * 8 - n = 0
    · have hq : (n : ℝ) = q := hd.resolve_right (by omega)
      refine Or.inl ⟨?_, by rw [if_pos hz]⟩
      rw [hz, hq] at hc
      rw [← hc, Nat.cast_zero, zero_mul, mul_zero]
    · rw [if_neg hz]
      exact normalised_rounds (by omega) (by omega) (hj.sub (by omega) hge)
        (hd.symm.imp (by omega) (by rw [hc]; intro h; rw [h])) he
  · have hq : (n : ℝ) = q := hd.resolve_right (by omega)
    simp only [if_neg hge]
    rw [Nat.mod_eq_of_lt (by omega), if_neg (by omega)]
    have hc : ((n - mBig * 8 : ℕ) : ℝ) = n - (mBig * 8 : ℕ) := Nat.cast_sub (by omega)
    have hx : sgn bigS * (((mBig * 8 : ℕ) - q) * 2 ^ ((e + d : ℕ) - 153 : ℤ)) =
        sgn (!bigS) * ((n - mBig * 8 : ℕ) * 2 ^ ((e + d : ℕ) - 153 : ℤ)) := by
      rw [hc, hq]
      cases bigS <;> simp <;> ring
    rw [hx]
    exact normalised_rounds (by omega) (by omega) (Or.inl rfl) (Or.inr rfl) he

end magnitudes

/-- The sign of an exact zero sum of addends of signs `s` and `s'`. -/
def zeroSign (mode : Mode) (s s' : Bool) : Bool := if s = s' then s else mode == .down

section addsub
variable {mode : Mode} {a b : Word}

theorem finite_flags (ha : IsFinite a) : isNan a = false ∧ isInf a = false := by
  simp [isNan, isInf, show ¬expo a = 255 from ha]

theorem value_zero (ha : isZero a = true) : value a = 0 := by
  simp [value, magnitude, mant, ha]

theorem isNormal_of (ha : IsFinite a) (hz : isZero a = false) : IsNormal a := by
  refine ⟨?_, ha⟩
  simpa [isZero] using hz

theorem rmOf_rdn : (rmOf mode == rdn) = (mode == .down) := by cases mode <;> rfl

theorem magnitudes_rounds (s zs : Bool) (ha : IsNormal a) (hb : IsNormal b)
    (hle : expo b ≤ expo a) :
    Rounds mode zs (sgn s * (magnitude a + magnitude b))
        (addMagnitudes (rmOf mode) s (expo a) (mant a * 8)
          (smallSh (mant b) (expo a - expo b))).outcome ∧
      Rounds mode (mode == .down) (sgn s * (magnitude a - magnitude b))
        (subMagnitudes (rmOf mode) s (expo a) (mant a * 8)
          (smallSh (mant b) (expo a - expo b))) := by
  have hlt := expo_lt a
  have he : expo b + (expo a - expo b) < 255 := by
    have := ha.2
    omega
  have hadd := addMagnitudes_rounds mode s zs (mant_bounds ha.1) (mant_bounds hb.1).2 he
  have hsub := subMagnitudes_rounds mode s (mant_bounds ha.1) (mant_bounds hb.1).2 he
  rw [Nat.add_sub_cancel' hle] at hadd hsub
  rw [rmOf_rdn] at hsub
  exact ⟨hadd, hsub⟩

theorem value_resigned (s : Bool) (ha : IsNormal a) :
    IsNormal (pack s (expo a) (frac a)) ∧
      value (pack s (expo a) (frac a)) = sgn s * magnitude a := by
  obtain ⟨hs, he, hf⟩ := fields_pack (s := s) (expo_lt a) (frac_lt a)
  refine ⟨⟨he.trans_ne ha.1, he.trans_ne ha.2⟩, ?_⟩
  rw [value, magnitude, magnitude, hs, he, mant_normal (he.trans_ne ha.1), mant_normal ha.1, hf]

theorem doAddsub_rounds (mode : Mode) (isSub : Bool) (ha : IsFinite a) (hb : IsFinite b) :
    Rounds mode (zeroSign mode (sign a) (sign b ^^ isSub)) (value a + sgn isSub * value b)
      (doAddsub (rmOf mode) a b isSub) := by
  obtain ⟨han, hai⟩ := finite_flags ha
  obtain ⟨hbn, hbi⟩ := finite_flags hb
  have hvb : sgn isSub * value b = sgn (sign b ^^ isSub) * magnitude b := by
    rw [value, sgn_xor]
    ring
  rw [doAddsub]
  simp only [han, hai, hbn, hbi, Bool.or_false, Bool.and_false, Bool.false_eq_true, if_false]
  cases hza : isZero a <;> cases hzb : isZero b <;>
    simp only [Bool.and_false, Bool.and_true, Bool.false_eq_true, if_false, if_true]
  · have hna := isNormal_of ha hza
    have hnb := isNormal_of hb hzb
    rw [hvb, value]
    generalize (sign b ^^ isSub) = s2
    by_cases hle : expo b ≤ expo a
    · simp only [decide_eq_true (show expo a ≥ expo b from hle), if_true]
      by_cases hs : sign a = s2
      · rw [if_pos hs, ← hs, ← mul_add]
        exact (magnitudes_rounds _ _ hna hnb hle).1
      · rw [if_neg hs, zeroSign, if_neg hs, sgn_of_ne (Ne.symm hs), neg_mul, ← sub_eq_add_neg,
          ← mul_sub]
        exact (magnitudes_rounds _ false hna hnb hle).2
    · have hle' : expo a ≤ expo b := by omega
      simp only [decide_eq_false (show ¬expo a ≥ expo b from hle), Bool.false_eq_true, if_false]
      by_cases hs : sign a = s2
      · rw [if_pos hs, hs, ← mul_add, add_comm (magnitude a)]
        exact (magnitudes_rounds _ _ hnb hna hle').1
      · rw [if_neg hs, zeroSign, if_neg hs, sgn_of_ne hs, neg_mul, neg_add_eq_sub, ← mul_sub]
        exact (magnitudes_rounds _ false hnb hna hle').2
  · rw [value_zero hzb, mul_zero, add_zero, pack_fields]
    exact rounds_value (isNormal_of ha hza)
  · obtain ⟨hn, hv⟩ := value_resigned (sign b ^^ isSub) (isNormal_of hb hzb)
    rw [value_zero hza, zero_add, hvb, ← hv]
    exact rounds_value hn
  · refine Or.inl ⟨by simp [value_zero hza, value_zero hzb], ?_⟩
    rw [rmOf_rdn, zeroSign]
    cases sign a <;> cases (sign b ^^ isSub) <;> simp

end addsub

end RiscvScratch.FpuF
