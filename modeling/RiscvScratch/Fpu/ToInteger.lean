import RiscvScratch.Fpu.Flags

/-! Conversion to integers. The unit drops the bits below the point whatever `rm` says; saturation
and the flags are those of the truncated operand. A mode that rounds otherwise is honoured only
where both integers saturate. -/
namespace RiscvScratch.FpuF

open Rounding

def lowest (signed : Bool) : ℤ := if signed then -2 ^ 31 else 0

def highest (signed : Bool) : ℤ := if signed then 2 ^ 31 - 1 else 2 ^ 32 - 1

/-- `z` in the target type, inexact where it is not `v`; a bound of the type and invalid where it
does not fit. -/
def saturated (signed exact : Bool) (z : ℤ) : Outcome :=
  if z < lowest signed then (BitVec.ofInt 32 (lowest signed), 0b10000#5)
  else if highest signed < z then (BitVec.ofInt 32 (highest signed), 0b10000#5)
  else (BitVec.ofInt 32 z, if exact then 0#5 else 0b00001#5)

/-- `z` is a value of the target type. -/
def Fits (signed : Bool) (z : ℤ) : Prop := lowest signed ≤ z ∧ z ≤ highest signed

open Classical in
/-- The operand rounded to an integer of the target type; NaN is the largest. -/
noncomputable def converted (mode : Mode) (signed : Bool) (a : Word) : Outcome :=
  if isNan a then (BitVec.ofInt 32 (highest signed), 0b10000#5)
  else if isInf a then
    (BitVec.ofInt 32 (if sign a then lowest signed else highest signed), 0b10000#5)
  else saturated signed (toInt mode (value a) = value a) (toInt mode (value a))

section truncation
variable {s : Bool} {q : ℕ} {r : ℝ}

def signedInt (s : Bool) (q : ℕ) : ℤ := if s then -q else q

theorem cast_signedInt (s : Bool) (q : ℕ) : (signedInt s q : ℝ) = sgn s * q := by
  cases s <;> simp [signedInt]

theorem truncate (h₀ : 0 ≤ r) (h₁ : r < 1) :
    toInt .towardZero (sgn s * (q + r)) = signedInt s q := by
  have hreal : (toInt .towardZero (sgn s * (q + r)) : ℝ) = sgn s * q := by
    rcases eq_or_lt_of_le h₀ with h | h
    · rw [← h, add_zero, toInt_sgn]
    · have hup : false = true ↔ GoesUp .towardZero s q r := iff_of_false Bool.false_ne_true id
      rw [toInt_magnitude h h₁ hup]
      simp
  rw [← cast_signedInt] at hreal
  exact_mod_cast hreal

theorem truncate_exact (h₀ : 0 ≤ r) (h₁ : r < 1) :
    (toInt .towardZero (sgn s * (q + r)) : ℝ) = sgn s * (q + r) ↔ r = 0 := by
  rw [truncate h₀ h₁, cast_signedInt, mul_right_inj' (sgn_ne_zero s)]
  constructor <;> intro h <;> linarith

end truncation

section operand
variable {a : Word}

theorem magnitude_big (he : 127 ≤ expo a) :
    magnitude a = ((mant a * 2 ^ (expo a - 127) / 2 ^ 23 : ℕ) : ℝ) +
      ((mant a * 2 ^ (expo a - 127) % 2 ^ 23 : ℕ) : ℝ) / 2 ^ 23 := by
  obtain ⟨sh, hsh⟩ := Nat.exists_eq_add_of_le he
  have hexp : (2 : ℝ) ^ (expo a - 150 : ℤ) * 2 ^ 23 = 2 ^ sh := by
    rw [← two_zpow_add 23 (show (sh : ℤ) = expo a - 150 + (23 : ℕ) by omega), zpow_natCast]
  have hdm := Nat.div_add_mod (mant a * 2 ^ sh) (2 ^ 23)
  have hreal : ((2 ^ 23 * (mant a * 2 ^ sh / 2 ^ 23) + mant a * 2 ^ sh % 2 ^ 23 : ℕ) : ℝ) =
      (mant a * 2 ^ sh : ℕ) := by rw [hdm]
  rw [show expo a - 127 = sh by omega, magnitude, pow2]
  push_cast at hreal ⊢
  rw [← hexp] at hreal
  linarith

theorem fraction_bounds (m : ℕ) :
    (0 : ℝ) ≤ ((m % 2 ^ 23 : ℕ) : ℝ) / 2 ^ 23 ∧ ((m % 2 ^ 23 : ℕ) : ℝ) / 2 ^ 23 < 1 := by
  have hlt : ((m % 2 ^ 23 : ℕ) : ℝ) < 2 ^ 23 := by
    exact_mod_cast Nat.mod_lt m (by decide)
  refine ⟨by positivity, ?_⟩
  rw [div_lt_one (by positivity)]
  exact hlt

theorem magnitude_small (hz : expo a ≠ 0) (he : expo a < 127) :
    0 < magnitude a ∧ magnitude a < 1 := by
  refine ⟨magnitude_pos hz, ?_⟩
  have hm : (mant a : ℝ) < 2 ^ (24 : ℤ) := by exact_mod_cast (mant_bounds hz).2
  have hexp : (2 : ℝ) ^ (expo a - 150 : ℤ) ≤ 2 ^ (-24 : ℤ) :=
    zpow_le_zpow_right₀ one_le_two (by omega)
  calc magnitude a < 2 ^ (24 : ℤ) * 2 ^ (expo a - 150 : ℤ) :=
        mul_lt_mul_of_pos_right hm (zpow_pos two_pos _)
    _ ≤ 2 ^ (24 : ℤ) * 2 ^ (-24 : ℤ) := by gcongr
    _ = 1 := by norm_num

theorem big_bounds (hz : expo a ≠ 0) :
    2 ^ (expo a - 127) ≤ mant a * 2 ^ (expo a - 127) / 2 ^ 23 ∧
      mant a * 2 ^ (expo a - 127) / 2 ^ 23 < 2 ^ (expo a - 127 + 1) := by
  obtain ⟨h₀, h₁⟩ := mant_bounds hz
  constructor
  · rw [Nat.le_div_iff_mul_le (by decide), mul_comm]
    exact Nat.mul_le_mul_right _ h₀
  · rw [Nat.div_lt_iff_lt_mul (by decide), show 2 ^ (expo a - 127 + 1) * 2 ^ 23 =
      2 ^ 24 * 2 ^ (expo a - 127) by rw [pow_succ]; ring]
    exact Nat.mul_lt_mul_of_pos_right h₁ (by positivity)

variable {signed : Bool}

theorem saturated_eq {s clean : Bool} {q : ℕ} (h₀ : 0 < q) (h₁ : q < 2 ^ 32) :
    saturated signed clean (signedInt s q) =
      (let ui := BitVec.ofNat 32 q
       let fl := if clean then 0#5 else 0b00001#5
       if signed then
        if s then if ui > 0x80000000#32 then (0x80000000#32, 0b10000#5) else (~~~ui + 1#32, fl)
        else if ui.getLsbD 31 then (0x7FFFFFFF#32, 0b10000#5) else (ui, fl)
       else if s then (0#32, 0b10000#5) else (ui, fl)) := by
  have hgt : BitVec.ofNat 32 q > 0x80000000#32 ↔ 2 ^ 31 < q := by
    rw [gt_iff_lt, BitVec.lt_def, BitVec.toNat_ofNat, BitVec.toNat_ofNat, Nat.mod_eq_of_lt h₁]
    rfl
  have htop : (BitVec.ofNat 32 q).getLsbD 31 = true ↔ 2 ^ 31 ≤ q := by
    rw [BitVec.getLsbD_ofNat, Nat.testBit_eq_decide_div_mod_eq]
    simp only [show (31 < 32) = true by decide, decide_true, Bool.true_and, decide_eq_true_eq]
    omega
  have hneg : BitVec.ofInt 32 (-q) = ~~~BitVec.ofNat 32 q + 1#32 := by
    rw [BitVec.ofInt_neg, BitVec.ofInt_natCast, BitVec.neg_eq_not_add]
  have hlow : ¬(q : ℤ) < 0 := by omega
  have hsmall : ¬(q : ℤ) < -2 ^ 31 := by omega
  have hfits : ¬2 ^ 32 - 1 < (q : ℤ) := by omega
  have hminus : -(q : ℤ) < 0 := by omega
  have hbelow : ¬2 ^ 31 - 1 < -(q : ℤ) := by omega
  have habove : 2 ^ 31 - 1 < (q : ℤ) ↔ 2 ^ 31 ≤ q := by omega
  have hunder : -(q : ℤ) < -2 ^ 31 ↔ 2 ^ 31 < q := by omega
  cases signed <;> cases s <;>
    simp only [saturated, signedInt, lowest, highest, hgt, htop, hneg, BitVec.ofInt_natCast,
      if_true, if_false, Bool.false_eq_true, hlow, hsmall, hfits, hminus, hbelow, habove, hunder]
  all_goals rfl

theorem saturated_zero (signed : Bool) (clean : Bool) :
    saturated signed clean 0 = (0#32, if clean then 0#5 else 0b00001#5) := by
  cases signed <;> rfl

theorem saturated_large {s clean : Bool} {q : ℕ} (h : 2 ^ 32 ≤ q) :
    saturated signed clean (signedInt s q) =
      (if signed then (if s then 0x80000000#32 else 0x7FFFFFFF#32)
        else if s then 0#32 else 0xFFFFFFFF#32, 0b10000#5) := by
  have hlow : ¬(q : ℤ) < 0 := by omega
  have hsmall : ¬(q : ℤ) < -2 ^ 31 := by omega
  have hover : 2 ^ 32 - 1 < (q : ℤ) := by omega
  have hminus : -(q : ℤ) < 0 := by omega
  have habove : 2 ^ 31 - 1 < (q : ℤ) := by omega
  have hunder : -(q : ℤ) < -2 ^ 31 := by omega
  cases signed <;> cases s <;>
    simp only [saturated, signedInt, lowest, highest, if_true, if_false, Bool.false_eq_true, hlow,
      hsmall, hover, hminus, habove, hunder]
  all_goals rfl

open Classical in
theorem converted_finite {mode : Mode} (hf : IsFinite a) : converted mode signed a =
    saturated signed (toInt mode (value a) = value a) (toInt mode (value a)) := by
  obtain ⟨hn, hi⟩ := finite_flags hf
  rw [converted, hn, hi, if_neg Bool.false_ne_true, if_neg Bool.false_ne_true]

theorem converted_big (hf : IsFinite a) (he : 127 ≤ expo a) :
    converted .towardZero signed a =
      saturated signed (mant a * 2 ^ (expo a - 127) % 2 ^ 23 == 0)
        (signedInt (sign a) (mant a * 2 ^ (expo a - 127) / 2 ^ 23)) := by
  have hm := magnitude_big he
  obtain ⟨h₀, h₁⟩ := fraction_bounds (mant a * 2 ^ (expo a - 127))
  have hexact : decide ((toInt .towardZero (value a) : ℝ) = value a) =
      (mant a * 2 ^ (expo a - 127) % 2 ^ 23 == 0) := by
    rw [value, hm, decide_eq_decide.mpr (truncate_exact h₀ h₁), Bool.eq_iff_iff,
      decide_eq_true_eq, beq_iff_eq, div_eq_zero_iff, or_iff_left (by norm_num), Nat.cast_eq_zero]
  rw [converted_finite hf, hexact, value, hm, truncate h₀ h₁]

theorem converted_small (hz : expo a ≠ 0) (he : expo a < 127) :
    converted .towardZero signed a = (0#32, 0b00001#5) := by
  obtain ⟨h₀, h₁⟩ := magnitude_small hz he
  have hv : value a = sgn (sign a) * ((0 : ℕ) + magnitude a) := by
    rw [value, Nat.cast_zero, zero_add]
  have hexact : ¬(toInt .towardZero (value a) : ℝ) = value a := by
    rw [hv, truncate_exact h₀.le h₁]
    exact h₀.ne'
  have hint : toInt .towardZero (value a) = 0 := by
    rw [hv, truncate h₀.le h₁]
    cases sign a <;> rfl
  rw [converted_finite (show IsFinite a by unfold IsFinite; omega), decide_eq_false hexact, hint]
  exact saturated_zero signed false

theorem converted_zero {mode : Mode} (hz : isZero a = true) :
    converted mode signed a = (0#32, 0#5) := by
  have he : expo a = 0 := by simpa [isZero] using hz
  have hint : toInt mode (value a) = 0 := by
    rw [value_zero hz]
    exact_mod_cast toInt_intCast mode 0
  have hexact : (toInt mode (value a) : ℝ) = value a := by
    rw [hint, value_zero hz, Int.cast_zero]
  rw [converted_finite (show IsFinite a by unfold IsFinite; omega), decide_eq_true hexact, hint]
  exact saturated_zero signed true

theorem converted_special {mode mode' : Mode} (hf : ¬IsFinite a) :
    converted mode signed a = converted mode' signed a := by
  unfold converted
  by_cases hn : isNan a = true
  · rw [if_pos hn, if_pos hn]
  · have hi : isInf a = true := by
      by_contra hi
      exact hf (isFinite_iff.mpr ⟨by simpa using hn, by simpa using hi⟩)
    rw [if_neg hn, if_neg hn, if_pos hi, if_pos hi]

theorem toInteger_eq (a : Word) (signed : Bool) :
    toInteger a signed = converted .towardZero signed a := by
  unfold toInteger
  by_cases hn : isNan a = true
  · rw [if_pos hn, converted, if_pos hn]
    cases signed <;> rfl
  by_cases hz : isZero a = true
  · rw [if_neg hn, if_pos hz, converted_zero hz]
  have he : expo a ≠ 0 := by simpa [isZero] using hz
  rw [if_neg hn, if_neg hz]
  by_cases hsmall : expo a < 127
  · rw [if_pos hsmall, converted_small he hsmall]
  rw [if_neg hsmall]
  obtain ⟨hle, hlt⟩ := big_bounds he
  by_cases hlarge : expo a - 127 ≥ 32
  · rw [if_pos hlarge]
    by_cases hi : isInf a = true
    · rw [converted, if_neg hn, if_pos hi]
      cases signed <;> cases sign a <;> rfl
    · have hf : IsFinite a := isFinite_iff.mpr ⟨by simpa using hn, by simpa using hi⟩
      rw [converted_big hf (by omega)]
      exact (saturated_large (le_trans (Nat.pow_le_pow_right two_pos hlarge) hle)).symm
  · rw [if_neg hlarge]
    have hf : IsFinite a := by unfold IsFinite; omega
    have hq : mant a * 2 ^ (expo a - 127) / 2 ^ 23 < 2 ^ 32 :=
      lt_of_lt_of_le hlt (Nat.pow_le_pow_right two_pos (by omega))
    have hfl : ∀ m : ℕ, (if m != 0 then 0b00001#5 else 0#5) =
        if m == 0 then 0#5 else 0b00001#5 := by
      intro m
      cases h : m == 0 <;> simp [bne, h]
    rw [converted_big hf (by omega), saturated_eq (lt_of_lt_of_le (by positivity) hle) hq, ← hfl]

end operand

section modes
variable {mode : Mode} {signed : Bool} {a : Word} {z w : ℤ}

theorem saturated_fits (h : Fits signed z) (clean : Bool) :
    saturated signed clean z = (BitVec.ofInt 32 z, if clean then 0#5 else 0b00001#5) := by
  rw [saturated, if_neg (not_lt.mpr h.1), if_neg (not_lt.mpr h.2)]

theorem saturated_invalid (h : ¬Fits signed z) (clean : Bool) :
    (saturated signed clean z).2 = 0b10000#5 := by
  rw [saturated]
  by_cases h₁ : z < lowest signed
  · rw [if_pos h₁]
  · have h₂ : highest signed < z := not_le.mp fun h₂ => h ⟨not_lt.mp h₁, h₂⟩
    rw [if_neg h₁, if_pos h₂]

/-- Of two neighbours that do not fit, both are below the type or both above it. -/
theorem saturated_neighbours (h : z = w + 1 ∨ w = z + 1) (hz : ¬Fits signed z)
    (hw : ¬Fits signed w) (clean : Bool) :
    saturated signed clean z = saturated signed clean w := by
  have hlt : lowest signed < highest signed := by cases signed <;> decide
  unfold Fits at hz hw
  unfold saturated
  split_ifs <;> first | rfl | omega

theorem ofInt_neighbours (h : z = w + 1 ∨ w = z + 1) : BitVec.ofInt 32 z ≠ BitVec.ofInt 32 w := by
  intro he
  have hmod := congrArg BitVec.toInt he
  rw [BitVec.toInt_ofInt, BitVec.toInt_ofInt, Int.bmod_eq_bmod_iff_bmod_sub_eq_zero] at hmod
  rcases h with rfl | rfl
  · rw [show w + 1 - w = 1 by omega] at hmod
    exact absurd hmod (by decide)
  · rw [show z - (z + 1) = -1 by omega] at hmod
    exact absurd hmod (by decide)

/-- Neighbours convert alike only where neither fits: otherwise the words or the flags differ. -/
theorem saturated_eq_iff (h : z = w + 1 ∨ w = z + 1) :
    saturated signed false z = saturated signed false w ↔ ¬Fits signed z ∧ ¬Fits signed w := by
  constructor
  · intro he
    by_cases hz : Fits signed z
    · by_cases hw : Fits signed w
      · rw [saturated_fits hz, saturated_fits hw] at he
        exact absurd (congrArg Prod.fst he) (ofInt_neighbours h)
      · have hfl := congrArg Prod.snd he
        rw [saturated_fits hz, saturated_invalid hw] at hfl
        exact absurd hfl (show 0b00001#5 ≠ 0b10000#5 by decide)
    · refine ⟨hz, fun hw => ?_⟩
      have hfl := congrArg Prod.snd he
      rw [saturated_fits hw, saturated_invalid hz] at hfl
      exact absurd hfl (show 0b10000#5 ≠ 0b00001#5 by decide)
  · exact fun hout => saturated_neighbours h hout.1 hout.2 false

/-- Truncation converts `a` as the mode does. -/
theorem truncated_eq_iff : converted .towardZero signed a = converted mode signed a ↔
    (IsFinite a → toInt mode (value a) = toInt .towardZero (value a) ∨
      ¬Fits signed (toInt mode (value a)) ∧ ¬Fits signed (toInt .towardZero (value a))) := by
  by_cases hf : IsFinite a
  · rw [converted_finite hf, converted_finite hf, forall_prop_of_true hf]
    by_cases heq : toInt mode (value a) = toInt .towardZero (value a)
    · rw [heq]
      exact iff_of_true rfl (Or.inl rfl)
    · obtain ⟨hnext, hne⟩ := toInt_apart heq
      rw [decide_eq_false (hne _), decide_eq_false (hne _), saturated_eq_iff hnext.symm,
        or_iff_right heq, and_comm]
  · exact iff_of_true (converted_special hf) fun h => absurd h hf

end modes

/-- Whatever `rm` holds, a conversion returns what the mode asks for exactly where the operand is no
number, the mode rounds it as truncation does, or neither of the two integers fits the type. -/
theorem conversion_rounds (run : machine.Run) (mode : Mode) (signed : Bool) {t : ℕ}
    (hi : (run.state t).state = .idle) (hs : (run.input t).start = true)
    (hop : (run.input t).op = if signed then .cvtWs else .cvtWus) :
    ∃ d > t, (∀ u, t < u → u < d → (run.state u).done = false) ∧ (run.state d).done = true ∧
      (run.state d).toInt = true ∧
      (((run.state d).result, (run.state d).flags) = converted mode signed (run.input t).a ↔
        (IsFinite (run.input t).a →
          toInt mode (value (run.input t).a) = toInt .towardZero (value (run.input t).a) ∨
          ¬Fits signed (toInt mode (value (run.input t).a)) ∧
            ¬Fits signed (toInt .towardZero (value (run.input t).a)))) := by
  obtain ⟨d, hd, hquiet, hdone, hout⟩ := start_done run hi hs
  have hcomp : compute (run.input t).rm (run.input t).a (run.input t).b (run.input t).op
      (run.input t).fmt3 =
      ((toInteger (run.input t).a signed).1, (toInteger (run.input t).a signed).2, true) := by
    rw [hop]
    cases signed <;> rfl
  rw [hcomp] at hout
  refine ⟨d, hd, hquiet, hdone, hout.toInt, ?_⟩
  rw [hout.result, hout.flags, Prod.mk.eta, toInteger_eq]
  exact truncated_eq_iff

/-- Rounding down truncates what is not negative: `2.5` to `2`. -/
def halfDownInput : Input := ⟨true, .cvtWs, 0#3, rdn, 0x40200000#32, 0#32⟩

def convertRun (i : Input) : machine.Run :=
  machine.runOf (fun _ _ => i) (reset 0) reset_starts

theorem halfDown_converted : ∃ d > 0, ((convertRun halfDownInput).state d).done = true ∧
    (((convertRun halfDownInput).state d).result, ((convertRun halfDownInput).state d).flags) =
      converted .down true 0x40200000#32 := by
  have hv : 0 ≤ value 0x40200000#32 := value_nonneg_iff.mpr (.inl (by decide))
  obtain ⟨d, hd, -, hdone, -, hout⟩ := conversion_rounds (convertRun halfDownInput) .down true
    (t := 0) rfl rfl rfl
  exact ⟨d, hd, hdone, hout.mpr fun _ => Or.inl (if_pos hv).symm⟩

/-- `0.75` upward is `1`; the unit returns an inexact `0`. -/
def threeQuartersInput : Input := ⟨true, .cvtWs, 0#3, rup, 0x3F400000#32, 0#32⟩

theorem threeQuarters_truncated : ((convertRun threeQuartersInput).state 2).done = true ∧
      ((convertRun threeQuartersInput).state 2).result = 0#32 ∧
      converted .up true threeQuartersInput.a = (1#32, 0b00001#5) := by
  have hv : value 0x3F400000#32 = 3 / 4 := by
    have hm : mant 0x3F400000#32 = 12582912 := by decide
    have he : expo 0x3F400000#32 = 126 := by decide
    have hs : sign 0x3F400000#32 = false := by decide
    rw [value, magnitude, pow2, hm, he, hs]
    norm_num
  have hint : toInt .up (value 0x3F400000#32) = 1 := by
    rw [hv]
    change ⌈(3 / 4 : ℝ)⌉ = 1
    norm_num
  have hne : ¬((toInt .up (value 0x3F400000#32) : ℤ) : ℝ) = value 0x3F400000#32 := by
    rw [hint, hv]
    norm_num
  refine ⟨by decide +kernel, by decide +kernel, ?_⟩
  change converted .up true 0x3F400000#32 = _
  rw [converted, if_neg (by decide), if_neg (by decide), decide_eq_false hne, hint]
  rfl

end RiscvScratch.FpuF
