import RiscvScratch.Fpu.Fields

/-! The comparisons: an order of the operands, except among the subnormals of one sign, which are
equal and yet one below the other. -/
namespace RiscvScratch.FpuF

def rank (a : Word) : ℤ := if sign a then -(magBits a : ℤ) else magBits a

theorem cmpLt_iff (a b : Word) : cmpLt a b = true ↔
    rank a < rank b ∧ ¬(isZero a = true ∧ isZero b = true ∧ sign a ≠ sign b) := by
  rw [isZero_iff, isZero_iff]
  have hza : isZero a = decide (magBits a < 2 ^ 23) := by
    rw [Bool.eq_iff_iff, isZero_iff, decide_eq_true_iff]
  have hzb : isZero b = decide (magBits b < 2 ^ 23) := by
    rw [Bool.eq_iff_iff, isZero_iff, decide_eq_true_iff]
  unfold cmpLt rank
  simp only [BitVec.lt_def, gt_iff_lt, magBits_eq, hza, hzb]
  cases hsa : sign a <;> cases hsb : sign b <;> simp
  omega

theorem eq_iff_rank (a b : Word) : a = b ↔ rank a = rank b ∧ sign a = sign b := by
  constructor
  · rintro rfl
    exact ⟨rfl, rfl⟩
  · rintro ⟨hr, hs⟩
    refine word_ext hs ?_
    unfold rank at hr
    rw [hs] at hr
    split_ifs at hr <;> omega

theorem cmpEq_iff (a b : Word) : cmpEq a b = true ↔
    (rank a = rank b ∧ sign a = sign b) ∨ (isZero a = true ∧ isZero b = true) := by
  rw [cmpEq, Bool.or_eq_true, beq_iff_eq, eq_iff_rank, Bool.and_eq_true]

theorem isZero_rank (a : Word) : isZero a = true ↔ -2 ^ 23 < rank a ∧ rank a < 2 ^ 23 := by
  rw [isZero_iff, rank]
  split_ifs <;> omega

theorem rank_sign (a : Word) :
    (sign a = true → rank a ≤ 0) ∧ (sign a = false → 0 ≤ rank a) := by
  constructor <;> intro h <;> simp [rank, h]

def feq (a b : Word) : Word := (compute rne a b .cmp 0b010#3).1
def flt (a b : Word) : Word := (compute rne a b .cmp 0b001#3).1
def fle (a b : Word) : Word := (compute rne a b .cmp 0b000#3).1

section order
variable {a b c : Word}

theorem cmp_value (ha : isNan a = false) (hb : isNan b = false) :
    feq a b = (if cmpEq a b then 1#32 else 0#32) ∧ flt a b = (if cmpLt a b then 1#32 else 0#32) ∧
      fle a b = (if cmpLt a b || cmpEq a b then 1#32 else 0#32) := by
  have hbit (x : Bool) : (BitVec.ofBool x).zeroExtend 32 = if x then 1#32 else 0#32 := by
    cases x <;> rfl
  have hnan : (isNan a || isNan b) = false := by rw [ha, hb]; rfl
  refine ⟨?_, ?_, ?_⟩ <;> simp only [feq, flt, fle, compute, cmp, hnan, Bool.false_eq_true,
    if_false, hbit]
  · rfl
  · rfl
  · rfl

theorem bit_eq_one (x : Bool) : (if x then 1#32 else 0#32) = 1#32 ↔ x = true := by
  cases x <;> decide

/-- `flt` and `feq` exclude each other, unless both operands are subnormals of one sign. -/
theorem trichotomy (h : isZero a = true → isZero b = true → sign a = sign b → a = b) :
    (cmpLt a b = true ∧ cmpEq a b = false ∧ cmpLt b a = false) ∨
      (cmpLt a b = false ∧ cmpEq a b = true ∧ cmpLt b a = false) ∨
      (cmpLt a b = false ∧ cmpEq a b = false ∧ cmpLt b a = true) := by
  have h' : isZero a = true → isZero b = true → sign a = sign b → rank a = rank b :=
    fun h₁ h₂ h₃ => congrArg rank (h h₁ h₂ h₃)
  have hsa := rank_sign a
  have hsb := rank_sign b
  simp only [← Bool.not_eq_true, cmpLt_iff, cmpEq_iff]
  simp only [isZero_rank] at h' ⊢
  by_cases hs : sign a = sign b
  · simp only [hs, ne_eq, not_true_eq_false, and_false, not_false_eq_true, and_true,
      forall_const] at h' ⊢
    omega
  · have hs' : ¬sign b = sign a := fun h => hs h.symm
    simp only [hs, hs', ne_eq, not_false_eq_true, and_true, and_false, false_or] at h' ⊢
    cases ha : sign a <;> cases hb : sign b <;> simp_all <;> omega

/-- Two subnormals of one sign, or one and a zero, are equal and one is below the other. -/
theorem equal_and_below (ha : isZero a = true) (hb : isZero b = true) (hs : sign a = sign b)
    (hne : a ≠ b) : cmpEq a b = true ∧ (cmpLt a b = true ∨ cmpLt b a = true) := by
  refine ⟨(cmpEq_iff a b).mpr (Or.inr ⟨ha, hb⟩), ?_⟩
  have hrank : rank a ≠ rank b := fun h => hne ((eq_iff_rank a b).mpr ⟨h, hs⟩)
  rw [cmpLt_iff, cmpLt_iff]
  rcases lt_or_gt_of_ne hrank with h | h
  · exact Or.inl ⟨h, fun hz => hz.2.2 hs⟩
  · exact Or.inr ⟨h, fun hz => hz.2.2 hs.symm⟩

theorem cmpLt_trans (h₁ : cmpLt a b = true) (h₂ : cmpLt b c = true) : cmpLt a c = true := by
  have hsa := rank_sign a
  have hsb := rank_sign b
  have hsc := rank_sign c
  simp only [cmpLt_iff, isZero_rank] at h₁ h₂ ⊢
  cases ha : sign a <;> cases hb : sign b <;> cases hc : sign c <;> simp_all <;> omega

theorem cmpLe_trans (h₁ : (cmpLt a b || cmpEq a b) = true) (h₂ : (cmpLt b c || cmpEq b c) = true) :
    (cmpLt a c || cmpEq a c) = true := by
  have hsa := rank_sign a
  have hsb := rank_sign b
  have hsc := rank_sign c
  simp only [Bool.or_eq_true, cmpLt_iff, cmpEq_iff, isZero_rank] at h₁ h₂ ⊢
  cases ha : sign a <;> cases hb : sign b <;> cases hc : sign c <;> simp_all <;> omega

/-- The comparisons order operands that are not NaN exactly where two with exponent 0 and the same
sign are the same. -/
theorem comparisons_order (a b c : Word) (ha : isNan a = false) (hb : isNan b = false)
    (hc : isNan c = false) :
    (((flt a b = 1#32 ∧ feq a b = 0#32 ∧ flt b a = 0#32) ∨
      (flt a b = 0#32 ∧ feq a b = 1#32 ∧ flt b a = 0#32) ∨
      (flt a b = 0#32 ∧ feq a b = 0#32 ∧ flt b a = 1#32)) ∧
    fle a b = flt a b ||| feq a b ∧
    (flt a b = 1#32 → flt b c = 1#32 → flt a c = 1#32) ∧
    (fle a b = 1#32 → fle b c = 1#32 → fle a c = 1#32) ∧
    (isZero a = true → isZero b = true → feq a b = 1#32)) ↔
    (isZero a = true → isZero b = true → sign a = sign b → a = b) := by
  obtain ⟨heq, hlt, hle⟩ := cmp_value ha hb
  obtain ⟨-, hlt', -⟩ := cmp_value hb ha
  obtain ⟨-, hltbc, hlebc⟩ := cmp_value hb hc
  obtain ⟨-, hltac, hleac⟩ := cmp_value ha hc
  constructor
  · rintro ⟨hone, -⟩ hza hzb hs
    by_contra hne
    obtain ⟨he, hbelow⟩ := equal_and_below hza hzb hs hne
    rw [hlt, heq, hlt', he] at hone
    rcases hbelow with h | h <;> simp [h] at hone
  intro hab
  refine ⟨?_, ?_, ?_, ?_, ?_⟩
  · rw [hlt, heq, hlt']
    rcases trichotomy hab with ⟨h₁, h₂, h₃⟩ | ⟨h₁, h₂, h₃⟩ | ⟨h₁, h₂, h₃⟩ <;>
      simp [h₁, h₂, h₃]
  · rw [hle, hlt, heq]
    cases cmpLt a b <;> cases cmpEq a b <;> rfl
  · rw [hlt, hltbc, hltac, bit_eq_one, bit_eq_one, bit_eq_one]
    exact cmpLt_trans
  · rw [hle, hlebc, hleac, bit_eq_one, bit_eq_one, bit_eq_one]
    exact cmpLe_trans
  · intro hza hzb
    rw [heq, bit_eq_one, cmpEq_iff]
    exact Or.inr ⟨hza, hzb⟩

/-- `1.0 < 2.0 < 3.0`. -/
theorem one_below_three : flt 0x3F800000#32 0x40400000#32 = 1#32 :=
  ((comparisons_order 0x3F800000#32 0x40000000#32 0x40400000#32 (by decide) (by decide)
    (by decide)).mpr (by decide)).2.2.1 (by decide) (by decide)

/-- Zero and the smallest subnormal are equal, and zero is the smaller. -/
theorem zero_below_subnormal : isNan 0x00000000#32 = false ∧ isNan 0x00000001#32 = false ∧
      feq 0x00000000#32 0x00000001#32 = 1#32 ∧ flt 0x00000000#32 0x00000001#32 = 1#32 := by
  decide

end order

end RiscvScratch.FpuF
