import RiscvScratch.Fpu.Rounded

/-! The exception flags. The rounder's overflow and underflow reach the places of the division by
zero and of the overflow, so the flags are right exactly where neither occurs. -/
namespace RiscvScratch.FpuF

open Rounding

def invalid (op : Op) (a b : Word) : Bool :=
  match op with
  | .add => isSnan a || isSnan b || (isInf a && isInf b && sign a != sign b)
  | .sub => isSnan a || isSnan b || (isInf a && isInf b && sign a == sign b)
  | .mul => isSnan a || isSnan b || (isInf a && isZero b) || (isZero a && isInf b)
  | .div => isSnan a || isSnan b || (isInf a && isInf b) || (isZero a && isZero b)
  | .sqrt => isSnan a || (sign a && !isZero a && !isNan a)
  | _ => false

def divByZero (op : Op) (a b : Word) : Bool :=
  op == .div && (!isNan a && !isInf a && !isZero a && isZero b)

def Overflows (mode : Mode) (op : Op) (a b : Word) : Prop :=
  Applies op a b ∧ pow2 128 ≤ |roundTo 24 mode (exactResult op a b)|

/-- A rounded result other than zero is too small for a normal number. -/
def Underflows (mode : Mode) (op : Op) (a b : Word) : Prop :=
  Applies op a b ∧ roundTo 24 mode (exactResult op a b) ≠ 0 ∧
    |roundTo 24 mode (exactResult op a b)| < pow2 (-126)

/-- The result `f` is not the exact one. -/
def Inexact (op : Op) (a b f : Word) : Prop := Applies op a b ∧ value f ≠ exactResult op a b

/-- The flags `fl` of the result `f`: invalid, division by zero, overflow, underflow, inexact. -/
structure FlagsRight (mode : Mode) (op : Op) (a b f : Word) (fl : BitVec 5) : Prop where
  nv : fl.getLsbD 4 = true ↔ invalid op a b = true
  dz : fl.getLsbD 3 = true ↔ divByZero op a b = true
  of : fl.getLsbD 2 = true ↔ Overflows mode op a b
  uf : fl.getLsbD 1 = true ↔ Underflows mode op a b
  nx : fl.getLsbD 0 = true ↔ Inexact op a b f

def arithmetic (op : Op) : Bool :=
  op == .add || op == .sub || op == .mul || op == .div || op == .sqrt

section special
variable {mode : Mode} {op : Op} {a b : Word}

theorem classes (a : Word) : (isZero a = true → isNan a = false ∧ isInf a = false) ∧
    (isNan a = true → isInf a = false) ∧ (isNan a = false → isSnan a = false) := by
  refine ⟨?_, ?_, ?_⟩
  · intro h
    simp [isNan, isInf, show expo a = 0 by simpa [isZero] using h]
  · intro h
    simp only [isNan, Bool.and_eq_true, bne_iff_ne] at h
    simp [isInf, h.2]
  · intro h
    simp [isSnan, h]

theorem isFinite_iff : IsFinite a ↔ isNan a = false ∧ isInf a = false := by
  refine ⟨finite_flags, ?_⟩
  rintro ⟨hn, hi⟩ he
  by_cases hf : frac a = 0 <;> simp [isNan, isInf, he, hf] at hn hi

theorem value_ne_zero_iff : value a ≠ 0 ↔ isZero a = false :=
  ⟨isZero_of_ne, fun h =>
    mul_ne_zero (sgn_ne_zero _) (magnitude_pos (by simpa [isZero] using h)).ne'⟩

theorem value_nonneg_iff : 0 ≤ value a ↔ sign a = false ∨ isZero a = true := by
  refine ⟨isZero_of_nonneg, ?_⟩
  rintro (h | h)
  · rw [value, h, sgn_false, one_mul, magnitude, pow2]
    positivity
  · rw [value_zero h]

theorem flags5_none : flags5 false false false false false = 0#5 := by decide

theorem nan_class (h : isNan a = true) : isZero a = false ∧ isInf a = false := by
  refine ⟨?_, (classes a).2.1 h⟩
  by_contra hz
  rw [Bool.not_eq_false] at hz
  exact absurd h (by simp [((classes a).1 hz).1])

/-- A NaN is invalid where it signals; otherwise `x` and `dz` say what the classes ask for. -/
theorem special_eq {o : Outcome} {x dz : Bool}
    (hnan : (isNan a || isNan b) = true →
      o.2 = flags5 (isSnan a || isSnan b) false false false false)
    (hclass : isNan a = true ∨ isNan b = true → x = false ∧ dz = false)
    (hquiet : isNan a = false → isNan b = false → o.2 = flags5 x dz false false false) :
    o.2 = flags5 (isSnan a || isSnan b || x) dz false false false := by
  by_cases hn : (isNan a || isNan b) = true
  · obtain ⟨rfl, rfl⟩ := hclass (Bool.or_eq_true_iff.mp hn)
    rw [hnan hn, Bool.or_false]
  · obtain ⟨ha, hb⟩ := Bool.or_eq_false_iff.mp (Bool.eq_false_iff.mpr hn)
    rw [hquiet ha hb, (classes a).2.2 ha, (classes b).2.2 hb]
    rfl

theorem doAddsub_special (rm : BitVec 3) (isSub : Bool) (h : ¬(IsFinite a ∧ IsFinite b)) :
    (doAddsub rm a b isSub).2 = flags5 (isSnan a || isSnan b ||
      (isInf a && isInf b && sign a != (sign b ^^ isSub))) false false false false := by
  rw [isFinite_iff, isFinite_iff] at h
  refine special_eq (fun hn => by rw [doAddsub, if_pos hn]) ?_ fun hna hnb => ?_
  · rintro (h | h) <;> simp [nan_class h]
  · rw [doAddsub, hna, hnb]
    cases hia : isInf a <;> cases hib : isInf b <;> simp [hna, hnb, hia, hib, flags5_none] at h ⊢
    cases sign a <;> cases (sign b ^^ isSub) <;> simp <;> decide

theorem doMul_special (rm : BitVec 3) (h : ¬(IsFinite a ∧ IsFinite b)) :
    (doMul rm a b).2 = flags5 (isSnan a || isSnan b || (isInf a && isZero b ||
      isZero a && isInf b)) false false false false := by
  rw [isFinite_iff, isFinite_iff] at h
  refine special_eq (fun hn => by rw [doMul, if_pos hn]) ?_ fun hna hnb => ?_
  · rintro (h | h) <;> simp [nan_class h]
  · obtain ⟨hza, -⟩ := classes a
    rw [doMul, hna, hnb]
    cases hia : isInf a <;> cases hib : isInf b <;> cases hza' : isZero a <;>
      cases hzb' : isZero b <;> simp_all <;> decide

theorem fdivCore_special (rm : BitVec 3) (h : ¬(IsFinite a ∧ IsFinite b ∧ isZero b = false)) :
    (fdivCore rm a b).2 = flags5 (isSnan a || isSnan b || (isInf a && isInf b ||
      isZero a && isZero b)) (!isNan a && !isInf a && !isZero a && isZero b)
        false false false := by
  rw [isFinite_iff, isFinite_iff] at h
  refine special_eq (fun hn => by rw [fdivCore, if_pos hn]) ?_ fun hna hnb => ?_
  · rintro (h | h) <;> simp [nan_class h, h]
  · obtain ⟨hza, -⟩ := classes a
    obtain ⟨hzb, -⟩ := classes b
    rw [fdivCore, hna, hnb]
    cases hia : isInf a <;> cases hib : isInf b <;> cases hza' : isZero a <;>
      cases hzb' : isZero b <;> simp_all <;> decide

theorem fsqrtCore_special (rm : BitVec 3) (h : ¬(IsFinite a ∧ (sign a = false ∨ isZero a = true))) :
    (fsqrtCore rm a).2 = flags5 (isSnan a || (sign a && !isZero a && !isNan a)) false false false
      false := by
  obtain ⟨hza, -, hsa⟩ := classes a
  rw [isFinite_iff] at h
  have hz : isZero a = false := by
    by_contra hz
    rw [Bool.not_eq_false] at hz
    exact h ⟨hza hz, Or.inr hz⟩
  rw [fsqrtCore, hz]
  by_cases hn : isNan a = true
  · rw [if_pos hn, hn]
    simp
  · rw [Bool.not_eq_true] at hn
    rw [hn, if_neg Bool.false_ne_true, if_neg Bool.false_ne_true, hsa hn]
    cases hs : sign a with
    | true =>
      rw [if_pos rfl]
      decide
    | false =>
      have hi : isInf a = true := by
        by_contra hi
        exact h ⟨⟨hn, by simpa using hi⟩, Or.inl hs⟩
      rw [if_neg Bool.false_ne_true, if_pos hi]
      decide

theorem special_flags (rm fmt3 : BitVec 3) (hop : arithmetic op = true) (h : ¬Applies op a b) :
    (compute rm a b op fmt3).2.1 =
      flags5 (invalid op a b) (divByZero op a b) false false false := by
  cases op <;> try exact absurd hop (by decide)
  case add =>
    have hs := doAddsub_special rm false h
    rwa [Bool.xor_false] at hs
  case sub =>
    have hs := doAddsub_special rm true h
    have hb : (sign a != (sign b ^^ true)) = (sign a == sign b) := by
      cases sign a <;> cases sign b <;> rfl
    rwa [hb] at hs
  case mul =>
    rw [invalid, Bool.or_assoc]
    exact doMul_special rm h
  case div =>
    rw [invalid, Bool.or_assoc]
    exact fdivCore_special rm fun h' => h ⟨h'.1, h'.2.1, value_ne_zero_iff.mpr h'.2.2⟩
  case sqrt => exact fsqrtCore_special rm fun h' => h ⟨h'.1, value_nonneg_iff.mpr h'.2⟩

theorem applies_plain (h : Applies op a b) : invalid op a b = false ∧ divByZero op a b = false := by
  have hs (w : Word) (hw : IsFinite w) : isSnan w = false :=
    (classes w).2.2 (isFinite_iff.mp hw).1
  cases op <;> try exact ⟨rfl, rfl⟩
  case add => simp [invalid, divByZero, hs a h.1, hs b h.2, isFinite_iff.mp h.1]
  case sub => simp [invalid, divByZero, hs a h.1, hs b h.2, isFinite_iff.mp h.1]
  case mul =>
    simp [invalid, divByZero, hs a h.1, hs b h.2, isFinite_iff.mp h.1, isFinite_iff.mp h.2]
  case div =>
    simp [invalid, divByZero, hs a h.1, hs b h.2.1, isFinite_iff.mp h.1,
      value_ne_zero_iff.mp h.2.2]
  case sqrt =>
    rcases value_nonneg_iff.mp h.2 with h' | h' <;> simp [invalid, divByZero, hs a h.1, h']

end special

section flags
variable {mode : Mode} {op : Op} {a b : Word}

theorem Rounds.flags {zs : Bool} {x : ℝ} {o : Outcome} (h : Rounds mode zs x o)
    (hover : ¬pow2 128 ≤ |roundTo 24 mode x|)
    (hunder : roundTo 24 mode x ≠ 0 → ¬|roundTo 24 mode x| < pow2 (-126)) :
    ∃ nx, o.2 = flags5 false false false false nx ∧ (nx = true ↔ value o.1 ≠ x) := by
  rcases h with ⟨hx, ho⟩ | ⟨s, rp, -, hd, ho⟩
  · have hz : isZero (pack zs 0 0) = true := by cases zs <;> decide
    refine ⟨false, by rw [ho, flags5_none], ?_⟩
    simp [ho, hx, value_zero hz]
  · obtain ⟨hof, huf, hnx, -, hv⟩ := hd.normal (not_lt.mp (hunder hd.nonzero)) (not_le.mp hover)
    refine ⟨rp.nx, ?_, ?_⟩
    · rw [ho, Rounded.outcome, Rounded.flags, hof, huf]
    · rw [ho, Rounded.outcome, hv]
      exact hnx

theorem compute_flags (mode : Mode) (fmt3 : BitVec 3) (hop : arithmetic op = true)
    (hover : ¬Overflows mode op a b) (hunder : ¬Underflows mode op a b) :
    ∃ nx, (compute (rmOf mode) a b op fmt3).2.1 =
        flags5 (invalid op a b) (divByZero op a b) false false nx ∧
      (nx = true ↔ Inexact op a b (compute (rmOf mode) a b op fmt3).1) := by
  by_cases h : Applies op a b
  · obtain ⟨nx, hfl, hnx⟩ := (compute_rounds mode fmt3 h).flags (fun hc => hover ⟨h, hc⟩)
      fun h₀ hc => hunder ⟨h, h₀, hc⟩
    obtain ⟨hi, hd⟩ := applies_plain h
    refine ⟨nx, by rw [hi, hd]; exact hfl, hnx.trans ?_⟩
    exact (and_iff_right h).symm
  · exact ⟨false, special_flags _ _ hop h, by simp [Inexact, h]⟩

theorem flags5_bits (b4 b3 b2 b1 b0 : Bool) :
    (flags5 b4 b3 b2 b1 b0).getLsbD 4 = b4 ∧ (flags5 b4 b3 b2 b1 b0).getLsbD 3 = b3 ∧
      (flags5 b4 b3 b2 b1 b0).getLsbD 2 = b2 ∧ (flags5 b4 b3 b2 b1 b0).getLsbD 1 = b1 ∧
      (flags5 b4 b3 b2 b1 b0).getLsbD 0 = b0 := by
  revert b4 b3 b2 b1 b0
  decide

theorem roundTo_zero (p : ℕ) (mode : Mode) : roundTo p mode 0 = 0 := by
  have h : toInt mode 0 = 0 := by exact_mod_cast toInt_intCast mode 0
  rw [roundTo, zero_div, h, Int.cast_zero, zero_mul]

theorem Rounds.delivers {zs : Bool} {x : ℝ} {o : Outcome} (h : Rounds mode zs x o)
    (h₀ : roundTo 24 mode x ≠ 0) : ∃ s rp, Delivers mode s x rp ∧ o = rp.outcome := by
  rcases h with ⟨hx, -⟩ | ⟨s, rp, -, hd, ho⟩
  · rw [hx, roundTo_zero] at h₀
    exact absurd rfl h₀
  · exact ⟨s, rp, hd, ho⟩

/-- An overflow shows as a division by zero. -/
theorem overflow_flags (mode : Mode) (fmt3 : BitVec 3) (h : Overflows mode op a b) :
    (compute (rmOf mode) a b op fmt3).2.1 = 0b01001#5 := by
  obtain ⟨happ, hbig⟩ := h
  have h₀ : roundTo 24 mode (exactResult op a b) ≠ 0 := by
    intro h₀
    rw [h₀, abs_zero] at hbig
    exact absurd hbig (not_le.mpr (zpow_pos two_pos 128))
  obtain ⟨s, rp, hd, ho⟩ := (compute_rounds mode fmt3 happ).delivers h₀
  rw [hd.overflow hbig] at ho
  exact (congrArg Prod.snd ho).trans (show flags5 false true false false true = _ by decide)

/-- A flushed result shows as an overflow. -/
theorem underflow_flags (mode : Mode) (fmt3 : BitVec 3) (h : Underflows mode op a b) :
    (compute (rmOf mode) a b op fmt3).2.1 = 0b00101#5 := by
  obtain ⟨happ, h₀, hsmall⟩ := h
  obtain ⟨s, rp, hd, ho⟩ := (compute_rounds mode fmt3 happ).delivers h₀
  rw [hd.underflow hsmall] at ho
  exact (congrArg Prod.snd ho).trans (show flags5 false false true false true = _ by decide)

theorem not_overflows_of_underflows (h : Underflows mode op a b) : ¬Overflows mode op a b := by
  intro h'
  have hlt : pow2 (-126) < pow2 128 := zpow_lt_zpow_right₀ one_lt_two (by decide)
  exact absurd (h'.2.trans_lt h.2.2) hlt.not_gt

theorem compute_right_iff (mode : Mode) (fmt3 : BitVec 3) (hop : arithmetic op = true) :
    FlagsRight mode op a b (compute (rmOf mode) a b op fmt3).1
        (compute (rmOf mode) a b op fmt3).2.1 ↔
      ¬Overflows mode op a b ∧ ¬Underflows mode op a b := by
  constructor
  · intro h
    constructor
    · intro hover
      have hdz := h.dz
      rw [overflow_flags mode fmt3 hover, (applies_plain hover.1).2] at hdz
      exact absurd (hdz.mp (by decide)) Bool.false_ne_true
    · intro hunder
      have hof := h.of
      rw [underflow_flags mode fmt3 hunder] at hof
      exact not_overflows_of_underflows hunder (hof.mp (by decide))
  · rintro ⟨hover, hunder⟩
    obtain ⟨nx, hfl, hnx⟩ := compute_flags mode fmt3 hop hover hunder
    obtain ⟨h4, h3, h2, h1, h0⟩ := flags5_bits (invalid op a b) (divByZero op a b) false false nx
    rw [hfl]
    constructor
    · rw [h4]
    · rw [h3]
    · rw [h2]
      exact iff_of_false Bool.false_ne_true hover
    · rw [h1]
      exact iff_of_false Bool.false_ne_true hunder
    · rw [h0]
      exact hnx

/-- The flags are right exactly where the rounded result neither overflows nor is flushed. -/
theorem fpu_flags (run : machine.Run) (mode : Mode) {t : ℕ} (hi : (run.state t).state = .idle)
    (hs : (run.input t).start = true) (hrm : (run.input t).rm = rmOf mode)
    (hop : arithmetic (run.input t).op = true) :
    ∃ d > t, (∀ u, t < u → u < d → (run.state u).done = false) ∧ (run.state d).done = true ∧
      (FlagsRight mode (run.input t).op (run.input t).a (run.input t).b (run.state d).result
          (run.state d).flags ↔
        ¬Overflows mode (run.input t).op (run.input t).a (run.input t).b ∧
          ¬Underflows mode (run.input t).op (run.input t).a (run.input t).b) := by
  obtain ⟨d, hd, hquiet, hdone, hout⟩ := start_done run hi hs
  refine ⟨d, hd, hquiet, hdone, ?_⟩
  rw [hout.flags, hout.result, hrm]
  exact compute_right_iff mode (run.input t).fmt3 hop

def zeroDivInput : Input := ⟨true, .div, 0#3, rne, 0x00000000#32, 0x80000000#32⟩

def zeroDivRun : machine.Run :=
  machine.runOf (fun _ _ => zeroDivInput) (reset 0) reset_starts

theorem zeroDiv_invalid : ∃ d > 0, (zeroDivRun.state d).done = true ∧
    (zeroDivRun.state d).flags.getLsbD 4 = true := by
  have hb : ¬Applies .div 0x00000000#32 0x80000000#32 := fun h =>
    h.2.2 (value_zero (by decide))
  obtain ⟨d, hd, -, hdone, hright⟩ := fpu_flags zeroDivRun .nearestEven (t := 0) rfl rfl rfl rfl
  have hfl := hright.mpr ⟨fun h => hb h.1, fun h => hb h.1⟩
  exact ⟨d, hd, hdone, hfl.nv.mpr (by decide)⟩

/-- The largest number squared overflows; the flags say division by zero and inexact. -/
def squareInput : Input := ⟨true, .mul, 0#3, rne, 0x7F7FFFFF#32, 0x7F7FFFFF#32⟩

def squareRun : machine.Run :=
  machine.runOf (fun _ _ => squareInput) (reset 0) reset_starts

theorem square_flags : squareRun.input 0 = squareInput ∧ (squareRun.state 0).state = .idle ∧
    (squareRun.state 1).done = false ∧ (squareRun.state 2).done = true ∧
    (squareRun.state 2).result = 0x7F800000#32 ∧
    divByZero squareInput.op squareInput.a squareInput.b = false ∧
    (squareRun.state 2).flags.getLsbD 3 = true ∧ (squareRun.state 2).flags = 0b01001#5 := by
  refine ⟨rfl, ?_⟩
  decide +kernel

end flags

end RiscvScratch.FpuF
