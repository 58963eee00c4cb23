import RiscvScratch.Fpu.Sqrt

/-! The arithmetic operations and the conversions from integers return the exact result, rounded to
24 bits. -/
namespace RiscvScratch.FpuF

open Rounding

noncomputable def exactResult (op : Op) (a b : Word) : ℝ :=
  match op with
  | .add => value a + value b
  | .sub => value a - value b
  | .mul => value a * value b
  | .div => value a / value b
  | .sqrt => √(value a)
  | .cvtSw => intValue true a
  | .cvtSwu => intValue false a
  | _ => 0

def Applies (op : Op) (a b : Word) : Prop :=
  match op with
  | .add | .sub | .mul => IsFinite a ∧ IsFinite b
  | .div => IsFinite a ∧ IsFinite b ∧ value b ≠ 0
  | .sqrt => IsFinite a ∧ 0 ≤ value a
  | .cvtSw | .cvtSwu => True
  | _ => False

def zeroResultSign (mode : Mode) (op : Op) (a b : Word) : Bool :=
  match op with
  | .add => zeroSign mode (sign a) (sign b)
  | .sub => zeroSign mode (sign a) (!sign b)
  | .mul | .div => sign a ^^ sign b
  | .sqrt => sign a
  | _ => false

open Classical in
/-- `f` is `x` rounded to 24 bits, the overflow result where that is too large, and a zero where it
is too small for a normal number. -/
def CorrectlyRounds (mode : Mode) (zs : Bool) (x : ℝ) (f : Word) : Prop :=
  if x = 0 then f = pack zs 0 0
  else if pow2 128 ≤ |roundTo 24 mode x| then f = overflowed mode (decide (x < 0))
  else if |roundTo 24 mode x| < pow2 (-126) then f = pack (decide (x < 0)) 0 0
  else IsNormal f ∧ value f = roundTo 24 mode x

section results
variable {mode : Mode} {zs : Bool} {x : ℝ} {o : Outcome} {op : Op} {a b : Word}

theorem Rounds.correctly (h : Rounds mode zs x o) : CorrectlyRounds mode zs x o.1 := by
  unfold CorrectlyRounds
  rcases h with ⟨hx, ho⟩ | ⟨s, rp, hs, hd, ho⟩
  · rw [if_pos hx, ho]
  · have hx : x ≠ 0 := by
      rintro rfl
      simp at hs
    have hneg : decide (x < 0) = s := by
      cases s with
      | false => simpa using (show 0 < x by simpa using hs).le
      | true => simpa using hs
    rw [if_neg hx, hneg, ho]
    split_ifs with h₁ h₂
    · rw [hd.overflow h₁]
      rfl
    · rw [hd.underflow h₂]
      rfl
    · exact (hd.normal (not_lt.mp h₂) (not_le.mp h₁)).2.2.2

theorem isZero_of_nonneg (h : 0 ≤ value a) : sign a = false ∨ isZero a = true := by
  cases hs : sign a with
  | false => exact Or.inl rfl
  | true =>
    right
    by_contra hz
    have hm : 0 < magnitude a := magnitude_pos (by simpa [isZero] using hz)
    rw [value, hs, sgn_true] at h
    linarith

theorem isZero_of_ne (h : value b ≠ 0) : isZero b = false := by
  by_contra hz
  exact h (value_zero (by simpa using hz))

theorem compute_rounds (mode : Mode) (fmt3 : BitVec 3) (h : Applies op a b) :
    Rounds mode (zeroResultSign mode op a b) (exactResult op a b)
      ((compute (rmOf mode) a b op fmt3).1, (compute (rmOf mode) a b op fmt3).2.1) := by
  cases op <;> try exact h.elim
  case add =>
    have hr := doAddsub_rounds mode false h.1 h.2
    rwa [Bool.xor_false, sgn_false, one_mul] at hr
  case sub =>
    have hr := doAddsub_rounds mode true h.1 h.2
    rwa [Bool.xor_true, sgn_true, neg_one_mul, ← sub_eq_add_neg] at hr
  case mul => exact doMul_rounds h.1 h.2
  case div => exact fdivCore_rounds h.1 h.2.1 (isZero_of_ne h.2.2)
  case sqrt => exact fsqrtCore_rounds h.1 (isZero_of_nonneg h.2)
  case cvtSw => exact fromInteger_rounds a true
  case cvtSwu => exact fromInteger_rounds a false

end results

section runs
variable (run : machine.Run)

theorem run_step (t : ℕ) : run.state (t + 1) = step (run.state t) (run.input t) := run.steps t

structure Holds (o : Word × BitVec 5 × Bool) (s : State) : Prop where
  result : s.result = o.1
  flags : s.flags = o.2.1
  toInt : s.toInt = o.2.2

theorem go_done {t : ℕ} {o : Word × BitVec 5 × Bool} (hs : (run.state t).state = .go)
    (ho : Holds o (run.state t)) :
    (run.state (t + 1)).done = true ∧ Holds o (run.state (t + 1)) := by
  have hstep : run.state (t + 1) = { run.state t with done := true, state := .idle } := by
    rw [run_step, step, hs]
  rw [hstep]
  exact ⟨rfl, ho.result, ho.flags, ho.toInt⟩

theorem waitn_done {o : Word × BitVec 5 × Bool} (k t : ℕ) (hs : (run.state t).state = .waitn)
    (hk : (run.state t).waitc = k) (hd : (run.state t).done = false) (ho : Holds o (run.state t)) :
    (∀ j ≤ k, (run.state (t + j)).done = false) ∧ (run.state (t + k + 1)).done = true ∧
      Holds o (run.state (t + k + 1)) := by
  induction k generalizing t with
  | zero =>
    have hstep : run.state (t + 1) = { run.state t with done := true, state := .idle } := by
      rw [run_step, step, hs]
      exact if_pos hk
    refine ⟨?_, ?_⟩
    · intro j hj
      obtain rfl : j = 0 := by omega
      exact hd
    · rw [add_zero, hstep]
      exact ⟨rfl, ho.result, ho.flags, ho.toInt⟩
  | succ k ih =>
    have hstep : run.state (t + 1) = { run.state t with
        state := .waitn, done := false, waitc := (run.state t).waitc - 1 } := by
      rw [run_step, step, hs]
      exact if_neg (show ¬(run.state t).waitc = 0 by omega)
    obtain ⟨hquiet, hlast⟩ := ih (t + 1) (by rw [hstep]) (by rw [hstep]; dsimp only; omega)
      (by rw [hstep]) (by rw [hstep]; exact ⟨ho.result, ho.flags, ho.toInt⟩)
    refine ⟨?_, ?_⟩
    · intro j hj
      cases j with
      | zero => exact hd
      | succ j =>
        have := hquiet j (by omega)
        rwa [show t + 1 + j = t + (j + 1) by omega] at this
    · rwa [show t + 1 + k + 1 = t + (k + 1) + 1 by omega] at hlast

theorem start_done {t : ℕ} (hi : (run.state t).state = .idle)
    (hs : (run.input t).start = true) :
    ∃ d > t, (∀ u, t < u → u < d → (run.state u).done = false) ∧ (run.state d).done = true ∧
      Holds (compute (run.input t).rm (run.input t).a (run.input t).b (run.input t).op
        (run.input t).fmt3) (run.state d) := by
  have hstep := run_step run t
  rw [step, hi] at hstep
  dsimp only at hstep
  rw [if_pos hs] at hstep
  by_cases hslow : (run.input t).op = .div ∨ (run.input t).op = .sqrt
  · rw [if_pos hslow, if_pos hslow] at hstep
    obtain ⟨hquiet, hlast⟩ := waitn_done run 26 (t + 1) (by rw [hstep]) (by rw [hstep])
      (by rw [hstep]) (by rw [hstep]; exact ⟨rfl, rfl, rfl⟩)
    refine ⟨t + 1 + 26 + 1, by omega, ?_, hlast⟩
    intro u hu hlt
    have := hquiet (u - (t + 1)) (by omega)
    rwa [show t + 1 + (u - (t + 1)) = u by omega] at this
  · rw [if_neg hslow, if_neg hslow] at hstep
    refine ⟨t + 1 + 1, by omega, ?_, go_done run (by rw [hstep])
      (by rw [hstep]; exact ⟨rfl, rfl, rfl⟩)⟩
    intro u hu hlt
    obtain rfl : u = t + 1 := by omega
    rw [hstep]

/-- The unit rounds correctly, on finite operands where the exact result is a real number, and every
integer. -/
theorem fpu_rounds_correctly (mode : Mode) {t : ℕ} (hi : (run.state t).state = .idle)
    (hs : (run.input t).start = true) (hrm : (run.input t).rm = rmOf mode)
    (happ : Applies (run.input t).op (run.input t).a (run.input t).b) :
    ∃ d > t, (∀ u, t < u → u < d → (run.state u).done = false) ∧ (run.state d).done = true ∧
      CorrectlyRounds mode
        (zeroResultSign mode (run.input t).op (run.input t).a (run.input t).b)
        (exactResult (run.input t).op (run.input t).a (run.input t).b) (run.state d).result := by
  obtain ⟨d, hd, hquiet, hdone, hout⟩ := start_done run hi hs
  refine ⟨d, hd, hquiet, hdone, ?_⟩
  rw [hout.result, hrm]
  exact (compute_rounds mode _ happ).correctly

end runs

def thirdInput : Input := ⟨true, .div, 0#3, rup, 0x3F800000#32, 0x40400000#32⟩

def thirdRun : machine.Run :=
  machine.runOf (fun _ _ => thirdInput) (reset 0) reset_starts

theorem third_rounded_up : ∃ d > 0, (∀ u, 0 < u → u < d → (thirdRun.state u).done = false) ∧
      (thirdRun.state d).done = true ∧
      CorrectlyRounds .up false (value 0x3F800000#32 / value 0x40400000#32)
        (thirdRun.state d).result :=
  fpu_rounds_correctly thirdRun .up rfl rfl rfl
    ⟨by decide, by decide, mul_ne_zero (sgn_ne_zero _) (magnitude_pos (by decide)).ne'⟩

end RiscvScratch.FpuF
