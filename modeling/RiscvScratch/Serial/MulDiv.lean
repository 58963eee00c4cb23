import Mathlib.Tactic

/-! Serial arithmetic: shift-and-add multiplication and restoring division, one bit of the second
operand per step, at any width. -/
namespace Serial

/-! ## Shift-and-add multiplication

The accumulator is signed. The low end of `q` holds the multiplier bits still to be used, its
high end the product bits already final. -/
namespace Mul

structure State where
  acc : ℤ
  q : ℕ

def step (n : ℕ) (m : ℤ) (sub : Bool) (s : State) : State :=
  let sum := if s.q % 2 = 1 then (if sub then s.acc - m else s.acc + m) else s.acc
  ⟨sum / 2, (sum % 2).toNat * 2 ^ (n - 1) + s.q / 2⟩

/-- After `k` steps: `hi` are the product bits that have left the accumulator. -/
structure Inv (n : ℕ) (m : ℤ) (b k : ℕ) (s : State) : Prop where
  le : k ≤ n
  split : ∃ hi : ℕ, hi < 2 ^ k ∧ s.q = hi * 2 ^ (n - k) + b / 2 ^ k ∧
    s.acc * 2 ^ k + hi = m * (b % 2 ^ k : ℕ)

variable {n : ℕ} {m : ℤ} {b k : ℕ} {s : State}

theorem Inv.start : Inv n m b 0 ⟨0, b⟩ :=
  ⟨Nat.zero_le _, 0, by simp, by simp, by simp [Nat.mod_one]⟩

theorem mod_pow_succ (b k : ℕ) : b % 2 ^ (k + 1) = b / 2 ^ k % 2 * 2 ^ k + b % 2 ^ k := by
  rw [Nat.mod_pow_succ]
  ring

theorem Inv.bit (h : Inv n m b k s) (hk : k < n) : s.q % 2 = b / 2 ^ k % 2 := by
  obtain ⟨_, hi, _, hq, _⟩ := h
  have he : 2 ^ (n - k) = 2 * 2 ^ (n - k - 1) := by
    rw [← pow_succ']
    congr 1
    omega
  rw [hq, he, mul_left_comm]
  omega

/-- What every step does to the two halves; `w` is the weight the multiplier bit had. -/
theorem Inv.step_split (h : Inv n m b k s) (hk : k < n) (sub : Bool) (w : ℤ)
    (hw : (if s.q % 2 = 1 then (if sub then s.acc - m else s.acc + m) else s.acc) = s.acc + w) :
    ∃ hi : ℕ, hi < 2 ^ (k + 1) ∧
      (step n m sub s).q = hi * 2 ^ (n - (k + 1)) + b / 2 ^ (k + 1) ∧
      (step n m sub s).acc * 2 ^ (k + 1) + hi = m * (b % 2 ^ k : ℕ) + 2 ^ k * w := by
  obtain ⟨_, hi, hlt, hq, hacc⟩ := h
  set sum := s.acc + w with hsum
  have hbit : (sum % 2).toNat < 2 := by omega
  have hdiv : sum = 2 * (sum / 2) + ((sum % 2).toNat : ℤ) := by omega
  have hpow : 2 ^ (n - k) = 2 * 2 ^ (n - (k + 1)) := by
    rw [← pow_succ']
    congr 1
    omega
  have hpow' : 2 ^ (n - 1) = 2 ^ k * 2 ^ (n - (k + 1)) := by
    rw [← pow_add]
    congr 1
    omega
  refine ⟨(sum % 2).toNat * 2 ^ k + hi, ?_, ?_, ?_⟩
  · calc (sum % 2).toNat * 2 ^ k + hi ≤ 1 * 2 ^ k + hi := by gcongr; omega
      _ < 2 ^ (k + 1) := by rw [pow_succ]; omega
  · have hhalf : s.q / 2 = hi * 2 ^ (n - (k + 1)) + b / 2 ^ (k + 1) := by
      rw [hq, hpow, pow_succ, ← Nat.div_div_eq_div_mul, mul_left_comm]
      omega
    simp only [step, hw, hhalf, hpow']
    ring
  · simp only [step, hw]
    push_cast
    calc sum / 2 * 2 ^ (k + 1) + (((sum % 2).toNat : ℤ) * 2 ^ k + hi)
        = (2 * (sum / 2) + ((sum % 2).toNat : ℤ)) * 2 ^ k + hi := by ring
      _ = (s.acc * 2 ^ k + hi) + 2 ^ k * w := by rw [← hdiv, hsum]; ring
      _ = m * (b % 2 ^ k : ℕ) + 2 ^ k * w := by rw [hacc]

theorem Inv.step_add (h : Inv n m b k s) (hk : k < n) : Inv n m b (k + 1) (step n m false s) := by
  have hbit := h.bit hk
  obtain ⟨hi, h1, h2, h3⟩ := h.step_split hk false ((b / 2 ^ k % 2 : ℕ) * m) (by
    obtain h0 | h0 := Nat.mod_two_eq_zero_or_one (b / 2 ^ k) <;> simp [hbit, h0])
  refine ⟨hk, hi, h1, h2, h3.trans ?_⟩
  rw [mod_pow_succ]
  push_cast
  ring

/-- The last step of a signed multiplication subtracts: the top bit weighs `-2 ^ k`. -/
theorem Inv.step_sub (h : Inv (k + 1) m b k s) (hb : b < 2 ^ (k + 1)) :
    (step (k + 1) m true s).q < 2 ^ (k + 1) ∧
      (step (k + 1) m true s).acc * 2 ^ (k + 1) + (step (k + 1) m true s).q =
        m * (b - 2 ^ (k + 1) * (b / 2 ^ k : ℕ)) := by
  have hbit := h.bit (Nat.lt_succ_self k)
  have hle : b / 2 ^ k < 2 := by
    rw [Nat.div_lt_iff_lt_mul (by positivity)]
    rw [pow_succ] at hb
    omega
  obtain ⟨hi, h1, h2, h3⟩ := h.step_split (Nat.lt_succ_self k) true
    (-((b / 2 ^ k % 2 : ℕ) * m)) (by
      obtain h0 | h0 := Nat.mod_two_eq_zero_or_one (b / 2 ^ k) <;>
        simp [hbit, h0, sub_eq_add_neg])
  have hq : (step (k + 1) m true s).q = hi := by
    rw [h2, Nat.sub_self, pow_zero, mul_one, Nat.div_eq_of_lt hb, add_zero]
  refine ⟨hq ▸ h1, ?_⟩
  have hsplit := Nat.div_add_mod b (2 ^ k)
  rw [hq, h3, Nat.mod_eq_of_lt hle]
  generalize hx : b / 2 ^ k = x at *
  generalize hy : b % 2 ^ k = y at *
  rw [← hsplit]
  push_cast
  ring

end Mul

/-! ## Restoring division

The high end of `q` holds the dividend bits still to be used, its low end the quotient. -/
namespace Div

structure State where
  rem : ℕ
  q : ℕ

def step (n d : ℕ) (s : State) : State :=
  let shifted := 2 * s.rem + s.q / 2 ^ (n - 1)
  ⟨if d ≤ shifted then shifted - d else shifted,
    s.q % 2 ^ (n - 1) * 2 + if d ≤ shifted then 1 else 0⟩

/-- After `k` steps: the quotient and remainder of the dividend's first `k` bits. -/
structure Inv (n a d k : ℕ) (s : State) : Prop where
  le : k ≤ n
  lt : s.rem < d
  split : ∃ quo : ℕ, quo < 2 ^ k ∧ s.q = a % 2 ^ (n - k) * 2 ^ k + quo ∧
    a / 2 ^ (n - k) = quo * d + s.rem

variable {n a d k : ℕ} {s : State}

theorem Inv.start (ha : a < 2 ^ n) (hd : 0 < d) : Inv n a d 0 ⟨0, a⟩ := by
  refine ⟨Nat.zero_le _, hd, 0, by simp, ?_, ?_⟩
  · simp [Nat.mod_eq_of_lt ha]
  · simp [Nat.div_eq_of_lt ha]

theorem Inv.bit (h : Inv n a d k s) (hk : k < n) :
    s.q / 2 ^ (n - 1) = a / 2 ^ (n - (k + 1)) % 2 ∧
      ∃ quo < 2 ^ k, s.q % 2 ^ (n - 1) = a % 2 ^ (n - (k + 1)) * 2 ^ k + quo ∧
        a / 2 ^ (n - k) = quo * d + s.rem := by
  obtain ⟨_, _, quo, hlt, hq, hdiv⟩ := h
  have hpow : 2 ^ (n - 1) = 2 ^ (n - (k + 1)) * 2 ^ k := by
    rw [← pow_add]
    congr 1
    omega
  have hlow : a % 2 ^ (n - (k + 1)) * 2 ^ k + quo < 2 ^ (n - 1) := by
    have hmod : a % 2 ^ (n - (k + 1)) < 2 ^ (n - (k + 1)) := Nat.mod_lt _ (by positivity)
    calc a % 2 ^ (n - (k + 1)) * 2 ^ k + quo < (a % 2 ^ (n - (k + 1)) + 1) * 2 ^ k := by
          rw [add_mul, one_mul]; omega
      _ ≤ 2 ^ (n - 1) := by rw [hpow]; gcongr; omega
  have hsplit : s.q = a / 2 ^ (n - (k + 1)) % 2 * 2 ^ (n - 1) +
      (a % 2 ^ (n - (k + 1)) * 2 ^ k + quo) := by
    rw [hq, show n - k = n - (k + 1) + 1 by omega, Mul.mod_pow_succ, hpow]
    ring
  refine ⟨?_, quo, hlt, ?_, hdiv⟩
  · rw [hsplit, mul_comm, Nat.mul_add_div (by positivity), Nat.div_eq_of_lt hlow, add_zero]
  · rw [hsplit, Nat.mul_add_mod_self_right, Nat.mod_eq_of_lt hlow]

theorem Inv.step (h : Inv n a d k s) (hk : k < n) : Inv n a d (k + 1) (step n d s) := by
  obtain ⟨hbit, quo, hlt, hlow, hdiv⟩ := h.bit hk
  have hpre : a / 2 ^ (n - (k + 1)) =
      2 * (quo * d + s.rem) + a / 2 ^ (n - (k + 1)) % 2 := by
    rw [← hdiv, show n - k = n - (k + 1) + 1 by omega, pow_succ, ← Nat.div_div_eq_div_mul]
    omega
  have hrem := h.lt
  by_cases hfit : d ≤ 2 * s.rem + s.q / 2 ^ (n - 1)
  · refine ⟨hk, ?_, 2 * quo + 1, by rw [pow_succ]; omega, ?_, ?_⟩
    · simp only [Div.step, hfit, if_true]
      omega
    · simp only [Div.step, hfit, if_true, hlow]
      ring
    · simp only [Div.step, hfit, if_true]
      rw [hpre, add_mul, one_mul, mul_assoc, ← hbit]
      omega
  · refine ⟨hk, ?_, 2 * quo, by rw [pow_succ]; omega, ?_, ?_⟩
    · simp only [Div.step, hfit, if_false]
      omega
    · simp only [Div.step, hfit, if_false, hlow]
      ring
    · simp only [Div.step, hfit, if_false]
      rw [hpre, mul_assoc, ← hbit]
      omega

theorem Inv.finish (h : Inv n a d n s) : s.q = a / d ∧ s.rem = a % d := by
  obtain ⟨_, hlt, quo, _, hq, hdiv⟩ := h
  simp only [Nat.sub_self, pow_zero, Nat.mod_one, zero_mul, zero_add, Nat.div_one] at hq hdiv
  have hd : 0 < d := by omega
  rw [hq, hdiv]
  refine ⟨?_, ?_⟩
  · rw [mul_comm, Nat.mul_add_div hd, Nat.div_eq_of_lt hlt, add_zero]
  · rw [Nat.mul_add_mod_self_right, Nat.mod_eq_of_lt hlt]

end Div
end Serial
