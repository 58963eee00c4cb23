import RiscvScratch.Float.Rounding

/-! A number kept as an integer whose last bit is sticky: it is set where the number is not that
integer. Sums and shifts keep it so. -/
namespace Rounding

/-- `q` is the integer `n`, or `n` is odd and `q` between its two neighbours. -/
def Jams (n : ℕ) (q : ℝ) : Prop := q = n ∨ n % 2 = 1 ∧ (n - 1 : ℝ) < q ∧ q < n + 1

theorem or_one (n : ℕ) : n ||| 1 = n / 2 * 2 + 1 := by
  apply Nat.eq_of_testBit_eq
  intro i
  cases i with
  | zero => simp
  | succ i =>
    rw [Nat.testBit_or, Nat.testBit_succ, Nat.testBit_succ, Nat.testBit_succ,
      show (n / 2 * 2 + 1) / 2 = n / 2 by omega]
    simp

theorem or_sticky (n : ℕ) (st : Bool) : n / 2 * 2 + (n.testBit 0 || st).toNat = n ||| st.toNat := by
  cases st with
  | false =>
    rw [Bool.or_false, Nat.toNat_testBit, Bool.toNat_false, Nat.or_zero]
    omega
  | true => rw [Bool.or_true, Bool.toNat_true, or_one]

section jams
variable {n m : ℕ} {q : ℝ} {st : Bool}

theorem Jams.of_floor (h₀ : m ≤ q) (h₁ : q < m + 1) (hst : st = true ↔ q ≠ m) :
    Jams (m ||| st.toNat) q := by
  cases st with
  | false =>
    rw [Bool.toNat_false, Nat.or_zero]
    exact Or.inl (by simpa using hst)
  | true =>
    have hne : q ≠ m := hst.mp rfl
    have hlt : m < q := lt_of_le_of_ne h₀ hne.symm
    rw [Bool.toNat_true, or_one]
    refine Or.inr ⟨by omega, ?_⟩
    have hm : (m / 2 * 2 : ℕ) ≤ (m : ℝ) := by exact_mod_cast (by omega)
    have hm' : (m : ℝ) ≤ (m / 2 * 2 + 1 : ℕ) := by exact_mod_cast (by omega)
    push_cast at hm hm' ⊢
    constructor <;> linarith

theorem Jams.twice_floor (h₀ : m ≤ q) (h₁ : q < m + 1) (hst : st = true ↔ q ≠ m) :
    Jams (m * 2 + st.toNat) (q * 2) := by
  cases st with
  | false =>
    have : q = m := by simpa using hst
    left
    rw [this]
    simp
  | true =>
    have hlt : m < q := lt_of_le_of_ne h₀ (hst.mp rfl).symm
    right
    rw [Bool.toNat_true]
    refine ⟨by omega, ?_⟩
    push_cast
    constructor <;> linarith

theorem Jams.of_div {d : ℕ} (hd : 0 < d) (hst : st = true ↔ n % d ≠ 0) :
    Jams (n / d ||| st.toNat) (n / d : ℝ) ∧ Jams (n / d * 2 + st.toNat) ((n / d : ℝ) * 2) := by
  have hd' : (0 : ℝ) < d := by exact_mod_cast hd
  have hn : (n : ℝ) = d * (n / d : ℕ) + (n % d : ℕ) := by exact_mod_cast (Nat.div_add_mod n d).symm
  have hq : (n / d : ℝ) = (n / d : ℕ) + (n % d : ℕ) / d := by
    rw [div_eq_iff hd'.ne', add_mul, div_mul_cancel₀ _ hd'.ne', mul_comm, ← hn]
  have hr : ((n % d : ℕ) : ℝ) < d := by exact_mod_cast Nat.mod_lt n hd
  have hr₀ : (0 : ℝ) ≤ (n % d : ℕ) / d := by positivity
  have hr₁ : ((n % d : ℕ) : ℝ) / d < 1 := (div_lt_one hd').mpr hr
  have h : st = true ↔ (n / d : ℝ) ≠ (n / d : ℕ) := by
    rw [hst, hq, Ne, Ne, add_eq_left, div_eq_zero_iff, Nat.cast_eq_zero, or_iff_left hd'.ne']
  exact ⟨.of_floor (by linarith) (by linarith) h, .twice_floor (by linarith) (by linarith) h⟩

theorem Jams.halve (h : Jams n q) : Jams (n / 2 ||| n % 2) (q / 2) := by
  have hn : (n : ℝ) = (n / 2 : ℕ) * 2 + (n % 2 : ℕ) := by
    exact_mod_cast (by omega : n = n / 2 * 2 + n % 2)
  rcases Nat.mod_two_eq_zero_or_one n with he | ho
  · rw [he] at hn
    have hq : q = n := h.resolve_right fun h' => by omega
    rw [he, Nat.or_zero]
    left
    rw [hq, hn]
    push_cast
    ring
  · rw [ho] at hn
    push_cast at hn
    have hb : (n - 1 : ℝ) < q ∧ q < n + 1 := by
      rcases h with h | h
      · rw [h]
        constructor <;> linarith
      · exact h.2
    rw [ho]
    refine Jams.of_floor (by linarith) (by linarith) (iff_of_true rfl ?_)
    intro hq
    linarith

theorem Jams.add (h : Jams n q) (hm : m % 2 = 0) : Jams (m + n) (m + q) := by
  rcases h with h | ⟨ho, h₀, h₁⟩
  · exact Or.inl (by rw [h]; push_cast; rfl)
  · refine Or.inr ⟨by omega, ?_⟩
    push_cast
    constructor <;> linarith

theorem Jams.sub (h : Jams n q) (hm : m % 2 = 0) (hle : n ≤ m) : Jams (m - n) (m - q) := by
  have hc : ((m - n : ℕ) : ℝ) = m - n := Nat.cast_sub hle
  rcases h with h | ⟨ho, h₀, h₁⟩
  · exact Or.inl (by rw [h, hc])
  · refine Or.inr ⟨by omega, ?_⟩
    rw [hc]
    constructor <;> linarith

theorem Sticks.refl (n : ℕ) : Sticks n n := by
  refine ⟨?_, ?_, ?_⟩ <;> norm_cast <;> omega

theorem Jams.sticks (h : Jams n q) : Sticks n q := by
  rcases h with h | ⟨ho, h₀, h₁⟩
  · rw [h]
    exact .refl n
  · have hle : (n / 4 * 4 : ℕ) ≤ (n - 1 : ℝ) := by
      rw [le_sub_iff_add_le]
      exact_mod_cast (by omega)
    have hlt : (n + 1 : ℝ) ≤ (n / 4 * 4 + 4 : ℕ) := by exact_mod_cast (by omega)
    exact ⟨by linarith, by linarith, iff_of_false (by omega) (by linarith)⟩

theorem Jams.sticks_double (h : Jams n q) : Sticks (n * 2) (q * 2) := by
  rcases h with h | ⟨ho, h₀, h₁⟩
  · rw [h]
    exact_mod_cast Sticks.refl (n * 2)
  · have hle : (n * 2 / 4 * 4 : ℕ) = (n * 2 - 2 : ℝ) := by
      rw [eq_sub_iff_add_eq]
      exact_mod_cast (by omega)
    refine ⟨by linarith, ?_, iff_of_false (by omega) (by linarith)⟩
    push_cast at hle ⊢
    linarith

end jams

end Rounding
