import Mathlib.Algebra.Order.Archimedean.Real.Basic
import Mathlib.Data.Int.Log
import Mathlib.Tactic

/-! Rounding of real numbers to a number of significant bits, and the three bits below the last
place by which an arithmetic unit decides it. -/
namespace Rounding

inductive Mode where
  | nearestEven | towardZero | down | up | nearestAway
  deriving DecidableEq, Repr

open Classical in
/-- The nearer of the two integers around `t`, or `tie` half-way between them. -/
noncomputable def nearest (t : ℝ) (tie : ℤ) : ℤ :=
  if t - ⌊t⌋ < ⌈t⌉ - t then ⌊t⌋ else if ⌈t⌉ - t < t - ⌊t⌋ then ⌈t⌉ else tie

open Classical in
noncomputable def toInt (mode : Mode) (t : ℝ) : ℤ :=
  match mode with
  | .nearestEven => nearest t (if Even ⌊t⌋ then ⌊t⌋ else ⌈t⌉)
  | .towardZero => if 0 ≤ t then ⌊t⌋ else ⌈t⌉
  | .down => ⌊t⌋
  | .up => ⌈t⌉
  | .nearestAway => nearest t (if 0 ≤ t then ⌈t⌉ else ⌊t⌋)

section magnitude
variable {mode : Mode} {s : Bool} {m : ℕ} {f : ℤ} {r : ℝ}

theorem floor_between (h₀ : 0 < r) (h₁ : r < 1) : ⌊(f : ℝ) + r⌋ = f := by
  rw [Int.floor_eq_iff]
  constructor <;> linarith

theorem ceil_between (h₀ : 0 < r) (h₁ : r < 1) : ⌈(f : ℝ) + r⌉ = f + 1 := by
  rw [Int.ceil_eq_iff]
  constructor <;> push_cast <;> linarith

theorem nearest_between (h₀ : 0 < r) (h₁ : r < 1) (tie : ℤ) :
    nearest (f + r) tie = if r < 1 / 2 then f else if 1 / 2 < r then f + 1 else tie := by
  unfold nearest
  rw [floor_between h₀ h₁, ceil_between h₀ h₁]
  push_cast
  congr 1
  · rw [eq_iff_iff]
    constructor <;> intro h <;> linarith
  · congr 1
    rw [eq_iff_iff]
    constructor <;> intro h <;> linarith

/-- Whether a number between `f` and `f + 1`, `r` above `f`, is rounded to the larger. -/
def Raises (mode : Mode) (f : ℤ) (r : ℝ) : Prop :=
  match mode with
  | .nearestEven => 1 / 2 < r ∨ r = 1 / 2 ∧ ¬Even f
  | .towardZero => f < 0
  | .down => False
  | .up => True
  | .nearestAway => 1 / 2 < r ∨ r = 1 / 2 ∧ 0 ≤ f

theorem toInt_between (mode : Mode) (h₀ : 0 < r) (h₁ : r < 1) :
    (Raises mode f r → toInt mode (f + r) = f + 1) ∧
      (¬Raises mode f r → toInt mode (f + r) = f) := by
  have hpos : 0 ≤ (f : ℝ) + r ↔ 0 ≤ f := by
    rw [← Int.floor_nonneg, floor_between h₀ h₁]
  unfold toInt Raises
  cases mode <;>
    simp only [nearest_between h₀ h₁, floor_between h₀ h₁, ceil_between h₀ h₁, hpos] <;> grind

theorem toInt_intCast (mode : Mode) (z : ℤ) : toInt mode z = z := by
  cases mode <;> simp [toInt, nearest]

theorem toInt_floor_or_ceil (mode : Mode) (t : ℝ) : toInt mode t = ⌊t⌋ ∨ toInt mode t = ⌈t⌉ := by
  unfold toInt nearest
  cases mode with
  | nearestEven => dsimp only; split_ifs <;> simp
  | towardZero => dsimp only; split_ifs <;> simp
  | down => exact Or.inl rfl
  | up => exact Or.inr rfl
  | nearestAway => dsimp only; split_ifs <;> simp

/-- Two modes that round `t` apart give the two integers next to it, and `t` is neither. -/
theorem toInt_apart {mode mode' : Mode} {t : ℝ} (h : toInt mode t ≠ toInt mode' t) :
    (toInt mode t = toInt mode' t + 1 ∨ toInt mode' t = toInt mode t + 1) ∧
      ∀ z : ℤ, (z : ℝ) ≠ t := by
  have hle := Int.floor_le_ceil t
  have hlt := Int.ceil_le_floor_add_one t
  have hz : ∀ z : ℤ, (z : ℝ) ≠ t := by
    rintro z rfl
    rw [toInt_intCast, toInt_intCast] at h
    exact h rfl
  refine ⟨?_, hz⟩
  rcases toInt_floor_or_ceil mode t with h₁ | h₁ <;>
    rcases toInt_floor_or_ceil mode' t with h₂ | h₂ <;> omega

def sgn (s : Bool) : ℝ := if s then -1 else 1

@[simp] theorem sgn_false : sgn false = 1 := rfl

@[simp] theorem sgn_true : sgn true = -1 := rfl

theorem sgn_ne_zero (s : Bool) : sgn s ≠ 0 := by cases s <;> simp

theorem abs_sgn (s : Bool) : |sgn s| = 1 := by cases s <;> simp

theorem sgn_of_ne {s s' : Bool} (h : s ≠ s') : sgn s = -sgn s' := by
  cases s <;> cases s' <;> simp at h ⊢

theorem sgn_xor (s s' : Bool) : sgn (s ^^ s') = sgn s * sgn s' := by
  cases s <;> cases s' <;> simp

theorem toInt_sgn (mode : Mode) (s : Bool) (m : ℕ) : (toInt mode (sgn s * m) : ℝ) = sgn s * m := by
  have hx : sgn s * m = (if s then -(m : ℤ) else m : ℤ) := by cases s <;> simp
  rw [hx, toInt_intCast]

/-- Whether the magnitude `m + r`, `0 < r < 1`, goes up to `m + 1`. -/
def GoesUp (mode : Mode) (s : Bool) (m : ℕ) (r : ℝ) : Prop :=
  match mode with
  | .nearestEven => 1 / 2 < r ∨ r = 1 / 2 ∧ ¬Even m
  | .towardZero => False
  | .down => s = true
  | .up => s = false
  | .nearestAway => 1 / 2 ≤ r

theorem goesUp_false : GoesUp mode false m r ↔ Raises mode m r := by
  have hm : (0 : ℤ) ≤ m := m.cast_nonneg
  cases mode with
  | nearestEven => rw [GoesUp, Raises, Int.even_coe_nat]
  | towardZero => exact iff_of_false id hm.not_gt
  | down => simp [GoesUp, Raises]
  | up => simp [GoesUp, Raises]
  | nearestAway =>
    rw [GoesUp, Raises]
    grind

theorem goesUp_true : GoesUp mode true m r ↔ ¬Raises mode (-(m + 1)) (1 - r) := by
  have hev : Even (-((m : ℤ) + 1)) ↔ ¬Even m := by
    rw [even_neg, Int.even_add_one, Int.even_coe_nat]
  have hneg : -((m : ℤ) + 1) < 0 := by omega
  cases mode with
  | nearestEven =>
    rw [Raises, GoesUp, hev]
    grind
  | towardZero => exact iff_of_false id (not_not.mpr hneg)
  | down => simp [GoesUp, Raises]
  | up => simp [GoesUp, Raises]
  | nearestAway =>
    rw [Raises, GoesUp]
    grind

theorem toInt_magnitude (h₀ : 0 < r) (h₁ : r < 1) {up : Bool}
    (hup : up = true ↔ GoesUp mode s m r) :
    (toInt mode (sgn s * (m + r)) : ℝ) = sgn s * (m + up.toNat) := by
  cases s with
  | false =>
    have h := toInt_between mode (f := m) h₀ h₁
    rw [Int.cast_natCast, ← goesUp_false, ← hup] at h
    rw [sgn_false, one_mul, one_mul]
    cases up with
    | false => simp [h.2]
    | true => simp [h.1]
  | true =>
    have h := toInt_between mode (f := -(m + 1)) (r := 1 - r) (by linarith) (by linarith)
    have hx : sgn true * (m + r) = ((-(m + 1) : ℤ) : ℝ) + (1 - r) := by
      rw [sgn_true]
      push_cast
      ring
    rw [← hx, ← goesUp_true, ← hup] at h
    cases up with
    | false =>
      have hr : Raises mode (-(m + 1)) (1 - r) := by
        by_contra hn
        exact absurd (hup.mpr (goesUp_true.mpr hn)) Bool.false_ne_true
      rw [h.1 hr]
      simp
    | true =>
      rw [h.2 rfl]
      simp

end magnitude

noncomputable def pow2 (k : ℤ) : ℝ := 2 ^ k

/-- The distance of the numbers of `p` significant bits around `x`. -/
noncomputable def quantum (p : ℕ) (x : ℝ) : ℝ := pow2 (Int.log 2 |x| - (p - 1 : ℤ))

/-- `x` rounded to `p` significant bits; the exponent has no bound. -/
noncomputable def roundTo (p : ℕ) (mode : Mode) (x : ℝ) : ℝ :=
  toInt mode (x / quantum p x) * quantum p x

variable {k : ℤ}

theorem log_eq {x : ℝ} (h₀ : 2 ^ k ≤ x) (h₁ : x < 2 ^ (k + 1)) : Int.log 2 x = k := by
  have hx : 0 < x := lt_of_lt_of_le (zpow_pos two_pos k) h₀
  have hle := (Int.zpow_le_iff_le_log one_lt_two hx).mp
    (by exact_mod_cast h₀ : ((2 : ℕ) : ℝ) ^ k ≤ x)
  have hlt := (Int.lt_zpow_iff_log_lt one_lt_two hx).mp
    (by exact_mod_cast h₁ : x < ((2 : ℕ) : ℝ) ^ (k + 1))
  omega

theorem quantum_eq {p : ℕ} {s : Bool} {t : ℝ} (h₀ : 2 ^ (p - 1 : ℤ) ≤ t)
    (h₁ : t < 2 ^ (p : ℤ)) : quantum p (sgn s * (t * 2 ^ k)) = 2 ^ k := by
  have hk : (0 : ℝ) < 2 ^ k := zpow_pos two_pos k
  have ht : 0 < t := lt_of_lt_of_le (zpow_pos two_pos _) h₀
  have hl : Int.log 2 |sgn s * (t * 2 ^ k)| = p - 1 + k := by
    rw [abs_mul, abs_sgn, one_mul, abs_of_pos (mul_pos ht hk)]
    apply log_eq
    · rw [zpow_add₀ two_ne_zero]
      gcongr
    · rw [show (p - 1 + k + 1 : ℤ) = p + k by ring, zpow_add₀ two_ne_zero]
      gcongr
  rw [quantum, pow2, hl]
  congr 1
  ring

theorem roundTo_eq {p : ℕ} {mode : Mode} {s : Bool} {t : ℝ} (h₀ : 2 ^ (p - 1 : ℤ) ≤ t)
    (h₁ : t < 2 ^ (p : ℤ)) :
    roundTo p mode (sgn s * (t * 2 ^ k)) = toInt mode (sgn s * t) * 2 ^ k := by
  have hk : (2 : ℝ) ^ k ≠ 0 := zpow_ne_zero k two_ne_zero
  rw [roundTo, quantum_eq h₀ h₁, ← mul_assoc, mul_div_cancel_right₀ _ hk]

theorem two_zpow_add {j : ℤ} (a : ℕ) (h : k = j + a) : (2 : ℝ) ^ k = 2 ^ j * 2 ^ a := by
  rw [h, zpow_add₀ two_ne_zero, zpow_natCast]

/-- The lowest two bits of `n` tell only whether anything of `q` is below them. -/
structure Sticks (n : ℕ) (q : ℝ) : Prop where
  le : (n / 4 * 4 : ℕ) ≤ q
  lt : q < (n / 4 * 4 + 4 : ℕ)
  exact : n % 4 = 0 ↔ q = (n / 4 * 4 : ℕ)

/-- Whether the three bits below the last place of `n` round it up. -/
def increment (mode : Mode) (s : Bool) (n : ℕ) : Bool :=
  match mode with
  | .nearestEven => n % 8 > 4 || (n % 8 == 4 && n / 8 % 2 == 1)
  | .towardZero => false
  | .down => s && n % 8 != 0
  | .up => !s && n % 8 != 0
  | .nearestAway => n % 8 ≥ 4

section sticks
variable {mode : Mode} {s : Bool} {n p : ℕ} {q : ℝ}

theorem Sticks.fraction (h : Sticks n q) : ∃ r : ℝ, q / 8 = (n / 8 : ℕ) + r ∧ 0 ≤ r ∧ r < 1 ∧
    (n % 8 = 0 ↔ r = 0) ∧ (n % 8 < 4 ↔ r < 1 / 2) ∧ (n % 8 = 4 ↔ r = 1 / 2) := by
  have hle := h.le
  have hlt := h.lt
  have hex := h.exact
  refine ⟨q / 8 - (n / 8 : ℕ), by ring, ?_⟩
  by_cases h4 : n % 8 < 4
  · rw [show n / 4 * 4 = n / 8 * 8 by omega] at hle hlt hex
    push_cast at hle hlt hex ⊢
    refine ⟨by linarith, by linarith, ?_, ?_, ?_⟩
    · rw [show n % 8 = 0 ↔ n % 4 = 0 by omega, hex]
      constructor <;> intro h <;> linarith
    · exact iff_of_true h4 (by linarith)
    · exact iff_of_false (by omega) (by intro h; linarith)
  · rw [show n / 4 * 4 = n / 8 * 8 + 4 by omega] at hle hlt hex
    push_cast at hle hlt hex ⊢
    refine ⟨by linarith, by linarith, ?_, ?_, ?_⟩
    · exact iff_of_false (by omega) (by intro h; linarith)
    · exact iff_of_false h4 (by linarith)
    · rw [show n % 8 = 4 ↔ n % 4 = 0 by omega, hex]
      constructor <;> intro h <;> linarith

theorem increment_exact (hn : n % 8 = 0) : increment mode s n = false := by
  cases mode <;> simp [increment, hn]

theorem Sticks.toInt_eighth (h : Sticks n q) (mode : Mode) (s : Bool) :
    (toInt mode (sgn s * (q / 8)) : ℝ) = sgn s * ((n / 8 : ℕ) + (increment mode s n).toNat) ∧
      ((toInt mode (sgn s * (q / 8)) : ℝ) = sgn s * (q / 8) ↔ n % 8 = 0) := by
  obtain ⟨r, hq, h₀, h₁, hz, hlt, heq⟩ := h.fraction
  rw [hq]
  by_cases hn : n % 8 = 0
  · rw [hz.mp hn, add_zero, increment_exact hn, toInt_sgn]
    simp [hn]
  · have hr : 0 < r := lt_of_le_of_ne h₀ fun h => hn (hz.mpr h.symm)
    have hup : increment mode s n = true ↔ GoesUp mode s (n / 8) r := by
      have hgt : 4 < n % 8 ↔ 1 / 2 < r := by
        rw [← not_le, ← not_le, le_iff_lt_or_eq, le_iff_lt_or_eq, hlt, heq]
      have hge : 4 ≤ n % 8 ↔ 1 / 2 ≤ r := by rw [← not_lt, hlt, not_lt]
      cases mode <;> simp [increment, GoesUp, hn, hgt, hge, heq, Nat.even_iff]
    have hi := toInt_magnitude hr h₁ hup
    refine ⟨hi, iff_of_false ?_ hn⟩
    rw [hi]
    intro he
    have hb := mul_left_cancel₀ (sgn_ne_zero s) he
    cases hi : increment mode s n <;> simp only [hi, Bool.toNat_false, Bool.toNat_true] at hb <;>
      push_cast at hb <;> linarith

/-- The rounder: `n` holds the significand of `q * 2 ^ k` and three bits below its last place. -/
theorem Sticks.roundTo (h : Sticks n q) (mode : Mode) (s : Bool) (k : ℤ) (h₀ : 2 ^ (p + 2) ≤ n)
    (h₁ : n < 2 ^ (p + 3)) :
    Rounding.roundTo p mode (sgn s * (q * 2 ^ k)) =
        sgn s * (((n / 8 : ℕ) + (increment mode s n).toNat) * 2 ^ (k + 3)) ∧
      (Rounding.roundTo p mode (sgn s * (q * 2 ^ k)) = sgn s * (q * 2 ^ k) ↔ n % 8 = 0) := by
  have hq : q * 2 ^ k = q / 8 * 2 ^ (k + 3) := by
    rw [two_zpow_add 3 (show k + 3 = k + (3 : ℕ) by omega)]
    ring
  have hp : 2 ^ (p + 2) = 2 ^ p * 4 ∧ 2 ^ (p + 3) = 2 ^ p * 8 := by
    constructor <;> rw [pow_add] <;> rfl
  have hle : (2 ^ p * 4 : ℕ) ≤ q := le_trans (by exact_mod_cast (by omega)) h.le
  have hlt : q < (2 ^ p * 8 : ℕ) := lt_of_lt_of_le h.lt (by exact_mod_cast (by omega))
  obtain ⟨hval, hex⟩ := h.toInt_eighth mode s
  have hr : Rounding.roundTo p mode (sgn s * (q * 2 ^ k)) =
      toInt mode (sgn s * (q / 8)) * 2 ^ (k + 3) := by
    rw [hq]
    apply roundTo_eq
    · rw [zpow_sub_one₀ two_ne_zero, zpow_natCast]
      push_cast at hle
      linarith
    · rw [zpow_natCast]
      push_cast at hlt
      linarith
  refine ⟨?_, ?_⟩
  · rw [hr, hval, mul_assoc]
  · rw [hr, hq, ← mul_assoc, mul_left_inj' (zpow_ne_zero _ two_ne_zero), hex]

end sticks

end Rounding
