import Mathlib.Data.BitVec
import Mathlib.Tactic

/-! Reflected Gray codes across a clock domain: a word that mixes two neighbours bit by bit is one
of the two. -/
namespace Gray

def gray {w : ℕ} (x : BitVec w) : BitVec w := x ^^^ (x >>> 1)

variable {w : ℕ} {x y : BitVec w}

theorem getLsbD_gray (x : BitVec w) (i : ℕ) :
    (gray x).getLsbD i = (x.getLsbD i ^^ x.getLsbD (i + 1)) := by
  unfold gray
  rw [BitVec.getLsbD_xor, BitVec.getLsbD_ushiftRight, Nat.add_comm]

theorem gray_injective : Function.Injective (gray (w := w)) := by
  intro x y h
  -- from the top bit down
  have hbits (k : ℕ) : ∀ i, w ≤ i + k → x.getLsbD i = y.getLsbD i := by
    induction k with
    | zero =>
      intro i hi
      rw [BitVec.getLsbD_of_ge x i hi, BitVec.getLsbD_of_ge y i hi]
    | succ k ih =>
      intro i hi
      have hbit := congrArg (BitVec.getLsbD · i) h
      simp only [getLsbD_gray, ih (i + 1) (by omega)] at hbit
      exact Bool.xor_left_inj.mp hbit
  apply BitVec.eq_of_getLsbD_eq
  intro i _
  exact hbits w i (by omega)

theorem gray_xor (x y : BitVec w) : gray (x ^^^ y) = gray x ^^^ gray y := by
  apply BitVec.eq_of_getLsbD_eq
  intro i _
  simp only [getLsbD_gray, BitVec.getLsbD_xor]
  cases x.getLsbD i <;> cases x.getLsbD (i + 1) <;> cases y.getLsbD i <;>
    cases y.getLsbD (i + 1) <;> rfl

variable {i : ℕ}

theorem getLsbD_add_one (x : BitVec w) (hi : i < w) :
    (x + 1#w).getLsbD i = (x.getLsbD i ^^ decide (∀ j < i, x.getLsbD j = true)) := by
  rw [BitVec.getLsbD_add hi]
  cases i with
  | zero => simp [hi]
  | succ i =>
    rw [BitVec.carry_succ_one i x (by omega)]
    simp

theorem gray_add_one_ne (hi : i < w)
    (h : (gray (x + 1#w)).getLsbD i ≠ (gray x).getLsbD i) :
    (∀ j < i, x.getLsbD j = true) ∧ (i + 1 < w → x.getLsbD i = false) := by
  rw [getLsbD_gray, getLsbD_gray, getLsbD_add_one x hi] at h
  by_cases hw : i + 1 < w
  · rw [getLsbD_add_one x hw] at h
    by_cases hlow : ∀ j < i, x.getLsbD j = true
    · refine ⟨hlow, fun _ => ?_⟩
      by_contra hx
      have hall : ∀ j < i + 1, x.getLsbD j = true := by
        intro j hj
        rcases Nat.lt_succ_iff_lt_or_eq.mp hj with hj | rfl
        · exact hlow j hj
        · exact Bool.not_eq_false _ ▸ hx
      rw [decide_eq_true hlow, decide_eq_true hall] at h
      apply h
      cases x.getLsbD i <;> cases x.getLsbD (i + 1) <;> rfl
    · have hno : ¬∀ j < i + 1, x.getLsbD j = true := fun hall =>
        hlow fun j hj => hall j (by omega)
      rw [decide_eq_false hlow, decide_eq_false hno, Bool.xor_false, Bool.xor_false] at h
      exact absurd rfl h
  · refine ⟨?_, fun hlt => absurd hlt hw⟩
    by_contra hlow
    rw [BitVec.getLsbD_of_ge (x + 1#w) (i + 1) (by omega),
      BitVec.getLsbD_of_ge x (i + 1) (by omega), decide_eq_false hlow, Bool.xor_false] at h
    exact h rfl

theorem gray_add_one_unique {j : ℕ} (hi : i < w) (hj : j < w)
    (h : (gray (x + 1#w)).getLsbD i ≠ (gray x).getLsbD i)
    (h' : (gray (x + 1#w)).getLsbD j ≠ (gray x).getLsbD j) : i = j := by
  obtain ⟨hlow, htop⟩ := gray_add_one_ne hi h
  obtain ⟨hlow', htop'⟩ := gray_add_one_ne hj h'
  rcases Nat.lt_trichotomy i j with hij | hij | hij
  · have := htop (by omega)
    rw [hlow' i hij] at this
    cases this
  · exact hij
  · have := htop' (by omega)
    rw [hlow j hij] at this
    cases this

/-- Every bit of `v` is that of the old or of the new word. -/
def Sampled (old new v : BitVec w) : Prop :=
  ∀ i, v.getLsbD i = old.getLsbD i ∨ v.getLsbD i = new.getLsbD i

theorem Sampled.eq_self {v : BitVec w} (h : Sampled x x v) : v = x := by
  apply BitVec.eq_of_getLsbD_eq
  intro i _
  rcases h i with hi | hi <;> exact hi

theorem Sampled.gray_add_one {v : BitVec w} (h : Sampled (gray x) (gray (x + 1#w)) v) :
    v = gray x ∨ v = gray (x + 1#w) := by
  by_cases hall : ∀ i, v.getLsbD i = (gray x).getLsbD i
  · left
    apply BitVec.eq_of_getLsbD_eq
    intro i _
    exact hall i
  · right
    push Not at hall
    obtain ⟨j, hj⟩ := hall
    have hnew : v.getLsbD j = (gray (x + 1#w)).getLsbD j := (h j).resolve_left hj
    have hjw : j < w := by
      by_contra hge
      rw [BitVec.getLsbD_of_ge _ _ (by omega), BitVec.getLsbD_of_ge _ _ (by omega)] at hj
      exact hj rfl
    apply BitVec.eq_of_getLsbD_eq
    intro i hi
    rcases h i with hold | hnew'
    · -- the bit that tells the two apart is `j`, and it is new
      by_contra hne
      have hij : i = j := by
        apply gray_add_one_unique hi hjw
        · rw [← hold]
          exact Ne.symm hne
        · rw [← hnew]
          exact hj
      subst hij
      exact hne hnew
    · exact hnew'

theorem add_twoPow_top (x : BitVec (w + 1)) :
    x + BitVec.twoPow (w + 1) w = x ^^^ BitVec.twoPow (w + 1) w := by
  apply BitVec.eq_of_getLsbD_eq
  intro i hi
  have hcarry : BitVec.carry i x (BitVec.twoPow (w + 1) w) false = false := by
    rw [BitVec.carry, decide_eq_false_iff_not, BitVec.toNat_twoPow]
    have hdvd : 2 ^ w % 2 ^ (w + 1) % 2 ^ i = 0 := by
      rw [Nat.mod_eq_of_lt (Nat.pow_lt_pow_right (by decide) (by omega))]
      exact Nat.mod_eq_zero_of_dvd (Nat.pow_dvd_pow 2 (by omega))
    have := Nat.mod_lt x.toNat (Nat.two_pow_pos i)
    rw [hdvd]
    simp only [Bool.toNat_false]
    omega
  rw [BitVec.getLsbD_add hi, hcarry, BitVec.getLsbD_xor, Bool.xor_false]

theorem getLsbD_gray_add_half (x : BitVec (w + 1)) (hi : i < w + 1) :
    (gray (x + BitVec.twoPow (w + 1) w)).getLsbD i =
      ((gray x).getLsbD i ^^ decide (w ≤ i + 1)) := by
  rw [add_twoPow_top, gray_xor, BitVec.getLsbD_xor, getLsbD_gray (BitVec.twoPow _ _)]
  simp only [BitVec.getLsbD_twoPow]
  congr 1
  rcases Nat.lt_trichotomy (i + 1) w with h | h | h
  · simp [show ¬w = i by omega, show ¬w = i + 1 by omega, show ¬w ≤ i + 1 by omega]
  · simp [h.symm]
  · have : i = w := by omega
    simp [this]

end Gray
