import Mathlib.Tactic

/-! Reflected cyclic redundancy checks. A shift is linear over exclusive or, so the eight shifts of
a byte split into a table entry and a plain shift. -/
namespace Crc

variable {w : ℕ}

def shift (poly c : BitVec w) : BitVec w :=
  if c.getLsbD 0 then poly ^^^ (c >>> 1) else c >>> 1

def byte (poly c : BitVec w) (b : BitVec 8) : BitVec w := (shift poly)^[8] (c ^^^ b.setWidth w)

def run (poly c : BitVec w) (l : List (BitVec 8)) : BitVec w := l.foldl (byte poly) c

theorem shift_xor (poly a b : BitVec w) : shift poly (a ^^^ b) = shift poly a ^^^ shift poly b := by
  unfold shift
  rw [BitVec.getLsbD_xor, BitVec.ushiftRight_xor_distrib]
  cases a.getLsbD 0 <;> cases b.getLsbD 0 <;> simp only [Bool.xor_false, Bool.xor_true,
    Bool.not_false, Bool.not_true, Bool.false_eq_true, if_true, if_false]
  · ac_rfl
  · ac_rfl
  · rw [show poly ^^^ a >>> 1 ^^^ (poly ^^^ b >>> 1) = poly ^^^ poly ^^^ (a >>> 1 ^^^ b >>> 1) by
      ac_rfl, BitVec.xor_self, BitVec.zero_xor]

theorem shift_iterate_xor (poly : BitVec w) (n : ℕ) (a b : BitVec w) :
    (shift poly)^[n] (a ^^^ b) = (shift poly)^[n] a ^^^ (shift poly)^[n] b := by
  induction n generalizing a b with
  | zero => rfl
  | succ n ih => rw [Function.iterate_succ_apply, shift_xor, ih]; rfl

theorem shift_iterate_of_clear {poly c : BitVec w} {n : ℕ}
    (h : ∀ i < n, c.getLsbD i = false) : (shift poly)^[n] c = c >>> n := by
  induction n with
  | zero => simp
  | succ n ih =>
    have hn : (c >>> n).getLsbD 0 = false := by
      rw [BitVec.getLsbD_ushiftRight]
      exact h n (Nat.lt_succ_self n)
    rw [Function.iterate_succ_apply', ih fun i hi => h i (Nat.lt_succ_of_lt hi), shift, hn,
      if_neg Bool.false_ne_true, BitVec.shiftRight_add]

theorem split_low (n : ℕ) (c : BitVec w) :
    c = (c.setWidth n).setWidth w ^^^ ((c >>> n) <<< n) := by
  apply BitVec.eq_of_getLsbD_eq
  intro i hi
  simp only [BitVec.getLsbD_xor, BitVec.getLsbD_setWidth, BitVec.getLsbD_shiftLeft,
    BitVec.getLsbD_ushiftRight]
  by_cases h : i < n
  · simp [h, hi]
  · simp [h, hi, Nat.add_sub_cancel' (Nat.not_lt.mp h)]

theorem byte_eq_table (poly c : BitVec w) (b : BitVec 8) :
    byte poly c b =
      (shift poly)^[8] (((c ^^^ b.setWidth w).setWidth 8).setWidth w) ^^^ (c >>> 8) := by
  have hclear : ∀ i < 8, (((c ^^^ b.setWidth w) >>> 8) <<< 8).getLsbD i = false := by
    intro i hi
    rw [BitVec.getLsbD_shiftLeft]
    simp [hi]
  have hshift : ((c ^^^ b.setWidth w) >>> 8) <<< 8 >>> 8 = c >>> 8 := by
    apply BitVec.eq_of_getLsbD_eq
    intro i hi
    simp only [BitVec.getLsbD_ushiftRight, BitVec.getLsbD_shiftLeft, BitVec.getLsbD_xor,
      BitVec.getLsbD_setWidth]
    by_cases h : 8 + i < w
    · simp [h]
    · simp [h, BitVec.getLsbD_of_ge c _ (Nat.not_lt.mp h)]
  conv_lhs => rw [byte, split_low 8 (c ^^^ b.setWidth w), shift_iterate_xor,
    shift_iterate_of_clear hclear, hshift]

end Crc
