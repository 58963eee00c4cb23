import RiscvScratch.Crc.Reflected

/-! What a CRC always tells: a change confined to a window of bits no longer than its register. -/
namespace Crc

variable {w : ℕ} {poly : BitVec w}

/-- The bits of a message, the low bit of each byte first. -/
def bits (l : List (BitVec 8)) : List Bool := l.flatMap fun b => (List.range 8).map b.getLsbD

/-- `y` is `x` changed in at least one of some `n` successive bits, and nowhere else. -/
def Burst (n : ℕ) (x y : List (BitVec 8)) : Prop :=
  ∃ p u v q, bits x = p ++ u ++ q ∧ bits y = p ++ v ++ q ∧ u ≠ v ∧ u.length = v.length ∧
    u.length ≤ n

def low (b : Bool) : BitVec w := (BitVec.ofBool b).setWidth w

def bit (poly c : BitVec w) (b : Bool) : BitVec w := shift poly (c ^^^ low b)

def window : List Bool → BitVec w
  | [] => 0#w
  | b :: l => low b ^^^ window l <<< 1

theorem getLsbD_window (l : List Bool) (i : ℕ) :
    (window l : BitVec w).getLsbD i = (decide (i < w) && l.getD i false) := by
  induction l generalizing i with
  | nil => simp [window]
  | cons b l ih =>
    rw [window, BitVec.getLsbD_xor, BitVec.getLsbD_shiftLeft, ih, low, BitVec.getLsbD_setWidth]
    cases i with
    | zero => simp
    | succ i =>
      by_cases h : i + 1 < w
      · simp [h, Nat.lt_of_succ_lt h]
      · simp [h]

theorem window_injective {u v : List Bool} (h : (window u : BitVec w) = window v)
    (hlen : u.length = v.length) (hw : u.length ≤ w) : u = v := by
  apply List.ext_getElem hlen
  intro i hu hv
  have hi := congrArg (·.getLsbD i) h
  simp only [getLsbD_window] at hi
  simpa [hu, hv, hu.trans_le hw] using hi

theorem shift_window {l : List Bool} (h : l.length < w) :
    shift poly (window l <<< 1) = window l := by
  have hlow : (window l <<< 1 : BitVec w).getLsbD 0 = false := by simp
  rw [shift, hlow, if_neg Bool.false_ne_true]
  apply BitVec.eq_of_getLsbD_eq
  intro i hi
  rw [BitVec.getLsbD_ushiftRight, BitVec.getLsbD_shiftLeft, getLsbD_window, getLsbD_window]
  by_cases hn : 1 + i < w
  · simp [hn, hi]
  · have : l.length ≤ i := by omega
    simp [hn, List.getElem?_eq_none this]

theorem foldl_bit (poly c : BitVec w) {l : List Bool} (h : l.length ≤ w) :
    l.foldl (bit poly) c = (shift poly)^[l.length] (c ^^^ window l) := by
  induction l generalizing c with
  | nil => rw [window, BitVec.xor_zero]; rfl
  | cons b l ih =>
    rw [List.length_cons] at h ⊢
    rw [List.foldl_cons, ih _ (Nat.le_of_succ_le h), Function.iterate_succ_apply, window,
      ← BitVec.xor_assoc, shift_xor, shift_window h, bit]

theorem run_bits (hw : 8 ≤ w) (c : BitVec w) (l : List (BitVec 8)) :
    run poly c l = (bits l).foldl (bit poly) c := by
  induction l generalizing c with
  | nil => rfl
  | cons b l ih =>
    have hbyte : (window ((List.range 8).map b.getLsbD) : BitVec w) = b.setWidth w := by
      apply BitVec.eq_of_getLsbD_eq
      intro i hi
      rw [getLsbD_window, BitVec.getLsbD_setWidth]
      by_cases h : i < 8
      · simp [h]
      · simp [h, BitVec.getLsbD_of_ge b i (by omega)]
    have hfold := foldl_bit poly c (l := (List.range 8).map b.getLsbD) (by simpa)
    rw [hbyte] at hfold
    rw [run, List.foldl_cons, bits, List.flatMap_cons, List.foldl_append, hfold]
    exact ih _

theorem shift_injective (hw : 0 < w) (hp : poly.getLsbD (w - 1) = true) :
    Function.Injective (shift poly) := by
  intro a b h
  have hd : shift poly (a ^^^ b) = 0#w := by rw [shift_xor, h, BitVec.xor_self]
  have hbits (i : ℕ) : (shift poly (a ^^^ b)).getLsbD i = false := by rw [hd, BitVec.getLsbD_zero]
  unfold shift at hbits
  cases h0 : (a ^^^ b).getLsbD 0 with
  | true =>
    -- the top bit comes from the polynomial alone
    have htop := hbits (w - 1)
    rw [h0, if_pos rfl, BitVec.getLsbD_xor, hp, BitVec.getLsbD_ushiftRight,
      BitVec.getLsbD_of_ge _ _ (by omega)] at htop
    exact absurd htop (by decide)
  | false =>
    rw [h0, if_neg Bool.false_ne_true] at hbits
    apply BitVec.xor_eq_zero_iff.mp
    apply BitVec.eq_of_getLsbD_eq
    intro i _
    rw [BitVec.getLsbD_zero]
    cases i with
    | zero => exact h0
    | succ i =>
      have := hbits i
      rwa [BitVec.getLsbD_ushiftRight, Nat.add_comm] at this

/-- A burst no longer than the register changes the CRC. -/
theorem run_ne_of_burst (hw : 8 ≤ w) (hp : poly.getLsbD (w - 1) = true) (c : BitVec w)
    {x y : List (BitVec 8)} (h : Burst w x y) : run poly c x ≠ run poly c y := by
  obtain ⟨p, u, v, q, hx, hy, hne, hlen, hu⟩ := h
  have hinj := shift_injective (by omega) hp
  have hbit (b : Bool) : Function.Injective (bit poly · b) := fun c d h =>
    (BitVec.xor_left_inj (low b)).mp (hinj h)
  have hfold (l : List Bool) : Function.Injective fun c => l.foldl (bit poly) c := by
    induction l with
    | nil => exact Function.injective_id
    | cons b l ih => exact ih.comp (hbit b)
  rw [run_bits hw, run_bits hw, hx, hy, List.foldl_append, List.foldl_append, List.foldl_append,
    List.foldl_append]
  intro heq
  have hwin := hfold q heq
  generalize p.foldl (bit poly) c = d at hwin
  rw [foldl_bit poly d hu, foldl_bit poly d (hlen.symm.trans_le hu), ← hlen] at hwin
  exact hne (window_injective ((BitVec.xor_right_inj d).mp (hinj.iterate _ hwin)) hlen hu)

end Crc
