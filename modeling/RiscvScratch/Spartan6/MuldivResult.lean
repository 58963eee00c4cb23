import RiscvScratch.Spartan6.Muldiv

/-! The sequential unit computes the RV32M results of the combinational ALU. -/
namespace RiscvScratch.S6Muldiv

def mulState (s : State) : Serial.Mul.State := ⟨s.acc.toInt, s.q.toNat⟩

theorem toInt_mulSum (s : State) : (mulSum s).toInt =
    if s.q.toNat % 2 = 1 then
      (if last s && s.msignQ then s.acc.toInt - s.m.toInt else s.acc.toInt + s.m.toInt)
    else s.acc.toInt := by
  have hacc := BitVec.two_mul_toInt_lt (x := s.acc)
  have hacc' := BitVec.le_two_mul_toInt (x := s.acc)
  have hm := BitVec.two_mul_toInt_lt (x := s.m)
  have hm' := BitVec.le_two_mul_toInt (x := s.m)
  have hq : s.q.getLsbD 0 = decide (s.q.toNat % 2 = 1) := by
    simp [BitVec.getLsbD, Nat.testBit_zero]
  have hext (x : BitVec 33) : (x.signExtend 34).toInt = x.toInt :=
    BitVec.toInt_signExtend_of_le (by omega)
  unfold mulSum mulSub
  rw [hq]
  by_cases h1 : s.q.toNat % 2 = 1
  · by_cases h2 : (last s && s.msignQ) = true
    · simp only [h1, h2, decide_true, Bool.and_true, if_true, BitVec.toInt_sub, hext]
      rw [Int.bmod_eq_of_le] <;> omega
    · simp only [h1, h2, decide_true, Bool.and_true, if_true, if_false, Bool.false_eq_true,
        BitVec.toInt_add, hext]
      rw [Int.bmod_eq_of_le] <;> omega
  · simp only [h1, decide_false, if_false, hext, Bool.false_eq_true]

theorem toInt_extract_one (x : BitVec 34) : (x.extractLsb' 1 33).toInt = x.toInt / 2 := by
  have h := x.isLt
  rw [BitVec.toInt_eq_toNat_cond, BitVec.toInt_eq_toNat_cond, BitVec.extractLsb'_toNat,
    Nat.shiftRight_eq_div_pow]
  omega

theorem toNat_append_add {n k : ℕ} (x : BitVec n) (y : BitVec k) :
    (x ++ y).toNat = x.toNat * 2 ^ k + y.toNat := by
  rw [BitVec.toNat_append, ← Nat.shiftLeft_add_eq_or_of_lt y.isLt, Nat.shiftLeft_eq]

theorem toNat_shift_in (x : BitVec 34) (y : Word) :
    (x.extractLsb' 0 1 ++ y.extractLsb' 1 31 : BitVec 32).toNat =
      (x.toInt % 2).toNat * 2 ^ 31 + y.toNat / 2 := by
  have h := x.isLt
  have hy := y.isLt
  rw [toNat_append_add, BitVec.extractLsb'_toNat, BitVec.extractLsb'_toNat,
    BitVec.toInt_eq_toNat_cond, Nat.shiftRight_eq_div_pow, Nat.shiftRight_eq_div_pow]
  omega

variable {s : State}

theorem iterate_mul (h : s.opQ.getLsbD 2 = false) : mulState (iterate s) =
    Serial.Mul.step 32 s.m.toInt (last s && s.msignQ) (mulState s) := by
  simp only [mulState, iterate, Serial.Mul.step, h, if_false, Bool.false_eq_true,
    toInt_extract_one, toNat_shift_in, toInt_mulSum]
  rfl

structure SameJob (s s' : State) : Prop where
  opQ : s'.opQ = s.opQ
  m : s'.m = s.m
  msignQ : s'.msignQ = s.msignQ
  qnegQ : s'.qnegQ = s.qnegQ
  rnegQ : s'.rnegQ = s.rnegQ
  shortcut : s'.shortcut = s.shortcut

theorem iterate_sameJob (k : ℕ) (s : State) : SameJob s (iterate^[k] s) := by
  induction k with
  | zero => exact ⟨rfl, rfl, rfl, rfl, rfl, rfl⟩
  | succ k ih =>
    rw [Function.iterate_succ_apply']
    exact ⟨ih.opQ, ih.m, ih.msignQ, ih.qnegQ, ih.rnegQ, ih.shortcut⟩

theorem iterate_count (h : s.count = 0#6) (k : ℕ) (hk : k < 64) :
    (iterate^[k] s).count = BitVec.ofNat 6 k := by
  induction k with
  | zero => exact h
  | succ k ih =>
    rw [Function.iterate_succ_apply']
    show (iterate^[k] s).count + 1#6 = _
    rw [ih (by omega)]
    apply BitVec.eq_of_toNat_eq
    simp

theorem iterate_last (h : s.count = 0#6) (k : ℕ) (hk : k < 64) :
    last (iterate^[k] s) = decide (k = 31) := by
  rw [last, iterate_count h k hk, beq_eq_decide]
  congr 1
  rw [← BitVec.toNat_inj]
  simp [Nat.mod_eq_of_lt hk]

theorem iterate_state (h : s.count = 0#6) (hs : s.state = .run) (k : ℕ) (hk : k ≤ 32) :
    (iterate^[k] s).state = if k = 32 then .fix else .run := by
  cases k with
  | zero => exact hs
  | succ k =>
    rw [Function.iterate_succ_apply']
    show (if last (iterate^[k] s) then Phase.fix else .run) = _
    simp [iterate_last h k (by omega)]

section mul
variable {s : State} (hop : s.opQ.getLsbD 2 = false) (hc : s.count = 0#6) (ha : s.acc = 0#33)
include hop hc ha

omit ha in
theorem mul_step (k : ℕ) (hk : k < 32) : mulState (iterate^[k + 1] s) =
    Serial.Mul.step 32 s.m.toInt (decide (k = 31) && s.msignQ) (mulState (iterate^[k] s)) := by
  have hj := iterate_sameJob k s
  have hop' : (iterate^[k] s).opQ.getLsbD 2 = false := by rw [hj.opQ, hop]
  rw [Function.iterate_succ_apply', iterate_mul hop', hj.m, hj.msignQ, iterate_last hc k (by omega)]

theorem mul_inv (k : ℕ) (hk : k < 32) :
    Serial.Mul.Inv 32 s.m.toInt s.q.toNat k (mulState (iterate^[k] s)) := by
  induction k with
  | zero =>
    have h0 : mulState s = ⟨0, s.q.toNat⟩ := by simp [mulState, ha]
    rw [Function.iterate_zero_apply, h0]
    exact Serial.Mul.Inv.start
  | succ k ih =>
    rw [mul_step hop hc k (by omega), decide_eq_false (by omega), Bool.false_and]
    exact (ih (by omega)).step_add (by omega)

theorem mul_finish : (iterate^[32] s).acc.toInt * 2 ^ 32 + (iterate^[32] s).q.toNat =
    s.m.toInt * (if s.msignQ then s.q.toInt else s.q.toNat) := by
  have hi := mul_inv hop hc ha 31 (by omega)
  have hstep := mul_step hop hc 31 (by omega)
  rw [decide_eq_true rfl, Bool.true_and] at hstep
  have hq := s.q.isLt
  have hacc : (iterate^[32] s).acc.toInt = _ := congrArg Serial.Mul.State.acc hstep
  have hquo : (iterate^[32] s).q.toNat = _ := congrArg Serial.Mul.State.q hstep
  rw [hacc, hquo]
  cases hm : s.msignQ with
  | true =>
    rw [(hi.step_sub hq).2, if_pos rfl, BitVec.toInt_eq_toNat_cond s.q]
    congr 1
    omega
  | false =>
    obtain ⟨_, hi, _, hs, hp⟩ := hi.step_add (by omega)
    rw [hs]
    simp only [Nat.sub_self, pow_zero, mul_one, Nat.div_eq_of_lt hq, add_zero,
      Nat.mod_eq_of_lt hq] at hp ⊢
    simpa using hp

end mul

def divState (s : State) : Serial.Div.State := ⟨s.acc.toNat, s.q.toNat⟩

theorem iterate_div (h : s.opQ.getLsbD 2 = true) (hr : s.acc.toNat < s.m.toNat)
    (hm : s.m.toNat < 2 ^ 32) :
    divState (iterate s) = Serial.Div.step 32 s.m.toNat (divState s) := by
  have hq := s.q.isLt
  have hsh : (remSh s).toNat = 2 * s.acc.toNat + s.q.toNat / 2 ^ 31 := by
    rw [remSh, toNat_append_add, BitVec.extractLsb'_toNat, BitVec.extractLsb'_toNat,
      Nat.shiftRight_eq_div_pow, Nat.shiftRight_eq_div_pow]
    omega
  have hdif : (remDif s).toNat = (2 ^ 33 - s.m.toNat + (remSh s).toNat) % 2 ^ 33 :=
    BitVec.toNat_sub _ _
  have hfit : remFit s = decide (s.m.toNat ≤ (remSh s).toNat) := by
    rw [remFit, BitVec.msb_eq_decide, hdif]
    simp only [← decide_not, decide_eq_decide]
    omega
  by_cases hle : s.m.toNat ≤ (remSh s).toNat
  · have hfit' : remFit s = true := hfit.trans (decide_eq_true hle)
    have hle' := hsh ▸ hle
    simp only [divState, iterate, h, hfit', Serial.Div.step, if_true, toNat_append_add,
      BitVec.extractLsb'_toNat, Nat.shiftRight_zero, Nat.reduceSub, hle', hdif, hsh]
    refine congrArg₂ _ ?_ rfl
    omega
  · have hfit' : remFit s = false := hfit.trans (decide_eq_false hle)
    have hle' := hsh ▸ hle
    simp only [divState, iterate, h, hfit', Serial.Div.step, if_true, if_false, toNat_append_add,
      BitVec.extractLsb'_toNat, Nat.shiftRight_zero, Nat.reduceSub, hle', hsh,
      Bool.false_eq_true]
    rfl

section div
variable {s : State} (hop : s.opQ.getLsbD 2 = true) (ha : s.acc = 0#33)
  (hm : 0 < s.m.toNat) (hm' : s.m.toNat < 2 ^ 32)
include hop ha hm hm'

theorem div_inv (k : ℕ) (hk : k ≤ 32) :
    Serial.Div.Inv 32 s.q.toNat s.m.toNat k (divState (iterate^[k] s)) := by
  induction k with
  | zero =>
    have h0 : divState s = ⟨0, s.q.toNat⟩ := by simp [divState, ha]
    rw [Function.iterate_zero_apply, h0]
    exact Serial.Div.Inv.start s.q.isLt hm
  | succ k ih =>
    have hj := iterate_sameJob k s
    have ih := ih (by omega)
    have hop' : (iterate^[k] s).opQ.getLsbD 2 = true := by rw [hj.opQ, hop]
    have hlt : (iterate^[k] s).acc.toNat < (iterate^[k] s).m.toNat := by
      rw [hj.m]
      exact ih.lt
    rw [Function.iterate_succ_apply', iterate_div hop' hlt (by rw [hj.m]; exact hm'), hj.m]
    exact ih.step (by omega)

theorem div_finish : (iterate^[32] s).q.toNat = s.q.toNat / s.m.toNat ∧
    (iterate^[32] s).acc.toNat = s.q.toNat % s.m.toNat :=
  (div_inv hop ha hm hm' 32 le_rfl).finish

end div

/-- The unit's registers hold the low 64 bits of the integer `x`. -/
structure HoldsProduct (s : State) (x : ℤ) : Prop where
  low : s.q = (BitVec.ofInt 64 x).extractLsb' 0 32
  high : s.acc.extractLsb' 0 32 = (BitVec.ofInt 64 x).extractLsb' 32 32

theorem holdsProduct_of_sum {x : ℤ} (h : s.acc.toInt * 2 ^ 32 + s.q.toNat = x) :
    HoldsProduct s x := by
  have hq := s.q.isLt
  have ha := s.acc.isLt
  rw [BitVec.toInt_eq_toNat_cond] at h
  constructor
  · apply BitVec.eq_of_toNat_eq
    rw [BitVec.extractLsb'_toNat, BitVec.toNat_ofInt, Nat.shiftRight_zero]
    omega
  · apply BitVec.eq_of_toNat_eq
    rw [BitVec.extractLsb'_toNat, BitVec.extractLsb'_toNat, BitVec.toNat_ofInt,
      Nat.shiftRight_zero, Nat.shiftRight_eq_div_pow]
    omega

def value (signed : Bool) (x : Word) : ℤ := if signed then x.toInt else x.toNat

theorem toInt_withSign (signed : Bool) (x : Word) : (withSign signed x).toInt = value signed x := by
  have hx := x.isLt
  have happ : (withSign signed x).toNat = (signed && x.msb).toNat * 2 ^ 32 + x.toNat := by
    rw [withSign, toNat_append_add, BitVec.toNat_ofBool]
  cases signed with
  | false =>
    simp only [Bool.false_and, Bool.toNat_false, zero_mul, zero_add] at happ
    simp only [value, Bool.false_eq_true, if_false, BitVec.toInt_eq_toNat_cond, happ]
    omega
  | true =>
    rw [Bool.true_and, BitVec.msb_eq_decide] at happ
    simp only [value, if_true]
    rw [BitVec.toInt_eq_toNat_cond, BitVec.toInt_eq_toNat_cond]
    by_cases h : 2 ^ (32 - 1) ≤ x.toNat
    · simp only [h, decide_true, Bool.toNat_true] at happ
      omega
    · simp only [h, decide_false, Bool.toNat_false] at happ
      omega

theorem fastProd_eq (op : BitVec 3) (a b : Word) :
    fastProd op a b = BitVec.ofInt 64 (value (aSigned op) a * value (bSigned op) b) := by
  have hcut (x : ℤ) : (BitVec.ofInt 66 x).extractLsb' 0 64 = BitVec.ofInt 64 x := by
    apply BitVec.eq_of_toNat_eq
    rw [BitVec.extractLsb'_toNat, BitVec.toNat_ofInt, BitVec.toNat_ofInt, Nat.shiftRight_zero]
    omega
  rw [fastProd, BitVec.signExtend, BitVec.signExtend, ← BitVec.ofInt_mul, hcut, toInt_withSign,
    toInt_withSign]

theorem alu_products (a b : Word) :
    a.signExtend 64 * b.signExtend 64 = BitVec.ofInt 64 (a.toInt * b.toInt) ∧
    a.signExtend 64 * b.zeroExtend 64 = BitVec.ofInt 64 (a.toInt * b.toNat) ∧
    a.zeroExtend 64 * b.zeroExtend 64 = BitVec.ofInt 64 (a.toNat * b.toNat) := by
  have hz (x : Word) : x.zeroExtend 64 = BitVec.ofInt 64 x.toNat := by
    rw [BitVec.ofInt_natCast, BitVec.ofNat_toNat]
  simp only [hz, BitVec.signExtend, BitVec.ofInt_mul, and_self]

theorem extract_low (x : ℤ) : (BitVec.ofInt 64 x).extractLsb' 0 32 = BitVec.ofInt 32 x := by
  apply BitVec.eq_of_toNat_eq
  rw [BitVec.extractLsb'_toNat, BitVec.toNat_ofInt, BitVec.toNat_ofInt, Nat.shiftRight_zero]
  omega

theorem low_signless (a b : Word) : (BitVec.ofInt 64 (a.toInt * b.toInt)).extractLsb' 0 32 =
    (BitVec.ofInt 64 (a.toNat * b.toNat)).extractLsb' 0 32 := by
  rw [extract_low, extract_low, BitVec.ofInt_mul, BitVec.ofInt_mul]
  simp

theorem mul_ops : ∀ op : BitVec 3, op.getLsbD 2 = false →
    op = 0b000#3 ∨ op = 0b001#3 ∨ op = 0b010#3 ∨ op = 0b011#3 := by decide

theorem mul_result {op : BitVec 3} {a b : Word} (hop : s.opQ = op)
    (hmul : op.getLsbD 2 = false)
    (h : HoldsProduct s (value (aSigned op) a * value (bSigned op) b)) :
    result s = aluMulDiv a a b (aluMulDivOp op) := by
  obtain ⟨h1, h2, h3⟩ := alu_products a b
  rw [result, hop, hmul, if_neg Bool.false_ne_true]
  obtain rfl | rfl | rfl | rfl := mul_ops op hmul
  · rw [if_pos (by decide), h.low]
    simp only [aluMulDiv, aluMulDivOp, h1]
    exact (low_signless a b).symm
  · rw [if_neg (by decide), h.high]
    simp only [aluMulDiv, aluMulDivOp, h1]
    rfl
  · rw [if_neg (by decide), h.high]
    simp only [aluMulDiv, aluMulDivOp, h2]
    rfl
  · rw [if_neg (by decide), h.high]
    simp only [aluMulDiv, aluMulDivOp, h3]
    rfl

structure HoldsQuotient (s : State) (op : BitVec 3) (a b : Word) : Prop where
  opQ : s.opQ = op
  qnegQ : s.qnegQ = (negA op a ^^ negB op b)
  rnegQ : s.rnegQ = negA op a
  shortcut : s.shortcut = false
  quo : s.q = magA op a / magB op b
  rem : s.acc.extractLsb' 0 32 = magA op a % magB op b

theorem div_ops : ∀ op : BitVec 3, op.getLsbD 2 = true →
    op = 0b100#3 ∨ op = 0b101#3 ∨ op = 0b110#3 ∨ op = 0b111#3 := by decide

theorem div_result {op : BitVec 3} {a b : Word} (hdiv : op.getLsbD 2 = true)
    (hz : divZero op b = false) (ho : divOvf op a b = false) (h : HoldsQuotient s op a b) :
    result s = aluMulDiv a a b (aluMulDivOp op) := by
  have hb : (b == 0#32) = false := by simpa [divZero, inDiv, hdiv] using hz
  rw [result, h.opQ, hdiv, if_pos rfl]
  simp only [remFixed, quoFixed, h.quo, h.rem, h.qnegQ, h.rnegQ, h.shortcut, Bool.not_false,
    Bool.and_true]
  have hneg (x : Word) : ~~~x + 1#32 = -x := (BitVec.neg_eq_not_add x).symm
  obtain rfl | rfl | rfl | rfl := div_ops op hdiv
  · have ho' : (a == 0x80000000#32 && b == 0xFFFFFFFF#32) = false := by
      simpa [divOvf, inDiv] using ho
    rw [if_neg (by decide)]
    have hs : aSigned 0b100#3 = true ∧ bSigned 0b100#3 = true := by decide
    simp only [aluMulDiv, aluMulDivOp, hb, ho', magA, magB, negA, negB, hs, hneg, BitVec.sdiv]
    cases a.msb <;> cases b.msb <;> rfl
  · rw [if_neg (by decide)]
    have hs : aSigned 0b101#3 = false ∧ bSigned 0b101#3 = false := by decide
    simp only [aluMulDiv, aluMulDivOp, hb, magA, magB, negA, negB, hs]
    rfl
  · have ho' : (a == 0x80000000#32 && b == 0xFFFFFFFF#32) = false := by
      simpa [divOvf, inDiv] using ho
    rw [if_pos (by decide)]
    have hs : aSigned 0b110#3 = true ∧ bSigned 0b110#3 = true := by decide
    simp only [aluMulDiv, aluMulDivOp, hb, ho', magA, magB, negA, negB, hs, hneg, BitVec.srem]
    cases a.msb <;> cases b.msb <;> rfl
  · rw [if_pos (by decide)]
    have hs : aSigned 0b111#3 = false ∧ bSigned 0b111#3 = false := by decide
    simp only [aluMulDiv, aluMulDivOp, hb, magA, magB, negA, negB, hs]
    rfl

/-- The unit is busy for `n` more cycles and then shows `x`. -/
structure Delivers (s : State) (n : ℕ) (x : Word) : Prop where
  busy : ∀ k < n, (iterate^[k] s).state = .run
  done : (iterate^[n] s).state = .fix
  result : result (iterate^[n] s) = x

theorem Delivers.of_iterations {x : Word} (hc : s.count = 0#6) (hs : s.state = .run)
    (h : S6Muldiv.result (iterate^[32] s) = x) : Delivers s 32 x := by
  refine ⟨fun k hk => ?_, ?_, h⟩
  · rw [iterate_state hc hs k hk.le, if_neg hk.ne]
  · rw [iterate_state hc hs 32 le_rfl, if_pos rfl]

section load
variable {op : BitVec 3} {a b : Word} {mulDsp : Bool} {s : State}

theorem load_serial (h : inDiv op = false) : load op a b false s = { latch op a b s with
    acc := 0#33, q := b, m := withSign (aSigned op) a, state := .run } := by
  simp [load, h]

theorem load_dsp (h : inDiv op = false) : load op a b true s = { latch op a b s with
    acc := 0#1 ++ (fastProd op a b).extractLsb' 32 32
    q := (fastProd op a b).extractLsb' 0 32, state := .fix } := by
  simp [load, h]

theorem load_divide (h : inDiv op = true) (hz : divZero op b = false)
    (ho : divOvf op a b = false) : load op a b mulDsp s = { latch op a b s with
    acc := 0#33, q := magA op a, m := 0#1 ++ magB op b, state := .run } := by
  simp [load, h, hz, ho]

theorem load_zero (h : inDiv op = true) (hz : divZero op b = true) :
    load op a b mulDsp s = { latch op a b s with
      acc := 0#1 ++ a, q := 0xFFFFFFFF#32, m := 0#1 ++ magB op b, state := .fix } := by
  simp [load, h, hz]

theorem load_ovf (h : inDiv op = true) (hz : divZero op b = false)
    (ho : divOvf op a b = true) : load op a b mulDsp s = { latch op a b s with
      acc := 0#33, q := 0x80000000#32, m := 0#1 ++ magB op b, state := .fix } := by
  simp [load, h, hz, ho]

theorem extract_append_low {n : ℕ} (x : BitVec n) (y : Word) : (x ++ y).extractLsb' 0 32 = y := by
  apply BitVec.eq_of_toNat_eq
  rw [BitVec.extractLsb'_toNat, toNat_append_add, Nat.shiftRight_zero,
    Nat.mul_add_mod_self_right, Nat.mod_eq_of_lt y.isLt]

theorem load_mul_delivers (mulDsp : Bool) (hmul : op.getLsbD 2 = false) :
    ∃ n ≤ 32, Delivers (load op a b mulDsp s) n (aluMulDiv a a b (aluMulDivOp op)) := by
  have hin : inDiv op = false := hmul
  cases mulDsp with
  | true =>
    rw [load_dsp hin]
    refine ⟨0, by omega, fun k hk => absurd hk (Nat.not_lt_zero k), rfl, ?_⟩
    refine mul_result rfl hmul ⟨?_, ?_⟩
    · exact congrArg (BitVec.extractLsb' 0 32) (fastProd_eq op a b)
    · rw [← fastProd_eq]
      exact extract_append_low _ _
  | false =>
    rw [load_serial hin]
    refine ⟨32, le_rfl, Delivers.of_iterations rfl rfl ?_⟩
    refine mul_result (iterate_sameJob 32 _).opQ hmul (holdsProduct_of_sum ?_)
    rw [mul_finish hmul rfl rfl, toInt_withSign]
    rfl

theorem mag_pos (hz : divZero op b = false) (hdiv : op.getLsbD 2 = true) :
    0 < (magB op b).toNat := by
  have hb : b ≠ 0#32 := by simpa [divZero, inDiv, hdiv] using hz
  have hm : magB op b ≠ 0#32 := by
    unfold magB
    split_ifs
    · rw [← BitVec.neg_eq_not_add]
      simpa using hb
    · exact hb
  have := BitVec.toNat_ne.mp hm
  simpa [Nat.pos_iff_ne_zero] using this

theorem Delivers.of_shortcut {s : State} (hst : s.state = .fix) (hop : s.opQ = op)
    (hdiv : op.getLsbD 2 = true) (hs : s.shortcut = true) :
    Delivers s 0 (if op.getLsbD 1 then s.acc.extractLsb' 0 32 else s.q) := by
  refine ⟨fun k hk => absurd hk (Nat.not_lt_zero k), hst, ?_⟩
  simp only [Function.iterate_zero_apply, S6Muldiv.result, hop, hdiv, remFixed, quoFixed, hs,
    Bool.not_true, Bool.and_false, if_true, if_false, Bool.false_eq_true]

theorem load_div_delivers (hdiv : op.getLsbD 2 = true) :
    ∃ n ≤ 32, Delivers (load op a b mulDsp s) n (aluMulDiv a a b (aluMulDivOp op)) := by
  have hin : inDiv op = true := hdiv
  cases hz : divZero op b with
  | true =>
    have hb : b = 0#32 := by simpa [divZero, hin] using hz
    have hv : (if op.getLsbD 1 then (0#1 ++ a : BitVec 33).extractLsb' 0 32 else 0xFFFFFFFF#32) =
        aluMulDiv a a b (aluMulDivOp op) := by
      rw [extract_append_low, hb]
      obtain rfl | rfl | rfl | rfl := div_ops op hdiv <;> rfl
    rw [load_zero hin hz, ← hv]
    exact ⟨0, by omega, Delivers.of_shortcut rfl rfl hdiv (by simp [latch, hz])⟩
  | false =>
    cases ho : divOvf op a b with
    | true =>
      have hop : op.getLsbD 0 = false ∧ a = 0x80000000#32 ∧ b = 0xFFFFFFFF#32 := by
        simpa [divOvf, hin, and_assoc] using ho
      have hv : (if op.getLsbD 1 then (0#33).extractLsb' 0 32 else 0x80000000#32) =
          aluMulDiv a a b (aluMulDivOp op) := by
        rw [hop.2.1, hop.2.2]
        obtain rfl | rfl | rfl | rfl := div_ops op hdiv
        · rfl
        · exact absurd hop.1 (by decide)
        · rfl
        · exact absurd hop.1 (by decide)
      rw [load_ovf hin hz ho, ← hv]
      exact ⟨0, by omega, Delivers.of_shortcut rfl rfl hdiv (by simp [latch, ho])⟩
    | false =>
      rw [load_divide hin hz ho]
      refine ⟨32, le_rfl, Delivers.of_iterations rfl rfl (div_result hdiv hz ho ?_)⟩
      generalize hs : ({ latch op a b s with
        acc := 0#33, q := magA op a, m := 0#1 ++ magB op b, state := .run } : State) = s₁
      have hm : s₁.m.toNat = (magB op b).toNat := by
        rw [← hs, toNat_append_add]
        simp
      have hpos := mag_pos hz hdiv
      have hlt := (magB op b).isLt
      have hj := iterate_sameJob 32 s₁
      obtain ⟨hq, hr⟩ := div_finish (s := s₁) (by rw [← hs]; exact hdiv) (by rw [← hs])
        (by omega) (by omega)
      have hmod := Nat.mod_lt (magA op a).toNat hpos
      subst hs
      rw [hm] at hq hr
      refine ⟨hj.opQ, hj.qnegQ, hj.rnegQ, hj.shortcut.trans ?_, ?_, ?_⟩
      · simp [latch, hz, ho]
      · exact BitVec.eq_of_toNat_eq (hq.trans (BitVec.toNat_udiv).symm)
      · apply BitVec.eq_of_toNat_eq
        rw [BitVec.extractLsb'_toNat, hr, BitVec.toNat_umod, Nat.shiftRight_zero]
        exact Nat.mod_eq_of_lt (hmod.trans hlt)

end load

/-- Every operation takes at most 32 iterations and ends with the result of the ALU, with and
without the DSP multiplier. -/
theorem load_delivers (op : BitVec 3) (a b : Word) (mulDsp : Bool) (s : State) :
    ∃ n ≤ 32, Delivers (load op a b mulDsp s) n (aluMulDiv a a b (aluMulDivOp op)) := by
  cases hd : op.getLsbD 2 with
  | false => exact load_mul_delivers mulDsp hd
  | true => exact load_div_delivers hd

end RiscvScratch.S6Muldiv
