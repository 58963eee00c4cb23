import RiscvScratch.Clocked.Machine
import RiscvScratch.Spartan6.MuldivResult

/-! RV32M over the integers, and the unit as a machine of its own. -/
namespace RiscvScratch.S6Muldiv

/-- RV32M by `funct3`: the halves of the product of signed or unsigned integers, and the division
that rounds toward zero. -/
def rv32m (op : BitVec 3) (a b : Word) : Word :=
  match op with
  | 0b000#3 => BitVec.ofInt 32 (a.toInt * b.toInt)
  | 0b001#3 => BitVec.ofInt 32 (a.toInt * b.toInt / 2 ^ 32)
  | 0b010#3 => BitVec.ofInt 32 (a.toInt * b.toNat / 2 ^ 32)
  | 0b011#3 => BitVec.ofInt 32 (a.toNat * b.toNat / 2 ^ 32)
  | 0b100#3 => if b = 0#32 then -1#32 else BitVec.ofInt 32 (a.toInt.tdiv b.toInt)
  | 0b101#3 => if b = 0#32 then -1#32 else BitVec.ofNat 32 (a.toNat / b.toNat)
  | 0b110#3 => if b = 0#32 then a else BitVec.ofInt 32 (a.toInt.tmod b.toInt)
  | 0b111#3 => if b = 0#32 then a else BitVec.ofNat 32 (a.toNat % b.toNat)

example : rv32m 0b100#3 0x80000000#32 0xFFFFFFFF#32 = 0x80000000#32 ∧
    rv32m 0b110#3 0x80000000#32 0xFFFFFFFF#32 = 0#32 := by decide

theorem extract_high (x : ℤ) :
    (BitVec.ofInt 64 x).extractLsb' 32 32 = BitVec.ofInt 32 (x / 2 ^ 32) := by
  apply BitVec.eq_of_toNat_eq
  rw [BitVec.extractLsb'_toNat, BitVec.toNat_ofInt, BitVec.toNat_ofInt,
    Nat.shiftRight_eq_div_pow]
  omega

theorem sdiv_eq_tdiv (a b : Word) : a.sdiv b = BitVec.ofInt 32 (a.toInt.tdiv b.toInt) := by
  apply BitVec.eq_of_toInt_eq
  rw [BitVec.toInt_sdiv, BitVec.toInt_ofInt]

theorem srem_eq_tmod (a b : Word) : a.srem b = BitVec.ofInt 32 (a.toInt.tmod b.toInt) := by
  rw [← BitVec.toInt_srem, BitVec.ofInt_toInt]

theorem udiv_eq_div (a b : Word) : a.udiv b = BitVec.ofNat 32 (a.toNat / b.toNat) := by
  rw [← BitVec.toNat_udiv, BitVec.ofNat_toNat, BitVec.setWidth_eq]
  rfl

theorem umod_eq_mod (a b : Word) : a.umod b = BitVec.ofNat 32 (a.toNat % b.toNat) := by
  rw [← BitVec.toNat_umod, BitVec.ofNat_toNat, BitVec.setWidth_eq]
  rfl

theorem alu_div_rv32m {op : BitVec 3} (hdiv : op.getLsbD 2 = true) (a b : Word) :
    aluMulDiv a a b (aluMulDivOp op) = rv32m op a b := by
  by_cases hb : b = 0#32
  · subst hb
    rcases div_ops op hdiv with rfl | rfl | rfl | rfl <;> rfl
  · have hz : (b == 0#32) = false := by simpa using hb
    cases ho : (a == 0x80000000#32 && b == 0xFFFFFFFF#32) with
    | true =>
      obtain ⟨rfl, rfl⟩ : a = 0x80000000#32 ∧ b = 0xFFFFFFFF#32 := by simpa using ho
      rcases div_ops op hdiv with rfl | rfl | rfl | rfl <;> decide
    | false =>
      have h₄ : aluMulDivOp 0b100#3 = .div := rfl
      have h₅ : aluMulDivOp 0b101#3 = .divu := rfl
      have h₆ : aluMulDivOp 0b110#3 = .rem := rfl
      have h₇ : aluMulDivOp 0b111#3 = .remu := rfl
      rcases div_ops op hdiv with rfl | rfl | rfl | rfl <;>
        simp only [aluMulDiv, h₄, h₅, h₆, h₇, rv32m, hz, ho, if_neg hb, Bool.false_eq_true,
          if_false, sdiv_eq_tdiv, srem_eq_tmod, udiv_eq_div, umod_eq_mod]

theorem alu_mulDiv (op : BitVec 3) (a b : Word) :
    aluMulDiv a a b (aluMulDivOp op) = alu true a b (aluMulDivOp op) := by
  cases hd : op.getLsbD 2 with
  | false => rcases mul_ops op hd with rfl | rfl | rfl | rfl <;> rfl
  | true => rcases div_ops op hd with rfl | rfl | rfl | rfl <;> rfl

theorem alu_rv32m (op : BitVec 3) (a b : Word) :
    alu true a b (aluMulDivOp op) = rv32m op a b := by
  rw [← alu_mulDiv]
  cases hd : op.getLsbD 2 with
  | true => exact alu_div_rv32m hd a b
  | false =>
    obtain ⟨hss, hsu, huu⟩ := alu_products a b
    rcases mul_ops op hd with rfl | rfl | rfl | rfl
    · exact (congrArg _ hss).trans (extract_low _)
    · exact (congrArg _ hss).trans (extract_high _)
    · exact (congrArg _ hsu).trans (extract_high _)
    · exact (congrArg _ huu).trans (extract_high _)

structure Input where
  start : Bool
  op : BitVec 3
  a : Word
  b : Word

def machine (mulDsp : Bool) : Clocked.Machine State Input where
  init s := s = reset
  step s i := step mulDsp s i.start i.op i.a i.b

section run
variable {mulDsp : Bool} (r : (machine mulDsp).Run)

theorem run_iterates {t n : ℕ} {x : Word} (h : Delivers (r.state t) n x) {k : ℕ} (hk : k ≤ n) :
    r.state (t + k) = iterate^[k] (r.state t) := by
  induction k with
  | zero => rfl
  | succ k ih =>
    have hprev := ih (Nat.le_of_succ_le hk)
    have hstate := h.busy k hk
    rw [← Nat.add_assoc, r.steps, Function.iterate_succ_apply', hprev]
    show step _ _ _ _ _ _ = _
    rw [step, hstate]

theorem idle_until_start {t u : ℕ} (hidle : (r.state t).state = .idle) (htu : t ≤ u)
    (hquiet : ∀ v, t ≤ v → v < u → (r.input v).start = false) : (r.state u).state = .idle := by
  induction u, htu using Nat.le_induction with
  | base => exact hidle
  | succ u htu ih =>
    have hu := ih fun v hv hvu => hquiet v hv (Nat.lt_succ_of_lt hvu)
    rw [r.steps]
    show (step _ _ _ _ _ _).state = _
    rw [step, hu, hquiet u htu u.lt_succ_self]
    exact hu

/-- An operation started while the unit is idle: one cycle of `done` with the RV32M value, then
nothing until the next start. -/
theorem muldiv_rv32m (t : ℕ) (hidle : (r.state t).state = .idle)
    (hstart : (r.input t).start = true) :
    ∃ n, 1 ≤ n ∧ n ≤ 33 ∧ done (r.state (t + n)) = true ∧
      result (r.state (t + n)) = rv32m (r.input t).op (r.input t).a (r.input t).b ∧
      result (r.state (t + n)) =
        alu true (r.input t).a (r.input t).b (aluMulDivOp (r.input t).op) ∧
      (∀ k < n, done (r.state (t + k)) = false) ∧
      ∀ u, t + n < u → (∀ v, t + n < v → v < u → (r.input v).start = false) →
        done (r.state u) = false := by
  have hload : r.state (t + 1) =
      load (r.input t).op (r.input t).a (r.input t).b mulDsp (r.state t) := by
    rw [r.steps]
    show step _ _ _ _ _ _ = _
    rw [step, hidle, hstart]
    rfl
  obtain ⟨n, hn, hdel⟩ :=
    load_delivers (r.input t).op (r.input t).a (r.input t).b mulDsp (r.state t)
  rw [← hload] at hdel
  have hfix : (r.state (t + (n + 1))).state = .fix := by
    rw [Nat.add_comm n, ← Nat.add_assoc, run_iterates r hdel le_rfl, hdel.done]
  have hres : result (r.state (t + (n + 1))) =
      aluMulDiv (r.input t).a (r.input t).a (r.input t).b (aluMulDivOp (r.input t).op) := by
    rw [Nat.add_comm n, ← Nat.add_assoc, run_iterates r hdel le_rfl, hdel.result]
  have hback : (r.state (t + (n + 1) + 1)).state = .idle := by
    rw [r.steps]
    show (step _ _ _ _ _ _).state = _
    rw [step, hfix]
  refine ⟨n + 1, Nat.le_add_left _ _, Nat.succ_le_succ hn, ?_, ?_, ?_, fun k hk => ?_, ?_⟩
  · rw [done, hfix, beq_self_eq_true]
  · rw [hres, alu_mulDiv, alu_rv32m]
  · rw [hres, alu_mulDiv]
  · cases k with
    | zero => rw [Nat.add_zero, done, hidle]; rfl
    | succ k =>
      have hk : k < n := Nat.lt_of_succ_lt_succ hk
      rw [Nat.add_comm k, ← Nat.add_assoc, run_iterates r hdel hk.le, done, hdel.busy k hk]
      rfl
  · intro u hu hquiet
    rw [done, idle_until_start r hback hu fun v hv hvu => hquiet v hv hvu]
    rfl

end run

/-- `MULHU` of the largest operands, started in every idle cycle. -/
def mulhuRun : (machine false).Run :=
  (machine false).runOf (fun _ _ => ⟨true, 0b011#3, 0xFFFFFFFF#32, 0xFFFFFFFF#32⟩) reset rfl

theorem mulhuRun_result : ∃ n, done (mulhuRun.state (0 + n)) = true ∧
      result (mulhuRun.state (0 + n)) = 0xFFFFFFFE#32 := by
  obtain ⟨n, -, -, hdone, hres, -⟩ := muldiv_rv32m mulhuRun 0 rfl rfl
  exact ⟨n, hdone, hres.trans (by decide)⟩

end RiscvScratch.S6Muldiv
