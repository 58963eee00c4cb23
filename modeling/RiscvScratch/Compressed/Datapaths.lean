import Mathlib.Tactic.FinCases
import RiscvScratch.Compressed.CpuMcC
import RiscvScratch.Spartan6.Core

/-! The datapaths of `s6_core` and `cpu_mc_c` side by side: they were written apart, with decoders,
comparators and store words of their own. -/
namespace RiscvScratch.S6Core

theorem less_unsigned (a b : Word) : less true a b = a.ult b := by
  have ha := a.isLt
  have hb := b.isLt
  simp only [less, Bool.not_true, Bool.and_false, BitVec.ofBool_false, BitVec.msb_eq_decide,
    BitVec.toNat_sub, BitVec.toNat_append, BitVec.ult]
  simp
  omega

theorem less_signed (a b : Word) : less false a b = a.slt b := by
  have hext (x : Word) : (BitVec.ofBool (x.msb && !false) ++ x : BitVec 33) = x.signExtend 33 := by
    refine BitVec.eq_of_getLsbD_eq fun i hi => ?_
    rw [BitVec.getLsbD_append, BitVec.getLsbD_signExtend]
    have : i < 32 ∨ i = 32 := by omega
    obtain h | rfl := this
    · simp [h, hi]
    · simp
  have ha := a.toInt_lt
  have hb := b.toInt_lt
  have ha' := a.le_toInt
  have hb' := b.le_toInt
  unfold less
  rw [hext, hext, BitVec.msb_eq_toInt, BitVec.toInt_sub, BitVec.slt,
    BitVec.toInt_signExtend_of_le (by decide), BitVec.toInt_signExtend_of_le (by decide),
    Int.bmod_eq_of_le (by omega) (by omega)]
  simp

end RiscvScratch.S6Core

namespace RiscvScratch.Compressed

def lanes (addr : Word) (mask : BitVec 4) (data : Word) : List (Word × BitVec 8) :=
  [0#2, 1#2, 2#2, 3#2].filterMap fun k =>
    if mask.getLsbD k.toNat then
      some (addr.extractLsb' 2 30 ++ k, data.extractLsb' (8 * k.toNat) 8)
    else none

theorem lanes_zero (addr data : Word) : lanes addr 0#4 data = [] := by simp [lanes]

theorem lanes_congr (addr : Word) {mask : BitVec 4} {data data' : Word}
    (h : ∀ k : BitVec 2, mask.getLsbD k.toNat = true →
      data.extractLsb' (8 * k.toNat) 8 = data'.extractLsb' (8 * k.toNat) 8) :
    lanes addr mask data = lanes addr mask data' := by
  unfold lanes
  congr 1
  funext k
  split
  · rw [h k ‹_›]
  · rfl

theorem byte_low {n m : ℕ} (a : BitVec n) (b : BitVec m) (k : ℕ) (h : k + 8 ≤ m) :
    (a ++ b).extractLsb' k 8 = b.extractLsb' k 8 := by
  refine BitVec.eq_of_getLsbD_eq fun i hi => ?_
  simp [BitVec.getLsbD_append, hi, show k + i < m by omega]

theorem byte_high {n m : ℕ} (a : BitVec n) (b : BitVec m) (k : ℕ) :
    (a ++ b).extractLsb' (m + k) 8 = a.extractLsb' k 8 := by
  refine BitVec.eq_of_getLsbD_eq fun i hi => ?_
  simp [BitVec.getLsbD_append, hi, Nat.add_assoc]

theorem byte_shifted {n : ℕ} (a : BitVec n) (j k : ℕ) (h : j + k + 8 ≤ 32) :
    (a.zeroExtend 32 <<< j).extractLsb' (j + k) 8 = a.extractLsb' k 8 := by
  refine BitVec.eq_of_getLsbD_eq fun i hi => ?_
  simp [hi, Nat.add_assoc, show j + (k + i) < 32 by omega]

theorem byte_replicated (b : BitVec 8) (k : BitVec 2) :
    (b ++ b ++ b ++ b).extractLsb' (8 * k.toNat) 8 = b.extractLsb' 0 8 := by
  have hk : k = 0#2 ∨ k = 1#2 ∨ k = 2#2 ∨ k = 3#2 := by
    revert k
    decide
  obtain rfl | rfl | rfl | rfl := hk
  · exact byte_low (b ++ b ++ b) b 0 le_rfl
  · exact (byte_high (b ++ b ++ b) b 0).trans (byte_low (b ++ b) b 0 le_rfl)
  · exact (byte_high (b ++ b ++ b) b 8).trans
      ((byte_high (b ++ b) b 0).trans (byte_low b b 0 le_rfl))
  · exact (byte_high (b ++ b ++ b) b 16).trans
      ((byte_high (b ++ b) b 8).trans (byte_high b b 0))

theorem lanes_byte (addr : Word) (b : BitVec 8) (k : BitVec 2) :
    lanes addr (0b0001#4 <<< k.toNat) (b ++ b ++ b ++ b) =
      lanes addr (0b0001#4 <<< k.toNat) (b.zeroExtend 32 <<< (8 * k.toNat)) := by
  apply lanes_congr
  intro j hj
  have hjk : j = k := by
    revert j k
    decide
  subst hjk
  have := j.isLt
  rw [byte_replicated]
  exact (byte_shifted b (8 * j.toNat) 0 (by omega)).symm

theorem lanes_half (addr : Word) (h : BitVec 16) (k : BitVec 2) (hk : k.getLsbD 0 = false) :
    lanes addr (0b0011#4 <<< k.toNat) (h ++ h) =
      lanes addr (0b0011#4 <<< k.toNat) (h.zeroExtend 32 <<< (8 * k.toNat)) := by
  apply lanes_congr
  intro j hj
  have hjk : k = 0#2 ∧ (j = 0#2 ∨ j = 1#2) ∨ k = 2#2 ∧ (j = 2#2 ∨ j = 3#2) := by
    revert j k
    decide
  obtain ⟨rfl, rfl | rfl⟩ | ⟨rfl, rfl | rfl⟩ := hjk
  · exact (byte_low h h 0 (by decide)).trans (byte_shifted h 0 0 (by decide)).symm
  · exact (byte_low h h 8 (by decide)).trans (byte_shifted h 0 8 (by decide)).symm
  · exact (byte_high h h 0).trans (byte_shifted h 16 0 (by decide)).symm
  · exact (byte_high h h 8).trans (byte_shifted h 16 8 (by decide)).symm

inductive Kind (p : S6Core.Isa) (w : Word) : Prop
  | lui (h : opcodeOf w = opLui)
  | auipc (h : opcodeOf w = opAuipc)
  | jal (h : opcodeOf w = opJal)
  | jalr (h : opcodeOf w = opJalr) (hf : funct3Of w = 0b000#3)
  | branch (h : opcodeOf w = opBr)
  | load (h : opcodeOf w = opLoad)
  | store (h : opcodeOf w = opStore)
  | opImm (h : opcodeOf w = opI)
  | op (h : opcodeOf w = opR) (hf : funct7Of w ≠ 0b0000001#7)
  | muldiv (h : opcodeOf w = opR) (hf : funct7Of w = 0b0000001#7) (hM : p.enableM = true)
  | fence (h : opcodeOf w = 0b0001111#7)

theorem kind_of_legal {p : S6Core.Isa} {w : Word} (hA : p.enableA = false)
    (hs : S6Core.isSystem w = false) (hl : S6Core.opLegal p w = true) : Kind p w := by
  have hsys : opcodeOf w ≠ 0b1110011#7 := by simpa [S6Core.isSystem] using hs
  by_cases hlui : opcodeOf w = opLui
  · exact .lui hlui
  by_cases hauipc : opcodeOf w = opAuipc
  · exact .auipc hauipc
  by_cases hjal : opcodeOf w = opJal
  · exact .jal hjal
  by_cases hbr : opcodeOf w = opBr
  · exact .branch hbr
  by_cases hload : opcodeOf w = opLoad
  · exact .load hload
  by_cases hstore : opcodeOf w = opStore
  · exact .store hstore
  by_cases himm : opcodeOf w = opI
  · exact .opImm himm
  by_cases hfence : opcodeOf w = 0b0001111#7
  · exact .fence hfence
  simp only [S6Core.opLegal, hlui, hauipc, hjal, hbr, hload, hstore, himm, hfence, hsys, hA,
    or_self, if_false, Bool.false_and] at hl
  by_cases hjalr : opcodeOf w = opJalr
  · rw [if_pos hjalr] at hl
    exact .jalr hjalr (by simpa using hl)
  by_cases hop : opcodeOf w = opR
  · rw [if_neg hjalr, if_pos hop] at hl
    by_cases hf : funct7Of w = 0b0000001#7
    · rw [if_neg (by rw [hf]; decide), if_neg (by rw [hf]; decide), if_pos hf] at hl
      exact .muldiv hop hf hl
    · exact .op hop hf
  rw [if_neg hjalr, if_neg hop] at hl
  simp at hl

/-- The two cores look at the same instruction, and `cpu_mc_c` has its CSRs as after reset. -/
structure Matches (d : S6Core.Datapath) (e : CpuMcC.Datapath) : Prop where
  pc : e.pc = d.pc
  instr : e.instr = d.instr
  isC : e.isC = d.isC
  raw16 : d.isC = true → e.raw16 = d.raw16
  rs1Data : e.rs1Data = d.rs1Data
  rs2Data : e.rs2Data = d.rs2Data
  csr : e.csr = Zicsr.reset
  amo : d.amoExec = false

section datapaths
variable {p : S6Core.Isa} {d : S6Core.Datapath} {e : CpuMcC.Datapath} {w : Word}

theorem imm_eq (hk : Kind p w) : S6Core.imm w = immOf w := by
  cases hk <;> simp +decide [S6Core.imm, immOf, ctrlOf, control, Ctrl.default, *]

theorem isAmo_false (hA : p.enableA = false) (w : Word) : S6Core.isLr p w = false ∧
    S6Core.isSc p w = false ∧ S6Core.isAmoRmw p w = false ∧ S6Core.isAmo p w = false := by
  simp [S6Core.isLr, S6Core.isSc, S6Core.isAmoRmw, S6Core.isAmo, S6Core.isAmoop, hA]

theorem f3_cases (f : BitVec 3) : f = 0b000#3 ∨ f = 0b001#3 ∨ f = 0b010#3 ∨ f = 0b011#3 ∨
    f = 0b100#3 ∨ f = 0b101#3 ∨ f = 0b110#3 ∨ f = 0b111#3 := by
  revert f
  decide

theorem aluResult_op (hA : p.enableA = false) (hamo : d.amoExec = false)
    (ho : opcodeOf d.instr = opR ∨ opcodeOf d.instr = opI) :
    S6Core.aluResult p d = alu true d.rs1Data
      (if opcodeOf d.instr = opR then d.rs2Data else S6Core.imm d.instr)
      (aluBaseOp (funct3Of d.instr) ((funct7Of d.instr).getLsbD 5) (opcodeOf d.instr != opR)) := by
  obtain ⟨-, -, -, hnoamo⟩ := isAmo_false hA d.instr
  have hbr : S6Core.isBranch d.instr = false := by
    obtain h | h := ho <;> simp +decide [S6Core.isBranch, h]
  have hop : (S6Core.isOp d.instr || S6Core.isOpimm d.instr) = true := by
    obtain h | h := ho <;> simp [S6Core.isOp, S6Core.isOpimm, h]
  have hb : S6Core.aluB p d =
      if opcodeOf d.instr = opR then d.rs2Data else S6Core.imm d.instr := by
    simp [S6Core.aluB, hbr, hnoamo, S6Core.isOp]
  have ha : S6Core.aluA d = d.rs1Data := by simp [S6Core.aluA, hamo]
  have hfn : S6Core.aluOp d = S6Core.opFn d.instr := by simp [S6Core.aluOp, hamo, hop]
  have hcmp : S6Core.cmpLt p d = S6Core.less ((funct3Of d.instr).getLsbD 0) d.rs1Data
      (if opcodeOf d.instr = opR then d.rs2Data else S6Core.imm d.instr) := by
    simp [S6Core.cmpLt, S6Core.cmpUns, hamo, hbr, ha, hb]
  unfold S6Core.aluResult
  rw [hfn, hcmp, ha, hb]
  generalize (if opcodeOf d.instr = opR then d.rs2Data else S6Core.imm d.instr) = b
  unfold S6Core.opFn aluBaseOp S6Core.isOp
  obtain hf | hf | hf | hf | hf | hf | hf | hf := f3_cases (funct3Of d.instr) <;> rw [hf]
  · by_cases hr : opcodeOf d.instr = opR <;> cases (funct7Of d.instr).getLsbD 5 <;>
      simp [hr, alu, aluBase]
  · simp [alu, aluBase]
  · simp [alu, aluBase, S6Core.less_signed]
  · simp [alu, aluBase, S6Core.less_unsigned]
  · simp [alu, aluBase]
  · cases (funct7Of d.instr).getLsbD 5 <;> simp [alu, aluBase]
  · simp [alu, aluBase]
  · simp [alu, aluBase]

theorem not_system (hk : Kind p w) : Sys.isSystem w = false := by
  cases hk <;> simp +decide [Sys.isSystem, *]

theorem sys_false (hk : Kind p w) : Sys.isCsr w = false ∧ Sys.isMret w = false ∧
    Sys.isEcall w = false ∧ Sys.isEbreak w = false := by
  simp [Sys.isCsr, Sys.isMret, Sys.isEcall, Sys.isEbreak, not_system hk]

theorem s6_sys_false (hk : Kind p w) : S6Core.isCsr w = false ∧ S6Core.isMret w = false ∧
    S6Core.isWfi w = false := by
  have hs : S6Core.isSystem w = false := not_system hk
  simp [S6Core.isCsr, S6Core.isMret, S6Core.isWfi, S6Core.sysPlain, hs]

theorem opKnown_of_kind (hk : Kind p w) : Sys.opKnown w = true := by
  unfold Sys.opKnown
  cases hk with
  | lui h | auipc h | jal h | jalr h _ | branch h | load h | store h | opImm h | op h _
  | muldiv h _ _ | fence h =>
    rw [h]
    decide

/-- What the Spartan-6 core executes without a trap, `cpu_mc_c` does as well. -/
theorem takeTrap_false (hC : p.enableC = true) (hk : Kind p d.instr) (hm : Matches d e)
    (hill : S6Core.illegalInstr p d = false) : CpuMcC.takeTrap e = false := by
  obtain ⟨hcsr, hmret, hecall, hebreak⟩ := sys_false hk
  have hc : (d.isC && (Rvc.expand d.raw16).2) = false := by
    simp only [S6Core.illegalInstr, S6Core.cIllegal, hC, Bool.true_and,
      Bool.or_eq_false_iff] at hill
    exact hill.1.1.1
  have hlegal : CpuMcC.illegalInstr e = false := by
    simp only [CpuMcC.illegalInstr, CpuMcC.privViolation, hm.instr, hmret, hcsr, hm.isC,
      opKnown_of_kind hk]
    cases hd : d.isC
    · simp
    · simpa [hm.raw16 hd, hd] using hc
  simp [CpuMcC.takeTrap, CpuMcC.exception, hlegal, hm.instr, hecall, hebreak, CpuMcC.irqPending,
    Zicsr.irqPending, hm.csr, Zicsr.reset]

theorem aluResult_add (hA : p.enableA = false) (hamo : d.amoExec = false)
    (ho : opcodeOf d.instr = opLoad ∨ opcodeOf d.instr = opStore ∨ opcodeOf d.instr = opJalr) :
    S6Core.aluResult p d = d.rs1Data + S6Core.imm d.instr := by
  obtain ⟨-, -, -, hnoamo⟩ := isAmo_false hA d.instr
  unfold S6Core.aluResult S6Core.aluOp S6Core.aluB S6Core.aluA
  obtain h | h | h := ho <;>
    simp +decide [S6Core.isOp, S6Core.isOpimm, S6Core.isBranch, h, hnoamo, hamo]

theorem aluResult_addr (hA : p.enableA = false) (hm : Matches d e) (hk : Kind p d.instr)
    (ho : opcodeOf d.instr = opLoad ∨ opcodeOf d.instr = opStore ∨ opcodeOf d.instr = opJalr) :
    S6Core.aluResult p d = CpuMcC.aluResult e := by
  have h2 : CpuMcC.aluResult e = d.rs1Data + immOf d.instr := by
    unfold CpuMcC.aluResult
    rw [hm.instr, hm.rs1Data]
    obtain h | h | h := ho <;>
      simp +decide [ctrlOf, control, Ctrl.default, h, alu, aluBase]
  rw [aluResult_add hA hm.amo ho, h2, imm_eq hk]

theorem aluResult_arith (hA : p.enableA = false) (hm : Matches d e) (hk : Kind p d.instr)
    (ho : opcodeOf d.instr = opI ∨ opcodeOf d.instr = opR ∧ funct7Of d.instr ≠ 0b0000001#7) :
    S6Core.aluResult p d = CpuMcC.aluResult e := by
  rw [aluResult_op hA hm.amo (ho.symm.imp And.left id), imm_eq hk]
  unfold CpuMcC.aluResult
  rw [hm.instr, hm.rs1Data, hm.rs2Data]
  obtain h | ⟨h, hf⟩ := ho
  · simp [ctrlOf, control, Ctrl.default, h, opI, opR]
  · simp [ctrlOf, control, Ctrl.default, h, opR, hf]

theorem aluResult_muldiv (hm : Matches d e) (ho : opcodeOf d.instr = opR)
    (hf : funct7Of d.instr = 0b0000001#7) : CpuMcC.aluResult e =
      aluMulDiv d.rs1Data d.rs1Data d.rs2Data (aluMulDivOp (funct3Of d.instr)) := by
  unfold CpuMcC.aluResult
  rw [hm.instr, hm.rs1Data, hm.rs2Data]
  have hop : (ctrlOf d.instr).aluOp = aluMulDivOp (funct3Of d.instr) := by
    simp [ctrlOf, control, ho, hf]
  have hsrc : (ctrlOf d.instr).aluSrcA = false ∧ (ctrlOf d.instr).aluSrcB = false := by
    simp [ctrlOf, control, Ctrl.default, ho]
  rw [hop, hsrc.1, hsrc.2]
  unfold aluMulDivOp
  obtain hf | hf | hf | hf | hf | hf | hf | hf := f3_cases (funct3Of d.instr) <;>
    simp [hf, alu, aluBase]

theorem branchCond_eq (hm : Matches d e) (ho : opcodeOf d.instr = opBr) :
    S6Core.branchCond p d = branchCond (funct3Of e.instr) e.rs1Data e.rs2Data := by
  have ha : S6Core.aluA d = d.rs1Data := by simp [S6Core.aluA, hm.amo]
  have hb : S6Core.aluB p d = d.rs2Data := by simp [S6Core.aluB, S6Core.isBranch, ho]
  have hlt : S6Core.cmpLt p d =
      S6Core.less ((funct3Of d.instr).getLsbD 1) d.rs1Data d.rs2Data := by
    simp [S6Core.cmpLt, S6Core.cmpUns, hm.amo, S6Core.isBranch, ho, ha, hb]
  have heq : S6Core.cmpEq p d = (d.rs1Data == d.rs2Data) := by rw [S6Core.cmpEq, ha, hb]
  unfold S6Core.branchCond branchCond
  rw [hm.instr, hm.rs1Data, hm.rs2Data, hlt, heq]
  obtain hf | hf | hf | hf | hf | hf | hf | hf := f3_cases (funct3Of d.instr) <;>
    simp [hf, S6Core.less_signed, S6Core.less_unsigned, bne]

section
variable (hA : p.enableA = false)
include hA

theorem nextPc_eq (hC : p.enableC = true) (hk : Kind p d.instr)
    (hm : Matches d e) (hill : S6Core.illegalInstr p d = false) (commit : Bool) :
    CpuMcC.nextPc e commit = S6Core.nextPc p d false := by
  have htrap := takeTrap_false hC hk hm hill
  have hmret := (sys_false hk).2.1
  have hmret' := (s6_sys_false hk).2.1
  have hincr : CpuMcC.pcNexti e = S6Core.pcIncr d := by
    rw [CpuMcC.pcNexti, S6Core.pcIncr, hm.pc, hm.isC]
  have htarget : CpuMcC.pcTarget e = S6Core.pcPlusImm d := by
    rw [CpuMcC.pcTarget, S6Core.pcPlusImm, hm.pc, hm.instr, imm_eq hk]
  simp only [CpuMcC.nextPc, htrap, hm.instr, hmret, Bool.false_and, hincr, htarget,
    S6Core.nextPc, hmret', Bool.false_eq_true, if_false, S6Core.takesJump, S6Core.jumpTgt,
    S6Core.isJal, S6Core.isJalr, S6Core.branchTaken, S6Core.isBranch, CpuMcC.branchTaken]
  cases hk with
  | jalr h hf =>
    have hres := aluResult_addr hA hm (.jalr h hf) (.inr (.inr h))
    simp +decide [S6Core.jalrTgt, CpuMcC.jalrTarget, hf, hres, h, ctrlOf, control, Ctrl.default]
  | branch h =>
    have hcond := branchCond_eq (p := p) hm h
    simp +decide [hm.instr, hcond, h, ctrlOf, control, Ctrl.default]
  | jal h | lui h | auipc h | load h | store h | opImm h | op h _ | muldiv h _ _ | fence h =>
    simp +decide [h, ctrlOf, control, Ctrl.default]

theorem execWb_eq (hk : Kind p d.instr) (hm : Matches d e)
    (hld : opcodeOf d.instr ≠ opLoad) (hmd : S6Core.isMuldiv p d.instr = false) (dw : Word) :
    S6Core.execRfWe p d.instr = (ctrlOf e.instr).regWrite ∧
      ((ctrlOf e.instr).regWrite = true → S6Core.execWb p d = CpuMcC.wbFinal e dw) := by
  have hcsr := (sys_false hk).1
  have hcsr' := (s6_sys_false hk).1
  obtain ⟨-, hsc, -, -⟩ := isAmo_false hA d.instr
  have hincr : CpuMcC.pcNexti e = S6Core.pcIncr d := by
    rw [CpuMcC.pcNexti, S6Core.pcIncr, hm.pc, hm.isC]
  simp only [S6Core.execRfWe, S6Core.execWb, CpuMcC.wbFinal, CpuMcC.wbData, hm.instr, hcsr, hcsr',
    hsc, hmd, hincr, Bool.false_eq_true, if_false, Bool.or_false, Bool.not_false, Bool.and_true,
    S6Core.isOp, S6Core.isOpimm, S6Core.isLui, S6Core.isAuipc, S6Core.isJal, S6Core.isJalr]
  have himm := imm_eq hk
  cases hk with
  | load h => exact absurd h hld
  | muldiv h hf hM => simp [S6Core.isMuldiv, S6Core.isOp, h, hf, hM] at hmd
  | opImm h =>
    have hres := aluResult_arith hA hm (.opImm h) (.inl h)
    simp +decide [hres, h, ctrlOf, control, Ctrl.default]
  | op h hf =>
    have hres := aluResult_arith hA hm (.op h hf) (.inr ⟨h, hf⟩)
    simp +decide [hres, h, ctrlOf, control, Ctrl.default]
  | lui h => simp +decide [himm, h, ctrlOf, control, Ctrl.default]
  | auipc h =>
    have hres : CpuMcC.aluResult e = d.pc + immOf d.instr := by
      simp +decide [CpuMcC.aluResult, hm.instr, hm.pc, h, ctrlOf, control, Ctrl.default, alu,
        aluBase]
    simp +decide [hres, himm, S6Core.pcPlusImm, h, ctrlOf, control, Ctrl.default]
  | jalr h hf => simp +decide [h, hf, ctrlOf, control, Ctrl.default]
  | jal h | branch h | store h | fence h => simp +decide [h, ctrlOf, control, Ctrl.default]

theorem memAddr_eq (hm : Matches d e) (hk : Kind p d.instr)
    (ho : opcodeOf d.instr = opLoad ∨ opcodeOf d.instr = opStore) :
    S6Core.memAddr p d = CpuMcC.aluResult e := by
  simp [S6Core.memAddr, isAmo_false hA, aluResult_addr hA hm hk (ho.imp id .inl)]

theorem loadVal_eq (hm : Matches d e) (h : opcodeOf d.instr = opLoad)
    (dw : Word) : S6Core.loadVal p d dw = CpuMcC.loadVal e dw := by
  unfold S6Core.loadVal S6Core.lane S6Core.half S6Core.ba
  rw [memAddr_eq hA hm (.load h) (.inl h), ← hm.instr]
  rfl

theorem store_lanes_eq (hm : Matches d e) (h : opcodeOf d.instr = opStore)
    (hf : S6Core.storeFault p d = false) (addr : Word) :
    lanes addr (S6Core.wmask p d) (S6Core.dbusWdata p d) =
      lanes addr (CpuMcC.wmask e) (CpuMcC.dmemWdata e) := by
  have hba : CpuMcC.ba e = S6Core.ba p d := by
    rw [CpuMcC.ba, S6Core.ba, memAddr_eq hA hm (.store h) (.inr h)]
  have halign : funct3Of d.instr = 0b001#3 → (S6Core.ba p d).getLsbD 0 = false := by
    intro hf3
    simp only [S6Core.storeFault, S6Core.isStore, h, beq_self_eq_true, Bool.true_and,
      Bool.or_eq_false_iff, S6Core.lsBad, hf3] at hf
    exact hf.1.1
  unfold S6Core.wmask S6Core.dbusWdata CpuMcC.wmask CpuMcC.dmemWdata
  simp only [hm.amo, hm.instr, hm.rs2Data, hba, Bool.false_eq_true, if_false]
  by_cases h0 : funct3Of d.instr = 0b000#3
  · simp only [h0, if_true]
    exact lanes_byte addr _ _
  by_cases h1 : funct3Of d.instr = 0b001#3
  · simp only [h1, if_true, if_neg (show ¬(0b001#3 = 0b000#3) by decide)]
    exact lanes_half addr _ _ (halign h1)
  · simp only [h0, h1, if_false]

end

end datapaths

end RiscvScratch.Compressed
