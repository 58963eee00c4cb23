import RiscvScratch.Compressed.Interpreter

/-! One instruction on `cpu_mc_c` and on the interpreter: the combinational logic decides the same
traps and computes the same outcome. -/
namespace RiscvScratch.Rv32imc
open Sys Compressed
variable {μ : Type*}

/-- The datapath holds the instruction `f` and the operands it has in `a`. -/
structure Sees (f : Insn) (lines : Zicsr.Lines) (a : Arch μ) (d : CpuMcC.Datapath) : Prop where
  pc : d.pc = a.pc
  instr : d.instr = f.word
  size : (if d.isC then 2#32 else 4#32) = f.size
  illegal : (if d.isC then (Rvc.expand d.raw16).2 else !opKnown d.instr) = !f.legal
  rs1Data : d.rs1Data = a.regs.read (rs1Of f.word)
  rs2Data : d.rs2Data = a.regs.read (rs2Of f.word)
  csr : d.csr = a.csr
  lines : d.lines = lines

section sees
variable {f : Insn} {lines : Zicsr.Lines} {a : Arch μ} {d : CpuMcC.Datapath} {bus : ByteBus μ}

/-- Both sides trap on the same instructions, with the same cause. -/
theorem Sees.cause_eq (h : Sees f lines a d) :
    cause lines a.csr f =
      if CpuMcC.takeTrap d then some (CpuMcC.trapCause d) else none := by
  have hill : CpuMcC.illegalInstr d =
      (!f.legal || (a.csr.priv == Csr.privU && (isMret f.word || isCsr f.word))) := by
    rw [CpuMcC.illegalInstr, h.illegal, CpuMcC.privViolation, CpuMcC.inUser, h.csr, h.instr]
  unfold cause CpuMcC.takeTrap CpuMcC.trapCause CpuMcC.exception CpuMcC.irqPending CpuMcC.irqCause
  rw [hill, CpuMcC.inUser, h.csr, h.instr, h.lines]
  dsimp only
  generalize (!f.legal || (a.csr.priv == Csr.privU && (isMret f.word || isCsr f.word))) = ill
  generalize isEcall f.word = ecall
  generalize isEbreak f.word = ebreak
  generalize (Zicsr.irqPending a.csr lines && !isMret f.word) = irq
  cases ill <;> cases ecall <;> cases ebreak <;> cases irq <;> simp

theorem nextInsn (h : Sees f lines a d) : CpuMcC.pcNexti d = a.pc + f.size := by
  rw [CpuMcC.pcNexti, h.pc, h.size]

/-- What the core latches at the end of an instruction without a load, and the effects it has. -/
def ends (bus : ByteBus μ) (a : Arch μ) (d : CpuMcC.Datapath) (csr : Zicsr.State) :
    Arch μ × List Effect :=
  let c := ctrlOf d.instr
  let mask := if c.memWrite then CpuMcC.wmask d else 0#4
  (⟨CpuMcC.nextPc d true,
    a.regs.write (isCsr d.instr || c.regWrite) (rdOf d.instr) (CpuMcC.wbFinal d 0#32), csr,
    if mask ≠ 0#4 then bus.write a.mem (lanes (CpuMcC.aluResult d) mask (CpuMcC.dmemWdata d))
    else a.mem⟩,
   byteEffects (CpuMcC.aluResult d) mask (CpuMcC.dmemWdata d) ++
     regEffect (isCsr d.instr || c.regWrite) (rdOf d.instr) (CpuMcC.wbFinal d 0#32))

theorem Sees.nextPc_eq (h : Sees f lines a d) {c : Bool} (ht : (CpuMcC.takeTrap d && c) = false)
    (hm : isMret f.word = false) : CpuMcC.nextPc d c =
      if (ctrlOf f.word).jalr then CpuMcC.jalrTarget d
      else if (ctrlOf f.word).jump then a.pc + immOf f.word
      else if CpuMcC.branchTaken d then a.pc + immOf f.word
      else a.pc + f.size := by
  simp only [CpuMcC.nextPc, ht, h.instr, hm, Bool.false_and, Bool.false_eq_true, if_false,
    CpuMcC.pcTarget, h.pc, nextInsn h]

theorem Sees.next_straight (h : Sees f lines a d) {c : Bool}
    (ht : (CpuMcC.takeTrap d && c) = false) (hm : isMret f.word = false)
    {x : Ctrl} (hc : ctrlOf f.word = x) (hx : x.jalr = false ∧ x.jump = false ∧ x.branch = false) :
    CpuMcC.nextPc d c = a.pc + f.size := by
  subst hc
  obtain ⟨hjr, hj, hb⟩ := hx
  simp only [h.nextPc_eq ht hm, hjr, hj, CpuMcC.branchTaken, h.instr, hb, Bool.false_and,
    Bool.false_eq_true, if_false]

theorem Sees.ends_setReg (h : Sees f lines a d) (hs : isCsr f.word = false) {x : Ctrl}
    (hc : ctrlOf f.word = x) (hr : x.regWrite = true) (hw : x.memWrite = false) :
    ends bus a d a.csr = setReg a f (CpuMcC.wbFinal d 0#32) (CpuMcC.nextPc d true) := by
  subst hc
  simp only [ends, h.instr, hs, hr, hw, Bool.false_or, Bool.false_eq_true, if_false, ne_eq,
    not_true_eq_false, byteEffects_zero, List.nil_append, setReg]

theorem Sees.ends_quiet (h : Sees f lines a d) (hs : isCsr f.word = false) {x : Ctrl}
    (hc : ctrlOf f.word = x) (hr : x.regWrite = false) (hw : x.memWrite = false)
    (csr : Zicsr.State) :
    ends bus a d csr = ({ a with pc := CpuMcC.nextPc d true, csr }, []) := by
  subst hc
  simp only [ends, h.instr, hs, hr, hw, Bool.false_or, Bool.false_eq_true, if_false, ne_eq,
    not_true_eq_false, byteEffects_zero, List.nil_append, Regs.write_false]
  rfl

variable {w : Word}

theorem not_system {op : BitVec 7} (ho : opcodeOf w = op) (hop : op ≠ 0b1110011#7) :
    isCsr w = false ∧ isMret w = false := by
  simp [isCsr, isMret, isSystem, ho, hop]

theorem Sees.wbFinal_eq (h : Sees f lines a d) (hs : isCsr f.word = false) (dw : Word) :
    CpuMcC.wbFinal d dw = match (ctrlOf f.word).wbSel with
      | .alu => CpuMcC.aluResult d
      | .mem => CpuMcC.loadVal d dw
      | .pc4 => a.pc + f.size
      | .imm => immOf f.word := by
  have hn := nextInsn h
  cases hw : (ctrlOf f.word).wbSel <;>
    simp only [CpuMcC.wbFinal, h.instr, hs, Bool.false_eq_true, if_false, CpuMcC.wbData, hw, hn]

theorem Sees.aluResult_eq (h : Sees f lines a d) : CpuMcC.aluResult d =
    alu true (if (ctrlOf f.word).aluSrcA then a.pc else a.regs.read (rs1Of f.word))
      (if (ctrlOf f.word).aluSrcB then immOf f.word else a.regs.read (rs2Of f.word))
      (ctrlOf f.word).aluOp := by
  rw [CpuMcC.aluResult, h.instr, h.pc, h.rs1Data, h.rs2Data]

theorem ctrlOf_op {op : BitVec 7} (ho : opcodeOf w = op) :
    ctrlOf w = control op (funct3Of w) (funct7Of w) := by
  rw [ctrlOf, ho]

theorem funct7_bit (w : Word) : (funct7Of w).getLsbD 5 = w.getLsbD 30 := by simp [funct7Of]

section
variable (h : Sees f lines a d) (ht : (CpuMcC.takeTrap d && true) = false)
include h ht

theorem Sees.exec_op (ho : opcodeOf f.word = opR) : execute bus lines a f = ends bus a d a.csr := by
  have hc : ctrlOf f.word = { Ctrl.default with
      regWrite := true
      aluOp := if funct7Of f.word == 0b0000001#7 then aluMulDivOp (funct3Of f.word)
        else aluBaseOp (funct3Of f.word) ((funct7Of f.word).getLsbD 5) false } := ctrlOf_op ho
  obtain ⟨hs, hm⟩ := not_system ho (by decide)
  rw [h.ends_setReg hs hc rfl rfl, h.wbFinal_eq hs, h.aluResult_eq, hc,
    h.next_straight ht hm hc ⟨rfl, rfl, rfl⟩, funct7_bit]
  simp only [execute, ho, if_true, Ctrl.default, Bool.false_eq_true, if_false, beq_iff_eq]

theorem Sees.exec_opImm
    (ho : opcodeOf f.word = opI) : execute bus lines a f = ends bus a d a.csr := by
  have hc := ctrlOf_op ho
  obtain ⟨hs, hm⟩ := not_system ho (by decide)
  rw [h.ends_setReg hs hc rfl rfl, h.wbFinal_eq hs, h.aluResult_eq, immOf, hc,
    h.next_straight ht hm hc ⟨rfl, rfl, rfl⟩]
  simp only [execute, ho, ← funct7_bit]
  rfl

theorem Sees.exec_branch
    (ho : opcodeOf f.word = opBr) : execute bus lines a f = ends bus a d a.csr := by
  have hc : ctrlOf f.word = { Ctrl.default with branch := true, immType := .b, aluOp := .sub } :=
    ctrlOf_op ho
  obtain ⟨hs, hm⟩ := not_system ho (by decide)
  have htaken : CpuMcC.branchTaken d = branchCond (funct3Of f.word) (a.regs.read (rs1Of f.word))
      (a.regs.read (rs2Of f.word)) := by
    rw [CpuMcC.branchTaken, h.instr, hc, h.rs1Data, h.rs2Data, Bool.true_and]
  rw [h.ends_quiet hs hc rfl rfl, h.nextPc_eq ht hm, immOf, hc, htaken]
  simp only [execute, ho]
  rfl

theorem Sees.exec_jal
    (ho : opcodeOf f.word = opJal) : execute bus lines a f = ends bus a d a.csr := by
  have hc := ctrlOf_op ho
  obtain ⟨hs, hm⟩ := not_system ho (by decide)
  rw [h.ends_setReg hs hc rfl rfl, h.wbFinal_eq hs, h.nextPc_eq ht hm, immOf, hc]
  simp only [execute, ho]
  rfl

theorem Sees.exec_jalr
    (ho : opcodeOf f.word = opJalr) : execute bus lines a f = ends bus a d a.csr := by
  have hc := ctrlOf_op ho
  obtain ⟨hs, hm⟩ := not_system ho (by decide)
  have htarget : CpuMcC.jalrTarget d =
      (a.regs.read (rs1Of f.word) + immgen f.word .i).extractLsb' 1 31 ++ 0#1 := by
    rw [CpuMcC.jalrTarget, h.aluResult_eq, immOf, hc]
    rfl
  rw [h.ends_setReg hs hc rfl rfl, h.wbFinal_eq hs, h.nextPc_eq ht hm, hc, htarget]
  simp only [execute, ho]
  rfl

theorem Sees.exec_lui
    (ho : opcodeOf f.word = opLui) : execute bus lines a f = ends bus a d a.csr := by
  have hc := ctrlOf_op ho
  obtain ⟨hs, hm⟩ := not_system ho (by decide)
  rw [h.ends_setReg hs hc rfl rfl, h.wbFinal_eq hs, immOf, hc,
    h.next_straight ht hm hc ⟨rfl, rfl, rfl⟩]
  simp only [execute, ho]
  rfl

theorem Sees.exec_auipc
    (ho : opcodeOf f.word = opAuipc) : execute bus lines a f = ends bus a d a.csr := by
  have hc := ctrlOf_op ho
  obtain ⟨hs, hm⟩ := not_system ho (by decide)
  rw [h.ends_setReg hs hc rfl rfl, h.wbFinal_eq hs, h.aluResult_eq, immOf, hc,
    h.next_straight ht hm hc ⟨rfl, rfl, rfl⟩]
  simp only [execute, ho]
  rfl

end

theorem Sees.address (h : Sees f lines a d) {x : Ctrl} (hc : ctrlOf f.word = x)
    (hA : x.aluSrcA = false) (hB : x.aluSrcB = true) (hop : x.aluOp = .add) :
    CpuMcC.aluResult d = a.regs.read (rs1Of f.word) + immOf f.word := by
  rw [h.aluResult_eq, hc, hA, hB, hop]
  rfl

theorem storeBytes_eq (h : Sees f lines a d) :
    storeBytes (funct3Of f.word) (CpuMcC.aluResult d) (a.regs.read (rs2Of f.word)) =
      lanes (CpuMcC.aluResult d) (CpuMcC.wmask d) (CpuMcC.dmemWdata d) := by
  unfold storeBytes CpuMcC.wmask CpuMcC.dmemWdata CpuMcC.ba
  rw [h.instr, h.rs2Data]
  dsimp only
  split
  · next hf => rw [hf]; rfl
  · next hf => rw [hf]; rfl
  · next h0 h1 => rw [if_neg h0, if_neg h1, if_neg h0, if_neg h1]

theorem Sees.exec_store (h : Sees f lines a d) (ht : (CpuMcC.takeTrap d && true) = false)
    (ho : opcodeOf f.word = opStore) : execute bus lines a f = ends bus a d a.csr := by
  have hc : ctrlOf f.word = { Ctrl.default with
      aluSrcB := true, immType := .s, memWrite := true } := ctrlOf_op ho
  obtain ⟨hs, hm⟩ := not_system ho (by decide)
  have haddr := h.address hc rfl rfl rfl
  have hnext := h.next_straight ht hm hc ⟨rfl, rfl, rfl⟩
  have hbytes := storeBytes_eq h
  have hmask := wmask_ne_zero d
  rw [immOf, hc] at haddr
  have hex : execute bus lines a f =
      ({ a with pc := a.pc + f.size, mem := bus.write a.mem (storeBytes (funct3Of f.word)
          (CpuMcC.aluResult d) (a.regs.read (rs2Of f.word))) },
        (storeBytes (funct3Of f.word) (CpuMcC.aluResult d) (a.regs.read (rs2Of f.word))).map
          fun b => .byte b.1 b.2) := by
    simp only [execute, ho, haddr]
    rfl
  rw [hex, hbytes]
  simp only [ends, h.instr, hc, hs, hnext, Ctrl.default, if_true, ne_eq, hmask, not_false_eq_true,
    Bool.or_self, Regs.write_false, regEffect, Bool.false_and, Bool.false_eq_true, if_false,
    List.append_nil, byteEffects]

/-- A load completes in a later cycle, in which the trap logic is not asked again. -/
theorem Sees.exec_load (h : Sees f lines a d) (ho : opcodeOf f.word = opLoad)
    (lines' : Zicsr.Lines) : execute bus lines' a f =
      setReg { a with mem := (bus.read a.mem (CpuMcC.aluResult d)).2 } f
        (CpuMcC.wbFinal d (bus.read a.mem (CpuMcC.aluResult d)).1) (CpuMcC.nextPc d false) := by
  have hc : ctrlOf f.word = { Ctrl.default with
      regWrite := true, aluSrcB := true, memRead := true, wbSel := .mem } := ctrlOf_op ho
  obtain ⟨hs, hm⟩ := not_system ho (by decide)
  have haddr := h.address hc rfl rfl rfl
  have hnext := h.next_straight (Bool.and_false _) hm hc ⟨rfl, rfl, rfl⟩
  have hval (dw : Word) : CpuMcC.loadVal d dw =
      loadValue (funct3Of f.word) (CpuMcC.aluResult d) dw := by
    unfold CpuMcC.loadVal loadValue CpuMcC.ba
    rw [h.instr]
    simp only [BitVec.getLsbD_extractLsb']
    rfl
  rw [h.wbFinal_eq hs, hc, hnext]
  dsimp only
  rw [hval, haddr, immOf, hc]
  simp only [execute, ho]
  rfl

theorem Sees.exec_other (h : Sees f lines a d) (ht : (CpuMcC.takeTrap d && true) = false)
    (ho : opcodeOf f.word = 0b1110011#7 ∨ opcodeOf f.word = 0b0001111#7) :
    execute bus lines a f = ends bus a d (Zicsr.step a.csr ⟨false, a.pc, CpuMcC.trapCause d,
      isMret f.word, isCsr f.word, csrAddr f.word, CpuMcC.csrWsrc d, funct3Of f.word⟩) := by
  have hc : ctrlOf f.word = Ctrl.default := by
    rcases ho with ho | ho <;> (rw [ctrlOf, ho]; rfl)
  have hno : ∀ op ∈ [opR, opI, opLoad, opStore, opBr, opJal, opJalr, opLui, opAuipc],
      ¬opcodeOf f.word = op := by
    rcases ho with ho | ho <;> (rw [ho]; decide)
  simp only [List.mem_cons, List.not_mem_nil, or_false, forall_eq_or_imp, forall_eq] at hno
  obtain ⟨h1, h2, h3, h4, h5, h6, h7, h8, h9⟩ := hno
  simp only [execute, h1, h2, h3, h4, h5, h6, h7, h8, h9, if_false]
  cases hm : isMret f.word with
  | true =>
    have hs : isCsr f.word = false := by
      simp only [isMret, Bool.and_eq_true, beq_iff_eq] at hm
      simp [isCsr, hm.1.2]
    have hnext : CpuMcC.nextPc d true = a.csr.mepc := by
      simp only [CpuMcC.nextPc, ht, h.instr, hm, h.csr, Bool.false_eq_true,
        if_false, Bool.and_self, if_true]
    rw [h.ends_quiet hs hc rfl rfl, hnext]
    rfl
  | false =>
    have hnext := h.next_straight ht hm hc ⟨rfl, rfl, rfl⟩
    cases hs : isCsr f.word with
    | true =>
      have hwb : CpuMcC.wbFinal d 0#32 = Zicsr.rdata a.csr lines (csrAddr f.word) := by
        simp only [CpuMcC.wbFinal, h.instr, hs, if_true, h.csr, h.lines]
      simp only [ends, h.instr, hs, hc, hwb, hnext, CpuMcC.csrWsrc, h.rs1Data, Zicsr.step, setReg,
        Ctrl.default, Bool.false_eq_true, if_false, if_true, ne_eq, not_true_eq_false,
        byteEffects_zero, List.nil_append, Bool.true_or]
    | false =>
      rw [h.ends_quiet hs hc rfl rfl, hnext]
      rfl

theorem known_ops (h : opKnown w = true) : opcodeOf w = opR ∨ opcodeOf w = opI ∨
    opcodeOf w = opLoad ∨ opcodeOf w = opStore ∨ opcodeOf w = opBr ∨ opcodeOf w = opJal ∨
    opcodeOf w = opJalr ∨ opcodeOf w = opLui ∨ opcodeOf w = opAuipc ∨
    opcodeOf w = 0b1110011#7 ∨ opcodeOf w = 0b0001111#7 := by
  have hmem : opcodeOf w ∈ [opR, opI, opLoad, opStore, opBr, opJal, opJalr, opLui, opAuipc,
      0b1110011#7, 0b0001111#7] := List.contains_iff_mem.mp h
  simpa only [List.mem_cons, List.not_mem_nil, or_false] using hmem

def csrOf (d : CpuMcC.Datapath) : Zicsr.Command :=
  ⟨false, d.pc, CpuMcC.trapCause d, isMret d.instr, isCsr d.instr, csrAddr d.instr,
    CpuMcC.csrWsrc d, funct3Of d.instr⟩

/-- Every instruction but a load does in its one cycle what the interpreter does. -/
theorem Sees.executes (h : Sees f lines a d) (ht : CpuMcC.takeTrap d = false)
    (hk : opKnown f.word = true) (hr : (ctrlOf f.word).memRead = false) :
    execute bus lines a f = ends bus a d (Zicsr.step a.csr (csrOf d)) := by
  have ht : (CpuMcC.takeTrap d && true) = false := by rw [ht]; rfl
  by_cases hsys : opcodeOf f.word = 0b1110011#7 ∨ opcodeOf f.word = 0b0001111#7
  · rw [h.exec_other ht hsys, csrOf, h.pc, h.instr]
  rw [not_or] at hsys
  obtain ⟨hs, hm⟩ := not_system rfl hsys.1
  have hcsr : Zicsr.step a.csr (csrOf d) = a.csr :=
    Zicsr.step_idle _ rfl (by rw [csrOf, h.instr]; exact hm) (by rw [csrOf, h.instr]; exact hs)
  have hload : opcodeOf f.word ≠ opLoad := by
    intro ho
    rw [ctrlOf, ho] at hr
    exact Bool.false_ne_true hr.symm
  rw [hcsr]
  rcases known_ops hk with ho | ho | ho | ho | ho | ho | ho | ho | ho | ho | ho
  · exact h.exec_op ht ho
  · exact h.exec_opImm ht ho
  · exact absurd ho hload
  · exact h.exec_store ht ho
  · exact h.exec_branch ht ho
  · exact h.exec_jal ht ho
  · exact h.exec_jalr ht ho
  · exact h.exec_lui ht ho
  · exact h.exec_auipc ht ho
  · exact absurd ho hsys.1
  · exact absurd ho hsys.2

theorem load_of_memRead (hk : opKnown w = true) (hr : (ctrlOf w).memRead = true) :
    opcodeOf w = opLoad := by
  rw [ctrlOf] at hr
  rcases known_ops hk with ho | ho | ho | ho | ho | ho | ho | ho | ho | ho | ho
  case inr.inr.inl => exact ho
  all_goals
    rw [ho] at hr
    exact absurd hr Bool.false_ne_true

end sees

end RiscvScratch.Rv32imc
