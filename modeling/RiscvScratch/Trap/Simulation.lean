import RiscvScratch.Pipe.SimulationStep
import RiscvScratch.Trap.CpuPipeTrap

/-! The trapping pipeline against the single-cycle core, in the state in which the oldest
instruction not yet past EX starts; the CSRs, which EX owns, are equal. -/
namespace RiscvScratch

theorem Regs.write_congr (r : Regs) (we : Bool) {rd : BitVec 5} {v v' : Word}
    (h : rd = 0#5 ∨ v = v') : r.write we rd v = r.write we rd v' := by
  obtain rfl | rfl := h
  · simp
  · rfl

theorem regWriteEvent_congr (we : Bool) {rd : BitVec 5} {v v' : Word} (h : rd = 0#5 ∨ v = v') :
    regWriteEvent we rd v = regWriteEvent we rd v' := by
  obtain rfl | rfl := h
  · simp [regWriteEvent]
  · rfl

theorem Zicsr.rdata_congr (s : Zicsr.State) (l l' : Zicsr.Lines) {addr : BitVec 12}
    (h : addr ≠ Csr.mipA) : Zicsr.rdata s l addr = Zicsr.rdata s l' addr := by
  simp only [Zicsr.rdata, h, ↓reduceIte]

namespace CpuPipeTrap
open Sys
variable {μ : Type*} {fetch : Word → Word} {bus : Bus μ} {s : State μ} {a : CpuCore.State μ}
  {irq : Bool}

def archRegs (bus : Bus μ) (s : State μ) : Regs :=
  (s.regs.write s.memwb.regWrite s.memwb.rd s.memwb.data).write
    s.exmem.regWrite s.exmem.rd (memwbValue bus s)

def archMem (bus : Bus μ) (s : State μ) : μ :=
  bus.writeIf s.mem s.exmem.memWrite s.exmem.addr s.exmem.store s.exmem.funct3

/-- ID/EX for the instruction at `pc`, with operands as the register file has them. -/
def decoded (fetch : Word → Word) (regs : Regs) (pc : Word) : Pipe.IdEx :=
  Pipe.Back.decode ⟨.bubble, .zero, .zero, regs, fun _ => 0#8⟩ pc (fetch pc)

def afterIdex (s : State μ) (pc : Word) : Word := if s.sys.valid then pc + 4#32 else pc

def afterIfid (s : State μ) (pc : Word) : Word :=
  if s.ifidValid then afterIdex s pc + 4#32 else afterIdex s pc

def NoHazard (s : State μ) : Prop :=
  s.exmem.wbSel = .mem → s.exmem.regWrite = true → s.exmem.rd ≠ 0#5 →
    s.exmem.rd ≠ s.idex.rs1 ∧ s.exmem.rd ≠ s.idex.rs2

structure Inert (s : State μ) : Prop where
  rd : s.idex.regWrite = true → s.idex.rd = 0#5
  memRead : s.idex.memRead = false
  memWrite : s.idex.memWrite = false
  isCsr : s.sys.isCsr = false

/-- The CSR instruction in EX delivers `mip`. -/
def readsMip (irq : Bool) (s : State μ) : Bool :=
  csrCommit irq s && s.sys.csrAddr == Csr.mipA && s.idex.rd != 0#5

structure Sim (fetch : Word → Word) (bus : Bus μ) (s : State μ) (a : CpuCore.State μ) :
    Prop where
  regs : a.regs = archRegs bus s
  mem : a.mem = archMem bus s
  csr : a.csr = s.csr
  machine : s.csr.priv = Csr.privM
  idex : s.sys.valid = true → s.idex = decoded fetch s.regs a.pc
  sys : s.sys.valid = true → s.sys = decodeSys (fetch a.pc) true
  inert : s.sys.valid = false → Inert s
  hazard : s.sys.valid = true → NoHazard s
  ifid : s.ifidValid = true → s.ifidPc = afterIdex s a.pc ∧ s.ifidInstr = fetch (afterIdex s a.pc)
  ifidNop : s.ifidValid = false → s.ifidInstr = nop
  pc : s.pc = afterIfid s a.pc

theorem Sim.inUser_eq (h : Sim fetch bus s a) : CpuCore.inUser a = false := by
  rw [CpuCore.inUser, h.csr, h.machine]
  rfl

theorem notAmo (hamo : opcodeOf (fetch a.pc) ≠ opAmo) : CpuCore.isAmoOp fetch a = false := by
  simpa [CpuCore.isAmoOp, CpuCore.instr] using hamo

theorem Sim.irqPending_eq (h : Sim fetch bus s a) :
    CpuCore.irqPending (irqTake irq s) a = irqTake irq s := by
  rw [CpuCore.irqPending, h.csr]
  cases ht : irqTake irq s with
  | false => simp [Zicsr.irqPending, Zicsr.extFire, Zicsr.timerFire, CpuCore.lines]
  | true =>
    have hp : irqPending irq s = true := by
      simp only [irqTake, Bool.and_eq_true] at ht
      exact ht.1.1.1.2
    have hirq : irq = true := by
      by_contra hn
      simp [irqPending, Zicsr.irqPending, Zicsr.extFire, Zicsr.timerFire, lines,
        Bool.eq_false_of_not_eq_true hn] at hp
    rw [irqPending, hirq] at hp
    exact hp

section execute
variable (h : Sim fetch bus s a) (hv : s.sys.valid = true)
include h hv

theorem Sim.opA_eq : opA s = CpuCore.rs1Data fetch a := by
  rw [CpuCore.rs1Data, h.regs]
  exact (Pipe.Back.operands (b := stages s) (h.idex hv) (h.hazard hv) fun hm => if_neg hm).1

theorem Sim.opB_eq : opB s = CpuCore.rs2Data fetch a := by
  rw [CpuCore.rs2Data, h.regs]
  exact (Pipe.Back.operands (b := stages s) (h.idex hv) (h.hazard hv) fun hm => if_neg hm).2

theorem Sim.aluResult_eq : aluResult s = CpuCore.aluResult fetch a := by
  change alu true (if s.idex.aluSrcA then s.idex.pc else opA s)
    (if s.idex.aluSrcB then s.idex.imm else opB s) s.idex.aluOp = _
  rw [h.opA_eq hv, h.opB_eq hv, h.idex hv]
  rfl

theorem Sim.exTaken_eq :
    exTaken s = ((CpuCore.ctrl fetch a).jump || CpuCore.branchTaken fetch a) := by
  rw [exTaken, hv, Bool.true_and]
  change (s.idex.jump || (s.idex.branch && branchCond s.idex.funct3 (opA s) (opB s))) = _
  rw [h.opA_eq hv, h.opB_eq hv, h.idex hv]
  rfl

theorem Sim.csrWsrc_eq : csrWsrc s = CpuCore.csrWsrc fetch a := by
  rw [csrWsrc, h.opA_eq hv, h.idex hv]
  rfl

variable (hamo : opcodeOf (fetch a.pc) ≠ opAmo)
include hamo

theorem Sim.illegal_eq : CpuCore.illegalInstr fetch a = s.sys.illegal := by
  rw [CpuCore.illegalInstr, CpuCore.privViolation, h.inUser_eq, notAmo hamo, h.sys hv]
  simp [decodeSys, CpuCore.instr]

theorem Sim.exception_eq : CpuCore.exception fetch a = exception s := by
  rw [CpuCore.exception, h.illegal_eq hv hamo, exception, hv, h.sys hv]
  rfl

theorem Sim.takeTrap_eq : CpuCore.takeTrap fetch (irqTake irq s) a = takeTrap irq s := by
  rw [CpuCore.takeTrap, h.exception_eq hv hamo, h.irqPending_eq, takeTrap]

theorem Sim.trapCause_eq : CpuCore.trapCause fetch a = trapCause s := by
  rw [CpuCore.trapCause, h.illegal_eq hv hamo, h.inUser_eq, trapCause, h.sys hv]
  rfl

theorem Sim.csrCommand_eq : CpuCore.csrCommand fetch (irqTake irq s) a = csrCommand irq s := by
  rw [CpuCore.csrCommand, csrCommand, mretEx, csrCommit, h.takeTrap_eq hv hamo,
    h.trapCause_eq hv hamo, h.csrWsrc_eq hv, hv, h.sys hv, h.idex hv]
  rfl

theorem Sim.csr_commit :
    (CpuCore.step fetch bus (irqTake irq s) a).csr = (step bus irq s fetch).csr := by
  change Zicsr.step a.csr _ = Zicsr.step s.csr _
  rw [h.csr, h.csrCommand_eq hv hamo]

theorem Sim.nextPc_eq : CpuCore.nextPc fetch (irqTake irq s) a =
    if redirect irq s then redirectPc irq s else a.pc + 4#32 := by
  have hmret : isMret (CpuCore.instr fetch a) = s.sys.isMret := by rw [h.sys hv]; rfl
  have htgt : (stages s).exTarget = if (CpuCore.ctrl fetch a).jalr then
      (CpuCore.aluResult fetch a).extractLsb' 1 31 ++ 0#1 else a.pc + CpuCore.imm fetch a := by
    change (if s.idex.jalr then (aluResult s).extractLsb' 1 31 ++ 0#1 else s.idex.pc + s.idex.imm) =
      _
    rw [h.aluResult_eq hv, h.idex hv]
    rfl
  rw [CpuCore.nextPc, h.takeTrap_eq hv hamo, redirect, redirectPc, hmret, mretEx, hv,
    h.exTaken_eq hv, htgt, h.csr]
  cases takeTrap irq s with
  | true => rfl
  | false =>
    cases s.sys.isMret with
    | true => rfl
    | false =>
      have hj := (ctrlOf_wf (fetch a.pc)).jump_of_jalr
      change (CpuCore.ctrl fetch a).jalr = true → (CpuCore.ctrl fetch a).jump = true at hj
      cases h1 : (CpuCore.ctrl fetch a).jalr with
      | true => simp [hj h1]
      | false => cases h2 : (CpuCore.ctrl fetch a).jump <;> simp

theorem Sim.regWrite_eq : CpuCore.regWriteEff fetch (irqTake irq s) a = exRegWrite irq s := by
  rw [CpuCore.regWriteEff, h.takeTrap_eq hv hamo, exRegWrite, exSquash, h.sys hv, h.idex hv]
  rfl

theorem Sim.memWrite_eq : CpuCore.dmemWe fetch (irqTake irq s) a = exMemWrite irq s := by
  have hst : CpuCore.amoStore fetch a = false := by
    simp [CpuCore.amoStore, CpuCore.isAmoRmw, CpuCore.isSc, notAmo hamo]
  rw [CpuCore.dmemWe, h.takeTrap_eq hv hamo, hst, Bool.or_false, exMemWrite, exSquash, h.idex hv]
  rfl

theorem Sim.bus_eq : CpuCore.dmemAddr fetch a = aluResult s ∧
    CpuCore.dmemWdata fetch bus a = opB s ∧ CpuCore.dmemFunct3 fetch a = s.idex.funct3 := by
  have hrmw : CpuCore.isAmoRmw fetch a = false := by
    simp [CpuCore.isAmoRmw, notAmo hamo]
  refine ⟨?_, ?_, ?_⟩
  · rw [CpuCore.dmemAddr, notAmo hamo, h.aluResult_eq hv]
    rfl
  · rw [CpuCore.dmemWdata, hrmw, h.opB_eq hv]
    rfl
  · rw [CpuCore.dmemFunct3, notAmo hamo, h.idex hv]
    rfl

theorem Sim.wb_eq (hmip : readsMip irq s = false) (hnt : takeTrap irq s = false) :
    s.idex.rd = 0#5 ∨
      memwbValue bus (step bus irq s fetch) = CpuCore.wbFinal fetch bus (irqTake irq s) a := by
  have hcsr : isCsr (CpuCore.instr fetch a) = s.sys.isCsr := by rw [h.sys hv]; rfl
  have haddr : csrAddr (CpuCore.instr fetch a) = s.sys.csrAddr := by rw [h.sys hv]; rfl
  rw [CpuCore.wbFinal, hcsr]
  cases hc : s.sys.isCsr with
  | true =>
    rw [readsMip, csrCommit, hv, hc, hnt] at hmip
    by_cases hrd : s.idex.rd = 0#5
    · exact .inl hrd
    · have hm : s.sys.csrAddr ≠ Csr.mipA := by simpa [hrd] using hmip
      refine .inr ?_
      have hval : memwbValue bus (step bus irq s fetch) = csrRdata irq s := by
        simp [memwbValue, step, hc, exResult]
      rw [hval, csrRdata, if_pos rfl, CpuCore.csrRdata, haddr, h.csr]
      exact Zicsr.rdata_congr _ _ _ hm
  | false =>
    have hsc : CpuCore.isSc fetch a = false := by simp [CpuCore.isSc, notAmo hamo]
    obtain ⟨hba, -, hbf⟩ := h.bus_eq hv hamo
    have hmem : memRdata bus (step bus irq s fetch) = CpuCore.memRdata fetch bus a := by
      rw [CpuCore.memRdata, hba, hbf, h.mem]
      rfl
    have hsel : s.idex.wbSel = (CpuCore.ctrl fetch a).wbSel := by rw [h.idex hv]; rfl
    have hres : (stages s).exResult = if s.idex.wbSel = .pc4 then s.idex.pc + 4#32
        else if s.idex.wbSel = .imm then s.idex.imm else aluResult s := rfl
    have hpc : s.idex.pc = a.pc := by rw [h.idex hv]; rfl
    have himm : s.idex.imm = CpuCore.imm fetch a := by rw [h.idex hv]; rfl
    refine .inr ?_
    rw [memwbValue, hmem, hsc]
    simp only [step, hc, exResult, hres, hpc, himm, h.aluResult_eq hv, hsel, CpuCore.wbData,
      Bool.false_eq_true, ↓reduceIte]
    cases (CpuCore.ctrl fetch a).wbSel <;> simp

end execute

/-- A cycle in which EX does not leave M-mode and does not read `mip`. -/
structure Covered (irq : Bool) (s : State μ) : Prop where
  mret : mretEx irq s = true → s.csr.mstatus.extractLsb' 11 2 = Csr.privM
  mip : readsMip irq s = false

def commitStep (fetch : Word → Word) (bus : Bus μ) (irq : Bool) (s : State μ)
    (a : CpuCore.State μ) : CpuCore.State μ :=
  bif s.sys.valid then CpuCore.step fetch bus (irqTake irq s) a else a

theorem takeTrap_filler (hv : s.sys.valid = false) :
    takeTrap irq s = false ∧ redirect irq s = false := by
  simp [takeTrap, exception, irqTake, redirect, mretEx, exTaken, hv]

theorem archRegs_step : archRegs bus (step bus irq s fetch) =
    (archRegs bus s).write (exRegWrite irq s) s.idex.rd
      (memwbValue bus (step bus irq s fetch)) := rfl

theorem archMem_step : archMem bus (step bus irq s fetch) =
    bus.writeIf (archMem bus s) (exMemWrite irq s) (aluResult s) (opB s) s.idex.funct3 := rfl

theorem Sim.filler_rd (h : Sim fetch bus s a) (hv : s.sys.valid = false)
    (hw : exRegWrite irq s = true) : s.idex.rd = 0#5 := by
  have hi := h.inert hv
  exact hi.rd (by simpa [exRegWrite, exSquash, (takeTrap_filler hv).1, hi.isCsr] using hw)

section edge
variable (h : Sim fetch bus s a) (hamo : ∀ pc, opcodeOf (fetch pc) ≠ opAmo) (hc : Covered irq s)
include h hamo

include hc in
theorem Sim.commit_regs :
    (commitStep fetch bus irq s a).regs = archRegs bus (step bus irq s fetch) := by
  rw [archRegs_step, ← h.regs, commitStep]
  cases hv : s.sys.valid with
  | false =>
    cases hw : exRegWrite irq s with
    | false => simp
    | true => simp [h.filler_rd hv hw]
  | true =>
    have hrd : rdOf (CpuCore.instr fetch a) = s.idex.rd := by rw [h.idex hv]; rfl
    change a.regs.write _ _ _ = _
    rw [h.regWrite_eq hv (hamo _), hrd]
    cases ht : takeTrap irq s with
    | true => simp [exRegWrite, exSquash, ht]
    | false =>
      apply Regs.write_congr
      obtain hz | he := h.wb_eq hv (hamo _) hc.mip ht
      · exact .inl hz
      · exact .inr he.symm

theorem Sim.commit_mem :
    (commitStep fetch bus irq s a).mem = archMem bus (step bus irq s fetch) := by
  rw [archMem_step, ← h.mem, commitStep]
  cases hv : s.sys.valid with
  | false => simp [exMemWrite, (h.inert hv).memWrite, Bus.writeIf]
  | true =>
    obtain ⟨h1, h2, h3⟩ := h.bus_eq hv (hamo _)
    change bus.writeIf a.mem _ _ _ _ = _
    rw [h.memWrite_eq hv (hamo _), h1, h2, h3]

theorem Sim.commit_csr : (commitStep fetch bus irq s a).csr = (step bus irq s fetch).csr := by
  rw [commitStep]
  cases hv : s.sys.valid with
  | false =>
    change a.csr = Zicsr.step s.csr (csrCommand irq s)
    rw [h.csr, Zicsr.step_idle] <;> simp [csrCommand, mretEx, csrCommit, takeTrap_filler, hv]
  | true => exact h.csr_commit hv (hamo _)

omit hamo in
include hc in
theorem Sim.commit_machine : (step bus irq s fetch).csr.priv = Csr.privM := by
  change (Zicsr.step s.csr (csrCommand irq s)).priv = _
  unfold Zicsr.step
  split_ifs with ht hm hw
  · rfl
  · exact hc.mret hm
  · simp only [Zicsr.write]
    split_ifs <;> exact h.machine
  · exact h.machine

theorem Sim.commit_pc (hr : redirect irq s = false) :
    (commitStep fetch bus irq s a).pc = afterIdex s a.pc := by
  rw [commitStep, afterIdex]
  cases hv : s.sys.valid with
  | false => rfl
  | true =>
    change CpuCore.nextPc fetch (irqTake irq s) a = _
    rw [h.nextPc_eq hv (hamo _), hr]
    rfl

theorem Sim.commit_target (hr : redirect irq s = true) :
    (commitStep fetch bus irq s a).pc = redirectPc irq s := by
  have hv : s.sys.valid = true := by
    by_contra hv
    simp [(takeTrap_filler (Bool.eq_false_of_not_eq_true hv)).2] at hr
  rw [commitStep, hv]
  change CpuCore.nextPc fetch (irqTake irq s) a = _
  rw [h.nextPc_eq hv (hamo _), hr, if_pos rfl]

end edge

theorem decode_eq (s : State μ) (pc : Word) :
    (stages s).decode pc (fetch pc) = decoded fetch (step bus irq s fetch).regs pc := by
  refine Pipe.Back.decode_settled (fun r => ?_) pc _
  rw [step, Regs.read_write, Pipe.Back.dataId]
  rfl

theorem Sim.next_hazard (h : Sim fetch bus s a) (hf : flush irq s = false)
    (hs : stall irq s = false) : NoHazard (step bus irq s fetch) := by
  have hb : bubble irq s = false := by simp [bubble, hf, hs]
  intro hm hw h0
  change (if s.sys.isCsr then WbSel.alu else s.idex.wbSel) = _ at hm
  change exRegWrite irq s = _ at hw
  change s.idex.rd ≠ _ at h0
  have hid : (step bus irq s fetch).idex = (stages s).decode s.ifidPc s.ifidInstr := by
    simp [step, hb]
  rw [hid]
  change s.idex.rd ≠ rs1Of s.ifidInstr ∧ s.idex.rd ≠ rs2Of s.ifidInstr
  cases hc : s.sys.isCsr with
  | true => simp [hc] at hm
  | false =>
    rw [hc] at hm
    have hread : s.idex.memRead = true := by
      cases hv : s.sys.valid with
      | true =>
        rw [h.idex hv] at hm ⊢
        exact (ctrlOf_wf (fetch a.pc)).wbSel_mem.mp hm
      | false =>
        have hw' : s.idex.regWrite = true := by
          simpa [exRegWrite, exSquash, (takeTrap_filler hv).1, hc] using hw
        exact absurd ((h.inert hv).rd hw') h0
    have hl : loadUse s = false := by simpa [stall, hf] using hs
    have h0' : (s.idex.rd != 0#5) = true := by simpa using h0
    have hl' : (s.idex.memRead && s.idex.rd != 0#5 &&
        (s.idex.rd == rs1Of s.ifidInstr || s.idex.rd == rs2Of s.ifidInstr)) = false := hl
    simpa only [hread, h0', Bool.true_and, Bool.or_eq_false_iff, beq_eq_false_iff_ne] using hl'

theorem bubble_inert {s' : State μ} (hi : s'.idex = Pipe.IdEx.bubble)
    (hs : s'.sys = SysEx.bubble) : Inert s' := by
  constructor <;> simp [hi, hs, Pipe.IdEx.bubble, SysEx.bubble]

theorem nop_inert {s s' : State μ} {pc : Word} (hi : s'.idex = (stages s).decode pc nop)
    (hs : s'.sys = decodeSys nop false) : Inert s' := by
  obtain ⟨hrd, hmr, hmw, -⟩ := Pipe.nop_inert (stages s) pc
  rw [← hi] at hrd hmr hmw
  exact ⟨hrd, hmr, hmw, by rw [hs]; decide⟩

section step
variable (h : Sim fetch bus s a) (hamo : ∀ pc, opcodeOf (fetch pc) ≠ opAmo) (hc : Covered irq s)
include h hamo hc

theorem Sim.step_bubble (hb : bubble irq s = true)
    (hif : (step bus irq s fetch).ifidValid = true →
      (step bus irq s fetch).ifidPc = (commitStep fetch bus irq s a).pc ∧
        (step bus irq s fetch).ifidInstr = fetch (commitStep fetch bus irq s a).pc)
    (hnop : (step bus irq s fetch).ifidValid = false → (step bus irq s fetch).ifidInstr = nop)
    (hpc : (step bus irq s fetch).pc = if (step bus irq s fetch).ifidValid then
      (commitStep fetch bus irq s a).pc + 4#32 else (commitStep fetch bus irq s a).pc) :
    Sim fetch bus (step bus irq s fetch) (commitStep fetch bus irq s a) := by
  have hsys : (step bus irq s fetch).sys = SysEx.bubble := by simp [step, hb]
  have hid : (step bus irq s fetch).idex = Pipe.IdEx.bubble := by simp [step, hb]
  have hnext (pc : Word) : afterIdex (step bus irq s fetch) pc = pc := by
    rw [afterIdex, hsys]
    rfl
  exact {
    regs := h.commit_regs hamo hc
    mem := h.commit_mem hamo
    csr := h.commit_csr hamo
    machine := h.commit_machine hc
    idex := by simp [hsys, SysEx.bubble]
    sys := by simp [hsys, SysEx.bubble]
    inert := fun _ => bubble_inert hid hsys
    hazard := by simp [hsys, SysEx.bubble]
    ifid := by rwa [hnext]
    ifidNop := hnop
    pc := by rwa [afterIfid, hnext] }

theorem Sim.step_flush (hf : flush irq s = true) :
    Sim fetch bus (step bus irq s fetch) (commitStep fetch bus irq s a) := by
  refine h.step_bubble hamo hc (by simp [bubble, hf]) (by simp [step, hf])
    (fun _ => by simp [step, hf]) ?_
  simp [step, hf, h.commit_target hamo hf]

theorem Sim.step_stall (hf : flush irq s = false) (hs : stall irq s = true) :
    Sim fetch bus (step bus irq s fetch) (commitStep fetch bus irq s a) := by
  have hif : (step bus irq s fetch).ifidValid = s.ifidValid := by simp [step, hf, hs]
  refine h.step_bubble hamo hc (by simp [bubble, hs]) (fun hv => ?_) (fun hv => ?_) ?_
  · rw [h.commit_pc hamo hf]
    simpa [step, hf, hs] using h.ifid (hif ▸ hv)
  · simpa [step, hf, hs] using h.ifidNop (hif ▸ hv)
  · rw [hif, h.commit_pc hamo hf]
    simpa [step, hf, hs, afterIfid] using h.pc

theorem Sim.step_move (hf : flush irq s = false) (hs : stall irq s = false) :
    Sim fetch bus (step bus irq s fetch) (commitStep fetch bus irq s a) := by
  have hb : bubble irq s = false := by simp [bubble, hf, hs]
  have hsys : (step bus irq s fetch).sys = decodeSys s.ifidInstr s.ifidValid := by
    simp [step, hb]
  have hid : (step bus irq s fetch).idex = (stages s).decode s.ifidPc s.ifidInstr := by
    simp [step, hb]
  have hv' : (step bus irq s fetch).sys.valid = s.ifidValid := by rw [hsys]; rfl
  have hif : (step bus irq s fetch).ifidValid = true := by simp [step, hf, hs]
  have hpc := h.commit_pc hamo hf
  have hnext : afterIdex (step bus irq s fetch) (commitStep fetch bus irq s a).pc = s.pc := by
    rw [afterIdex, hv', hpc, h.pc]
    rfl
  exact {
    regs := h.commit_regs hamo hc
    mem := h.commit_mem hamo
    csr := h.commit_csr hamo
    machine := h.commit_machine hc
    idex := fun hv => by
      obtain ⟨hp, hi⟩ := h.ifid (hv' ▸ hv)
      rw [hid, hp, hi, hpc]
      exact decode_eq s _
    sys := fun hv => by
      have hw : s.ifidValid = true := hv' ▸ hv
      rw [hsys, (h.ifid hw).2, hpc, hw]
    inert := fun hv => by
      have hw : s.ifidValid = false := hv' ▸ hv
      have hn := h.ifidNop hw
      exact nop_inert (hn ▸ hid) (by rw [hsys, hn, hw])
    hazard := fun _ => h.next_hazard hf hs
    ifid := fun _ => by
      rw [hnext]
      simp [step, hf, hs]
    ifidNop := by simp [hif]
    pc := by
      rw [afterIfid, hif, hnext]
      simp [step, hf, hs] }

theorem Sim.step : Sim fetch bus (step bus irq s fetch) (commitStep fetch bus irq s a) := by
  cases hf : flush irq s with
  | true => exact h.step_flush hamo hc hf
  | false =>
    cases hs : stall irq s with
    | true => exact h.step_stall hamo hc hf hs
    | false => exact h.step_move hamo hc hf hs

end step

theorem Sim.reset (fetch : Word → Word) (bus : Bus μ) (resetPc resvAddr : Word) (regs : Regs)
    (mem : μ) :
    Sim fetch bus (reset resetPc regs mem) (CpuCore.reset resetPc resvAddr regs mem) where
  regs := by simp [CpuCore.reset, archRegs, CpuPipeTrap.reset, Pipe.ExMem.zero, Pipe.MemWb.zero]
  mem := by simp [CpuCore.reset, archMem, CpuPipeTrap.reset, Pipe.ExMem.zero, Bus.writeIf]
  csr := rfl
  machine := rfl
  idex := by simp [CpuPipeTrap.reset, SysEx.bubble]
  sys := by simp [CpuPipeTrap.reset, SysEx.bubble]
  inert _ := bubble_inert rfl rfl
  hazard := by simp [CpuPipeTrap.reset, SysEx.bubble]
  ifid := by simp [CpuPipeTrap.reset]
  ifidNop _ := rfl
  pc := rfl

end CpuPipeTrap
end RiscvScratch
