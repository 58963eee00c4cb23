import RiscvScratch.Core.Storage
import RiscvScratch.Clocked.Refinement

/-! The single-cycle core (`cpu.v`): one instruction per clock edge. -/
namespace RiscvScratch.Cpu

structure State where
  pc : Word
  regs : Regs
  dmem : Dmem

section datapath
variable (img : Imem) (s : State)

def instr : Word := img.fetch s.pc
def ctrl : Ctrl := ctrlOf (instr img s)
def imm : Word := immOf (instr img s)
def rs1Data : Word := s.regs.read (rs1Of (instr img s))
def rs2Data : Word := s.regs.read (rs2Of (instr img s))
def aluA : Word := if (ctrl img s).aluSrcA then s.pc else rs1Data img s
def aluB : Word := if (ctrl img s).aluSrcB then imm img s else rs2Data img s
def aluResult : Word := alu true (aluA img s) (aluB img s) (ctrl img s).aluOp
def memRdata : Word := s.dmem.read (aluResult img s) (funct3Of (instr img s))

def branchTaken : Bool :=
  (ctrl img s).branch && branchCond (funct3Of (instr img s)) (rs1Data img s) (rs2Data img s)

def pcTarget : Word := s.pc + imm img s
def jalrTarget : Word := (aluResult img s).extractLsb' 1 31 ++ 0#1

def nextPc : Word :=
  if (ctrl img s).jalr then jalrTarget img s
  else if (ctrl img s).jump then pcTarget img s
  else if branchTaken img s then pcTarget img s
  else s.pc + 4#32

def wbData : Word :=
  match (ctrl img s).wbSel with
  | .alu => aluResult img s
  | .mem => memRdata img s
  | .pc4 => s.pc + 4#32
  | .imm => imm img s

def step : State where
  pc := nextPc img s
  regs := s.regs.write (ctrl img s).regWrite (rdOf (instr img s)) (wbData img s)
  dmem := s.dmem.write (ctrl img s).memWrite (aluResult img s) (rs2Data img s)
    (funct3Of (instr img s))

/-- The register write of this cycle, if it is not to `x0`. -/
def regOut : List RegWrite :=
  regWriteEvent (ctrl img s).regWrite (rdOf (instr img s)) (wbData img s)

def memOut : List MemWrite :=
  memWriteEvent (ctrl img s).memWrite (aluResult img s) (rs2Data img s) (funct3Of (instr img s))

end datapath

def reset (resetPc : Word) (regs : Regs) (dmem : Dmem) : State := ⟨resetPc, regs, dmem⟩

/-- The register writes of the first `k` cycles. -/
def regTrace (img : Imem) (s : State) (k : ℕ) : List RegWrite :=
  Clocked.seqTrace (step img) (regOut img) s k

def memTrace (img : Imem) (s : State) (k : ℕ) : List MemWrite :=
  Clocked.seqTrace (step img) (memOut img) s k

end RiscvScratch.Cpu
