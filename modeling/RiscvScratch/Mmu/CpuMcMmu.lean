import RiscvScratch.Clocked.Machine
import RiscvScratch.Core.Storage
import RiscvScratch.Mmu.Mmu
import RiscvScratch.Trap.Zicsr

/-! The multi-cycle core with a page-table walk on its data port (`cpu_mc_mmu.v`). The memories
answer a cycle late. -/
namespace RiscvScratch.CpuMcMmu
open Sys

inductive Fsm
  | fetch | exec | acc | accd | ptw1 | ptw1d | ptw0d | pf | halt
  deriving DecidableEq, Repr

structure State where
  fsm : Fsm
  pc : Word
  /-- The translated address. -/
  paReg : Word
  dpf : Bool
  dpfStore : Bool
  csr : Zicsr.State
  regs : Regs

structure Input where
  timerIrq : Bool
  halt : Bool
  imemRdata : Word
  dmemRdata : Word

def isMem (w : Word) : Bool := (ctrlOf w).memRead || (ctrlOf w).memWrite

section signals
variable (s : State) (i : Input)

def instr : Word := i.imemRdata
def inUser : Bool := s.csr.priv == Csr.privU
def lines : Zicsr.Lines := ⟨i.timerIrq, false⟩
def irqPending : Bool := Zicsr.irqPending s.csr (lines i)

def illegalInstr : Bool := !opKnown (instr i) || (inUser s && (isMret (instr i) || isCsr (instr i)))
def execExc : Bool := illegalInstr s i || isEcall (instr i) || isEbreak (instr i)
def execTrap : Bool := execExc s i || irqPending s i
def inExec : Bool := s.fsm == .exec
def inPf : Bool := s.fsm == .pf
def takeTrap : Bool := (execTrap s i && inExec s) || inPf s

def execCause : Word :=
  if illegalInstr s i then 2#32
  else if isEcall (instr i) then (if inUser s then 8#32 else 11#32)
  else if isEbreak (instr i) then 3#32
  else 0x80000007#32

def trapCause : Word :=
  if inPf s then (if s.dpfStore then 15#32 else 13#32) else execCause s i

def rs1Data : Word := s.regs.read (rs1Of (instr i))
def rs2Data : Word := s.regs.read (rs2Of (instr i))

def csrWsrc : Word :=
  if (funct3Of (instr i)).getLsbD 2 then (rs1Of (instr i)).zeroExtend 32 else rs1Data s i

def csrCommand : Zicsr.Command where
  takeTrap := takeTrap s i
  pc := s.pc
  trapCause := trapCause s i
  isMret := isMret (instr i) && inExec s && !execTrap s i
  we := isCsr (instr i) && inExec s && !execTrap s i
  addr := csrAddr (instr i)
  wsrc := csrWsrc s i
  funct3 := funct3Of (instr i)

def aluResult : Word :=
  alu true (if (ctrlOf (instr i)).aluSrcA then s.pc else rs1Data s i)
    (if (ctrlOf (instr i)).aluSrcB then immOf (instr i) else rs2Data s i) (ctrlOf (instr i)).aluOp

def xlateActive : Bool := inUser s && s.csr.satp.getLsbD 31
def pte1Addr : Word := Mmu.walkAddr1 s.csr.satp (aluResult s i)
def pte : Word := i.dmemRdata
def pteLeaf : Bool := Mmu.pteLeaf (pte i)
def pteBad : Bool := Mmu.pteBad (pte i)
def pte0Addr : Word := Mmu.walkAddr2 (pte i) (aluResult s i)
def paSuper : Word := Mmu.paSuper (pte i) (aluResult s i)
def pa4k : Word := Mmu.pa4k (pte i) (aluResult s i)

def permOk : Bool :=
  (pte i).getLsbD 4 && (((ctrlOf (instr i)).memRead && (pte i).getLsbD 1) ||
    ((ctrlOf (instr i)).memWrite && (pte i).getLsbD 2))

def memPa : Word := if xlateActive s then s.paReg else aluResult s i

def dmemAddr : Word :=
  match s.fsm with
  | .ptw1 => pte1Addr s i
  | .ptw1d => if pteBad i || pteLeaf i then pte1Addr s i else pte0Addr s i
  | .acc | .accd => memPa s i
  | _ => aluResult s i

def ba : ℕ := (aluResult s i).toNat % 4

def dmemWdata : Word :=
  if funct3Of (instr i) = 0b000#3 then
    ((rs2Data s i).extractLsb' 0 8).zeroExtend 32 <<< (8 * ba s i)
  else if funct3Of (instr i) = 0b001#3 then
    ((rs2Data s i).extractLsb' 0 16).zeroExtend 32 <<< (8 * ba s i)
  else rs2Data s i

def wmask : BitVec 4 :=
  if funct3Of (instr i) = 0b000#3 then 0b0001#4 <<< ba s i
  else if funct3Of (instr i) = 0b001#3 then 0b0011#4 <<< ba s i
  else 0b1111#4

def dmemWe : BitVec 4 :=
  if s.fsm == .acc && (ctrlOf (instr i)).memWrite then wmask s i else 0b0000#4

def loadVal : Word :=
  let byte : BitVec 8 := i.dmemRdata.extractLsb' (8 * ba s i) 8
  let half : BitVec 16 := i.dmemRdata.extractLsb' (16 * (ba s i / 2)) 16
  match funct3Of (instr i) with
  | 0b000#3 => byte.signExtend 32
  | 0b001#3 => half.signExtend 32
  | 0b100#3 => byte.zeroExtend 32
  | 0b101#3 => half.zeroExtend 32
  | _ => i.dmemRdata

def wbFinal : Word :=
  if isCsr (instr i) then Zicsr.rdata s.csr (lines i) (csrAddr (instr i))
  else match (ctrlOf (instr i)).wbSel with
    | .alu => aluResult s i
    | .mem => loadVal s i
    | .pc4 => s.pc + 4#32
    | .imm => immOf (instr i)

def branchTaken : Bool :=
  (ctrlOf (instr i)).branch && branchCond (funct3Of (instr i)) (rs1Data s i) (rs2Data s i)

def execNextPc : Word :=
  if execTrap s i then s.csr.mtvec
  else if isMret (instr i) then s.csr.mepc
  else if (ctrlOf (instr i)).jalr then (aluResult s i).extractLsb' 1 31 ++ 0#1
  else if (ctrlOf (instr i)).jump then s.pc + immOf (instr i)
  else if branchTaken s i then s.pc + immOf (instr i)
  else s.pc + 4#32

def rfWe : Bool :=
  if s.fsm == .exec && !execTrap s i && !isMem (instr i) then
    isCsr (instr i) || (ctrlOf (instr i)).regWrite
  else s.fsm == .accd && (ctrlOf (instr i)).regWrite

def control (s : State) (i : Input) : State :=
  if i.halt then { s with fsm := .halt }
  else match s.fsm with
    | .fetch => { s with fsm := .exec }
    | .exec =>
      if execTrap s i then { s with pc := execNextPc s i, fsm := .fetch }
      else if isMem (instr i) then { s with fsm := if xlateActive s then .ptw1 else .acc }
      else { s with pc := execNextPc s i, fsm := .fetch }
    | .ptw1 => { s with fsm := .ptw1d }
    | .ptw1d =>
      if pteBad i then { s with dpf := true, dpfStore := (ctrlOf (instr i)).memWrite, fsm := .pf }
      else if pteLeaf i then
        if !permOk i then
          { s with dpf := true, dpfStore := (ctrlOf (instr i)).memWrite, fsm := .pf }
        else { s with paReg := paSuper s i, fsm := .acc }
      else { s with fsm := .ptw0d }
    | .ptw0d =>
      if pteBad i || !pteLeaf i || !permOk i then
        { s with dpf := true, dpfStore := (ctrlOf (instr i)).memWrite, fsm := .pf }
      else { s with paReg := pa4k s i, fsm := .acc }
    | .acc =>
      if (ctrlOf (instr i)).memRead then { s with fsm := .accd }
      else { s with pc := s.pc + 4#32, fsm := .fetch }
    | .accd => { s with pc := s.pc + 4#32, fsm := .fetch }
    | .pf => { s with pc := s.csr.mtvec, dpf := false, fsm := .fetch }
    | .halt => s

/-- The CSRs and the register file do not look at `halt`. -/
def step : State :=
  { control s i with
    csr := Zicsr.step s.csr (csrCommand s i)
    regs := s.regs.write (rfWe s i) (rdOf (instr i)) (wbFinal s i) }

end signals

/-- The state after `rst` around any register file; `pa_reg` is not reset. -/
def reset (resetPc paReg : Word) (regs : Regs) : State :=
  ⟨.fetch, resetPc, paReg, false, false, Zicsr.reset, regs⟩

def machine (resetPc : Word) : Clocked.Machine State Input where
  init s := ∃ paReg regs, s = reset resetPc paReg regs
  step := step

abbrev Run (resetPc : Word) := (machine resetPc).Run

end RiscvScratch.CpuMcMmu
