import RiscvScratch.Clocked.Machine
import RiscvScratch.Trap.Zicsr
import RiscvScratch.Unified.Wires

/-! The single-cycle core with traps, privilege and atomics (`cpu_core.v`), with the slaves of
its data bus as part of the state. -/
namespace RiscvScratch

/-- What answers the data bus: a read is combinational and changes nothing. -/
structure Bus (μ : Type*) where
  read : μ → Word → BitVec 3 → Word
  write : μ → Word → Word → BitVec 3 → μ

def Bus.writeIf {μ : Type*} (bus : Bus μ) (m : μ) (we : Bool) (addr wdata : Word)
    (f3 : BitVec 3) : μ := if we then bus.write m addr wdata f3 else m

structure TrapEvent where
  mepc : Word
  mcause : Word
  deriving DecidableEq, Repr

def trapEvent (take : Bool) (pc cause : Word) : List TrapEvent :=
  if take then [⟨pc, cause⟩] else []

namespace CpuCore
open Sys

structure State (μ : Type*) where
  pc : Word
  regs : Regs
  csr : Zicsr.State
  resvValid : Bool
  resvAddr : Word
  mem : μ

section datapath
variable {μ : Type*} (fetch : Word → Word) (bus : Bus μ) (timer : Bool) (s : State μ)

def instr : Word := fetch s.pc
def ctrl : Ctrl := ctrlOf (instr fetch s)
def imm : Word := immOf (instr fetch s)
def rs1Data : Word := s.regs.read (rs1Of (instr fetch s))
def rs2Data : Word := s.regs.read (rs2Of (instr fetch s))

def lines : Zicsr.Lines := ⟨timer, false⟩
def irqPending : Bool := Zicsr.irqPending s.csr (lines timer)
def inUser : Bool := s.csr.priv == Csr.privU
def isAmoOp : Bool := opcodeOf (instr fetch s) == opAmo

def privViolation : Bool :=
  inUser s && (isMret (instr fetch s) || isCsr (instr fetch s))

def illegalInstr : Bool :=
  !(opKnown (instr fetch s) || isAmoOp fetch s) || privViolation fetch s

def exception : Bool :=
  illegalInstr fetch s || isEcall (instr fetch s) || isEbreak (instr fetch s)

def takeTrap : Bool := exception fetch s || irqPending timer s

def trapCause : Word :=
  if illegalInstr fetch s then 2#32
  else if isEcall (instr fetch s) then (if inUser s then 8#32 else 11#32)
  else if isEbreak (instr fetch s) then 3#32
  else 0x80000007#32

def csrWsrc : Word :=
  if (funct3Of (instr fetch s)).getLsbD 2 then (rs1Of (instr fetch s)).zeroExtend 32
  else rs1Data fetch s

def csrCommand : Zicsr.Command where
  takeTrap := takeTrap fetch timer s
  pc := s.pc
  trapCause := trapCause fetch s
  isMret := isMret (instr fetch s) && !takeTrap fetch timer s
  we := isCsr (instr fetch s) && !takeTrap fetch timer s
  addr := csrAddr (instr fetch s)
  wsrc := csrWsrc fetch s
  funct3 := funct3Of (instr fetch s)

def csrRdata : Word := Zicsr.rdata s.csr (lines timer) (csrAddr (instr fetch s))

def aluResult : Word :=
  alu true (if (ctrl fetch s).aluSrcA then s.pc else rs1Data fetch s)
    (if (ctrl fetch s).aluSrcB then imm fetch s else rs2Data fetch s) (ctrl fetch s).aluOp

def amoF5 : BitVec 5 := (funct7Of (instr fetch s)).extractLsb' 2 5
def isLr : Bool := isAmoOp fetch s && amoF5 fetch s == 0b00010#5
def isSc : Bool := isAmoOp fetch s && amoF5 fetch s == 0b00011#5
def isAmoRmw : Bool := isAmoOp fetch s && !isLr fetch s && !isSc fetch s

def dmemAddr : Word := if isAmoOp fetch s then rs1Data fetch s else aluResult fetch s
def dmemFunct3 : BitVec 3 := if isAmoOp fetch s then 0b010#3 else funct3Of (instr fetch s)
def memRdata : Word := bus.read s.mem (dmemAddr fetch s) (dmemFunct3 fetch s)

def amoAlu : Word := Unified.amoResult (amoF5 fetch s) (memRdata fetch bus s) (rs2Data fetch s)

def scOk : Bool := s.resvValid && s.resvAddr == rs1Data fetch s
def amoStore : Bool := isAmoRmw fetch s || (isSc fetch s && scOk fetch s)
def dmemWdata : Word := if isAmoRmw fetch s then amoAlu fetch bus s else rs2Data fetch s

def dmemWe : Bool :=
  if takeTrap fetch timer s then false else (ctrl fetch s).memWrite || amoStore fetch s

def branchTaken : Bool :=
  (ctrl fetch s).branch &&
    branchCond (funct3Of (instr fetch s)) (rs1Data fetch s) (rs2Data fetch s)

def nextPc : Word :=
  if takeTrap fetch timer s then s.csr.mtvec
  else if isMret (instr fetch s) then s.csr.mepc
  else if (ctrl fetch s).jalr then (aluResult fetch s).extractLsb' 1 31 ++ 0#1
  else if (ctrl fetch s).jump then s.pc + imm fetch s
  else if branchTaken fetch s then s.pc + imm fetch s
  else s.pc + 4#32

def wbData : Word :=
  match (ctrl fetch s).wbSel with
  | .alu => aluResult fetch s
  | .mem => memRdata fetch bus s
  | .pc4 => s.pc + 4#32
  | .imm => imm fetch s

def regWriteEff : Bool :=
  if takeTrap fetch timer s then false
  else if isCsr (instr fetch s) then true else (ctrl fetch s).regWrite

def wbFinal : Word :=
  if isCsr (instr fetch s) then csrRdata fetch timer s
  else if isSc fetch s then (if scOk fetch s then 0#32 else 1#32)
  else wbData fetch bus s

def step : State μ where
  pc := nextPc fetch timer s
  regs := s.regs.write (regWriteEff fetch timer s) (rdOf (instr fetch s))
    (wbFinal fetch bus timer s)
  csr := Zicsr.step s.csr (csrCommand fetch timer s)
  resvValid :=
    if takeTrap fetch timer s then false
    else if isLr fetch s then true
    else if isSc fetch s || isAmoRmw fetch s then false
    else s.resvValid
  resvAddr := if !takeTrap fetch timer s && isLr fetch s then rs1Data fetch s else s.resvAddr
  mem := bus.writeIf s.mem (dmemWe fetch timer s) (dmemAddr fetch s) (dmemWdata fetch bus s)
    (dmemFunct3 fetch s)

def regOut : List RegWrite :=
  regWriteEvent (regWriteEff fetch timer s) (rdOf (instr fetch s)) (wbFinal fetch bus timer s)

def memOut : List MemWrite :=
  memWriteEvent (dmemWe fetch timer s) (dmemAddr fetch s) (dmemWdata fetch bus s)
    (dmemFunct3 fetch s)

def trapOut : List TrapEvent := trapEvent (takeTrap fetch timer s) s.pc (trapCause fetch s)

end datapath

/-- The first cycle after reset; `resv_addr` is not reset. -/
def reset {μ : Type*} (resetPc resvAddr : Word) (regs : Regs) (mem : μ) : State μ :=
  ⟨resetPc, regs, Zicsr.reset, false, resvAddr, mem⟩

section run
variable {μ : Type*} (fetch : Word → Word) (bus : Bus μ) (timer : ℕ → Bool) (s : State μ)

def run : ℕ → State μ
  | 0 => s
  | k + 1 => step fetch bus (timer k) (run k)

def regTrace (k : ℕ) : List RegWrite :=
  Clocked.emitted (fun j => regOut fetch bus (timer j) (run fetch bus timer s j)) k

def memTrace (k : ℕ) : List MemWrite :=
  Clocked.emitted (fun j => memOut fetch bus (timer j) (run fetch bus timer s j)) k

def trapTrace (k : ℕ) : List TrapEvent :=
  Clocked.emitted (fun j => trapOut fetch (timer j) (run fetch bus timer s j)) k

end run
end CpuCore
end RiscvScratch
