import RiscvScratch.Compressed.CpuMcC

/-! The multi-cycle core (`cpu_mc.v`). Its datapath is that of `cpu_mc_c` on instructions that are
never compressed. -/
namespace RiscvScratch.CpuMc
open Sys

open CpuMcC (Fsm Datapath Input takeTrap trapCause csrWsrc aluResult dmemWdata wmask wbFinal nextPc)

structure State where
  state : Fsm
  pc : Word
  csr : Zicsr.State
  regs : Regs

section wires
variable (s : State) (i : Input)

def imemAddr : Word := s.pc
def instr : Word := i.imemRdata
def inExec : Bool := s.state == .exec
def inMem : Bool := s.state == .mem

def datapath : Datapath where
  pc := s.pc
  instr := instr i
  isC := false
  raw16 := 0
  rs1Data := s.regs.read (rs1Of (instr i))
  rs2Data := s.regs.read (rs2Of (instr i))
  csr := s.csr
  lines := i.lines

def traps : Bool := takeTrap (datapath s i)
def memRead : Bool := (ctrlOf (instr i)).memRead
def memWrite : Bool := (ctrlOf (instr i)).memWrite

def dmemAddr : Word := aluResult (datapath s i)
def wdata : Word := dmemWdata (datapath s i)

/-- Gated by the trap. -/
def dmemWe : BitVec 4 :=
  if inExec s && memWrite i && !traps s i then wmask (datapath s i) else 0b0000#4

/-- Not gated by the trap. -/
def dmemRe : Bool := memRead i && (inExec s || inMem s)

def csrCommand : Zicsr.Command where
  takeTrap := traps s i && inExec s
  pc := s.pc
  trapCause := trapCause (datapath s i)
  isMret := isMret (instr i) && inExec s && !traps s i
  we := isCsr (instr i) && inExec s && !traps s i
  addr := csrAddr (instr i)
  wsrc := csrWsrc (datapath s i)
  funct3 := funct3Of (instr i)

def rfWe : Bool :=
  if inExec s && !traps s i && !memRead i then isCsr (instr i) || (ctrlOf (instr i)).regWrite
  else inMem s && (ctrlOf (instr i)).regWrite

def writeBack : Word := wbFinal (datapath s i) i.dmemRdata
def next : Word := nextPc (datapath s i) (inExec s)

/-- `pc <= next_pc; state <= S_FETCH`. -/
def finish : State := { s with pc := next s i, state := .fetch }

def fsm : State :=
  if i.halt then { s with state := .halt }
  else match s.state with
    | .fetch => { s with state := .exec }
    | .exec =>
      if traps s i then finish s i
      else if memRead i then { s with state := .mem }
      else finish s i
    | .mem => finish s i
    | .halt => { s with state := .halt }

/-- The CSRs and the register file do not look at `halt`. -/
def step : State :=
  { fsm s i with
    csr := Zicsr.step s.csr (csrCommand s i)
    regs := s.regs.write (rfWe s i) (rdOf (instr i)) (writeBack s i) }

end wires

/-- The state after `rst` around any register file. -/
def reset (resetPc : Word) (regs : Regs) : State := ⟨.fetch, resetPc, Zicsr.reset, regs⟩

def machine (resetPc : Word) : Clocked.Machine State Input where
  init s := ∃ regs, s = reset resetPc regs
  step := step

abbrev Run (resetPc : Word) := (machine resetPc).Run

end RiscvScratch.CpuMc
