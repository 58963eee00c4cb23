import RiscvScratch.Pipe.Datapath
import RiscvScratch.Trap.CpuCore

/-! The five-stage core with precise traps (`cpu_pipe_trap.v`): `cpu_pipe` with CSRs, and traps
that are committed in EX. -/
namespace RiscvScratch.CpuPipeTrap
open Sys

/-- What ID/EX has beside the registers of `cpu_pipe`. -/
structure SysEx where
  csrAddr : BitVec 12
  isCsr : Bool
  isMret : Bool
  ecall : Bool
  ebreak : Bool
  illegal : Bool
  valid : Bool

def SysEx.bubble : SysEx := ⟨0#12, false, false, false, false, false, false⟩

structure State (μ : Type*) where
  pc : Word
  ifidPc : Word
  ifidInstr : Word
  /-- Low for the filler of a flush. -/
  ifidValid : Bool
  idex : Pipe.IdEx
  sys : SysEx
  exmem : Pipe.ExMem
  memwb : Pipe.MemWb
  regs : Regs
  csr : Zicsr.State
  mem : μ

section signals
variable {μ : Type*} (bus : Bus μ) (timerIrq : Bool) (s : State μ)

/-- The registers shared with `cpu_pipe`, for the wires that are the same text there. None of those
reads the data memory. -/
def stages : Pipe.Back := ⟨s.idex, s.exmem, s.memwb, s.regs, fun _ => 0#8⟩

def opA : Word := (stages s).opA
def opB : Word := (stages s).opB
def aluResult : Word := (stages s).aluResult
def loadUse : Bool := (stages s).loadUse s.ifidInstr
def exTaken : Bool := s.sys.valid && (stages s).exTaken

def lines : Zicsr.Lines := ⟨timerIrq, false⟩
def irqPending : Bool := Zicsr.irqPending s.csr (lines timerIrq)
def csrRdata : Word := Zicsr.rdata s.csr (lines timerIrq) s.sys.csrAddr

def csrWsrc : Word :=
  if s.idex.funct3.getLsbD 2 then s.idex.rs1.zeroExtend 32 else opA s

def exception : Bool := s.sys.valid && (s.sys.illegal || s.sys.ecall || s.sys.ebreak)

def irqTake : Bool :=
  s.sys.valid && irqPending timerIrq s && !exception s && !s.sys.isMret && !s.sys.isCsr

def takeTrap : Bool := exception s || irqTake timerIrq s
def mretEx : Bool := s.sys.valid && s.sys.isMret && !takeTrap timerIrq s
def csrCommit : Bool := s.sys.valid && s.sys.isCsr && !takeTrap timerIrq s

def trapCause : Word :=
  if s.sys.illegal then 2#32
  else if s.sys.ecall then 11#32
  else if s.sys.ebreak then 3#32
  else 0x80000007#32

def csrCommand : Zicsr.Command where
  takeTrap := takeTrap timerIrq s
  pc := s.idex.pc
  trapCause := trapCause s
  isMret := mretEx timerIrq s
  we := csrCommit timerIrq s
  addr := s.sys.csrAddr
  wsrc := csrWsrc s
  funct3 := s.idex.funct3

def redirect : Bool := takeTrap timerIrq s || mretEx timerIrq s || exTaken s

def redirectPc : Word :=
  if takeTrap timerIrq s then s.csr.mtvec
  else if mretEx timerIrq s then s.csr.mepc
  else (stages s).exTarget

def flush : Bool := redirect timerIrq s
def stall : Bool := loadUse s && !flush timerIrq s
def exSquash : Bool := takeTrap timerIrq s

def exResult : Word := if s.sys.isCsr then csrRdata timerIrq s else (stages s).exResult

def exRegWrite : Bool :=
  if exSquash timerIrq s then false else if s.sys.isCsr then true else s.idex.regWrite

def exMemWrite : Bool := if exSquash timerIrq s then false else s.idex.memWrite

def memRdata : Word := bus.read s.mem s.exmem.addr s.exmem.funct3
def memwbValue : Word := if s.exmem.wbSel = .mem then memRdata bus s else s.exmem.result

def decodeSys (instr : Word) (valid : Bool) : SysEx where
  csrAddr := csrAddr instr
  isCsr := isCsr instr
  isMret := isMret instr
  ecall := isEcall instr
  ebreak := isEbreak instr
  illegal := !opKnown instr
  valid := valid

def bubble : Bool := flush timerIrq s || stall timerIrq s

def step (fetch : Word → Word) : State μ where
  pc := if flush timerIrq s then redirectPc timerIrq s
    else if stall timerIrq s then s.pc else s.pc + 4#32
  ifidPc := if flush timerIrq s then 0#32 else if stall timerIrq s then s.ifidPc else s.pc
  ifidInstr := if flush timerIrq s then nop
    else if stall timerIrq s then s.ifidInstr else fetch s.pc
  ifidValid := if flush timerIrq s then false else if stall timerIrq s then s.ifidValid else true
  idex := if bubble timerIrq s then Pipe.IdEx.bubble
    else (stages s).decode s.ifidPc s.ifidInstr
  sys := if bubble timerIrq s then SysEx.bubble else decodeSys s.ifidInstr s.ifidValid
  exmem := {
    regWrite := exRegWrite timerIrq s
    memRead := s.idex.memRead && !exSquash timerIrq s
    memWrite := exMemWrite timerIrq s
    rd := s.idex.rd
    result := exResult timerIrq s
    addr := aluResult s
    store := opB s
    funct3 := s.idex.funct3
    wbSel := if s.sys.isCsr then .alu else s.idex.wbSel }
  memwb := ⟨s.exmem.regWrite, s.exmem.rd, memwbValue bus s⟩
  regs := s.regs.write s.memwb.regWrite s.memwb.rd s.memwb.data
  csr := Zicsr.step s.csr (csrCommand timerIrq s)
  mem := bus.writeIf s.mem s.exmem.memWrite s.exmem.addr s.exmem.store s.exmem.funct3

def regOut : List RegWrite := regWriteEvent s.memwb.regWrite s.memwb.rd s.memwb.data

def memOut : List MemWrite :=
  memWriteEvent s.exmem.memWrite s.exmem.addr s.exmem.store s.exmem.funct3

def trapOut : List TrapEvent := trapEvent (takeTrap timerIrq s) s.idex.pc (trapCause s)

end signals

def reset {μ : Type*} (resetPc : Word) (regs : Regs) (mem : μ) : State μ where
  pc := resetPc
  ifidPc := 0#32
  ifidInstr := nop
  ifidValid := false
  idex := .bubble
  sys := .bubble
  exmem := .zero
  memwb := .zero
  regs := regs
  csr := Zicsr.reset
  mem := mem

/-- The core and its bus, clocked with `timer_irq`. -/
def machine {μ : Type*} (fetch : Word → Word) (bus : Bus μ) (resetPc : Word) :
    Clocked.Machine (State μ) Bool where
  init s := ∃ regs mem, s = reset resetPc regs mem
  step s timerIrq := step bus timerIrq s fetch

abbrev Run {μ : Type*} (fetch : Word → Word) (bus : Bus μ) (resetPc : Word) :=
  (machine fetch bus resetPc).Run

section run
variable {μ : Type*} {fetch : Word → Word} {bus : Bus μ} {resetPc : Word}
  (r : Run fetch bus resetPc)

/-- The WB register writes of the first `n` cycles. -/
def regTrace (n : ℕ) : List RegWrite := Clocked.emitted (fun t => regOut (r.state t)) n

/-- The data-bus writes of the first `n` cycles. -/
def memTrace (n : ℕ) : List MemWrite := Clocked.emitted (fun t => memOut (r.state t)) n

/-- The traps taken in the first `n` cycles. -/
def trapTrace (n : ℕ) : List TrapEvent :=
  Clocked.emitted (fun t => trapOut (r.input t) (r.state t)) n

end run
end RiscvScratch.CpuPipeTrap
