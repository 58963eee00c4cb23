import RiscvScratch.Pipe.Datapath
import RiscvScratch.Clocked.Machine

/-! The five-stage core that predicts not taken (`cpu_pipe.v`). -/
namespace RiscvScratch.CpuPipe
open Pipe

structure State where
  pc : Word
  ifidPc : Word
  ifidInstr : Word
  back : Back

def flush (s : State) : Bool := s.back.exTaken
def stall (s : State) : Bool := s.back.loadUse s.ifidInstr && !flush s

def nextPc (s : State) : Word :=
  if flush s then s.back.exTarget else if stall s then s.pc else s.pc + 4#32

def step (img : Imem) (s : State) : State where
  pc := nextPc s
  ifidPc := if flush s then 0#32 else if stall s then s.ifidPc else s.pc
  ifidInstr := if flush s then nop else if stall s then s.ifidInstr else img.fetch s.pc
  back := s.back.advance
    (if flush s || stall s then IdEx.bubble else s.back.decode s.ifidPc s.ifidInstr)

def reset (resetPc : Word) (regs : Regs) (dmem : Dmem) : State :=
  ⟨resetPc, 0#32, nop, Back.reset regs dmem⟩

/-- The WB register writes of the first `n` cycles. -/
def regTrace (img : Imem) (s : State) (n : ℕ) : List RegWrite :=
  Clocked.emitted (fun t => ((step img)^[t] s).back.regOut) n

/-- The MEM data-memory writes of the first `n` cycles. -/
def memTrace (img : Imem) (s : State) (n : ℕ) : List MemWrite :=
  Clocked.emitted (fun t => ((step img)^[t] s).back.memOut) n

end RiscvScratch.CpuPipe
