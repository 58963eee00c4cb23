import RiscvScratch.Pipe.Datapath
import RiscvScratch.Core.Predictor
import RiscvScratch.Clocked.Machine

/-! The five-stage core that speculates with a BTB (`cpu_pipe_bp.v`). -/
namespace RiscvScratch.CpuPipeBp
open Pipe

structure Perf where
  cycles : Word
  ctrl : Word
  taken : Word
  mispred : Word

structure State where
  pc : Word
  ifidPc : Word
  ifidInstr : Word
  ifidPredTaken : Bool
  ifidPredTarget : Word
  idexPredTaken : Bool
  idexPredTarget : Word
  back : Back
  bp : BranchPredictor.State
  perf : Perf

section wires
variable (idxBits : ℕ) (s : State)

def predictTaken : Bool := BranchPredictor.predictTaken idxBits s.bp s.pc
def predictTarget : Word := BranchPredictor.predictTarget idxBits s.bp s.pc

def exIsCtrl : Bool := s.back.idex.branch || s.back.idex.jump || s.back.idex.jalr
def dirWrong : Bool := exIsCtrl s && s.back.exTaken != s.idexPredTaken
def tgtWrong : Bool :=
  exIsCtrl s && s.back.exTaken && s.idexPredTaken && s.back.exTarget != s.idexPredTarget
def mispred : Bool := dirWrong s || tgtWrong s
def redirectPc : Word := if s.back.exTaken then s.back.exTarget else s.back.pcPlus4

def flush : Bool := mispred s
def stall : Bool := s.back.loadUse s.ifidInstr && !flush s

def nextPc : Word :=
  if flush s then redirectPc s
  else if stall s then s.pc
  else if predictTaken idxBits s then predictTarget idxBits s
  else s.pc + 4#32

def update : BranchPredictor.Update where
  en := exIsCtrl s
  pc := s.back.idex.pc
  taken := s.back.exTaken
  isJump := s.back.idex.jump || s.back.idex.jalr
  target := s.back.exTarget

def nextPerf : Perf where
  cycles := s.perf.cycles + 1#32
  ctrl := if exIsCtrl s then s.perf.ctrl + 1#32 else s.perf.ctrl
  taken := if exIsCtrl s && s.back.exTaken then s.perf.taken + 1#32 else s.perf.taken
  mispred := if exIsCtrl s && mispred s then s.perf.mispred + 1#32 else s.perf.mispred

end wires

def step (idxBits : ℕ) (img : Imem) (s : State) : State where
  pc := nextPc idxBits s
  ifidPc := if flush s then 0#32 else if stall s then s.ifidPc else s.pc
  ifidInstr := if flush s then nop else if stall s then s.ifidInstr else img.fetch s.pc
  ifidPredTaken :=
    if flush s then false else if stall s then s.ifidPredTaken else predictTaken idxBits s
  ifidPredTarget :=
    if flush s then 0#32 else if stall s then s.ifidPredTarget else predictTarget idxBits s
  idexPredTaken := if flush s || stall s then false else s.ifidPredTaken
  idexPredTarget := if flush s || stall s then 0#32 else s.ifidPredTarget
  back := s.back.advance
    (if flush s || stall s then IdEx.bubble else s.back.decode s.ifidPc s.ifidInstr)
  bp := BranchPredictor.step idxBits s.bp (update s)
  perf := nextPerf s

def reset (resetPc : Word) (regs : Regs) (dmem : Dmem) : State where
  pc := resetPc
  ifidPc := 0#32
  ifidInstr := nop
  ifidPredTaken := false
  ifidPredTarget := 0#32
  idexPredTaken := false
  idexPredTarget := 0#32
  back := Back.reset regs dmem
  bp := BranchPredictor.reset
  perf := ⟨0#32, 0#32, 0#32, 0#32⟩

/-- The WB register writes of the first `n` cycles. -/
def regTrace (idxBits : ℕ) (img : Imem) (s : State) (n : ℕ) : List RegWrite :=
  Clocked.emitted (fun t => ((step idxBits img)^[t] s).back.regOut) n

/-- The MEM data-memory writes of the first `n` cycles. -/
def memTrace (idxBits : ℕ) (img : Imem) (s : State) (n : ℕ) : List MemWrite :=
  Clocked.emitted (fun t => ((step idxBits img)^[t] s).back.memOut) n

end RiscvScratch.CpuPipeBp
