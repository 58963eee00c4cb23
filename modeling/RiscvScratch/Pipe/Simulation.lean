import RiscvScratch.Pipe.Cpu
import RiscvScratch.Pipe.Datapath

/-! The pipeline against the single-cycle core, for any front end that guesses the next PC. The
abstract state is the one in which the oldest instruction not yet past EX starts. -/
namespace RiscvScratch.Pipe

structure Front where
  pc : Word
  ifidPc : Word
  ifidInstr : Word
  ifidPredTaken : Bool
  ifidPredTarget : Word
  idexPredTaken : Bool
  idexPredTarget : Word

/-- Control instructions are the only ones whose guess EX checks. -/
def isCtrl (instr : Word) : Bool :=
  (ctrlOf instr).branch || (ctrlOf instr).jump || (ctrlOf instr).jalr

def predNext (pc : Word) (taken : Bool) (target : Word) : Word :=
  if taken then target else pc + 4#32

structure Spec where
  front : Front
  back : Back
  vIfid : Bool
  vIdex : Bool

namespace Spec
variable (img : Imem) (s : Spec)

def exIsCtrl : Bool := s.back.idex.branch || s.back.idex.jump || s.back.idex.jalr

def flush : Bool :=
  exIsCtrl s && (s.back.exTaken != s.front.idexPredTaken ||
    (s.back.exTaken && s.front.idexPredTaken && s.back.exTarget != s.front.idexPredTarget))

def stall : Bool := s.back.loadUse s.front.ifidInstr && !flush s

def step (guess : Bool × Word) : Spec where
  front := {
    pc := if flush s then (if s.back.exTaken then s.back.exTarget else s.back.pcPlus4)
      else if stall s then s.front.pc else predNext s.front.pc guess.1 guess.2
    ifidPc := if flush s then 0#32 else if stall s then s.front.ifidPc else s.front.pc
    ifidInstr := if flush s then nop else if stall s then s.front.ifidInstr
      else img.fetch s.front.pc
    ifidPredTaken := if flush s then false else if stall s then s.front.ifidPredTaken
      else guess.1
    ifidPredTarget := if flush s then 0#32 else if stall s then s.front.ifidPredTarget
      else guess.2
    idexPredTaken := if flush s || stall s then false else s.front.ifidPredTaken
    idexPredTarget := if flush s || stall s then 0#32 else s.front.ifidPredTarget }
  back := s.back.advance (if flush s || stall s then IdEx.bubble
    else s.back.decode s.front.ifidPc s.front.ifidInstr)
  vIfid := if flush s then false else if stall s then s.vIfid else true
  vIdex := if flush s || stall s then false else s.vIfid

def afterIdex (pc : Word) : Word :=
  if s.vIdex then predNext pc s.front.idexPredTaken s.front.idexPredTarget else pc

def afterIfid (pc : Word) : Word :=
  if s.vIfid then
    predNext (s.afterIdex pc) s.front.ifidPredTaken s.front.ifidPredTarget
  else s.afterIdex pc

end Spec

structure IdEx.Inert (x : IdEx) : Prop where
  rd : x.regWrite = true → x.rd = 0#5
  memRead : x.memRead = false
  memWrite : x.memWrite = false
  branch : x.branch = false
  jump : x.jump = false
  jalr : x.jalr = false

theorem IdEx.bubble_inert : IdEx.bubble.Inert := by constructor <;> simp [IdEx.bubble]

def Back.archRegs (b : Back) : Regs :=
  (b.regs.write b.memwb.regWrite b.memwb.rd b.memwb.data).write
    b.exmem.regWrite b.exmem.rd b.memwbValue

def Back.archMem (b : Back) : Dmem :=
  b.dmem.write b.exmem.memWrite b.exmem.addr b.exmem.store b.exmem.funct3

/-- The ID/EX contents for the instruction at `pc`, operands as the register file has them now. -/
def fetched (img : Imem) (regs : Regs) (pc : Word) : IdEx :=
  Back.decode ⟨.bubble, .zero, .zero, regs, fun _ => 0#8⟩ pc (img.fetch pc)

def Back.NoHazard (b : Back) : Prop :=
  b.exmem.wbSel = .mem → b.exmem.regWrite = true → b.exmem.rd ≠ 0#5 →
    b.exmem.rd ≠ b.idex.rs1 ∧ b.exmem.rd ≠ b.idex.rs2

structure Sim (img : Imem) (s : Spec) (a : Cpu.State) : Prop where
  regs : a.regs = s.back.archRegs
  dmem : a.dmem = s.back.archMem
  idex : s.vIdex = true → s.back.idex = fetched img s.back.regs a.pc
  idexInert : s.vIdex = false → s.back.idex.Inert
  hazard : s.vIdex = true → s.back.NoHazard
  ifid : s.vIfid = true → s.front.ifidPc = s.afterIdex a.pc ∧
    s.front.ifidInstr = img.fetch (s.afterIdex a.pc)
  ifidNop : s.vIfid = false → s.front.ifidInstr = nop
  pc : s.front.pc = s.afterIfid a.pc
  guessIfid : s.vIfid = true → s.front.ifidPredTaken = true → isCtrl s.front.ifidInstr = true
  guessIdex : s.vIdex = true → s.front.idexPredTaken = true → isCtrl (img.fetch a.pc) = true

end RiscvScratch.Pipe
