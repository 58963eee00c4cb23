import RiscvScratch.Debug.DebugModule
import RiscvScratch.Trap.CpuCore

/-! The single-cycle core with its debug hooks (`cpu_core_dbg.v`) and the debug module on its data
bus (`soc_dbg.v`, with any slaves). While halted the first read port of the register file is at
`dbg_reg_addr`; only `dbg_reg_rdata` is modelled with it. -/
namespace RiscvScratch

namespace CpuCoreDbg
open Sys

structure State (μ : Type*) where
  core : CpuCore.State μ
  halted : Bool
  stepMode : Bool
  skipBp : Bool

structure Hooks where
  haltReq : Bool
  resume : Bool
  step : Bool
  pcWe : Bool
  pcWdata : Word
  regAddr : BitVec 5
  regWe : Bool
  regWdata : Word
  bpMatch : Bool

section datapath
variable {μ : Type*} (fetch : Word → Word) (bus : Bus μ) (timer : Bool) (h : Hooks) (s : State μ)

def bpHit : Bool := h.bpMatch && !s.skipBp
def haltNow : Bool := bpHit h s || h.haltReq

def run : Bool := !s.halted && !haltNow h s

def takeTrap : Bool := run h s && CpuCore.takeTrap fetch timer s.core

def csrCommand : Zicsr.Command :=
  { CpuCore.csrCommand fetch timer s.core with
    takeTrap := takeTrap fetch timer h s
    isMret := run h s && isMret (CpuCore.instr fetch s.core) && !takeTrap fetch timer h s
    we := run h s && isCsr (CpuCore.instr fetch s.core) && !takeTrap fetch timer h s }

def regWriteEff : Bool :=
  if takeTrap fetch timer h s then false
  else if isCsr (CpuCore.instr fetch s.core) then true else (CpuCore.ctrl fetch s.core).regWrite

def rfWe : Bool := if s.halted then h.regWe else run h s && regWriteEff fetch timer h s
def rfRd : BitVec 5 := if s.halted then h.regAddr else rdOf (CpuCore.instr fetch s.core)
def rfWd : Word := if s.halted then h.regWdata else CpuCore.wbFinal fetch bus timer s.core

def dbgRegRdata : Word :=
  s.core.regs.read (if s.halted then h.regAddr else rs1Of (CpuCore.instr fetch s.core))

def dmemWe : Bool :=
  run h s && (if takeTrap fetch timer h s then false
    else (CpuCore.ctrl fetch s.core).memWrite || CpuCore.amoStore fetch s.core)

def nextPc : Word :=
  if takeTrap fetch timer h s then s.core.csr.mtvec
  else if isMret (CpuCore.instr fetch s.core) then s.core.csr.mepc
  else if (CpuCore.ctrl fetch s.core).jalr then
    (CpuCore.aluResult fetch s.core).extractLsb' 1 31 ++ 0#1
  else if (CpuCore.ctrl fetch s.core).jump then s.core.pc + CpuCore.imm fetch s.core
  else if CpuCore.branchTaken fetch s.core then s.core.pc + CpuCore.imm fetch s.core
  else s.core.pc + 4#32

def step : State μ where
  core :=
    { pc := if h.pcWe then h.pcWdata else if run h s then nextPc fetch timer h s else s.core.pc
      regs := s.core.regs.write (rfWe fetch timer h s) (rfRd fetch h s) (rfWd fetch bus timer h s)
      csr := Zicsr.step s.core.csr (csrCommand fetch timer h s)
      resvValid :=
        if !run h s then s.core.resvValid
        else if takeTrap fetch timer h s then false
        else if CpuCore.isLr fetch s.core then true
        else if CpuCore.isSc fetch s.core || CpuCore.isAmoRmw fetch s.core then false
        else s.core.resvValid
      resvAddr :=
        if run h s && !takeTrap fetch timer h s && CpuCore.isLr fetch s.core then
          CpuCore.rs1Data fetch s.core
        else s.core.resvAddr
      mem := bus.writeIf s.core.mem (dmemWe fetch timer h s) (CpuCore.dmemAddr fetch s.core)
        (CpuCore.dmemWdata fetch bus s.core) (CpuCore.dmemFunct3 fetch s.core) }
  halted :=
    if s.halted then !h.step && !h.resume
    else (run h s && s.stepMode) || haltNow h s
  stepMode :=
    if s.halted then if h.step then true else if h.resume then false else s.stepMode
    else if run h s && s.stepMode then false else s.stepMode
  skipBp := s.halted && (h.step || h.resume)

end datapath
end CpuCoreDbg

namespace DebugSoc

structure State (μ : Type*) where
  cpu : CpuCoreDbg.State μ
  dm : DebugModule.State

structure Input where
  timer : Bool
  dmi : Dmi

section wires
variable {μ : Type*} (fetch : Word → Word) (bus : Bus μ) (nbp : ℕ) (s : State μ) (i : Input)

def hooks : CpuCoreDbg.Hooks where
  haltReq := s.dm.haltReq
  resume := DebugModule.dbgResume i.dmi
  step := DebugModule.dbgStep i.dmi
  pcWe := DebugModule.dbgPcWe i.dmi
  pcWdata := i.dmi.wdata
  regAddr := s.dm.regsel
  regWe := DebugModule.dbgRegWe i.dmi
  regWdata := i.dmi.wdata
  bpMatch := DebugModule.bpMatch s.dm s.cpu.core.pc

def coreBus : Bus μ where
  read m a f3 :=
    if DebugModule.dmMemReq i.dmi then bus.read m s.dm.memaddr 0b010#3 else bus.read m a f3
  write m a v f3 := if DebugModule.dmMemReq i.dmi then m else bus.write m a v f3

def dmiRdata : Word :=
  if i.dmi.addr = DebugModule.status then (BitVec.ofBool s.cpu.halted).setWidth 32
  else if i.dmi.addr = DebugModule.regdata then CpuCoreDbg.dbgRegRdata fetch (hooks s i) s.cpu
  else if i.dmi.addr = DebugModule.dpc then s.cpu.core.pc
  else if i.dmi.addr = DebugModule.memdata then
    (coreBus bus s i).read s.cpu.core.mem (CpuCore.dmemAddr fetch s.cpu.core)
      (CpuCore.dmemFunct3 fetch s.cpu.core)
  else 0#32

def cpuStep : CpuCoreDbg.State μ :=
  CpuCoreDbg.step fetch (coreBus bus s i) i.timer (hooks s i) s.cpu

def step : State μ where
  cpu := { cpuStep fetch bus s i with
    core := { (cpuStep fetch bus s i).core with
      mem := bus.writeIf (cpuStep fetch bus s i).core.mem (DebugModule.dmMemWe i.dmi) s.dm.memaddr
        i.dmi.wdata 0b010#3 } }
  dm := DebugModule.step nbp s.dm i.dmi

def commits : Bool := CpuCoreDbg.run (hooks s i) s.cpu

/-! What the core writes in the cycle, by an instruction or by a command. -/

def regOut : List RegWrite :=
  regWriteEvent (CpuCoreDbg.rfWe fetch i.timer (hooks s i) s.cpu)
    (CpuCoreDbg.rfRd fetch (hooks s i) s.cpu)
    (CpuCoreDbg.rfWd fetch (coreBus bus s i) i.timer (hooks s i) s.cpu)

def memOut : List MemWrite :=
  memWriteEvent (CpuCoreDbg.dmemWe fetch i.timer (hooks s i) s.cpu)
    (CpuCore.dmemAddr fetch s.cpu.core) (CpuCore.dmemWdata fetch (coreBus bus s i) s.cpu.core)
    (CpuCore.dmemFunct3 fetch s.cpu.core)

def trapOut : List TrapEvent :=
  trapEvent (CpuCoreDbg.takeTrap fetch i.timer (hooks s i) s.cpu) s.cpu.core.pc
    (CpuCore.trapCause fetch s.cpu.core)

end wires

def reset {μ : Type*} (nbp : ℕ) (resetPc resvAddr : Word) (regs : Regs) (mem : μ) : State μ :=
  ⟨⟨CpuCore.reset resetPc resvAddr regs mem, false, false, false⟩, DebugModule.reset nbp⟩

def machine {μ : Type*} (fetch : Word → Word) (bus : Bus μ) (nbp : ℕ) (resetPc : Word) :
    Clocked.Machine (State μ) Input where
  init s := ∃ resvAddr regs mem, s = reset nbp resetPc resvAddr regs mem
  step := step fetch bus nbp

end DebugSoc
end RiscvScratch
