import RiscvScratch.Unified.Bench
import RiscvScratch.Unified.Ram

/-! The core without a pipeline: one instruction at a time, with the same decoder, EX and MEM. -/
namespace RiscvScratch.Unified

structure Arch where
  pc : Word
  regs : Regs
  csr : Csr.State
  inhibit : BitVec 8
  resv : Option Word
  ram : Ram

variable (c : Cfg) (img : Ram)

def fetchAt (pc : Word) : IfId where
  pc := pc
  instr := if c.allowsX pc then img.load pc else nop
  predTarget := 0#32
  valid := true
  ifault := !c.allowsX pc
  iaf := !c.allowsX pc
  predTaken := false

namespace Arch
variable (a : Arch)

def ex : State :=
  let f := fetchAt c img a.pc
  { blank c with
    idex := decode c f (a.regs.read (rs1Of f.instr)) (a.regs.read (rs2Of f.instr))
    regs := a.regs
    csr := a.csr
    counters := ⟨.other, .other, fun _ => 0#64, a.inhibit⟩ }

def mem : State :=
  { ex c img a with
    exmem := if exKeep c (ex c img a) (quietInput 0#32) then
        executed c (ex c img a) (quietInput 0#32)
      else ExMem.bubble
    resvValid := a.resv.isSome
    resvAddr := a.resv.getD 0#32 }

def step : Arch where
  pc := redirectPc c (ex c img a) (quietInput 0#32)
  regs := a.regs.write (mem c img a).exmem.regWrite (mem c img a).exmem.rd
    (drainValue (mem c img a) a.ram)
  csr := Csr.step c.csr a.csr (csrCommand c (ex c img a) (quietInput 0#32))
  inhibit := if c.zicntr then (nextCounters c (ex c img a) (quietInput 0#32)).inhibit else a.inhibit
  resv := if takeTrap c (ex c img a) (quietInput 0#32) then none else drainResv (mem c img a)
  ram := a.ram.after (pendingWrite (mem c img a) a.ram)

def regOut : List RegWrite :=
  regWriteEvent (mem c img a).exmem.regWrite (mem c img a).exmem.rd (drainValue (mem c img a) a.ram)

def portOut : List PortWrite := pendingWrite (mem c img a) a.ram

def start (regs : Regs) : Arch := ⟨c.resetPc, regs, Csr.reset c.csr, 0#8, none, img⟩

section predictor
variable (b : Bool) (n : ℕ)

theorem step_bpred : step { c with bpred := b, bpIdxBits := n } = step c := rfl

theorem regOut_bpred : regOut { c with bpred := b, bpIdxBits := n } = regOut c := rfl

theorem portOut_bpred : portOut { c with bpred := b, bpIdxBits := n } = portOut c := rfl

theorem start_bpred : start { c with bpred := b, bpIdxBits := n } = start c := rfl

end predictor

end Arch

end RiscvScratch.Unified
