import RiscvScratch.Clocked.Machine
import RiscvScratch.Core.Rvc
import RiscvScratch.Core.Storage
import RiscvScratch.Trap.Zicsr

/-! The multi-cycle RV32IMC core (`cpu_mc_c.v`): `cpu_mc` with a halfword-aligned fetch. -/
namespace RiscvScratch.CpuMcC
open Sys

structure Datapath where
  pc : Word
  instr : Word
  isC : Bool
  raw16 : BitVec 16
  rs1Data : Word
  rs2Data : Word
  csr : Zicsr.State
  lines : Zicsr.Lines

section datapath
variable (d : Datapath)

def inUser : Bool := d.csr.priv == Csr.privU
def privViolation : Bool := inUser d && (isMret d.instr || isCsr d.instr)

def illegalInstr : Bool :=
  (if d.isC then (Rvc.expand d.raw16).2 else !opKnown d.instr) || privViolation d

def irqPending : Bool := Zicsr.irqPending d.csr d.lines
def exception : Bool := illegalInstr d || isEcall d.instr || isEbreak d.instr
def takeTrap : Bool := exception d || (irqPending d && !isMret d.instr)

/-- `irq_cause` of `csr.v`: the external line outranks the timer. -/
def irqCause : Word := if Zicsr.extFire d.csr d.lines then 0x8000000B#32 else 0x80000007#32

def trapCause : Word :=
  if illegalInstr d then 2#32
  else if isEcall d.instr then (if inUser d then 8#32 else 11#32)
  else if isEbreak d.instr then 3#32
  else irqCause d

def csrWsrc : Word :=
  if (funct3Of d.instr).getLsbD 2 then (rs1Of d.instr).zeroExtend 32 else d.rs1Data

def aluResult : Word :=
  alu true (if (ctrlOf d.instr).aluSrcA then d.pc else d.rs1Data)
    (if (ctrlOf d.instr).aluSrcB then immOf d.instr else d.rs2Data) (ctrlOf d.instr).aluOp

def ba : BitVec 2 := (aluResult d).extractLsb' 0 2

def dmemWdata : Word :=
  if funct3Of d.instr = 0b000#3 then
    (d.rs2Data.extractLsb' 0 8).zeroExtend 32 <<< (8 * (ba d).toNat)
  else if funct3Of d.instr = 0b001#3 then
    (d.rs2Data.extractLsb' 0 16).zeroExtend 32 <<< (8 * (ba d).toNat)
  else d.rs2Data

def wmask : BitVec 4 :=
  if funct3Of d.instr = 0b000#3 then 0b0001#4 <<< (ba d).toNat
  else if funct3Of d.instr = 0b001#3 then 0b0011#4 <<< (ba d).toNat
  else 0b1111#4

def loadVal (dw : Word) : Word :=
  let byte : BitVec 8 := dw.extractLsb' (8 * (ba d).toNat) 8
  let half : BitVec 16 := if (ba d).getLsbD 1 then dw.extractLsb' 16 16 else dw.extractLsb' 0 16
  match funct3Of d.instr with
  | 0b000#3 => byte.signExtend 32
  | 0b001#3 => half.signExtend 32
  | 0b100#3 => byte.zeroExtend 32
  | 0b101#3 => half.zeroExtend 32
  | _ => dw

def pcNexti : Word := d.pc + if d.isC then 2#32 else 4#32

def wbData (dw : Word) : Word :=
  match (ctrlOf d.instr).wbSel with
  | .alu => aluResult d
  | .mem => loadVal d dw
  | .pc4 => pcNexti d
  | .imm => immOf d.instr

def wbFinal (dw : Word) : Word :=
  if isCsr d.instr then Zicsr.rdata d.csr d.lines (csrAddr d.instr) else wbData d dw

def branchTaken : Bool :=
  (ctrlOf d.instr).branch && branchCond (funct3Of d.instr) d.rs1Data d.rs2Data

def pcTarget : Word := d.pc + immOf d.instr
def jalrTarget : Word := (aluResult d).extractLsb' 1 31 ++ 0#1

def nextPc (commit : Bool) : Word :=
  if takeTrap d && commit then d.csr.mtvec
  else if isMret d.instr && commit then d.csr.mepc
  else if (ctrlOf d.instr).jalr then jalrTarget d
  else if (ctrlOf d.instr).jump then pcTarget d
  else if branchTaken d then pcTarget d
  else pcNexti d

end datapath

inductive Fsm where
  | fetch | exec | mem | halt
  deriving DecidableEq, Repr

structure State where
  state : Fsm
  pc : Word
  straddleQ : Bool
  loHalf : BitVec 16
  csr : Zicsr.State
  regs : Regs

structure Input where
  imemRdata : Word
  dmemRdata : Word
  lines : Zicsr.Lines
  halt : Bool

section wires
variable (s : State) (i : Input)

def pcWord : Word := s.pc.extractLsb' 2 30 ++ 0b00#2
def raw16 : BitVec 16 :=
  if s.pc.getLsbD 1 then i.imemRdata.extractLsb' 16 16 else i.imemRdata.extractLsb' 0 16
def isC : Bool := !s.straddleQ && (raw16 s i).extractLsb' 0 2 != 0b11#2
def needHi : Bool := !s.straddleQ && s.pc.getLsbD 1 && (raw16 s i).extractLsb' 0 2 == 0b11#2

def instr : Word :=
  if s.straddleQ then i.imemRdata.extractLsb' 0 16 ++ s.loHalf
  else if isC s i then (Rvc.expand (raw16 s i)).1
  else i.imemRdata

def fetchHiNow : Bool := s.state == .exec && needHi s i

/-- An executing cycle that is not the discovery of a straddle. -/
def commit : Bool := s.state == .exec && !needHi s i

def imemAddr : Word := if s.straddleQ || fetchHiNow s i then pcWord s + 4#32 else pcWord s

def datapath : Datapath where
  pc := s.pc
  instr := instr s i
  isC := isC s i
  raw16 := raw16 s i
  rs1Data := s.regs.read (rs1Of (instr s i))
  rs2Data := s.regs.read (rs2Of (instr s i))
  csr := s.csr
  lines := i.lines

def dmemAddr : Word := aluResult (datapath s i)
def wdata : Word := dmemWdata (datapath s i)

def dmemWe : BitVec 4 :=
  if commit s i && (ctrlOf (instr s i)).memWrite && !takeTrap (datapath s i) then
    wmask (datapath s i)
  else 0b0000#4

def dmemRe : Bool := (ctrlOf (instr s i)).memRead && (commit s i || s.state == .mem)

def csrCommand : Zicsr.Command where
  takeTrap := takeTrap (datapath s i) && commit s i
  pc := s.pc
  trapCause := trapCause (datapath s i)
  isMret := isMret (instr s i) && commit s i && !takeTrap (datapath s i)
  we := isCsr (instr s i) && commit s i && !takeTrap (datapath s i)
  addr := csrAddr (instr s i)
  wsrc := csrWsrc (datapath s i)
  funct3 := funct3Of (instr s i)

def rfWe : Bool :=
  if s.state == .exec && !needHi s i && !takeTrap (datapath s i) &&
      !(ctrlOf (instr s i)).memRead then
    isCsr (instr s i) || (ctrlOf (instr s i)).regWrite
  else s.state == .mem && (ctrlOf (instr s i)).regWrite

def writeBack : Word := wbFinal (datapath s i) i.dmemRdata
def next : Word := nextPc (datapath s i) (commit s i)

/-- `pc <= next_pc; straddle_q <= 0; state <= S_FETCH`. -/
def finish : State := { s with pc := next s i, straddleQ := false, state := .fetch }

def fsm : State :=
  if i.halt then { s with state := .halt }
  else match s.state with
    | .fetch => { s with state := .exec }
    | .exec =>
      if needHi s i then
        { s with loHalf := i.imemRdata.extractLsb' 16 16, straddleQ := true, state := .exec }
      else if takeTrap (datapath s i) then finish s i
      else if (ctrlOf (instr s i)).memRead then { s with state := .mem }
      else finish s i
    | .mem => finish s i
    | .halt => { s with state := .halt }

/-- The CSRs and the register file do not look at `halt`. -/
def step : State :=
  { fsm s i with
    csr := Zicsr.step s.csr (csrCommand s i)
    regs := s.regs.write (rfWe s i) (rdOf (instr s i)) (writeBack s i) }

end wires

/-- The state after `rst` around any register file; `lo_half` is not reset. -/
def reset (resetPc : Word) (loHalf : BitVec 16) (regs : Regs) : State :=
  ⟨.fetch, resetPc, false, loHalf, Zicsr.reset, regs⟩

def machine (resetPc : Word) : Clocked.Machine State Input where
  init s := ∃ loHalf regs, s = reset resetPc loHalf regs
  step := step

abbrev Run (resetPc : Word) := (machine resetPc).Run

end RiscvScratch.CpuMcC
