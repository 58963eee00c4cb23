import RiscvScratch.Clocked.Machine
import RiscvScratch.Core.Rvc
import RiscvScratch.Core.Storage
import RiscvScratch.Spartan6.Csr
import RiscvScratch.Spartan6.Muldiv

/-! The multi-cycle RV32IMAC core of the Spartan-6 SoC (`s6_core.v`, with `s6_regfile.v`). -/
namespace RiscvScratch.S6Core

structure Isa where
  resetAddr : Word
  enableM : Bool
  enableA : Bool
  enableC : Bool
  enableU : Bool
  hartId : Word

/-- `MUL_DSP` and `FAST_FETCH` choose an implementation. -/
structure Params extends Isa where
  mulDsp : Bool
  fastFetch : Bool

instance : Coe Params Isa := ⟨Params.toIsa⟩

def Isa.misaVal (p : Isa) : Word :=
  0x40000100#32 ||| (if p.enableM then 0x00001000#32 else 0#32) |||
    (if p.enableA then 0x00000001#32 else 0#32) ||| (if p.enableC then 0x00000004#32 else 0#32) |||
    (if p.enableU then 0x00100000#32 else 0#32)

def Isa.csr (p : Isa) : S6Csr.Params := ⟨p.hartId, p.misaVal, p.enableU, p.enableC⟩

section decode
variable (p : Isa) (w : Word)

def f12 : BitVec 12 := w.extractLsb' 20 12
def amoF5 : BitVec 5 := w.extractLsb' 27 5

def isLoad : Bool := opcodeOf w == opLoad
def isStore : Bool := opcodeOf w == opStore
def isOpimm : Bool := opcodeOf w == opI
def isOp : Bool := opcodeOf w == opR
def isLui : Bool := opcodeOf w == opLui
def isAuipc : Bool := opcodeOf w == opAuipc
def isJal : Bool := opcodeOf w == opJal
def isJalr : Bool := opcodeOf w == opJalr && funct3Of w == 0b000#3
def isBranch : Bool := opcodeOf w == opBr
def isSystem : Bool := opcodeOf w == 0b1110011#7

def isMuldiv : Bool := p.enableM && isOp w && funct7Of w == 0b0000001#7

def isAmoop : Bool := p.enableA && opcodeOf w == opAmo && funct3Of w == 0b010#3
def isLr : Bool := isAmoop p w && amoF5 w == 0b00010#5 && rs2Of w == 0#5
def isSc : Bool := isAmoop p w && amoF5 w == 0b00011#5

def amoRmwOk : Bool :=
  [0b00000#5, 0b00001#5, 0b00100#5, 0b01000#5, 0b01100#5, 0b10000#5, 0b10100#5, 0b11000#5,
    0b11100#5].contains (amoF5 w)

def isAmoRmw : Bool := isAmoop p w && amoRmwOk w
def isAmo : Bool := isLr p w || isSc p w || isAmoRmw p w

def isCsr : Bool := isSystem w && funct3Of w != 0b000#3 && funct3Of w != 0b100#3
def sysPlain : Bool := isSystem w && funct3Of w == 0b000#3 && rs1Of w == 0#5 && rdOf w == 0#5
def isEcall : Bool := sysPlain w && f12 w == 0x000#12
def isEbreak : Bool := sysPlain w && f12 w == 0x001#12
def isMret : Bool := sysPlain w && f12 w == 0x302#12
def isWfi : Bool := sysPlain w && f12 w == 0x105#12

def imm : Word :=
  if opcodeOf w = opStore then immgen w .s
  else if opcodeOf w = opBr then immgen w .b
  else if opcodeOf w = opLui ∨ opcodeOf w = opAuipc then immgen w .u
  else if opcodeOf w = opJal then immgen w .j
  else immgen w .i

def opLegal : Bool :=
  let op := opcodeOf w
  let f3 := funct3Of w
  let f7 := funct7Of w
  if op = opLui ∨ op = opAuipc ∨ op = opJal then true
  else if op = opJalr then f3 == 0b000#3
  else if op = opBr then f3 != 0b010#3 && f3 != 0b011#3
  else if op = opLoad then f3 != 0b011#3 && f3 != 0b110#3 && f3 != 0b111#3
  else if op = opStore then f3 == 0b000#3 || f3 == 0b001#3 || f3 == 0b010#3
  else if op = opI then
    if f3 = 0b001#3 then f7 == 0b0000000#7
    else if f3 = 0b101#3 then f7 == 0b0000000#7 || f7 == 0b0100000#7
    else true
  else if op = opR then
    if f7 = 0b0000000#7 then true
    else if f7 = 0b0100000#7 then f3 == 0b000#3 || f3 == 0b101#3
    else if f7 = 0b0000001#7 then p.enableM
    else false
  else if op = 0b0001111#7 then f3 == 0b000#3 || f3 == 0b001#3
  else if op = 0b1110011#7 then isCsr w || isEcall w || isEbreak w || isMret w || isWfi w
  else if op = opAmo then
    p.enableA && f3 == 0b010#3 && (isLr p w || isSc p w || isAmoRmw p w)
  else false

end decode

/-- What the combinational logic reads: the instruction, the two register operands, and the
registers of the core that take part. -/
structure Datapath where
  pc : Word
  instr : Word
  isC : Bool
  raw16 : BitVec 16
  rs1Data : Word
  rs2Data : Word
  /-- `state == S_AMO_S`. -/
  amoExec : Bool
  amoVal : Word
  resValid : Bool
  resAddr : Word
  csr : S6Csr.State
  lines : S6Csr.Lines

inductive AluFn where
  | add | sub | sll | slt | sltu | xor | srl | sra | or | and | bsel | min | max | minu | maxu
  deriving DecidableEq, Repr

section datapath
variable (p : Isa) (d : Datapath)

def aluA : Word := if d.amoExec then d.amoVal else d.rs1Data

def aluB : Word :=
  if isOp d.instr || isBranch d.instr || isAmo p d.instr then d.rs2Data else imm d.instr

def amoFn (w : Word) : AluFn :=
  match amoF5 w with
  | 0b00000#5 => .add
  | 0b00001#5 => .bsel
  | 0b00100#5 => .xor
  | 0b01000#5 => .or
  | 0b01100#5 => .and
  | 0b10000#5 => .min
  | 0b10100#5 => .max
  | 0b11000#5 => .minu
  | _ => .maxu

def opFn (w : Word) : AluFn :=
  match funct3Of w with
  | 0b000#3 => if isOp w && (funct7Of w).getLsbD 5 then .sub else .add
  | 0b001#3 => .sll
  | 0b010#3 => .slt
  | 0b011#3 => .sltu
  | 0b100#3 => .xor
  | 0b101#3 => if (funct7Of w).getLsbD 5 then .sra else .srl
  | 0b110#3 => .or
  | _ => .and

def aluOp : AluFn :=
  if d.amoExec then amoFn d.instr
  else if isOp d.instr || isOpimm d.instr then opFn d.instr
  else .add

def cmpUns : Bool :=
  if d.amoExec then (amoF5 d.instr).getLsbD 3
  else if isBranch d.instr then (funct3Of d.instr).getLsbD 1
  else (funct3Of d.instr).getLsbD 0

def less (uns : Bool) (a b : Word) : Bool :=
  ((BitVec.ofBool (a.msb && !uns) ++ a : BitVec 33) - (BitVec.ofBool (b.msb && !uns) ++ b)).msb

def cmpLt : Bool := less (cmpUns d) (aluA d) (aluB p d)
def cmpEq : Bool := aluA d == aluB p d

def aluResult : Word :=
  let a := aluA d
  let b := aluB p d
  let shamt := (b.extractLsb' 0 5).toNat
  match aluOp d with
  | .add => a + b
  | .sub => a - b
  | .sll => a <<< shamt
  | .slt | .sltu => if cmpLt p d then 1#32 else 0#32
  | .xor => a ^^^ b
  | .srl => a >>> shamt
  | .sra => a.sshiftRight shamt
  | .or => a ||| b
  | .and => a &&& b
  | .bsel => b
  | .min | .minu => if cmpLt p d then a else b
  | .max | .maxu => if cmpLt p d then b else a

def pcIncr : Word := d.pc + if d.isC then 2#32 else 4#32
def pcPlusImm : Word := d.pc + imm d.instr

def branchCond : Bool :=
  match funct3Of d.instr with
  | 0b000#3 => cmpEq p d
  | 0b001#3 => !cmpEq p d
  | 0b100#3 => cmpLt p d
  | 0b101#3 => !cmpLt p d
  | 0b110#3 => cmpLt p d
  | 0b111#3 => !cmpLt p d
  | _ => false

def branchTaken : Bool := isBranch d.instr && branchCond p d
def jalrTgt : Word := (aluResult p d).extractLsb' 1 31 ++ 0#1
def jumpTgt : Word := if isJalr d.instr then jalrTgt p d else pcPlusImm d
def takesJump : Bool := isJal d.instr || isJalr d.instr || branchTaken p d

def memAddr : Word := if isAmo p d.instr then d.rs1Data else aluResult p d
def ba : BitVec 2 := (memAddr p d).extractLsb' 0 2

def lsBad : Bool :=
  ((funct3Of d.instr).extractLsb' 0 2 == 0b01#2 && (ba p d).getLsbD 0) ||
    ((funct3Of d.instr).extractLsb' 0 2 == 0b10#2 && ba p d != 0b00#2)

def loadFault : Bool := (isLoad d.instr && lsBad p d) || (isLr p d.instr && ba p d != 0b00#2)

def storeFault : Bool :=
  (isStore d.instr && lsBad p d) ||
    ((isSc p d.instr || isAmoRmw p d.instr) && ba p d != 0b00#2)

def instrFault : Bool :=
  takesJump p d && (if p.enableC then false else (jumpTgt p d).getLsbD 1)

def csrWsrc : Word :=
  if (funct3Of d.instr).getLsbD 2 then (rs1Of d.instr).zeroExtend 32 else d.rs1Data

def csrWrite (w : Word) : Bool := (funct3Of w).extractLsb' 0 2 == 0b01#2 || rs1Of w != 0#5

def csrIllegal : Bool :=
  S6Csr.illegal d.csr (f12 d.instr) (isCsr d.instr) (csrWrite d.instr)

def csrRdata : Word := S6Csr.rdata p.csr d.csr d.lines (f12 d.instr)
def inUser : Bool := d.csr.priv == S6Csr.privU
def cIllegal : Bool := p.enableC && (Rvc.expand d.raw16).2

def illegalInstr : Bool :=
  (d.isC && cIllegal p d) || !opLegal p d.instr || csrIllegal d || (inUser d && isMret d.instr)

def irqPending : Bool := S6Csr.irqPending d.csr d.lines

def excAny : Bool :=
  illegalInstr p d || isEcall d.instr || isEbreak d.instr || loadFault p d || storeFault p d ||
    instrFault p d

def excCause : Word :=
  if illegalInstr p d then 2#32
  else if isEcall d.instr then (if inUser d then 8#32 else 11#32)
  else if isEbreak d.instr then 3#32
  else if loadFault p d then 4#32
  else if storeFault p d then 6#32
  else 0#32

def excTval : Word :=
  if illegalInstr p d then (if d.isC then d.raw16.zeroExtend 32 else d.instr)
  else if isEbreak d.instr then d.pc
  else if loadFault p d || storeFault p d then memAddr p d
  else if instrFault p d then jumpTgt p d
  else 0#32

def trapCause : Word :=
  if irqPending d then S6Csr.irqCause d.csr d.lines else excCause p d

def trapTval : Word := if irqPending d then 0#32 else excTval p d

def nextPc (trapNow : Bool) : Word :=
  if trapNow then S6Csr.trapTarget d.csr (trapCause p d)
  else if isMret d.instr then d.csr.mepc
  else if takesJump p d then jumpTgt p d
  else pcIncr d

def scOk : Bool := d.resValid && d.resAddr == (memAddr p d).extractLsb' 2 30 ++ 0b00#2

def dbusWdata : Word :=
  if d.amoExec then aluResult p d
  else if funct3Of d.instr = 0b000#3 then
    d.rs2Data.extractLsb' 0 8 ++ d.rs2Data.extractLsb' 0 8 ++ d.rs2Data.extractLsb' 0 8 ++
      d.rs2Data.extractLsb' 0 8
  else if funct3Of d.instr = 0b001#3 then d.rs2Data.extractLsb' 0 16 ++ d.rs2Data.extractLsb' 0 16
  else d.rs2Data

def wmask : BitVec 4 :=
  if funct3Of d.instr = 0b000#3 then 0b0001#4 <<< (ba p d).toNat
  else if funct3Of d.instr = 0b001#3 then 0b0011#4 <<< (ba p d).toNat
  else 0b1111#4

def lane (dw : Word) (k : BitVec 2) : BitVec 8 := dw.extractLsb' (8 * k.toNat) 8

def half (dw : Word) (k : BitVec 2) : BitVec 16 :=
  if k.getLsbD 1 then dw.extractLsb' 16 16 else dw.extractLsb' 0 16

def loadVal (dw : Word) : Word :=
  match funct3Of d.instr with
  | 0b000#3 => (lane dw (ba p d)).signExtend 32
  | 0b001#3 => (half dw (ba p d)).signExtend 32
  | 0b100#3 => (lane dw (ba p d)).zeroExtend 32
  | 0b101#3 => (half dw (ba p d)).zeroExtend 32
  | _ => dw

/-- `wb_data` of the instructions that finish in `S_EXEC`. -/
def execWb : Word :=
  if isCsr d.instr then csrRdata p d
  else if isLui d.instr then imm d.instr
  else if isAuipc d.instr then pcPlusImm d
  else if isJal d.instr || isJalr d.instr then pcIncr d
  else if isSc p d.instr then (if scOk p d then 0#32 else 1#32)
  else aluResult p d

def execRfWe (w : Word) : Bool :=
  (isOp w && !isMuldiv p w) || isOpimm w || isLui w || isAuipc w || isJal w || isJalr w ||
    isCsr w || isSc p w

def reads (w : Word) : Bool := isLoad w || isLr p w || isAmoRmw p w

def writes : Bool := isStore d.instr || (isSc p d.instr && scOk p d)

end datapath

inductive Fsm where
  | fetch | exec | load | store | md | amoL | amoS | wfi | halt
  deriving DecidableEq, Repr

structure State where
  state : Fsm
  pc : Word
  straddleQ : Bool
  loHalf : BitVec 16
  amoVal : Word
  resValid : Bool
  resAddr : Word
  regs : Regs
  csr : S6Csr.State
  md : S6Muldiv.State

structure Input where
  ibusRdata : Word
  dbusRdata : Word
  dbusReady : Bool
  lines : S6Csr.Lines
  halt : Bool
  deriving DecidableEq

def Params.doneState (p : Params) : Fsm := if p.fastFetch then .exec else .fetch

section wires
variable (p : Params) (s : State) (i : Input)

def pcWord : Word := s.pc.extractLsb' 2 30 ++ 0b00#2
def inExec : Bool := s.state == .exec && !i.halt
def raw16 : BitVec 16 :=
  if s.pc.getLsbD 1 then i.ibusRdata.extractLsb' 16 16 else i.ibusRdata.extractLsb' 0 16
def isC : Bool := p.enableC && !s.straddleQ && (raw16 s i).extractLsb' 0 2 != 0b11#2
def needHi : Bool :=
  p.enableC && !s.straddleQ && s.pc.getLsbD 1 && (raw16 s i).extractLsb' 0 2 == 0b11#2
def fetchHiNow : Bool := inExec s i && needHi p s i
def commit : Bool := inExec s i && !needHi p s i

def instr : Word :=
  if s.straddleQ then i.ibusRdata.extractLsb' 0 16 ++ s.loHalf
  else if isC p s i then (Rvc.expand (raw16 s i)).1
  else i.ibusRdata

def datapath : Datapath where
  pc := s.pc
  instr := instr p s i
  isC := isC p s i
  raw16 := raw16 s i
  rs1Data := s.regs.read (rs1Of (instr p s i))
  rs2Data := s.regs.read (rs2Of (instr p s i))
  amoExec := s.state == .amoS
  amoVal := s.amoVal
  resValid := s.resValid
  resAddr := s.resAddr
  csr := s.csr
  lines := i.lines

def trapNow : Bool := commit p s i && (irqPending (datapath p s i) || excAny p (datapath p s i))

def issueStore : Bool := commit p s i && !trapNow p s i && writes p (datapath p s i)
def issueLoad : Bool := commit p s i && !trapNow p s i && reads p (instr p s i)

def dbusAddr : Word := memAddr p (datapath p s i)
def dbusWe : BitVec 4 :=
  if issueStore p s i || s.state == .store || s.state == .amoS then wmask p (datapath p s i)
  else 0b0000#4
def dbusRe : Bool := issueLoad p s i || s.state == .load || s.state == .amoL
def wdata : Word := dbusWdata p (datapath p s i)

/-- Without `ENABLE_M` the unit is absent and `md_done` is tied high. -/
def mdDone : Bool := !p.enableM || S6Muldiv.done s.md
def mdResult : Word := if p.enableM then S6Muldiv.result s.md else 0#32
def mdStart : Bool := commit p s i && !trapNow p s i && isMuldiv p (instr p s i)

def wbData : Word :=
  match s.state with
  | .load => loadVal p (datapath p s i) i.dbusRdata
  | .md => mdResult p s
  | .amoS => s.amoVal
  | _ => execWb p (datapath p s i)

def rfWe : Bool :=
  match s.state with
  | .load => i.dbusReady
  | .md => mdDone p s
  | .amoS => i.dbusReady
  | _ => commit p s i && !trapNow p s i && execRfWe p (instr p s i)

inductive Course where
  | wfi | md | load | amo | store | finish
  deriving DecidableEq, Repr

def course (p : Isa) (w : Word) (d : Datapath) : Course :=
  if isWfi w then .wfi
  else if isMuldiv p w then .md
  else if isLoad w || isLr p w then .load
  else if isAmoRmw p w then .amo
  else if writes p d then .store
  else .finish

/-- Whether the course ends in the executing cycle: a store does when the slave answers at once. -/
def Course.done (ready : Bool) : Course → Bool
  | .store => ready
  | .finish => true
  | .wfi | .md | .load | .amo => false

def Course.waitState : Course → Fsm
  | .wfi => .wfi
  | .md => .md
  | .load => .load
  | .amo => .amoL
  | .store => .store
  | .finish => .exec

def execCourse : Course := course p (instr p s i) (datapath p s i)

def instrDone : Bool :=
  match s.state with
  | .exec => commit p s i && (trapNow p s i || (execCourse p s i).done i.dbusReady)
  | .load | .store | .amoS => i.dbusReady
  | .md => mdDone p s
  | .wfi => S6Csr.irqAny s.csr i.lines
  | _ => false

def fetchNext : Bool := p.fastFetch && instrDone p s i
def retireOut : Bool := instrDone p s i && !trapNow p s i
def next : Word := nextPc p (datapath p s i) (trapNow p s i)

def ibusAddr : Word :=
  if fetchNext p s i then (next p s i).extractLsb' 2 30 ++ 0b00#2
  else if fetchHiNow p s i || s.straddleQ then pcWord s + 4#32
  else pcWord s

/-- `pc <= next_pc; straddle_q <= 0; state <= S_DONE`. -/
def finish : State :=
  { s with pc := next p s i, straddleQ := false, state := p.doneState }

/-- The FSM alone: `pc`, `straddle_q`, `lo_half`, `amo_val` and the state. -/
def fsm : State :=
  if i.halt then { s with state := .halt }
  else match s.state with
  | .fetch => { s with state := .exec }
  | .exec =>
    if needHi p s i then
      { s with loHalf := i.ibusRdata.extractLsb' 16 16, straddleQ := true }
    else if trapNow p s i || (execCourse p s i).done i.dbusReady then finish p s i
    else { s with state := (execCourse p s i).waitState }
  | .load | .store | .amoS => if i.dbusReady then finish p s i else s
  | .amoL => if i.dbusReady then { s with amoVal := i.dbusRdata, state := .amoS } else s
  | .md => if mdDone p s then finish p s i else s
  | .wfi => if S6Csr.irqAny s.csr i.lines then finish p s i else s
  | .halt => s

def csrCommand : S6Csr.Command where
  addr := f12 (instr p s i)
  f3 := funct3Of (instr p s i)
  wsrc := csrWsrc (datapath p s i)
  access := isCsr (instr p s i)
  willWrite := csrWrite (instr p s i)
  we := isCsr (instr p s i) && commit p s i && !trapNow p s i
  trapTake := trapNow p s i
  trapPc := s.pc
  trapCause := trapCause p (datapath p s i)
  trapTval := trapTval p (datapath p s i)
  mret := isMret (instr p s i) && commit p s i && !trapNow p s i
  retire := retireOut p s i

def lineAddr : Word := (dbusAddr p s i).extractLsb' 2 30 ++ 0b00#2

def storeHitsRes : Bool :=
  dbusWe p s i != 0b0000#4 && s.resValid && lineAddr p s i == s.resAddr

def reserves : Bool := s.state == .load && i.dbusReady && isLr p (instr p s i)

def resValidNext : Bool :=
  if trapNow p s i then false
  else if reserves p s i then true
  else if commit p s i && isSc p (instr p s i) then false
  else if storeHitsRes p s i then false
  else s.resValid

def resAddrNext : Word :=
  if !trapNow p s i && reserves p s i then lineAddr p s i else s.resAddr

def step : State :=
  { fsm p s i with
    regs := s.regs.write (rfWe p s i) (rdOf (instr p s i)) (wbData p s i)
    csr := S6Csr.step p.csr s.csr i.lines (csrCommand p s i)
    md := if p.enableM then
        S6Muldiv.step p.mulDsp s.md (mdStart p s i) (funct3Of (instr p s i))
          (datapath p s i).rs1Data (datapath p s i).rs2Data
      else s.md
    resValid := resValidNext p s i
    resAddr := resAddrNext p s i }

end wires

def reset (p : Params) (regs : Regs) : State :=
  ⟨.fetch, p.resetAddr, false, 0#16, 0#32, false, 0#32, regs, S6Csr.reset, S6Muldiv.reset⟩

def machine (p : Params) : Clocked.Machine State Input where
  init s := ∃ regs, s = reset p regs
  step := step p

abbrev Run (p : Params) := (machine p).Run

end RiscvScratch.S6Core
