import RiscvScratch.Unified.Decode

/-! The combinational signals of the unified core, stage by stage, in the order of the source. -/
namespace RiscvScratch.Unified

variable (c : Cfg) (s : State) (i : Input)

def inUser : Bool := s.csr.priv == Csr.privU
def inM : Bool := s.csr.priv == Csr.privM
def satpVal : Word := Csr.satpOut c.csr s.csr

def vmOn : Bool := c.mmu && !inM s && (satpVal c s).getLsbD 31

def itlb : Tlb.Result :=
  if c.mmu then Tlb.lookup c.tlbEntries s.itlb s.pc else ⟨false, s.pc, 0#4⟩

def ifWresFault : Bool := s.wresValid && s.wresI && s.wresVpn == Tlb.vpn s.pc

def fetchOk : Bool :=
  (itlb c s).perm.getLsbD 2 &&
    (if inUser s then (itlb c s).perm.getLsbD 3 else !(itlb c s).perm.getLsbD 3)

def ifPfault : Bool := vmOn c s && (if (itlb c s).hit then !fetchOk c s else ifWresFault s)
def ifWalk : Bool := vmOn c s && !(itlb c s).hit && !ifWresFault s
def iAddr : Word := if vmOn c s then (itlb c s).pa else s.pc

def ifAfault : Bool :=
  (!ifPfault c s && !ifWalk c s && !c.allowsX (iAddr c s)) ||
    (ifPfault c s && !(itlb c s).hit && s.wresAf)

def ifFault : Bool := ifPfault c s || ifAfault c s
def iReq : Bool := !i.halt && !ifFault c s && !ifWalk c s
def ifOk : Bool := ifFault c s || (iReq c s i && i.iReady)

def bpTaken : Bool := c.bpred && BranchPredictor.predictTaken c.bpIdxBits s.bp s.pc
def bpTarget : Word := if c.bpred then BranchPredictor.predictTarget c.bpIdxBits s.bp s.pc else 0#32
def pcNext : Word := if bpTaken c s then bpTarget c s else s.pc + 4#32

def readReg (a : BitVec 5) : Word :=
  if s.memwb.regWrite && s.memwb.rd != 0#5 && s.memwb.rd == a then s.memwb.data
  else s.regs.read a

def forward (rs : BitVec 5) (held : Word) : Word :=
  if s.exmem.regWrite && s.exmem.rd != 0#5 && s.exmem.rd == rs then s.exmem.result
  else if s.memwb.regWrite && s.memwb.rd != 0#5 && s.memwb.rd == rs then s.memwb.data
  else held

def opA : Word := forward s s.idex.rs1 s.idex.rs1d
def opB : Word := forward s s.idex.rs2 s.idex.rs2d
def aluB : Word := if s.idex.aluSrcB then s.idex.imm else opB s

def aluResult : Word :=
  alu c.mExt (if s.idex.aluSrcA then s.idex.pc else opA s) (aluB s) s.idex.aluOp

def pc4Ex : Word := s.idex.pc + 4#32
def brTarget : Word := s.idex.pc + s.idex.imm
def jalrTgt : Word := (aluResult c s).extractLsb' 1 31 ++ 0#1

def exTaken : Bool :=
  s.idex.jump || (s.idex.branch && branchCond s.idex.funct3 (opA s) (opB s))

def exTarget : Word := if s.idex.jalr then jalrTgt c s else brTarget s

def exAmo : Bool := s.idex.lr || s.idex.sc || s.idex.rmw
def exMem : Bool := s.idex.valid && (s.idex.memRead || s.idex.memWrite)
def exVa : Word := if exAmo s then opA s else aluResult c s
def needR : Bool := s.idex.memRead && !s.idex.sc
def needW : Bool := s.idex.memWrite || s.idex.sc || s.idex.rmw

def exMisal : Bool :=
  exMem s && (if s.idex.funct3.extractLsb' 0 2 = 0b01#2 then (exVa c s).getLsbD 0
    else if s.idex.funct3.extractLsb' 0 2 = 0b10#2 then (exVa c s).extractLsb' 0 2 != 0#2
    else false)

def exImisal : Bool := s.idex.valid && exTaken s && (exTarget c s).getLsbD 1

def vsOn : Bool := Csr.vs s.csr != 0b00#2
def vIsCfg : Bool := c.vExt && Vec.isCfg s.idex.instr
def vIllegal : Bool := if c.vExt then Vec.illegal c.vlen s.vec s.idex.instr (vsOn s) else true
def vWritesRd : Bool := c.vExt && Vec.writesRd s.idex.instr
def vBusy : Bool := c.vExt && Vec.busy s.vec
def vDone : Bool := c.vExt && s.vec.done
def vFault : Bool := c.vExt && s.vec.fault
def vCsrHit : Bool := c.vExt && Vec.csrHit s.idex.csrAddr
def vMemActive : Bool := c.vExt && Vec.memActive s.vec s.idex.instr
def vMemStore : Bool := c.vExt && Vec.memStore s.idex.instr
def vMemWant : Bool := c.vExt && Vec.memWant c.vlen s.vec s.idex.instr
def vMemVa : Word := if c.vExt then Vec.memVa c.vlen s.vec s.idex.instr else 0#32

/-- The D-TLB is the vector unit's while it runs a memory instruction. -/
def dtlbVa : Word := if vMemActive c s then vMemVa c s else exVa c s

def dtlb : Tlb.Result :=
  if c.mmu then Tlb.lookup c.tlbEntries s.dtlb (dtlbVa c s) else ⟨false, exVa c s, 0#4⟩

def exXlate : Bool := exMem s && vmOn c s && !exMisal c s
def exWresFault : Bool := s.wresValid && !s.wresI && s.wresVpn == Tlb.vpn (exVa c s)
def vWresFault : Bool := s.wresValid && !s.wresI && s.wresVpn == Tlb.vpn (vMemVa c s)

def userOk : Bool :=
  if inUser s then (dtlb c s).perm.getLsbD 3 else !(dtlb c s).perm.getLsbD 3 || Csr.sum s.csr

def readable : Bool :=
  (dtlb c s).perm.getLsbD 0 || (Csr.mxr s.csr && (dtlb c s).perm.getLsbD 2)

def permOk : Bool :=
  userOk c s && (!needR s || readable c s) && (!needW s || (dtlb c s).perm.getLsbD 1)

def exDfault : Bool := exXlate c s && (if (dtlb c s).hit then !permOk c s else exWresFault c s)
def exDwalk : Bool := exXlate c s && !(dtlb c s).hit && !exWresFault c s
def exPa : Word := if exXlate c s then (dtlb c s).pa else exVa c s
def exDafWalk : Bool := exDfault c s && !(dtlb c s).hit && s.wresAf

def exDafPma : Bool :=
  exMem s && !exMisal c s && !exDfault c s && !exDwalk c s &&
    ((needR s && !c.allowsR (exPa c s)) || (needW s && !c.allowsW (exPa c s)))

def exDaf : Bool := exDafWalk c s || exDafPma c s

def vPermOk : Bool :=
  userOk c s && (if vMemStore c s then (dtlb c s).perm.getLsbD 1 else readable c s)

def vXlFault : Bool := vmOn c s && (if (dtlb c s).hit then !vPermOk c s else vWresFault c s)
def vXlOk : Bool := !vmOn c s || ((dtlb c s).hit && vPermOk c s)

def vWalk : Bool :=
  vMemActive c s && vMemWant c s && vmOn c s && !(dtlb c s).hit && !vWresFault c s

def vPa : Word := if vmOn c s then (dtlb c s).pa else vMemVa c s

def csrNoS : Bool :=
  !c.hasS && s.idex.csrAddr.extractLsb' 8 2 == 0b01#2 &&
    !(c.mmu && s.idex.csrAddr == Csr.satpA)

def csrWrites : Bool := s.idex.funct3.extractLsb' 0 2 == 0b01#2 || s.idex.rs1 != 0#5

def csrBad : Bool :=
  s.idex.isCsr && (s.csr.priv.ult (s.idex.csrAddr.extractLsb' 8 2) || csrNoS c s ||
    (s.idex.csrAddr.extractLsb' 10 2 == 0b11#2 && csrWrites s) ||
    (vCsrHit c s && (!vsOn s || !c.vExt)))

def exIllegal : Bool :=
  s.idex.illegal || csrBad c s || (s.idex.vec && vIllegal c s) || (s.idex.isMret && !inM s) ||
    (s.idex.sret && (!c.hasS || inUser s)) || (inUser s && s.idex.sfence)

def irqPending : Bool := Csr.irqPending s.csr i.lines
def csrWsrc : Word := if s.idex.funct3.getLsbD 2 then s.idex.rs1.zeroExtend 32 else opA s
def vFaultNow : Bool := s.idex.vec && vDone c s && vFault c s

def exception : Bool :=
  s.idex.ifault || exIllegal c s || s.idex.ecall || s.idex.ebreak || exDfault c s ||
    exDafPma c s || exMisal c s || exImisal c s || vFaultNow c s

def vWait : Bool :=
  s.idex.valid && s.idex.vec && !vIsCfg c s && !vDone c s &&
    (vBusy c s || (!exception c s && !irqPending s i))

def scOk : Bool := s.exmem.sc && s.resvValid && s.resvAddr == s.exmem.addr
def mLoad : Bool := s.exmem.memRead && !s.exmem.sc && !s.exmem.rmw
def mStore : Bool := s.exmem.memWrite || scOk s
def mPort : Bool := mLoad s || mStore s || s.exmem.rmw
def mWrite : Bool := mStore s || (s.exmem.rmw && s.amoPh)
def mLast : Bool := !s.exmem.rmw || s.amoPh

def ba : ℕ := s.exmem.addr.toNat % 4

def stData : Word :=
  if s.exmem.funct3.extractLsb' 0 2 = 0b00#2 then
    (s.exmem.store.extractLsb' 0 8).zeroExtend 32 <<< (8 * ba s)
  else if s.exmem.funct3.extractLsb' 0 2 = 0b01#2 then
    (s.exmem.store.extractLsb' 0 16).zeroExtend 32 <<< (8 * ba s)
  else s.exmem.store

def stMask : BitVec 4 :=
  if s.exmem.funct3.extractLsb' 0 2 = 0b00#2 then 0b0001#4 <<< ba s
  else if s.exmem.funct3.extractLsb' 0 2 = 0b01#2 then 0b0011#4 <<< ba s
  else 0b1111#4

def amoResult (f5 : BitVec 5) (old src : Word) : Word :=
  match f5 with
  | 0b00001#5 => src
  | 0b00000#5 => old + src
  | 0b00100#5 => old ^^^ src
  | 0b01100#5 => old &&& src
  | 0b01000#5 => old ||| src
  | 0b10000#5 => if old.slt src then old else src
  | 0b10100#5 => if src.slt old then old else src
  | 0b11000#5 => if old.ult src then old else src
  | 0b11100#5 => if src.ult old then old else src
  | _ => src

def amoNew : Word := amoResult s.exmem.amoF5 s.amoOld s.exmem.store

def ptwBusy : Bool := c.mmu && Ptw.busy s.ptw
def mReq : Bool := mPort s && !ptwBusy c s && !i.halt
def mDone : Bool := mReq c s i && i.dReady

def freeze : Bool := i.halt || (mPort s && !(mDone c s i && mLast s))

def vMemReq : Bool :=
  c.vExt && Vec.memReq c.vlen s.vec s.idex.instr (vXlOk c s) (vXlFault c s)

def vReqG : Bool := vMemReq c s && !ptwBusy c s && !i.halt
def vMemDone : Bool := vReqG c s i && i.dReady

def ptwAddr : Word := if c.mmu then Ptw.memAddr s.ptw (satpVal c s) else 0#32
def ptwMemOk : Bool := c.allowsR (ptwAddr c s)

def dAddr : Word :=
  if ptwBusy c s then ptwAddr c s else if vMemActive c s then vPa c s else s.exmem.addr

def dReq : Bool := (ptwBusy c s && ptwMemOk c s) || vReqG c s i || mReq c s i

def dWe : BitVec 4 :=
  if ptwBusy c s then 0#4
  else if vMemActive c s then
    (if vMemStore c s then Vec.memBe c.vlen s.vec s.idex.instr else 0#4)
  else if mWrite s then (if s.exmem.rmw then 0b1111#4 else stMask s) else 0#4

def dWdata : Word :=
  if vMemActive c s then Vec.memWdata c.vlen s.vec s.idex.instr
  else if s.exmem.rmw then amoNew s else stData s

def fenceiReq : Bool := s.idex.valid && s.idex.fencei && !freeze c s i
def fenceiWait : Bool := s.idex.valid && s.idex.fencei && !i.fenceiAck
def exHold : Bool := exDwalk c s || vWait c s i || fenceiWait s i
def exGo : Bool := s.idex.valid && !freeze c s i && !exHold c s i

def irqTake : Bool :=
  irqPending s i && !exception c s && !s.idex.isMret && !s.idex.sret && !s.idex.isCsr &&
    !(s.idex.vec && (vBusy c s || vDone c s))

def takeTrap : Bool := exGo c s i && (exception c s || irqTake c s i)
def mretEx : Bool := exGo c s i && s.idex.isMret && !takeTrap c s i
def sretEx : Bool := exGo c s i && s.idex.sret && !takeTrap c s i
def csrCommit : Bool := exGo c s i && s.idex.isCsr && !takeTrap c s i
def sfenceEx : Bool := exGo c s i && s.idex.sfence && !takeTrap c s i

def exKeep : Bool := exGo c s i && !takeTrap c s i

def trapCause : Word :=
  if s.idex.ifault then (if s.idex.iaf then 1#32 else 12#32)
  else if exIllegal c s then 2#32
  else if s.idex.ecall then (if inUser s then 8#32 else if inM s then 11#32 else 9#32)
  else if s.idex.ebreak then 3#32
  else if exImisal c s then 0#32
  else if exMisal c s then (if needW s then 6#32 else 4#32)
  else if exDaf c s then (if needW s then 7#32 else 5#32)
  else if exDfault c s then (if needW s then 15#32 else 13#32)
  else if vFaultNow c s then s.vec.faultCause.zeroExtend 32
  else Csr.irqCause s.csr i.lines

def trapVal : Word :=
  if s.idex.ifault then s.idex.pc
  else if exIllegal c s then s.idex.instr
  else if s.idex.ebreak then s.idex.pc
  else if exImisal c s then exTarget c s
  else if exMisal c s || exDfault c s || exDaf c s then exVa c s
  else if vFaultNow c s then s.vec.faultTval
  else 0#32

def exCtrl : Bool := s.idex.branch || s.idex.jump || s.idex.jalr

def mispred : Bool :=
  if exCtrl s then
    (exTaken s != s.idex.predTaken) || (exTaken s && exTarget c s != s.idex.predTarget)
  else s.idex.predTaken

def redirect : Bool :=
  takeTrap c s i || mretEx c s i || sretEx c s i ||
    (exGo c s i && (mispred c s || s.idex.fencei))

def redirectPc : Word :=
  if takeTrap c s i then Csr.trapVector c.csr s.csr (trapCause c s i)
  else if mretEx c s i then s.csr.mepc
  else if sretEx c s i then s.csr.sepc
  else if exTaken s then exTarget c s else pc4Ex s

def vStart : Bool := vWait c s i && !vBusy c s && !mPort s && !ptwBusy c s && !i.halt
def vCfgCommit : Bool := exGo c s i && s.idex.vec && vIsCfg c s && !takeTrap c s i

def loadUse : Bool :=
  s.idex.valid && s.idex.memRead && s.idex.rd != 0#5 &&
    (s.idex.rd == rs1Of s.ifid.instr || s.idex.rd == rs2Of s.ifid.instr)

def frontHold : Bool := exHold c s i || loadUse s

def cntIdx : ℕ := (s.idex.csrAddr.extractLsb' 0 3).toNat
def isInh : Bool := s.idex.csrAddr == 0x320#12

def isCnt : Bool :=
  (s.idex.csrAddr.extractLsb' 8 4 == 0xB#4 || s.idex.csrAddr.extractLsb' 8 4 == 0xC#4) &&
    s.idex.csrAddr.extractLsb' 3 4 == 0#4 && s.idex.csrAddr.extractLsb' 0 3 != 1#3

def isTime : Bool := s.idex.csrAddr == 0xC01#12 || s.idex.csrAddr == 0xC81#12
def cntHit : Bool := c.zicntr && (isCnt s || isInh s || isTime s)
def highHalf : Bool := s.idex.csrAddr.getLsbD 7

def halfOf (high : Bool) (d : BitVec 64) : Word :=
  if high then d.extractLsb' 32 32 else d.extractLsb' 0 32

def cntRdata : Word :=
  if isInh s then s.counters.inhibit.zeroExtend 32
  else if isTime s then halfOf (highHalf s) i.mtime
  else halfOf (highHalf s) (s.counters.cnt (cntIdx s))

def cntWe : Bool := csrCommit c s i && isCnt s && s.idex.csrAddr.extractLsb' 8 4 == 0xB#4
def cntNew : Word := Csr.nx (cntRdata s i) (csrWsrc s) s.idex.funct3
def isBubble : Bool := !freeze c s i && !exHold c s i && !s.idex.valid

def cntEvent : ℕ → Bool
  | 0 => true
  | 2 => exGo c s i && !takeTrap c s i
  | 3 => isBubble c s i && s.counters.idexWhy == .loadUse
  | 4 => isBubble c s i && s.counters.idexWhy == .flush
  | 5 => isBubble c s i && s.counters.idexWhy == .fetch
  | 6 => freeze c s i && !i.halt
  | 7 => exGo c s i && mispred c s && !takeTrap c s i
  | _ => false

def csrRdata : Word :=
  if vCsrHit c s then Vec.csrRdata c.vlen s.vec s.idex.csrAddr
  else if cntHit c s then cntRdata s i
  else Csr.rdata c.csr s.csr i.lines s.idex.csrAddr

def zbResult : Word :=
  Zb.result c.zb s.idex.opcode s.idex.funct3 s.idex.funct7 s.idex.rs2 (opA s) (aluB s)

def vResult : Word :=
  if c.vExt then
    if vIsCfg c s then Vec.cfgNewVl c.vlen s.vec s.idex.instr (opA s) (opB s)
    else s.vec.scalarOut
  else 0#32

def exResult : Word :=
  if s.idex.isCsr then csrRdata c s i
  else if s.idex.vec then vResult c s
  else if s.idex.zb then zbResult c s
  else match s.idex.wbSel with
    | .pc4 => pc4Ex s
    | .imm => s.idex.imm
    | _ => aluResult c s

def byteAt (w : Word) (k : ℕ) : BitVec 8 := w.extractLsb' (8 * k) 8

def halfAt (w : Word) (k : ℕ) : BitVec 16 := w.extractLsb' (16 * k) 16

def loadVal : Word :=
  let dw := i.dRdata
  match s.exmem.funct3 with
  | 0b000#3 => (byteAt dw (ba s)).signExtend 32
  | 0b001#3 => (halfAt dw (ba s / 2)).signExtend 32
  | 0b100#3 => (byteAt dw (ba s)).zeroExtend 32
  | 0b101#3 => (halfAt dw (ba s / 2)).zeroExtend 32
  | _ => dw

def memValue : Word :=
  if s.exmem.sc then (if scOk s then 0#32 else 1#32)
  else if s.exmem.rmw then s.amoOld else loadVal s i

def memwbValue : Word := if s.exmem.wbSel = .mem then memValue s i else s.exmem.result

def ptwStartD : Bool := (exDwalk c s || vWalk c s) && !mPort s && !i.halt
def ptwStartI : Bool := ifWalk c s && !mPort s && !redirect c s i && !i.halt

def ptwInput : Ptw.Input where
  satp := satpVal c s
  startD := ptwStartD c s i
  vaD := dtlbVa c s
  startI := ptwStartI c s i
  vaI := s.pc
  kill := redirect c s i
  memRdata := i.dRdata
  memReady := i.dReady
  memOk := ptwMemOk c s

def ptwFill : Bool := c.mmu && Ptw.doneFill c.svade s.ptw (ptwInput c s i)
def ptwFault : Bool := c.mmu && Ptw.doneFault c.svade s.ptw (ptwInput c s i)

def tlbFill (side : Bool) : Tlb.Fill where
  en := ptwFill c s i && s.ptw.sideI == side
  va := s.ptw.va
  ppn := Ptw.leafPpn (ptwInput c s i)
  sp := Ptw.leafSuper s.ptw
  perm := Ptw.leafPerm c.svade (ptwInput c s i)

def tlbFlush : Tlb.Flush where
  all := sfenceEx c s i && s.idex.rs1 == 0#5
  one := sfenceEx c s i && s.idex.rs1 != 0#5
  va := opA s

end RiscvScratch.Unified
