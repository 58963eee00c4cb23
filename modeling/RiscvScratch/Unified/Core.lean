import RiscvScratch.Clocked.Machine
import RiscvScratch.Unified.Wires

/-! The clocked part of the unified core: what every register takes at the edge. -/
namespace RiscvScratch.Unified

variable (c : Cfg) (s : State) (i : Input)

def nextPc : Word :=
  if freeze c s i then s.pc
  else if redirect c s i then redirectPc c s i
  else if frontHold c s i || !ifOk c s i then s.pc
  else pcNext c s

def fetched : IfId where
  pc := s.pc
  instr := if ifFault c s then nop else i.iRdata
  predTarget := bpTarget c s
  valid := true
  ifault := ifFault c s
  iaf := ifAfault c s
  predTaken := bpTaken c s

/-- The bubble of a busy I-port keeps `ifid_pc` and the stale target. -/
def starved (f : IfId) : IfId :=
  { f with instr := nop, valid := false, ifault := false, iaf := false, predTaken := false }

def nextIfid : IfId :=
  if redirect c s i && !freeze c s i then IfId.bubble
  else if freeze c s i || frontHold c s i then s.ifid
  else if ifOk c s i then fetched c s i
  else starved s.ifid

def nextIdex : IdEx :=
  if !freeze c s i && !exHold c s i && (redirect c s i || loadUse s) then IdEx.bubble
  else if freeze c s i || exHold c s i then { s.idex with rs1d := opA s, rs2d := opB s }
  else decode c s.ifid (readReg s (rs1Of s.ifid.instr)) (readReg s (rs2Of s.ifid.instr))

def executed : ExMem where
  regWrite := s.idex.isCsr || s.idex.regWrite || (s.idex.vec && vWritesRd c s)
  rd := s.idex.rd
  result := exResult c s i
  addr := exPa c s
  store := opB s
  funct3 := s.idex.funct3
  amoF5 := s.idex.amoF5
  wbSel := if s.idex.isCsr then .alu else s.idex.wbSel
  memRead := s.idex.memRead
  memWrite := s.idex.memWrite
  lr := s.idex.lr
  sc := s.idex.sc
  rmw := s.idex.rmw
  valid := true

def nextExmem : ExMem :=
  if freeze c s i then s.exmem
  else if exKeep c s i then executed c s i
  else ExMem.bubble

def nextMemwb : MemWb :=
  if freeze c s i then MemWb.bubble
  else ⟨s.exmem.regWrite, s.exmem.valid, s.exmem.rd, memwbValue s i⟩

def csrCommand : Csr.Command where
  takeTrap := takeTrap c s i
  pc := s.idex.pc
  trapCause := trapCause c s i
  trapVal := trapVal c s
  isMret := mretEx c s i
  isSret := sretEx c s i
  we := csrCommit c s i && !vCsrHit c s
  addr := s.idex.csrAddr
  wsrc := csrWsrc s
  funct3 := s.idex.funct3
  setVsDirty := c.vExt && (s.vec.done || vCfgCommit c s i || (csrCommit c s i && vCsrHit c s))

def vecInput : Vec.Input where
  instr := s.idex.instr
  start := vStart c s i
  rs1 := opA s
  rs2 := opB s
  cfgCommit := vCfgCommit c s i
  csrAddr := s.idex.csrAddr
  csrWe := csrCommit c s i && vCsrHit c s
  csrWdata := Csr.nx (Vec.csrRdata c.vlen s.vec s.idex.csrAddr) (csrWsrc s) s.idex.funct3
  memRdata := i.dRdata
  memDone := vMemDone c s i
  xlFault := vXlFault c s

def bpUpdate : BranchPredictor.Update where
  en := exGo c s i && exCtrl s && !takeTrap c s i
  pc := s.idex.pc
  taken := exTaken s
  isJump := s.idex.jump || s.idex.jalr
  target := exTarget c s

def nextCnt (n : ℕ) : BitVec 64 :=
  let old := s.counters.cnt n
  if n = 1 then 0#64
  else if cntWe c s i ∧ cntIdx s = n ∧ highHalf s then cntNew s i ++ old.extractLsb' 0 32
  else if cntWe c s i ∧ cntIdx s = n then old.extractLsb' 32 32 ++ cntNew s i
  else if cntEvent c s i n && !i.halt && !s.counters.inhibit.getLsbD n then old + 1#64
  else old

def nextCounters : Counters where
  ifidWhy :=
    if redirect c s i && !freeze c s i then .flush
    else if !freeze c s i && !frontHold c s i && !ifOk c s i then .fetch
    else s.counters.ifidWhy
  idexWhy :=
    if !freeze c s i && !exHold c s i && (redirect c s i || loadUse s) then
      if redirect c s i then .flush else .loadUse
    else if !freeze c s i && !exHold c s i then s.counters.ifidWhy
    else s.counters.idexWhy
  cnt := nextCnt c s i
  inhibit :=
    if csrCommit c s i && isInh s then (cntNew s i).extractLsb' 0 8 &&& 0b11111101#8
    else s.counters.inhibit

def nextWresValid : Bool :=
  if takeTrap c s i || sfenceEx c s i then false
  else if ptwFault c s i then true
  else if ptwFill c s i && Tlb.vpn s.ptw.va == s.wresVpn && s.ptw.sideI == s.wresI then false
  else s.wresValid

def wresWrite : Bool := ptwFault c s i && !(takeTrap c s i || sfenceEx c s i)

def nextResvValid : Bool :=
  if takeTrap c s i then false
  else if s.exmem.lr && mDone c s i then true
  else if (s.exmem.sc || s.exmem.rmw) && !freeze c s i then false
  else s.resvValid

def nextAmoPh : Bool := if s.exmem.rmw && mDone c s i then !s.amoPh else s.amoPh

/-- One clock edge with `rst` low. -/
def step : State where
  pc := nextPc c s i
  ifid := nextIfid c s i
  idex := nextIdex c s i
  exmem := nextExmem c s i
  memwb := nextMemwb c s i
  regs := s.regs.write s.memwb.regWrite s.memwb.rd s.memwb.data
  csr := Csr.step c.csr s.csr (csrCommand c s i)
  itlb := if c.mmu then Tlb.step c.tlbEntries s.itlb (tlbFill c s i true) (tlbFlush c s i)
    else s.itlb
  dtlb := if c.mmu then Tlb.step c.tlbEntries s.dtlb (tlbFill c s i false) (tlbFlush c s i)
    else s.dtlb
  ptw := if c.mmu then Ptw.step c.svade s.ptw (ptwInput c s i) else s.ptw
  bp := if c.bpred then BranchPredictor.step c.bpIdxBits s.bp (bpUpdate c s i) else s.bp
  vec := if c.vExt then Vec.step c.vlen s.vec (vecInput c s i) else s.vec
  counters := if c.zicntr then nextCounters c s i else s.counters
  wresValid := nextWresValid c s i
  wresI := if wresWrite c s i then s.ptw.sideI else s.wresI
  wresVpn := if wresWrite c s i then Tlb.vpn s.ptw.va else s.wresVpn
  wresAf := if takeTrap c s i || sfenceEx c s i then false
    else if ptwFault c s i then Ptw.doneAf s.ptw (ptwInput c s i) else s.wresAf
  resvValid := nextResvValid c s i
  resvAddr := if !takeTrap c s i && s.exmem.lr && mDone c s i then s.exmem.addr else s.resvAddr
  amoPh := nextAmoPh c s i
  amoOld := if s.exmem.rmw && mDone c s i && !s.amoPh then i.dRdata else s.amoOld

/-- The state after `rst`; the registers it does not touch keep what `u` has. -/
def reset (u : State) : State where
  pc := c.resetPc
  ifid := IfId.bubble
  idex := IdEx.bubble
  exmem := ExMem.bubble
  memwb := MemWb.bubble
  regs := u.regs
  csr := Csr.reset c.csr
  itlb := Tlb.reset u.itlb
  dtlb := Tlb.reset u.dtlb
  ptw := Ptw.reset
  bp := BranchPredictor.reset
  vec := Vec.reset u.vec
  counters := ⟨.other, .other, fun _ => 0#64, 0#8⟩
  wresValid := false
  wresI := u.wresI
  wresVpn := u.wresVpn
  wresAf := false
  resvValid := false
  resvAddr := 0#32
  amoPh := false
  amoOld := 0#32

def machine : Clocked.Machine State Input where
  init s := ∃ u, s = reset c u
  step := step c

abbrev Run := (machine c).Run

theorem run_step {c : Cfg} (r : Run c) (t : ℕ) :
    r.state (t + 1) = step c (r.state t) (r.input t) := r.steps t

end RiscvScratch.Unified
