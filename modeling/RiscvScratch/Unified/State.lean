import RiscvScratch.Core.Predictor
import RiscvScratch.Core.Storage
import RiscvScratch.Unified.Csr
import RiscvScratch.Unified.Ptw
import RiscvScratch.Unified.Tlb
import RiscvScratch.Unified.Vec
import RiscvScratch.Unified.Zb

/-! Parameters, registers and ports of the unified pipelined core (`cpu_pipe_u.v`). -/
namespace RiscvScratch.Unified

/-- The parameters; those only tested against zero are Booleans. `pmaBase` and its companions give
region `r` of the packed lists. -/
structure Cfg where
  resetPc : Word
  tlbEntries : ℕ
  bpred : Bool
  bpIdxBits : ℕ
  mExt : Bool
  aExt : Bool
  hasU : Bool
  hasS : Bool
  mmu : Bool
  zba : Bool
  zbb : Bool
  zbc : Bool
  zbs : Bool
  vExt : Bool
  vlen : ℕ
  zicntr : Bool
  svade : Bool
  pmaN : ℕ
  pmaBase : ℕ → Word
  pmaSize : ℕ → Word
  pmaAttr : ℕ → BitVec 3
  /-- A TLB has an entry. -/
  tlbPos : 0 < tlbEntries

def Cfg.csr (c : Cfg) : Csr.Params := ⟨c.hasS, c.hasU, c.mmu, c.vExt⟩

def Cfg.zb (c : Cfg) : Zb.Params := ⟨c.zba, c.zbb, c.zbc, c.zbs⟩

/-- The region loop: the last of the first `n` regions that contains the address decides. -/
def pmaScan (base size : ℕ → Word) (attr : ℕ → BitVec 3) (other : BitVec 3) (a : Word) :
    ℕ → BitVec 3
  | 0 => other
  | n + 1 => if (a - base n).ult (size n) then attr n else pmaScan base size attr other a n

/-- What may be done at a physical address, `{X, W, R}`. -/
def Cfg.pma (c : Cfg) (a : Word) : BitVec 3 :=
  pmaScan c.pmaBase c.pmaSize c.pmaAttr (if c.pmaN = 0 then 0b111#3 else 0b000#3) a c.pmaN

def Cfg.allowsR (c : Cfg) (a : Word) : Bool := (c.pma a).getLsbD 0
def Cfg.allowsW (c : Cfg) (a : Word) : Bool := (c.pma a).getLsbD 1
def Cfg.allowsX (c : Cfg) (a : Word) : Bool := (c.pma a).getLsbD 2

structure IfId where
  pc : Word
  instr : Word
  predTarget : Word
  valid : Bool
  ifault : Bool
  iaf : Bool
  predTaken : Bool

structure IdEx where
  pc : Word
  imm : Word
  rs1d : Word
  rs2d : Word
  instr : Word
  predTarget : Word
  rs1 : BitVec 5
  rs2 : BitVec 5
  rd : BitVec 5
  aluOp : AluOp
  amoF5 : BitVec 5
  funct3 : BitVec 3
  opcode : BitVec 7
  funct7 : BitVec 7
  zb : Bool
  vec : Bool
  wbSel : WbSel
  csrAddr : BitVec 12
  regWrite : Bool
  aluSrcA : Bool
  aluSrcB : Bool
  memRead : Bool
  memWrite : Bool
  branch : Bool
  jump : Bool
  jalr : Bool
  isCsr : Bool
  isMret : Bool
  ecall : Bool
  ebreak : Bool
  illegal : Bool
  sfence : Bool
  lr : Bool
  sc : Bool
  rmw : Bool
  ifault : Bool
  valid : Bool
  sret : Bool
  predTaken : Bool
  fencei : Bool
  iaf : Bool

structure ExMem where
  regWrite : Bool
  rd : BitVec 5
  result : Word
  addr : Word
  store : Word
  funct3 : BitVec 3
  amoF5 : BitVec 5
  wbSel : WbSel
  memRead : Bool
  memWrite : Bool
  lr : Bool
  sc : Bool
  rmw : Bool
  valid : Bool

structure MemWb where
  regWrite : Bool
  valid : Bool
  rd : BitVec 5
  data : Word

inductive Why where
  | other | loadUse | flush | fetch
  deriving DecidableEq, Repr

/-- The performance counters of `ZICNTR`. -/
structure Counters where
  ifidWhy : Why
  idexWhy : Why
  cnt : ℕ → BitVec 64
  inhibit : BitVec 8

structure State where
  pc : Word
  ifid : IfId
  idex : IdEx
  exmem : ExMem
  memwb : MemWb
  regs : Regs
  csr : Csr.State
  itlb : Tlb.State
  dtlb : Tlb.State
  ptw : Ptw.State
  bp : BranchPredictor.State
  vec : Vec.State
  counters : Counters
  /-- The last walk that found no translation. -/
  wresValid : Bool
  wresI : Bool
  wresVpn : BitVec 20
  wresAf : Bool
  resvValid : Bool
  resvAddr : Word
  amoPh : Bool
  amoOld : Word

structure Input where
  timerIrq : Bool
  mtime : BitVec 64
  meip : Bool
  seip : Bool
  halt : Bool
  fenceiAck : Bool
  iRdata : Word
  iReady : Bool
  dRdata : Word
  dReady : Bool

def Input.lines (i : Input) : Csr.Lines := ⟨i.timerIrq, i.meip, i.seip⟩

def IfId.bubble : IfId := ⟨0#32, nop, 0#32, false, false, false, false⟩

def IdEx.bubble : IdEx where
  pc := 0#32
  imm := 0#32
  rs1d := 0#32
  rs2d := 0#32
  instr := 0#32
  predTarget := 0#32
  rs1 := 0#5
  rs2 := 0#5
  rd := 0#5
  aluOp := .add
  amoF5 := 0#5
  funct3 := 0#3
  opcode := 0#7
  funct7 := 0#7
  zb := false
  vec := false
  wbSel := .alu
  csrAddr := 0#12
  regWrite := false
  aluSrcA := false
  aluSrcB := false
  memRead := false
  memWrite := false
  branch := false
  jump := false
  jalr := false
  isCsr := false
  isMret := false
  ecall := false
  ebreak := false
  illegal := false
  sfence := false
  lr := false
  sc := false
  rmw := false
  ifault := false
  valid := false
  sret := false
  predTaken := false
  fencei := false
  iaf := false

def ExMem.bubble : ExMem where
  regWrite := false
  rd := 0#5
  result := 0#32
  addr := 0#32
  store := 0#32
  funct3 := 0#3
  amoF5 := 0#5
  wbSel := .alu
  memRead := false
  memWrite := false
  lr := false
  sc := false
  rmw := false
  valid := false

def MemWb.bubble : MemWb := ⟨false, false, 0#5, 0#32⟩

end RiscvScratch.Unified
