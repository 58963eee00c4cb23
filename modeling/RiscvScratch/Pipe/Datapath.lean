import RiscvScratch.Core.Storage

/-! The ID, EX, MEM and WB stages that `cpu_pipe.v` and `cpu_pipe_bp.v` share word for word. -/
namespace RiscvScratch.Pipe

structure IdEx where
  pc : Word
  imm : Word
  rs1d : Word
  rs2d : Word
  rs1 : BitVec 5
  rs2 : BitVec 5
  rd : BitVec 5
  aluOp : AluOp
  funct3 : BitVec 3
  wbSel : WbSel
  regWrite : Bool
  aluSrcA : Bool
  aluSrcB : Bool
  memRead : Bool
  memWrite : Bool
  branch : Bool
  jump : Bool
  jalr : Bool

def IdEx.bubble : IdEx where
  pc := 0#32
  imm := 0#32
  rs1d := 0#32
  rs2d := 0#32
  rs1 := 0#5
  rs2 := 0#5
  rd := 0#5
  aluOp := .add
  funct3 := 0#3
  wbSel := .alu
  regWrite := false
  aluSrcA := false
  aluSrcB := false
  memRead := false
  memWrite := false
  branch := false
  jump := false
  jalr := false

structure ExMem where
  regWrite : Bool
  memRead : Bool
  memWrite : Bool
  rd : BitVec 5
  result : Word
  addr : Word
  store : Word
  funct3 : BitVec 3
  wbSel : WbSel

def ExMem.zero : ExMem := ⟨false, false, false, 0#5, 0#32, 0#32, 0#32, 0#3, .alu⟩

structure MemWb where
  regWrite : Bool
  rd : BitVec 5
  data : Word

def MemWb.zero : MemWb := ⟨false, 0#5, 0#32⟩

structure Back where
  idex : IdEx
  exmem : ExMem
  memwb : MemWb
  regs : Regs
  dmem : Dmem

namespace Back
variable (b : Back)

/-- `rs1_data_id` / `rs2_data_id`: a register read with the WB bypass. -/
def dataId (a : BitVec 5) : Word :=
  if b.memwb.regWrite && b.memwb.rd != 0#5 && b.memwb.rd == a then b.memwb.data
  else b.regs.read a

def decode (pc instr : Word) : IdEx where
  pc := pc
  imm := immOf instr
  rs1d := b.dataId (rs1Of instr)
  rs2d := b.dataId (rs2Of instr)
  rs1 := rs1Of instr
  rs2 := rs2Of instr
  rd := rdOf instr
  aluOp := (ctrlOf instr).aluOp
  funct3 := funct3Of instr
  wbSel := (ctrlOf instr).wbSel
  regWrite := (ctrlOf instr).regWrite
  aluSrcA := (ctrlOf instr).aluSrcA
  aluSrcB := (ctrlOf instr).aluSrcB
  memRead := (ctrlOf instr).memRead
  memWrite := (ctrlOf instr).memWrite
  branch := (ctrlOf instr).branch
  jump := (ctrlOf instr).jump
  jalr := (ctrlOf instr).jalr

/-- `opA_fwd` / `opB_fwd`: EX/MEM wins over MEM/WB. -/
def forward (a : BitVec 5) (d : Word) : Word :=
  if b.exmem.regWrite && b.exmem.rd != 0#5 && b.exmem.rd == a then b.exmem.result
  else if b.memwb.regWrite && b.memwb.rd != 0#5 && b.memwb.rd == a then b.memwb.data
  else d

def opA : Word := b.forward b.idex.rs1 b.idex.rs1d
def opB : Word := b.forward b.idex.rs2 b.idex.rs2d

def aluA : Word := if b.idex.aluSrcA then b.idex.pc else b.opA
def aluB : Word := if b.idex.aluSrcB then b.idex.imm else b.opB
def aluResult : Word := alu true b.aluA b.aluB b.idex.aluOp

def pcPlus4 : Word := b.idex.pc + 4#32
def brTarget : Word := b.idex.pc + b.idex.imm
def jalrTarget : Word := b.aluResult.extractLsb' 1 31 ++ 0#1

def exTaken : Bool :=
  b.idex.jump || (b.idex.branch && branchCond b.idex.funct3 b.opA b.opB)

def exTarget : Word := if b.idex.jalr then b.jalrTarget else b.brTarget

def exResult : Word :=
  if b.idex.wbSel = .pc4 then b.pcPlus4
  else if b.idex.wbSel = .imm then b.idex.imm
  else b.aluResult

/-- A load in EX whose `rd` is a source field of the instruction in ID. -/
def loadUse (ifidInstr : Word) : Bool :=
  b.idex.memRead && b.idex.rd != 0#5 &&
    (b.idex.rd == rs1Of ifidInstr || b.idex.rd == rs2Of ifidInstr)

def memRdata : Word := b.dmem.read b.exmem.addr b.exmem.funct3

def memwbValue : Word := if b.exmem.wbSel = .mem then b.memRdata else b.exmem.result

/-- One edge of EX/MEM, MEM/WB, the register file and the data memory; `idex'` is what
the front end puts into ID/EX. -/
def advance (idex' : IdEx) : Back where
  idex := idex'
  exmem := {
    regWrite := b.idex.regWrite
    memRead := b.idex.memRead
    memWrite := b.idex.memWrite
    rd := b.idex.rd
    result := b.exResult
    addr := b.aluResult
    store := b.opB
    funct3 := b.idex.funct3
    wbSel := b.idex.wbSel }
  memwb := ⟨b.exmem.regWrite, b.exmem.rd, b.memwbValue⟩
  regs := b.regs.write b.memwb.regWrite b.memwb.rd b.memwb.data
  dmem := b.dmem.write b.exmem.memWrite b.exmem.addr b.exmem.store b.exmem.funct3

def regOut : List RegWrite := regWriteEvent b.memwb.regWrite b.memwb.rd b.memwb.data

def memOut : List MemWrite :=
  memWriteEvent b.exmem.memWrite b.exmem.addr b.exmem.store b.exmem.funct3

end Back

def Back.reset (regs : Regs) (dmem : Dmem) : Back := ⟨.bubble, .zero, .zero, regs, dmem⟩

end RiscvScratch.Pipe
