import RiscvScratch.Core.Alu

/-! The main decoder (`control.v`), the immediate generator (`immgen.v`) and the instruction fields
that every core slices out the same way. -/
namespace RiscvScratch

inductive WbSel where
  | alu | mem | pc4 | imm
  deriving DecidableEq, Repr

inductive ImmType where
  | i | s | b | u | j
  deriving DecidableEq, Repr

/-- Output bundle of the `control` module. -/
structure Ctrl where
  regWrite : Bool
  aluSrcA : Bool
  aluSrcB : Bool
  memRead : Bool
  memWrite : Bool
  branch : Bool
  jump : Bool
  jalr : Bool
  wbSel : WbSel
  immType : ImmType
  aluOp : AluOp
  deriving DecidableEq, Repr

def opR : BitVec 7 := 0b0110011#7
def opI : BitVec 7 := 0b0010011#7
def opLoad : BitVec 7 := 0b0000011#7
def opStore : BitVec 7 := 0b0100011#7
def opBr : BitVec 7 := 0b1100011#7
def opJal : BitVec 7 := 0b1101111#7
def opJalr : BitVec 7 := 0b1100111#7
def opLui : BitVec 7 := 0b0110111#7
def opAuipc : BitVec 7 := 0b0010111#7
def opAmo : BitVec 7 := 0b0101111#7

/-- `alu_base`: `isImm` keeps `addi` from subtracting. -/
def aluBaseOp (f3 : BitVec 3) (b5 isImm : Bool) : AluOp :=
  match f3 with
  | 0b000#3 => if isImm then .add else if b5 then .sub else .add
  | 0b001#3 => .sll
  | 0b010#3 => .slt
  | 0b011#3 => .sltu
  | 0b100#3 => .xor
  | 0b101#3 => if b5 then .sra else .srl
  | 0b110#3 => .or
  | _ => .and

/-- `alu_muldiv`. -/
def aluMulDivOp (f3 : BitVec 3) : AluOp :=
  match f3 with
  | 0b000#3 => .mul
  | 0b001#3 => .mulh
  | 0b010#3 => .mulhsu
  | 0b011#3 => .mulhu
  | 0b100#3 => .div
  | 0b101#3 => .divu
  | 0b110#3 => .rem
  | _ => .remu

def Ctrl.default : Ctrl :=
  ⟨false, false, false, false, false, false, false, false, .alu, .i, .add⟩

def control (opcode : BitVec 7) (f3 : BitVec 3) (f7 : BitVec 7) : Ctrl :=
  let isM := f7 == 0b0000001#7
  let f7b5 := f7.getLsbD 5
  let d := Ctrl.default
  if opcode = opR then
    { d with regWrite := true, aluOp := if isM then aluMulDivOp f3 else aluBaseOp f3 f7b5 false }
  else if opcode = opI then
    { d with regWrite := true, aluSrcB := true, aluOp := aluBaseOp f3 f7b5 true }
  else if opcode = opLoad then
    { d with regWrite := true, aluSrcB := true, memRead := true, wbSel := .mem }
  else if opcode = opStore then
    { d with aluSrcB := true, immType := .s, memWrite := true }
  else if opcode = opBr then
    { d with branch := true, immType := .b, aluOp := .sub }
  else if opcode = opJal then
    { d with regWrite := true, jump := true, immType := .j, wbSel := .pc4 }
  else if opcode = opJalr then
    { d with regWrite := true, jump := true, jalr := true, aluSrcB := true, wbSel := .pc4 }
  else if opcode = opLui then
    { d with regWrite := true, immType := .u, wbSel := .imm }
  else if opcode = opAuipc then
    { d with regWrite := true, aluSrcA := true, aluSrcB := true, immType := .u }
  else if opcode = opAmo then
    { d with regWrite := true, memRead := true, wbSel := .mem }
  else d

variable (instr : Word)

def immgen : ImmType → Word
  | .i => (instr.extractLsb' 20 12).signExtend 32
  | .s => (instr.extractLsb' 25 7 ++ instr.extractLsb' 7 5).signExtend 32
  | .b => (instr.extractLsb' 31 1 ++ instr.extractLsb' 7 1 ++ instr.extractLsb' 25 6 ++
      instr.extractLsb' 8 4 ++ 0#1).signExtend 32
  | .u => instr.extractLsb' 12 20 ++ 0#12
  | .j => (instr.extractLsb' 31 1 ++ instr.extractLsb' 12 8 ++ instr.extractLsb' 20 1 ++
      instr.extractLsb' 21 10 ++ 0#1).signExtend 32

def opcodeOf : BitVec 7 := instr.extractLsb' 0 7
def rdOf : BitVec 5 := instr.extractLsb' 7 5
def funct3Of : BitVec 3 := instr.extractLsb' 12 3
def rs1Of : BitVec 5 := instr.extractLsb' 15 5
def rs2Of : BitVec 5 := instr.extractLsb' 20 5
def funct7Of : BitVec 7 := instr.extractLsb' 25 7

/-- The `control` instance of every core: fed with the three fields of the instruction. -/
def ctrlOf : Ctrl := control (opcodeOf instr) (funct3Of instr) (funct7Of instr)

/-- The `immgen` instance of every core. -/
def immOf : Word := immgen instr (ctrlOf instr).immType

/-- `addi x0, x0, 0`. -/
def nop : Word := 0x00000013#32

def branchCond (f3 : BitVec 3) (a b : Word) : Bool :=
  match f3 with
  | 0b000#3 => a == b
  | 0b001#3 => a != b
  | 0b100#3 => a.slt b
  | 0b101#3 => !a.slt b
  | 0b110#3 => a.ult b
  | 0b111#3 => !a.ult b
  | _ => false

/-- What the datapaths rely on: `jalr` is a jump, only loads and atomics read memory, and an
instruction that touches memory never redirects. -/
structure Ctrl.Wf (c : Ctrl) : Prop where
  jump_of_jalr : c.jalr = true → c.jump = true
  wbSel_mem : c.wbSel = .mem ↔ c.memRead = true
  regWrite_of_memRead : c.memRead = true → c.regWrite = true
  straight_of_mem : c.memRead = true ∨ c.memWrite = true →
    c.branch = false ∧ c.jump = false ∧ c.jalr = false
  memWrite_of_memRead : c.memRead = true → c.memWrite = false

theorem control_wf (opcode : BitVec 7) (f3 : BitVec 3) (f7 : BitVec 7) :
    (control opcode f3 f7).Wf := by
  unfold control
  -- one goal per opcode, in the order of the case
  dsimp only
  repeat' refine iteInduction (motive := Ctrl.Wf) (fun _ => ?_) (fun _ => ?_)
  all_goals constructor <;> simp [Ctrl.default]

theorem ctrlOf_wf : (ctrlOf instr).Wf := control_wf _ _ _

end RiscvScratch
