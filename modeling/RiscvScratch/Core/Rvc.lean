import RiscvScratch.Core.Decode

/-! The compressed-instruction expander (`rvc_expand.v`, and word for word `s6_rvc.v`). -/
namespace RiscvScratch.Rvc
variable (c : BitVec 16)

def rd : BitVec 5 := c.extractLsb' 7 5
def rs2 : BitVec 5 := c.extractLsb' 2 5

/-- The three-bit register fields name `x8` to `x15`. -/
def rdp : BitVec 5 := 0b01#2 ++ c.extractLsb' 2 3
def rs1p : BitVec 5 := 0b01#2 ++ c.extractLsb' 7 3

def immCi : BitVec 12 := (c.extractLsb' 12 1 ++ c.extractLsb' 2 5).signExtend 12
def immLui : BitVec 20 := (c.extractLsb' 12 1 ++ c.extractLsb' 2 5).signExtend 20

def immSp16 : BitVec 12 :=
  (c.extractLsb' 12 1 ++ c.extractLsb' 3 2 ++ c.extractLsb' 5 1 ++ c.extractLsb' 2 1 ++
    c.extractLsb' 6 1 ++ 0#4).signExtend 12

def immSpn : BitVec 12 :=
  0b00#2 ++ c.extractLsb' 7 4 ++ c.extractLsb' 11 2 ++ c.extractLsb' 5 1 ++ c.extractLsb' 6 1 ++
    0b00#2

def immLsw : BitVec 12 :=
  0#5 ++ c.extractLsb' 5 1 ++ c.extractLsb' 10 3 ++ c.extractLsb' 6 1 ++ 0b00#2

def immLwsp : BitVec 12 :=
  0#4 ++ c.extractLsb' 2 2 ++ c.extractLsb' 12 1 ++ c.extractLsb' 4 3 ++ 0b00#2

def immSwsp : BitVec 12 := 0#4 ++ c.extractLsb' 7 2 ++ c.extractLsb' 9 4 ++ 0b00#2

/-- The CJ offset in the order of the `jal` format. -/
def jalF : BitVec 20 :=
  c.extractLsb' 12 1 ++
    (c.extractLsb' 8 1 ++ c.extractLsb' 9 2 ++ c.extractLsb' 6 1 ++ c.extractLsb' 7 1 ++
      c.extractLsb' 2 1 ++ c.extractLsb' 11 1 ++ c.extractLsb' 3 3) ++
    c.extractLsb' 12 1 ++ (c.extractLsb' 12 1).signExtend 8

def iType (imm : BitVec 12) (rs1 : BitVec 5) (f3 : BitVec 3) (rd : BitVec 5) (op : BitVec 7) :
    Word := imm ++ rs1 ++ f3 ++ rd ++ op

def rType (f7 : BitVec 7) (rs2 rs1 : BitVec 5) (f3 : BitVec 3) (rd : BitVec 5) (op : BitVec 7) :
    Word := f7 ++ rs2 ++ rs1 ++ f3 ++ rd ++ op

/-- `sw` with its split immediate. -/
def swType (imm : BitVec 12) (rs2 rs1 : BitVec 5) : Word :=
  imm.extractLsb' 5 7 ++ rs2 ++ rs1 ++ 0b010#3 ++ imm.extractLsb' 0 5 ++ opStore

/-- `c.beqz`, `c.bnez`. -/
def branchType (f3 : BitVec 3) : Word :=
  c.extractLsb' 12 1 ++ (c.extractLsb' 12 1).signExtend 3 ++ c.extractLsb' 5 2 ++
    c.extractLsb' 2 1 ++ 0#5 ++ rs1p c ++ f3 ++ c.extractLsb' 10 2 ++ c.extractLsb' 3 2 ++
    c.extractLsb' 12 1 ++ opBr

def jType (rd : BitVec 5) : Word := jalF c ++ rd ++ opJal

def quadrant0 : Word × Bool :=
  match c.extractLsb' 13 3 with
  | 0b000#3 => (iType (immSpn c) 2#5 0b000#3 (rdp c) opI, immSpn c == 0#12)
  | 0b010#3 => (iType (immLsw c) (rs1p c) 0b010#3 (rdp c) opLoad, false)
  | 0b110#3 => (swType (immLsw c) (rdp c) (rs1p c), false)
  | _ => (nop, true)

/-- `c.srli`, `c.srai`, `c.andi` and the register-register forms. -/
def arith : Word × Bool :=
  match c.extractLsb' 10 2 with
  | 0b00#2 => (rType 0b0000000#7 (rs2 c) (rs1p c) 0b101#3 (rs1p c) opI, c.getLsbD 12)
  | 0b01#2 => (rType 0b0100000#7 (rs2 c) (rs1p c) 0b101#3 (rs1p c) opI, c.getLsbD 12)
  | 0b10#2 => (iType (immCi c) (rs1p c) 0b111#3 (rs1p c) opI, false)
  | _ =>
    (match c.extractLsb' 5 2 with
      | 0b00#2 => rType 0b0100000#7 (rdp c) (rs1p c) 0b000#3 (rs1p c) opR
      | 0b01#2 => rType 0b0000000#7 (rdp c) (rs1p c) 0b100#3 (rs1p c) opR
      | 0b10#2 => rType 0b0000000#7 (rdp c) (rs1p c) 0b110#3 (rs1p c) opR
      | _ => rType 0b0000000#7 (rdp c) (rs1p c) 0b111#3 (rs1p c) opR, c.getLsbD 12)

def quadrant1 : Word × Bool :=
  match c.extractLsb' 13 3 with
  | 0b000#3 => (iType (immCi c) (rd c) 0b000#3 (rd c) opI, false)
  | 0b001#3 => (jType c 1#5, false)
  | 0b010#3 => (iType (immCi c) 0#5 0b000#3 (rd c) opI, false)
  | 0b011#3 =>
    (if rd c = 2#5 then iType (immSp16 c) 2#5 0b000#3 2#5 opI else immLui c ++ rd c ++ opLui,
      c.extractLsb' 12 1 ++ c.extractLsb' 2 5 == 0#6)
  | 0b100#3 => arith c
  | 0b101#3 => (jType c 0#5, false)
  | 0b110#3 => (branchType c 0b000#3, false)
  | _ => (branchType c 0b001#3, false)

/-- `c.jr`, `c.mv`, `c.ebreak`, `c.jalr` and `c.add`. -/
def jumpAdd : Word × Bool :=
  if c.getLsbD 12 then
    if rs2 c = 0#5 then
      (if rd c = 0#5 then 0x00100073#32 else iType 0#12 (rd c) 0b000#3 1#5 opJalr, false)
    else (rType 0b0000000#7 (rs2 c) (rd c) 0b000#3 (rd c) opR, false)
  else if rs2 c = 0#5 then (iType 0#12 (rd c) 0b000#3 0#5 opJalr, rd c == 0#5)
  else (rType 0b0000000#7 (rs2 c) 0#5 0b000#3 (rd c) opR, false)

def quadrant2 : Word × Bool :=
  match c.extractLsb' 13 3 with
  | 0b000#3 => (rType 0b0000000#7 (rs2 c) (rd c) 0b001#3 (rd c) opI, c.getLsbD 12)
  | 0b010#3 => (iType (immLwsp c) 2#5 0b010#3 (rd c) opLoad, rd c == 0#5)
  | 0b100#3 => jumpAdd c
  | 0b110#3 => (swType (immSwsp c) (rs2 c) 2#5, false)
  | _ => (nop, true)

/-- `instr32` and `illegal`; a halfword ending in `11` never reaches the expander. -/
def expand : Word × Bool :=
  match c.extractLsb' 0 2 with
  | 0b00#2 => quadrant0 c
  | 0b01#2 => quadrant1 c
  | 0b10#2 => quadrant2 c
  | _ => (nop, true)

end RiscvScratch.Rvc
