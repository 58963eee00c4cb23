import RiscvScratch.Unified.State

/-! The ID stage of the unified core: SYSTEM, atomic and vector decoding around the shared `control`
and `immgen`. -/
namespace RiscvScratch.Unified

section fields
variable (w : Word)

def csrOf : BitVec 12 := w.extractLsb' 20 12
def amoF5Of : BitVec 5 := (funct7Of w).extractLsb' 2 5

def isSystem : Bool := opcodeOf w == 0b1110011#7
def idIsCsr : Bool := isSystem w && funct3Of w != 0b000#3

def sysWith (n : BitVec 12) : Bool := isSystem w && funct3Of w == 0b000#3 && csrOf w == n

def idIsMret : Bool := sysWith w 0x302#12
def idEcall : Bool := sysWith w 0x000#12
def idEbreak : Bool := sysWith w 0x001#12
def idSret : Bool := sysWith w 0x102#12
def idSfence : Bool := isSystem w && funct3Of w == 0b000#3 && funct7Of w == 0b0001001#7
def idFencei : Bool := opcodeOf w == 0b0001111#7 && funct3Of w == 0b001#3

variable (c : Cfg)

def idVec : Bool := c.vExt && Vec.isVec w
def idIsAmo : Bool := c.aExt && opcodeOf w == 0b0101111#7 && funct3Of w == 0b010#3
def idLr : Bool := idIsAmo w c && amoF5Of w == 0b00010#5
def idSc : Bool := idIsAmo w c && amoF5Of w == 0b00011#5
def idRmw : Bool := idIsAmo w c && !idLr w c && !idSc w c

def opKnown : Bool :=
  [0b0110011#7, 0b0010011#7, 0b0000011#7, 0b0100011#7, 0b1100011#7, 0b1101111#7, 0b1100111#7,
    0b0110111#7, 0b0010111#7, 0b1110011#7, 0b0001111#7].contains (opcodeOf w) ||
  idIsAmo w c || idVec w c

def idZb : Bool := Zb.hit c.zb (opcodeOf w) (funct3Of w) (funct7Of w) (rs2Of w)

def baseR : Bool :=
  funct7Of w == 0b0000000#7 ||
  (funct7Of w == 0b0100000#7 && (funct3Of w == 0b000#3 || funct3Of w == 0b101#3)) ||
  (funct7Of w == 0b0000001#7 && c.mExt)

def baseI : Bool :=
  if funct3Of w = 0b001#3 then funct7Of w == 0b0000000#7
  else if funct3Of w = 0b101#3 then funct7Of w == 0b0000000#7 || funct7Of w == 0b0100000#7
  else true

def encOk : Bool :=
  if opcodeOf w = opR then baseR w c || idZb w c
  else if opcodeOf w = opI then baseI w || idZb w c
  else true

def opOk : Bool := opKnown w c && encOk w c

end fields

/-- What ID hands to EX for the instruction of `f`, with the two register operands. -/
def decode (c : Cfg) (f : IfId) (d1 d2 : Word) : IdEx :=
  let w := f.instr
  let k := ctrlOf w
  { pc := f.pc
    imm := immOf w
    rs1d := d1
    rs2d := d2
    instr := w
    predTarget := f.predTarget
    rs1 := rs1Of w
    rs2 := rs2Of w
    rd := rdOf w
    aluOp := k.aluOp
    amoF5 := amoF5Of w
    funct3 := if idIsAmo w c then 0b010#3 else funct3Of w
    opcode := opcodeOf w
    funct7 := funct7Of w
    zb := idZb w c
    vec := idVec w c
    wbSel := if idIsAmo w c then .mem else k.wbSel
    csrAddr := csrOf w
    regWrite := k.regWrite || idIsAmo w c
    aluSrcA := k.aluSrcA
    aluSrcB := k.aluSrcB
    memRead := k.memRead || idIsAmo w c
    memWrite := k.memWrite
    branch := k.branch
    jump := k.jump
    jalr := k.jalr
    isCsr := idIsCsr w
    isMret := idIsMret w
    ecall := idEcall w
    ebreak := idEbreak w
    illegal := !opOk w c
    sfence := idSfence w
    lr := idLr w c
    sc := idSc w c
    rmw := idRmw w c
    ifault := f.ifault
    valid := f.valid
    sret := idSret w
    predTaken := f.predTaken
    fencei := idFencei w
    iaf := f.iaf }

end RiscvScratch.Unified
