import RiscvScratch.Compressed.Instruction

/-! A sequential RV32IMC interpreter: one instruction after the other, by opcode, with the
machine-mode traps of `csr.v`. -/
namespace RiscvScratch.Rv32imc
open Sys Compressed
variable {μ : Type*}

def halfword (image : Word → Word) (addr : Word) : BitVec 16 :=
  if addr.getLsbD 1 then (image (addr.extractLsb' 2 30 ++ 0b00#2)).extractLsb' 16 16
  else (image (addr.extractLsb' 2 30 ++ 0b00#2)).extractLsb' 0 16

structure Insn where
  word : Word
  size : Word
  legal : Bool

/-- The first halfword tells a compressed instruction from a full one, which has the next halfword
as its upper half. -/
def fetch (image : Word → Word) (pc : Word) : Insn :=
  let low := halfword image pc
  if low.extractLsb' 0 2 = 0b11#2 then
    ⟨halfword image (pc + 2#32) ++ low, 4#32, opKnown (halfword image (pc + 2#32) ++ low)⟩
  else ⟨(Rvc.expand low).1, 2#32, !(Rvc.expand low).2⟩

structure Arch (μ : Type*) where
  pc : Word
  regs : Regs
  csr : Zicsr.State
  mem : μ

def cause (lines : Zicsr.Lines) (csr : Zicsr.State) (f : Insn) : Option Word :=
  let user := csr.priv == Csr.privU
  if !f.legal || (user && (isMret f.word || isCsr f.word)) then some 2#32
  else if isEcall f.word then some (if user then 8#32 else 11#32)
  else if isEbreak f.word then some 3#32
  else if Zicsr.irqPending csr lines && !isMret f.word then
    some (if Zicsr.extFire csr lines then 0x8000000B#32 else 0x80000007#32)
  else none

/-- The part of the word at `addr` that a load takes. -/
def loadValue (f3 : BitVec 3) (addr word : Word) : Word :=
  let byte : BitVec 8 := word.extractLsb' (8 * (addr.extractLsb' 0 2).toNat) 8
  let half : BitVec 16 :=
    if addr.getLsbD 1 then word.extractLsb' 16 16 else word.extractLsb' 0 16
  match f3 with
  | 0b000#3 => byte.signExtend 32
  | 0b001#3 => half.signExtend 32
  | 0b100#3 => byte.zeroExtend 32
  | 0b101#3 => half.zeroExtend 32
  | _ => word

/-- The bytes of the word at `addr` that a store writes. -/
def storeBytes (f3 : BitVec 3) (addr value : Word) : List (Word × BitVec 8) :=
  let k := (addr.extractLsb' 0 2).toNat
  match f3 with
  | 0b000#3 => lanes addr (0b0001#4 <<< k) ((value.extractLsb' 0 8).zeroExtend 32 <<< (8 * k))
  | 0b001#3 => lanes addr (0b0011#4 <<< k) ((value.extractLsb' 0 16).zeroExtend 32 <<< (8 * k))
  | _ => lanes addr 0b1111#4 value

section step
variable (bus : ByteBus μ) (lines : Zicsr.Lines) (a : Arch μ) (f : Insn)

/-- `rd` written with `v`, and on to `pc`. -/
def setReg (v pc : Word) : Arch μ × List Effect :=
  ({ a with pc, regs := a.regs.write true (rdOf f.word) v }, regEffect true (rdOf f.word) v)

def execute : Arch μ × List Effect :=
  let w := f.word
  let x := a.regs.read (rs1Of w)
  let y := a.regs.read (rs2Of w)
  let next := a.pc + f.size
  if opcodeOf w = opR then
    setReg a f (alu true x y (if funct7Of w = 0b0000001#7 then aluMulDivOp (funct3Of w)
      else aluBaseOp (funct3Of w) (w.getLsbD 30) false)) next
  else if opcodeOf w = opI then
    setReg a f (alu true x (immgen w .i) (aluBaseOp (funct3Of w) (w.getLsbD 30) true)) next
  else if opcodeOf w = opLoad then
    let addr := x + immgen w .i
    let (word, mem) := bus.read a.mem addr
    setReg { a with mem } f (loadValue (funct3Of w) addr word) next
  else if opcodeOf w = opStore then
    let bytes := storeBytes (funct3Of w) (x + immgen w .s) y
    ({ a with pc := next, mem := bus.write a.mem bytes }, bytes.map fun b => .byte b.1 b.2)
  else if opcodeOf w = opBr then
    ({ a with pc := if branchCond (funct3Of w) x y then a.pc + immgen w .b else next }, [])
  else if opcodeOf w = opJal then setReg a f next (a.pc + immgen w .j)
  else if opcodeOf w = opJalr then
    setReg a f next ((x + immgen w .i).extractLsb' 1 31 ++ 0#1)
  else if opcodeOf w = opLui then setReg a f (immgen w .u) next
  else if opcodeOf w = opAuipc then setReg a f (a.pc + immgen w .u) next
  else if isMret w then ({ a with pc := a.csr.mepc, csr := Zicsr.mret a.csr }, [])
  else if isCsr w then
    let src := if (funct3Of w).getLsbD 2 then (rs1Of w).zeroExtend 32 else x
    setReg { a with csr := Zicsr.write a.csr (csrAddr w) src (funct3Of w) } f
      (Zicsr.rdata a.csr lines (csrAddr w)) next
  else ({ a with pc := next }, [])

def step (image : Word → Word) : Arch μ × List Effect :=
  let f := fetch image a.pc
  match cause lines a.csr f with
  | some c => ({ a with pc := a.csr.mtvec, csr := Zicsr.trapEnter a.csr a.pc c }, [])
  | none => execute bus lines a f

end step

theorem opcodeOf_append (x : BitVec 25) (op : BitVec 7) : opcodeOf (x ++ op) = op := by
  apply BitVec.eq_of_toNat_eq
  rw [opcodeOf, BitVec.extractLsb'_toNat, BitVec.toNat_append,
    ← Nat.shiftLeft_add_eq_or_of_lt op.isLt, Nat.shiftLeft_eq, Nat.shiftRight_zero,
    Nat.mul_add_mod_self_right, Nat.mod_eq_of_lt op.isLt]

theorem opKnown_append (x : BitVec 25) {op : BitVec 7}
    (h : op ∈ [opR, opI, opLoad, opStore, opBr, opJal, opJalr, opLui]) :
    opKnown (x ++ op) = true := by
  rw [opKnown, opcodeOf_append]
  revert h op
  decide

section expand
variable (c : BitVec 16)

theorem opKnown_arith : opKnown (Rvc.arith c).1 = true := by
  unfold Rvc.arith
  split
  case h_4 =>
    dsimp only
    split <;> exact opKnown_append _ (by decide)
  all_goals exact opKnown_append _ (by decide)

theorem opKnown_quadrant0 : opKnown (Rvc.quadrant0 c).1 = true := by
  unfold Rvc.quadrant0
  split
  case h_4 => decide
  all_goals exact opKnown_append _ (by decide)

theorem opKnown_quadrant1 : opKnown (Rvc.quadrant1 c).1 = true := by
  unfold Rvc.quadrant1
  split
  case h_4 =>
    dsimp only
    split <;> exact opKnown_append _ (by decide)
  case h_5 => exact opKnown_arith c
  all_goals exact opKnown_append _ (by decide)

theorem opKnown_quadrant2 : opKnown (Rvc.quadrant2 c).1 = true := by
  unfold Rvc.quadrant2
  split
  case h_3 =>
    unfold Rvc.jumpAdd
    split_ifs <;> first | exact opKnown_append _ (by decide) | decide
  case h_5 => decide
  all_goals exact opKnown_append _ (by decide)

theorem opKnown_expand : opKnown (Rvc.expand c).1 = true := by
  unfold Rvc.expand
  split
  · exact opKnown_quadrant0 c
  · exact opKnown_quadrant1 c
  · exact opKnown_quadrant2 c
  · decide

end expand

theorem opKnown_fetch {image : Word → Word} {pc : Word} (h : (fetch image pc).legal = true) :
    opKnown (fetch image pc).word = true := by
  unfold fetch at h ⊢
  dsimp only at h ⊢
  split at h
  · next hlow => rw [if_pos hlow]; exact h
  · next hlow => rw [if_neg hlow]; exact opKnown_expand _

end RiscvScratch.Rv32imc
