import Mathlib.Tactic

/-! The combinational RV32IM ALU (`alu.v`). -/
namespace RiscvScratch

abbrev Word := BitVec 32

/-- The 5-bit `alu_op` codes; the codes 18 to 31 are never produced by the decoder. -/
inductive AluOp where
  | add | sub | and | or | xor | sll | srl | sra | slt | sltu
  | mul | mulh | mulhsu | mulhu | div | divu | rem | remu
  deriving DecidableEq, Repr

/-- `alu_op >= ALU_MUL`: the codes of RV32M. -/
def AluOp.isMulDiv : AluOp → Bool
  | .mul | .mulh | .mulhsu | .mulhu | .div | .divu | .rem | .remu => true
  | _ => false

/-- The base integer operations; `none` for the RV32M codes. -/
def aluBase (a b : Word) : AluOp → Option Word
  | .add => some (a + b)
  | .sub => some (a - b)
  | .and => some (a &&& b)
  | .or => some (a ||| b)
  | .xor => some (a ^^^ b)
  | .sll => some (a <<< (b.extractLsb' 0 5).toNat)
  | .srl => some (a >>> (b.extractLsb' 0 5).toNat)
  | .sra => some (a.sshiftRight (b.extractLsb' 0 5).toNat)
  | .slt => some (if a.slt b then 1#32 else 0#32)
  | .sltu => some (if a.ult b then 1#32 else 0#32)
  | _ => none

/-- RV32M on the (possibly gated) operands `ma`, `mb`. A division by zero returns all ones, a
remainder by zero the ungated dividend `a`. -/
def aluMulDiv (a ma mb : Word) (op : AluOp) : Word :=
  let pss := ma.signExtend 64 * mb.signExtend 64
  let puu := ma.zeroExtend 64 * mb.zeroExtend 64
  let psu := ma.signExtend 64 * mb.zeroExtend 64
  let div0 := mb == 0#32
  let ovf := ma == 0x80000000#32 && mb == 0xFFFFFFFF#32
  match op with
  | .mul => pss.extractLsb' 0 32
  | .mulh => pss.extractLsb' 32 32
  | .mulhsu => psu.extractLsb' 32 32
  | .mulhu => puu.extractLsb' 32 32
  | .div => if div0 then 0xFFFFFFFF#32 else if ovf then 0x80000000#32 else ma.sdiv mb
  | .divu => if div0 then 0xFFFFFFFF#32 else ma.udiv mb
  | .rem => if div0 then a else if ovf then 0#32 else ma.srem mb
  | .remu => if div0 then a else ma.umod mb
  | _ => 0#32

/-- `alu`: with `M_EXT = 0` the multiplier operands are tied to zero and the result is 0. -/
def alu (mExt : Bool) (a b : Word) (op : AluOp) : Word :=
  if !mExt && op.isMulDiv then 0#32
  else match aluBase a b op with
    | some r => r
    | none => aluMulDiv a (if mExt then a else 0#32) (if mExt then b else 0#32) op

end RiscvScratch
