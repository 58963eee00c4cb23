import RiscvScratch.Core.Decode

/-! The bit-manipulation unit (`zb_unit.v`): Zba, Zbb, Zbc, Zbs. -/
namespace RiscvScratch.Zb

structure Params where
  zba : Bool
  zbb : Bool
  zbc : Bool
  zbs : Bool

/-- The loop from bit 31 down, over the lowest `n` bits. -/
def clzFrom (x : Word) : ℕ → ℕ
  | 0 => 32
  | n + 1 => if x.getLsbD n then 31 - n else clzFrom x n

def clz32 (x : Word) : Word := BitVec.ofNat 32 (clzFrom x 32)

/-- The loop from bit 0 up, with `n` bits to go. -/
def ctzFrom (x : Word) : ℕ → ℕ
  | 0 => 32
  | n + 1 => if x.getLsbD (31 - n) then 31 - n else ctzFrom x n

def ctz32 (x : Word) : Word := BitVec.ofNat 32 (ctzFrom x 32)

def cpopFrom (x : Word) : ℕ → ℕ
  | 0 => 0
  | n + 1 => cpopFrom x n + (x.getLsbD n).toNat

def cpop32 (x : Word) : Word := BitVec.ofNat 32 (cpopFrom x 32)

def clmulFrom (x y : Word) : ℕ → BitVec 64
  | 0 => 0#64
  | n + 1 => if y.getLsbD n then clmulFrom x y n ^^^ (x.zeroExtend 64 <<< n) else clmulFrom x y n

def clmul64 (x y : Word) : BitVec 64 := clmulFrom x y 32

def orByte (b : BitVec 8) : BitVec 8 := if b = 0#8 then 0x00#8 else 0xFF#8

def orcB (a : Word) : Word :=
  orByte (a.extractLsb' 24 8) ++ orByte (a.extractLsb' 16 8) ++ orByte (a.extractLsb' 8 8) ++
    orByte (a.extractLsb' 0 8)

def rev8 (a : Word) : Word :=
  a.extractLsb' 0 8 ++ a.extractLsb' 8 8 ++ a.extractLsb' 16 8 ++ a.extractLsb' 24 8

variable (p : Params)

def rol (a : Word) (sh : ℕ) : Word := (a <<< sh) ||| (a >>> (32 - sh))
def ror (a : Word) (sh : ℕ) : Word := (a >>> sh) ||| (a <<< (32 - sh))

/-- The OP encodings; `none` where `hit` stays low. -/
def opR (f3 : BitVec 3) (f7 : BitVec 7) (rs2f : BitVec 5) (a b : Word) : Option Word :=
  let sh := (b.extractLsb' 0 5).toNat
  let cl := if p.zbc then clmul64 a b else 0#64
  let onehot : Word := 1#32 <<< sh
  let bext : Word := if a &&& onehot = 0#32 then 0#32 else 1#32
  match f7 with
  | 0b0100000#7 =>
    if p.zbb then
      match f3 with
      | 0b111#3 => some (a &&& ~~~b)
      | 0b110#3 => some (a ||| ~~~b)
      | 0b100#3 => some (~~~(a ^^^ b))
      | _ => none
    else none
  | 0b0000101#7 =>
    match f3 with
    | 0b100#3 => if p.zbb then some (if a.slt b then a else b) else none
    | 0b101#3 => if p.zbb then some (if a.ult b then a else b) else none
    | 0b110#3 => if p.zbb then some (if a.slt b then b else a) else none
    | 0b111#3 => if p.zbb then some (if a.ult b then b else a) else none
    | 0b001#3 => if p.zbc then some (cl.extractLsb' 0 32) else none
    | 0b011#3 => if p.zbc then some (cl.extractLsb' 32 32) else none
    | 0b010#3 => if p.zbc then some (cl.extractLsb' 31 32) else none
    | _ => none
  | 0b0110000#7 =>
    if p.zbb then
      match f3 with
      | 0b001#3 => some (rol a sh)
      | 0b101#3 => some (ror a sh)
      | _ => none
    else none
  | 0b0010000#7 =>
    if p.zba then
      match f3 with
      | 0b010#3 => some ((a <<< 1) + b)
      | 0b100#3 => some ((a <<< 2) + b)
      | 0b110#3 => some ((a <<< 3) + b)
      | _ => none
    else none
  | 0b0000100#7 =>
    if p.zbb && f3 == 0b100#3 && rs2f == 0#5 then
      some ((a.extractLsb' 0 16).zeroExtend 32)
    else none
  | 0b0100100#7 =>
    if p.zbs then
      match f3 with
      | 0b001#3 => some (a &&& ~~~onehot)
      | 0b101#3 => some bext
      | _ => none
    else none
  | 0b0010100#7 => if p.zbs && f3 == 0b001#3 then some (a ||| onehot) else none
  | 0b0110100#7 => if p.zbs && f3 == 0b001#3 then some (a ^^^ onehot) else none
  | _ => none

def opI (f3 : BitVec 3) (f7 : BitVec 7) (rs2f : BitVec 5) (a b : Word) : Option Word :=
  let sh := (b.extractLsb' 0 5).toNat
  let onehot : Word := 1#32 <<< sh
  let bext : Word := if a &&& onehot = 0#32 then 0#32 else 1#32
  match f3 with
  | 0b001#3 =>
    match f7 with
    | 0b0110000#7 =>
      if p.zbb then
        match rs2f with
        | 0#5 => some (clz32 a)
        | 1#5 => some (ctz32 a)
        | 2#5 => some (cpop32 a)
        | 4#5 => some ((a.extractLsb' 0 8).signExtend 32)
        | 5#5 => some ((a.extractLsb' 0 16).signExtend 32)
        | _ => none
      else none
    | 0b0100100#7 => if p.zbs then some (a &&& ~~~onehot) else none
    | 0b0010100#7 => if p.zbs then some (a ||| onehot) else none
    | 0b0110100#7 => if p.zbs then some (a ^^^ onehot) else none
    | _ => none
  | 0b101#3 =>
    match f7 with
    | 0b0110000#7 => if p.zbb then some (ror a sh) else none
    | 0b0100100#7 => if p.zbs then some bext else none
    | 0b0010100#7 => if p.zbb && rs2f == 0b00111#5 then some (orcB a) else none
    | 0b0110100#7 => if p.zbb && rs2f == 0b11000#5 then some (rev8 a) else none
    | _ => none
  | _ => none

variable (opcode : BitVec 7) (f3 : BitVec 3) (f7 : BitVec 7) (rs2f : BitVec 5)

/-- `hit` and `result` together. -/
def unit (a b : Word) :
    Option Word :=
  if opcode = RiscvScratch.opR then opR p f3 f7 rs2f a b
  else if opcode = RiscvScratch.opI then opI p f3 f7 rs2f a b
  else none

def hit : Bool :=
  (unit p opcode f3 f7 rs2f 0#32 0#32).isSome

def result (a b : Word) :
    Word :=
  (unit p opcode f3 f7 rs2f a b).getD 0#32

end RiscvScratch.Zb
