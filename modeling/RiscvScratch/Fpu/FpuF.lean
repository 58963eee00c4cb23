import RiscvScratch.Clocked.Machine
import RiscvScratch.Core.Alu

/-! The single-precision unit (`fpu_f.v`). Significands are natural numbers, cut where an operation
can leave their width; exponents are integers, wrapped to ten bits. -/
namespace RiscvScratch.FpuF

inductive Op where
  | add | sub | mul | div | sqrt | sgnj | minmax | cmp | cvtWs | cvtWus | cvtSw | cvtSwu
  | fmvXW | fmvWX | fclass
  /-- The code 15. -/
  | reserved
  deriving DecidableEq, Repr

def rne : BitVec 3 := 0b000#3
def rtz : BitVec 3 := 0b001#3
def rdn : BitVec 3 := 0b010#3
def rup : BitVec 3 := 0b011#3
def rmm : BitVec 3 := 0b100#3

def canonQnan : Word := 0x7FC00000#32

section fields
variable (a : Word)

def sign : Bool := a.getLsbD 31
def expo : ℕ := (a.extractLsb' 23 8).toNat
def frac : ℕ := (a.extractLsb' 0 23).toNat
def isZero : Bool := expo a == 0
def isInf : Bool := expo a == 255 && frac a == 0
def isNan : Bool := expo a == 255 && frac a != 0
def isSnan : Bool := isNan a && !a.getLsbD 22
def mant : ℕ := if isZero a then 0 else 2 ^ 23 + frac a

end fields

/-- `{s, e, f}`. -/
def pack (s : Bool) (e : ℕ) (f : ℕ) : Word :=
  BitVec.ofBool s ++ BitVec.ofNat 8 e ++ BitVec.ofNat 23 f

def flags5 (b4 b3 b2 b1 b0 : Bool) : BitVec 5 :=
  BitVec.ofBool b4 ++ BitVec.ofBool b3 ++ BitVec.ofBool b2 ++ BitVec.ofBool b1 ++ BitVec.ofBool b0

def int10 (x : ℤ) : ℤ := (x + 512) % 1024 - 512

/-- `{of, uf, nx, float}`. -/
structure Rounded where
  of : Bool
  uf : Bool
  nx : Bool
  f32 : Word
  deriving DecidableEq, Repr

/-- `inc`, from the guard, round and sticky bits and the last bit kept. -/
def roundInc (s : Bool) (sig : ℕ) (mode : BitVec 3) : Bool :=
  let g := sig.testBit 2
  let r := sig.testBit 1
  let st := sig.testBit 0
  let lsb := sig.testBit 3
  if mode = rtz then false
  else if mode = rdn then s && (g || r || st)
  else if mode = rup then !s && (g || r || st)
  else if mode = rmm then g
  else g && (r || st || lsb)

def roundPack (s : Bool) (expIn : ℤ) (sig : ℕ) (mode : BitVec 3) : Rounded :=
  let nx := sig % 8 != 0
  let keepC := sig / 8 + (roundInc s sig mode).toNat
  let carry := keepC.testBit 24
  let e := if carry then int10 (expIn + 1) else expIn
  let keepC := if carry then keepC / 2 else keepC
  if e ≥ 255 then
    ⟨true, false, true,
      if mode = rtz ∨ (mode = rdn ∧ s = false) ∨ (mode = rup ∧ s = true) then
        pack s 254 0x7FFFFF
      else pack s 255 0⟩
  else if e ≤ 0 then
    let uf := keepC % 2 ^ 24 != 0
    ⟨false, uf, nx || uf, pack s 0 0⟩
  else ⟨false, false, nx, pack s e.toNat (keepC % 2 ^ 23)⟩

def Rounded.flags (rp : Rounded) : BitVec 5 := flags5 false rp.of rp.uf false rp.nx

def lzc27 (x : ℕ) : ℕ := ((List.range 27).find? fun j => x.testBit (26 - j)).getD 27

abbrev Outcome := Word × BitVec 5

def Rounded.outcome (rp : Rounded) : Outcome := (rp.f32, rp.flags)

section operations
variable (rm : BitVec 3) (a b : Word)

/-- The smaller significand, shifted to the exponent of the larger, with the bits that are lost
or-ed into the last one. -/
def smallSh (mSmall ediff : ℕ) : ℕ :=
  let smallExt := mSmall * 8
  let sh := if ediff ≥ 27 then 0 else smallExt / 2 ^ ediff
  let sticky := if ediff ≥ 27 then smallExt != 0 else smallExt * 2 ^ (27 - ediff) % 2 ^ 27 != 0
  sh ||| sticky.toNat

/-- Magnitudes add: `sum[27]` shifts the significand right. -/
def addMagnitudes (bigS : Bool) (eBig bigExt small : ℕ) : Rounded :=
  let sum := bigExt + small
  if sum.testBit 27 then roundPack bigS (int10 (eBig + 1)) (sum / 2 ||| sum % 2) rm
  else roundPack bigS (int10 eBig) (sum % 2 ^ 27) rm

def subMagnitudes (bigS : Bool) (eBig bigExt small : ℕ) : Outcome :=
  let sum := if bigExt ≥ small then bigExt - small else small - bigExt
  let rs := if bigExt ≥ small then bigS else !bigS
  if sum % 2 ^ 27 = 0 then (pack (rm == rdn) 0 0, 0#5)
  else
    let shamt := lzc27 (sum % 2 ^ 27)
    (roundPack rs (int10 (eBig - shamt)) (sum % 2 ^ 27 * 2 ^ shamt % 2 ^ 27) rm).outcome

def doAddsub (isSub : Bool) : Outcome :=
  let s2 := sign b ^^ isSub
  if isNan a || isNan b then (canonQnan, flags5 (isSnan a || isSnan b) false false false false)
  else if isInf a && isInf b then
    if sign a != s2 then (canonQnan, 0b10000#5) else (pack (sign a) 255 0, 0#5)
  else if isInf a then (pack (sign a) 255 0, 0#5)
  else if isInf b then (pack s2 255 0, 0#5)
  else if isZero a && isZero b then
    (pack ((sign a && s2) || (rm == rdn && (sign a || s2))) 0 0, 0#5)
  else if isZero a then (pack s2 (expo b) (frac b), 0#5)
  else if isZero b then (pack (sign a) (expo a) (frac a), 0#5)
  else
    let aBig : Bool := expo a ≥ expo b
    let eBig := if aBig then expo a else expo b
    let bigS := if aBig then sign a else s2
    let mBig := if aBig then mant a else mant b
    let mSmall := if aBig then mant b else mant a
    let ediff := if aBig then expo a - expo b else expo b - expo a
    let small := smallSh mSmall ediff
    if sign a = s2 then (addMagnitudes rm bigS eBig (mBig * 8) small).outcome
    else subMagnitudes rm bigS eBig (mBig * 8) small

def doMul : Outcome :=
  let s := sign a ^^ sign b
  if isNan a || isNan b then (canonQnan, flags5 (isSnan a || isSnan b) false false false false)
  else if isInf a && isZero b || isInf b && isZero a then (canonQnan, 0b10000#5)
  else if isInf a || isInf b then (pack s 255 0, 0#5)
  else if isZero a || isZero b then (pack s 0 0, 0#5)
  else
    let prod := mant a * mant b
    let e := int10 (expo a + expo b - 127)
    if prod.testBit 47 then
      (roundPack s (int10 (e + 1)) (prod / 2 ^ 22 * 2 + (prod % 2 ^ 22 != 0).toNat) rm).outcome
    else
      (roundPack s e (prod / 2 ^ 21 * 2 + (prod % 2 ^ 21 != 0).toNat) rm).outcome

/-- The restoring loop, bits `n - 1` to 0 of `num` still to come. -/
def divLoop (num mb : ℕ) : ℕ → ℕ → ℕ → ℕ × ℕ
  | 0, rem, quo => (rem, quo)
  | n + 1, rem, quo =>
    let rem := rem % 2 ^ 24 * 2 + (num.testBit n).toNat
    let quo := quo * 2 % 2 ^ 27
    if rem ≥ mb then divLoop num mb n (rem - mb) (quo + 1) else divLoop num mb n rem quo

def fdivCore : Outcome :=
  let s := sign a ^^ sign b
  if isNan a || isNan b then (canonQnan, flags5 (isSnan a || isSnan b) false false false false)
  else if isInf a && isInf b then (canonQnan, 0b10000#5)
  else if isZero a && isZero b then (canonQnan, 0b10000#5)
  else if isInf a then (pack s 255 0, 0#5)
  else if isInf b then (pack s 0 0, 0#5)
  else if isZero b then (pack s 255 0, 0b01000#5)
  else if isZero a then (pack s 0 0, 0#5)
  else
    let (rem, quo) := divLoop (mant a * 2 ^ 26) (mant b) 50 0 0
    let st := rem != 0
    let e := int10 (expo a - expo b + 127)
    if quo.testBit 26 then
      (roundPack s e (quo / 2 * 2 + (quo.testBit 0 || st).toNat) rm).outcome
    else (roundPack s (int10 (e - 1)) (quo % 2 ^ 26 * 2 + st.toNat) rm).outcome

/-- `if (bit_ > rad) bit_ = bit_ >> 2`, `n` times. -/
def sqrtStart (rad : ℕ) : ℕ → ℕ → ℕ
  | 0, bit => bit
  | n + 1, bit => sqrtStart rad n (if bit > rad then bit / 4 else bit)

/-- The digit-by-digit loop on `rad`, `res` and `bit_`, `n` times: the remainder and the root. -/
def sqrtLoop : ℕ → ℕ → ℕ → ℕ → ℕ × ℕ
  | 0, rad, res, _ => (rad, res)
  | n + 1, rad, res, bit =>
    if bit ≠ 0 then
      if rad ≥ (res + bit) % 2 ^ 56 then
        sqrtLoop n (rad - (res + bit) % 2 ^ 56) ((res / 2 + bit) % 2 ^ 56) (bit / 4)
      else sqrtLoop n rad (res / 2) (bit / 4)
    else sqrtLoop n rad res bit

def fsqrtCore : Outcome :=
  if isNan a then (canonQnan, flags5 (isSnan a) false false false false)
  else if isZero a then (pack (sign a) 0 0, 0#5)
  else if sign a then (canonQnan, 0b10000#5)
  else if isInf a then (pack false 255 0, 0#5)
  else
    let mscaled := if expo a % 2 = 0 then mant a * 2 else mant a
    let rad := mscaled * 2 ^ 29
    let loop := sqrtLoop 28 rad 0 (sqrtStart rad 28 (2 ^ 54))
    let res := loop.2
    let st := loop.1 != 0
    let e := int10 ((expo a - 127) / 2 + 127)
    (roundPack false e (res % 2 ^ 27 / 2 * 2 + (res.testBit 0 || st).toNat) rm).outcome

def less : Bool :=
  if sign a != sign b then sign a
  else if !sign a then a.extractLsb' 0 31 < b.extractLsb' 0 31
  else a.extractLsb' 0 31 > b.extractLsb' 0 31

def sgnj (fmt3 : BitVec 3) : Word :=
  (if fmt3 = 0b000#3 then BitVec.ofBool (sign b)
    else if fmt3 = 0b001#3 then BitVec.ofBool (!sign b)
    else BitVec.ofBool (sign a ^^ sign b)) ++ a.extractLsb' 0 31

def minmax (fmt3 : BitVec 3) : Outcome :=
  (if isNan a && isNan b then canonQnan
    else if isNan a then b
    else if isNan b then a
    else if fmt3 = 0b000#3 then (if less a b then a else b) else (if less a b then b else a),
   if isSnan a || isSnan b then 0b10000#5 else 0#5)

def cmpEq : Bool := a == b || (isZero a && isZero b)

def cmpLt : Bool :=
  if sign a != sign b then sign a && !(isZero a && isZero b)
  else if !sign a then a.extractLsb' 0 31 < b.extractLsb' 0 31
  else a.extractLsb' 0 31 > b.extractLsb' 0 31

/-- `fmt3`: 2 `feq`, 1 `flt`, the others `fle`. -/
def cmp (fmt3 : BitVec 3) : Outcome :=
  if isNan a || isNan b then
    (0#32, if (if fmt3 = 0b010#3 then isSnan a || isSnan b else isNan a || isNan b) then 0b10000#5
      else 0#5)
  else
    ((BitVec.ofBool (if fmt3 = 0b010#3 then cmpEq a b else if fmt3 = 0b001#3 then cmpLt a b
      else cmpLt a b || cmpEq a b)).zeroExtend 32, 0#5)

def classify : Word :=
  if isNan a then (if isSnan a then 0x100#32 else 0x200#32)
  else if isInf a then (if sign a then 0x001#32 else 0x080#32)
  else if isZero a && frac a == 0 then (if sign a then 0x008#32 else 0x010#32)
  else if isZero a then (if sign a then 0x004#32 else 0x020#32)
  else if sign a then 0x002#32 else 0x040#32

/-- To a signed or unsigned integer; always toward zero, whatever `rm` says. -/
def toInteger (signed : Bool) : Outcome :=
  if isNan a then (if signed then 0x7FFFFFFF#32 else 0xFFFFFFFF#32, 0b10000#5)
  else if isZero a then (0#32, 0#5)
  else if expo a < 127 then (0#32, 0b00001#5)
  else if expo a - 127 ≥ 32 then
    (if signed then (if sign a then 0x80000000#32 else 0x7FFFFFFF#32)
      else if sign a then 0#32 else 0xFFFFFFFF#32, 0b10000#5)
  else
    let big := mant a * 2 ^ (expo a - 127)
    let ui := BitVec.ofNat 32 (big / 2 ^ 23)
    let fl := if big % 2 ^ 23 != 0 then 0b00001#5 else 0#5
    if signed then
      if sign a then
        if ui > 0x80000000#32 then (0x80000000#32, 0b10000#5) else (~~~ui + 1#32, fl)
      else if ui.getLsbD 31 then (0x7FFFFFFF#32, 0b10000#5) else (ui, fl)
    else if sign a then (0#32, 0b10000#5) else (ui, fl)

/-- `for (k=31;k>=0;k=k-1) if (sh==0 && ui[k]) sh=k;` -/
def topBit (ui : ℕ) : ℕ :=
  (List.range 32).foldl (fun sh j => if sh = 0 ∧ ui.testBit (31 - j) then 31 - j else sh) 0

def cvtSig (ui sh : ℕ) : ℕ :=
  if sh ≤ 23 then ui * 8 * 2 ^ (23 - sh) % 2 ^ 27
  else
    ui / 2 ^ (sh - 23) % 2 ^ 24 * 8 + ui / 2 ^ (sh - 24) % 2 * 4 +
      (if sh ≥ 25 then ui / 2 ^ (sh - 25) % 2 * 2 + (ui % 2 ^ (sh - 25) != 0).toNat else 0)

def fromInteger (signed : Bool) : Outcome :=
  if a = 0#32 then (0#32, 0#5)
  else
    let s := signed && a.getLsbD 31
    let ui := (if s then ~~~a + 1#32 else a).toNat
    let sh := topBit ui
    (roundPack s ((sh + 127 : ℕ) % 256) (cvtSig ui sh) rm).outcome

/-- What the registers take in the cycle of `start`: the result, the flags and `to_int`. -/
def compute (op : Op) (fmt3 : BitVec 3) : Word × BitVec 5 × Bool :=
  let float (o : Outcome) := (o.1, o.2, false)
  let int (o : Outcome) := (o.1, o.2, true)
  match op with
  | .add => float (doAddsub rm a b false)
  | .sub => float (doAddsub rm a b true)
  | .mul => float (doMul rm a b)
  | .div => float (fdivCore rm a b)
  | .sqrt => float (fsqrtCore rm a)
  | .sgnj => float (sgnj a b fmt3, 0#5)
  | .minmax => float (minmax a b fmt3)
  | .cmp => int (cmp a b fmt3)
  | .cvtWs => int (toInteger a true)
  | .cvtWus => int (toInteger a false)
  | .cvtSw => float (fromInteger rm a true)
  | .cvtSwu => float (fromInteger rm a false)
  | .fmvXW => int (a, 0#5)
  | .fmvWX => float (a, 0#5)
  | .fclass => int (classify a, 0#5)
  | .reserved => float (0#32, 0#5)

end operations

inductive Phase where
  | idle | go | waitn
  deriving DecidableEq, Repr

structure State where
  state : Phase
  waitc : ℕ
  result : Word
  flags : BitVec 5
  toInt : Bool
  done : Bool
  deriving DecidableEq, Repr

structure Input where
  start : Bool
  op : Op
  fmt3 : BitVec 3
  rm : BitVec 3
  a : Word
  b : Word

/-- A division or a square root waits 27 cycles, everything else one. -/
def step (s : State) (i : Input) : State :=
  match s.state with
  | .idle =>
    if i.start then
      let o := compute i.rm i.a i.b i.op i.fmt3
      let slow := i.op = .div ∨ i.op = .sqrt
      { s with
        result := o.1
        flags := o.2.1
        toInt := o.2.2
        done := false
        waitc := if slow then 26 else s.waitc
        state := if slow then .waitn else .go }
    else { s with done := false }
  | .go => { s with done := true, state := .idle }
  | .waitn =>
    if s.waitc = 0 then { s with done := true, state := .idle }
    else { s with done := false, waitc := s.waitc - 1 }

/-- The registers after `rst`; `waitc` is not reset. -/
def reset (waitc : ℕ) : State := ⟨.idle, waitc, 0#32, 0#5, false, false⟩

def machine : Clocked.Machine State Input where
  init s := ∃ waitc < 64, s = reset waitc
  step := step

theorem reset_starts : machine.init (reset 0) := ⟨0, by decide, rfl⟩

end RiscvScratch.FpuF
