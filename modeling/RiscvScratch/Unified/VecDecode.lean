import RiscvScratch.Core.Decode

/-! Decoding and legality in the vector unit (`vec_unit.v`). Register indices and widths are
numbers; a width is the logarithm of its bytes. -/
namespace RiscvScratch.Vec

/-- The arithmetic classes `C_*`. -/
inductive Cls where
  | none | arith | cmp | mlog | red | mvxs | mvsx | cpop | first | vid
  | slup | sldn | sl1up | sl1dn | mvnr | ld | st
  deriving DecidableEq, Repr

/-- The sequencer states `S_*`. -/
inductive Fsm where
  | idle | init | run | final | done
  deriving DecidableEq, Repr

structure State where
  vrf : ℕ → Word
  vl : Word
  vtype : Word
  vstart : Word
  vxrm : BitVec 2
  vxsat : Bool
  fsm : Fsm
  idx : Word
  x1 : Word
  x2 : Word
  acc : Word
  found : Bool
  /-- Mask results and the bits written so far, 32 bits to an entry. -/
  mres : ℕ → Word
  mwr : ℕ → Word
  eaddr : Word
  fw : ℕ
  done : Bool
  fault : Bool
  faultCause : BitVec 4
  faultTval : Word
  scalarOut : Word

def clog2 (n : ℕ) : ℕ := if n ≤ 1 then 0 else Nat.log2 (n - 1) + 1

variable (vlen : ℕ)

def wpr : ℕ := vlen / 32
def lwpr : ℕ := clog2 (wpr vlen)
def aw : ℕ := clog2 (32 * wpr vlen)

section fields
variable (instr : Word)

def f3 : BitVec 3 := instr.extractLsb' 12 3
def f6 : BitVec 6 := instr.extractLsb' 26 6
def vm : Bool := instr.getLsbD 25
def rs2f : BitVec 5 := instr.extractLsb' 20 5
def rs1f : BitVec 5 := instr.extractLsb' 15 5
def vd : BitVec 5 := instr.extractLsb' 7 5

def vecWidth : Bool := f3 instr == 0b000#3 || (f3 instr).getLsbD 2

def isOpv : Bool := opcodeOf instr == 0b1010111#7
def isLd : Bool := opcodeOf instr == 0b0000111#7 && vecWidth instr
def isSt : Bool := opcodeOf instr == 0b0100111#7 && vecWidth instr
def isVec : Bool := isOpv instr || isLd instr || isSt instr
def isCfg : Bool := isOpv instr && f3 instr == 0b111#3

def ivv : Bool := isOpv instr && f3 instr == 0b000#3
def ivi : Bool := isOpv instr && f3 instr == 0b011#3
def ivx : Bool := isOpv instr && f3 instr == 0b100#3
def mvv : Bool := isOpv instr && f3 instr == 0b010#3
def mvx : Bool := isOpv instr && f3 instr == 0b110#3
def iv : Bool := ivv instr || ivi instr || ivx instr

def classifyIv : Cls × Bool :=
  let f := f6 instr
  if [0b000000#6, 0b001001#6, 0b001010#6, 0b001011#6, 0b100101#6, 0b101000#6,
      0b101001#6].contains f then (.arith, true)
  else if [0b000010#6, 0b000100#6, 0b000101#6, 0b000110#6, 0b000111#6].contains f then
    (.arith, !ivi instr)
  else if f = 0b000011#6 then (.arith, !ivv instr)
  else if f = 0b010111#6 then
    (.arith, if vm instr then rs2f instr == 0#5 else vd instr != 0#5)
  else if [0b011000#6, 0b011001#6, 0b011100#6, 0b011101#6].contains f then (.cmp, true)
  else if [0b011010#6, 0b011011#6].contains f then (.cmp, !ivi instr)
  else if [0b011110#6, 0b011111#6].contains f then (.cmp, !ivv instr)
  else if f = 0b001110#6 then (.slup, !ivv instr)
  else if f = 0b001111#6 then (.sldn, !ivv instr)
  else if f = 0b100111#6 then
    (.mvnr, ivi instr && vm instr && [0#5, 1#5, 3#5, 7#5].contains (rs1f instr))
  else (.none, false)

def mulFamily (f : BitVec 6) : Bool :=
  [0b100100#6, 0b100101#6, 0b100110#6, 0b100111#6, 0b101001#6, 0b101011#6, 0b101101#6,
    0b101111#6].contains f

def classifyMvv : Cls × Bool :=
  let f := f6 instr
  if f.extractLsb' 3 3 = 0b000#3 then (.red, true)
  else if f = 0b010000#6 then
    if rs1f instr = 0b00000#5 then (.mvxs, vm instr)
    else if rs1f instr = 0b10000#5 then (.cpop, true)
    else if rs1f instr = 0b10001#5 then (.first, true)
    else (.none, false)
  else if f = 0b010100#6 then
    if rs1f instr = 0b10001#5 then (.vid, rs2f instr == 0#5) else (.none, false)
  else if f.extractLsb' 3 3 = 0b011#3 then (.mlog, vm instr)
  else if mulFamily f then (.arith, true)
  else (.none, false)

def classifyMvx : Cls × Bool :=
  let f := f6 instr
  if f = 0b010000#6 then (.mvsx, vm instr && rs2f instr == 0#5)
  else if f = 0b001110#6 then (.sl1up, true)
  else if f = 0b001111#6 then (.sl1dn, true)
  else if mulFamily f then (.arith, true)
  else (.none, false)

def classify : Cls × Bool :=
  if iv instr then classifyIv instr
  else if mvv instr then classifyMvv instr
  else if mvx instr then classifyMvx instr
  else if isLd instr then (.ld, true)
  else if isSt instr then (.st, true)
  else (.none, false)

def cls : Cls := (classify instr).1

def isMem : Bool := cls instr == .ld || cls instr == .st

def nf : BitVec 3 := instr.extractLsb' 29 3
def mew : Bool := instr.getLsbD 28
def mop : BitVec 2 := instr.extractLsb' 26 2
def mUnit : Bool := mop instr == 0b00#2
def mStrd : Bool := mop instr == 0b10#2
def mIdx : Bool := (mop instr).getLsbD 0

def weewl : ℕ := if f3 instr = 0b000#3 then 0 else if f3 instr = 0b101#3 then 1 else 2

def mWhole : Bool := mUnit instr && rs2f instr == 0b01000#5
def mMask : Bool := mUnit instr && rs2f instr == 0b01011#5
def mFf : Bool := mUnit instr && rs2f instr == 0b10000#5 && isLd instr
def mNorm : Bool := mUnit instr && rs2f instr == 0b00000#5
def nregOk : Bool := [0#3, 1#3, 3#3, 7#3].contains (nf instr)

def nrl : ℤ :=
  if rs1f instr = 7#5 then 3 else if rs1f instr = 3#5 then 2 else if rs1f instr = 1#5 then 1 else 0

end fields

def sewl (s : State) : ℕ := (s.vtype.extractLsb' 3 2).toNat

def lmull (s : State) : ℤ :=
  let m := s.vtype.extractLsb' 0 3
  if m.getLsbD 2 then (m.toNat : ℤ) - 8 else m.toNat

structure Widths where
  dEewl : ℕ
  aEewl : ℕ
  maskD : Bool
  maskA : Bool
  evl : Word
  emull : ℤ

def widths (s : State) (instr : Word) : Widths :=
  let d : Widths := ⟨sewl s, sewl s, false, false, s.vl, lmull s⟩
  match cls instr with
  | .cmp => { d with maskD := true }
  | .mlog => { d with maskD := true, maskA := true }
  | .cpop | .first => { d with maskA := true }
  | .mvnr =>
    { d with
      dEewl := 2, aEewl := 2, emull := 0
      evl := ((rs1f instr).zeroExtend 32 + 1#32) <<< lwpr vlen }
  | .ld | .st =>
    if mWhole instr then
      { d with dEewl := 2, emull := 0, evl := ((nf instr).zeroExtend 32 + 1#32) <<< lwpr vlen }
    else if mMask instr then { d with dEewl := 0, emull := 0, evl := (s.vl + 7#32) >>> 3 }
    else if mIdx instr then { d with dEewl := sewl s, aEewl := weewl instr }
    else { d with dEewl := weewl instr, emull := (weewl instr : ℤ) - sewl s + lmull s }
  | _ => d

def aligned (r : BitVec 5) (l : ℤ) : Bool :=
  if l ≤ 0 then true
  else if l = 1 then !r.getLsbD 0
  else if l = 2 then r.extractLsb' 0 2 == 0#2
  else r.extractLsb' 0 3 == 0#3

def usesVtype (instr : Word) : Bool :=
  !(cls instr == .mvnr || (isMem instr && mWhole instr))

def regOk (s : State) (instr : Word) : Bool :=
  let l := lmull s
  match cls instr with
  | .arith | .slup | .sldn | .sl1up | .sl1dn =>
    aligned (vd instr) l && aligned (rs2f instr) l &&
      ((!ivv instr && !mvv instr) || aligned (rs1f instr) l)
  | .cmp => aligned (rs2f instr) l && (!ivv instr || aligned (rs1f instr) l)
  | .red => aligned (rs2f instr) l
  | .mvnr => aligned (vd instr) (nrl instr) && aligned (rs2f instr) (nrl instr)
  | .ld | .st =>
    if mIdx instr then aligned (vd instr) l
    else aligned (vd instr) (widths vlen s instr).emull
  | _ => true

/-- A masked operation may not write `v0` unless its result is a mask. -/
def v0Clash (instr : Word) : Bool :=
  !vm instr && vd instr == 0#5 &&
    (match cls instr with
     | .arith | .slup | .sldn | .sl1up | .sl1dn | .ld | .vid => true
     | _ => false)

def memOk (s : State) (instr : Word) : Bool :=
  !mew instr && !(f3 instr == 0b111#3) &&
    (mStrd instr || mIdx instr || mNorm instr || mFf instr || (mWhole instr && nregOk instr) ||
      mMask instr) &&
    (nf instr == 0#3 || mWhole instr) && ((!mMask instr && !mWhole instr) || vm instr) &&
    (decide (-3 ≤ (widths vlen s instr).emull) && decide ((widths vlen s instr).emull ≤ 3))

def illegal (s : State) (instr : Word) (vsOn : Bool) : Bool :=
  isVec instr && (!vsOn || (!isCfg instr && (!(classify instr).2 ||
    (usesVtype instr && s.vtype.getLsbD 31) || !regOk vlen s instr || v0Clash instr ||
    (isMem instr && !memOk vlen s instr))))

def writesRd (instr : Word) : Bool :=
  isCfg instr || cls instr == .mvxs || cls instr == .cpop || cls instr == .first

section config
variable (s : State) (instr rs1 rs2 : Word)

def vsetivli : Bool := isCfg instr && instr.extractLsb' 30 2 == 0b11#2
def vsetvl : Bool := isCfg instr && instr.extractLsb' 25 7 == 0b1000000#7

def nvtRaw : Word :=
  if vsetvl instr then rs2
  else if vsetivli instr then (instr.extractLsb' 20 10).zeroExtend 32
  else (instr.extractLsb' 20 11).zeroExtend 32

def nSew : BitVec 3 := (nvtRaw instr rs2).extractLsb' 3 3
def nLmul : BitVec 3 := (nvtRaw instr rs2).extractLsb' 0 3

def nFracOk : Bool :=
  let m := nLmul instr rs2
  !m.getLsbD 2 || (m == 0b111#3 && (nSew instr rs2).ule 1#3) ||
    (m == 0b110#3 && nSew instr rs2 == 0#3)

def nOk : Bool :=
  (nSew instr rs2).ule 2#3 && nLmul instr rs2 != 0b100#3 && nFracOk instr rs2 &&
    (nvtRaw instr rs2).extractLsb' 8 24 == 0#24

/-- `VLMAX = VLEN / SEW * LMUL`. -/
def nVlmax : Word :=
  let m := nLmul instr rs2
  let base := BitVec.ofNat 32 (vlen / 8) >>> (nSew instr rs2).toNat
  if m.getLsbD 2 then base >>> (8 - m.toNat) else base <<< m.toNat

def avl : Word :=
  if vsetivli instr then (rs1f instr).zeroExtend 32
  else if rs1f instr != 0#5 then rs1
  else if vd instr != 0#5 then 0xFFFFFFFF#32 else s.vl

def cfgNewVl : Word :=
  if nOk instr rs2 then
    if (avl s instr rs1).ult (nVlmax vlen instr rs2) then avl s instr rs1 else nVlmax vlen instr rs2
  else 0#32

end config

end RiscvScratch.Vec
