import RiscvScratch.Core.Decode
import RiscvScratch.Serial.MulDiv

/-! The sequential multiply/divide unit of the Spartan-6 core (`s6_muldiv.v`): one bit per cycle,
or the product at once with `MUL_DSP`. -/
namespace RiscvScratch.S6Muldiv

inductive Phase where
  | idle | run | fix
  deriving DecidableEq, Repr

structure State where
  state : Phase
  count : BitVec 6
  acc : BitVec 33
  q : Word
  m : BitVec 33
  opQ : BitVec 3
  msignQ : Bool
  qnegQ : Bool
  rnegQ : Bool
  shortcut : Bool
  deriving DecidableEq, Repr

def reset : State := ⟨.idle, 0#6, 0#33, 0#32, 0#33, 0#3, false, false, false, false⟩

def done (s : State) : Bool := s.state == .fix

section load
variable (op : BitVec 3) (a b : Word)

def inDiv : Bool := op.getLsbD 2

def aSigned : Bool :=
  !op.getLsbD 2 && (op.extractLsb' 0 2 == 0b01#2 || op.extractLsb' 0 2 == 0b10#2) ||
    op.getLsbD 2 && !op.getLsbD 0

def bSigned : Bool :=
  !op.getLsbD 2 && op.extractLsb' 0 2 == 0b01#2 || op.getLsbD 2 && !op.getLsbD 0

def negA : Bool := aSigned op && a.msb
def negB : Bool := bSigned op && b.msb
def magA : Word := if negA op a then ~~~a + 1#32 else a
def magB : Word := if negB op b then ~~~b + 1#32 else b
def divZero : Bool := inDiv op && b == 0#32
def divOvf : Bool :=
  inDiv op && !op.getLsbD 0 && a == 0x80000000#32 && b == 0xFFFFFFFF#32

def withSign (signed : Bool) (x : Word) : BitVec 33 := BitVec.ofBool (signed && x.msb) ++ x

/-- The `MUL_DSP` product: bits 63 to 0 of a 33 by 33 signed multiplication. -/
def fastProd : BitVec 64 :=
  let sa := withSign (aSigned op) a
  let sb := withSign (bSigned op) b
  (sa.signExtend 66 * sb.signExtend 66).extractLsb' 0 64

def latch (s : State) : State :=
  { s with
    opQ := op
    msignQ := bSigned op
    qnegQ := negA op a ^^ negB op b
    rnegQ := negA op a
    count := 0#6
    shortcut := divZero op b || divOvf op a b }

def load (mulDsp : Bool) (s : State) : State :=
  let s' := latch op a b s
  if inDiv op then
    let s' := { s' with acc := 0#33, q := magA op a, m := 0#1 ++ magB op b }
    if divZero op b then { s' with q := 0xFFFFFFFF#32, acc := 0#1 ++ a, state := .fix }
    else if divOvf op a b then { s' with q := 0x80000000#32, acc := 0#33, state := .fix }
    else { s' with state := .run }
  else if mulDsp then
    { s' with
      acc := 0#1 ++ (fastProd op a b).extractLsb' 32 32
      q := (fastProd op a b).extractLsb' 0 32
      state := .fix }
  else { s' with acc := 0#33, q := b, m := withSign (aSigned op) a, state := .run }

end load

section iterate
variable (s : State)

def last : Bool := s.count == 31#6
def mulSub : Bool := last s && s.msignQ && s.q.getLsbD 0

def mulSum : BitVec 34 :=
  if s.q.getLsbD 0 then
    if mulSub s then s.acc.signExtend 34 - s.m.signExtend 34
    else s.acc.signExtend 34 + s.m.signExtend 34
  else s.acc.signExtend 34

def remSh : BitVec 33 := s.acc.extractLsb' 0 32 ++ s.q.extractLsb' 31 1
def remDif : BitVec 33 := remSh s - s.m
def remFit : Bool := !(remDif s).msb

def iterate : State :=
  { s with
    acc := if s.opQ.getLsbD 2 then (if remFit s then remDif s else remSh s)
      else (mulSum s).extractLsb' 1 33
    q := if s.opQ.getLsbD 2 then s.q.extractLsb' 0 31 ++ BitVec.ofBool (remFit s)
      else (mulSum s).extractLsb' 0 1 ++ s.q.extractLsb' 1 31
    count := s.count + 1#6
    state := if last s then .fix else .run }

end iterate

def step (mulDsp : Bool) (s : State) (start : Bool) (op : BitVec 3) (a b : Word) : State :=
  match s.state with
  | .idle => if start then load op a b mulDsp s else s
  | .run => iterate s
  | .fix => { s with state := .idle }

def quoFixed (s : State) : Word := if s.qnegQ && !s.shortcut then ~~~s.q + 1#32 else s.q

def remFixed (s : State) : Word :=
  if s.rnegQ && !s.shortcut then ~~~(s.acc.extractLsb' 0 32) + 1#32 else s.acc.extractLsb' 0 32

def result (s : State) : Word :=
  if s.opQ.getLsbD 2 then (if s.opQ.getLsbD 1 then remFixed s else quoFixed s)
  else if s.opQ.extractLsb' 0 2 == 0b00#2 then s.q else s.acc.extractLsb' 0 32

end RiscvScratch.S6Muldiv
