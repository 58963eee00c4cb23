import RiscvScratch.Core.Alu

/-! The Sv32 page-table walker (`ptw.v`). -/
namespace RiscvScratch.Ptw

inductive Fsm where
  | idle | l1 | l0
  deriving DecidableEq, Repr

structure State where
  fsm : Fsm
  sideI : Bool
  va : Word
  l0Ppn : BitVec 22
  killed : Bool

structure Input where
  satp : Word
  startD : Bool
  vaD : Word
  startI : Bool
  vaI : Word
  kill : Bool
  memRdata : Word
  memReady : Bool
  memOk : Bool

def busy (s : State) : Bool := s.fsm != .idle

def memAddr (s : State) (satp : Word) : Word :=
  match s.fsm with
  | .l1 => (satp.extractLsb' 0 20 ++ 0#12) + (s.va.extractLsb' 22 10).zeroExtend 32 <<< 2
  | .l0 => (s.l0Ppn.extractLsb' 0 20 ++ 0#12) + (s.va.extractLsb' 12 10).zeroExtend 32 <<< 2
  | .idle => 0#32

def pteLeaf (pte : Word) : Bool := pte.getLsbD 1 || pte.getLsbD 3

def pteBad (svade : Bool) (pte : Word) : Bool :=
  !pte.getLsbD 0 || (!pte.getLsbD 1 && pte.getLsbD 2) ||
    (svade && pteLeaf pte && !pte.getLsbD 6)

variable (svade : Bool)

variable (s : State) (i : Input)

def noread : Bool := busy s && !i.memOk

def atL1 : Bool := s.fsm == .l1 && (i.memReady || noread s i)
def atL0 : Bool := s.fsm == .l0 && (i.memReady || noread s i)

def good : Bool :=
  !noread s i && ((atL1 s i && !pteBad svade i.memRdata && pteLeaf i.memRdata) ||
    (atL0 s i && !pteBad svade i.memRdata && pteLeaf i.memRdata))

def bad : Bool :=
  noread s i || (atL1 s i && pteBad svade i.memRdata) ||
    (atL0 s i && (pteBad svade i.memRdata || !pteLeaf i.memRdata))

def drop : Bool := s.killed || (i.kill && s.sideI)

def doneFill : Bool := good svade s i && !drop s i
def doneFault : Bool := bad svade s i && !drop s i
def doneAf : Bool := noread s i && !drop s i

def leafPpn (i : Input) : BitVec 22 := i.memRdata.extractLsb' 10 22
def leafSuper : Bool := s.fsm == .l1

/-- `{U, X, W, R}`; Svade gives no W until D is set. -/
def leafPerm (i : Input) : BitVec 4 :=
  let pte := i.memRdata
  BitVec.ofBool (pte.getLsbD 4) ++ BitVec.ofBool (pte.getLsbD 3) ++
    BitVec.ofBool (pte.getLsbD 2 && (pte.getLsbD 7 || !svade)) ++ BitVec.ofBool (pte.getLsbD 1)

def step : State :=
  let killed := s.killed || (i.kill && s.sideI && busy s)
  match s.fsm with
  | .idle =>
    if i.startD then { s with killed := false, sideI := false, va := i.vaD, fsm := .l1 }
    else if i.startI then { s with killed := false, sideI := true, va := i.vaI, fsm := .l1 }
    else { s with killed := false }
  | .l1 =>
    if noread s i then { s with killed := killed, fsm := .idle }
    else if i.memReady then
      if pteBad svade i.memRdata || pteLeaf i.memRdata then
        { s with killed := killed, fsm := .idle }
      else { s with killed := killed, l0Ppn := i.memRdata.extractLsb' 10 22, fsm := .l0 }
    else { s with killed := killed }
  | .l0 =>
    if noread s i || i.memReady then { s with killed := killed, fsm := .idle }
    else { s with killed := killed }

def reset : State where
  fsm := .idle
  sideI := false
  va := 0#32
  l0Ppn := 0#22
  killed := false

end RiscvScratch.Ptw
