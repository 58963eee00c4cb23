import RiscvScratch.Clocked.Machine

/-! The UART of the Spartan-6 SoC (`s6_fifo.v`, `s6_uart_tx.v`, `s6_uart_rx.v`, `s6_uart.v`). -/
namespace RiscvScratch.S6Uart

/-- A FIFO of `2 ^ w` words; the pointers carry one bit more. -/
structure Fifo (α : Type*) (w : ℕ) where
  mem : BitVec w → α
  wptr : BitVec (w + 1)
  rptr : BitVec (w + 1)

namespace Fifo

variable {α : Type*} {w : ℕ} (f : Fifo α w)

def rdata : α := f.mem (f.rptr.setWidth w)
def empty : Bool := f.wptr == f.rptr
def full : Bool := f.wptr.setWidth w == f.rptr.setWidth w && f.wptr.getLsbD w != f.rptr.getLsbD w
def level : BitVec (w + 1) := f.wptr - f.rptr

def step (clr wr : Bool) (wdata : α) (rd : Bool) : Fifo α w where
  mem := if wr && !f.full then Function.update f.mem (f.wptr.setWidth w) wdata else f.mem
  wptr := if clr then 0 else if wr && !f.full then f.wptr + 1 else f.wptr
  rptr := if clr then 0 else if rd && !f.empty then f.rptr + 1 else f.rptr

end Fifo

inductive Phase where
  | idle | start | data | par | stop
  deriving DecidableEq, Repr

structure TxInput where
  osTick : Bool
  send : Bool
  data : BitVec 8
  dataBits : BitVec 4
  parity : BitVec 2
  stop2 : Bool

structure Tx where
  st : Phase
  tcnt : BitVec 4
  bidx : BitVec 3
  sh : BitVec 8
  parR : Bool
  stopSecond : Bool
  tx : Bool
  deriving DecidableEq, Repr

namespace Tx

def reset : Tx := ⟨.idle, 0, 0, 0, false, false, true⟩

def busy (s : Tx) : Bool := s.st != .idle

variable (s : Tx) (i : TxInput)

def mask : BitVec 8 := 0xFF#8 >>> (8#4 - i.dataBits).toNat
def lastb : BitVec 3 := i.dataBits.setWidth 3 - 1
def tickend : Bool := i.osTick && s.tcnt == 15

def xorAll (b : BitVec 8) : Bool := (List.range 8).foldl (fun p k => xor p (b.getLsbD k)) false

def count : BitVec 4 := if i.osTick then if tickend s i then 0 else s.tcnt + 1 else s.tcnt

def step : Tx :=
  let s' := { s with tcnt := count s i }
  match s.st with
  | .idle =>
    if i.send then
      { s' with sh := i.data, parR := xor (i.parity.getLsbD 0) (xorAll (i.data &&& mask i)),
                tx := false, tcnt := 0, st := .start }
    else s'
  | .start =>
    if tickend s i then { s' with tx := s.sh.getLsbD 0, bidx := 0, st := .data } else s'
  | .data =>
    if tickend s i then
      if s.bidx = lastb i then
        if i.parity.getLsbD 1 then { s' with tx := s.parR, st := .par }
        else { s' with tx := true, stopSecond := i.stop2, st := .stop }
      else { s' with sh := s.sh >>> 1, tx := s.sh.getLsbD 1, bidx := s.bidx + 1 }
    else s'
  | .par =>
    if tickend s i then { s' with tx := true, stopSecond := i.stop2, st := .stop } else s'
  | .stop =>
    if tickend s i then
      if s.stopSecond then { s' with stopSecond := false } else { s' with st := .idle }
    else s'

def starts : Option (BitVec 8) := if s.st = .idle ∧ i.send then some i.data else none

end Tx

structure RxInput where
  osTick : Bool
  rx : Bool
  dataBits : BitVec 4
  parity : BitVec 2
  idleBits : BitVec 5

structure Rx where
  /-- `sync[0]` -/
  sync0 : Bool
  /-- `sync[1]`, the synchronised line -/
  rxs : Bool
  st : Phase
  tcnt : BitVec 4
  bidx : BitVec 3
  sh : BitVec 8
  smpl : BitVec 2
  parAcc : Bool
  idleCnt : BitVec 9
  armed : Bool
  data : BitVec 8
  valid : Bool
  frameErr : Bool
  parityErr : Bool
  idle : Bool
  deriving DecidableEq, Repr

namespace Rx

def reset : Rx where
  sync0 := true
  rxs := true
  st := .idle
  tcnt := 0
  bidx := 0
  sh := 0
  smpl := 0
  parAcc := false
  idleCnt := 0
  armed := false
  data := 0
  valid := false
  frameErr := false
  parityErr := false
  idle := false

variable (s : Rx) (i : RxInput)

def lastb : BitVec 3 := i.dataBits.setWidth 3 - 1
def tickend : Bool := i.osTick && s.tcnt == 15
def majority : Bool := s.smpl.getLsbD 1
def idleLim : BitVec 9 := i.idleBits ++ 0#4

def addSample : BitVec 2 := s.smpl + (BitVec.ofBool s.rxs).setWidth 2

def housekeep : Rx :=
  let ticking := i.osTick && s.st != .idle
  let counting := i.osTick && i.idleBits != 0 && s.idleCnt.ult (idleLim i)
  let fires := counting && s.idleCnt + 1 == idleLim i && s.armed
  let quiet := s.st == .idle && s.rxs
  { s with
    sync0 := i.rx
    rxs := s.sync0
    valid := false
    idle := quiet && fires
    tcnt := if ticking then if tickend s i then 0 else s.tcnt + 1 else s.tcnt
    smpl :=
      if ticking then
        if s.tcnt = 6 then (BitVec.ofBool s.rxs).setWidth 2
        else if s.tcnt = 7 ∨ s.tcnt = 8 then addSample s
        else s.smpl
      else s.smpl
    idleCnt := if !quiet then 0 else if counting then s.idleCnt + 1 else s.idleCnt
    armed := if quiet && fires then false else s.armed }

def step : Rx :=
  let s' := housekeep s i
  match s.st with
  | .idle => if !s.rxs then { s' with tcnt := if i.osTick then 1 else 0, st := .start } else s'
  | .start =>
    if i.osTick then
      if s.tcnt = 7 ∧ s.rxs then { s' with st := .idle }
      else if s.tcnt = 15 then
        { s' with bidx := 0, sh := 0, parAcc := false, parityErr := false, st := .data }
      else s'
    else s'
  | .data =>
    if tickend s i then
      let s'' := { s' with
        sh := BitVec.ofBool (majority s) ++ s.sh.extractLsb' 1 7
        parAcc := xor s.parAcc (majority s) }
      if s.bidx = lastb i then { s'' with st := if i.parity.getLsbD 1 then .par else .stop }
      else { s'' with bidx := s.bidx + 1 }
    else s'
  | .par =>
    if tickend s i then
      { s' with parityErr := xor s.parAcc (majority s) != i.parity.getLsbD 0, st := .stop }
    else s'
  | .stop =>
    if tickend s i then
      { s' with data := s.sh >>> (8#4 - i.dataBits).toNat, frameErr := !majority s, valid := true,
                armed := true, st := .idle }
    else s'

end Rx

structure Baud where
  acc : BitVec 20
  osTick : Bool
  deriving DecidableEq, Repr

namespace Baud

def reset : Baud := ⟨0, false⟩

variable (s : Baud) (bauddiv : BitVec 20)

def accNext : BitVec 21 := s.acc.setWidth 21 + 16
def tickNow : Bool := (bauddiv.setWidth 21).ule (accNext s) && (16#20).ule bauddiv

def step : Baud where
  osTick := tickNow s bauddiv
  acc :=
    if tickNow s bauddiv then (accNext s - bauddiv.setWidth 21).setWidth 20
    else (accNext s).setWidth 20

end Baud

structure Input where
  sel : Bool
  re : Bool
  be : BitVec 4
  addr : BitVec 8
  wdata : BitVec 32
  rx : Bool
  ctsN : Bool

/-- The control register's fields, as they are stored. -/
structure Ctrl where
  txEn : Bool
  rxEn : Bool
  loop : Bool
  rtsEn : Bool
  ctsEn : Bool
  stop2 : Bool
  parity : BitVec 2
  dbits : BitVec 4
  deriving DecidableEq, Repr

/-- With `FIFO_DEPTH = 2 ^ w`. -/
structure State (w : ℕ) where
  bauddiv : BitVec 20
  ctrl : Ctrl
  ien : BitVec 6
  wmTx : BitVec 4
  wmRx : BitVec 4
  idleCfg : BitVec 5
  stOver : Bool
  stFrame : Bool
  stParity : Bool
  stIdle : Bool
  rdAck : Bool
  baud : Baud
  txStartQ : Bool
  txf : Fifo (BitVec 8) w
  rxf : Fifo (BitVec 8) w
  tx : Tx
  rx : Rx
  rdata : BitVec 32

/-- Reset leaves the FIFO memories and `rdata` as they are. -/
def reset {w : ℕ} (defBauddiv : BitVec 20) (txm rxm : BitVec w → BitVec 8) (rdata : BitVec 32) :
    State w where
  bauddiv := defBauddiv
  ctrl := ⟨true, true, false, false, false, false, 0, 8⟩
  ien := 0
  wmTx := 0
  wmRx := 1
  idleCfg := 12
  stOver := false
  stFrame := false
  stParity := false
  stIdle := false
  rdAck := false
  baud := Baud.reset
  txStartQ := false
  txf := ⟨txm, 0, 0⟩
  rxf := ⟨rxm, 0, 0⟩
  tx := Tx.reset
  rx := Rx.reset
  rdata := rdata

section Signals

variable {w : ℕ} (s : State w) (i : Input)

def wr : Bool := i.sel && i.be != 0
def wrReg (a : BitVec 8) : Bool := wr i && i.addr == a
def rdFirst : Bool := i.sel && i.re && !s.rdAck
def ready : Bool := wr i || s.rdAck

def txLvl : BitVec 8 := s.txf.level.setWidth 8
def rxLvl : BitVec 8 := s.rxf.level.setWidth 8

def ctsOk : Bool := !s.ctrl.ctsEn || !i.ctsN
def txStart : Bool := s.ctrl.txEn && !s.tx.busy && !s.txf.empty && ctsOk s i
def txfPush : Bool := wrReg i 0x00#8
def txfClr : Bool := wrReg i 0x08#8 && i.wdata.getLsbD 4
def rxfClr : Bool := wrReg i 0x08#8 && i.wdata.getLsbD 5
def rxfPush : Bool := s.rx.valid && s.ctrl.rxEn && !s.rxf.full
def rxfPop : Bool := rdFirst s i && i.addr == 0x00#8 && !s.rxf.empty

def txInput : TxInput where
  osTick := s.baud.osTick
  send := s.txStartQ
  data := s.txf.rdata
  dataBits := s.ctrl.dbits
  parity := s.ctrl.parity
  stop2 := s.ctrl.stop2

def rxInput : RxInput where
  osTick := s.baud.osTick
  rx := if s.ctrl.loop then s.tx.tx else i.rx
  dataBits := s.ctrl.dbits
  parity := s.ctrl.parity
  idleBits := s.idleCfg

def ipend : BitVec 6 :=
  BitVec.ofBoolListBE [s.stOver || s.stFrame || s.stParity, s.stIdle,
    (txLvl s).ule (s.wmTx.setWidth 8), s.txf.empty && !s.tx.busy,
    (s.wmRx.setWidth 8).ule (rxLvl s), !s.rxf.empty]

def irq : Bool := ipend s &&& s.ien != 0

def status : BitVec 10 :=
  BitVec.ofBoolListBE [i.ctsN, s.stIdle, s.stParity, s.stFrame, s.stOver, s.rxf.full, s.rxf.empty,
    s.tx.busy, s.txf.full, s.txf.empty]

def Ctrl.read (c : Ctrl) : BitVec 15 :=
  c.dbits ++ BitVec.ofBool c.stop2 ++ c.parity ++ 0#1 ++ BitVec.ofBool c.ctsEn ++ 0#2 ++
    BitVec.ofBool c.rtsEn ++ BitVec.ofBool c.loop ++ BitVec.ofBool c.rxEn ++ BitVec.ofBool c.txEn

def rdMux : BitVec 32 :=
  if i.addr = 0x00 then (BitVec.ofBool (!s.rxf.empty) ++ s.rxf.rdata).setWidth 32
  else if i.addr = 0x04 then (status s i).setWidth 32
  else if i.addr = 0x08 then s.ctrl.read.setWidth 32
  else if i.addr = 0x0C then s.bauddiv.setWidth 32
  else if i.addr = 0x10 then s.ien.setWidth 32
  else if i.addr = 0x14 then (ipend s).setWidth 32
  else if i.addr = 0x18 then (rxLvl s ++ txLvl s).setWidth 32
  else if i.addr = 0x1C then (s.wmRx ++ 0#4 ++ s.wmTx).setWidth 32
  else if i.addr = 0x20 then s.idleCfg.setWidth 32
  else 0

def Ctrl.ofWord (v : BitVec 32) : Ctrl where
  txEn := v.getLsbD 0
  rxEn := v.getLsbD 1
  loop := v.getLsbD 2
  rtsEn := v.getLsbD 3
  ctsEn := v.getLsbD 6
  stop2 := v.getLsbD 10
  parity := v.extractLsb' 8 2
  dbits :=
    let n := v.extractLsb' 11 4
    if (5#4).ule n && n.ule 8#4 then n else 8

def latch (set clr old : Bool) : Bool := if set then true else if clr then false else old

def step : State w where
  bauddiv := if wrReg i 0x0C#8 then i.wdata.setWidth 20 else s.bauddiv
  ctrl := if wrReg i 0x08#8 then Ctrl.ofWord i.wdata else s.ctrl
  ien := if wrReg i 0x10#8 then i.wdata.setWidth 6 else s.ien
  wmTx := if wrReg i 0x1C#8 then i.wdata.setWidth 4 else s.wmTx
  wmRx := if wrReg i 0x1C#8 then i.wdata.extractLsb' 8 4 else s.wmRx
  idleCfg := if wrReg i 0x20#8 then i.wdata.setWidth 5 else s.idleCfg
  stOver := latch (s.rx.valid && s.ctrl.rxEn && s.rxf.full)
    (wrReg i 0x14#8 && i.wdata.getLsbD 5) s.stOver
  stFrame := latch (s.rx.valid && s.ctrl.rxEn && s.rx.frameErr)
    (wrReg i 0x14#8 && i.wdata.getLsbD 5) s.stFrame
  stParity := latch (s.rx.valid && s.ctrl.rxEn && s.rx.parityErr)
    (wrReg i 0x14#8 && i.wdata.getLsbD 5) s.stParity
  stIdle := latch s.rx.idle (wrReg i 0x14#8 && i.wdata.getLsbD 4) s.stIdle
  rdAck := rdFirst s i
  baud := s.baud.step s.bauddiv
  txStartQ := txStart s i && !s.txStartQ
  txf := s.txf.step (txfClr i) (txfPush i) (i.wdata.setWidth 8) s.txStartQ
  rxf := s.rxf.step (rxfClr i) (rxfPush s) s.rx.data (rxfPop s i)
  tx := s.tx.step (txInput s)
  rx := s.rx.step (rxInput s i)
  rdata := if rdFirst s i then rdMux s i else s.rdata

end Signals

def machine (w : ℕ) (defBauddiv : BitVec 20) : Clocked.Machine (State w) Input where
  init s := ∃ txm rxm rdata, s = reset defBauddiv txm rxm rdata
  step := step

abbrev Run (w : ℕ) (defBauddiv : BitVec 20) := (machine w defBauddiv).Run

end RiscvScratch.S6Uart
