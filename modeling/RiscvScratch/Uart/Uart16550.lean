import RiscvScratch.Uart.Rx

/-!
The ns16550a-compatible UART (`uart16550.v`), with its transmitter. What its receiver delivers is an
input of each cycle; `device` puts `uart_rx` there.
-/
namespace RiscvScratch.Uart16550

/-- A character `uart_rx` delivers. -/
structure Arrival where
  byte : BitVec 8
  fe : Bool
  pe : Bool
  deriving DecidableEq, Repr

structure Bus where
  sel : Bool
  we : Bool
  addr : BitVec 5
  wdata : BitVec 32

/-- `arrival` is there when `rx_v` is high. -/
structure Input extends Bus where
  arrival : Option Arrival

structure State where
  ier : BitVec 8
  lcr : BitVec 8
  mcr : BitVec 8
  scr : BitVec 8
  div : BitVec 16
  fifoEn : Bool
  rxTrig : BitVec 2
  oe : Bool
  pe : Bool
  fe : Bool
  threIp : Bool
  txq : BitVec 4 → BitVec 8
  txRd : BitVec 4
  txWr : BitVec 4
  txN : BitVec 5
  rxq : BitVec 4 → BitVec 8
  rxRd : BitVec 4
  rxWr : BitVec 4
  rxN : BitVec 5
  idleClk : BitVec 22
  tx : UartTxCfg.State

/-- Reset, after the `initial` block; `defDiv` is `DEF_DIV`. -/
def reset (defDiv : BitVec 16) : State where
  ier := 0
  lcr := 0
  mcr := 0
  scr := 0
  div := defDiv
  fifoEn := false
  rxTrig := 0
  oe := false
  pe := false
  fe := false
  threIp := false
  txq _ := 0
  txRd := 0
  txWr := 0
  txN := 0
  rxq _ := 0
  rxRd := 0
  rxWr := 0
  rxN := 0
  idleClk := 0
  tx := UartTxCfg.reset

def Bus.ra (b : Bus) : BitVec 3 := b.addr.extractLsb' 2 3

section Signals

variable (s : State) (i : Input)

def wr (r : BitVec 3) : Bool := i.sel && i.we && i.ra == r
def rd (r : BitVec 3) : Bool := i.sel && !i.we && i.ra == r

def dlab : Bool := s.lcr.getLsbD 7
def wbyte : BitVec 8 := i.wdata.setWidth 8

def cpb : BitVec 16 := (if s.div = 0 then 1#12 else s.div.setWidth 12) ++ 0#4
def dbits : BitVec 4 := 5 + (s.lcr.extractLsb' 0 2).setWidth 4
def parity : BitVec 2 := if !s.lcr.getLsbD 3 then 0 else if s.lcr.getLsbD 4 then 2 else 1
def loop : Bool := s.mcr.getLsbD 4

def framing : UartTxCfg.Framing := ⟨cpb s, dbits s, parity s, s.lcr.getLsbD 2⟩

def txSend : Bool := s.txN != 0 && !s.tx.busy
def txInput : UartTxCfg.Input := { framing s with send := txSend s, data := s.txq s.txRd }

/-- `rx_cap` and `tx_cap`. -/
def cap : BitVec 5 := if s.fifoEn then 16 else 1

def popRx : Bool := rd i 0#3 && !dlab s && s.rxN != 0
def pushRx : Bool := i.arrival.isSome && s.rxN != cap s
def pushTx : Bool := wr i 0#3 && !dlab s && s.txN != cap s

/-- The FIFO control writes that clear a FIFO: its own bit `b`, or a change of mode. -/
def clears (b : ℕ) : Bool := wr i 2#3 && (i.wdata.getLsbD b || i.wdata.getLsbD 0 != s.fifoEn)
def clearRx : Bool := clears s i 1
def clearTx : Bool := clears s i 2

def tmo : BitVec 22 := (cpb s ++ 0#5).setWidth 22 + (cpb s ++ 0#3).setWidth 22
def cti : Bool := s.rxN != 0 && (tmo s).ule s.idleClk

def rxLevel : Bool :=
  if s.fifoEn then
    (if s.rxTrig = 0 then 1#5 else if s.rxTrig = 1 then 4 else if s.rxTrig = 2 then 8 else 14).ule
      s.rxN
  else s.rxN != 0

def intRls : Bool := s.ier.getLsbD 2 && (s.oe || s.pe || s.fe)
def intRda : Bool := s.ier.getLsbD 0 && rxLevel s
def intCti : Bool := s.ier.getLsbD 0 && s.fifoEn && cti s
def intThre : Bool := s.ier.getLsbD 1 && s.threIp

def iid : BitVec 4 :=
  if intRls s then 0x6 else if intRda s then 0x4 else if intCti s then 0xC
  else if intThre s then 0x2 else 0x1

def irq : Bool := !(iid s).getLsbD 0

def lsr : BitVec 8 :=
  BitVec.ofBoolListBE [s.fifoEn && (s.pe || s.fe), s.txN == 0 && !s.tx.busy, s.txN == 0, false,
    s.fe, s.pe, s.oe, s.rxN != 0]

def msr : BitVec 8 :=
  if loop s then
    BitVec.ofBoolListBE [s.mcr.getLsbD 3, s.mcr.getLsbD 2, s.mcr.getLsbD 0, s.mcr.getLsbD 1,
      false, false, false, false]
  else 0xB0

def readByte (r : BitVec 3) : BitVec 8 :=
  if r = 0 then if dlab s then s.div.setWidth 8 else s.rxq s.rxRd
  else if r = 1 then if dlab s then s.div.extractLsb' 8 8 else s.ier
  else if r = 2 then BitVec.ofBool s.fifoEn ++ BitVec.ofBool s.fifoEn ++ 0#2 ++ iid s
  else if r = 3 then s.lcr
  else if r = 4 then s.mcr
  else if r = 5 then lsr s
  else if r = 6 then msr s
  else s.scr

def rdata (b : Bus) : BitVec 32 := (readByte s b.ra).setWidth 32

end Signals

section Step

variable (s : State) (i : Input)

def raisesThre : Bool :=
  wr i 1#3 && !dlab s && (i.wdata.getLsbD 1 && !s.ier.getLsbD 1 && s.txN == 0 && !pushTx s i)

def acksThre : Bool := rd i 2#3 && iid s == 0x2

/-- The clock edge. Where the source assigns a register more than once, the last one counts. -/
def step : State where
  ier := if wr i 1#3 && !dlab s then (i.wdata.setWidth 4).setWidth 8 else s.ier
  lcr := if wr i 3#3 then wbyte i else s.lcr
  mcr := if wr i 4#3 then (i.wdata.setWidth 5).setWidth 8 else s.mcr
  scr := if wr i 7#3 then wbyte i else s.scr
  div :=
    if wr i 0#3 && dlab s then s.div.extractLsb' 8 8 ++ wbyte i
    else if wr i 1#3 && dlab s then wbyte i ++ s.div.extractLsb' 0 8
    else s.div
  fifoEn := if wr i 2#3 then i.wdata.getLsbD 0 else s.fifoEn
  rxTrig := if wr i 2#3 then i.wdata.extractLsb' 6 2 else s.rxTrig
  oe := if i.arrival.isSome && s.rxN == cap s then true else if rd i 5#3 then false else s.oe
  pe := if i.arrival.any (·.pe) then true else if rd i 5#3 then false else s.pe
  fe := if i.arrival.any (·.fe) then true else if rd i 5#3 then false else s.fe
  threIp :=
    if raisesThre s i then true
    else if acksThre s i then false
    else if pushTx s i then false
    else if txSend s && s.txN == 1 then true
    else s.threIp
  txq := if pushTx s i then Function.update s.txq s.txWr (wbyte i) else s.txq
  txRd := if clearTx s i then 0 else if txSend s then s.txRd + 1 else s.txRd
  txWr := if clearTx s i then 0 else if pushTx s i then s.txWr + 1 else s.txWr
  txN :=
    if clearTx s i then 0
    else s.txN + (BitVec.ofBool (pushTx s i)).setWidth 5 - (BitVec.ofBool (txSend s)).setWidth 5
  rxq :=
    if pushRx s i then Function.update s.rxq s.rxWr ((i.arrival.map (·.byte)).getD 0) else s.rxq
  rxRd := if clearRx s i then 0 else if popRx s i then s.rxRd + 1 else s.rxRd
  rxWr := if clearRx s i then 0 else if pushRx s i then s.rxWr + 1 else s.rxWr
  rxN :=
    if clearRx s i then 0
    else s.rxN + (BitVec.ofBool (pushRx s i)).setWidth 5 - (BitVec.ofBool (popRx s i)).setWidth 5
  idleClk :=
    if pushRx s i || popRx s i || s.rxN == 0 then 0
    else if (tmo s).ule s.idleClk then s.idleClk else s.idleClk + 1
  tx := UartTxCfg.step s.tx (txInput s)

end Step

def machine (defDiv : BitVec 16) : Clocked.Machine State Input where
  init s := s = reset defDiv
  step := step

abbrev Run (defDiv : BitVec 16) := (machine defDiv).Run

def arrivalOf (r : UartRx.State) : Option Arrival :=
  if r.valid then some ⟨r.data, r.frameErr, r.parityErr⟩ else none

/-- The whole device: a cycle gives it a bus access and the level of the `rx` pin. -/
def device (defDiv : BitVec 16) : Clocked.Machine (State × UartRx.State) (Bus × Bool) where
  init s := s = (reset defDiv, UartRx.reset)
  step s i :=
    (step s.1 { i.1 with arrival := arrivalOf s.2 },
      UartRx.step s.2 { framing s.1 with rx := if loop s.1 then s.1.tx.tx else i.2, idleBits := 0 })

/-- The registers and FIFOs of the device run as `machine` on what its receiver delivers. -/
def Run.ofDevice {defDiv : BitVec 16} (r : (device defDiv).Run) : Run defDiv where
  state t := (r.state t).1
  input t := { (r.input t).1 with arrival := arrivalOf (r.state t).2 }
  starts := congrArg Prod.fst r.starts
  steps t := congrArg Prod.fst (r.steps t)

end RiscvScratch.Uart16550
