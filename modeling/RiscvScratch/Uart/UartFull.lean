import RiscvScratch.Core.Alu
import RiscvScratch.Uart.Rx

/-! The memory-mapped UART of the PLIC SoC (`uart_full.v`), with its framers. -/
namespace RiscvScratch.UartFull

structure Params where
  defClks : BitVec 16
  defDbits : BitVec 4 := 8
  defParity : BitVec 2 := 0
  defStop2 : Bool := false
  defIdle : BitVec 5 := 12

structure Input where
  sel : Bool
  we : Bool
  addr : BitVec 8
  wdata : Word
  rx : Bool

structure State where
  cfgClks : BitVec 16
  cfgDbits : BitVec 4
  cfgParity : BitVec 2
  cfgStop2 : Bool
  cfgIdle : BitVec 5
  ien : BitVec 3
  rxHold : BitVec 8
  rxValid : Bool
  stFrame : Bool
  stParity : Bool
  stOver : Bool
  idlePend : Bool
  tx : UartTxCfg.State
  rx : UartRx.State

def reset (p : Params) : State where
  cfgClks := p.defClks
  cfgDbits := p.defDbits
  cfgParity := p.defParity
  cfgStop2 := p.defStop2
  cfgIdle := p.defIdle
  ien := 0
  rxHold := 0
  rxValid := false
  stFrame := false
  stParity := false
  stOver := false
  idlePend := false
  tx := UartTxCfg.reset
  rx := UartRx.reset

variable (s : State) (i : Input)

def txReady : Bool := !s.tx.busy

def rdRx : Bool := i.sel && !i.we && i.addr == 0x04
def txSend : Bool := i.sel && i.we && i.addr == 0x00 && txReady s

def framing : UartTxCfg.Framing := ⟨s.cfgClks, s.cfgDbits, s.cfgParity, s.cfgStop2⟩

def wrReg (a : BitVec 8) : Bool := i.sel && i.we && i.addr == a

def captures : Bool := s.rx.valid && !s.rxValid

def irq : Bool :=
  (s.rxValid && s.ien.getLsbD 0) || (s.idlePend && s.ien.getLsbD 1) ||
    (txReady s && s.ien.getLsbD 2)

def rdata : Word :=
  if i.addr = 0x04 then s.rxHold.setWidth 32
  else if i.addr = 0x08 then
    (BitVec.ofBoolListBE [s.stOver, s.stParity, s.stFrame, s.rxValid, txReady s]).setWidth 32
  else if i.addr = 0x0C then
    (BitVec.ofBool s.cfgStop2 ++ s.cfgParity ++ s.cfgDbits ++ s.cfgClks).setWidth 32
  else if i.addr = 0x10 then s.ien.setWidth 32
  else if i.addr = 0x14 then
    (BitVec.ofBoolListBE [txReady s, s.idlePend, s.rxValid]).setWidth 32
  else if i.addr = 0x18 then s.cfgIdle.setWidth 32
  else 0

def step : State where
  cfgClks := if wrReg i 0x0C then i.wdata.setWidth 16 else s.cfgClks
  cfgDbits := if wrReg i 0x0C then i.wdata.extractLsb' 16 4 else s.cfgDbits
  cfgParity := if wrReg i 0x0C then i.wdata.extractLsb' 20 2 else s.cfgParity
  cfgStop2 := if wrReg i 0x0C then i.wdata.getLsbD 22 else s.cfgStop2
  cfgIdle := if wrReg i 0x18 then i.wdata.setWidth 5 else s.cfgIdle
  ien := if wrReg i 0x10 then i.wdata.setWidth 3 else s.ien
  rxHold := if captures s then s.rx.data else s.rxHold
  rxValid := if rdRx i then false else if captures s then true else s.rxValid
  stFrame := if rdRx i then false else if captures s then s.rx.frameErr else s.stFrame
  stParity := if rdRx i then false else if captures s then s.rx.parityErr else s.stParity
  stOver := if rdRx i then false else if s.rx.valid && s.rxValid then true else s.stOver
  idlePend :=
    if s.rx.idle then true
    else if wrReg i 0x14 && i.wdata.getLsbD 1 then false
    else s.idlePend
  tx := UartTxCfg.step s.tx { framing s with send := txSend s i, data := i.wdata.setWidth 8 }
  rx := UartRx.step s.rx { framing s with rx := i.rx, idleBits := s.cfgIdle }

end RiscvScratch.UartFull
