import RiscvScratch.Uart.TxCfg

/-! The configurable UART receiver with idle-line detection (`uart_rx.v`). -/
namespace RiscvScratch.UartRx

open UartTxCfg (Phase Framing)

structure Input extends Framing where
  rx : Bool
  idleBits : BitVec 5

structure State where
  phase : Phase
  cnt : BitVec 16
  bidx : BitVec 4
  sh : BitVec 8
  par : Bool
  stopcnt : Bool
  /-- `rxq[0]` -/
  rxq0 : Bool
  /-- `rxq[1]`, the synchronised line -/
  rxs : Bool
  idleClk : BitVec 16
  idleBit : BitVec 5
  rxActive : Bool
  data : BitVec 8
  valid : Bool
  frameErr : Bool
  parityErr : Bool
  idle : Bool
  deriving DecidableEq, Repr

def reset : State where
  phase := .idle
  cnt := 0
  bidx := 0
  sh := 0
  par := false
  stopcnt := false
  rxq0 := true
  rxs := true
  idleClk := 0
  idleBit := 0
  rxActive := false
  data := 0
  valid := false
  frameErr := false
  parityErr := false
  idle := false

variable (s : State) (i : Input)

def bitEnd : Bool := s.cnt.toNat + 1 == i.clksPerBit.toNat

def midStart : Bool := s.cnt.toNat == i.clksPerBit.toNat / 2

def lastBit : Bool := s.bidx.toNat + 1 == i.dataBits.toNat

/-- `sh[bidx] <= rxs`, which does nothing past the byte. -/
def shiftIn : BitVec 8 :=
  BitVec.ofBoolListLE ((List.range 8).map fun k =>
    if k = s.bidx.toNat then s.rxs else s.sh.getLsbD k)

def tick : State := { s with cnt := s.cnt + 1 }

def frame : State :=
  match s.phase with
  | .idle => if !s.rxs then { s with cnt := 0, phase := .start } else s
  | .start =>
    if midStart s i then
      if !s.rxs then
        { s with cnt := 0, bidx := 0, sh := 0, par := false, frameErr := false,
                 parityErr := false, phase := .data }
      else { s with phase := .idle }
    else tick s
  | .data =>
    if bitEnd s i then
      if lastBit s i then
        { s with cnt := 0, sh := shiftIn s, par := xor s.par s.rxs,
                 phase := if i.parityMode ≠ 0 then .par else .stop }
      else
        { s with cnt := 0, sh := shiftIn s, par := xor s.par s.rxs, bidx := s.bidx + 1 }
    else tick s
  | .par =>
    if bitEnd s i then
      { s with cnt := 0, stopcnt := false,
               parityErr := if i.parityMode = 2 then s.rxs != s.par else s.rxs != !s.par,
               phase := .stop }
    else tick s
  | .stop =>
    if bitEnd s i then
      if i.stop2 && !s.stopcnt then
        { s with cnt := 0, frameErr := s.frameErr || !s.rxs, stopcnt := true }
      else
        { s with cnt := 0, frameErr := s.frameErr || !s.rxs, data := s.sh, valid := true,
                 rxActive := true, phase := .idle }
    else tick s

def idleBitEnd : Bool := s.idleClk.toNat + 1 == i.clksPerBit.toNat

/-- `(idle_bits != 0) && (idle_bit >= idle_bits-1)` -/
def idleLong : Bool := i.idleBits != 0 && decide (i.idleBits.toNat - 1 ≤ s.idleBit.toNat)

/-- The idle-line detector, which writes after the framer; `s` is the state before the edge. -/
def detectIdle (s' : State) : State :=
  if s.phase = .idle then
    if !s.rxs then { s' with idleClk := 0, idleBit := 0 }
    else if idleBitEnd s i then
      if idleLong s i then
        if s.rxActive then { s' with idleClk := 0, idle := true, rxActive := false }
        else { s' with idleClk := 0 }
      else { s' with idleClk := 0, idleBit := s.idleBit + 1 }
    else { s' with idleClk := s.idleClk + 1 }
  else { s' with idleClk := 0, idleBit := 0 }

def step : State :=
  { detectIdle s i (frame { s with valid := false, idle := false } i) with
    rxq0 := i.rx, rxs := s.rxq0 }

end RiscvScratch.UartRx
