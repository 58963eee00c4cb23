import RiscvScratch.Clocked.Machine

/-! The configurable UART transmitter (`uart_tx_cfg.v`). -/
namespace RiscvScratch.UartTxCfg

inductive Phase where
  | idle | start | data | par | stop
  deriving DecidableEq, Repr

/-- Framing and the byte to send; `uart_rx` has the same framing inputs. -/
structure Framing where
  clksPerBit : BitVec 16
  dataBits : BitVec 4
  parityMode : BitVec 2
  stop2 : Bool
  deriving DecidableEq, Repr

structure Input extends Framing where
  send : Bool
  data : BitVec 8

structure State where
  phase : Phase
  cnt : BitVec 16
  bidx : BitVec 4
  sh : BitVec 8
  par : Bool
  stopcnt : Bool
  tx : Bool
  busy : Bool
  deriving DecidableEq, Repr

def reset : State := ⟨.idle, 0, 0, 0, false, false, true, false⟩

variable (s : State) (i : Input)

/-- `cnt == clks_per_bit-1`, which is 32 bits wide: with no clocks per bit it never holds. -/
def bitEnd : Bool := s.cnt.toNat + 1 == i.clksPerBit.toNat

def lastBit : Bool := s.bidx.toNat + 1 == i.dataBits.toNat

/-- `sh[bidx+1]`; past the byte it is unknown in simulation, here 0. -/
def nextBit : Bool := s.sh.getLsbD (s.bidx.toNat + 1)

def tick : State := { s with cnt := s.cnt + 1 }

def step : State :=
  match s.phase with
  | .idle =>
    if i.send then
      { s with sh := i.data, par := false, cnt := 0, bidx := 0, busy := true, tx := false,
               phase := .start }
    else { s with tx := true, busy := false }
  | .start =>
    if bitEnd s i then
      { s with cnt := 0, tx := s.sh.getLsbD 0, par := s.sh.getLsbD 0, bidx := 0, phase := .data }
    else tick s
  | .data =>
    if bitEnd s i then
      if lastBit s i then
        if i.parityMode ≠ 0 then
          { s with cnt := 0, tx := if i.parityMode = 2 then s.par else !s.par, phase := .par }
        else { s with cnt := 0, tx := true, stopcnt := false, phase := .stop }
      else
        { s with cnt := 0, bidx := s.bidx + 1, tx := nextBit s, par := xor s.par (nextBit s) }
    else tick s
  | .par =>
    if bitEnd s i then { s with cnt := 0, tx := true, stopcnt := false, phase := .stop }
    else tick s
  | .stop =>
    if bitEnd s i then
      if i.stop2 && !s.stopcnt then { s with cnt := 0, stopcnt := true }
      else { s with cnt := 0, busy := false, phase := .idle }
    else tick s

def starts : Option (BitVec 8) := if s.phase = .idle ∧ i.send then some i.data else none

variable {s i}

/-- `busy` is low exactly between frames. -/
def Tracks (s : State) : Prop := s.busy = decide (s.phase ≠ .idle)

theorem step_tracks (h : Tracks s) : Tracks (step s i) := by
  unfold Tracks at h ⊢
  unfold step
  cases hp : s.phase <;> simp only [hp] at h ⊢ <;> split_ifs <;> simp_all [tick]

end RiscvScratch.UartTxCfg
