import RiscvScratch.SocPlic.CpuMc
import RiscvScratch.SocPlic.Plic
import RiscvScratch.Uart.UartFull

/-! The system on chip with the interrupt controller (`soc_plic.v`): `cpu_mc`, a ROM and a RAM with
registered reads (`bram_rom.v`, `bram_ram.v`), the UART and the PLIC. -/
namespace RiscvScratch.SocPlic

/-- The address widths are `$clog2` of the memories' words. -/
structure Config where
  romBits : ℕ
  ramBits : ℕ
  rom : BitVec romBits → Word
  ram : BitVec ramBits → Word
  uart : UartFull.Params

structure Input where
  uartRxPin : Bool
  /-- `irq_ext[3:1]` -/
  irqExt : ℕ → Bool

structure State (c : Config) where
  core : CpuMc.State
  irdata : Word
  ram : BitVec c.ramBits → Word
  ramRdata : Word
  uart : UartFull.State
  plic : SimplePlic.State
  haltR : Bool

variable {c : Config}

def plicParams : SimplePlic.Params := ⟨4, 3, by decide⟩

section wires
variable (s : State c) (i : Input)

/-- What the core sees but for the data it reads, on which its outputs do not depend. -/
def coreInput (drdata : Word) : CpuMcC.Input where
  imemRdata := s.irdata
  dmemRdata := drdata
  lines := ⟨false, SimplePlic.meip plicParams s.plic⟩
  halt := s.haltR

def daddr : Word := CpuMc.dmemAddr s.core (coreInput s 0#32)
def dwe : BitVec 4 := CpuMc.dmemWe s.core (coreInput s 0#32)
def dre : Bool := CpuMc.dmemRe s.core (coreInput s 0#32)
def dwdata : Word := CpuMc.wdata s.core (coreInput s 0#32)

def wrAny : Bool := dwe s != 0#4
def dvalid : Bool := dre s || wrAny s
def region : BitVec 4 := (daddr s).extractLsb' 28 4
def selRam : Bool := region s == 0
def selIo : Bool := dvalid s && region s == 1
def selUart : Bool := selIo s && (daddr s).extractLsb' 16 2 == 0b00
def selPlic : Bool := selIo s && (daddr s).extractLsb' 16 2 == 0b10
def selSys : Bool := dvalid s && region s == 2

def uartInput : UartFull.Input where
  sel := selUart s
  we := selUart s && wrAny s
  addr := (daddr s).setWidth 8
  wdata := dwdata s
  rx := i.uartRxPin

/-- Sources 2..4 are the external lines, source 1 is the UART. -/
def plicInput : SimplePlic.Input where
  sel := selPlic s
  we := selPlic s && wrAny s
  addr := (daddr s).setWidth 16
  wdata := dwdata s
  src k := if k = 1 then UartFull.irq s.uart else i.irqExt (k - 1)

def drdata : Word :=
  if selUart s then UartFull.rdata s.uart (uartInput s i)
  else if selPlic s then SimplePlic.rdata plicParams s.plic (plicInput s i)
  else s.ramRdata

/-- Byte `k` of `new` where the mask enables it. -/
def merge (we : BitVec 4) (old new : Word) : Word :=
  let byte (k : ℕ) : BitVec 8 := if we.getLsbD k then new.extractLsb' (8 * k) 8
    else old.extractLsb' (8 * k) 8
  byte 3 ++ byte 2 ++ byte 1 ++ byte 0

def ramAddr : BitVec c.ramBits := (daddr s).extractLsb' 2 c.ramBits

def step : State c where
  core := CpuMc.step s.core (coreInput s (drdata s i))
  irdata := c.rom ((CpuMc.imemAddr s.core).extractLsb' 2 c.romBits)
  ram :=
    if selRam s then
      Function.update s.ram (ramAddr s) (merge (dwe s) (s.ram (ramAddr s)) (dwdata s))
    else s.ram
  ramRdata := s.ram (ramAddr s)
  uart := UartFull.step s.uart (uartInput s i)
  plic := SimplePlic.step plicParams s.plic (plicInput s i)
  haltR := if selSys s && wrAny s then true else s.haltR

end wires

def reset (c : Config) (regs : Regs) (irdata ramRdata : Word) : State c where
  core := CpuMc.reset 0 regs
  irdata := irdata
  ram := c.ram
  ramRdata := ramRdata
  uart := UartFull.reset c.uart
  plic := SimplePlic.reset
  haltR := false

def machine (c : Config) : Clocked.Machine (State c) Input where
  init s := ∃ regs irdata ramRdata, s = reset c regs irdata ramRdata
  step := step

abbrev Run (c : Config) := (machine c).Run

end RiscvScratch.SocPlic
