import RiscvScratch.Boot.FenceI
import RiscvScratch.Compressed.Agreement
import RiscvScratch.Debug.Packets
import RiscvScratch.Fpu.Compare
import RiscvScratch.Fpu.ToInteger
import RiscvScratch.Image.BlockMove
import RiscvScratch.Image.CrcAgreement
import RiscvScratch.Image.RoundTrip
import RiscvScratch.Mmu.Agreement
import RiscvScratch.Oz.ConsoleReset
import RiscvScratch.Pipe.RefinementBp
import RiscvScratch.Plic.Gateway
import RiscvScratch.Ps.FlashDamage
import RiscvScratch.Sbi.CallFrame
import RiscvScratch.SocPlic.Receive
import RiscvScratch.Spartan6.BootResync
import RiscvScratch.Spartan6.BusHold
import RiscvScratch.Spartan6.Counters
import RiscvScratch.Spartan6.Rv32m
import RiscvScratch.Spartan6.SramPins
import RiscvScratch.Spartan6.UartTransmit
import RiscvScratch.Trap.Plain
import RiscvScratch.Uart.ThrEmpty
import RiscvScratch.Unified.Atomics
import RiscvScratch.Unified.CounterReads
import RiscvScratch.Unified.FenceBarrier
import RiscvScratch.Unified.Interrupts
import RiscvScratch.Unified.Isolation
import RiscvScratch.Unified.Latency
import RiscvScratch.Unified.TlbTransparent
import RiscvScratch.Unified.VectorLength
import RiscvScratch.Unified.ZbResults
