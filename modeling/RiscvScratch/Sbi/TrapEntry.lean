import RiscvScratch.Memory.Bytes
import RiscvScratch.Sbi.Timer

/-! The trap handler of the resident SBI on the hart: the assembly of `sbi_trap_entry`
(`rom_start.S`) around `sbi_trap` and `ecall` (`rom_sbi.c`) with the polled UART (`ns16550.c`). A C
call may leave anything in the registers it need not preserve and in the firmware's RAM below the
frame. -/
namespace RiscvScratch.Sbi
open Platform
open Csr (privM)
open ByteMem (Mem load32 store32)

/-- The three registers the driver uses; reading one may change the device. -/
structure UartDev (υ : Type*) where
  lsr : υ → BitVec 8 × υ
  rbr : υ → BitVec 8 × υ
  thr : υ → BitVec 8 → υ

section uart
variable {υ : Type*} (dev : UartDev υ)

/-- `ns16550_putc`: polls until the holding register is empty. -/
def putc : ℕ → υ → BitVec 8 → Option υ
  | 0, _, _ => none
  | fuel + 1, u, c =>
    let x := dev.lsr u
    if x.1.getLsbD 5 then some (dev.thr x.2 c) else putc fuel x.2 c

/-- `ns16550_getc`; `none` is the `-1` of nothing waiting. -/
def getc (u : υ) : Option (BitVec 8) × υ :=
  let x := dev.lsr u
  if x.1.getLsbD 0 then
    let y := dev.rbr x.2
    (some y.1, y.2)
  else (none, x.2)

end uart

structure Machine (υ : Type*) where
  pc : Word
  regs : Regs
  mem : Mem
  csr : Csr.State
  clint : Clint.State
  uart : υ
  /-- The bytes of memory the handler has read and written so far. -/
  loads : List Word
  stores : List Word

inductive Stop where
  /-- The run ends: power-off, reset, or a trap the payload cannot handle. -/
  | ended
  | fuel
  deriving DecidableEq

def wordBytes (a : Word) : List Word := [a, a + 1#32, a + 2#32, a + 3#32]

section machine
variable {υ : Type*} (m : Machine υ)

def Machine.setReg (rd : BitVec 5) (v : Word) : Machine υ :=
  { m with regs := m.regs.write true rd v }

def Machine.loadWord (a : Word) : Word × Machine υ :=
  (load32 m.mem a, { m with loads := wordBytes a ++ m.loads })

def Machine.storeWord (a v : Word) : Machine υ :=
  { m with mem := store32 m.mem a v, stores := wordBytes a ++ m.stores }

def Machine.storeByte (a : Word) (b : BitVec 8) : Machine υ :=
  { m with mem := Function.update m.mem a b, stores := a :: m.stores }

def Machine.applyOps (p : Csr.Params) (ops : List Op) : Machine υ :=
  ops.foldl (fun m op =>
    let x := op.apply p m.csr m.clint
    { m with csr := x.1, clint := x.2 }) m

end machine

/-- The instructions of `sbi_trap_entry`; loads and stores are relative to `sp`. -/
inductive Instr where
  /-- `csrrw rd, mscratch, rs`. -/
  | swapScratch (rd rs : BitVec 5)
  /-- `csrr rd, mscratch`. -/
  | readScratch (rd : BitVec 5)
  | addi (rd rs : BitVec 5) (imm : Word)
  | sw (rs : BitVec 5) (off : Word)
  | lw (rd : BitVec 5) (off : Word)
  | laGp

def sp : BitVec 5 := 2#5
def t0 : BitVec 5 := 5#5
def a0 : BitVec 5 := 10#5
def a1 : BitVec 5 := 11#5

def slot (i : BitVec 5) : Word := 4#32 * i.zeroExtend 32

/-- Every register but `x0` and `sp`, in the order of the listing. -/
def saved : List (BitVec 5) :=
  [1#5, 3#5, 4#5, 5#5, 6#5, 7#5, 8#5, 9#5, 10#5, 11#5, 12#5, 13#5, 14#5, 15#5, 16#5, 17#5, 18#5,
    19#5, 20#5, 21#5, 22#5, 23#5, 24#5, 25#5, 26#5, 27#5, 28#5, 29#5, 30#5, 31#5]

/-- Up to `call sbi_trap`. -/
def entryCode : List Instr :=
  [.swapScratch sp sp, .addi sp sp (-128#32)] ++ saved.map (fun i => .sw i (slot i)) ++
    [.readScratch t0, .sw t0 (slot sp), .laGp, .addi a0 sp 0#32]

/-- From the return of `sbi_trap` to `mret`. -/
def exitCode : List Instr :=
  saved.map (fun i => .lw i (slot i)) ++ [.addi sp sp 128#32, .swapScratch sp sp]

section code
variable {υ : Type*} (p : Csr.Params) (gp : Word)

def Machine.writeScratch (m : Machine υ) (v : Word) : Machine υ :=
  { m with csr := Csr.step p m.csr (csrCommand 0b001#3 Csr.mscratchA v) }

def Machine.exec (m : Machine υ) : Instr → Machine υ
  | .swapScratch rd rs => (m.writeScratch p (m.regs.read rs)).setReg rd m.csr.mscratch
  | .readScratch rd => m.setReg rd m.csr.mscratch
  | .addi rd rs imm => m.setReg rd (m.regs.read rs + imm)
  | .sw rs off => m.storeWord (m.regs.read sp + off) (m.regs.read rs)
  | .lw rd off =>
    let x := m.loadWord (m.regs.read sp + off)
    x.2.setReg rd x.1
  | .laGp => m.setReg 3#5 gp

end code

section c
variable {υ : Type*} (p : Csr.Params) (dev : UartDev υ) (ramSize : Word)
  (csrRead : BitVec 12 → Word) (fuel : ℕ)

def Machine.putc (m : Machine υ) (c : BitVec 8) : Except Stop (Machine υ) :=
  match Sbi.putc dev fuel m.uart c with
  | some u => .ok { m with uart := u }
  | none => .error .fuel

/-- `for (i = 0; i < n; i++) ns16550_putc(&rom_uart, buf[i])`, with `k` bytes to go. -/
def writeLoop (buf : Word) : ℕ → Word → Machine υ → Except Stop (Machine υ)
  | 0, _, m => .ok m
  | k + 1, i, m => do
    let m ← ({ m with loads := (buf + i) :: m.loads } : Machine υ).putc dev fuel (m.mem (buf + i))
    writeLoop buf k (i + 1#32) m

/-- `while (val < n && (c = ns16550_getc(&rom_uart)) >= 0) buf[val++] = c`, with room for `k`. -/
def readLoop (buf : Word) : ℕ → Word → Machine υ → Word × Machine υ
  | 0, val, m => (val, m)
  | k + 1, val, m =>
    let x := getc dev m.uart
    match x.1 with
    | none => (val, { m with uart := x.2 })
    | some c => readLoop buf k (val + 1#32) (({ m with uart := x.2 } : Machine υ).storeByte
        (buf + val) c)

/-- `r[A0] = err; r[A1] = val`. -/
def Machine.results (m : Machine υ) (r err val : Word) : Machine υ :=
  (m.storeWord (r + slot a0) err).storeWord (r + slot a1) val

def Machine.perform (m : Machine υ) (r : Word) : Call → Except Stop (Machine υ)
  | .setTimer true t => .ok ((m.applyOps p (Sbi.setTimer t)).storeWord (r + slot a0) 0#32)
  | .setTimer false t => .ok ((m.applyOps p (Sbi.setTimer t)).results r success 0#32)
  | .legacyPutchar c => do
    let m ← m.putc dev fuel (c.extractLsb' 0 8)
    return m.storeWord (r + slot a0) 0#32
  | .legacyGetchar =>
    let x := getc dev m.uart
    let c : Word := match x.1 with
      | some c => c.zeroExtend 32
      | none => BitVec.ofInt 32 (-1)
    .ok (({ m with uart := x.2 } : Machine υ).storeWord (r + slot a0) c)
  | .reset _ _ => .error .ended
  | .writeByte c => do
    let m ← m.putc dev fuel (c.extractLsb' 0 8)
    return m.results r success 0#32
  | .write buf n => do
    let m ← writeLoop dev fuel buf n.toNat 0#32 m
    return m.results r success n
  | .read buf n =>
    let x := readLoop dev buf n.toNat 0#32 m
    .ok (x.2.results r success x.1)
  | .answer err val => .ok (m.results r err val)

/-- The registers of the payload, as `ecall` finds them in the frame. -/
def Machine.frameRegs (m : Machine υ) (r : Word) (i : BitVec 5) : Word := load32 m.mem (r + slot i)

def argSlots : List (BitVec 5) := [17#5, 16#5, 10#5, 11#5, 12#5]

def Machine.ecall (m : Machine υ) (r : Word) : Except Stop (Machine υ) :=
  ({ m with loads := argSlots.flatMap (fun i => wordBytes (r + slot i)) ++ m.loads } : Machine υ)
    |>.perform p dev fuel r (decode ramSize csrRead (m.frameRegs r))

def Machine.sbiTrap (m : Machine υ) (r : Word) : Except Stop (Machine υ) :=
  if m.csr.mcause = mtiCause then .ok (m.applyOps p timerTrap)
  else if m.csr.mcause = ecallSCause then do
    let m ← m.ecall p dev ramSize csrRead fuel r
    return m.applyOps p [csrWrite Csr.mepcA (m.csr.mepc + 4#32)]
  else .error .ended

end c

structure Havoc where
  regs : Regs
  mem : Mem

/-- `sp`, `gp`, `tp` and the `s` registers. -/
def calleeSaved (i : BitVec 5) : Bool :=
  [2#5, 3#5, 4#5, 8#5, 9#5, 18#5, 19#5, 20#5, 21#5, 22#5, 23#5, 24#5, 25#5, 26#5, 27#5].contains i

section handler
variable {υ : Type*} (p : Csr.Params) (gp : Word) (dev : UartDev υ) (ramSize : Word)
  (csrRead : BitVec 12 → Word) (fuel : ℕ)

def Machine.havoc (m : Machine υ) (h : Havoc) : Machine υ :=
  { m with
    regs := fun i => if calleeSaved i then m.regs i else h.regs i
    mem := fun a => if ramBase.ule a && a.ult (m.regs.read sp) then h.mem a else m.mem a }

/-- The hart takes a trap; `sbi_trap_entry` is in `mtvec`. -/
def Machine.trap (m : Machine υ) (cause : Word) : Machine υ :=
  { m with
    csr := Csr.step p m.csr (trapCommand m.pc cause 0#32)
    pc := Csr.trapVector p m.csr cause, loads := [], stores := [] }

def Machine.mret (m : Machine υ) : Machine υ :=
  { m with csr := Csr.step p m.csr mretCommand, pc := m.csr.mepc }

/-- `sbi_trap_entry`. -/
def Machine.sbiTrapEntry (m : Machine υ) (h : Havoc) : Except Stop (Machine υ) := do
  let m := entryCode.foldl (Machine.exec p gp) m
  let m ← m.sbiTrap p dev ramSize csrRead fuel (m.regs.read a0)
  return (exitCode.foldl (Machine.exec p gp) (m.havoc h)).mret p

end handler

end RiscvScratch.Sbi
