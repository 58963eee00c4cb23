import RiscvScratch.Spartan6.Cycle

/-! The Spartan-6 core one instruction at a time, without interrupts, with the decoder and the
datapath of the core. -/
namespace RiscvScratch.S6Core

/-- A slave of the data bus, addressed by word with byte lanes; a read may have an effect. -/
structure WordBus (μ : Type*) where
  read : μ → Word → Word × μ
  write : μ → Word → BitVec 4 → Word → μ

inductive Event where
  | retire (pc : Word)
  | reg (rd : BitVec 5) (value : Word)
  | trap (mepc mcause mtval : Word)
  | read (addr : Word)
  | write (addr : Word) (mask : BitVec 4) (data : Word)
  deriving DecidableEq, Repr

def regEvent (we : Bool) (rd : BitVec 5) (v : Word) : List Event :=
  if we && rd != 0#5 then [.reg rd v] else []

section fetch
variable (p : Isa) (image : Word → Word) (pc : Word)

def wordAddr : Word := pc.extractLsb' 2 30 ++ 0b00#2

def halfAt : BitVec 16 :=
  if pc.getLsbD 1 then (image (wordAddr pc)).extractLsb' 16 16
  else (image (wordAddr pc)).extractLsb' 0 16

def straddles : Bool :=
  p.enableC && pc.getLsbD 1 && (halfAt image pc).extractLsb' 0 2 == 0b11#2

def compressed : Bool := p.enableC && (halfAt image pc).extractLsb' 0 2 != 0b11#2

def fetched : Word :=
  if straddles p image pc then
    (image (wordAddr pc + 4#32)).extractLsb' 0 16 ++ (image (wordAddr pc)).extractLsb' 16 16
  else if compressed p image pc then (Rvc.expand (halfAt image pc)).1
  else image (wordAddr pc)

end fetch

def settled (s : S6Csr.State) : S6Csr.State := { s with mcycle := 0#64, minstret := 0#64 }

structure Arch (μ : Type*) where
  pc : Word
  regs : Regs
  csr : S6Csr.State
  resValid : Bool
  resAddr : Word
  mem : μ

def quiet : S6Csr.Lines := ⟨false, false, false, 0#64⟩

section step
variable {μ : Type*} (p : Isa) (image : Word → Word) (bus : WordBus μ) (a : Arch μ)

def view : Datapath where
  pc := a.pc
  instr := fetched p image a.pc
  isC := compressed p image a.pc
  raw16 := if compressed p image a.pc then halfAt image a.pc else 0#16
  rs1Data := a.regs.read (rs1Of (fetched p image a.pc))
  rs2Data := a.regs.read (rs2Of (fetched p image a.pc))
  amoExec := false
  amoVal := 0#32
  resValid := a.resValid
  resAddr := a.resAddr
  csr := a.csr
  lines := quiet

variable (d : Datapath)

def command (trap retire : Bool) : S6Csr.Command where
  addr := f12 d.instr
  f3 := funct3Of d.instr
  wsrc := csrWsrc d
  access := isCsr d.instr
  willWrite := csrWrite d.instr
  we := isCsr d.instr && !trap
  trapTake := trap
  trapPc := d.pc
  trapCause := trapCause p d
  trapTval := trapTval p d
  mret := isMret d.instr && !trap
  retire := retire

def csrAfter (trap retire : Bool) : S6Csr.State :=
  settled (S6Csr.step p.csr d.csr d.lines (command p d trap retire))

def reservation : Word := (memAddr p d).extractLsb' 2 30 ++ 0b00#2

/-- The datapath in the writing cycle of an AMO that has read `v`. -/
def rmw (v : Word) : Datapath := { d with amoExec := true, amoVal := v }

def trapStep : Arch μ × List Event :=
  ({ a with pc := nextPc p d true, csr := csrAfter p d true false, resValid := false },
    [.trap d.pc (trapCause p d) (trapTval p d)])

def mdStep : Arch μ × List Event :=
  let v := aluMulDiv d.rs1Data d.rs1Data d.rs2Data (aluMulDivOp (funct3Of d.instr))
  ({ a with pc := nextPc p d false, regs := a.regs.write true (rdOf d.instr) v },
    regEvent true (rdOf d.instr) v ++ [.retire d.pc])

def loadStep : Arch μ × List Event :=
  let x := bus.read a.mem (memAddr p d)
  let v := loadVal p d x.1
  ({ a with
      pc := nextPc p d false, regs := a.regs.write true (rdOf d.instr) v, mem := x.2
      resValid := if isLr p d.instr then true else a.resValid
      resAddr := if isLr p d.instr then reservation p d else a.resAddr },
    .read (memAddr p d) :: .read (memAddr p d) ::
      (regEvent true (rdOf d.instr) v ++ [.retire d.pc]))

def amoStep : Arch μ × List Event :=
  let x := bus.read a.mem (memAddr p d)
  let v := aluResult p (rmw d x.1)
  ({ a with
      pc := nextPc p d false, regs := a.regs.write true (rdOf d.instr) x.1
      mem := bus.write x.2 (memAddr p d) (wmask p d) v
      resValid := a.resValid && reservation p d != a.resAddr },
    .read (memAddr p d) :: .read (memAddr p d) :: .write (memAddr p d) (wmask p d) v ::
      (regEvent true (rdOf d.instr) x.1 ++ [.retire d.pc]))

def storeStep : Arch μ × List Event :=
  ({ a with
      pc := nextPc p d false
      regs := a.regs.write (execRfWe p d.instr) (rdOf d.instr) (execWb p d)
      mem := bus.write a.mem (memAddr p d) (wmask p d) (dbusWdata p d)
      resValid := !isSc p d.instr && (a.resValid && reservation p d != a.resAddr) },
    .write (memAddr p d) (wmask p d) (dbusWdata p d) ::
      (regEvent (execRfWe p d.instr) (rdOf d.instr) (execWb p d) ++ [.retire d.pc]))

def plainStep : Arch μ × List Event :=
  ({ a with
      pc := nextPc p d false
      regs := a.regs.write (execRfWe p d.instr) (rdOf d.instr) (execWb p d)
      csr := csrAfter p d false true
      resValid := !isSc p d.instr && a.resValid },
    regEvent (execRfWe p d.instr) (rdOf d.instr) (execWb p d) ++ [.retire d.pc])

/-- The effect and the events of one instruction. `wfi` sleeps for good: no interrupt comes. -/
def execute : Arch μ × List Event :=
  let d := view p image a
  if excAny p d then trapStep p a d
  else match course p d.instr d with
    | .wfi => (a, [])
    | .md => mdStep p a d
    | .load => loadStep p bus a d
    | .amo => amoStep p bus a d
    | .store => storeStep p bus a d
    | .finish => plainStep p a d

def archStep : Arch μ := (execute p image bus a).1
def archOut : List Event := (execute p image bus a).2

end step

def out (p : Params) (s : State) (i : Input) : List Event :=
  (if trapNow p s i then
      [.trap s.pc (trapCause p (datapath p s i)) (trapTval p (datapath p s i))] else []) ++
    (if dbusRe p s i then [.read (dbusAddr p s i)] else []) ++
    (if dbusWe p s i != 0#4 then [.write (dbusAddr p s i) (dbusWe p s i) (wdata p s i)] else []) ++
    regEvent (rfWe p s i) (rdOf (instr p s i)) (wbData p s i) ++
    if retireOut p s i then [.retire s.pc] else []

end RiscvScratch.S6Core
