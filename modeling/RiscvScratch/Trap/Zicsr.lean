import RiscvScratch.Core.Decode
import RiscvScratch.Unified.Csr

/-! The machine-mode control and status registers (`csr.v`) of the cores without S-mode. -/
namespace RiscvScratch.Zicsr
open Csr (setBit setPair nx mstatusA mieA mtvecA mscratchA mepcA mcauseA mipA satpA privM privU)

structure State where
  mstatus : Word
  mie : Word
  mtvec : Word
  mscratch : Word
  mepc : Word
  mcause : Word
  satp : Word
  priv : BitVec 2
  deriving DecidableEq

structure Lines where
  timer : Bool
  ext : Bool

variable (s : State)

def extFire (l : Lines) : Bool := s.mie.getLsbD 11 && l.ext
def timerFire (l : Lines) : Bool := s.mie.getLsbD 7 && l.timer
def irqPending (l : Lines) : Bool :=
  s.mstatus.getLsbD 3 && (extFire s l || timerFire s l)

def rdata (l : Lines) (addr : BitVec 12) : Word :=
  if addr = mstatusA then s.mstatus
  else if addr = mieA then s.mie
  else if addr = mtvecA then s.mtvec
  else if addr = mscratchA then s.mscratch
  else if addr = mepcA then s.mepc
  else if addr = mcauseA then s.mcause
  else if addr = satpA then s.satp
  else if addr = mipA then
    (if l.ext then 0x800#32 else 0#32) ||| (if l.timer then 0x80#32 else 0#32)
  else 0#32

/-- `mip` and the registers that do not exist ignore a write. -/
def write (addr : BitVec 12) (src : Word) (f3 : BitVec 3) : State :=
  if addr = mstatusA then { s with mstatus := nx s.mstatus src f3 }
  else if addr = mieA then { s with mie := nx s.mie src f3 }
  else if addr = mtvecA then { s with mtvec := nx s.mtvec src f3 }
  else if addr = mscratchA then { s with mscratch := nx s.mscratch src f3 }
  else if addr = mepcA then { s with mepc := nx s.mepc src f3 }
  else if addr = mcauseA then { s with mcause := nx s.mcause src f3 }
  else if addr = satpA then { s with satp := nx s.satp src f3 }
  else s

def trapEnter (pc cause : Word) : State :=
  { s with
    mepc := pc, mcause := cause, priv := privM
    mstatus := setPair (setBit (setBit s.mstatus 7 (s.mstatus.getLsbD 3)) 3 false) 11 s.priv }

/-- `MPP` is left at the least privilege. -/
def mret : State :=
  { s with
    priv := s.mstatus.extractLsb' 11 2
    mstatus := setPair (setBit (setBit s.mstatus 3 (s.mstatus.getLsbD 7)) 7 true) 11 privU }

structure Command where
  takeTrap : Bool
  pc : Word
  trapCause : Word
  isMret : Bool
  we : Bool
  addr : BitVec 12
  wsrc : Word
  funct3 : BitVec 3

def step (k : Command) : State :=
  if k.takeTrap then trapEnter s k.pc k.trapCause
  else if k.isMret then mret s
  else if k.we then write s k.addr k.wsrc k.funct3
  else s

def reset : State := ⟨0#32, 0#32, 0#32, 0#32, 0#32, 0#32, 0#32, privM⟩

theorem step_idle {k : Command} (ht : k.takeTrap = false) (hm : k.isMret = false)
    (hw : k.we = false) : step s k = s := by
  simp [step, ht, hm, hw]

end RiscvScratch.Zicsr

namespace RiscvScratch.Sys
variable (w : Word)

def isSystem : Bool := opcodeOf w == 0b1110011#7
def csrAddr : BitVec 12 := w.extractLsb' 20 12
def isCsr : Bool := isSystem w && funct3Of w != 0b000#3
def isMret : Bool := isSystem w && funct3Of w == 0b000#3 && csrAddr w == 0x302#12
def isEcall : Bool := isSystem w && funct3Of w == 0b000#3 && csrAddr w == 0x000#12
def isEbreak : Bool := isSystem w && funct3Of w == 0b000#3 && csrAddr w == 0x001#12

def opKnown : Bool :=
  [0b0110011#7, 0b0010011#7, 0b0000011#7, 0b0100011#7, 0b1100011#7, 0b1101111#7, 0b1100111#7,
    0b0110111#7, 0b0010111#7, 0b1110011#7, 0b0001111#7].contains (opcodeOf w)

variable {w}

theorem ctrlOf_system (h : isSystem w = true) : ctrlOf w = Ctrl.default := by
  have ho : opcodeOf w = 0b1110011#7 := by simpa [isSystem] using h
  rw [ctrlOf, ho]
  rfl

end RiscvScratch.Sys
