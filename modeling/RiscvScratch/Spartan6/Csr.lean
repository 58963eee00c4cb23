import RiscvScratch.Core.Decode

/-! The machine-mode CSR file, trap unit and counters of the Spartan-6 core (`s6_csr.v`). -/
namespace RiscvScratch.S6Csr

def privM : BitVec 2 := 0b11#2
def privU : BitVec 2 := 0b00#2

/-- `HART_ID`, `MISA_VAL`, `ENABLE_U`, `ENABLE_C`. -/
structure Params where
  hartId : Word
  misaVal : Word
  enableU : Bool
  enableC : Bool

structure State where
  stMie : Bool
  stMpie : Bool
  stMpp : BitVec 2
  priv : BitVec 2
  ieMsie : Bool
  ieMtie : Bool
  ieMeie : Bool
  tvecBase : BitVec 30
  tvecVec : Bool
  mscratch : Word
  mepc : Word
  mcause : Word
  mtval : Word
  mcounteren : BitVec 3
  mcountinhibit : BitVec 3
  mcycle : BitVec 64
  minstret : BitVec 64
  deriving DecidableEq

def reset : State where
  stMie := false
  stMpie := false
  stMpp := privM
  priv := privM
  ieMsie := false
  ieMtie := false
  ieMeie := false
  tvecBase := 0#30
  tvecVec := false
  mscratch := 0#32
  mepc := 0#32
  mcause := 0#32
  mtval := 0#32
  mcounteren := 0#3
  mcountinhibit := 0#3
  mcycle := 0#64
  minstret := 0#64

structure Lines where
  timerIrq : Bool
  softIrq : Bool
  extIrq : Bool
  mtime : BitVec 64
  deriving DecidableEq

section irq
variable (s : State) (l : Lines)

def irqWord (ext timer soft : Bool) : Word :=
  0#20 ++ BitVec.ofBool ext ++ 0#3 ++ BitVec.ofBool timer ++ 0#3 ++ BitVec.ofBool soft ++ 0#3

def mipVal : Word := irqWord l.extIrq l.timerIrq l.softIrq
def mieVal : Word := irqWord s.ieMeie s.ieMtie s.ieMsie
def pend : Word := mipVal l &&& mieVal s

def irqAny : Bool := pend s l != 0#32

def irqPending : Bool := irqAny s l && (s.priv != privM || s.stMie)

def irqCause : Word :=
  if (pend s l).getLsbD 11 then 0x8000000B#32
  else if (pend s l).getLsbD 3 then 0x80000003#32
  else if (pend s l).getLsbD 7 then 0x80000007#32
  else 0#32

end irq

def tvecBse (s : State) : Word := s.tvecBase ++ 0b00#2

def trapTarget (s : State) (cause : Word) : Word :=
  if s.tvecVec && cause.msb then tvecBse s + (0#24 ++ cause.extractLsb' 0 6 ++ 0b00#2)
  else tvecBse s

def mstatusVal (s : State) : Word :=
  0#19 ++ s.stMpp ++ 0#3 ++ BitVec.ofBool s.stMpie ++ 0#3 ++ BitVec.ofBool s.stMie ++ 0#3

section access
variable (p : Params) (s : State) (l : Lines) (addr : BitVec 12)

def known : Bool :=
  [0x300#12, 0x301#12, 0x304#12, 0x305#12, 0x306#12, 0x310#12, 0x320#12, 0x340#12, 0x341#12,
    0x342#12, 0x343#12, 0x344#12, 0xB00#12, 0xB02#12, 0xB80#12, 0xB82#12, 0xF11#12, 0xF12#12,
    0xF13#12, 0xF14#12, 0xC00#12, 0xC80#12, 0xC01#12, 0xC81#12, 0xC02#12, 0xC82#12].contains addr

def isCounterU : Bool :=
  [0xC00#12, 0xC80#12, 0xC01#12, 0xC81#12, 0xC02#12, 0xC82#12].contains addr

def counterOk : Bool :=
  if addr = 0xC00#12 ∨ addr = 0xC80#12 then s.mcounteren.getLsbD 0
  else if addr = 0xC01#12 ∨ addr = 0xC81#12 then s.mcounteren.getLsbD 1
  else if addr = 0xC02#12 ∨ addr = 0xC82#12 then s.mcounteren.getLsbD 2
  else true

def readOnly : Bool := addr.extractLsb' 10 2 == 0b11#2
def privShort : Bool := s.priv.ult (addr.extractLsb' 8 2)
def cntBlock : Bool := isCounterU addr && s.priv != privM && !counterOk s addr

def illegal (access willWrite : Bool) : Bool :=
  access && (!known addr || (willWrite && readOnly addr) || privShort s addr || cntBlock s addr)

def rdata : Word :=
  if addr = 0x300#12 then mstatusVal s
  else if addr = 0x301#12 then p.misaVal
  else if addr = 0x304#12 then mieVal s
  else if addr = 0x305#12 then s.tvecBase ++ 0#1 ++ BitVec.ofBool s.tvecVec
  else if addr = 0x306#12 then 0#29 ++ s.mcounteren
  else if addr = 0x310#12 then 0#32
  else if addr = 0x320#12 then 0#29 ++ s.mcountinhibit
  else if addr = 0x340#12 then s.mscratch
  else if addr = 0x341#12 then s.mepc
  else if addr = 0x342#12 then s.mcause
  else if addr = 0x343#12 then s.mtval
  else if addr = 0x344#12 then mipVal l
  else if addr = 0xB00#12 ∨ addr = 0xC00#12 then s.mcycle.extractLsb' 0 32
  else if addr = 0xB80#12 ∨ addr = 0xC80#12 then s.mcycle.extractLsb' 32 32
  else if addr = 0xB02#12 ∨ addr = 0xC02#12 then s.minstret.extractLsb' 0 32
  else if addr = 0xB82#12 ∨ addr = 0xC82#12 then s.minstret.extractLsb' 32 32
  else if addr = 0xC01#12 then l.mtime.extractLsb' 0 32
  else if addr = 0xC81#12 then l.mtime.extractLsb' 32 32
  else if addr = 0xF14#12 then p.hartId
  else 0#32

def wdata (f3 : BitVec 3) (wsrc : Word) : Word :=
  if f3.extractLsb' 0 2 = 0b01#2 then wsrc
  else if f3.extractLsb' 0 2 = 0b10#2 then rdata p s l addr ||| wsrc
  else rdata p s l addr &&& ~~~wsrc

end access

def write (p : Params) (s : State) (addr : BitVec 12) (w : Word) : State :=
  if addr = 0x300#12 then
    { s with
      stMie := w.getLsbD 3, stMpie := w.getLsbD 7
      stMpp := if p.enableU && w.extractLsb' 11 2 == privU then privU else privM }
  else if addr = 0x304#12 then
    { s with ieMsie := w.getLsbD 3, ieMtie := w.getLsbD 7, ieMeie := w.getLsbD 11 }
  else if addr = 0x305#12 then { s with tvecBase := w.extractLsb' 2 30, tvecVec := w.getLsbD 0 }
  else if addr = 0x306#12 then { s with mcounteren := w.extractLsb' 0 3 }
  else if addr = 0x320#12 then { s with mcountinhibit := w.extractLsb' 0 3 }
  else if addr = 0x340#12 then { s with mscratch := w }
  else if addr = 0x341#12 then
    { s with mepc := w.extractLsb' 2 30 ++ BitVec.ofBool (w.getLsbD 1 && p.enableC) ++ 0#1 }
  else if addr = 0x342#12 then { s with mcause := w }
  else if addr = 0x343#12 then { s with mtval := w }
  else if addr = 0xB00#12 then { s with mcycle := s.mcycle.extractLsb' 32 32 ++ w }
  else if addr = 0xB80#12 then { s with mcycle := w ++ s.mcycle.extractLsb' 0 32 }
  else if addr = 0xB02#12 then { s with minstret := s.minstret.extractLsb' 32 32 ++ w }
  else if addr = 0xB82#12 then { s with minstret := w ++ s.minstret.extractLsb' 0 32 }
  else s

def tick (s : State) (retire : Bool) : State :=
  { s with
    mcycle := if !s.mcountinhibit.getLsbD 0 then s.mcycle + 1#64 else s.mcycle
    minstret := if !s.mcountinhibit.getLsbD 2 && retire then s.minstret + 1#64 else s.minstret }

structure Command where
  addr : BitVec 12
  f3 : BitVec 3
  wsrc : Word
  access : Bool
  willWrite : Bool
  we : Bool
  trapTake : Bool
  trapPc : Word
  trapCause : Word
  trapTval : Word
  mret : Bool
  retire : Bool

/-- The trap fields of `next`, from the registers `s` before the edge. -/
def trapEnter (s next : State) (pc cause tval : Word) : State :=
  { next with
    mepc := pc, mcause := cause, mtval := tval
    stMpie := s.stMie, stMie := false, stMpp := s.priv, priv := privM }

def doMret (p : Params) (s next : State) : State :=
  { next with
    stMie := s.stMpie, stMpie := true, priv := s.stMpp
    stMpp := if p.enableU then privU else privM }

/-- The counters tick first, so a write to one half of a counter replaces that half of the
incremented value. -/
def written (p : Params) (s : State) (l : Lines) (k : Command) : State :=
  if k.we && !illegal s k.addr k.access k.willWrite then
    write p (tick s k.retire) k.addr (wdata p s l k.addr k.f3 k.wsrc)
  else tick s k.retire

def step (p : Params) (s : State) (l : Lines) (k : Command) : State :=
  if k.trapTake then trapEnter s (written p s l k) k.trapPc k.trapCause k.trapTval
  else if k.mret then doMret p s (written p s l k)
  else written p s l k

end RiscvScratch.S6Csr
