import RiscvScratch.Core.Alu

/-! The M/S/U control and status registers with trap delegation (`csr_s.v`). -/
namespace RiscvScratch.Csr

def privM : BitVec 2 := 0b11#2
def privS : BitVec 2 := 0b01#2
def privU : BitVec 2 := 0b00#2

def mstatusA : BitVec 12 := 0x300#12
def medelegA : BitVec 12 := 0x302#12
def midelegA : BitVec 12 := 0x303#12
def mieA : BitVec 12 := 0x304#12
def mtvecA : BitVec 12 := 0x305#12
def mscratchA : BitVec 12 := 0x340#12
def mepcA : BitVec 12 := 0x341#12
def mcauseA : BitVec 12 := 0x342#12
def mtvalA : BitVec 12 := 0x343#12
def mipA : BitVec 12 := 0x344#12
def sstatusA : BitVec 12 := 0x100#12
def sieA : BitVec 12 := 0x104#12
def stvecA : BitVec 12 := 0x105#12
def sscratchA : BitVec 12 := 0x140#12
def sepcA : BitVec 12 := 0x141#12
def scauseA : BitVec 12 := 0x142#12
def stvalA : BitVec 12 := 0x143#12
def sipA : BitVec 12 := 0x144#12
def satpA : BitVec 12 := 0x180#12

def sstatusMask : Word := 0x000C0722#32

/-- SSI, STI, SEI. -/
def sIntMask : Word := 0x00000222#32

/-- `HAS_S`, `HAS_U`, `HAS_SATP`, `HAS_V`. -/
structure Params where
  hasS : Bool
  hasU : Bool
  hasSatp : Bool
  hasV : Bool

structure State where
  mstatus : Word
  medeleg : Word
  mideleg : Word
  mie : Word
  mtvec : Word
  mscratch : Word
  mepc : Word
  mcause : Word
  mtval : Word
  stvec : Word
  sscratch : Word
  sepc : Word
  scause : Word
  stval : Word
  satp : Word
  mipSw : Word
  priv : BitVec 2

structure Lines where
  timer : Bool
  ext : Bool
  sExt : Bool

def setBit (w : Word) (k : ℕ) (b : Bool) : Word :=
  if b then w ||| (1#32 <<< k) else w &&& ~~~(1#32 <<< k)

def setPair (w : Word) (k : ℕ) (v : BitVec 2) : Word :=
  (w &&& ~~~(3#32 <<< k)) ||| (v.zeroExtend 32 <<< k)

variable (p : Params)

variable (s : State)

def vs : BitVec 2 := s.mstatus.extractLsb' 9 2
def sum : Bool := s.mstatus.getLsbD 18
def mxr : Bool := s.mstatus.getLsbD 19
def satpOut : Word := if p.hasSatp then s.satp else 0#32

def mip (l : Lines) : Word :=
  (s.mipSw &&& sIntMask) ||| (if l.sExt then 0x200#32 else 0#32) |||
    (if l.timer then 0x80#32 else 0#32) ||| (if l.ext then 0x800#32 else 0#32)

def globM : Bool := s.priv.ult privM || (s.priv == privM && s.mstatus.getLsbD 3)
def globS : Bool := s.priv.ult privS || (s.priv == privS && s.mstatus.getLsbD 1)

def raised (l : Lines) (k : ℕ) : Bool := s.mie.getLsbD k && (mip s l).getLsbD k

/-- The source `k` fires for the privilege it is delegated to. -/
def firesS (l : Lines) (k : ℕ) : Bool :=
  raised s l k && (if s.mideleg.getLsbD k then globS s else globM s)

def firesM (l : Lines) (k : ℕ) : Bool := raised s l k && globM s

def irqPending (l : Lines) : Bool :=
  firesM s l 11 || firesM s l 3 || firesM s l 7 || firesS s l 9 || firesS s l 1 || firesS s l 5

/-- Priority MEI, MSI, MTI, SEI, SSI, STI. -/
def irqCause (l : Lines) : Word :=
  if firesM s l 11 then 0x8000000B#32
  else if firesM s l 3 then 0x80000003#32
  else if firesM s l 7 then 0x80000007#32
  else if firesS s l 9 then 0x80000009#32
  else if firesS s l 1 then 0x80000001#32
  else 0x80000005#32

def deleg (cause : Word) : Bool :=
  let cidx := (cause.extractLsb' 0 5).toNat
  p.hasS && s.priv != privM &&
    (if cause.getLsbD 31 then s.mideleg.getLsbD cidx else s.medeleg.getLsbD cidx)

def trapVector (cause : Word) : Word := if deleg p s cause then s.stvec else s.mtvec

def withSd (w : Word) : Word := setBit w 31 (vs s == 0b11#2)

def rdata (l : Lines) (addr : BitVec 12) : Word :=
  if addr = mstatusA then withSd s s.mstatus
  else if addr = medelegA then s.medeleg
  else if addr = midelegA then s.mideleg
  else if addr = mieA then s.mie
  else if addr = mtvecA then s.mtvec
  else if addr = mscratchA then s.mscratch
  else if addr = mepcA then s.mepc
  else if addr = mcauseA then s.mcause
  else if addr = mtvalA then s.mtval
  else if addr = mipA then mip s l
  else if addr = sstatusA then withSd s (s.mstatus &&& sstatusMask)
  else if addr = sieA then s.mie &&& sIntMask
  else if addr = stvecA then s.stvec
  else if addr = sscratchA then s.sscratch
  else if addr = sepcA then s.sepc
  else if addr = scauseA then s.scause
  else if addr = stvalA then s.stval
  else if addr = sipA then mip s l &&& sIntMask
  else if addr = satpA then satpOut p s
  else 0#32

/-- `MPP` only ever holds a privilege level the hart has. -/
def legalMpp (m : BitVec 2) : BitVec 2 :=
  if m = privM then privM
  else if m = privS ∧ p.hasS then privS
  else if m = privU ∧ p.hasU then privU
  else if p.hasU then privU else privM

def least : BitVec 2 := if p.hasU then privU else privM

/-- `nx` (and `csrnx` of the core): csrrw, csrrs, csrrc. -/
def nx (old src : Word) (f3 : BitVec 3) : Word :=
  if f3.extractLsb' 0 2 = 0b01#2 then src
  else if f3.extractLsb' 0 2 = 0b10#2 then old ||| src
  else if f3.extractLsb' 0 2 = 0b11#2 then old &&& ~~~src
  else old

def nxMasked (mask old src : Word) (f3 : BitVec 3) : Word :=
  (old &&& ~~~mask) ||| (nx (old &&& mask) src f3 &&& mask)

def write (addr : BitVec 12) (src : Word) (f3 : BitVec 3) : State :=
  if addr = mstatusA then
    let n := nx s.mstatus src f3
    { s with mstatus := setPair n 11 (legalMpp p (n.extractLsb' 11 2)) }
  else if addr = medelegA then
    { s with medeleg := if p.hasS then nx s.medeleg src f3 else s.medeleg }
  else if addr = midelegA then
    { s with mideleg := if p.hasS then nx s.mideleg src f3 else s.mideleg }
  else if addr = mieA then { s with mie := nx s.mie src f3 }
  else if addr = mtvecA then { s with mtvec := nx s.mtvec src f3 }
  else if addr = mscratchA then { s with mscratch := nx s.mscratch src f3 }
  else if addr = mepcA then { s with mepc := nx s.mepc src f3 }
  else if addr = mcauseA then { s with mcause := nx s.mcause src f3 }
  else if addr = mtvalA then { s with mtval := nx s.mtval src f3 }
  else if addr = mipA then { s with mipSw := nx s.mipSw src f3 }
  else if addr = stvecA then { s with stvec := nx s.stvec src f3 }
  else if addr = sscratchA then { s with sscratch := nx s.sscratch src f3 }
  else if addr = sepcA then { s with sepc := nx s.sepc src f3 }
  else if addr = scauseA then { s with scause := nx s.scause src f3 }
  else if addr = stvalA then { s with stval := nx s.stval src f3 }
  else if addr = satpA then { s with satp := if p.hasSatp then nx s.satp src f3 else s.satp }
  else if addr = sstatusA then { s with mstatus := nxMasked sstatusMask s.mstatus src f3 }
  else if addr = sieA then { s with mie := nxMasked sIntMask s.mie src f3 }
  else if addr = sipA then { s with mipSw := nxMasked 0x2#32 s.mipSw src f3 }
  else s

def trapEnter (pc cause tval : Word) : State :=
  if deleg p s cause then
    { s with
      sepc := pc, scause := cause, stval := tval, priv := privS
      mstatus := setBit (setBit (setBit s.mstatus 5 (s.mstatus.getLsbD 1)) 1 false) 8
        (s.priv == privS) }
  else
    { s with
      mepc := pc, mcause := cause, mtval := tval, priv := privM
      mstatus := setPair (setBit (setBit s.mstatus 7 (s.mstatus.getLsbD 3)) 3 false) 11 s.priv }

def mret : State :=
  { s with
    priv := s.mstatus.extractLsb' 11 2
    mstatus := setPair (setBit (setBit s.mstatus 3 (s.mstatus.getLsbD 7)) 7 true) 11 (least p) }

def sret : State :=
  { s with
    priv := if s.mstatus.getLsbD 8 then privS else least p
    mstatus := setBit (setBit (setBit s.mstatus 1 (s.mstatus.getLsbD 5)) 5 true) 8 false }

/-- What the instruction in EX asks of the CSR unit at this edge. -/
structure Command where
  takeTrap : Bool
  pc : Word
  trapCause : Word
  trapVal : Word
  isMret : Bool
  isSret : Bool
  we : Bool
  addr : BitVec 12
  wsrc : Word
  funct3 : BitVec 3
  setVsDirty : Bool

/-- Trap over mret over sret over CSR write. -/
def commit (k : Command) : State :=
  if k.takeTrap then trapEnter p s k.pc k.trapCause k.trapVal
  else if k.isMret then mret p s
  else if k.isSret then sret p s
  else if k.we then write p s k.addr k.wsrc k.funct3
  else s

/-- The assignments behind the case, which override the VS and SD bits. -/
def fixStatus (old : State) (dirty : Bool) (m : Word) : Word :=
  let m1 := if dirty && vs old != 0b00#2 then setPair m 9 0b11#2 else m
  let m2 := if !p.hasV then setPair m1 9 0b00#2 else m1
  setBit m2 31 false

def step (k : Command) : State :=
  { commit p s k with mstatus := fixStatus p s k.setVsDirty (commit p s k).mstatus }

def reset : State where
  mstatus := setPair 0#32 11 (least p)
  medeleg := 0#32
  mideleg := 0#32
  mie := 0#32
  mtvec := 0#32
  mscratch := 0#32
  mepc := 0#32
  mcause := 0#32
  mtval := 0#32
  stvec := 0#32
  sscratch := 0#32
  sepc := 0#32
  scause := 0#32
  stval := 0#32
  satp := 0#32
  mipSw := 0#32
  priv := privM

variable {p s}

/-- A write below the machine level sets a register of S-mode, or `mstatus`, `mie` or `mip` under
the mask of its view. -/
theorem write_below {P : State → Prop} {addr : BitVec 12} {src : Word} {f3 : BitVec 3}
    (ha : addr.extractLsb' 8 2 ≠ 0b11#2)
    (own : ∀ stvec sscratch sepc scause stval satp,
      P { s with stvec, sscratch, sepc, scause, stval, satp })
    (status : P { s with mstatus := nxMasked sstatusMask s.mstatus src f3 })
    (enable : P { s with mie := nxMasked sIntMask s.mie src f3 })
    (pending : P { s with mipSw := nxMasked 0x2#32 s.mipSw src f3 }) :
    P (write p s addr src f3) := by
  have hne {b : BitVec 12} (hb : b.extractLsb' 8 2 = 0b11#2) : addr ≠ b := by
    rintro rfl
    exact ha hb
  unfold write
  iterate 10 refine iteInduction (fun h => absurd h (hne (by decide))) fun _ => ?_
  iterate 6 refine iteInduction (fun _ => own _ _ _ _ _ _) fun _ => ?_
  refine iteInduction (fun _ => status) fun _ => iteInduction (fun _ => enable) fun _ => ?_
  exact iteInduction (fun _ => pending) fun _ => own _ _ _ _ _ _

end RiscvScratch.Csr
