import RiscvScratch.Cache.Dcache
import RiscvScratch.Cache.Icache
import RiscvScratch.Unified.Core

/-! The boot platform with caches (`soc_boot.v`, `MEMSYS` 1 or 2): the core, the caches, the
arbiter, the FENCE.I handshake and the test device. What answers the line port, the CLINT, the PLIC
and the UART are behind the inputs. -/
namespace RiscvScratch.Boot

open Cache

/-- The bounds keep the map of the header: the ROM ends below the test device, the RAM lies in
`0x8xxx_xxxx`. -/
structure Params where
  romWords : ℕ
  ramWords : ℕ
  tlbEntries : ℕ
  bpred : Bool
  vExt : Bool
  svade : Bool
  /-- `LINE_WORDS`, `I_LINES` and `D_LINES` by their logarithms. -/
  wordBits : ℕ
  iBits : ℕ
  dBits : ℕ
  tlbPos : 0 < tlbEntries
  romFits : romWords * 4 ≤ 0xFF000
  ramFits : ramWords * 4 ≤ 0x10000000

namespace Params
variable (p : Params)

def ig : Geometry := ⟨p.iBits, p.wordBits⟩
def dg : Geometry := ⟨p.dBits, p.wordBits⟩

def romBytes : Word := BitVec.ofNat 32 (p.romWords * 4)
def ramBytes : Word := BitVec.ofNat 32 (p.ramWords * 4)

def pmaBase : ℕ → Word
  | 0 => 0x00001000#32
  | 1 => 0x00100000#32
  | 2 => 0x02000000#32
  | 3 => 0x0C000000#32
  | 4 => 0x10000000#32
  | 5 => 0x80000000#32
  | _ => 0#32

def pmaSize : ℕ → Word
  | 0 => p.romBytes
  | 1 => 0x00001000#32
  | 2 => 0x00010000#32
  | 3 => 0x04000000#32
  | 4 => 0x00000100#32
  | 5 => p.ramBytes
  | _ => 0#32

def pmaAttr : ℕ → BitVec 3
  | 0 => 0b101#3
  | 1 => 0b011#3
  | 2 => 0b011#3
  | 3 => 0b011#3
  | 4 => 0b011#3
  | 5 => 0b111#3
  | _ => 0b000#3

/-- The core as the platform instantiates it; the rest are its defaults. -/
def cfg : Unified.Cfg where
  resetPc := 0x00001000#32
  tlbEntries := p.tlbEntries
  bpred := p.bpred
  bpIdxBits := 6
  mExt := true
  aExt := true
  hasU := true
  hasS := true
  mmu := true
  zba := true
  zbb := true
  zbc := true
  zbs := true
  vExt := p.vExt
  vlen := 128
  zicntr := true
  svade := p.svade
  pmaN := 6
  pmaBase := pmaBase
  pmaSize := p.pmaSize
  pmaAttr := pmaAttr
  tlbPos := p.tlbPos

def inRom (a : Word) : Bool := (0x00001000#32).ule a && (a - 0x00001000#32).ult p.romBytes

end Params

def inRam (a : Word) : Bool := a.extractLsb' 28 4 == 8#4
def selTest (a : Word) : Bool := a.extractLsb' 12 20 == 0x00100#20

inductive Owner where
  | none | d | i
  deriving DecidableEq, Repr

structure State where
  core : Unified.State
  ic : Icache.State
  dc : Dcache.State
  owner : Owner
  fiDone : Bool
  halt : Bool
  wrst : BitVec 3

structure Input where
  timerIrq : Bool
  mtime : BitVec 64
  meip : Bool
  seip : Bool
  mmioRdata : Word
  lmDone : Bool
  lmRdata : Line

/-- The request signals of the core look at `halt` and at no other input. -/
def probe (halt : Bool) : Unified.Input :=
  ⟨false, 0#64, false, false, halt, false, 0#32, false, 0#32, false⟩

variable (p : Params) (s : State) (i : Input)

def iaddr : Word := Unified.iAddr p.cfg s.core
def ireq : Bool := Unified.iReq p.cfg s.core (probe s.halt)
def daddr : Word := Unified.dAddr p.cfg s.core
def dreq : Bool := Unified.dReq p.cfg s.core (probe s.halt)
def dwe : BitVec 4 := Unified.dWe p.cfg s.core
def dwdata : Word := Unified.dWdata p.cfg s.core

def cacheable (a : Word) : Bool := inRam a || p.inRom a
def dcReq : Bool := dreq p s && cacheable p (daddr p s)

def iready : Bool := Icache.ready p.ig s.ic (iaddr p s) (ireq p s)
def dcReady : Bool := dcReq p s && Dcache.hit p.dg s.dc (daddr p s) && s.dc.fsm == .idle
def dready : Bool := if cacheable p (daddr p s) then dcReady p s else true
def irdata : Word := Icache.rdata p.ig s.ic (iaddr p s)

def drdata : Word :=
  if cacheable p (daddr p s) then Dcache.rdata p.dg s.dc (daddr p s) else i.mmioRdata

def coreInput : Unified.Input where
  timerIrq := i.timerIrq
  mtime := i.mtime
  meip := i.meip
  seip := i.seip
  halt := s.halt
  fenceiAck := s.fiDone
  iRdata := irdata p s
  iReady := iready p s
  dRdata := drdata p s i
  dReady := dready p s

def fenceiReq : Bool := Unified.fenceiReq p.cfg s.core (coreInput p s i)
def dcClean : Bool := fenceiReq p s i && !s.fiDone

def dcInput : Dcache.Input where
  addr := daddr p s
  req := dcReq p s
  we := dwe p s
  wdata := dwdata p s
  clean := dcClean p s i
  mDone := i.lmDone && s.owner == .d
  mRdata := i.lmRdata

def dcCleanDone : Bool := Dcache.cleanDone s.dc (dcInput p s i)

def icInput : Icache.Input where
  addr := iaddr p s
  req := ireq p s
  inval := dcClean p s i && dcCleanDone p s i
  mDone := i.lmDone && s.owner == .i
  mRdata := i.lmRdata

def nextFiDone : Bool :=
  if !fenceiReq p s i then false
  else if dcCleanDone p s i then true
  else s.fiDone

def nextOwner : Owner :=
  if i.lmDone then .none
  else if s.owner = .none then
    if s.dc.mReq then .d else if s.ic.mReq then .i else .none
  else s.owner

def lmReq : Bool :=
  match s.owner with
  | .d => s.dc.mReq
  | .i => s.ic.mReq
  | .none => false

def lmWe : Bool := s.owner == .d && s.dc.mWe
def lmAddr : Word := if s.owner = .i then Icache.mAddr p.ig s.ic else s.dc.mAddr
def lmWdata : Line := Dcache.mWdata p.dg s.dc (dcInput p s i)

def wrTest : Bool := selTest (daddr p s) && dreq p s && dwe p s != 0#4 && !s.halt

def powersOff : Bool :=
  wrTest p s && ((dwdata p s).extractLsb' 0 16 == 0x5555#16 ||
    (dwdata p s).extractLsb' 0 16 == 0x3333#16)

def restarts : Bool := wrTest p s && (dwdata p s).extractLsb' 0 16 == 0x7777#16

/-- `sys_rst`: what a warm reset does at an edge. The memories keep their content. -/
def warm : State where
  core := Unified.reset p.cfg s.core
  ic := Icache.reset s.ic.tags s.ic.lines
  dc := Dcache.reset s.dc.tags s.dc.lines
  owner := .none
  fiDone := false
  halt := s.halt
  wrst := s.wrst - 1#3

def run : State where
  core := Unified.step p.cfg s.core (coreInput p s i)
  ic := Icache.step p.ig s.ic (icInput p s i)
  dc := Dcache.step p.dg s.dc (dcInput p s i)
  owner := nextOwner s i
  fiDone := nextFiDone p s i
  halt := s.halt || powersOff p s
  wrst := if restarts p s then 4#3 else 0#3

def step : State := if s.wrst != 0#3 then warm p s else run p s i

structure Reset (s : State) : Prop where
  core : ∃ u, s.core = Unified.reset p.cfg u
  ic : ∃ tags lines, s.ic = Icache.reset tags lines
  dc : ∃ tags lines, s.dc = Dcache.reset tags lines
  owner : s.owner = .none
  fiDone : s.fiDone = false
  halt : s.halt = false
  wrst : s.wrst = 0#3

def machine : Clocked.Machine State Input where
  init := Reset p
  step := step p

abbrev Run := (machine p).Run

end RiscvScratch.Boot
