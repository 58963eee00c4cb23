import RiscvScratch.Cache.Geometry
import RiscvScratch.Clocked.Machine

/-! The direct-mapped, write-back, write-allocate data cache (`dcache.v`). The statistics
counters are left out: nothing reads them. -/
namespace RiscvScratch.Cache.Dcache

inductive Fsm where
  | idle | wb | fill | clean
  deriving DecidableEq, Repr

structure State where
  valid : ℕ → Bool
  dirty : ℕ → Bool
  tags : ℕ → ℕ
  lines : ℕ → Line
  fsm : Fsm
  /-- The line the sweep looks at, up to and including `LINES`. -/
  ci : ℕ
  cwb : Bool
  cleaned : Bool
  mReq : Bool
  mWe : Bool
  mAddr : Word

structure Input where
  addr : Word
  req : Bool
  we : BitVec 4
  wdata : Word
  clean : Bool
  mDone : Bool
  mRdata : Line

variable (g : Geometry)

def hit (s : State) (addr : Word) : Bool :=
  s.valid (g.idx addr) && s.tags (g.idx addr) == g.tag addr

def rdata (s : State) (addr : Word) : Word := s.lines (g.idx addr) (g.word addr)

variable (s : State) (i : Input)

def ready : Bool := i.req && hit g s i.addr && s.fsm == .idle

def ciIdx : ℕ := s.ci % g.lines

def mWdata : Line :=
  if s.fsm = .clean then s.lines (ciIdx g s) else s.lines (g.idx i.addr)

def cleanDone : Bool := i.clean && s.cleaned

def newWord : Word := mergeBytes i.we i.wdata (rdata g s i.addr)

/-- A request that hits in `S_IDLE`. -/
def onHit : State :=
  if i.we ≠ 0#4 then
    { s with
      lines := Function.update s.lines (g.idx i.addr)
        (Function.update (s.lines (g.idx i.addr)) (g.word i.addr) (newWord g s i))
      dirty := Function.update s.dirty (g.idx i.addr) true }
  else s

/-- A request that misses in `S_IDLE`: evict first, or fill at once. -/
def onMiss : State :=
  if s.valid (g.idx i.addr) && s.dirty (g.idx i.addr) then
    { s with
      mReq := true, mWe := true, fsm := .wb
      mAddr := g.lineAddr (s.tags (g.idx i.addr)) (g.idx i.addr) }
  else
    { s with
      mReq := true, mWe := false, fsm := .fill
      mAddr := g.lineAddr (g.tag i.addr) (g.idx i.addr) }

def onWb : State :=
  if i.mDone then
    { s with
      dirty := Function.update s.dirty (g.idx i.addr) false
      mWe := false, fsm := .fill
      mAddr := g.lineAddr (g.tag i.addr) (g.idx i.addr) }
  else s

def onFill : State :=
  if i.mDone then
    { s with
      lines := Function.update s.lines (g.idx i.addr) i.mRdata
      tags := Function.update s.tags (g.idx i.addr) (g.tag i.addr)
      valid := Function.update s.valid (g.idx i.addr) true
      dirty := Function.update s.dirty (g.idx i.addr) false
      mReq := false, fsm := .idle }
  else s

/-- One look of the sweep at line `ci`, or the end of its write-back. -/
def onClean : State :=
  if !s.cwb then
    if s.ci = g.lines then { s with cleaned := true, fsm := .idle }
    else if s.valid (ciIdx g s) && s.dirty (ciIdx g s) then
      { s with
        mReq := true, mWe := true, cwb := true
        mAddr := g.lineAddr (s.tags (ciIdx g s)) (ciIdx g s) }
    else { s with ci := s.ci + 1 }
  else if i.mDone then
    { s with
      dirty := Function.update s.dirty (ciIdx g s) false
      mReq := false, mWe := false, cwb := false, ci := s.ci + 1 }
  else s

def step : State :=
  -- `if (!clean) cleaned <= 0`, which the end of a sweep overrides
  let s1 := { s with cleaned := s.cleaned && i.clean }
  match s.fsm with
  | .idle =>
    if i.clean && !s.cleaned && !i.req then { s1 with ci := 0, cwb := false, fsm := .clean }
    else if i.req then if hit g s i.addr then onHit g s1 i else onMiss g s1 i
    else s1
  | .wb => onWb g s1 i
  | .fill => onFill g s1 i
  | .clean => onClean g s1 i

/-- The registers `rst` does not touch, the tag and line arrays, are arbitrary. -/
def reset (tags : ℕ → ℕ) (lines : ℕ → Line) : State where
  valid _ := false
  dirty _ := false
  tags := tags
  lines := lines
  fsm := .idle
  ci := 0
  cwb := false
  cleaned := false
  mReq := false
  mWe := false
  mAddr := 0#32

def machine : Clocked.Machine State Input where
  init s := ∃ tags lines, s = reset tags lines
  step := step g

end RiscvScratch.Cache.Dcache
