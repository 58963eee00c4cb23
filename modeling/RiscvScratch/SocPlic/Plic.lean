import RiscvScratch.Arbiter.Scan
import RiscvScratch.Clocked.Machine
import RiscvScratch.Core.Alu

/-! The single-context interrupt controller (`plic.v`): a claim takes effect in the first cycle of a
load and its answer stays for the second. -/
namespace RiscvScratch.SimplePlic

structure Params where
  sources : ℕ
  /-- Width of priorities and the threshold. -/
  pw : ℕ
  /-- Source `k` is bit `k` of a register. -/
  sources_le : sources ≤ 31

/-- Bit `k` of `en`, `pend` and `infl` is source `k`. -/
structure State where
  prio : ℕ → ℕ
  en : Word
  pend : Word
  infl : Word
  thresh : ℕ
  claimD : Bool
  claimedReg : Word

structure Input where
  sel : Bool
  we : Bool
  addr : BitVec 16
  wdata : Word
  src : ℕ → Bool

variable (p : Params) (s : State) (i : Input)

def isSource (k : ℕ) : Bool := decide (1 ≤ k) && decide (k ≤ p.sources)

def sourceBits (f : ℕ → Bool) : Word :=
  (BitVec.ofBoolListLE ((List.range 32).map fun k => isSource p k && f k)).setWidth 32

def eligible (k : ℕ) : Bool :=
  s.pend.getLsbD k && s.en.getLsbD k && decide (s.thresh < s.prio k)

def claimId : ℕ := (Arbiter.scan 0 (eligible s) s.prio p.sources).1

def meip : Bool := (List.range p.sources).any fun k => eligible s (k + 1)

def page : BitVec 4 := i.addr.extractLsb' 12 4
def isPrio : Bool := i.sel && page i == 0
def isPend : Bool := i.sel && page i == 1
def isEn : Bool := i.sel && page i == 2
def isThresh : Bool := i.sel && page i == 3 && !i.addr.getLsbD 2
def isClaim : Bool := i.sel && page i == 3 && i.addr.getLsbD 2
def pidx : ℕ := (i.addr.extractLsb' 2 4).toNat

def claimRd : Bool := isClaim i && !i.we

/-- High in the first cycle of a load of the claim register. -/
def claimStb : Bool := claimRd i && !s.claimD

/-- A claim takes source `k`: its pending bit is cleared and it is put in service. -/
def claims (k : ℕ) : Bool := claimStb s i && isSource p k && claimId p s == k

def rdata : Word :=
  if isPrio i then if isSource p (pidx i) then BitVec.ofNat 32 (s.prio (pidx i)) else 0
  else if isPend i then s.pend
  else if isEn i then s.en
  else if isThresh i then BitVec.ofNat 32 s.thresh
  else if isClaim i then
    if claimStb s i then BitVec.ofNat 32 (claimId p s) else s.claimedReg
  else 0

def step : State where
  claimD := claimRd i
  prio k :=
    if isPrio i && i.we && isSource p k && pidx i == k then i.wdata.toNat % 2 ^ p.pw else s.prio k
  en := if isEn i && i.we then sourceBits p i.wdata.getLsbD else s.en
  thresh := if isThresh i && i.we then i.wdata.toNat % 2 ^ p.pw else s.thresh
  claimedReg := if claimStb s i then BitVec.ofNat 32 (claimId p s) else s.claimedReg
  infl := sourceBits p fun k =>
    if claims p s i k then true
    else if isClaim i && i.we && i.wdata.toNat == k then false
    else s.infl.getLsbD k
  pend := sourceBits p fun k =>
    if claims p s i k then false
    else if !s.pend.getLsbD k && !s.infl.getLsbD k && i.src k then true
    else s.pend.getLsbD k

def reset : State where
  prio _ := 0
  en := 0
  pend := 0
  infl := 0
  thresh := 0
  claimD := false
  claimedReg := 0

end RiscvScratch.SimplePlic
