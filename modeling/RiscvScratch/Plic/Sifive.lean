import RiscvScratch.Arbiter.Scan
import RiscvScratch.Clocked.Machine
import RiscvScratch.Core.Alu

/-! The interrupt controller (`plic_sifive.v`): sources `1..SOURCES`, shared by contexts that each
have enable bits, a threshold and a claim register. -/
namespace RiscvScratch.Plic

structure Params where
  sources : ℕ
  contexts : ℕ
  /-- Width of priorities and thresholds. -/
  pw : ℕ
  /-- Source `k` is bit `k` of a register. -/
  sources_le : sources ≤ 31

/-- Bit `k` of `pend` and `infl` is source `k`; a source that does not exist never sets one. -/
structure State where
  prio : ℕ → ℕ
  pend : ℕ → Bool
  infl : ℕ → Bool
  en : ℕ → ℕ → Bool
  thresh : ℕ → ℕ

structure Input where
  sel : Bool
  we : Bool
  addr : BitVec 26
  wdata : Word
  src : ℕ → Bool

section decode
variable (addr : BitVec 26)

def aPrio : Bool := addr.extractLsb' 12 14 == 0#14
def aSrc : ℕ := (addr.extractLsb' 2 10).toNat
def aPend : Bool := addr.extractLsb' 12 14 == 1#14 && addr.extractLsb' 2 10 == 0#10
def aEn : Bool := addr.extractLsb' 12 14 == 2#14 && addr.extractLsb' 2 5 == 0#5
def aEnc : ℕ := (addr.extractLsb' 7 5).toNat
def aCtx : Bool := addr.extractLsb' 21 5 == 1#5 && addr.extractLsb' 3 9 == 0#9
def aC : ℕ := (addr.extractLsb' 12 9).toNat
def aClaim : Bool := aCtx addr && addr.getLsbD 2

end decode

variable (p : Params) (s : State) (i : Input)

def isSource (k : ℕ) : Bool := decide (1 ≤ k) && decide (k ≤ p.sources)

/-- Source `k` asks for context `c`. -/
def wants (c k : ℕ) : Bool := s.pend k && s.en c k && decide (s.thresh c < s.prio k)

def best (c : ℕ) : ℕ := (Arbiter.scan 0 (wants s c) s.prio p.sources).1

def eip (c : ℕ) : Bool := best p s c != 0

def ctxOk : Bool := decide (aC i.addr < p.contexts)
def claimRd : Bool := i.sel && !i.we && aClaim i.addr && ctxOk p i
def claimed : ℕ := if ctxOk p i then best p s (aC i.addr) else 0

def sourceBits (f : ℕ → Bool) : Word :=
  (BitVec.ofBoolListLE ((List.range 32).map fun k => isSource p k && f k)).setWidth 32

def rdata : Word :=
  if aPrio i.addr && isSource p (aSrc i.addr) then BitVec.ofNat 32 (s.prio (aSrc i.addr))
  else if aPend i.addr then sourceBits p s.pend
  else if aEn i.addr && decide (aEnc i.addr < p.contexts) then
    sourceBits p (s.en (aEnc i.addr))
  else if aCtx i.addr && ctxOk p i && !i.addr.getLsbD 2 then
    BitVec.ofNat 32 (s.thresh (aC i.addr))
  else if aClaim i.addr then BitVec.ofNat 32 (claimed p s i)
  else 0#32

def writes : Bool := i.sel && i.we

/-- The completion of source `k`. -/
def completes (k : ℕ) : Bool :=
  writes i && aClaim i.addr && ctxOk p i && isSource p k && i.wdata.toNat == k

def claims (k : ℕ) : Bool := claimRd p i && isSource p k && claimed p s i == k

def step : State where
  prio k :=
    if writes i && aPrio i.addr && isSource p k && aSrc i.addr == k then i.wdata.toNat % 2 ^ p.pw
    else s.prio k
  pend k :=
    if claims p s i k then false
    else if isSource p k && !s.pend k && !s.infl k && i.src k then true
    else s.pend k
  infl k :=
    if claims p s i k then true
    else if completes p i k then false
    else s.infl k
  en c k :=
    if writes i && aEn i.addr && decide (c < p.contexts) && aEnc i.addr == c then
      isSource p k && i.wdata.getLsbD k
    else s.en c k
  thresh c :=
    if writes i && aCtx i.addr && ctxOk p i && !i.addr.getLsbD 2 && aC i.addr == c then
      i.wdata.toNat % 2 ^ p.pw
    else s.thresh c

def reset : State where
  prio _ := 0
  pend _ := false
  infl _ := false
  en _ _ := false
  thresh _ := 0

def machine : Clocked.Machine State Input where
  init s := s = reset
  step := step p

abbrev Run := (machine p).Run

end RiscvScratch.Plic
