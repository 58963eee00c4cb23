import RiscvScratch.Core.Alu

/-! The core-local interruptor (`clint_sifive.v`): `msip`, `mtimecmp` and the counter `mtime`. -/
namespace RiscvScratch.Clint

structure State where
  mtime : BitVec 64
  mtimecmp : BitVec 64
  msip : Bool
  deriving DecidableEq

/-- The bus: a write needs `sel` and `we`. -/
structure Input where
  sel : Bool
  we : Bool
  addr : BitVec 16
  wdata : Word

def timerIrq (s : State) : Bool := s.mtimecmp.ule s.mtime

def setLow (x : BitVec 64) (w : Word) : BitVec 64 := x.extractLsb' 32 32 ++ w
def setHigh (x : BitVec 64) (w : Word) : BitVec 64 := w ++ x.extractLsb' 0 32

/-- A write to `mtime` wins over the tick. -/
def step (s : State) (i : Input) : State :=
  let s' := { s with mtime := s.mtime + 1#64 }
  if i.sel && i.we then
    if i.addr = 0x0000#16 then { s' with msip := i.wdata.getLsbD 0 }
    else if i.addr = 0x4000#16 then { s' with mtimecmp := setLow s.mtimecmp i.wdata }
    else if i.addr = 0x4004#16 then { s' with mtimecmp := setHigh s.mtimecmp i.wdata }
    else if i.addr = 0xBFF8#16 then { s' with mtime := setLow s'.mtime i.wdata }
    else if i.addr = 0xBFFC#16 then { s' with mtime := setHigh s'.mtime i.wdata }
    else s'
  else s'

def reset : State := ⟨0#64, 0xFFFFFFFFFFFFFFFF#64, false⟩

def idle : Input := ⟨false, false, 0#16, 0#32⟩

def cmpWrite (high : Bool) (w : Word) : Input :=
  ⟨true, true, if high then 0x4004#16 else 0x4000#16, w⟩

def setHalf (x : BitVec 64) (high : Bool) (w : Word) : BitVec 64 :=
  if high then setHigh x w else setLow x w

@[simp] theorem step_idle_mtime (s : State) : (step s idle).mtime = s.mtime + 1#64 := rfl
@[simp] theorem step_idle_cmp (s : State) : (step s idle).mtimecmp = s.mtimecmp := rfl

@[simp] theorem step_cmpWrite_mtime (s : State) (high : Bool) (w : Word) :
    (step s (cmpWrite high w)).mtime = s.mtime + 1#64 := by
  cases high <;> rfl

@[simp] theorem step_cmpWrite_cmp (s : State) (high : Bool) (w : Word) :
    (step s (cmpWrite high w)).mtimecmp = setHalf s.mtimecmp high w := by
  cases high <;> rfl

theorem le_succ {x : BitVec 64} (h : x ≠ BitVec.allOnes 64) : x ≤ x + 1#64 := by
  have hx : x.toNat ≠ 2 ^ 64 - 1 := by
    intro he
    exact h (BitVec.eq_of_toNat_eq (by simpa using he))
  bv_omega

theorem low_append {n m : ℕ} (a : BitVec n) (b : BitVec m) : (a ++ b).extractLsb' 0 m = b := by
  apply BitVec.eq_of_getLsbD_eq
  intro i hi
  simp [BitVec.getLsbD_append, hi]

theorem setHalf_pair (x : BitVec 64) (w lo hi : Word) :
    setHalf (setHalf (setHalf x true w) false lo) true hi = hi ++ lo := by
  simp only [setHalf, setHigh, setLow, if_true, Bool.false_eq_true, if_false]
  exact congrArg _ (low_append _ lo)

theorem halves_append (t : BitVec 64) : t.extractLsb' 32 32 ++ t.extractLsb' 0 32 = t := by
  apply BitVec.eq_of_toNat_eq
  have := t.isLt
  rw [BitVec.toNat_append, BitVec.extractLsb'_toNat, BitVec.extractLsb'_toNat,
    ← Nat.shiftLeft_add_eq_or_of_lt (Nat.mod_lt _ (by decide)), Nat.shiftLeft_eq,
    Nat.shiftRight_eq_div_pow]
  omega

end RiscvScratch.Clint
