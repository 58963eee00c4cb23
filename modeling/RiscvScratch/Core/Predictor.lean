import RiscvScratch.Core.Alu

/-! The BTB and the 2-bit direction counters (`branch_predictor.v`). The tables are
functions of the index; a tag is the number formed by the PC bits above the index. -/
namespace RiscvScratch.BranchPredictor

structure State where
  bht : ℕ → BitVec 2
  btbValid : ℕ → Bool
  btbTag : ℕ → ℕ
  btbTarget : ℕ → Word

variable (idxBits : ℕ)

def index (pc : Word) : ℕ := pc.toNat / 4 % 2 ^ idxBits
def tag (pc : Word) : ℕ := pc.toNat / 2 ^ (idxBits + 2)

def btbHit (s : State) (pc : Word) : Bool :=
  s.btbValid (index idxBits pc) && s.btbTag (index idxBits pc) == tag idxBits pc

def predictTaken (s : State) (pc : Word) : Bool :=
  btbHit idxBits s pc && (s.bht (index idxBits pc)).getLsbD 1

def predictTarget (s : State) (pc : Word) : Word := s.btbTarget (index idxBits pc)

structure Update where
  en : Bool
  pc : Word
  taken : Bool
  isJump : Bool
  target : Word

def counter (c : BitVec 2) (isJump taken : Bool) : BitVec 2 :=
  if isJump then 0b11#2
  else if taken then (if c = 0b11#2 then 0b11#2 else c + 1#2)
  else (if c = 0b00#2 then 0b00#2 else c - 1#2)

def step (s : State) (u : Update) : State :=
  let i := index idxBits u.pc
  if u.en then
    { bht := Function.update s.bht i (counter (s.bht i) u.isJump u.taken)
      btbValid := if u.taken then Function.update s.btbValid i true else s.btbValid
      btbTag := if u.taken then Function.update s.btbTag i (tag idxBits u.pc) else s.btbTag
      btbTarget := if u.taken then Function.update s.btbTarget i u.target else s.btbTarget }
  else s

def reset : State where
  bht _ := 0b01#2
  btbValid _ := false
  btbTag _ := 0
  btbTarget _ := 0#32

theorem word_eq_of_index_tag {p q : Word} (hi : index idxBits p = index idxBits q)
    (ht : tag idxBits p = tag idxBits q) : p.toNat / 4 = q.toNat / 4 := by
  have hsplit (r : Word) : r.toNat / 4 = 2 ^ idxBits * tag idxBits r + index idxBits r := by
    have hd : tag idxBits r = r.toNat / 4 / 2 ^ idxBits := by
      rw [tag, Nat.div_div_eq_div_mul, pow_add, Nat.mul_comm]
      norm_num
    rw [hd, index]
    exact (Nat.div_add_mod _ _).symm
  rw [hsplit p, hsplit q, hi, ht]

end RiscvScratch.BranchPredictor
