import RiscvScratch.Cache.Geometry
import RiscvScratch.Clocked.Machine

/-! The direct-mapped instruction cache (`icache.v`), without the statistics counters. A refill in
flight when the lines are invalidated is not installed. -/
namespace RiscvScratch.Cache.Icache

structure State where
  valid : ℕ → Bool
  tags : ℕ → ℕ
  lines : ℕ → Line
  filling : Bool
  drop : Bool
  mReq : Bool
  missAddr : Word

structure Input where
  addr : Word
  req : Bool
  inval : Bool
  mDone : Bool
  mRdata : Line

variable (g : Geometry)

def hit (s : State) (addr : Word) : Bool :=
  s.valid (g.idx addr) && s.tags (g.idx addr) == g.tag addr

def rdata (s : State) (addr : Word) : Word := s.lines (g.idx addr) (g.word addr)

def ready (s : State) (addr : Word) (req : Bool) : Bool := req && hit g s addr && !s.filling

def mAddr (s : State) : Word := g.lineAddr (g.tag s.missAddr) (g.idx s.missAddr)

def onInval (s : State) (i : Input) : State :=
  { s with
    valid := fun _ => false
    drop := if s.filling then !i.mDone else s.drop
    mReq := s.mReq && !(s.filling && i.mDone)
    filling := s.filling && !i.mDone }

def onMiss (s : State) (i : Input) : State :=
  { s with missAddr := i.addr, mReq := true, filling := true }

def onFill (s : State) (i : Input) : State :=
  { s with
    lines := Function.update s.lines (g.idx s.missAddr) i.mRdata
    tags := Function.update s.tags (g.idx s.missAddr) (g.tag s.missAddr)
    valid := Function.update s.valid (g.idx s.missAddr) (!s.drop)
    mReq := false
    filling := false
    drop := false }

def step (s : State) (i : Input) : State :=
  if i.inval then onInval s i
  else if !s.filling then
    if i.req && !hit g s i.addr then onMiss s i else s
  else if i.mDone then onFill g s i
  else s

/-- The tag and line arrays, which `rst` does not touch, are arbitrary. -/
def reset (tags : ℕ → ℕ) (lines : ℕ → Line) : State where
  valid _ := false
  tags := tags
  lines := lines
  filling := false
  drop := false
  mReq := false
  missAddr := 0#32

structure Matches (s : State) (mem : MainMemory) : Prop where
  lt : ∀ j, s.valid j = true → j < g.lines
  line : ∀ j, s.valid j = true → ∀ k < g.lineWords,
    s.lines j k = mem (g.lineNum (s.tags j) j * g.lineWords + k)

variable {g} {s : State} {i : Input} {mem : MainMemory}

theorem step_mReq (h : s.mReq = s.filling) : (step g s i).mReq = (step g s i).filling := by
  unfold step
  split_ifs
  · cases hf : s.filling <;> simp [onInval, h, hf]
  · rfl
  · exact h
  · rfl
  · exact h

theorem matches_of_empty (h : ∀ j, s.valid j = false) : Matches g s mem where
  lt j hj := by simp [h j] at hj
  line j hj := by simp [h j] at hj

theorem Matches.step (h : Matches g s mem)
    (hr : s.filling = true → i.mDone = true → ∀ k < g.lineWords,
      i.mRdata k = mem.readLine g (mAddr g s) k) : Matches g (step g s i) mem := by
  unfold Icache.step
  split_ifs with hinv hfill hmiss hdone
  · exact matches_of_empty fun _ => rfl
  · exact ⟨h.lt, h.line⟩
  · exact h
  · have hline := hr (by simpa using hfill) hdone
    constructor
    · intro j hj
      by_cases hji : j = g.idx s.missAddr
      · exact hji ▸ g.idx_lt _
      · exact h.lt j (by simpa [onFill, hji] using hj)
    · intro j hj k hk
      by_cases hji : j = g.idx s.missAddr
      · subst hji
        simp only [onFill, Function.update_self]
        rw [hline k hk, MainMemory.readLine, mAddr, g.lineOf_lineAddr (g.fits_addr _)]
      · simpa [onFill, hji] using h.line j (by simpa [onFill, hji] using hj) k hk
  · exact h

theorem Matches.rdata (h : Matches g s mem) {addr : Word} (hh : hit g s addr = true) :
    rdata g s addr = mem (addr.toNat / 4) := by
  simp only [hit, Bool.and_eq_true, beq_iff_eq] at hh
  rw [Icache.rdata, h.line _ hh.1 _ (g.word_lt addr), hh.2, g.lineNum_tag_idx, g.wordIndex_eq addr]

end RiscvScratch.Cache.Icache
