import RiscvScratch.Crossing.Gray

/-! The dual-clock FIFO (`oz_async_fifo.v`) with `DEPTH = 2 ^ (n + 2)`. A step is an edge of either
clock or of both; what the first flop of a synchroniser takes is an input of the step. -/
namespace RiscvScratch.AsyncFifo
open Gray (gray)

variable {α : Type*} {n : ℕ}

/-- One bit more than an address. -/
abbrev Ptr (n : ℕ) := BitVec (n + 3)

structure State (α : Type*) (n : ℕ) where
  mem : BitVec (n + 2) → α
  wbin : Ptr n
  rbin : Ptr n
  rgrayW1 : Ptr n
  rgrayW2 : Ptr n
  wgrayR1 : Ptr n
  wgrayR2 : Ptr n

variable (s : State α n)

def State.wgray : Ptr n := gray s.wbin
def State.rgray : Ptr n := gray s.rbin

def addr (p : Ptr n) : BitVec (n + 2) := p.extractLsb' 0 (n + 2)

def flipTop (g : Ptr n) : Ptr n :=
  (~~~(g.extractLsb' (n + 1) 2) ++ g.extractLsb' 0 (n + 1)).cast (by omega)

def State.wready : Bool := s.wgray != flipTop s.rgrayW2
def State.rvalid : Bool := s.rgray != s.wgrayR2
def State.rdata : α := s.mem (addr s.rbin)

/-- An edge of `wclk`; `seen` is what `rgray_w1` takes. -/
structure WriteEdge (α : Type*) (n : ℕ) where
  wvalid : Bool
  wdata : α
  seen : Ptr n

/-- An edge of `rclk`; `seen` is what `wgray_r1` takes. -/
structure ReadEdge (n : ℕ) where
  rpop : Bool
  seen : Ptr n

def accepts (e : WriteEdge α n) : Bool := e.wvalid && s.wready
def pops (e : ReadEdge n) : Bool := e.rpop && s.rvalid

def writeEdge (e : WriteEdge α n) : State α n :=
  { s with
    rgrayW1 := e.seen
    rgrayW2 := s.rgrayW1
    mem := if accepts s e then Function.update s.mem (addr s.wbin) e.wdata else s.mem
    wbin := if accepts s e then s.wbin + 1 else s.wbin }

def readEdge (e : ReadEdge n) (s' : State α n) : State α n :=
  { s' with
    wgrayR1 := e.seen
    wgrayR2 := s.wgrayR1
    rbin := if pops s e then s.rbin + 1 else s.rbin }

def step (w : Option (WriteEdge α n)) (r : Option (ReadEdge n)) : State α n :=
  let s' := w.elim s (writeEdge s)
  r.elim s' fun e => readEdge s e s'

/-- Both sides reset together; the memory is not. -/
def reset (mem : BitVec (n + 2) → α) : State α n := ⟨mem, 0, 0, 0, 0, 0, 0⟩

def accepted (w : Option (WriteEdge α n)) : List α :=
  w.elim [] fun e => if accepts s e then [e.wdata] else []

def popped (r : Option (ReadEdge n)) : List α :=
  r.elim [] fun e => if pops s e then [s.rdata] else []

/-- Each flop takes the old or the new value of its bit of the other pointer. -/
structure Sampling (s : State α n) (w : Option (WriteEdge α n)) (r : Option (ReadEdge n)) :
    Prop where
  write : ∀ e, w = some e → Gray.Sampled s.rgray (step s w r).rgray e.seen
  read : ∀ e, r = some e → Gray.Sampled s.wgray (step s w r).wgray e.seen

/-- The states that any interleaving of edges leads to, with all words accepted and popped. -/
inductive Reachable : State α n → List α → List α → Prop
  | reset (mem : BitVec (n + 2) → α) : Reachable (reset mem) [] []
  | step {s : State α n} {ins outs : List α} (h : Reachable s ins outs)
      {w : Option (WriteEdge α n)} {r : Option (ReadEdge n)} (hs : Sampling s w r) :
      Reachable (step s w r) (ins ++ accepted s w) (outs ++ popped s r)

end RiscvScratch.AsyncFifo
