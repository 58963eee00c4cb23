import RiscvScratch.Core.Alu

/-! The small fully associative Sv32 TLB (`tlb.v`), built with `ENABLE = 1`. -/
namespace RiscvScratch.Tlb

/-- Slice `i` of the packed vectors; `perm` is `{U, X, W, R}`. -/
structure Entry where
  v : Bool
  sp : Bool
  tag : BitVec 20
  ppn : BitVec 22
  perm : BitVec 4

structure State where
  entry : ℕ → Entry
  victim : ℕ

def vpn (va : Word) : BitVec 20 := va.extractLsb' 12 20

def Entry.covers (e : Entry) (n : BitVec 20) : Bool :=
  e.v && (if e.sp then e.tag.extractLsb' 10 10 == n.extractLsb' 10 10 else e.tag == n)

/-- The superpage concatenation is 34 bits wide and loses its top two. -/
def Entry.pa (e : Entry) (va : Word) : Word :=
  if e.sp then e.ppn.extractLsb' 10 10 ++ va.extractLsb' 0 22
  else e.ppn.extractLsb' 0 20 ++ va.extractLsb' 0 12

/-- The lookup loop over the first `n` entries: a later match overrides an earlier one. -/
def find (s : State) (va : Word) : ℕ → Option ℕ
  | 0 => none
  | n + 1 => if (s.entry n).covers (vpn va) then some n else find s va n

structure Result where
  hit : Bool
  pa : Word
  perm : BitVec 4

def lookup (entries : ℕ) (s : State) (va : Word) : Result :=
  match find s va entries with
  | some k => ⟨true, (s.entry k).pa va, (s.entry k).perm⟩
  | none => ⟨false, va, 0#4⟩

structure Fill where
  en : Bool
  va : Word
  ppn : BitVec 22
  sp : Bool
  perm : BitVec 4

structure Flush where
  all : Bool
  one : Bool
  va : Word

def Entry.flushOne (e : Entry) (f : Flush) : Entry :=
  if f.one && e.covers (vpn f.va) then { e with v := false } else e

def Fill.entry (f : Fill) : Entry := ⟨true, f.sp, vpn f.va, f.ppn, f.perm⟩

/-- `flush_all` wins over a fill; a fill wins over `flush_one` on the victim. -/
def step (entries : ℕ) (s : State) (f : Fill) (x : Flush) : State :=
  if x.all then { s with entry := fun i => { s.entry i with v := false } }
  else
    let swept := fun i => (s.entry i).flushOne x
    if f.en then
      { entry := Function.update swept s.victim f.entry
        victim := if s.victim = entries - 1 then 0 else s.victim + 1 }
    else { s with entry := swept }

/-- `rst` clears the valid bits and the victim pointer, nothing else. -/
def reset (s : State) : State where
  entry i := { s.entry i with v := false }
  victim := 0

end RiscvScratch.Tlb
