import RiscvScratch.Cache.Geometry
import RiscvScratch.Unified.Core

/-! A word memory behind the D-port, and what the instruction in MEM still has to do to it. -/
namespace RiscvScratch.Unified

abbrev Ram := BitVec 30 → Word

def wordOf (a : Word) : BitVec 30 := a.extractLsb' 2 30

structure PortWrite where
  addr : Word
  we : BitVec 4
  wdata : Word
  deriving DecidableEq, Repr

namespace Ram

def load (m : Ram) (a : Word) : Word := m (wordOf a)

def store (m : Ram) (w : PortWrite) : Ram :=
  Function.update m (wordOf w.addr) (Cache.mergeBytes w.we w.wdata (m (wordOf w.addr)))

def after (m : Ram) (ws : List PortWrite) : Ram := ws.foldl store m

@[simp] theorem after_nil (m : Ram) : m.after [] = m := rfl

theorem after_append (m : Ram) (us ws : List PortWrite) :
    m.after (us ++ ws) = (m.after us).after ws := List.foldl_append

theorem load_store_ne {m : Ram} {w : PortWrite} {a : Word} (h : wordOf w.addr ≠ wordOf a) :
    (m.store w).load a = m.load a := by
  simp only [load, store]
  exact Function.update_of_ne (Ne.symm h) _ _

theorem load_after {m : Ram} {ws : List PortWrite} {a : Word}
    (h : ∀ w ∈ ws, wordOf w.addr ≠ wordOf a) : (m.after ws).load a = m.load a := by
  induction ws generalizing m with
  | nil => rfl
  | cons w ws ih =>
    rw [after, List.foldl_cons, ← after, ih fun x hx => h x (List.mem_cons_of_mem _ hx),
      load_store_ne (h w List.mem_cons_self)]

end Ram

/-- An input with no interrupt and nothing to wait for, with `d` on the read data. -/
def quietInput (d : Word) : Input where
  timerIrq := false
  mtime := 0#64
  meip := false
  seip := false
  halt := false
  fenceiAck := true
  iRdata := 0#32
  iReady := true
  dRdata := d
  dReady := true

section drain
variable (s : State) (m : Ram)

def drainValue : Word :=
  memwbValue { s with amoOld := m.load s.exmem.addr } (quietInput (m.load s.exmem.addr))

theorem drainValue_eq : drainValue s m =
    if s.exmem.wbSel = .mem then
      if s.exmem.sc then (if scOk s then 0#32 else 1#32)
      else if s.exmem.rmw then m.load s.exmem.addr
      else loadVal s (quietInput (m.load s.exmem.addr))
    else s.exmem.result := rfl

def pendingWrite : List PortWrite :=
  if mStore s then [⟨s.exmem.addr, stMask s, stData s⟩]
  else if s.exmem.rmw then
    [⟨s.exmem.addr, 0b1111#4,
      amoResult s.exmem.amoF5 (m.load s.exmem.addr) s.exmem.store⟩]
  else []

def resvOf : Option Word := if s.resvValid then some s.resvAddr else none

def drainResv : Option Word :=
  if s.exmem.lr then some s.exmem.addr
  else if s.exmem.sc || s.exmem.rmw then none
  else resvOf s

def archRegs : Regs :=
  (s.regs.write s.memwb.regWrite s.memwb.rd s.memwb.data).write
    s.exmem.regWrite s.exmem.rd (drainValue s m)

end drain

def accepted (c : Cfg) (s : State) (i : Input) : List PortWrite :=
  if dReq c s i && i.dReady && dWe c s != 0#4 then [⟨dAddr c s, dWe c s, dWdata c s⟩] else []

section traces
variable {c : Cfg} (r : Run c)

def regOut (t : ℕ) : List RegWrite :=
  regWriteEvent (r.state t).memwb.regWrite (r.state t).memwb.rd (r.state t).memwb.data

def portOut (t : ℕ) : List PortWrite := accepted c (r.state t) (r.input t)

/-- The memory that starts as `m` and takes every accepted write. -/
def ramAt (m : Ram) (t : ℕ) : Ram := m.after (Clocked.emitted (portOut r) t)

theorem ramAt_succ (m : Ram) (t : ℕ) :
    ramAt r m (t + 1) = (ramAt r m t).after (portOut r t) := by
  rw [ramAt, Clocked.emitted_succ, Ram.after_append, ramAt]

end traces

end RiscvScratch.Unified
