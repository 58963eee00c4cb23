import RiscvScratch.Boot.Soc
import RiscvScratch.Unified.Bench

/-! The platform with a memory of fixed latency on its line port, for concrete runs. -/
namespace RiscvScratch.Boot

open Cache

def Params.std : Params where
  romWords := 4096
  ramWords := 65536
  tlbEntries := 4
  bpred := true
  vExt := false
  svade := true
  wordBits := 3
  iBits := 6
  dBits := 6
  tlbPos := by decide
  romFits := by decide
  ramFits := by decide

structure Rig where
  soc : State
  mem : MainMemory
  wait : ℕ

variable (p : Params)

namespace Rig
variable (x : Rig)

/-- Block RAM behind `oz_burst_mem`: a cycle for each of eight words and one at each end; a read
also waits for the output register. -/
def done : Bool := lmReq x.soc && x.wait == if lmWe x.soc then 9 else 10

def input : Input :=
  ⟨false, 0#64, false, false, 0#32, x.done, x.mem.readLine p.dg (lmAddr p x.soc)⟩

def next : Rig where
  soc := step p x.soc (x.input p)
  mem := if x.done && lmWe x.soc && !p.inRom (lmAddr p x.soc) then
      x.mem.writeLine p.dg (lmAddr p x.soc) (lmWdata p x.soc (x.input p))
    else x.mem
  wait := if lmReq x.soc && !x.done then x.wait + 1 else 0

end Rig

def powerOn : State where
  core := Unified.reset p.cfg (Unified.blank p.cfg)
  ic := Icache.reset (fun _ => 0) (fun _ _ => 0#32)
  dc := Dcache.reset (fun _ => 0) (fun _ _ => 0#32)
  owner := .none
  fiDone := false
  halt := false
  wrst := 0#3

def settled {α : Type} {n : ℕ} (w : BitVec n) (k : BitVec n → α) : α :=
  match w.toNat with
  | 0 => k 0#n
  | m + 1 => k (BitVec.ofNat n (m + 1))

theorem settled_eq {α : Type} {n : ℕ} (w : BitVec n) (k : BitVec n → α) : settled w k = k w := by
  unfold settled
  split <;> rename_i h
  · rw [show w = 0#n from BitVec.eq_of_toNat_eq (by simp [h])]
  · rw [← Nat.succ_eq_add_one, ← h, BitVec.ofNat_toNat, BitVec.setWidth_eq]

/-- The same cycle with the values that index an array settled, which keeps long runs cheap to
evaluate. -/
def Rig.advance (x : Rig) : Rig :=
  settled (daddr p x.soc) fun a =>
  let y := x.next p
  settled y.soc.core.pc fun pc =>
  settled y.soc.core.ifid.instr fun instr =>
  settled y.soc.core.memwb.rd fun rd =>
  settled y.soc.core.memwb.data fun data =>
  settled y.soc.core.csr.satp fun satp =>
  settled y.soc.core.ptw.va fun va =>
  settled y.soc.core.ptw.l0Ppn fun l0Ppn =>
  settled y.soc.ic.missAddr fun missAddr =>
    { y with
      soc := { y.soc with
        core := { y.soc.core with
          pc := pc
          ifid := { y.soc.core.ifid with instr := instr }
          memwb := { y.soc.core.memwb with rd := rd, data := data }
          csr := { y.soc.core.csr with satp := satp }
          ptw := { y.soc.core.ptw with va := va, l0Ppn := l0Ppn } }
        ic := { y.soc.ic with missAddr := missAddr }
        dc := if x.soc.wrst != 0#3 then y.soc.dc
          else Dcache.step p.dg x.soc.dc { dcInput p x.soc (x.input p) with addr := a } } }

theorem Rig.advance_eq (x : Rig) : x.advance p = x.next p := by
  have hdc : (if x.soc.wrst != 0#3 then (x.next p).soc.dc
      else Dcache.step p.dg x.soc.dc (dcInput p x.soc (x.input p))) = (x.next p).soc.dc := by
    cases h : x.soc.wrst != 0#3 <;> simp [Rig.next, step, run, h]
  simp only [Rig.advance, settled_eq]
  exact congrArg (fun d => { x.next p with soc := { (x.next p).soc with dc := d } }) hdc

def rig (mem : MainMemory) : ℕ → Rig
  | 0 => ⟨powerOn p, mem, 0⟩
  | t + 1 => (rig mem t).advance p

theorem rig_succ (mem : MainMemory) (t : ℕ) : rig p mem (t + 1) = (rig p mem t).next p :=
  Rig.advance_eq p _

def rigRun (mem : MainMemory) : Run p where
  state t := (rig p mem t).soc
  input t := (rig p mem t).input p
  starts := ⟨⟨_, rfl⟩, ⟨_, _, rfl⟩, ⟨_, _, rfl⟩, rfl, rfl, rfl, rfl⟩
  steps t := by rw [rig_succ]; rfl

end RiscvScratch.Boot
