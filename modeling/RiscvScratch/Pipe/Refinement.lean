import RiscvScratch.Pipe.SimulationStep
import RiscvScratch.Pipe.CpuPipe
import RiscvScratch.Pipe.CpuPipeBp

/-! Whole runs of the two pipelines against the single-cycle core. -/
namespace RiscvScratch.Pipe

def Back.regPend (b : Back) : List RegWrite :=
  b.regOut ++ regWriteEvent b.exmem.regWrite b.exmem.rd b.memwbValue

structure SpecRun (img : Imem) (a : Cpu.State) where
  spec : ℕ → Spec
  guess : ℕ → Bool × Word
  steps : ∀ t, spec (t + 1) = (spec t).step img (guess t)
  starts : Sim img (spec 0) a
  sound : ∀ t, (guess t).1 = true → isCtrl (img.fetch (spec t).front.pc) = true
  drained : (spec 0).back.regPend = [] ∧ (spec 0).back.memOut = []

namespace SpecRun
variable {img : Imem} {a : Cpu.State} (r : SpecRun img a)

def commits (t : ℕ) : Bool := (r.spec t).vIdex

def arch (t : ℕ) : Cpu.State := Clocked.committed (Cpu.step img) a r.commits t

theorem sim (t : ℕ) : Sim img (r.spec t) (r.arch t) := by
  induction t with
  | zero => exact r.starts
  | succ t ih =>
    rw [r.steps, arch, Clocked.committed_succ]
    exact ih.step (r.guess t) (r.sound t)

theorem regOut_cycle {s : Spec} {a : Cpu.State} (h : Sim img s a) (guess : Bool × Word) :
    s.back.regOut ++ (s.step img guess).back.regPend =
      s.back.regPend ++ bif s.vIdex then Cpu.regOut img a else [] := by
  set x := if s.flush || s.stall then IdEx.bubble
    else s.back.decode s.front.ifidPc s.front.ifidInstr
  have hnext : (s.step img guess).back = s.back.advance x := rfl
  have hnew : regWriteEvent s.back.idex.regWrite s.back.idex.rd (s.back.advance x).memwbValue =
      bif s.vIdex then Cpu.regOut img a else [] := by
    cases hv : s.vIdex
    · cases hw : s.back.idex.regWrite
      · simp [regWriteEvent]
      · simp [regWriteEvent, (h.idexInert hv).rd hw]
    · rw [h.wbData_eq hv, h.idex hv]
      rfl
  rw [hnext, ← hnew, Back.regPend, Back.regPend, List.append_assoc]
  rfl

theorem memOut_cycle {s : Spec} {a : Cpu.State} (h : Sim img s a) (guess : Bool × Word) :
    (s.step img guess).back.memOut = bif s.vIdex then Cpu.memOut img a else [] := by
  change memWriteEvent s.back.idex.memWrite s.back.aluResult s.back.opB s.back.idex.funct3 = _
  cases hv : s.vIdex
  · simp [memWriteEvent, (h.idexInert hv).memWrite]
  · rw [h.aluResult_eq hv, h.opB_eq hv, h.idex hv]
    rfl

theorem regs_emitsLate : Clocked.EmitsLate (Cpu.step img) (Cpu.regOut img) a r.commits
    (fun t => (r.spec t).back.regOut) (fun t => (r.spec t).back.regPend) where
  start := r.drained.1
  cycle t := by
    rw [r.steps]
    exact regOut_cycle (r.sim t) (r.guess t)

theorem mems_emitsLate : Clocked.EmitsLate (Cpu.step img) (Cpu.memOut img) a r.commits
    (fun t => (r.spec t).back.memOut) (fun t => (r.spec t).back.memOut) where
  start := r.drained.2
  cycle t := by
    rw [r.steps, memOut_cycle (r.sim t) (r.guess t)]
    rfl

theorem commits_again (n : ℕ) : ∃ t ≥ n, r.commits t = true := by
  have hrefill (t : ℕ) (h : r.commits t = false) :
      r.commits (t + 1) = (r.spec t).vIfid ∧ (r.spec (t + 1)).vIfid = true := by
    have hi := (r.sim t).idexInert h
    simp [commits, r.steps, Spec.step, Spec.not_flush_of_inert hi, Spec.not_stall_of_inert hi]
  cases h0 : r.commits n
  · cases h1 : (r.spec n).vIfid
    · have h2 := hrefill n h0
      have h3 := hrefill (n + 1) (h2.1.trans h1)
      exact ⟨n + 2, by omega, h3.1.trans h2.2⟩
    · exact ⟨n + 1, by omega, (hrefill n h0).1.trans h1⟩
  · exact ⟨n, le_rfl, h0⟩

theorem regPend_drains (t : ℕ) :
    ∃ u ≥ t, ∃ n, Clocked.emitted (fun t => (r.spec t).back.regOut) u ++ (r.spec u).back.regPend <+:
      Clocked.emitted (fun t => (r.spec t).back.regOut) n := by
  refine ⟨t, le_rfl, t + 2, ?_⟩
  rw [Clocked.emitted_succ, Clocked.emitted_succ, r.steps, List.append_assoc]
  exact List.prefix_rfl

theorem memOut_drains (t : ℕ) :
    ∃ u ≥ t, ∃ n, Clocked.emitted (fun t => (r.spec t).back.memOut) u ++ (r.spec u).back.memOut <+:
      Clocked.emitted (fun t => (r.spec t).back.memOut) n := by
  refine ⟨t, le_rfl, t + 1, ?_⟩
  rw [Clocked.emitted_succ]

theorem regs_le (r r' : SpecRun img a) (n : ℕ) :
    ∃ m, Clocked.emitted (fun t => (r.spec t).back.regOut) n <+:
      Clocked.emitted (fun t => (r'.spec t).back.regOut) m := by
  obtain ⟨m, hm⟩ := r'.regs_emitsLate.complete r'.regPend_drains r'.commits_again
    (Clocked.count r.commits n)
  exact ⟨m, (r.regs_emitsLate.sound n).trans hm⟩

theorem mems_le (r r' : SpecRun img a) (n : ℕ) :
    ∃ m, Clocked.emitted (fun t => (r.spec t).back.memOut) n <+:
      Clocked.emitted (fun t => (r'.spec t).back.memOut) m := by
  obtain ⟨m, hm⟩ := r'.mems_emitsLate.complete r'.memOut_drains r'.commits_again
    (Clocked.count r.commits n)
  exact ⟨m, (r.mems_emitsLate.sound n).trans hm⟩

end SpecRun

theorem Sim.reset (img : Imem) (f : Front) (regs : Regs) (dmem : Dmem)
    (hi : f.ifidInstr = nop) :
    Sim img ⟨f, Back.reset regs dmem, false, false⟩ (Cpu.reset f.pc regs dmem) where
  regs := by simp [Cpu.reset, Back.archRegs, Back.reset, ExMem.zero, MemWb.zero]
  dmem := by simp [Cpu.reset, Back.archMem, Back.reset, ExMem.zero]
  idex := by simp
  idexInert _ := IdEx.bubble_inert
  hazard := by simp
  ifid := by simp
  ifidNop _ := hi
  pc := by simp [Spec.afterIfid, Spec.afterIdex, Cpu.reset]
  guessIfid := by simp
  guessIdex := by simp

theorem Back.reset_drained (regs : Regs) (dmem : Dmem) :
    (Back.reset regs dmem).regPend = [] ∧ (Back.reset regs dmem).memOut = [] := by
  simp [Back.reset, Back.regPend, Back.regOut, Back.memOut, regWriteEvent, memWriteEvent,
    ExMem.zero, MemWb.zero]

end RiscvScratch.Pipe

namespace RiscvScratch.CpuPipe
open Pipe

/-- `cpu_pipe` as a speculating pipeline that always guesses "not taken". -/
def front (s : State) : Front := ⟨s.pc, s.ifidPc, s.ifidInstr, false, 0#32, false, 0#32⟩

def ghost (img : Imem) (s : State) : ℕ → Spec
  | 0 => ⟨front s, s.back, false, false⟩
  | t + 1 => (ghost img s t).step img (false, 0#32)

structure Tracks (p : Spec) (s : State) : Prop where
  front : p.front = front s
  back : p.back = s.back

variable {p : Spec} {s : State}

theorem Tracks.flush (h : Tracks p s) : p.flush = flush s := by
  have hpred : p.front.idexPredTaken = false := by rw [h.front]; rfl
  cases ht : s.back.exTaken
  · simp [Spec.flush, CpuPipe.flush, h.back, hpred, ht]
  · have hc : p.exIsCtrl = true := by
      simp only [Back.exTaken, Bool.or_eq_true, Bool.and_eq_true] at ht
      rcases ht with ht | ht <;> simp [Spec.exIsCtrl, h.back, ht]
    simp [Spec.flush, CpuPipe.flush, h.back, hpred, ht, hc]

theorem Tracks.stall (h : Tracks p s) : p.stall = stall s := by
  have hi : p.front.ifidInstr = s.ifidInstr := by rw [h.front]; rfl
  simp [Spec.stall, CpuPipe.stall, h.flush, h.back, hi]

theorem Tracks.step (h : Tracks p s) (img : Imem) :
    Tracks (p.step img (false, 0#32)) (step img s) where
  front := by
    simp only [Spec.step, h.flush, h.stall, h.front, h.back]
    cases hf : CpuPipe.flush s <;> cases hs : CpuPipe.stall s <;>
      simp_all [CpuPipe.front, CpuPipe.step, nextPc, predNext, CpuPipe.flush]
  back := by
    simp only [Spec.step, h.flush, h.stall, h.front, h.back]
    rfl

theorem ghost_tracks (img : Imem) (s : State) (t : ℕ) :
    Tracks (ghost img s t) ((CpuPipe.step img)^[t] s) := by
  induction t with
  | zero => exact ⟨rfl, rfl⟩
  | succ t ih =>
    rw [ghost, Function.iterate_succ_apply']
    exact ih.step img

def specRun (img : Imem) (resetPc : Word) (regs : Regs) (dmem : Dmem) :
    SpecRun img (Cpu.reset resetPc regs dmem) where
  spec := ghost img (reset resetPc regs dmem)
  guess _ := (false, 0#32)
  steps _ := rfl
  starts := Sim.reset img (front (reset resetPc regs dmem)) regs dmem rfl
  sound _ h := absurd h (by simp)
  drained := Back.reset_drained regs dmem

section traces
variable (img : Imem) (resetPc : Word) (regs : Regs) (dmem : Dmem)

theorem regTrace_eq : regTrace img (reset resetPc regs dmem) =
    Clocked.emitted (fun t => ((specRun img resetPc regs dmem).spec t).back.regOut) := by
  funext n
  simp only [regTrace, specRun, (ghost_tracks img (reset resetPc regs dmem) _).back]

theorem memTrace_eq : memTrace img (reset resetPc regs dmem) =
    Clocked.emitted (fun t => ((specRun img resetPc regs dmem).spec t).back.memOut) := by
  funext n
  simp only [memTrace, specRun, (ghost_tracks img (reset resetPc regs dmem) _).back]

end traces

/-- The five-stage pipeline refines the single-cycle core, for every image, register file,
data memory and reset PC. -/
theorem refines_cpu (img : Imem) (resetPc : Word) (regs : Regs) (dmem : Dmem) :
    (∀ n, ∃ k, regTrace img (reset resetPc regs dmem) n <+:
        Cpu.regTrace img (Cpu.reset resetPc regs dmem) k ∧
      memTrace img (reset resetPc regs dmem) n <+:
        Cpu.memTrace img (Cpu.reset resetPc regs dmem) k) ∧
    (∀ k, ∃ n, Cpu.regTrace img (Cpu.reset resetPc regs dmem) k <+:
        regTrace img (reset resetPc regs dmem) n) ∧
    (∀ k, ∃ n, Cpu.memTrace img (Cpu.reset resetPc regs dmem) k <+:
        memTrace img (reset resetPc regs dmem) n) := by
  set r := specRun img resetPc regs dmem
  rw [regTrace_eq, memTrace_eq]
  refine ⟨fun n => ⟨_, r.regs_emitsLate.sound n, r.mems_emitsLate.sound n⟩,
    fun k => ?_, fun k => ?_⟩
  · exact r.regs_emitsLate.complete r.regPend_drains r.commits_again k
  · exact r.mems_emitsLate.complete r.memOut_drains r.commits_again k

end RiscvScratch.CpuPipe
