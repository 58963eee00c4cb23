import RiscvScratch.Pipe.Cpu
import RiscvScratch.Trap.Refinement

/-!
Plain programs: what neither traps nor looks at a CSR, an atomic or an interrupt runs on the cores
with traps as it runs on `cpu`.
-/
namespace RiscvScratch
open Sys

/-- A known instruction, neither SYSTEM nor atomic. -/
structure Plain (w : Word) : Prop where
  known : opKnown w = true
  system : isSystem w = false
  amo : opcodeOf w ≠ opAmo

/-- The state of `cpu` on `cpu_core`, with the CSRs as after reset. -/
def Cpu.State.onCore (v : Word) (a : Cpu.State) : CpuCore.State Dmem :=
  CpuCore.reset a.pc v a.regs a.dmem

namespace CpuCore
variable {img : Imem} {a : Cpu.State} {v : Word}

section step
variable (h : Plain (img.fetch a.pc)) (timer : Bool)
include h

theorem plain_takeTrap : takeTrap img.fetch timer (a.onCore v) = false := by
  have hinstr : instr img.fetch (a.onCore v) = img.fetch a.pc := rfl
  have hirq : irqPending timer (a.onCore v) = false := by
    simp [irqPending, Zicsr.irqPending, Cpu.State.onCore, reset, Zicsr.reset]
  simp [takeTrap, hirq, exception, illegalInstr, privViolation, hinstr, h.known, isEcall, isEbreak,
    isMret, isCsr, h.system]

theorem plain_decode : isCsr (instr img.fetch (a.onCore v)) = false ∧
    isMret (instr img.fetch (a.onCore v)) = false ∧
    isAmoOp img.fetch (a.onCore v) = false := by
  have hinstr : instr img.fetch (a.onCore v) = img.fetch a.pc := rfl
  simp [isAmoOp, hinstr, isCsr, isMret, h.system, h.amo]

theorem plain_regOut : regOut img.fetch CpuPipeTrap.ramBus timer (a.onCore v) =
    Cpu.regOut img a := by
  obtain ⟨hcsr, hmret, hamo⟩ := plain_decode (v := v) h
  simp only [regOut, regWriteEff, wbFinal, wbData, memRdata, dmemAddr, dmemFunct3, isSc, hcsr, hamo,
    plain_takeTrap h timer, Bool.false_and, Bool.false_eq_true, if_false]
  rfl

theorem plain_memOut : memOut img.fetch CpuPipeTrap.ramBus timer (a.onCore v) =
    Cpu.memOut img a := by
  obtain ⟨hcsr, hmret, hamo⟩ := plain_decode (v := v) h
  simp only [memOut, dmemWe, amoStore, dmemAddr, dmemWdata, dmemFunct3, isAmoRmw, isSc, hamo,
    plain_takeTrap h timer, Bool.false_and, Bool.or_false, Bool.false_eq_true, if_false]
  rfl

theorem plain_step : step img.fetch CpuPipeTrap.ramBus timer (a.onCore v) =
    (Cpu.step img a).onCore v := by
  obtain ⟨hcsr, hmret, hamo⟩ := plain_decode (v := v) h
  have htrap := plain_takeTrap (v := v) h timer
  simp only [step, nextPc, regWriteEff, wbFinal, wbData, memRdata, dmemWe, amoStore, dmemAddr,
    dmemWdata, dmemFunct3, isLr, isSc, isAmoRmw, csrCommand, Zicsr.step, hcsr, hmret, hamo, htrap,
    Bool.false_and, Bool.and_false, Bool.or_false, Bool.false_eq_true, if_false]
  rfl

end step

theorem plain_run (h : ∀ pc, Plain (img.fetch pc)) (timer : ℕ → Bool) (k : ℕ) :
    run img.fetch CpuPipeTrap.ramBus timer (a.onCore v) k =
      ((Cpu.step img)^[k] a).onCore v := by
  induction k with
  | zero => rfl
  | succ k ih =>
    rw [run, ih, plain_step (h _), Function.iterate_succ_apply']

end CpuCore

theorem Plain.keeps {w : Word} (h : Plain w) : CpuPipeTrap.Keeps w :=
  ⟨by simp [isMret, h.system], fun hcsr => by simp [isCsr, h.system] at hcsr⟩

namespace CpuPipeTrap

/-- `cpu` after its reset, on the same registers and memory. -/
def cpuReset {img : Imem} {resetPc : Word} (r : Run img.fetch ramBus resetPc) : Cpu.State :=
  Cpu.reset resetPc (r.state 0).regs (r.state 0).mem

/-- Whatever the timer does, the trapping pipeline writes on a plain program what `cpu` writes,
withholds none of it and never traps. -/
theorem plain_runs_as_cpu (img : Imem) (resetPc : Word) (r : Run img.fetch ramBus resetPc)
    (h : ∀ pc, Plain (img.fetch pc)) :
    (∀ n, ∃ k, regTrace r n <+: Cpu.regTrace img (cpuReset r) k ∧
        memTrace r n <+: Cpu.memTrace img (cpuReset r) k ∧ trapTrace r n = []) ∧
      (∀ k, ∃ n, Cpu.regTrace img (cpuReset r) k <+: regTrace r n) ∧
      ∀ k, ∃ n, Cpu.memTrace img (cpuReset r) k <+: memTrace r n := by
  have hamo (pc : Word) := (h pc).amo
  have hc := run_covered r fun pc => (h pc).keeps
  have hrun (k : ℕ) : CpuCore.run img.fetch ramBus (timerSeq r) (coreReset r 0#32) k =
      ((Cpu.step img)^[k] (cpuReset r)).onCore 0#32 := CpuCore.plain_run (a := cpuReset r) h _ k
  have hregs := regs_trail 0#32 hamo hc
  have hmems := mems_trail 0#32 hamo hc
  have htraps := traps_trail 0#32 hamo hc
  simp only [hrun, CpuCore.plain_regOut (h _), CpuCore.plain_memOut (h _), CpuCore.trapOut,
    CpuCore.plain_takeTrap (h _)] at hregs hmems htraps
  have hnone (k : ℕ) : Clocked.emitted (fun _ : ℕ => ([] : List TrapEvent)) k = [] := by
    simp [Clocked.emitted]
  have hlive := commits_again hamo hc
  refine ⟨fun n => ⟨_, hregs.sound n, hmems.sound n, ?_⟩, ?_, ?_⟩
  · exact List.prefix_nil.mp (hnone _ ▸ htraps.sound n)
  · refine hregs.complete (fun t => ⟨t, le_rfl, t + 2, ?_⟩) hlive
    rw [Clocked.emitted_succ, Clocked.emitted_succ, List.append_assoc,
      show r.state (t + 1) = step ramBus (r.input t) (r.state t) img.fetch from r.steps t]
    exact List.prefix_rfl
  · refine hmems.complete (fun t => ⟨t, le_rfl, t + 1, ?_⟩) hlive
    rw [Clocked.emitted_succ]

/-- `addi x1, x1, 1` everywhere. -/
def tally : Imem := fun _ => 0x00108093#32

theorem tally_starts : (machine tally.fetch ramBus 0#32).init
    (reset 0#32 (fun _ => 0#32) fun _ => 0#8) := ⟨_, _, rfl⟩

def tallyRun : Run tally.fetch ramBus 0#32 :=
  (machine tally.fetch ramBus 0#32).runOf (fun _ _ => true) _ tally_starts

/-- The timer line is high all the time. -/
theorem tally_untrapped : trapTrace tallyRun 12 = [] :=
  let h := plain_runs_as_cpu tally 0#32 tallyRun fun _ =>
    (⟨by decide, by decide, by decide⟩ : Plain 0x00108093#32)
  (h.1 12).choose_spec.2.2

end CpuPipeTrap

end RiscvScratch
