import RiscvScratch.Clocked.Refinement
import RiscvScratch.Trap.Simulation

/-! Whole runs of the trapping pipeline against the single-cycle core, which sees the timer level
that EX acted on. -/
namespace RiscvScratch.CpuPipeTrap
open Sys
variable {μ : Type*} {fetch : Word → Word} {bus : Bus μ} {resetPc : Word}

def regPend (bus : Bus μ) (s : State μ) : List RegWrite :=
  regOut s ++ regWriteEvent s.exmem.regWrite s.exmem.rd (memwbValue bus s)

section cycle
variable {s : State μ} {a : CpuCore.State μ} {irq : Bool}

section
variable (h : Sim fetch bus s a) (hamo : ∀ pc, opcodeOf (fetch pc) ≠ opAmo)
include h hamo

theorem regOut_cycle (hc : Covered irq s) :
    regOut s ++ regPend bus (step bus irq s fetch) =
      regPend bus s ++ bif s.sys.valid then CpuCore.regOut fetch bus (irqTake irq s) a else [] := by
  have hnew : regWriteEvent (exRegWrite irq s) s.idex.rd (memwbValue bus (step bus irq s fetch)) =
      bif s.sys.valid then CpuCore.regOut fetch bus (irqTake irq s) a else [] := by
    cases hv : s.sys.valid with
    | false =>
      cases hw : exRegWrite irq s with
      | false => simp [regWriteEvent]
      | true => simp [regWriteEvent, h.filler_rd hv hw]
    | true =>
      have hrd : rdOf (CpuCore.instr fetch a) = s.idex.rd := by rw [h.idex hv]; rfl
      rw [cond_true, CpuCore.regOut, h.regWrite_eq hv (hamo _), hrd]
      cases ht : takeTrap irq s with
      | true => simp [exRegWrite, exSquash, ht, regWriteEvent]
      | false => exact regWriteEvent_congr _ (h.wb_eq hv (hamo _) hc.mip ht)
  rw [← hnew, regPend, regPend, List.append_assoc]
  rfl

theorem memOut_cycle : memOut (step bus irq s fetch) =
      bif s.sys.valid then CpuCore.memOut fetch bus (irqTake irq s) a else [] := by
  change memWriteEvent (exMemWrite irq s) (aluResult s) (opB s) s.idex.funct3 = _
  cases hv : s.sys.valid with
  | false => simp [memWriteEvent, exMemWrite, (h.inert hv).memWrite]
  | true =>
    obtain ⟨h1, h2, h3⟩ := h.bus_eq hv (hamo _)
    rw [cond_true, CpuCore.memOut, h.memWrite_eq hv (hamo _), h1, h2, h3]

theorem trapOut_cycle :
    trapOut irq s = bif s.sys.valid then CpuCore.trapOut fetch (irqTake irq s) a else [] := by
  cases hv : s.sys.valid with
  | false => simp [trapOut, trapEvent, (takeTrap_filler hv).1]
  | true =>
    have hpc : s.idex.pc = a.pc := by rw [h.idex hv]; rfl
    rw [cond_true, trapOut, CpuCore.trapOut, h.takeTrap_eq hv (hamo _),
      h.trapCause_eq hv (hamo _), hpc]

end

end cycle

section run
variable (r : Run fetch bus resetPc) (resvAddr : Word)

def commits (t : ℕ) : Bool := (r.state t).sys.valid

noncomputable def timerSeq : ℕ → Bool :=
  Clocked.sampled (commits r) fun t => irqTake (r.input t) (r.state t)

def coreReset : CpuCore.State μ :=
  CpuCore.reset resetPc resvAddr (r.state 0).regs (r.state 0).mem

/-- Where the single-cycle core stands when EX has let the instructions before `t` go. -/
noncomputable def arch (t : ℕ) : CpuCore.State μ :=
  CpuCore.run fetch bus (timerSeq r) (coreReset r resvAddr) (Clocked.count (commits r) t)

variable {r}

theorem timerSeq_count {t : ℕ} (h : (r.state t).sys.valid = true) :
    timerSeq r (Clocked.count (commits r) t) = irqTake (r.input t) (r.state t) :=
  Clocked.sampled_count h

theorem arch_succ (t : ℕ) : arch r resvAddr (t + 1) =
    commitStep fetch bus (r.input t) (r.state t) (arch r resvAddr t) := by
  rw [arch, commitStep, Clocked.count, commits]
  cases hv : (r.state t).sys.valid with
  | false => rfl
  | true =>
    rw [cond_true, ← timerSeq_count hv]
    rfl

theorem reset_drained : regPend bus (r.state 0) = [] ∧ memOut (r.state 0) = [] := by
  obtain ⟨regs, mem, hs⟩ := r.starts
  rw [hs]
  simp [regPend, regOut, memOut, reset, regWriteEvent, memWriteEvent, Pipe.ExMem.zero,
    Pipe.MemWb.zero]

theorem trails_of {ε : Type*} {aout : Bool → CpuCore.State μ → List ε} {out pend : ℕ → List ε}
    (h0 : pend 0 = [])
    (hcyc : ∀ t, out t ++ pend (t + 1) = pend t ++ bif (r.state t).sys.valid then
      aout (irqTake (r.input t) (r.state t)) (arch r resvAddr t) else []) :
    Clocked.Trails (fun j => aout (timerSeq r j)
      (CpuCore.run fetch bus (timerSeq r) (coreReset r resvAddr) j)) (commits r) out pend := by
  refine ⟨h0, fun t => ?_⟩
  rw [hcyc]
  cases hv : (r.state t).sys.valid with
  | false => simp [commits, hv]
  | true => rw [← timerSeq_count hv, commits, hv]; rfl

variable (hamo : ∀ pc, opcodeOf (fetch pc) ≠ opAmo)
  (hc : ∀ t, Covered (r.input t) (r.state t))
include hamo hc

theorem run_sim (t : ℕ) : Sim fetch bus (r.state t) (arch r resvAddr t) := by
  induction t with
  | zero =>
    obtain ⟨regs, mem, hs⟩ := r.starts
    have h0 : arch r resvAddr 0 = CpuCore.reset resetPc resvAddr regs mem := by
      change coreReset r resvAddr = _
      rw [coreReset, hs]
      rfl
    rw [h0, hs]
    exact Sim.reset fetch bus resetPc resvAddr regs mem
  | succ t ih =>
    rw [r.steps, arch_succ]
    exact ih.step hamo (hc t)

theorem commits_again (n : ℕ) : ∃ t ≥ n, commits r t = true := by
  have hrefill (t : ℕ) (h : commits r t = false) :
      commits r (t + 1) = (r.state t).ifidValid ∧ (r.state (t + 1)).ifidValid = true := by
    have hi := (run_sim 0#32 hamo hc t).inert h
    have hf : flush (r.input t) (r.state t) = false := (takeTrap_filler h).2
    have hs : stall (r.input t) (r.state t) = false := by
      simp [stall, loadUse, Pipe.Back.loadUse, stages, hi.memRead]
    have hst : r.state (t + 1) = step bus (r.input t) (r.state t) fetch := r.steps t
    simp [commits, hst, step, bubble, hf, hs, decodeSys]
  cases h0 : commits r n with
  | true => exact ⟨n, le_rfl, h0⟩
  | false =>
    cases h1 : (r.state n).ifidValid with
    | true => exact ⟨n + 1, by omega, (hrefill n h0).1.trans h1⟩
    | false =>
      have h2 := hrefill n h0
      have h3 := hrefill (n + 1) (h2.1.trans h1)
      exact ⟨n + 2, by omega, h3.1.trans h2.2⟩

theorem regs_trail : Clocked.Trails (fun j => CpuCore.regOut fetch bus (timerSeq r j)
    (CpuCore.run fetch bus (timerSeq r) (coreReset r resvAddr) j)) (commits r)
    (fun t => regOut (r.state t)) (fun t => regPend bus (r.state t)) := by
  refine trails_of resvAddr reset_drained.1 fun t => ?_
  rw [show r.state (t + 1) = step bus (r.input t) (r.state t) fetch from r.steps t]
  exact regOut_cycle (run_sim resvAddr hamo hc t) hamo (hc t)

theorem mems_trail : Clocked.Trails (fun j => CpuCore.memOut fetch bus (timerSeq r j)
    (CpuCore.run fetch bus (timerSeq r) (coreReset r resvAddr) j)) (commits r)
    (fun t => memOut (r.state t)) (fun t => memOut (r.state t)) := by
  refine trails_of resvAddr reset_drained.2 fun t => ?_
  rw [show r.state (t + 1) = step bus (r.input t) (r.state t) fetch from r.steps t,
    memOut_cycle (run_sim resvAddr hamo hc t) hamo]

theorem traps_trail : Clocked.Trails (fun j => CpuCore.trapOut fetch (timerSeq r j)
    (CpuCore.run fetch bus (timerSeq r) (coreReset r resvAddr) j)) (commits r)
    (fun t => trapOut (r.input t) (r.state t)) (fun _ => []) := by
  refine trails_of resvAddr rfl fun t => ?_
  rw [List.append_nil, List.nil_append]
  exact trapOut_cycle (run_sim resvAddr hamo hc t) hamo

end run

/-- The pipeline's writes and traps are a prefix of those of the single-cycle core at every cycle,
and none is withheld. -/
structure Refines (r : Run fetch bus resetPc) (timer : ℕ → Bool) (a : CpuCore.State μ) :
    Prop where
  sound : ∀ n, ∃ k, regTrace r n <+: CpuCore.regTrace fetch bus timer a k ∧
    memTrace r n <+: CpuCore.memTrace fetch bus timer a k ∧
    trapTrace r n <+: CpuCore.trapTrace fetch bus timer a k
  regs : ∀ k, ∃ n, CpuCore.regTrace fetch bus timer a k <+: regTrace r n
  mems : ∀ k, ∃ n, CpuCore.memTrace fetch bus timer a k <+: memTrace r n
  traps : ∀ k, ∃ n, CpuCore.trapTrace fetch bus timer a k <+: trapTrace r n

/-- Precise traps, for every image without atomics, if every `mret` returns to M-mode and no
instruction delivers `mip`. -/
theorem refines_cpuCore {μ : Type*} (fetch : Word → Word) (bus : Bus μ) (resetPc resvAddr : Word)
    (r : Run fetch bus resetPc) (hamo : ∀ pc, opcodeOf (fetch pc) ≠ opAmo)
    (hc : ∀ t, Covered (r.input t) (r.state t)) :
    ∃ timer : ℕ → Bool, Refines r timer (coreReset r resvAddr) := by
  have hlive := commits_again hamo hc
  refine ⟨timerSeq r, fun n => ⟨_, (regs_trail resvAddr hamo hc).sound n,
    (mems_trail resvAddr hamo hc).sound n, (traps_trail resvAddr hamo hc).sound n⟩, ?_, ?_, ?_⟩
  · refine (regs_trail resvAddr hamo hc).complete (fun t => ⟨t, le_rfl, t + 2, ?_⟩) hlive
    rw [Clocked.emitted_succ, Clocked.emitted_succ, List.append_assoc,
      show r.state (t + 1) = step bus (r.input t) (r.state t) fetch from r.steps t]
    exact List.prefix_rfl
  · refine (mems_trail resvAddr hamo hc).complete (fun t => ⟨t, le_rfl, t + 1, ?_⟩) hlive
    rw [Clocked.emitted_succ]
  · exact (traps_trail resvAddr hamo hc).complete (fun t => ⟨t, le_rfl, t, by simp⟩) hlive

/-- The word is no `mret` and does not deliver `mip`. -/
structure Keeps (w : Word) : Prop where
  mret : isMret w = false
  mip : isCsr w = true → csrAddr w = Csr.mipA → rdOf w = 0#5

theorem nop_keeps : Keeps nop := ⟨by decide, fun h => absurd h (by decide)⟩

structure AllKeep (s : State μ) : Prop where
  ifid : Keeps s.ifidInstr
  mret : s.sys.isMret = false
  mip : s.sys.isCsr = true → s.sys.csrAddr = Csr.mipA → s.idex.rd = 0#5

theorem AllKeep.covered {s : State μ} (h : AllKeep s) (irq : Bool) : Covered irq s := by
  constructor
  · simp [mretEx, h.mret]
  · by_contra hx
    simp only [readsMip, csrCommit, Bool.not_eq_false, Bool.and_eq_true, beq_iff_eq,
      bne_iff_ne] at hx
    exact hx.2 (h.mip hx.1.1.1.2 hx.1.2)

theorem AllKeep.step {s : State μ} (h : AllKeep s) (hw : ∀ pc, Keeps (fetch pc)) (irq : Bool) :
    AllKeep (step bus irq s fetch) := by
  have hifid : Keeps (CpuPipeTrap.step bus irq s fetch).ifidInstr := by
    simp only [CpuPipeTrap.step]
    split_ifs
    · exact nop_keeps
    · exact h.ifid
    · exact hw _
  cases hb : bubble irq s with
  | true => exact ⟨hifid, by simp [CpuPipeTrap.step, hb, SysEx.bubble],
      by simp [CpuPipeTrap.step, hb, SysEx.bubble]⟩
  | false =>
    refine ⟨hifid, ?_, ?_⟩
    · simpa [CpuPipeTrap.step, hb, decodeSys] using h.ifid.mret
    · simpa [CpuPipeTrap.step, hb, decodeSys, Pipe.Back.decode] using h.ifid.mip

theorem run_covered (r : Run fetch bus resetPc) (hw : ∀ pc, Keeps (fetch pc)) (t : ℕ) :
    Covered (r.input t) (r.state t) := by
  suffices hk : AllKeep (r.state t) from hk.covered _
  refine r.invariant (fun _ => True) AllKeep ?_ (fun s irq _ h => h.step hw irq)
    (fun _ => trivial) t
  rintro s ⟨regs, mem, rfl⟩
  exact ⟨nop_keeps, rfl, fun h => absurd h (by simp [reset, SysEx.bubble])⟩

def ramBus : Bus Dmem := ⟨Dmem.read, fun m addr wdata f3 => m.write true addr wdata f3⟩

def timerImage (pc : Word) : Word :=
  match pc with
  | 0x00#32 => 0x08000093#32 -- addi x1, x0, 0x80
  | 0x04#32 => 0x30409073#32 -- csrw mie, x1
  | 0x08#32 => 0x04000113#32 -- addi x2, x0, 0x40
  | 0x0C#32 => 0x30511073#32 -- csrw mtvec, x2
  | 0x10#32 => 0x30045073#32 -- csrwi mstatus, 8
  | 0x14#32 => 0x00102023#32 -- sw x1, 0(x0)
  | _ => 0x00118193#32 -- addi x3, x3, 1

def timerRun : Run timerImage ramBus 0#32 :=
  (machine timerImage ramBus 0#32).runOf (fun t _ => decide (9 ≤ t))
    (reset 0#32 (fun _ => 0#32) fun _ => 0#8) ⟨_, _, rfl⟩

def timerWords : List Word :=
  [0x08000093#32, 0x30409073#32, 0x04000113#32, 0x30511073#32, 0x30045073#32, 0x00102023#32,
    0x00118193#32]

theorem timerImage_mem (pc : Word) : timerImage pc ∈ timerWords := by
  unfold timerImage
  split <;> simp [timerWords]

theorem timerWords_plain (w : Word) (h : w ∈ timerWords) :
    opcodeOf w ≠ opAmo ∧ isMret w = false ∧ csrAddr w ≠ Csr.mipA := by
  fin_cases h <;> decide

/-- The interrupt is taken on the counting instruction at `0x1C`, and only there. -/
theorem timerRun_refines : trapTrace timerRun 12 = [⟨0x1C#32, 0x80000007#32⟩] ∧
      ∃ timer, Refines timerRun timer (coreReset timerRun 0#32) := by
  have hplain (pc : Word) := timerWords_plain _ (timerImage_mem pc)
  have hkeeps (pc : Word) : Keeps (timerImage pc) :=
    ⟨(hplain pc).2.1, fun _ hm => absurd hm (hplain pc).2.2⟩
  exact ⟨by decide +kernel, refines_cpuCore timerImage ramBus 0#32 0#32 timerRun
    (fun pc => (hplain pc).1) (run_covered timerRun hkeeps)⟩

end RiscvScratch.CpuPipeTrap
