import RiscvScratch.Clocked.Refinement
import RiscvScratch.Debug.CpuCoreDbg

/-! The debug hooks do not change what the core executes, under commands that write no register and
no program counter and touch no memory. -/
namespace RiscvScratch.DebugSoc

variable {μ : Type*} {fetch : Word → Word} {bus : Bus μ} {nbp : ℕ} {resetPc : Word}
  {s : State μ} {i : Input}

/-- An access that leaves registers, program counter and memory alone. -/
structure Passive (d : Dmi) : Prop where
  noReg : DebugModule.dbgRegWe d = false
  noPc : DebugModule.dbgPcWe d = false
  noMem : DebugModule.dmMemReq d = false

instance (d : Dmi) : Decidable (Passive d) :=
  decidable_of_iff (DebugModule.dbgRegWe d = false ∧ DebugModule.dbgPcWe d = false ∧
    DebugModule.dmMemReq d = false) ⟨fun h => ⟨h.1, h.2.1, h.2.2⟩, fun h => ⟨h.1, h.2, h.3⟩⟩

def arch (s : State μ) : CpuCore.State μ := s.cpu.core

theorem Passive.coreBus (h : Passive i.dmi) : coreBus bus s i = bus := by
  unfold DebugSoc.coreBus
  simp [h.noMem]

theorem Passive.dmMemWe (h : Passive i.dmi) : DebugModule.dmMemWe i.dmi = false := by
  have hm := h.noMem
  unfold DebugModule.dmMemReq at hm
  unfold DebugModule.dmMemWe DebugModule.wr
  cases hs : i.dmi.sel with
  | false => rfl
  | true =>
    rw [hs, Bool.true_and] at hm
    rw [hm, Bool.and_false]

theorem Passive.arch_step (h : Passive i.dmi) :
    arch (step fetch bus nbp s i) =
      (CpuCoreDbg.step fetch bus i.timer (hooks s i) s.cpu).core := by
  unfold arch step cpuStep Bus.writeIf
  rw [h.coreBus, h.dmMemWe]
  rfl

theorem not_halted_of_commits (hc : commits s i = true) : s.cpu.halted = false := by
  simp only [commits, CpuCoreDbg.run, Bool.and_eq_true, Bool.not_eq_true'] at hc
  exact hc.1

theorem Passive.step_commits (h : Passive i.dmi) (hc : commits s i = true) :
    arch (step fetch bus nbp s i) = CpuCore.step fetch bus i.timer (arch s) := by
  have hrun : CpuCoreDbg.run (hooks s i) s.cpu = true := hc
  have hh := not_halted_of_commits hc
  have hpc : (hooks s i).pcWe = false := h.noPc
  have htrap : CpuCoreDbg.takeTrap fetch i.timer (hooks s i) s.cpu =
      CpuCore.takeTrap fetch i.timer s.cpu.core := by
    rw [CpuCoreDbg.takeTrap, hrun, Bool.true_and]
  rw [h.arch_step, CpuCoreDbg.step, CpuCore.step, arch]
  simp only [CpuCoreDbg.nextPc, CpuCore.nextPc, CpuCoreDbg.rfWe, CpuCoreDbg.rfRd, CpuCoreDbg.rfWd,
    CpuCoreDbg.regWriteEff, CpuCore.regWriteEff, CpuCoreDbg.csrCommand, CpuCore.csrCommand,
    CpuCoreDbg.dmemWe, CpuCore.dmemWe, htrap, hrun, hh, hpc, Bool.true_and, Bool.not_true,
    Bool.false_eq_true, if_true, if_false]

theorem Passive.step_stands (h : Passive i.dmi) (hc : commits s i = false) :
    arch (step fetch bus nbp s i) = arch s := by
  have hrun : CpuCoreDbg.run (hooks s i) s.cpu = false := hc
  have hpc : (hooks s i).pcWe = false := h.noPc
  have hreg : (hooks s i).regWe = false := h.noReg
  have htrap : CpuCoreDbg.takeTrap fetch i.timer (hooks s i) s.cpu = false := by
    rw [CpuCoreDbg.takeTrap, hrun, Bool.false_and]
  have hwe : CpuCoreDbg.rfWe fetch i.timer (hooks s i) s.cpu = false := by
    rw [CpuCoreDbg.rfWe, hrun, hreg, Bool.false_and, ite_self]
  have hcsr : Zicsr.step s.cpu.core.csr (CpuCoreDbg.csrCommand fetch i.timer (hooks s i) s.cpu) =
      s.cpu.core.csr := by
    apply Zicsr.step_idle
    · exact htrap
    · simp [CpuCoreDbg.csrCommand, hrun]
    · simp [CpuCoreDbg.csrCommand, hrun]
  rw [h.arch_step, CpuCoreDbg.step, arch]
  simp only [hrun, hpc, hwe, hcsr, Regs.write_false, CpuCoreDbg.dmemWe, Bus.writeIf,
    Bool.false_and, Bool.not_false, Bool.false_eq_true, if_true, if_false]

theorem commits_of_halted (hh : s.cpu.halted = true) : commits s i = false := by
  simp [commits, CpuCoreDbg.run, hh]

structure StepReady (s : State μ) : Prop where
  running : s.cpu.stepMode = true → s.cpu.halted = false
  skips : s.cpu.stepMode = true → s.cpu.skipBp = true
  noRequest : s.cpu.stepMode = true → s.dm.haltReq = false

theorem haltReq_step (s : State μ) (i : Input) :
    (step fetch bus nbp s i).dm.haltReq =
      if DebugModule.dbgStep i.dmi || DebugModule.dbgResume i.dmi then false
      else if DebugModule.wr i.dmi DebugModule.control && i.dmi.wdata.getLsbD 0 then true
      else s.dm.haltReq := by
  change (DebugModule.step nbp s.dm i.dmi).haltReq = _
  unfold DebugModule.step DebugModule.dbgStep DebugModule.dbgResume
  cases DebugModule.wr i.dmi DebugModule.control <;> cases i.dmi.wdata.getLsbD 2 <;>
    cases i.dmi.wdata.getLsbD 1 <;> cases i.dmi.wdata.getLsbD 0 <;> rfl

theorem stepMode_step (s : State μ) (i : Input) :
    (step fetch bus nbp s i).cpu.stepMode =
      if s.cpu.halted then
        if DebugModule.dbgStep i.dmi then true
        else if DebugModule.dbgResume i.dmi then false else s.cpu.stepMode
      else if commits s i && s.cpu.stepMode then false else s.cpu.stepMode := rfl

theorem halted_step (s : State μ) (i : Input) :
    (step fetch bus nbp s i).cpu.halted =
      if s.cpu.halted then !DebugModule.dbgStep i.dmi && !DebugModule.dbgResume i.dmi
      else (commits s i && s.cpu.stepMode) || CpuCoreDbg.haltNow (hooks s i) s.cpu := rfl

theorem skipBp_step (s : State μ) (i : Input) :
    (step fetch bus nbp s i).cpu.skipBp =
      (s.cpu.halted && (DebugModule.dbgStep i.dmi || DebugModule.dbgResume i.dmi)) := rfl

theorem StepReady.commits (h : StepReady s) (hm : s.cpu.stepMode = true) : commits s i = true := by
  simp [DebugSoc.commits, CpuCoreDbg.run, CpuCoreDbg.haltNow, CpuCoreDbg.bpHit, hooks,
    h.running hm, h.skips hm, h.noRequest hm]

theorem StepReady.step (h : StepReady s) : StepReady (step fetch bus nbp s i) := by
  have hmode : (DebugSoc.step fetch bus nbp s i).cpu.stepMode = true →
      s.cpu.halted = true ∧ DebugModule.dbgStep i.dmi = true := by
    rw [stepMode_step]
    cases hh : s.cpu.halted with
    | false =>
      cases hm : s.cpu.stepMode with
      | false => simp
      | true => simp [h.commits hm]
    | true =>
      have hm : s.cpu.stepMode = false := by
        by_contra hm
        rw [h.running (by simpa using hm)] at hh
        cases hh
      rw [hm]
      cases DebugModule.dbgStep i.dmi <;> simp
  constructor
  · intro hm
    obtain ⟨hh, hs⟩ := hmode hm
    rw [halted_step, hh, hs]
    rfl
  · intro hm
    obtain ⟨hh, hs⟩ := hmode hm
    rw [skipBp_step, hh, hs]
    rfl
  · intro hm
    obtain ⟨hh, hs⟩ := hmode hm
    rw [haltReq_step, hs]
    rfl

theorem run_stepReady (r : (machine fetch bus nbp resetPc).Run) (t : ℕ) :
    StepReady (r.state t) := by
  refine r.invariant (fun _ => True) StepReady ?_ (fun _ _ _ h => h.step) (fun _ => trivial) t
  rintro s ⟨resvAddr, regs, mem, rfl⟩
  constructor <;> intro h <;> cases h

theorem step_once (r : (machine fetch bus nbp resetPc).Run) {t : ℕ}
    (hh : (r.state t).cpu.halted = true) (hs : DebugModule.dbgStep (r.input t).dmi = true) :
    commits (r.state (t + 1)) (r.input (t + 1)) = true ∧ (r.state (t + 2)).cpu.halted = true := by
  have hnext : r.state (t + 1) = step fetch bus nbp (r.state t) (r.input t) := r.steps t
  have hmode : (r.state (t + 1)).cpu.stepMode = true := by
    rw [hnext, stepMode_step, hh, hs]
    rfl
  have hready := run_stepReady r (t + 1)
  have hcommit := hready.commits (i := r.input (t + 1)) hmode
  refine ⟨hcommit, ?_⟩
  have hnext' : r.state (t + 2) = step fetch bus nbp (r.state (t + 1)) (r.input (t + 1)) :=
    r.steps (t + 1)
  rw [hnext', halted_step, hready.running hmode, hcommit, hmode]
  rfl

theorem ordered_of_breakpoint (r : (machine fetch bus nbp resetPc).Run) {t : ℕ}
    (hc : commits (r.state t) (r.input t) = true)
    (hb : (r.state t).cpu.core.pc ∈ DebugModule.enabled (r.state t).dm) :
    ∃ u, t = u + 1 ∧ (r.state u).cpu.halted = true ∧
      (DebugModule.dbgStep (r.input u).dmi || DebugModule.dbgResume (r.input u).dmi) = true := by
  have hmatch := (DebugModule.bpMatch_iff _ _).mpr hb
  have hskip : (r.state t).cpu.skipBp = true := by
    by_contra hskip
    simp [commits, CpuCoreDbg.run, CpuCoreDbg.haltNow, CpuCoreDbg.bpHit, hooks, hmatch, hskip] at hc
  cases t with
  | zero =>
    obtain ⟨resvAddr, regs, mem, h0⟩ := r.starts
    rw [h0] at hskip
    cases hskip
  | succ u =>
    have hnext : r.state (u + 1) = step fetch bus nbp (r.state u) (r.input u) := r.steps u
    rw [hnext, skipBp_step, Bool.and_eq_true] at hskip
    exact ⟨u, rfl, hskip⟩

theorem Passive.silent (h : Passive i.dmi) (hc : commits s i = false) :
    regOut fetch bus s i = [] ∧ memOut fetch bus s i = [] ∧ trapOut fetch s i = [] := by
  have hrun : CpuCoreDbg.run (hooks s i) s.cpu = false := hc
  have hreg : (hooks s i).regWe = false := h.noReg
  refine ⟨?_, ?_, ?_⟩
  · simp [regOut, regWriteEvent, CpuCoreDbg.rfWe, hrun, hreg]
  · simp [memOut, memWriteEvent, CpuCoreDbg.dmemWe, hrun]
  · simp [trapOut, trapEvent, CpuCoreDbg.takeTrap, hrun]

theorem Passive.outputs (h : Passive i.dmi) (hc : commits s i = true) :
    regOut fetch bus s i = CpuCore.regOut fetch bus i.timer (arch s) ∧
      memOut fetch bus s i = CpuCore.memOut fetch bus i.timer (arch s) ∧
      trapOut fetch s i = CpuCore.trapOut fetch i.timer (arch s) := by
  have hrun : CpuCoreDbg.run (hooks s i) s.cpu = true := hc
  have hh := not_halted_of_commits hc
  have htrap : CpuCoreDbg.takeTrap fetch i.timer (hooks s i) s.cpu =
      CpuCore.takeTrap fetch i.timer s.cpu.core := by
    rw [CpuCoreDbg.takeTrap, hrun, Bool.true_and]
  have hreg : CpuCoreDbg.rfWe fetch i.timer (hooks s i) s.cpu =
      CpuCore.regWriteEff fetch i.timer s.cpu.core := by
    simp [CpuCoreDbg.rfWe, CpuCoreDbg.regWriteEff, CpuCore.regWriteEff, htrap, hrun, hh]
  have hmem : CpuCoreDbg.dmemWe fetch i.timer (hooks s i) s.cpu =
      CpuCore.dmemWe fetch i.timer s.cpu.core := by
    simp [CpuCoreDbg.dmemWe, CpuCore.dmemWe, htrap, hrun]
  refine ⟨?_, ?_, ?_⟩
  · rw [regOut, hreg, h.coreBus, CpuCoreDbg.rfRd, CpuCoreDbg.rfWd, hh]
    rfl
  · rw [memOut, hmem, h.coreBus]
    rfl
  · rw [trapOut, htrap]
    rfl

/-- Cycle `t` of the debugged core against the instructions `cpu_core` has executed by then. -/
structure Follows (fetch : Word → Word) (bus : Bus μ) (timer : ℕ → Bool) (c₀ : CpuCore.State μ)
    (n : ℕ) (s : State μ) (i : Input) (s' : State μ) : Prop where
  state : arch s = CpuCore.run fetch bus timer c₀ n
  sampled : commits s i = true → timer n = i.timer
  committed : commits s i = true →
    regOut fetch bus s i = CpuCore.regOut fetch bus (timer n) (arch s) ∧
      memOut fetch bus s i = CpuCore.memOut fetch bus (timer n) (arch s) ∧
      trapOut fetch s i = CpuCore.trapOut fetch (timer n) (arch s)
  stands : commits s i = false → arch s' = arch s ∧
    regOut fetch bus s i = [] ∧ memOut fetch bus s i = [] ∧ trapOut fetch s i = []

/-- The debug hooks are transparent. -/
theorem debug_transparent (fetch : Word → Word) (bus : Bus μ) (nbp : ℕ) (resetPc : Word)
    (r : (machine fetch bus nbp resetPc).Run) (hp : ∀ t, Passive (r.input t).dmi) :
    (∃ timer : ℕ → Bool, ∀ t, Follows fetch bus timer (arch (r.state 0))
      (Clocked.count (fun u => commits (r.state u) (r.input u)) t) (r.state t) (r.input t)
      (r.state (t + 1))) ∧
    (∀ t, (r.state t).cpu.halted = true → commits (r.state t) (r.input t) = false) ∧
    (∀ t, (r.state t).cpu.halted = true → DebugModule.dbgStep (r.input t).dmi = true →
      commits (r.state (t + 1)) (r.input (t + 1)) = true ∧
        (r.state (t + 2)).cpu.halted = true) ∧
    ∀ t, commits (r.state t) (r.input t) = true →
      (r.state t).cpu.core.pc ∈ DebugModule.enabled (r.state t).dm →
        ∃ u, t = u + 1 ∧ (r.state u).cpu.halted = true ∧
          (DebugModule.dbgStep (r.input u).dmi || DebugModule.dbgResume (r.input u).dmi) =
            true := by
  have hsteps : ∀ t, r.state (t + 1) = step fetch bus nbp (r.state t) (r.input t) := r.steps
  refine ⟨?_, fun t => commits_of_halted, fun t => step_once r, fun t => ordered_of_breakpoint r⟩
  obtain ⟨timer, htimer⟩ := Clocked.exists_sampled (fun t => commits (r.state t) (r.input t))
    fun t => (r.input t).timer
  refine ⟨timer, fun t => ⟨?_, fun hc => htimer t hc, fun hc => ?_, fun hc => ?_⟩⟩
  · refine Clocked.stutter (fun t => arch (r.state t)) (CpuCore.step fetch bus) ?_ ?_ htimer rfl
      (fun _ => rfl) t
    · intro t hc
      rw [hsteps]
      exact (hp t).step_commits hc
    · intro t hc
      rw [hsteps]
      exact (hp t).step_stands hc
  · rw [htimer t hc]
    exact (hp t).outputs hc
  · rw [hsteps]
    exact ⟨(hp t).step_stands hc, (hp t).silent hc⟩

def haltAndStep (t : ℕ) : Dmi :=
  if t = 0 then .write DebugModule.control 1#32
  else if t = 4 then .write DebugModule.control 4#32
  else .idle

/-- `addi x0, x0, 0` everywhere, on a bus with nothing behind it. -/
def steppedRun : (machine (fun _ => 0x00000013#32)
    (⟨fun _ _ _ => 0#32, fun _ _ _ _ => ()⟩ : Bus Unit) 4 0#32).Run :=
  (machine _ _ 4 0#32).runOf (fun t _ => ⟨false, haltAndStep t⟩)
    (reset 4 0#32 0#32 (fun _ => 0#32) ()) ⟨_, _, _, rfl⟩

theorem steppedRun_passive (t : ℕ) : Passive (steppedRun.input t).dmi := by
  change Passive (haltAndStep t)
  unfold haltAndStep
  split_ifs <;> decide

theorem stepped_once : (steppedRun.state 4).cpu.halted = true ∧
      commits (steppedRun.state 5) (steppedRun.input 5) = true ∧
      (steppedRun.state 6).cpu.halted = true := by
  have hh : (steppedRun.state 4).cpu.halted = true := by decide +kernel
  exact ⟨hh, (debug_transparent _ _ 4 0#32 steppedRun steppedRun_passive).2.2.1 4 hh (by decide)⟩

end RiscvScratch.DebugSoc
