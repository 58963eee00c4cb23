import RiscvScratch.Compressed.Sequential

/-! `cpu_mc_c` in front of a fixed image: what it does for each instruction is the instruction of
the Spartan-6 core. -/
namespace RiscvScratch.Compressed
variable {μ : Type*}

def asMc (a : S6Core.Arch μ) : Rv32imc.Arch μ := ⟨a.pc, a.regs, Zicsr.reset, a.mem⟩

section pacing
variable {p : S6Core.Isa} {r : Rv32imc.core.Run} {image : Word → Word} {bus : ByteBus μ}
  {mem : ℕ → μ} {t : ℕ} {a : S6Core.Arch μ} {f : CpuMcC.Fsm}

theorem works_fetched (hC : p.enableC = true) (h : Rv32imc.Works r image mem t (asMc a) f) :
    CpuMcC.instr (r.state t) (r.input t) = S6Core.fetched p image a.pc ∧
      CpuMcC.isC (r.state t) (r.input t) = S6Core.compressed p image a.pc ∧
      (CpuMcC.isC (r.state t) (r.input t) = true →
        CpuMcC.raw16 (r.state t) (r.input t) = S6Core.halfAt image a.pc) := by
  have hpc : (r.state t).pc = a.pc := h.agrees.pc
  have hw := h.fronts.word
  rw [CpuMcC.pcWord, hpc] at hw
  cases hq : (r.state t).straddleQ with
  | true =>
    obtain ⟨hbit, hlow, hfull⟩ := h.fronts.low hq
    rw [CpuMcC.pcWord, hpc] at hlow
    rw [hpc] at hbit
    rw [hq, if_pos rfl] at hw
    have hhalf : S6Core.halfAt image a.pc = (r.state t).loHalf := by
      rw [S6Core.halfAt, if_pos hbit, hlow]
      rfl
    have hs : S6Core.straddles p image a.pc = true := by
      simp [S6Core.straddles, hC, hbit, hhalf, hfull]
    have hc : S6Core.compressed p image a.pc = false := by
      simp [S6Core.compressed, hhalf, hfull]
    refine ⟨?_, by simp [CpuMcC.isC, hq, hc], by simp [CpuMcC.isC, hq]⟩
    simp [CpuMcC.instr, hq, S6Core.fetched, hs, hw, hlow, S6Core.wordAddr]
  | false =>
    rw [hq, if_neg Bool.false_ne_true] at hw
    have hraw : CpuMcC.raw16 (r.state t) (r.input t) = S6Core.halfAt image a.pc := by
      rw [CpuMcC.raw16, S6Core.halfAt, hpc, hw]
      rfl
    have hs : S6Core.straddles p image a.pc = false := by
      have hwhole := h.whole
      simp only [CpuMcC.needHi, hq, hraw, hpc] at hwhole
      simpa [S6Core.straddles, hC] using hwhole
    have hc : CpuMcC.isC (r.state t) (r.input t) = S6Core.compressed p image a.pc := by
      simp [CpuMcC.isC, S6Core.compressed, hq, hraw, hC]
    refine ⟨?_, hc, fun _ => hraw⟩
    simp [CpuMcC.instr, hq, hc, hraw, S6Core.fetched, hs, hw, S6Core.wordAddr]

theorem works_matches (hC : p.enableC = true) (h : Rv32imc.Works r image mem t (asMc a) f) :
    Matches (S6Core.view p image a) (CpuMcC.datapath (r.state t) (r.input t)) := by
  obtain ⟨hi, hc, hraw⟩ := works_fetched hC h
  refine ⟨h.agrees.pc, hi, hc, ?_, ?_, ?_, h.agrees.csr, rfl⟩
  · intro hv
    have hv' : S6Core.compressed p image a.pc = true := hv
    show CpuMcC.raw16 _ _ = if S6Core.compressed p image a.pc then _ else _
    rw [if_pos hv', hraw (hc.trans hv')]
  · show (r.state t).regs.read (rs1Of (CpuMcC.instr _ _)) = _
    rw [hi, h.agrees.regs]
    rfl
  · show (r.state t).regs.read (rs2Of (CpuMcC.instr _ _)) = _
    rw [hi, h.agrees.regs]
    rfl

theorem execute_outcome {i : Rv32imc.Insn} {lines : Zicsr.Lines} {e : CpuMcC.Datapath}
    (h : Rv32imc.Sees i lines (asMc a) e) (ht : CpuMcC.takeTrap e = false)
    (hk : Sys.opKnown i.word = true) (hs : Sys.isCsr i.word = false)
    (hm : Sys.isMret i.word = false) :
    Rv32imc.execute bus lines (asMc a) i =
      (⟨(outcome bus a.regs a.mem e).pc, (outcome bus a.regs a.mem e).regs, Zicsr.reset,
        (outcome bus a.regs a.mem e).mem⟩, (outcome bus a.regs a.mem e).effects) := by
  cases hr : (ctrlOf i.word).memRead with
  | false =>
    have hcsr : Zicsr.step Zicsr.reset (Rv32imc.csrOf e) = Zicsr.reset :=
      Zicsr.step_idle _ rfl (by rw [Rv32imc.csrOf, h.instr]; exact hm)
        (by rw [Rv32imc.csrOf, h.instr]; exact hs)
    rw [h.executes ht hk hr]
    simp only [Rv32imc.ends, outcome, h.instr, hs, hr, asMc, hcsr, Bool.false_or,
      Bool.false_eq_true, if_false]
  | true =>
    have ho := Rv32imc.load_of_memRead hk hr
    have hw : (ctrlOf i.word).regWrite = true := by
      rw [ctrlOf, ho]
      rfl
    rw [h.exec_load ho lines]
    simp only [Rv32imc.setReg, outcome, h.instr, hr, hw, asMc, if_true]

theorem rests_executes (hA : p.enableA = false) (hC : p.enableC = true)
    (ho : Ordinary p (S6Core.view p image a)) (hb : Rv32imc.Served r image bus mem)
    (h : Rv32imc.Rests r mem t (asMc a)) :
    ∃ n > 0, Rv32imc.Rests r mem (t + n) (asMc (S6Core.archStep p image bus.words a)) ∧
      Clocked.span (fun u => mcEffects (r.state u) (r.input u)) t n =
        (S6Core.archOut p image bus.words a).flatMap effectOf := by
  obtain ⟨m, hm, hw, hquiet⟩ := h.fetches hb
  obtain ⟨n, hn, hrest, hspan, -⟩ := hw.completes hb
  have hmat := works_matches hC hw
  have hk := ho.kind hA
  have htrap := takeTrap_false hC hk hmat ho.illegal
  obtain ⟨hcsr, hmret, -, -⟩ := sys_false hk
  obtain ⟨hknown, hstep⟩ := hw.known bus htrap
  rw [← hmat.instr, hw.sees.instr] at hcsr hmret
  rw [hstep, execute_outcome hw.sees htrap hknown hcsr hmret, ← outcome_eq hA hC ho hmat]
    at hrest hspan
  refine ⟨m + n, by omega, by rwa [← Nat.add_assoc], ?_⟩
  rw [Clocked.span_add, Rv32imc.span_quiet hquiet, List.nil_append, hspan]
  rfl

end pacing

end RiscvScratch.Compressed
