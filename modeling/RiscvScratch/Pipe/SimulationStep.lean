import RiscvScratch.Pipe.Simulation

/-! One edge of the speculating pipeline preserves the simulation and commits exactly the
instruction that leaves EX. -/
namespace RiscvScratch.Pipe
variable {img : Imem} {s : Spec} {a : Cpu.State}

variable {b : Back}

theorem Back.memwbValue_of_ne (h : b.exmem.wbSel ≠ .mem) :
    b.memwbValue = b.exmem.result := by simp [Back.memwbValue, h]

/-- What the operands of an instruction in EX are once MEM, with `v`, and WB have written. -/
theorem Back.operands {v pc w : Word}
    (hx : b.idex = Back.decode ⟨.bubble, .zero, .zero, b.regs, fun _ => 0#8⟩ pc w)
    (hz : b.NoHazard) (hv : b.exmem.wbSel ≠ .mem → v = b.exmem.result) :
    let regs := (b.regs.write b.memwb.regWrite b.memwb.rd b.memwb.data).write
      b.exmem.regWrite b.exmem.rd v
    b.opA = regs.read (rs1Of w) ∧ b.opB = regs.read (rs2Of w) := by
  intro regs
  have hread {r : BitVec 5} (h : b.exmem.wbSel = .mem → b.exmem.regWrite = true →
      b.exmem.rd ≠ 0#5 → b.exmem.rd ≠ r) : b.forward r (b.regs.read r) = regs.read r := by
    rw [Regs.read_write, Regs.read_write, Back.forward]
    by_cases hw : (b.exmem.regWrite && b.exmem.rd != 0#5 && b.exmem.rd == r) = true
    · simp only [hw, ↓reduceIte]
      simp only [Bool.and_eq_true, bne_iff_ne, ne_eq, beq_iff_eq] at hw
      exact (hv fun hm => h hm hw.1.1 hw.1.2 hw.2).symm
    · simp only [hw, Bool.false_eq_true, ↓reduceIte]
  have h1 := hread fun hm hw h0 => (hz hm hw h0).1
  have h2 := hread fun hm hw h0 => (hz hm hw h0).2
  rw [Back.opA, Back.opB]
  rw [hx] at h1 h2 ⊢
  simpa [Back.decode, Back.dataId, MemWb.zero] using And.intro h1 h2

/-- Decoding behind a register file that WB has written. -/
theorem Back.decode_settled {regs : Regs} (h : ∀ r, b.dataId r = regs.read r) (pc w : Word) :
    b.decode pc w = Back.decode ⟨.bubble, .zero, .zero, regs, fun _ => 0#8⟩ pc w := by
  simp only [Back.decode, h, IdEx.mk.injEq, true_and, and_true]
  constructor <;> simp [Back.dataId, MemWb.zero]

theorem Back.dataId_eq (b : Back) (x : IdEx) (r : BitVec 5) :
    b.dataId r = (b.advance x).regs.read r := by
  rw [Back.advance, Regs.read_write, Back.dataId]

theorem Back.decode_eq_fetched (b : Back) (x : IdEx) (pc : Word) :
    b.decode pc (img.fetch pc) = fetched img (b.advance x).regs pc :=
  Back.decode_settled (b.dataId_eq x) pc _

theorem Back.advance_archRegs (b : Back) (x : IdEx) :
    (b.advance x).archRegs =
      b.archRegs.write b.idex.regWrite b.idex.rd (b.advance x).memwbValue := rfl

theorem Back.advance_archMem (b : Back) (x : IdEx) :
    (b.advance x).archMem =
      b.archMem.write b.idex.memWrite b.aluResult b.opB b.idex.funct3 := rfl

theorem Back.advance_archRegs_inert (h : b.idex.Inert) (x : IdEx) :
    (b.advance x).archRegs = b.archRegs := by
  rw [Back.advance_archRegs]
  cases hw : b.idex.regWrite
  · simp
  · rw [h.rd hw, Regs.write_zero]

theorem Back.advance_archMem_inert (h : b.idex.Inert) (x : IdEx) :
    (b.advance x).archMem = b.archMem := by
  rw [Back.advance_archMem, h.memWrite, Dmem.write_false]

theorem Spec.not_flush_of_inert (h : s.back.idex.Inert) : s.flush = false := by
  simp [Spec.flush, Spec.exIsCtrl, h.branch, h.jump, h.jalr]

theorem Spec.not_stall_of_inert (h : s.back.idex.Inert) : s.stall = false := by
  simp [Spec.stall, Back.loadUse, h.memRead]

section execute
variable (hsim : Sim img s a) (hv : s.vIdex = true)
include hsim hv

theorem Sim.opA_eq : s.back.opA = Cpu.rs1Data img a := by
  rw [Cpu.rs1Data, hsim.regs]
  exact (Back.operands (hsim.idex hv) (hsim.hazard hv) Back.memwbValue_of_ne).1

theorem Sim.opB_eq : s.back.opB = Cpu.rs2Data img a := by
  rw [Cpu.rs2Data, hsim.regs]
  exact (Back.operands (hsim.idex hv) (hsim.hazard hv) Back.memwbValue_of_ne).2

theorem Sim.aluResult_eq : s.back.aluResult = Cpu.aluResult img a := by
  rw [Back.aluResult, Back.aluA, Back.aluB, hsim.opA_eq hv, hsim.opB_eq hv, hsim.idex hv]
  rfl

theorem Sim.exTaken_eq : s.back.exTaken = ((Cpu.ctrl img a).jump || Cpu.branchTaken img a) := by
  rw [Back.exTaken, hsim.opA_eq hv, hsim.opB_eq hv, hsim.idex hv]
  rfl

theorem Sim.nextPc_eq :
    Cpu.nextPc img a = if s.back.exTaken then s.back.exTarget else s.back.pcPlus4 := by
  have hj := (ctrlOf_wf (img.fetch a.pc)).jump_of_jalr
  have hjalr : s.back.idex.jalr = (Cpu.ctrl img a).jalr := by rw [hsim.idex hv]; rfl
  have hbr : s.back.brTarget = Cpu.pcTarget img a := by
    rw [Back.brTarget, hsim.idex hv]; rfl
  have hp4 : s.back.pcPlus4 = a.pc + 4#32 := by rw [Back.pcPlus4, hsim.idex hv]; rfl
  have hjt : s.back.jalrTarget = Cpu.jalrTarget img a := by
    rw [Back.jalrTarget, hsim.aluResult_eq hv]; rfl
  rw [Cpu.nextPc, hsim.exTaken_eq hv, Back.exTarget, hjalr, hbr, hp4, hjt]
  cases h1 : (Cpu.ctrl img a).jalr
  · cases h2 : (Cpu.ctrl img a).jump <;> simp
  · simp [show (Cpu.ctrl img a).jump = true from hj h1]

theorem Sim.wbData_eq (x : IdEx) : (s.back.advance x).memwbValue = Cpu.wbData img a := by
  have hsel : s.back.idex.wbSel = (Cpu.ctrl img a).wbSel := by rw [hsim.idex hv]; rfl
  have hmem : (s.back.advance x).memRdata = Cpu.memRdata img a := by
    change (s.back.archMem).read s.back.aluResult s.back.idex.funct3 = _
    rw [← hsim.dmem, hsim.aluResult_eq hv, hsim.idex hv]
    rfl
  have hres : (s.back.advance x).exmem.result = s.back.exResult := rfl
  have hp4 : s.back.pcPlus4 = a.pc + 4#32 := by rw [Back.pcPlus4, hsim.idex hv]; rfl
  have himm : s.back.idex.imm = Cpu.imm img a := by rw [hsim.idex hv]; rfl
  rw [Back.memwbValue, hmem, hres, Cpu.wbData, Back.exResult, hp4, himm, hsim.aluResult_eq hv]
  change (if s.back.idex.wbSel = _ then _ else _) = _
  rw [hsel]
  cases (Cpu.ctrl img a).wbSel <;> simp

theorem Sim.archRegs_commit (x : IdEx) :
    (Cpu.step img a).regs = (s.back.advance x).archRegs := by
  rw [Back.advance_archRegs, hsim.wbData_eq hv, ← hsim.regs, hsim.idex hv]
  rfl

theorem Sim.archMem_commit (x : IdEx) :
    (Cpu.step img a).dmem = (s.back.advance x).archMem := by
  rw [Back.advance_archMem, ← hsim.dmem, hsim.aluResult_eq hv, hsim.opB_eq hv, hsim.idex hv]
  rfl

/-- Without a flush the guess was the next PC: EX checked it, or there was none. -/
theorem Sim.guess_right (hf : s.flush = false) :
    Cpu.nextPc img a = s.afterIdex a.pc := by
  have hp4 : s.back.pcPlus4 = a.pc + 4#32 := by rw [Back.pcPlus4, hsim.idex hv]; rfl
  have hctrl : s.exIsCtrl = isCtrl (img.fetch a.pc) := by
    rw [Spec.exIsCtrl, hsim.idex hv]; rfl
  rw [hsim.nextPc_eq hv, Spec.afterIdex, hv, predNext, hp4]
  simp only [↓reduceIte]
  cases hc : s.exIsCtrl
  · have hg : s.front.idexPredTaken = false := by
      cases hp : s.front.idexPredTaken
      · rfl
      · rw [hctrl, hsim.guessIdex hv hp] at hc
        exact absurd hc (by simp)
    have ht : s.back.exTaken = false := by
      simp only [Spec.exIsCtrl, Bool.or_eq_false_iff] at hc
      simp [Back.exTaken, hc.1.1, hc.1.2]
    simp [hg, ht]
  · simp only [Spec.flush, hc, Bool.true_and, Bool.or_eq_false_iff, bne_eq_false_iff_eq] at hf
    obtain ⟨hdir, htgt⟩ := hf
    rw [hdir] at htgt ⊢
    cases hp : s.front.idexPredTaken
    · simp
    · simpa [hp] using htgt

end execute

def commitStep (img : Imem) (s : Spec) (a : Cpu.State) : Cpu.State :=
  bif s.vIdex then Cpu.step img a else a

theorem Sim.commit_regs (hsim : Sim img s a) (x : IdEx) :
    (commitStep img s a).regs = (s.back.advance x).archRegs := by
  cases hv : s.vIdex
  · rw [commitStep, hv, Back.advance_archRegs_inert (hsim.idexInert hv)]
    exact hsim.regs
  · rw [commitStep, hv]
    exact hsim.archRegs_commit hv x

theorem Sim.commit_dmem (hsim : Sim img s a) (x : IdEx) :
    (commitStep img s a).dmem = (s.back.advance x).archMem := by
  cases hv : s.vIdex
  · rw [commitStep, hv, Back.advance_archMem_inert (hsim.idexInert hv)]
    exact hsim.dmem
  · rw [commitStep, hv]
    exact hsim.archMem_commit hv x

theorem Sim.commit_pc (hsim : Sim img s a) (hf : s.flush = false) :
    (commitStep img s a).pc = s.afterIdex a.pc := by
  cases hv : s.vIdex
  · simp [commitStep, hv, Spec.afterIdex]
  · simp only [commitStep, hv, cond_true]
    exact hsim.guess_right hv hf

theorem nop_inert (b : Back) (pc : Word) : (b.decode pc nop).Inert := by
  have hc : ctrlOf nop = { Ctrl.default with regWrite := true, aluSrcB := true } := by decide
  have hr : rdOf nop = 0#5 := by decide
  constructor <;> simp [Back.decode, hc, hr, Ctrl.default]

theorem Sim.next_hazard (hsim : Sim img s a) (hf : s.flush = false) (hs : s.stall = false)
    (pc : Word) :
    (s.back.advance (s.back.decode pc s.front.ifidInstr)).NoHazard := by
  intro hm hw h0
  change s.back.idex.wbSel = _ at hm
  change s.back.idex.regWrite = _ at hw
  change s.back.idex.rd ≠ _ at h0
  change s.back.idex.rd ≠ rs1Of _ ∧ s.back.idex.rd ≠ rs2Of _
  cases hv : s.vIdex
  · exact absurd ((hsim.idexInert hv).rd hw) h0
  · have hread : s.back.idex.memRead = true := by
      rw [hsim.idex hv] at hm ⊢
      exact (ctrlOf_wf (img.fetch a.pc)).wbSel_mem.mp hm
    have hl : s.back.loadUse s.front.ifidInstr = false := by
      simpa [Spec.stall, hf] using hs
    have h0' : (s.back.idex.rd != 0#5) = true := by simpa using h0
    simpa only [Back.loadUse, hread, h0', Bool.true_and, Bool.or_eq_false_iff, beq_eq_false_iff_ne]
      using hl

section
variable (hsim : Sim img s a) (guess : Bool × Word)
include hsim guess

theorem Sim.step_flush (hf : s.flush = true) :
    Sim img (s.step img guess) (commitStep img s a) := by
  have hv : s.vIdex = true := by
    cases hv : s.vIdex
    · rw [Spec.not_flush_of_inert (hsim.idexInert hv)] at hf
      exact absurd hf (by simp)
    · rfl
  have hpc : (commitStep img s a).pc =
      if s.back.exTaken then s.back.exTarget else s.back.pcPlus4 := by
    simp only [commitStep, hv, cond_true]
    exact hsim.nextPc_eq hv
  exact {
    regs := hsim.commit_regs _
    dmem := hsim.commit_dmem _
    idex := by simp [Spec.step, hf]
    idexInert := fun _ => by simpa [Spec.step, hf, Back.advance] using IdEx.bubble_inert
    hazard := by simp [Spec.step, hf]
    ifid := by simp [Spec.step, hf]
    ifidNop := by simp [Spec.step, hf]
    pc := by simp [Spec.step, hf, Spec.afterIfid, Spec.afterIdex, hpc]
    guessIfid := by simp [Spec.step, hf]
    guessIdex := by simp [Spec.step, hf] }

theorem Sim.step_stall (hf : s.flush = false)
    (hs : s.stall = true) : Sim img (s.step img guess) (commitStep img s a) := by
  have hpc := hsim.commit_pc hf
  exact {
    regs := hsim.commit_regs _
    dmem := hsim.commit_dmem _
    idex := by simp [Spec.step, hf, hs]
    idexInert := fun _ => by simpa [Spec.step, hf, hs, Back.advance] using IdEx.bubble_inert
    hazard := by simp [Spec.step, hf, hs]
    ifid := fun hv => by
      have hv' : s.vIfid = true := by simpa [Spec.step, hf, hs] using hv
      simpa [Spec.step, hf, hs, Spec.afterIdex, hpc] using hsim.ifid hv'
    ifidNop := fun hv => by
      have hv' : s.vIfid = false := by simpa [Spec.step, hf, hs] using hv
      simpa [Spec.step, hf, hs] using hsim.ifidNop hv'
    pc := by
      have h := hsim.pc
      simp only [Spec.afterIfid] at h
      simp [Spec.step, hf, hs, Spec.afterIfid, Spec.afterIdex, hpc, h]
    guessIfid := fun hv hp => by
      have hv' : s.vIfid = true := by simpa [Spec.step, hf, hs] using hv
      have hp' : s.front.ifidPredTaken = true := by simpa [Spec.step, hf, hs] using hp
      simpa [Spec.step, hf, hs] using hsim.guessIfid hv' hp'
    guessIdex := by simp [Spec.step, hf, hs] }

theorem Sim.step_move
    (hg : guess.1 = true → isCtrl (img.fetch s.front.pc) = true) (hf : s.flush = false)
    (hs : s.stall = false) : Sim img (s.step img guess) (commitStep img s a) := by
  have hpc := hsim.commit_pc hf
  have hidex : (s.step img guess).back.idex =
      s.back.decode s.front.ifidPc s.front.ifidInstr := by
    simp [Spec.step, hf, hs, Back.advance]
  have hvx : (s.step img guess).vIdex = s.vIfid := by simp [Spec.step, hf, hs]
  have hnext : (s.step img guess).afterIdex (commitStep img s a).pc = s.afterIfid a.pc := by
    simp [Spec.afterIdex, Spec.afterIfid, Spec.step, hf, hs, hpc]
  exact {
    regs := hsim.commit_regs _
    dmem := hsim.commit_dmem _
    idex := fun hv => by
      obtain ⟨hp, hi⟩ := hsim.ifid (hvx ▸ hv)
      rw [hidex, hp, hi, hpc]
      exact Back.decode_eq_fetched _ _ _
    idexInert := fun hv => by
      rw [hidex, hsim.ifidNop (hvx ▸ hv)]
      exact nop_inert _ _
    hazard := fun _ => by
      simpa [Spec.step, hf, hs] using hsim.next_hazard hf hs s.front.ifidPc
    ifid := fun _ => by
      rw [hnext, ← hsim.pc]
      simp [Spec.step, hf, hs]
    ifidNop := by simp [Spec.step, hf, hs]
    pc := by
      rw [Spec.afterIfid, hnext, ← hsim.pc]
      simp [Spec.step, hf, hs]
    guessIfid := fun _ hp => by
      have hp' : guess.1 = true := by simpa [Spec.step, hf, hs] using hp
      simpa [Spec.step, hf, hs] using hg hp'
    guessIdex := fun hv hp => by
      have hp' : s.front.ifidPredTaken = true := by simpa [Spec.step, hf, hs] using hp
      rw [hpc, ← (hsim.ifid (hvx ▸ hv)).2]
      exact hsim.guessIfid (hvx ▸ hv) hp' }

theorem Sim.step (hg : guess.1 = true → isCtrl (img.fetch s.front.pc) = true) :
    Sim img (s.step img guess) (commitStep img s a) := by
  cases hf : s.flush
  · cases hs : s.stall
    · exact hsim.step_move guess hg hf hs
    · exact hsim.step_stall guess hf hs
  · exact hsim.step_flush guess hf

end

end RiscvScratch.Pipe
