import RiscvScratch.Unified.PreciseTrap

/-! Register operands: what EX forwards is the value that every older instruction has left. -/
namespace RiscvScratch.Unified

variable {c : Cfg} {s : State} {i : Input}

/-- The latched value `d` of register `a` is up to date behind what MEM and WB will write. -/
structure UpToDate (s : State) (a : BitVec 5) (d : Word) : Prop where
  noLoad : s.exmem.regWrite = true → s.exmem.rd ≠ 0#5 → s.exmem.rd = a → s.exmem.wbSel ≠ .mem
  held : (s.exmem.regWrite && s.exmem.rd != 0#5 && s.exmem.rd == a) = false →
    (s.memwb.regWrite && s.memwb.rd != 0#5 && s.memwb.rd == a) = false → d = s.regs.read a

theorem read_step (c : Cfg) (s : State) (i : Input) (a : BitVec 5) :
    (step c s i).regs.read a = readReg s a := by
  simp only [step, Regs.read_write, readReg]

theorem readReg_bubble {s' : State} (h : s'.memwb = MemWb.bubble) (a : BitVec 5) :
    readReg s' a = s'.regs.read a := by
  simp [readReg, h, MemWb.bubble]

variable {a : BitVec 5} {d : Word}

theorem UpToDate.forward_eq (h : UpToDate s a d)
    (hx : (s.exmem.regWrite && s.exmem.rd != 0#5 && s.exmem.rd == a) = false) :
    forward s a d = readReg s a := by
  cases hw : s.memwb.regWrite && s.memwb.rd != 0#5 && s.memwb.rd == a with
  | true => simp only [forward, hx, hw, readReg, Bool.false_eq_true, ↓reduceIte]
  | false => simp only [forward, hx, hw, readReg, h.held hx hw, Bool.false_eq_true, ↓reduceIte]

theorem memwbValue_alu (h : s.exmem.wbSel ≠ .mem) : memwbValue s i = s.exmem.result := by
  simp [memwbValue, h]

theorem UpToDate.forward_step (h : UpToDate s a d)
    (hf : freeze c s i = false) : forward s a d = readReg (step c s i) a := by
  have hm : (step c s i).memwb = retired s i := by simp [step, nextMemwb, hf, retired]
  cases hx : s.exmem.regWrite && s.exmem.rd != 0#5 && s.exmem.rd == a with
  | true =>
    have hx' := hx
    simp only [Bool.and_eq_true, bne_iff_ne, beq_iff_eq] at hx'
    have hv := memwbValue_alu (i := i) (h.noLoad hx'.1.1 hx'.1.2 hx'.2)
    simp only [forward, readReg, hm, retired, hx, hv, ↓reduceIte]
  | false =>
    rw [h.forward_eq hx, readReg.eq_1 (step c s i), hm]
    simp only [retired, hx, read_step, Bool.false_eq_true, ↓reduceIte]

def OperandsUp (s : State) : Prop :=
  s.idex.valid = true → UpToDate s s.idex.rs1 s.idex.rs1d ∧ UpToDate s s.idex.rs2 s.idex.rs2d

theorem UpToDate.relatch (h : UpToDate s a d)
    (hs : freeze c s i = true ∨ exHold c s i = true) :
    UpToDate (step c s i) a (forward s a d) := by
  obtain ⟨-, -, ⟨-, hx, -⟩ | ⟨-, hx, hm⟩⟩ := stays_move hs
  · constructor
    · rw [hx]
      exact h.noLoad
    · intro h1 _
      rw [hx] at h1
      rw [h.forward_eq h1, read_step]
  · constructor
    · simp [hx, ExMem.bubble]
    · intro _ h2
      rw [hm] at h2
      rw [h.forward_eq h2, read_step]

theorem executed_noLoad (hw : s.idex.Wf) (hk : exKeep c s i = true) (hl : loadUse s = false)
    (ha : a = rs1Of s.ifid.instr ∨ a = rs2Of s.ifid.instr)
    (hz : (executed c s i).rd ≠ 0#5) (hrd : (executed c s i).rd = a) :
    (executed c s i).wbSel ≠ .mem := by
  intro hm
  have hv := (exGo_inv (exKeep_inv hk).1).1
  have hr : s.idex.memRead = true := by
    cases hc : s.idex.isCsr with
    | true => simp [executed, hc] at hm
    | false => exact hw.wbSel.mp (by simpa [executed, hc] using hm)
  simp only [executed] at hz hrd
  have hu : loadUse s = true := by
    obtain rfl | rfl := ha
    · simp [loadUse, hv, hr, hrd, hrd ▸ hz]
    · simp [loadUse, hv, hr, hrd, hrd ▸ hz]
  simp [hl] at hu

theorem OperandsUp.step (h : OperandsUp s) (hw : s.idex.Wf) : OperandsUp (step c s i) := by
  intro hv
  cases hmv : step_move c s i with
  | frozen hf _ _ hid _ _ =>
    rw [hid] at hv ⊢
    obtain ⟨h1, h2⟩ := h hv
    exact ⟨h1.relatch (.inl hf), h2.relatch (.inl hf)⟩
  | held _ hh _ _ hid _ _ =>
    rw [hid] at hv ⊢
    obtain ⟨h1, h2⟩ := h hv
    exact ⟨h1.relatch (.inr hh), h2.relatch (.inr hh)⟩
  | flushed _ _ _ _ hid _ _ | bubbled _ _ _ _ _ _ hid _ _ => simp [hid, IdEx.bubble] at hv
  | advanced hf hh hr hl _ _ hid hx _ =>
    have hnew (a : BitVec 5) (ha : a = rs1Of s.ifid.instr ∨ a = rs2Of s.ifid.instr) :
        UpToDate (Unified.step c s i) a (readReg s a) := by
      refine ⟨fun _ hz hrd => ?_, fun _ _ => (read_step c s i a).symm⟩
      cases hk : exKeep c s i with
      | true =>
        simp only [hx, hk, ↓reduceIte] at hz hrd ⊢
        exact executed_noLoad hw hk hl ha hz hrd
      | false => simp [hx, hk, ExMem.bubble] at hz
    rw [hid]
    exact ⟨hnew _ (.inl rfl), hnew _ (.inr rfl)⟩

theorem run_operands (r : Run c) (t : ℕ) : OperandsUp (r.state t) := by
  induction t with
  | zero =>
    obtain ⟨u, hu⟩ := r.starts
    intro hv
    simp [hu, reset, IdEx.bubble] at hv
  | succ t ih =>
    rw [r.steps]
    exact ih.step (run_idex_wf r t)

theorem readReg_issued (r : Run c) {u w : ℕ} (h : Issued r u w) (a : BitVec 5) :
    readReg (r.state u) a = readReg (r.state (w + 1)) a := by
  have hall : ∀ v, w + 1 ≤ v → v ≤ u → readReg (r.state v) a = readReg (r.state (w + 1)) a := by
    intro v hv
    induction v, hv using Nat.le_induction with
    | base => exact fun _ => rfl
    | succ v hv ih =>
      intro hvu
      have hf := h.waits v (by omega) (by omega)
      have hstep := run_step r v
      have hm : (r.state (v + 1)).memwb = MemWb.bubble := by simp [hstep, step, nextMemwb, hf]
      rw [readReg_bubble hm, hstep, read_step, ih (by omega)]
  exact hall u h.lt le_rfl

/-- The operands of an instruction that leaves MEM in cycle `u` are the registers as every older
instruction has left them. -/
theorem operands_of_leave (r : Run c) {u w : ℕ} (h : Issued r u w) :
    opA (r.state w) = (r.state (u + 1)).regs.read (r.state w).idex.rs1 ∧
      opB (r.state w) = (r.state (u + 1)).regs.read (r.state w).idex.rs2 := by
  obtain ⟨hv, hf, -⟩ := exGo_inv (exKeep_inv h.keep).1
  obtain ⟨h1, h2⟩ := run_operands r w hv
  have hlast (a : BitVec 5) : (r.state (u + 1)).regs.read a = readReg (r.state (w + 1)) a := by
    rw [r.steps]
    exact (read_step c _ _ a).trans (readReg_issued r h a)
  have hstep := run_step r w
  rw [hlast, hlast, hstep]
  exact ⟨h1.forward_step hf, h2.forward_step hf⟩

end RiscvScratch.Unified
