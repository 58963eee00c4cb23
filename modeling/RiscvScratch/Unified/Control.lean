import RiscvScratch.Unified.Core

/-! How the pipe moves: a clock edge does one of five things to the pipeline registers. -/
namespace RiscvScratch.Unified

variable {c : Cfg} {s : State} {i : Input}

theorem exGo_inv (h : exGo c s i = true) :
    s.idex.valid = true ∧ freeze c s i = false ∧ exHold c s i = false := by
  simpa [exGo, and_assoc] using h

theorem not_exGo_of_freeze (h : freeze c s i = true) : exGo c s i = false := by
  simp [exGo, h]

theorem not_exGo_of_hold (h : exHold c s i = true) : exGo c s i = false := by
  simp [exGo, h]

theorem takeTrap_exGo (h : takeTrap c s i = true) : exGo c s i = true := by
  simp only [takeTrap, Bool.and_eq_true] at h
  exact h.1

theorem redirect_exGo (h : redirect c s i = true) : exGo c s i = true := by
  simp only [redirect, takeTrap, mretEx, sretEx, Bool.or_eq_true, Bool.and_eq_true] at h
  obtain ((h | h) | h) | h := h
  · exact h.1
  · exact h.1.1
  · exact h.1.1
  · exact h.1

theorem exKeep_inv (h : exKeep c s i = true) :
    exGo c s i = true ∧ exception c s = false ∧ irqTake c s i = false := by
  simp only [exKeep, takeTrap, Bool.and_eq_true, Bool.not_eq_true', Bool.and_eq_false_iff,
    Bool.or_eq_false_iff] at h
  obtain ⟨hg, h | h⟩ := h
  · simp [hg] at h
  · exact ⟨hg, h⟩

structure Idle (c : Cfg) (s : State) (i : Input) : Prop where
  takeTrap : takeTrap c s i = false
  mret : mretEx c s i = false
  sret : sretEx c s i = false
  csr : csrCommit c s i = false
  sfence : sfenceEx c s i = false
  redirect : redirect c s i = false
  cfg : vCfgCommit c s i = false
  keep : exKeep c s i = false
  update : (bpUpdate c s i).en = false

theorem idle_of_not_exGo (h : exGo c s i = false) : Idle c s i := by
  constructor <;> simp [Unified.takeTrap, mretEx, sretEx, csrCommit, sfenceEx, Unified.redirect,
    vCfgCommit, exKeep, bpUpdate, h]

def retired (s : State) (i : Input) : MemWb :=
  ⟨s.exmem.regWrite, s.exmem.valid, s.exmem.rd, memwbValue s i⟩

def relatched (s : State) : IdEx := { s.idex with rs1d := opA s, rs2d := opB s }

inductive Move (c : Cfg) (s : State) (i : Input) (s' : State) : Prop
  | frozen (hf : freeze c s i = true) (pc : s'.pc = s.pc) (ifid : s'.ifid = s.ifid)
      (idex : s'.idex = relatched s) (exmem : s'.exmem = s.exmem)
      (memwb : s'.memwb = MemWb.bubble)
  | held (hf : freeze c s i = false) (hh : exHold c s i = true) (pc : s'.pc = s.pc)
      (ifid : s'.ifid = s.ifid) (idex : s'.idex = relatched s)
      (exmem : s'.exmem = ExMem.bubble) (memwb : s'.memwb = retired s i)
  | flushed (hg : exGo c s i = true) (hr : redirect c s i = true)
      (pc : s'.pc = redirectPc c s i) (ifid : s'.ifid = IfId.bubble)
      (idex : s'.idex = IdEx.bubble)
      (exmem : s'.exmem = if exKeep c s i then executed c s i else ExMem.bubble)
      (memwb : s'.memwb = retired s i)
  | bubbled (hf : freeze c s i = false) (hh : exHold c s i = false)
      (hr : redirect c s i = false) (hl : loadUse s = true) (pc : s'.pc = s.pc)
      (ifid : s'.ifid = s.ifid) (idex : s'.idex = IdEx.bubble)
      (exmem : s'.exmem = if exKeep c s i then executed c s i else ExMem.bubble)
      (memwb : s'.memwb = retired s i)
  | advanced (hf : freeze c s i = false) (hh : exHold c s i = false)
      (hr : redirect c s i = false) (hl : loadUse s = false)
      (pc : s'.pc = if ifOk c s i then pcNext c s else s.pc)
      (ifid : s'.ifid = if ifOk c s i then fetched c s i else starved s.ifid)
      (idex : s'.idex = decode c s.ifid (readReg s (rs1Of s.ifid.instr))
        (readReg s (rs2Of s.ifid.instr)))
      (exmem : s'.exmem = if exKeep c s i then executed c s i else ExMem.bubble)
      (memwb : s'.memwb = retired s i)

theorem step_move (c : Cfg) (s : State) (i : Input) : Move c s i (step c s i) := by
  cases hf : freeze c s i with
  | true =>
    have hi := idle_of_not_exGo (not_exGo_of_freeze hf)
    exact .frozen hf (by simp [step, nextPc, hf]) (by simp [step, nextIfid, hf, hi.redirect])
      (by simp [step, nextIdex, hf, relatched]) (by simp [step, nextExmem, hf])
      (by simp [step, nextMemwb, hf])
  | false =>
    have hm : (step c s i).memwb = retired s i := by simp [step, nextMemwb, hf, retired]
    have he : (step c s i).exmem = if exKeep c s i then executed c s i else ExMem.bubble := by
      simp [step, nextExmem, hf]
    cases hh : exHold c s i with
    | true =>
      have hi := idle_of_not_exGo (not_exGo_of_hold hh)
      exact .held hf hh (by simp [step, nextPc, hf, hi.redirect, frontHold, hh])
        (by simp [step, nextIfid, hf, hi.redirect, frontHold, hh])
        (by simp [step, nextIdex, hf, hh, relatched]) (by simp [he, hi.keep]) hm
    | false =>
      cases hr : redirect c s i with
      | true =>
        exact .flushed (redirect_exGo hr) hr (by simp [step, nextPc, hf, hr])
          (by simp [step, nextIfid, hf, hr]) (by simp [step, nextIdex, hf, hh, hr]) he hm
      | false =>
        cases hl : loadUse s with
        | true =>
          exact .bubbled hf hh hr hl (by simp [step, nextPc, hf, hr, frontHold, hl])
            (by simp [step, nextIfid, hf, hr, frontHold, hl])
            (by simp [step, nextIdex, hf, hh, hl]) he hm
        | false =>
          refine .advanced hf hh hr hl ?_ ?_ (by simp [step, nextIdex, hf, hh, hr, hl]) he hm
          · cases ho : ifOk c s i <;> simp [step, nextPc, hf, hr, frontHold, hh, hl, ho]
          · cases ho : ifOk c s i <;> simp [step, nextIfid, hf, hr, frontHold, hh, hl, ho]

theorem step_exmem {P : ExMem → Prop} (h0 : P ExMem.bubble)
    (hx : exKeep c s i = true → P (executed c s i)) (h : P s.exmem) : P (step c s i).exmem := by
  simp only [step, nextExmem]
  split_ifs with _ hk
  · exact h
  · exact hx hk
  · exact h0

/-- What holds of a bubble and of every instruction that leaves EX holds in MEM. -/
theorem run_exmem (r : Run c) {P : ExMem → Prop} (h0 : P ExMem.bubble)
    (hx : ∀ t, exKeep c (r.state t) (r.input t) = true → P (executed c (r.state t) (r.input t)))
    (t : ℕ) : P (r.state t).exmem := by
  induction t with
  | zero =>
    obtain ⟨u, hu⟩ := r.starts
    exact hu ▸ h0
  | succ t ih =>
    rw [run_step]
    exact step_exmem h0 (hx t) ih

theorem run_exmem_bubble (r : Run c) (t : ℕ) :
    (r.state t).exmem.valid = true ∨ (r.state t).exmem = ExMem.bubble :=
  run_exmem r (P := fun x => x.valid = true ∨ x = ExMem.bubble) (.inr rfl) (fun _ _ => .inl rfl) t

/-- What a cycle does in which EX keeps its instruction. -/
theorem stays_move (hs : freeze c s i = true ∨ exHold c s i = true) :
    (step c s i).pc = s.pc ∧ (step c s i).idex = relatched s ∧
      (freeze c s i = true ∧ (step c s i).exmem = s.exmem ∧ (step c s i).memwb = MemWb.bubble ∨
        freeze c s i = false ∧ (step c s i).exmem = ExMem.bubble ∧
          (step c s i).memwb = retired s i) := by
  cases step_move c s i with
  | frozen hf hp _ hi hx hm => exact ⟨hp, hi, .inl ⟨hf, hx, hm⟩⟩
  | held hf _ hp _ hi hx hm => exact ⟨hp, hi, .inr ⟨hf, hx, hm⟩⟩
  | flushed hg =>
    obtain ⟨-, hf, hh⟩ := exGo_inv hg
    simp [hf, hh] at hs
  | bubbled hf hh | advanced hf hh => simp [hf, hh] at hs

end RiscvScratch.Unified
