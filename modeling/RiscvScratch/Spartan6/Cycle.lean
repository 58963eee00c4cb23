import RiscvScratch.Spartan6.Core

/-! What one cycle of the Spartan-6 core can do. -/
namespace RiscvScratch.S6Core

structure SameOperands (d d' : Datapath) : Prop where
  instr : d'.instr = d.instr
  rs1Data : d'.rs1Data = d.rs1Data
  rs2Data : d'.rs2Data = d.rs2Data
  amoExec : d'.amoExec = d.amoExec
  amoVal : d.amoExec = true → d'.amoVal = d.amoVal

section operands
variable {p : Isa} {d d' : Datapath} (h : SameOperands d d')
include h

theorem SameOperands.aluA : aluA d' = aluA d := by
  unfold S6Core.aluA
  rw [h.amoExec, h.rs1Data]
  split
  · exact h.amoVal ‹_›
  · rfl

theorem SameOperands.aluB : aluB p d' = aluB p d := by
  simp only [S6Core.aluB, h.instr, h.rs2Data]

theorem SameOperands.cmpLt : cmpLt p d' = cmpLt p d := by
  simp only [S6Core.cmpLt, cmpUns, h.aluA, h.aluB, h.amoExec, h.instr]

theorem SameOperands.aluResult : aluResult p d' = aluResult p d := by
  have hop : aluOp d' = aluOp d := by simp only [aluOp, h.amoExec, h.instr]
  unfold S6Core.aluResult
  rw [hop, h.aluA, h.aluB, h.cmpLt]

theorem SameOperands.memAddr : memAddr p d' = memAddr p d := by
  simp only [S6Core.memAddr, h.instr, h.rs1Data, h.aluResult]

theorem SameOperands.wmask : wmask p d' = wmask p d := by
  simp only [S6Core.wmask, ba, h.instr, h.memAddr]

theorem SameOperands.dbusWdata : dbusWdata p d' = dbusWdata p d := by
  simp only [S6Core.dbusWdata, h.instr, h.amoExec, h.rs2Data, h.aluResult]

end operands

section decode
variable {p : Isa} {w : Word}

theorem opcode_of_reads (h : reads p w = true) :
    opcodeOf w = opLoad ∨ opcodeOf w = opAmo ∧ isSc p w = false := by
  simp only [reads, isLoad, isLr, isAmoRmw, isAmoop, Bool.or_eq_true, Bool.and_eq_true,
    beq_iff_eq] at h
  obtain (h | ⟨⟨h, hf⟩, _⟩) | ⟨h, hf⟩ := h
  · exact .inl h
  · exact .inr ⟨h.1.2, by simp [isSc, hf]⟩
  · refine .inr ⟨h.1.2, ?_⟩
    by_contra hsc
    simp only [isSc, Bool.not_eq_false, Bool.and_eq_true, beq_iff_eq] at hsc
    simp [amoRmwOk, hsc.2] at hf

theorem execRfWe_of_reads (h : reads p w = true) : execRfWe p w = false := by
  obtain ho | ⟨ho, hsc⟩ := opcode_of_reads h
  · simp +decide [execRfWe, isOp, isOpimm, isLui, isAuipc, isJal, isJalr, isCsr, isSystem, isSc,
      isAmoop, ho]
  · simp +decide [execRfWe, isOp, isOpimm, isLui, isAuipc, isJal, isJalr, isCsr, isSystem, hsc, ho]

variable {d : Datapath}

theorem not_writes_of_reads (h : reads p d.instr = true) : writes p d = false := by
  obtain ho | ⟨ho, hsc⟩ := opcode_of_reads h
  · simp +decide [writes, isStore, isSc, isAmoop, ho]
  · simp +decide [writes, isStore, hsc, ho]

theorem execRfWe_of_isStore (h : isStore w = true) : execRfWe p w = false := by
  have ho : opcodeOf w = opStore := by simpa [isStore] using h
  simp +decide [execRfWe, isOp, isOpimm, isLui, isAuipc, isJal, isJalr, isCsr, isSystem, isSc,
    isAmoop, ho]

theorem opcode_of_writes (h : writes p d = true) :
    opcodeOf d.instr = opStore ∨
      opcodeOf d.instr = opAmo ∧ isSc p d.instr = true ∧ reads p d.instr = false := by
  have hsc (hs : isSc p d.instr = true) : opcodeOf d.instr = opAmo ∧ reads p d.instr = false := by
    simp only [isSc, isAmoop, Bool.and_eq_true, beq_iff_eq] at hs
    refine ⟨hs.1.1.2, ?_⟩
    simp +decide [reads, isLoad, isLr, isAmoRmw, amoRmwOk, hs.1.1.2, hs.2]
  simp only [writes, Bool.or_eq_true, Bool.and_eq_true] at h
  obtain h | ⟨h, _⟩ := h
  · exact .inl (by simpa [isStore] using h)
  · exact .inr ⟨(hsc h).1, h, (hsc h).2⟩

theorem course_eq (ho : opcodeOf w = opLoad ∨ opcodeOf w = opStore ∨
    opcodeOf w = opAmo) : course p w d =
      if isLoad w || isLr p w then .load else if isAmoRmw p w then .amo
      else if writes p d then .store else .finish := by
  have hw : isWfi w = false := by
    obtain ho | ho | ho := ho <;>
      simp +decide [isWfi, sysPlain, isSystem, ho]
  have hm : isMuldiv p w = false := by
    obtain ho | ho | ho := ho <;> simp +decide [isMuldiv, isOp, ho]
  simp [course, hw, hm]

theorem course_of_reads (d : Datapath) (h : reads p w = true) :
    course p w d = .load ∨ course p w d = .amo := by
  have ho : opcodeOf w = opLoad ∨ opcodeOf w = opStore ∨ opcodeOf w = opAmo := by
    obtain ho | ⟨ho, _⟩ := opcode_of_reads h
    · exact .inl ho
    · exact .inr (.inr ho)
  rw [course_eq ho]
  simp only [reads] at h
  cases hl : isLoad w || isLr p w with
  | true => exact .inl rfl
  | false =>
    rw [hl, Bool.false_or] at h
    simp [h]

theorem course_of_writes (h : writes p d = true) :
    course p d.instr d = .store := by
  obtain ho | ⟨ho, hsc, hr⟩ := opcode_of_writes h
  · rw [course_eq (.inr (.inl ho))]
    simp +decide [isLoad, isLr, isAmoRmw, isAmoop, ho, h]
  · rw [course_eq (.inr (.inr ho))]
    simp only [reads, Bool.or_eq_false_iff] at hr
    simp [hr, h]

end decode

section cycle
variable {p : Params} {s : State} {i i' : Input}

theorem instr_congr {s' : State} (hpc : s'.pc = s.pc) (hq : s'.straddleQ = s.straddleQ)
    (hlo : s'.loHalf = s.loHalf) (hi : i'.ibusRdata = i.ibusRdata) :
    instr p s' i' = instr p s i := by
  have hraw : raw16 s' i' = raw16 s i := by
    unfold raw16
    rw [hpc, hi]
  have hc : isC p s' i' = isC p s i := by
    unfold isC
    rw [hq, hraw]
  unfold instr
  rw [hc, hraw, hq, hlo, hi]

theorem exec_of_commit (h : commit p s i = true) : s.state = .exec ∧ needHi p s i = false := by
  simp only [commit, inExec, Bool.and_eq_true, beq_iff_eq, Bool.not_eq_true'] at h
  exact ⟨h.1.1, h.2⟩

theorem issues_idle (hs : s.state ≠ .exec) :
    issueLoad p s i = false ∧ issueStore p s i = false := by
  simp [issueLoad, issueStore, commit, inExec, hs]

end cycle

section fetch
variable {p : Params}

def currentAddr (s : State) : Word := if s.straddleQ then pcWord s + 4#32 else pcWord s

theorem ibusAddr_idle {s : State} {i : Input} (hd : instrDone p s i = false)
    (hf : fetchHiNow p s i = false) : ibusAddr p s i = currentAddr s := by
  simp [ibusAddr, fetchNext, hd, hf, currentAddr]

inductive FetchMove (p : Params) (s : State) (i : Input) : Prop where
  | finish (hd : instrDone p s i = true) (h : fsm p s i = S6Core.finish p s i)
  | straddle (hf : fetchHiNow p s i = true) (hd : instrDone p s i = false)
      (h : fsm p s i = { s with loHalf := i.ibusRdata.extractLsb' 16 16, straddleQ := true })
  | stay (hd : instrDone p s i = false) (hf : fetchHiNow p s i = false) {f : Fsm} {v : Word}
      (hne : f ≠ .fetch) (h : fsm p s i = { s with state := f, amoVal := v })

theorem fetchMove (p : Params) (s : State) (i : Input) (hh : i.halt = false) :
    FetchMove p s i := by
  have hhi (hs : s.state ≠ .exec) : fetchHiNow p s i = false := by
    simp [fetchHiNow, inExec, hs]
  have hkeep {f : Fsm} (hs : s.state = f) (hne : f ≠ .fetch) (hx : f ≠ .exec)
      (hd : instrDone p s i = false) (h : fsm p s i = s) : FetchMove p s i :=
    .stay hd (hhi (hs ▸ hx)) (f := f) (v := s.amoVal) hne (by rw [h, ← hs])
  cases hs : s.state with
  | fetch =>
    exact .stay (f := .exec) (v := s.amoVal) (by simp [instrDone, hs]) (hhi (by simp [hs]))
      (by decide) (by simp [fsm, hh, hs])
  | exec =>
    have hin : inExec s i = true := by simp [inExec, hs, hh]
    cases hn : needHi p s i with
    | true =>
      exact .straddle (by simp [fetchHiNow, hin, hn]) (by simp [instrDone, hs, commit, hn])
        (by simp [fsm, hh, hs, hn])
    | false =>
      have hf : fetchHiNow p s i = false := by simp [fetchHiNow, hn]
      have hc : commit p s i = true := by simp [commit, hin, hn]
      cases hd : trapNow p s i || (execCourse p s i).done i.dbusReady with
      | true => exact .finish (by simp [instrDone, hs, hc, hd]) (by simp [fsm, hh, hs, hn, hd])
      | false =>
        refine .stay (f := (execCourse p s i).waitState) (v := s.amoVal)
          (by simp [instrDone, hs, hd]) hf ?_ (by simp [fsm, hh, hs, hn, hd])
        cases execCourse p s i <;> decide
  | load | store | amoS =>
    cases hr : i.dbusReady with
    | true => exact .finish (by simp [instrDone, hs, hr]) (by simp [fsm, hh, hs, hr])
    | false =>
      exact hkeep hs (by decide) (by decide) (by simp [instrDone, hs, hr])
        (by simp [fsm, hh, hs, hr])
  | amoL =>
    cases hr : i.dbusReady with
    | true =>
      exact .stay (f := .amoS) (by simp [instrDone, hs]) (hhi (by simp [hs])) (by decide)
        (by simp [fsm, hh, hs, hr]; rfl)
    | false =>
      exact hkeep hs (by decide) (by decide) (by simp [instrDone, hs]) (by simp [fsm, hh, hs, hr])
  | md =>
    cases hr : mdDone p s with
    | true => exact .finish (by simp [instrDone, hs, hr]) (by simp [fsm, hh, hs, hr])
    | false =>
      exact hkeep hs (by decide) (by decide) (by simp [instrDone, hs, hr])
        (by simp [fsm, hh, hs, hr])
  | wfi =>
    cases hr : S6Csr.irqAny s.csr i.lines with
    | true => exact .finish (by simp [instrDone, hs, hr]) (by simp [fsm, hh, hs, hr])
    | false =>
      exact hkeep hs (by decide) (by decide) (by simp [instrDone, hs, hr])
        (by simp [fsm, hh, hs, hr])
  | halt => exact hkeep hs (by decide) (by decide) (by simp [instrDone, hs]) (by simp [fsm, hh, hs])

theorem ibusAddr_step {s : State} {i : Input} (hh : i.halt = false)
    (hne : (step p s i).state ≠ .fetch) : ibusAddr p s i = currentAddr (step p s i) := by
  cases fetchMove p s i hh with
  | finish hd h =>
    have hff : p.fastFetch = true := by
      by_contra hff
      simp [step, h, finish, Params.doneState, hff] at hne
    simp [ibusAddr, fetchNext, hff, hd, currentAddr, step, h, finish, pcWord]
  | straddle hf hd h => simp [ibusAddr, fetchNext, hd, hf, currentAddr, step, h, pcWord]
  | stay hd hf _ h =>
    rw [ibusAddr_idle hd hf]
    simp [currentAddr, step, h, pcWord]

end fetch

theorem straddleQ_false {p : Params} (h : p.enableC = false) (r : Run p)
    (hhalt : ∀ t, (r.input t).halt = false) (t : ℕ) : (r.state t).straddleQ = false := by
  refine r.invariant (fun i => i.halt = false) (fun s => s.straddleQ = false) ?_ ?_ hhalt t
  · rintro s ⟨regs, rfl⟩
    rfl
  · intro s i hh hs
    show (step p s i).straddleQ = false
    cases fetchMove p s i hh with
    | finish _ hm => simp [step, hm, finish]
    | straddle hf => simp [fetchHiNow, needHi, h] at hf
    | stay _ _ _ hm => simp [step, hm, hs]

theorem instr_noC {p : Params} (h : p.enableC = false) (r : Run p)
    (hhalt : ∀ t, (r.input t).halt = false) (t : ℕ) :
    instr p (r.state t) (r.input t) = (r.input t).ibusRdata := by
  simp [instr, isC, straddleQ_false h r hhalt t, h]

end RiscvScratch.S6Core
