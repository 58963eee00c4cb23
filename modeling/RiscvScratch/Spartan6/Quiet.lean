import RiscvScratch.Spartan6.Bench

/-! A program that executes no SYSTEM instruction and takes no trap does not notice the interrupt
lines. -/
namespace RiscvScratch.S6Core
variable {p : Params} {s : State} {i : Input}

def Input.hush (i : Input) : Input := { i with lines := quiet }

/-- The cycle executes no SYSTEM instruction and takes no trap. -/
structure Plain (p : Params) (s : State) (i : Input) : Prop where
  system : commit p s i = true → isSystem (instr p s i) = false
  trap : trapNow p s i = false

section
variable (h : Plain p s i)
include h

theorem Plain.trap_hush : trapNow p s i.hush = false := by
  have hirq : irqPending (datapath p s i.hush) = false := by
    simp [irqPending, S6Csr.irqPending, datapath, Input.hush, irqAny_quiet]
  have hexc : (commit p s i && excAny p (datapath p s i)) = false := by
    have := h.trap
    simp only [trapNow, Bool.and_eq_false_iff, Bool.or_eq_false_iff] at this ⊢
    exact this.imp id And.right
  simp only [trapNow, hirq, Bool.false_or]
  exact hexc

theorem Plain.isCsr : (isCsr (instr p s i) && commit p s i) = false := by
  cases hc : commit p s i with
  | false => simp
  | true => simp [S6Core.isCsr, h.system hc]

theorem Plain.instrDone_hush (hw : s.state ≠ .wfi) :
    instrDone p s i.hush = instrDone p s i := by
  unfold instrDone
  rw [h.trap, h.trap_hush]
  cases hs : s.state with
  | wfi => exact absurd hs hw
  | fetch | exec | load | store | md | amoL | amoS | halt => rfl

theorem Plain.next_hush : next p s i.hush = next p s i := by
  unfold next
  rw [h.trap, h.trap_hush]
  rfl

theorem Plain.fsm_hush (hw : s.state ≠ .wfi) :
    fsm p s i.hush = fsm p s i := by
  have hfin : finish p s i.hush = finish p s i := by rw [finish, finish, h.next_hush]
  unfold fsm
  rw [h.trap, h.trap_hush, hfin]
  cases hs : s.state with
  | wfi => exact absurd hs hw
  | fetch | exec | load | store | md | amoL | amoS | halt => rfl

theorem Plain.rfWe_hush : rfWe p s i.hush = rfWe p s i := by
  unfold rfWe
  rw [h.trap, h.trap_hush]
  rfl

theorem Plain.write_hush (hr : rfWe p s i = true) :
    wbData p s i.hush = wbData p s i := by
  unfold wbData
  unfold rfWe at hr
  cases hs : s.state with
  | load | md | amoS => rfl
  | fetch | exec | store | amoL | wfi | halt =>
    simp only [hs, Bool.and_eq_true] at hr
    have hcsr : S6Core.isCsr (datapath p s i).instr = false := by
      simpa [hr.1.1, datapath] using h.isCsr
    have hcsr' : S6Core.isCsr (datapath p s i.hush).instr = false := hcsr
    simp only [execWb, hcsr, hcsr', Bool.false_eq_true, if_false]
    rfl

theorem Plain.csr_hush (hw : s.state ≠ .wfi) :
    S6Csr.step p.csr s.csr i.hush.lines (csrCommand p s i.hush) =
      S6Csr.step p.csr s.csr i.lines (csrCommand p s i) := by
  have hwe : (csrCommand p s i).we = false := by simp [csrCommand, h.isCsr]
  have hwe' : (csrCommand p s i.hush).we = false := by
    show (S6Core.isCsr (instr p s i) && commit p s i && _) = false
    rw [h.isCsr, Bool.false_and]
  have hret : (csrCommand p s i.hush).retire = (csrCommand p s i).retire := by
    show retireOut p s i.hush = retireOut p s i
    rw [retireOut, retireOut, h.trap, h.trap_hush, h.instrDone_hush hw]
  have hwr : S6Csr.written p.csr s.csr i.hush.lines (csrCommand p s i.hush) =
      S6Csr.written p.csr s.csr i.lines (csrCommand p s i) := by
    simp [S6Csr.written, hwe, hwe', hret]
  have hm : (csrCommand p s i.hush).mret = (csrCommand p s i).mret := by
    show (_ && _ && !trapNow p s i.hush) = (_ && _ && !trapNow p s i)
    rw [h.trap, h.trap_hush]
    rfl
  have ht : (csrCommand p s i).trapTake = false := h.trap
  have ht' : (csrCommand p s i.hush).trapTake = false := h.trap_hush
  simp only [S6Csr.step, ht, ht', hm, hwr, Bool.false_eq_true, if_false]

theorem Plain.dbusWe_hush : dbusWe p s i.hush = dbusWe p s i := by
  unfold dbusWe issueStore
  rw [h.trap, h.trap_hush]
  rfl

theorem Plain.ibusAddr_hush (hw : s.state ≠ .wfi) :
    ibusAddr p s i.hush = ibusAddr p s i := by
  unfold ibusAddr fetchNext
  rw [h.instrDone_hush hw, h.next_hush]
  rfl

theorem Plain.step_hush (hw : s.state ≠ .wfi) :
    step p s i.hush = step p s i := by
  have hregs : s.regs.write (rfWe p s i.hush) (rdOf (instr p s i.hush)) (wbData p s i.hush) =
      s.regs.write (rfWe p s i) (rdOf (instr p s i)) (wbData p s i) := by
    rw [h.rfWe_hush]
    cases hr : rfWe p s i with
    | false => rw [Regs.write_false, Regs.write_false]
    | true =>
      rw [h.write_hush hr]
      rfl
  have hmd : mdStart p s i.hush = mdStart p s i := by
    unfold mdStart
    rw [h.trap, h.trap_hush]
    rfl
  have hvalid : resValidNext p s i.hush = resValidNext p s i := by
    unfold resValidNext storeHitsRes
    rw [h.trap, h.trap_hush, h.dbusWe_hush]
    rfl
  have haddr : resAddrNext p s i.hush = resAddrNext p s i := by
    unfold resAddrNext
    rw [h.trap, h.trap_hush]
    rfl
  unfold step
  rw [h.fsm_hush hw, hregs, h.csr_hush hw, hmd, hvalid, haddr]
  rfl

theorem Plain.fsm_ne_wfi (hw : s.state ≠ .wfi) :
    (fsm p s i).state ≠ .wfi := by
  have hdone : p.doneState ≠ .wfi := by
    unfold Params.doneState
    split <;> decide
  have hcourse : commit p s i = true → (execCourse p s i).waitState ≠ .wfi := by
    intro hc
    have hwfi : isWfi (instr p s i) = false := by
      simp [isWfi, sysPlain, h.system hc]
    unfold execCourse course
    rw [hwfi, if_neg Bool.false_ne_true]
    split_ifs <;> decide
  cases hh : i.halt with
  | true => simp [fsm, hh]
  | false =>
    cases hs : s.state with
    | wfi => exact absurd hs hw
    | fetch | halt => simp [fsm, hh, hs]
    | load | store | amoS | amoL | md =>
      simp only [fsm, hh, hs, Bool.false_eq_true, if_false]
      split <;> simp [finish, hdone, hs]
    | exec =>
      cases hn : needHi p s i with
      | true => simp [fsm, hh, hs, hn]
      | false =>
        have hc : commit p s i = true := by simp [commit, inExec, hs, hh, hn]
        simp only [fsm, hh, hs, hn, Bool.false_eq_true, if_false]
        split
        · exact hdone
        · exact hcourse hc

end

section run
variable {r : Run p}

theorem state_ne_wfi (h : ∀ t, Plain p (r.state t) (r.input t)) (t : ℕ) :
    (r.state t).state ≠ .wfi := by
  induction t with
  | zero =>
    obtain ⟨regs, h0⟩ := r.starts
    simp [h0, reset]
  | succ t ih =>
    rw [run_step]
    exact (h t).fsm_ne_wfi ih

def hushed (r : Run p) (h : ∀ t, Plain p (r.state t) (r.input t)) : Run p where
  state := r.state
  input t := (r.input t).hush
  starts := r.starts
  steps t := (r.steps t).trans ((h t).step_hush (state_ne_wfi h t)).symm

end run

end RiscvScratch.S6Core
