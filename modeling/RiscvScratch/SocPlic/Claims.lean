import RiscvScratch.SocPlic.Loads

/-! The read strobe of `cpu_mc` against its traps. `dmem_re` is not gated by `take_trap`, so a load
that an interrupt replaces still strobes the bus, and the interrupt controller answers with a claim
nobody reads. -/
namespace RiscvScratch.SocPlic

variable {c : Config} {s : State c} {i i' : Input} {k : ℕ}

instance (s : CpuMc.State) (i : CpuMcC.Input) : Decidable (CpuMc.LoadUninterrupted s i) :=
  inferInstanceAs (Decidable (_ → _ → _ ∧ _))

/-- The load of the cycle puts `w` in its register two edges later. -/
def Delivers (r : Run c) (t : ℕ) (w : Word) : Prop :=
  (r.state t).core.state = .exec ∧ (r.state (t + 1)).core.state = .mem ∧
    (r.state (t + 2)).core.regs = (r.state t).core.regs.write true (rdOf (r.state t).irdata)
      (CpuMcC.loadVal (CpuMc.datapath (r.state t).core (coreInput (r.state t) 0#32)) w)

theorem Loading.delivers {r : Run c} {t : ℕ} (hl : Loading (r.state t)) :
    Delivers r t (drdata (r.state (t + 1)) (r.input (t + 1))) := by
  have hok := run_ok r t
  refine ⟨hl.exec, ?_, ?_⟩
  · rw [r.steps]
    change (step (r.state t) (r.input t)).core.state = .mem
    rw [hl.core hok]
  · rw [r.steps (t + 1), r.steps t]
    exact hl.written hok _

theorem claimStb_of_claims (h : SimplePlic.claims plicParams s.plic (plicInput s i) k = true) :
    SimplePlic.claimRd (plicInput s i) = true ∧ s.plic.claimD = false ∧
      SimplePlic.claimId plicParams s.plic = k := by
  simp only [SimplePlic.claims, SimplePlic.claimStb, Bool.and_eq_true, Bool.not_eq_true',
    beq_iff_eq] at h
  exact ⟨h.1.1.1, h.1.1.2, h.2⟩

theorem dre_of_claimRd (h : SimplePlic.claimRd (plicInput s i) = true) : dre s = true := by
  simp only [SimplePlic.claimRd, SimplePlic.isClaim, plicInput, Bool.and_eq_true,
    Bool.not_eq_true'] at h
  obtain ⟨⟨⟨hsel, -⟩, -⟩, hwe⟩ := h
  have hw : wrAny s = false := by simpa [hsel] using hwe
  simp only [selPlic, selIo, dvalid, hw, Bool.or_false, Bool.and_eq_true] at hsel
  exact hsel.1.1

theorem loading_of_claims (hok : Ok s)
    (hu : CpuMc.LoadUninterrupted s.core (coreInput s 0#32))
    (h : SimplePlic.claims plicParams s.plic (plicInput s i) k = true) : Loading s := by
  obtain ⟨hrd, hd, -⟩ := claimStb_of_claims h
  have hre := dre_of_claimRd hrd
  simp only [dre, CpuMc.dmemRe, Bool.and_eq_true, Bool.or_eq_true] at hre
  obtain ⟨hread, he | hm⟩ := hre
  · exact ⟨by simpa [CpuMc.inExec] using he, hread, CpuMc.traps_eq_false hu he hread⟩
  · -- in MEM the claim was already made
    have hmem : s.core.state = .mem := by simpa [CpuMc.inMem] using hm
    have := hok.claim hmem i hrd
    rw [hd] at this
    cases this

theorem drdata_of_claims (hok : Ok s) (hl : Loading s)
    (h : SimplePlic.claims plicParams s.plic (plicInput s i) k = true) :
    drdata (step s i) i' = BitVec.ofNat 32 k := by
  obtain ⟨hrd, hd, hid⟩ := claimStb_of_claims h
  have hrd' := hl.claimRd (i := i) hok i'
  rw [hrd] at hrd'
  have hstb : SimplePlic.claimStb s.plic (plicInput s i) = true := by
    simp [SimplePlic.claimStb, hrd, hd]
  have hstb' : SimplePlic.claimStb (step s i).plic (plicInput (step s i) i') = false := by
    have hd' : (step s i).plic.claimD = true := hrd
    simp [SimplePlic.claimStb, hd']
  have hreg : (step s i).plic.claimedReg = BitVec.ofNat 32 k := by
    change (if SimplePlic.claimStb s.plic (plicInput s i) then _ else _) = _
    rw [if_pos hstb, hid]
  simp only [SimplePlic.claimRd, Bool.and_eq_true] at hrd'
  have hclaim := hrd'.1
  have hpage : SimplePlic.page (plicInput (step s i) i') = 3 := by
    simp only [SimplePlic.isClaim, Bool.and_eq_true, beq_iff_eq] at hclaim
    exact hclaim.1.2
  have hsel : selPlic (step s i) = true := by
    simp only [SimplePlic.isClaim, plicInput, Bool.and_eq_true] at hclaim
    exact hclaim.1.1
  have huart : selUart (step s i) = false := by
    simp only [selPlic, Bool.and_eq_true, beq_iff_eq] at hsel
    simp [selUart, hsel.2]
  have hthresh : SimplePlic.isThresh (plicInput (step s i) i') = false := by
    simp only [SimplePlic.isClaim, Bool.and_eq_true] at hclaim
    simp [SimplePlic.isThresh, hclaim.2]
  simp [drdata, huart, hsel, SimplePlic.rdata, SimplePlic.isPrio, SimplePlic.isPend,
    SimplePlic.isEn, hpage, hthresh, hclaim, hstb', hreg]

/-- Where no interrupt is pending in the cycle of a load, a trapped instruction is silent on the
bus, and a claim of source `k` puts `k` in a register. -/
theorem trapped_silent (resetPc : Word) (q : CpuMc.Run resetPc) (c : Config) (r : Run c) (t : ℕ) :
    (CpuMc.LoadUninterrupted (q.state t) (q.input t) →
      CpuMc.inExec (q.state t) = true → CpuMc.traps (q.state t) (q.input t) = true →
        CpuMc.dmemWe (q.state t) (q.input t) = 0 ∧
          CpuMc.dmemRe (q.state t) (q.input t) = false) ∧
    (CpuMc.LoadUninterrupted (r.state t).core (coreInput (r.state t) 0#32) →
      ∀ k, SimplePlic.claims plicParams (r.state t).plic (plicInput (r.state t) (r.input t)) k =
          true →
        Delivers r t (BitVec.ofNat 32 k)) := by
  constructor
  · intro hu he ht
    exact CpuMc.silent_of_traps hu he ht
  · intro hu k hk
    have hok := run_ok r t
    have hl := loading_of_claims hok hu hk
    have hdata : drdata (r.state (t + 1)) (r.input (t + 1)) = BitVec.ofNat 32 k := by
      rw [r.steps]
      exact drdata_of_claims hok hl hk
    rw [← hdata]
    exact hl.delivers

/-- Registers that point into the interrupt controller, with the values the program below writes. -/
def plicRegs : Regs := fun a =>
  [0, 0x10020008, 1, 0x10022000, 4, 0x800, 0x10023004].getD a.toNat 0

/-- A program in the ROM; the external line of source 2 is high in one cycle. -/
def pulsed (program : List Word) (pulse : ℕ) :
    Run ⟨4, 4, fun a => program.getD a.toNat 0, fun _ => 0, { defClks := 434 }⟩ :=
  (machine _).runOf (fun t _ => ⟨true, fun k => k == 1 && t == pulse⟩) (reset _ plicRegs 0 0)
    ⟨_, _, _, rfl⟩

def claimProgram : List Word := [0x0020a023, 0x0041a023, 0x00032383]

/-- The same with the external interrupt enabled before the read. -/
def interruptedProgram : List Word :=
  [0x0020a023, 0x0041a023, 0x3042a073, 0x30046073, 0x00032383]

/-- A core alone that executes nothing but `nop`. -/
def idleRun : CpuMc.Run 0 :=
  (CpuMc.machine 0).runOf (fun _ _ => ⟨0x00000013, 0, ⟨false, false⟩, false⟩)
    (CpuMc.reset 0 fun _ => 0) ⟨_, rfl⟩

theorem claimProgram_delivers : SimplePlic.claims plicParams ((pulsed claimProgram 3).state 5).plic
        (plicInput ((pulsed claimProgram 3).state 5) ((pulsed claimProgram 3).input 5)) 2 = true ∧
      Delivers (pulsed claimProgram 3) 5 2#32 :=
  ⟨by decide +kernel,
    (trapped_silent 0 idleRun _ (pulsed claimProgram 3) 5).2 (by decide +kernel) 2
      (by decide +kernel)⟩

/-- The line rises as the load is fetched: the load is trapped in EXEC, the strobe is high, and the
source is put in service. -/
theorem interrupted_claims : CpuMc.inExec ((pulsed interruptedProgram 8).state 9).core = true ∧
      CpuMc.traps ((pulsed interruptedProgram 8).state 9).core
        (coreInput ((pulsed interruptedProgram 8).state 9) 0#32) = true ∧
      dre ((pulsed interruptedProgram 8).state 9) = true ∧
      SimplePlic.claims plicParams ((pulsed interruptedProgram 8).state 9).plic
        (plicInput ((pulsed interruptedProgram 8).state 9)
          ((pulsed interruptedProgram 8).input 9)) 2 = true ∧
      ((pulsed interruptedProgram 8).state 9).plic.pend.getLsbD 2 = true ∧
      ((pulsed interruptedProgram 8).state 10).plic.pend.getLsbD 2 = false ∧
      ((pulsed interruptedProgram 8).state 10).plic.infl.getLsbD 2 = true ∧
      ((pulsed interruptedProgram 8).state 10).core.state = .fetch := by
  decide +kernel

end RiscvScratch.SocPlic
