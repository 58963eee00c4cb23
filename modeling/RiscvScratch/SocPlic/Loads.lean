import RiscvScratch.SocPlic.Soc

/-! Loads of `cpu_mc` on its SoC: one that is not trapped in EXEC goes on to MEM unchanged and is
written back there. -/
namespace RiscvScratch

namespace CpuMc
open Sys

variable {s : State} {i : CpuMcC.Input}

/-- The strobe of an executing cycle is that of a load, not of the atomics this core traps, with no
interrupt to take. -/
def LoadUninterrupted (s : State) (i : CpuMcC.Input) : Prop :=
  inExec s = true → memRead i = true →
    opcodeOf (instr i) = opLoad ∧ CpuMcC.irqPending (datapath s i) = false

theorem traps_of_load (ho : opcodeOf (instr i) = opLoad)
    (hirq : CpuMcC.irqPending (datapath s i) = false) : traps s i = false := by
  have hsys : isSystem (instr i) = false := by simp [isSystem, ho, opLoad]
  have hknown : opKnown (instr i) = true := by simp [opKnown, ho, opLoad]
  have hinstr : (datapath s i).instr = instr i := rfl
  have hC : (datapath s i).isC = false := rfl
  simp [traps, CpuMcC.takeTrap, CpuMcC.exception, CpuMcC.illegalInstr, CpuMcC.privViolation, hinstr,
    hC, hirq, hknown, isMret, isCsr, isEcall, isEbreak, hsys]

theorem traps_eq_false (h : LoadUninterrupted s i) (he : inExec s = true) (hr : memRead i = true) :
    traps s i = false :=
  traps_of_load (h he hr).1 (h he hr).2

theorem silent_of_traps (h : LoadUninterrupted s i) (he : inExec s = true)
    (ht : traps s i = true) : dmemWe s i = 0 ∧ dmemRe s i = false := by
  constructor
  · simp [dmemWe, ht]
  · have hr : memRead i = false := by
      by_contra hr
      have := traps_eq_false h he (by simpa using hr)
      simp [ht] at this
    simp [dmemRe, hr]

theorem memWrite_of_memRead (hr : memRead i = true) : memWrite i = false :=
  (control_wf _ _ _).memWrite_of_memRead hr

theorem not_system_of_memRead (hr : memRead i = true) : isSystem (instr i) = false := by
  by_contra h
  have := ctrlOf_system (w := instr i) (by simpa using h)
  rw [memRead, this] at hr
  cases hr

theorem step_load (he : inExec s = true) (hr : memRead i = true) (ht : traps s i = false)
    (hh : i.halt = false) : step s i = { s with state := .mem } := by
  have hst : s.state = .exec := by simpa [inExec] using he
  have hsys := not_system_of_memRead hr
  have hcsr : Zicsr.step s.csr (csrCommand s i) = s.csr := by
    apply Zicsr.step_idle
    · simp [csrCommand, ht]
    · simp [csrCommand, isMret, hsys]
    · simp [csrCommand, isCsr, hsys]
  have hwe : rfWe s i = false := by simp [rfWe, hr, inMem, hst]
  have hfsm : fsm s i = { s with state := .mem } := by simp [fsm, hh, hst, ht, hr]
  rw [step, hfsm, hcsr, hwe, Regs.write_false]

theorem step_mem_regs (hm : s.state = .mem) (hr : memRead i = true) :
    (step s i).regs =
      s.regs.write true (rdOf (instr i)) (CpuMcC.loadVal (datapath s i) i.dmemRdata) := by
  have hwf := control_wf (opcodeOf (instr i)) (funct3Of (instr i)) (funct7Of (instr i))
  have hwe : rfWe s i = true := by
    have hreg : (ctrlOf (instr i)).regWrite = true := hwf.regWrite_of_memRead hr
    simp [rfWe, inExec, inMem, hm, hreg]
  have hsel : (ctrlOf (instr i)).wbSel = .mem := hwf.wbSel_mem.mpr hr
  have hcsr : isCsr (instr i) = false := by simp [isCsr, not_system_of_memRead hr]
  have hwb : writeBack s i = CpuMcC.loadVal (datapath s i) i.dmemRdata := by
    have hinstr : (datapath s i).instr = instr i := rfl
    simp [writeBack, CpuMcC.wbFinal, CpuMcC.wbData, hinstr, hcsr, hsel]
  rw [step, hwe, hwb]

theorem loadVal_congr {d d' : CpuMcC.Datapath} (hi : d.instr = d'.instr)
    (ha : CpuMcC.aluResult d = CpuMcC.aluResult d') (w : Word) :
    CpuMcC.loadVal d w = CpuMcC.loadVal d' w := by
  unfold CpuMcC.loadVal CpuMcC.ba
  rw [hi, ha]

theorem exec_of_step (h : (step s i).state = .exec) :
    s.state = .fetch ∧ (step s i).pc = s.pc := by
  have hf : (fsm s i).state = .exec := h
  have hfetch : s.state = .fetch := by
    unfold fsm at hf
    cases hs : s.state <;> simp only [hs] at hf <;> split_ifs at hf <;> simp_all [finish]
  refine ⟨hfetch, ?_⟩
  change (fsm s i).pc = s.pc
  unfold fsm
  rw [hfetch]
  split_ifs <;> rfl

theorem mem_of_step (h : (step s i).state = .mem) :
    s.state = .exec ∧ memRead i = true ∧ traps s i = false ∧ i.halt = false := by
  have hf : (fsm s i).state = .mem := h
  unfold fsm at hf
  cases hs : s.state <;> simp only [hs] at hf <;> split_ifs at hf <;> simp_all [finish]

theorem fetch_of_store (hw : dmemWe s i ≠ 0) (hh : i.halt = false) :
    (step s i).state = .fetch := by
  have hwe : inExec s = true ∧ memWrite i = true ∧ traps s i = false := by
    by_contra hno
    apply hw
    apply if_neg
    intro hall
    simp only [Bool.and_eq_true, Bool.not_eq_true'] at hall
    exact hno ⟨hall.1.1, hall.1.2, hall.2⟩
  have hst : s.state = .exec := by simpa [inExec] using hwe.1
  have hr : memRead i = false := by
    by_contra hr
    have := memWrite_of_memRead (i := i) (by simpa using hr)
    simp [hwe.2.1] at this
  change (fsm s i).state = .fetch
  simp [fsm, hh, hst, hwe.2.2, hr, finish]

end CpuMc

namespace SocPlic

variable {c : Config} {s : State c} {i : Input}

def fetched (s : State c) : Word := c.rom (s.core.pc.extractLsb' 2 c.romBits)

/-- The instruction register holds what the program counter names, and in MEM there is a load whose
claim was made in EXEC. -/
structure Ok (s : State c) : Prop where
  halted : s.haltR = true → s.core.state = .fetch ∨ s.core.state = .halt
  instr : s.core.state = .exec ∨ s.core.state = .mem → s.irdata = fetched s
  load : s.core.state = .mem → CpuMc.memRead (coreInput s 0#32) = true
  claim : s.core.state = .mem → ∀ i, SimplePlic.claimRd (plicInput s i) = true →
    s.plic.claimD = true

theorem core_step (s : State c) (i : Input) :
    (step s i).core = CpuMc.step s.core (coreInput s (drdata s i)) := rfl

structure Loading (s : State c) : Prop where
  exec : s.core.state = .exec
  read : CpuMc.memRead (coreInput s 0#32) = true
  untrapped : CpuMc.traps s.core (coreInput s 0#32) = false

theorem Ok.not_halt (h : Ok s) (he : s.core.state = .exec) : s.haltR = false := by
  by_contra hh
  rcases h.halted (by simpa using hh) with hf | hf <;> simp [he] at hf

theorem Loading.core (hl : Loading s) (h : Ok s) :
    (step s i).core = { s.core with state := .mem } := by
  refine CpuMc.step_load ?_ hl.read hl.untrapped (h.not_halt hl.exec)
  simp [CpuMc.inExec, hl.exec]

theorem Loading.irdata (hl : Loading s) (h : Ok s) : (step s i).irdata = s.irdata :=
  (h.instr (.inl hl.exec)).symm

theorem Loading.daddr (hl : Loading s) (h : Ok s) : daddr (step s i) = daddr s := by
  unfold SocPlic.daddr CpuMc.dmemAddr CpuMcC.aluResult CpuMc.datapath CpuMc.instr coreInput
  rw [hl.core h, hl.irdata h]

theorem Loading.dwe (hl : Loading s) : dwe s = 0 := by
  have := CpuMc.memWrite_of_memRead hl.read
  simp [SocPlic.dwe, CpuMc.dmemWe, this]

theorem dwe_mem (hm : s.core.state = .mem) : dwe s = 0 := by
  simp [dwe, CpuMc.dmemWe, CpuMc.inExec, hm]

theorem Loading.dre (hl : Loading s) : dre s = true := by
  have hr := hl.read
  simp [SocPlic.dre, CpuMc.dmemRe, hr, CpuMc.inExec, hl.exec]

theorem Loading.again (hl : Loading s) (h : Ok s) :
    wrAny s = false ∧ wrAny (step s i) = false ∧ SocPlic.dre (step s i) = true := by
  have hm : (step s i).core.state = .mem := by rw [hl.core h]
  have hr : CpuMc.memRead (coreInput (step s i) 0#32) = true := by
    have := hl.read
    simpa [CpuMc.memRead, CpuMc.instr, coreInput, hl.irdata h] using this
  refine ⟨by simp [wrAny, hl.dwe], by simp [wrAny, dwe_mem hm], ?_⟩
  simp [SocPlic.dre, CpuMc.dmemRe, hr, CpuMc.inMem, hm]

theorem Loading.selPlic (hl : Loading s) (h : Ok s) : selPlic (step s i) = selPlic s := by
  obtain ⟨hw, hw', hd⟩ := hl.again (i := i) h
  simp [SocPlic.selPlic, selIo, dvalid, region, hl.daddr h, hw, hw', hd, hl.dre]

theorem Loading.selUart (hl : Loading s) (h : Ok s) : selUart (step s i) = selUart s := by
  obtain ⟨hw, hw', hd⟩ := hl.again (i := i) h
  simp [SocPlic.selUart, selIo, dvalid, region, hl.daddr h, hw, hw', hd, hl.dre]

theorem Loading.claimRd (hl : Loading s) (h : Ok s) (i' : Input) :
    SimplePlic.claimRd (plicInput (step s i) i') = SimplePlic.claimRd (plicInput s i) := by
  obtain ⟨hw, hw', -⟩ := hl.again (i := i) h
  simp [SimplePlic.claimRd, SimplePlic.isClaim, SimplePlic.page, plicInput, hl.selPlic h,
    hl.daddr h, hw, hw']

theorem reset_ok (regs : Regs) (a b : Word) : Ok (reset c regs a b) := by
  refine ⟨?_, ?_, ?_, ?_⟩
  · intro h; cases h
  · rintro (h | h) <;> cases h
  · intro h; cases h
  · intro h; cases h

theorem loading_of_mem (hm : (step s i).core.state = .mem) : Loading s := by
  obtain ⟨he, hr, ht, -⟩ := CpuMc.mem_of_step hm
  exact ⟨he, hr, ht⟩

theorem step_ok (h : Ok s) : Ok (step s i) := by
  refine ⟨?_, ?_, ?_, ?_⟩
  · intro hh
    by_cases hold : s.haltR = true
    · right
      change (CpuMc.fsm s.core _).state = .halt
      simp [CpuMc.fsm, coreInput, hold]
    · left
      have hw : wrAny s = true := by
        simp [step, hold] at hh
        exact hh.2
      have hne : dwe s ≠ 0 := by simpa [wrAny] using hw
      exact CpuMc.fetch_of_store (i := coreInput s (drdata s i)) hne (Bool.eq_false_iff.mpr hold)
  · rintro (he | hm)
    · obtain ⟨-, hpc⟩ := CpuMc.exec_of_step he
      change c.rom _ = c.rom ((step s i).core.pc.extractLsb' 2 c.romBits)
      rw [core_step, hpc]
      rfl
    · have hl := loading_of_mem hm
      change c.rom _ = c.rom ((step s i).core.pc.extractLsb' 2 c.romBits)
      rw [hl.core h]
      rfl
  · intro hm
    have hl := loading_of_mem hm
    have := hl.read
    simpa [CpuMc.memRead, CpuMc.instr, coreInput, hl.irdata h] using this
  · intro hm i' hc
    have hl := loading_of_mem hm
    rw [hl.claimRd h] at hc
    exact hc

theorem run_ok (r : Run c) (t : ℕ) : Ok (r.state t) :=
  r.invariant (fun _ => True) Ok (by rintro s ⟨regs, a, b, rfl⟩; exact reset_ok regs a b)
    (fun _ _ _ h => step_ok h) (fun _ => trivial) t

/-- The registers after a load whose second cycle is `t + 1`, which read `v` there. -/
theorem Loading.written (hl : Loading s) (h : Ok s) (i' : Input) :
    (step (step s i) i').core.regs = s.core.regs.write true (rdOf s.irdata)
      (CpuMcC.loadVal (CpuMc.datapath s.core (coreInput s 0#32)) (drdata (step s i) i')) := by
  have hm : (step s i).core.state = .mem := by rw [hl.core h]
  have hok := step_ok (i := i) h
  have hregs := CpuMc.step_mem_regs (i := coreInput (step s i) (drdata (step s i) i')) hm
    (hok.load hm)
  rw [core_step, hregs, hl.core h]
  congr 1
  · exact congrArg rdOf (hl.irdata (i := i) h)
  · rw [← hl.core (i := i) h]
    exact CpuMc.loadVal_congr (hl.irdata (i := i) h) (hl.daddr (i := i) h) _

end SocPlic
end RiscvScratch
