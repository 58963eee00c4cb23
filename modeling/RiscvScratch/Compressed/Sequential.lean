import RiscvScratch.Clocked.Machine
import RiscvScratch.Clocked.Multicycle
import RiscvScratch.Compressed.Executes

/-! `cpu_mc_c` executes exactly the program: cut at its fetch cycles, every run is a run of the
interpreter. -/
namespace RiscvScratch.Compressed
variable {μ : Type*}

def mcEffects (s : CpuMcC.State) (i : CpuMcC.Input) : List Effect :=
  byteEffects (CpuMcC.dmemAddr s i) (CpuMcC.dmemWe s i) (CpuMcC.wdata s i) ++
    regEffect (CpuMcC.rfWe s i) (rdOf (CpuMcC.instr s i)) (CpuMcC.writeBack s i)

end RiscvScratch.Compressed

namespace RiscvScratch.Rv32imc
open Compressed CpuMcC
variable {μ : Type*}

def core : Clocked.Machine CpuMcC.State CpuMcC.Input where
  init s := s.state = .fetch ∧ s.straddleQ = false
  step := CpuMcC.step

def ofReset {resetPc : Word} (r : CpuMcC.Run resetPc) : core.Run where
  state := r.state
  input := r.input
  starts := by
    obtain ⟨loHalf, regs, h⟩ := r.starts
    rw [h]
    exact ⟨rfl, rfl⟩
  steps := r.steps

/-- Registered memories: the word of an address comes a cycle after it. -/
structure Served (r : core.Run) (image : Word → Word) (bus : ByteBus μ) (mem : ℕ → μ) : Prop where
  halt : ∀ t, (r.input t).halt = false
  fetch : ∀ t, (r.input (t + 1)).imemRdata = image (imemAddr (r.state t) (r.input t))
  data : ∀ t, (r.state t).state = .mem →
    (r.input t).dmemRdata = (bus.read (mem t) (dmemAddr (r.state t) (r.input t))).1
  mem : ∀ t, mem (t + 1) =
    if dmemWe (r.state t) (r.input t) ≠ 0#4 then
      bus.write (mem t) (lanes (dmemAddr (r.state t) (r.input t))
        (dmemWe (r.state t) (r.input t)) (wdata (r.state t) (r.input t)))
    else if (r.state t).state = .mem then
      (bus.read (mem t) (dmemAddr (r.state t) (r.input t))).2
    else mem t

theorem getLsbD_one (x : Word) : x.getLsbD 1 = decide (x.toNat / 2 % 2 = 1) := by
  rw [BitVec.getLsbD, Nat.testBit_eq_decide_div_mod_eq]

theorem toNat_wordAddr (x : Word) :
    (x.extractLsb' 2 30 ++ 0b00#2 : Word).toNat = x.toNat / 4 * 4 := by
  rw [BitVec.toNat_append]
  simp [Nat.shiftRight_eq_div_pow, Nat.shiftLeft_eq]
  omega

/-- The next halfword is the other half of the word, or begins the next one. -/
theorem next_halfword (pc : Word) : (pc + 2#32).getLsbD 1 = !pc.getLsbD 1 ∧
    (pc + 2#32).extractLsb' 2 30 ++ 0b00#2 =
      (pc.extractLsb' 2 30 ++ 0b00#2 : Word) + if pc.getLsbD 1 then 4#32 else 0#32 := by
  have hlt := pc.isLt
  have hsum : (pc + 2#32).toNat = (pc.toNat + 2) % 2 ^ 32 := BitVec.toNat_add ..
  rw [getLsbD_one, getLsbD_one, hsum]
  constructor
  · rw [← decide_not, decide_eq_decide]
    omega
  · apply BitVec.eq_of_toNat_eq
    rw [toNat_wordAddr, hsum, BitVec.toNat_add, toNat_wordAddr]
    split_ifs with h <;> rw [decide_eq_true_iff] at h <;> simp only [BitVec.toNat_ofNat] <;> omega

theorem halfword_after_upper (image : Word → Word) {pc : Word} (h : pc.getLsbD 1 = true) :
    halfword image (pc + 2#32) =
      (image (pc.extractLsb' 2 30 ++ 0b00#2 + 4#32)).extractLsb' 0 16 := by
  obtain ⟨hbit, haddr⟩ := next_halfword pc
  rw [halfword, hbit, haddr, h]
  rfl

theorem halfword_pair (image : Word → Word) {pc : Word} (h : pc.getLsbD 1 = false) :
    halfword image (pc + 2#32) ++ halfword image pc =
      image (pc.extractLsb' 2 30 ++ 0b00#2) := by
  obtain ⟨hbit, haddr⟩ := next_halfword pc
  rw [h] at hbit haddr
  rw [halfword, hbit, haddr, halfword, h, Bool.not_false, if_pos rfl, if_neg Bool.false_ne_true,
    if_neg Bool.false_ne_true, BitVec.add_zero]
  apply BitVec.eq_of_toNat_eq
  have hword := (image (pc.extractLsb' 2 30 ++ 0b00#2)).isLt
  rw [BitVec.toNat_append, ← Nat.shiftLeft_add_eq_or_of_lt (BitVec.isLt _), Nat.shiftLeft_eq,
    BitVec.extractLsb'_toNat, BitVec.extractLsb'_toNat, Nat.shiftRight_eq_div_pow,
    Nat.shiftRight_zero]
  omega

structure Fronts (image : Word → Word) (s : State) (i : Input) : Prop where
  word : i.imemRdata = image (if s.straddleQ then pcWord s + 4#32 else pcWord s)
  low : s.straddleQ = true → s.pc.getLsbD 1 = true ∧
    s.loHalf = (image (pcWord s)).extractLsb' 16 16 ∧ s.loHalf.extractLsb' 0 2 = 0b11#2

section fronts
variable {image : Word → Word} {s : State} {i : Input}

theorem Fronts.raw16_eq (h : Fronts image s i) (hs : s.straddleQ = false) :
    raw16 s i = halfword image s.pc := by
  have hw := h.word
  rw [hs, if_neg Bool.false_ne_true, pcWord] at hw
  rw [raw16, hw, halfword]

theorem Fronts.fetched (h : Fronts image s i) (hn : needHi s i = false) :
    instr s i = (fetch image s.pc).word ∧
      (if isC s i then 2#32 else 4#32) = (fetch image s.pc).size ∧
      (if isC s i then (Rvc.expand (raw16 s i)).2 else !Sys.opKnown (instr s i)) =
        !(fetch image s.pc).legal := by
  cases hs : s.straddleQ with
  | true =>
    obtain ⟨hbit, hlow, hfull⟩ := h.low hs
    have hw := h.word
    rw [hs, if_pos rfl] at hw
    have hhalf : halfword image s.pc = s.loHalf := by rw [halfword, if_pos hbit, hlow, pcWord]
    have hc : isC s i = false := by rw [isC, hs]; rfl
    have hins : instr s i = halfword image (s.pc + 2#32) ++ halfword image s.pc := by
      rw [instr, hs, if_pos rfl, hw, hhalf, halfword_after_upper image hbit, pcWord]
    rw [hc, hins, fetch, hhalf, if_pos hfull]
    exact ⟨rfl, rfl, rfl⟩
  | false =>
    have hraw := h.raw16_eq hs
    by_cases hfull : (halfword image s.pc).extractLsb' 0 2 = 0b11#2
    · have hbit : s.pc.getLsbD 1 = false := by
        simpa [needHi, hs, hraw, hfull] using hn
      have hc : isC s i = false := by simp [isC, hs, hraw, hfull]
      have hw := h.word
      rw [hs, if_neg Bool.false_ne_true, pcWord] at hw
      have hins : instr s i = halfword image (s.pc + 2#32) ++ halfword image s.pc := by
        rw [instr, hs, if_neg Bool.false_ne_true, hc, if_neg Bool.false_ne_true, hw,
          halfword_pair image hbit]
      rw [hc, hins, fetch, if_pos hfull]
      exact ⟨rfl, rfl, rfl⟩
    · have hc : isC s i = true := by simp [isC, hs, hraw, hfull]
      have hins : instr s i = (Rvc.expand (halfword image s.pc)).1 := by
        rw [instr, hs, if_neg Bool.false_ne_true, hc, if_pos rfl, hraw]
      rw [hc, hins, hraw, fetch, if_neg hfull]
      exact ⟨rfl, rfl, (Bool.not_not _).symm⟩

end fronts

structure Agrees (s : State) (m : μ) (a : Arch μ) : Prop where
  pc : s.pc = a.pc
  regs : s.regs = a.regs
  csr : s.csr = a.csr
  mem : m = a.mem

/-- In cycle `t` the core is about to fetch the instruction at `a.pc`. -/
structure Rests (r : core.Run) (mem : ℕ → μ) (t : ℕ) (a : Arch μ) : Prop where
  state : (r.state t).state = .fetch
  straddle : (r.state t).straddleQ = false
  agrees : Agrees (r.state t) (mem t) a

/-- In cycle `t` the whole instruction at `a.pc` is in front of the core. -/
structure Works (r : core.Run) (image : Word → Word) (mem : ℕ → μ) (t : ℕ) (a : Arch μ)
    (f : Fsm) : Prop where
  state : (r.state t).state = f
  fronts : Fronts image (r.state t) (r.input t)
  whole : needHi (r.state t) (r.input t) = false
  agrees : Agrees (r.state t) (mem t) a

section instruction
variable {r : core.Run} {image : Word → Word} {bus : ByteBus μ} {mem : ℕ → μ} {t : ℕ}
  {a : Arch μ} {f : Fsm}

theorem core_step (r : core.Run) (t : ℕ) : r.state (t + 1) = CpuMcC.step (r.state t) (r.input t) :=
  r.steps t

theorem Works.sees (h : Works r image mem t a f) :
    Sees (fetch image a.pc) (r.input t).lines a (datapath (r.state t) (r.input t)) := by
  obtain ⟨hi, hsize, hill⟩ := h.fronts.fetched h.whole
  rw [h.agrees.pc] at hi hsize hill
  refine ⟨h.agrees.pc, hi, hsize, hill, ?_, ?_, h.agrees.csr, rfl⟩
  · rw [← hi, ← h.agrees.regs]; rfl
  · rw [← hi, ← h.agrees.regs]; rfl

theorem idle_cycle (hb : Served r image bus mem) (hc : commit (r.state t) (r.input t) = false)
    (hs : (r.state t).state ≠ .mem) :
    mcEffects (r.state t) (r.input t) = [] ∧ dmemWe (r.state t) (r.input t) = 0#4 ∧
      dmemRe (r.state t) (r.input t) = false ∧ (r.state (t + 1)).regs = (r.state t).regs ∧
      (r.state (t + 1)).csr = (r.state t).csr ∧ mem (t + 1) = mem t := by
  have hwe : dmemWe (r.state t) (r.input t) = 0#4 := by simp [dmemWe, hc]
  have hrf : rfWe (r.state t) (r.input t) = false := by
    have hc' : ((r.state t).state == .exec && !needHi (r.state t) (r.input t)) = false := hc
    simp [rfWe, hc', hs]
  rw [core_step]
  refine ⟨by simp [mcEffects, hwe, hrf, regEffect], hwe, by simp [dmemRe, hc, hs], ?_, ?_, ?_⟩
  · show (r.state t).regs.write (rfWe _ _) _ _ = _
    rw [hrf, Regs.write_false]
  · show Zicsr.step _ (csrCommand _ _) = _
    apply Zicsr.step_idle <;> simp [csrCommand, hc]
  · rw [hb.mem, hwe, if_neg (not_not.mpr rfl), if_neg hs]

theorem Rests.fetches (hb : Served r image bus mem) (h : Rests r mem t a) :
    ∃ n > 0, Works r image mem (t + n) a .exec ∧
      ∀ u, t ≤ u → u < t + n → commit (r.state u) (r.input u) = false ∧
        mcEffects (r.state u) (r.input u) = [] := by
  have hc0 : commit (r.state t) (r.input t) = false := by simp [commit, h.state]
  have hs0 : (r.state t).state ≠ .mem := by simp [h.state]
  obtain ⟨hout0, -, -, hregs0, hcsr0, hmem0⟩ := idle_cycle hb hc0 hs0
  have hnext : r.state (t + 1) = { r.state t with
      state := .exec, csr := (r.state (t + 1)).csr, regs := (r.state (t + 1)).regs } := by
    rw [core_step]
    simp only [CpuMcC.step, fsm, hb.halt, h.state, Bool.false_eq_true, if_false]
  have hpc1 : (r.state (t + 1)).pc = (r.state t).pc := by rw [hnext]
  have hs1 : (r.state (t + 1)).straddleQ = false := by rw [hnext]; exact h.straddle
  have he1 : (r.state (t + 1)).state = .exec := by rw [hnext]
  have hagrees1 : Agrees (r.state (t + 1)) (mem (t + 1)) a :=
    ⟨hpc1.trans h.agrees.pc, hregs0.trans h.agrees.regs, hcsr0.trans h.agrees.csr,
      hmem0.trans h.agrees.mem⟩
  have haddr0 : imemAddr (r.state t) (r.input t) = pcWord (r.state (t + 1)) := by
    simp [imemAddr, h.straddle, fetchHiNow, h.state, pcWord, hpc1]
  have hfronts1 : Fronts image (r.state (t + 1)) (r.input (t + 1)) := by
    refine ⟨?_, fun hq => absurd (hs1.symm.trans hq) Bool.false_ne_true⟩
    rw [hs1, if_neg Bool.false_ne_true, hb.fetch, haddr0]
  cases hn : needHi (r.state (t + 1)) (r.input (t + 1)) with
  | false =>
    refine ⟨1, Nat.one_pos, ⟨he1, hfronts1, hn, hagrees1⟩, fun u hu hut => ?_⟩
    obtain rfl : u = t := by omega
    exact ⟨hc0, hout0⟩
  | true =>
    have hc1 : commit (r.state (t + 1)) (r.input (t + 1)) = false := by simp [commit, hn]
    obtain ⟨hout1, -, -, hregs1, hcsr1, hmem1⟩ := idle_cycle hb hc1 (by simp [he1])
    have hnext2 : r.state (t + 2) = { r.state (t + 1) with
        loHalf := (r.input (t + 1)).imemRdata.extractLsb' 16 16, straddleQ := true, state := .exec,
        csr := (r.state (t + 2)).csr, regs := (r.state (t + 2)).regs } := by
      rw [core_step r (t + 1)]
      simp only [CpuMcC.step, fsm, hb.halt, he1, hn, Bool.false_eq_true, if_false, if_true]
    have hpc2 : (r.state (t + 2)).pc = (r.state (t + 1)).pc := by rw [hnext2]
    have hs2 : (r.state (t + 2)).straddleQ = true := by rw [hnext2]
    have hword1 := hfronts1.word
    rw [hs1, if_neg Bool.false_ne_true] at hword1
    have hneed := hn
    simp only [needHi, hs1, raw16, Bool.not_false, Bool.true_and, Bool.and_eq_true,
      beq_iff_eq] at hneed
    obtain ⟨hbit, hlow⟩ := hneed
    rw [if_pos hbit] at hlow
    have haddr1 : imemAddr (r.state (t + 1)) (r.input (t + 1)) =
        pcWord (r.state (t + 2)) + 4#32 := by
      simp [imemAddr, fetchHiNow, he1, hn, pcWord, hpc2]
    have hfronts2 : Fronts image (r.state (t + 2)) (r.input (t + 2)) := by
      refine ⟨?_, fun _ => ⟨hpc2 ▸ hbit, ?_, ?_⟩⟩
      · rw [hs2, if_pos rfl, hb.fetch, haddr1]
      · rw [hnext2, hword1]
        rfl
      · rw [hnext2]
        exact hlow
    refine ⟨2, Nat.two_pos, ⟨by rw [hnext2], hfronts2, by simp [needHi, hs2], ?_⟩,
      fun u hu hut => ?_⟩
    · exact ⟨hpc2.trans hagrees1.pc, hregs1.trans hagrees1.regs, hcsr1.trans hagrees1.csr,
        hmem1.trans hagrees1.mem⟩
    · obtain rfl | rfl : u = t ∨ u = t + 1 := by omega
      · exact ⟨hc0, hout0⟩
      · exact ⟨hc1, hout1⟩

theorem Works.commit (h : Works r image mem t a .exec) :
    commit (r.state t) (r.input t) = true := by
  simp [CpuMcC.commit, h.state, h.whole]

/-- The cycle ends the instruction: `pc` moves on and the next fetch begins. -/
theorem Works.rests_next (h : Works r image mem t a f)
    (hfsm : fsm (r.state t) (r.input t) = finish (r.state t) (r.input t)) {a' : Arch μ}
    (hpc : next (r.state t) (r.input t) = a'.pc)
    (hregs : a.regs.write (rfWe (r.state t) (r.input t)) (rdOf (instr (r.state t) (r.input t)))
      (writeBack (r.state t) (r.input t)) = a'.regs)
    (hcsr : Zicsr.step a.csr (csrCommand (r.state t) (r.input t)) = a'.csr)
    (hmem : mem (t + 1) = a'.mem) : Rests r mem (t + 1) a' := by
  have hstep := core_step r t
  rw [CpuMcC.step, hfsm] at hstep
  refine ⟨by rw [hstep]; rfl, by rw [hstep]; rfl, ?_, ?_, ?_, hmem⟩
  · rw [hstep]; exact hpc
  · rw [hstep, ← hregs, ← h.agrees.regs]
  · rw [hstep, ← hcsr, ← h.agrees.csr]

theorem Works.traps (hb : Served r image bus mem) (h : Works r image mem t a .exec)
    (ht : takeTrap (datapath (r.state t) (r.input t)) = true) :
    Rests r mem (t + 1) (step bus (r.input t).lines a image).1 ∧
      mcEffects (r.state t) (r.input t) = (step bus (r.input t).lines a image).2 := by
  have hc := h.commit
  have hcause := h.sees.cause_eq
  rw [ht, if_pos rfl] at hcause
  have hstep : step bus (r.input t).lines a image = ({ a with
      pc := a.csr.mtvec
      csr := Zicsr.trapEnter a.csr a.pc (trapCause (datapath (r.state t) (r.input t))) }, []) := by
    simp only [step, hcause]
  have hwe : dmemWe (r.state t) (r.input t) = 0#4 := by simp [dmemWe, ht]
  have hrf : rfWe (r.state t) (r.input t) = false := by simp [rfWe, ht, h.state]
  rw [hstep]
  refine ⟨h.rests_next ?_ ?_ ?_ ?_ ?_, ?_⟩
  · simp [fsm, hb.halt, h.state, h.whole, ht]
  · rw [next, nextPc, ht, hc]
    exact congrArg Zicsr.State.mtvec h.agrees.csr
  · rw [hrf]; rfl
  · simp [Zicsr.step, csrCommand, ht, hc, h.agrees.pc]
  · rw [hb.mem, hwe, if_neg (not_not.mpr rfl), if_neg (by simp [h.state])]
    exact h.agrees.mem
  · simp [mcEffects, hwe, hrf, regEffect]

theorem Works.known (bus : ByteBus μ) (h : Works r image mem t a f)
    (ht : takeTrap (datapath (r.state t) (r.input t)) = false) :
    Sys.opKnown (fetch image a.pc).word = true ∧
      step bus (r.input t).lines a image = execute bus (r.input t).lines a (fetch image a.pc) := by
  have hcause := h.sees.cause_eq
  rw [ht, if_neg Bool.false_ne_true] at hcause
  refine ⟨opKnown_fetch ?_, by simp only [step, hcause]⟩
  have hill := h.sees.illegal
  have hexc : illegalInstr (datapath (r.state t) (r.input t)) = false := by
    simp only [takeTrap, exception, Bool.or_eq_false_iff] at ht
    exact ht.1.1.1
  rw [illegalInstr, Bool.or_eq_false_iff, hill] at hexc
  simpa using hexc.1

section
variable (hb : Served r image bus mem) (h : Works r image mem t a .exec)
  (ht : takeTrap (datapath (r.state t) (r.input t)) = false)
include hb h ht

theorem Works.ends_now (hr : (ctrlOf (instr (r.state t) (r.input t))).memRead = false) :
    Rests r mem (t + 1) (step bus (r.input t).lines a image).1 ∧
      mcEffects (r.state t) (r.input t) = (step bus (r.input t).lines a image).2 := by
  have hc := h.commit
  obtain ⟨hk, hstep⟩ := h.known bus ht
  have hi : instr (r.state t) (r.input t) = (fetch image a.pc).word := h.sees.instr
  have hwb : writeBack (r.state t) (r.input t) =
      wbFinal (datapath (r.state t) (r.input t)) 0#32 := wbFinal_of_memRead_false hr _ _
  have hrf : rfWe (r.state t) (r.input t) = (Sys.isCsr (instr (r.state t) (r.input t)) ||
      (ctrlOf (instr (r.state t) (r.input t))).regWrite) := by
    simp [rfWe, h.state, h.whole, ht, hr]
  have hwe : dmemWe (r.state t) (r.input t) =
      if (ctrlOf (instr (r.state t) (r.input t))).memWrite then
        wmask (datapath (r.state t) (r.input t)) else 0#4 := by
    simp [dmemWe, hc, ht]
  have hcmd : csrCommand (r.state t) (r.input t) = csrOf (datapath (r.state t) (r.input t)) := by
    rw [csrCommand, csrOf, hc, ht]
    simp only [Bool.and_true, Bool.not_false]
    rfl
  rw [hstep, h.sees.executes ht hk (hi ▸ hr)]
  refine ⟨h.rests_next ?_ ?_ ?_ ?_ ?_, ?_⟩
  · simp [fsm, hb.halt, h.state, h.whole, ht, hr]
  · rw [next, hc]; rfl
  · rw [hrf, hwb]; rfl
  · rw [hcmd]; rfl
  · rw [hb.mem, if_neg (show ¬(r.state t).state = .mem by simp [h.state]), hwe, h.agrees.mem]
    rfl
  · rw [mcEffects, hrf, hwb, hwe]
    rfl

theorem Works.waits (hr : (ctrlOf (instr (r.state t) (r.input t))).memRead = true)
    (hs : Sys.isMret (instr (r.state t) (r.input t)) = false ∧
      Sys.isCsr (instr (r.state t) (r.input t)) = false) :
    Works r image mem (t + 1) a .mem ∧ mcEffects (r.state t) (r.input t) = [] := by
  have hwf := ctrlOf_wf (instr (r.state t) (r.input t))
  have hwe : dmemWe (r.state t) (r.input t) = 0#4 := by
    simp [dmemWe, hwf.memWrite_of_memRead hr]
  have hrf : rfWe (r.state t) (r.input t) = false := by simp [rfWe, h.state, hr]
  have hcsr : Zicsr.step (r.state t).csr (csrCommand (r.state t) (r.input t)) =
      (r.state t).csr := by
    refine Zicsr.step_idle _ ?_ ?_ ?_ <;> simp [csrCommand, ht, hs.1, hs.2]
  have hnext : r.state (t + 1) = { r.state t with state := .mem } := by
    rw [core_step, CpuMcC.step, hcsr, hrf]
    simp only [fsm, hb.halt, h.state, h.whole, ht, hr, Bool.false_eq_true, if_false, if_true,
      Regs.write_false]
  have hmem : mem (t + 1) = mem t := by
    rw [hb.mem, hwe, if_neg (not_not.mpr rfl), if_neg (by simp [h.state])]
  have haddr : imemAddr (r.state t) (r.input t) =
      if (r.state t).straddleQ then pcWord (r.state t) + 4#32 else pcWord (r.state t) := by
    simp [imemAddr, fetchHiNow, h.whole]
  have hword : (r.input (t + 1)).imemRdata = (r.input t).imemRdata := by
    rw [hb.fetch, haddr, h.fronts.word]
  refine ⟨⟨by rw [hnext], ?_, ?_, ?_⟩, ?_⟩
  · rw [hnext]
    exact ⟨hword.trans h.fronts.word, h.fronts.low⟩
  · rw [hnext, needHi, raw16, hword]
    exact h.whole
  · rw [hnext, hmem]
    exact ⟨h.agrees.pc, h.agrees.regs, h.agrees.csr, h.agrees.mem⟩
  · simp [mcEffects, hwe, hrf, regEffect]

end

theorem Works.loads (hb : Served r image bus mem) (h : Works r image mem t a .mem)
    (ho : opcodeOf (fetch image a.pc).word = opLoad) (lines : Zicsr.Lines) :
    Rests r mem (t + 1) (execute bus lines a (fetch image a.pc)).1 ∧
      mcEffects (r.state t) (r.input t) = (execute bus lines a (fetch image a.pc)).2 := by
  have hi : instr (r.state t) (r.input t) = (fetch image a.pc).word := h.sees.instr
  have hc : CpuMcC.commit (r.state t) (r.input t) = false := by simp [CpuMcC.commit, h.state]
  have hwe : dmemWe (r.state t) (r.input t) = 0#4 := by simp [dmemWe, hc]
  have hrf : rfWe (r.state t) (r.input t) = true := by
    have hctrl : (ctrlOf (fetch image a.pc).word).regWrite = true := by
      rw [ctrlOf, ho]
      rfl
    simp [rfWe, h.state, hi, hctrl]
  have hdata := hb.data t h.state
  have hwb : writeBack (r.state t) (r.input t) = wbFinal (datapath (r.state t) (r.input t))
      (bus.read a.mem (aluResult (datapath (r.state t) (r.input t)))).1 := by
    rw [writeBack, hdata, h.agrees.mem]
    rfl
  rw [h.sees.exec_load ho lines]
  refine ⟨h.rests_next ?_ ?_ ?_ ?_ ?_, ?_⟩
  · simp [fsm, hb.halt, h.state]
  · rw [next, hc]
    rfl
  · rw [hrf, hwb, hi]
    rfl
  · refine Zicsr.step_idle _ ?_ ?_ ?_ <;> simp [csrCommand, hc]
  · rw [hb.mem, hwe, if_neg (not_not.mpr rfl), if_pos h.state, h.agrees.mem]
    rfl
  · rw [mcEffects, hwe, byteEffects_zero, hrf, hwb, hi]
    rfl

theorem Works.completes (hb : Served r image bus mem) (h : Works r image mem t a .exec) :
    ∃ n > 0, Rests r mem (t + n) (step bus (r.input t).lines a image).1 ∧
      Clocked.span (fun u => mcEffects (r.state u) (r.input u)) t n =
        (step bus (r.input t).lines a image).2 ∧
      ∀ u, t < u → u < t + n → CpuMcC.commit (r.state u) (r.input u) = false := by
  cases ht : takeTrap (datapath (r.state t) (r.input t)) with
  | true =>
    obtain ⟨hrest, hout⟩ := h.traps hb ht
    exact ⟨1, Nat.one_pos, hrest, by rw [Clocked.span_one, hout], fun u hu hut => by omega⟩
  | false =>
    cases hr : (ctrlOf (instr (r.state t) (r.input t))).memRead with
    | false =>
      obtain ⟨hrest, hout⟩ := h.ends_now hb ht hr
      exact ⟨1, Nat.one_pos, hrest, by rw [Clocked.span_one, hout], fun u hu hut => by omega⟩
    | true =>
      have hi : instr (r.state t) (r.input t) = (fetch image a.pc).word := h.sees.instr
      obtain ⟨hk, hstep⟩ := h.known bus ht
      have ho : opcodeOf (fetch image a.pc).word = opLoad := load_of_memRead hk (hi ▸ hr)
      obtain ⟨hcsr, hmret⟩ := not_system ho (by decide)
      obtain ⟨hmem, hout⟩ := h.waits hb ht hr (by rw [hi]; exact ⟨hmret, hcsr⟩)
      obtain ⟨hrest, hout'⟩ := hmem.loads hb ho (r.input t).lines
      rw [hstep]
      refine ⟨2, Nat.two_pos, hrest, ?_, fun u hu hut => ?_⟩
      · rw [Clocked.span_succ, Clocked.span_one, hout, List.nil_append, hout']
      · obtain rfl : u = t + 1 := by omega
        simp [CpuMcC.commit, hmem.state]

end instruction

/-- What the core shows of the architecture in cycle `t`. -/
def archAt (r : core.Run) (mem : ℕ → μ) (t : ℕ) : Arch μ :=
  ⟨(r.state t).pc, (r.state t).regs, (r.state t).csr, mem t⟩

/-- The cycles from one fetch to the next execute the instruction at `a.pc`, in the one commit
cycle among them. -/
structure Executed (r : core.Run) (image : Word → Word) (bus : ByteBus μ) (mem : ℕ → μ)
    (start commitAt next : ℕ) (a : Arch μ) : Prop where
  rests : Rests r mem start a
  after : start < commitAt
  before : commitAt < next
  commits : ∀ t, start ≤ t → t < next →
    (commit (r.state t) (r.input t) = true ↔ t = commitAt)
  instr : instr (r.state commitAt) (r.input commitAt) = (fetch image a.pc).word
  outcome : Rests r mem next (step bus (r.input commitAt).lines a image).1
  effects : Clocked.span (fun u => mcEffects (r.state u) (r.input u)) start (next - start) =
    (step bus (r.input commitAt).lines a image).2

theorem span_quiet {r : core.Run} {t n : ℕ} (h : ∀ u, t ≤ u → u < t + n →
    commit (r.state u) (r.input u) = false ∧ mcEffects (r.state u) (r.input u) = []) :
    Clocked.span (fun u => mcEffects (r.state u) (r.input u)) t n = [] := by
  refine List.flatMap_eq_nil_iff.mpr fun u hu => ?_
  rw [List.mem_range'_1] at hu
  exact (h u hu.1 hu.2).2

theorem Rests.executed {r : core.Run} {image : Word → Word} {bus : ByteBus μ} {mem : ℕ → μ} {t : ℕ}
    {a : Arch μ} (hb : Served r image bus mem) (h : Rests r mem t a) :
    ∃ c n, Executed r image bus mem t c n a := by
  obtain ⟨m, hm, hworks, hquiet⟩ := h.fetches hb
  obtain ⟨n, hn, hrest, hspan, hafter⟩ := hworks.completes hb
  refine ⟨t + m, t + m + n, h, by omega, by omega, fun u hu hun => ⟨fun hc => ?_, ?_⟩,
    hworks.sees.instr, hrest, ?_⟩
  · by_contra hne
    have hno : commit (r.state u) (r.input u) = false := by
      rcases Nat.lt_or_gt_of_ne hne with hlt | hgt
      · exact (hquiet u hu hlt).1
      · exact hafter u hgt hun
    exact Bool.false_ne_true (hno.symm.trans hc)
  · rintro rfl
    exact hworks.commit
  · rw [Nat.add_assoc, Nat.add_sub_cancel_left, Clocked.span_add, span_quiet hquiet,
      List.nil_append, hspan]

end RiscvScratch.Rv32imc

namespace RiscvScratch.Compressed
variable {μ : Type*}

/-- Registered memories in front of `cpu_mc_c` as it comes out of reset. -/
def McBench {resetPc : Word} (r : CpuMcC.Run resetPc) (image : Word → Word) (bus : ByteBus μ)
    (mem : ℕ → μ) : Prop := Rv32imc.Served (Rv32imc.ofReset r) image bus mem

/-- The registered instruction word and the data memory of `cpu_mc_c`. -/
structure McBoard (μ : Type*) where
  imemRdata : Word
  mem : μ

section board
variable (image : Word → Word) (bus : ByteBus μ)

def McBoard.input (e : McBoard μ) (rdata : Word) : CpuMcC.Input :=
  ⟨e.imemRdata, rdata, ⟨false, false⟩, false⟩

def McBoard.answer (e : McBoard μ) (s : CpuMcC.State) : CpuMcC.Input :=
  e.input (bus.read e.mem (CpuMcC.dmemAddr s (e.input 0#32))).1

def McBoard.react (e : McBoard μ) (s : CpuMcC.State) (i : CpuMcC.Input) : McBoard μ where
  imemRdata := image (CpuMcC.imemAddr s i)
  mem :=
    if CpuMcC.dmemWe s i ≠ 0#4 then
      bus.write e.mem (lanes (CpuMcC.dmemAddr s i) (CpuMcC.dmemWe s i) (CpuMcC.wdata s i))
    else if s.state = .mem then (bus.read e.mem (CpuMcC.dmemAddr s i)).2
    else e.mem

variable (resetPc : Word) (regs : Regs) (m : μ)

def mcBoardRun : CpuMcC.Run resetPc :=
  (CpuMcC.machine resetPc).coupledRun (McBoard.answer bus) (McBoard.react image bus)
    (CpuMcC.reset resetPc 0#16 regs, ⟨0#32, m⟩) ⟨0#16, regs, rfl⟩

def mcBoardMem (t : ℕ) : μ :=
  ((CpuMcC.machine resetPc).coupledEnv (McBoard.answer bus) (McBoard.react image bus)
    (CpuMcC.reset resetPc 0#16 regs, ⟨0#32, m⟩) t).mem

theorem mcBoard_bench : McBench (mcBoardRun image bus resetPc regs m) image bus
      (mcBoardMem image bus resetPc regs m) := by
  constructor
  · exact fun _ => rfl
  · exact fun _ => rfl
  · exact fun _ _ => rfl
  · exact fun _ => rfl

end board

def byteRam : ByteBus (Word → BitVec 8) where
  read m addr :=
    let at' (k : BitVec 2) := m (addr.extractLsb' 2 30 ++ k)
    (at' 3#2 ++ at' 2#2 ++ at' 1#2 ++ at' 0#2, m)
  write m bs := bs.foldl (fun m b => Function.update m b.1 b.2) m

/-- `c.addi x1, 1` and `c.sw x8, 0(x8)`, over and over. -/
def countImage (_ : Word) : Word := 0xC0000085#32

end RiscvScratch.Compressed

namespace RiscvScratch.Rv32imc
open Compressed

end RiscvScratch.Rv32imc
