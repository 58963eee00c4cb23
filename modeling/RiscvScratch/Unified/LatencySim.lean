import RiscvScratch.Unified.Drain
import RiscvScratch.Unified.Operands

/-! The pipeline against the one-instruction machine: `Sim` relates the core and its memory to the
instruction that commits next. -/
namespace RiscvScratch.Unified

variable {c : Cfg} {s : State} {i : Input} {m : Ram} {a : Arch}

def IfId.guess (f : IfId) : Word := if f.predTaken then f.predTarget else f.pc + 4#32
def IdEx.guess (x : IdEx) : Word := if x.predTaken then x.predTarget else x.pc + 4#32

def pcOfId (s : State) (pc : Word) : Word := if s.idex.valid then s.idex.guess else pc

def pcOfIf (s : State) (pc : Word) : Word :=
  if s.ifid.valid then s.ifid.guess else pcOfId s pc

/-- The front end follows from `pc`, the PC of the next instruction to commit. -/
structure Follows (s : State) (pc : Word) : Prop where
  idex : s.idex.valid = true → s.idex.pc = pc
  ifid : s.ifid.valid = true → s.ifid.pc = pcOfId s pc
  fetch : s.pc = pcOfIf s pc

theorem exTaken_ctrl (h : exTaken s = true) : exCtrl s = true := by
  simp only [exTaken, exCtrl, Bool.or_eq_true, Bool.and_eq_true] at h ⊢
  tauto

theorem redirectPc_guess (hg : exGo c s i = true) (hr : redirect c s i = false) :
    redirectPc c s i = s.idex.guess := by
  simp only [redirect, hg, Bool.true_and, Bool.or_eq_false_iff] at hr
  obtain ⟨⟨⟨ht, hm⟩, hs⟩, hp, -⟩ := hr
  simp only [redirectPc, ht, hm, hs, Bool.false_eq_true, ↓reduceIte, IdEx.guess, pc4Ex]
  simp only [mispred] at hp
  cases hc : exCtrl s with
  | true =>
    simp only [hc, ↓reduceIte, Bool.or_eq_false_iff, Bool.and_eq_false_imp, bne_eq_false_iff_eq]
      at hp
    obtain ⟨h1, h2⟩ := hp
    rw [← h1]
    split_ifs with hx
    · exact h2 hx
    · rfl
  | false =>
    have hx : exTaken s = false := by
      by_contra hx
      simp [exTaken_ctrl (Bool.eq_true_of_not_eq_false hx)] at hc
    have hp : s.idex.predTaken = false := by simpa [hc] using hp
    simp [hx, hp]

def pcCommit (c : Cfg) (s : State) (i : Input) (pc : Word) : Word :=
  if exGo c s i then redirectPc c s i else pc

theorem pcCommit_stay (pc : Word) (h : exGo c s i = false) : pcCommit c s i pc = pc := by
  simp [pcCommit, h]

theorem pcCommit_pass {pc : Word} (hf : freeze c s i = false) (hh : exHold c s i = false)
    (hr : redirect c s i = false) : pcCommit c s i pc = pcOfId s pc := by
  unfold pcCommit pcOfId
  cases hv : s.idex.valid with
  | true =>
    have hg : exGo c s i = true := by simp [exGo, hv, hf, hh]
    simp [hg, redirectPc_guess hg hr]
  | false => simp [exGo, hv]

theorem Follows.step {pc : Word} (h : Follows s pc) :
    Follows (step c s i) (pcCommit c s i pc) := by
  cases step_move c s i with
  | frozen hf hpc hid hex _ _ =>
    rw [pcCommit_stay _ (not_exGo_of_freeze hf)]
    refine ⟨?_, ?_, ?_⟩
    · rw [hex]; exact h.idex
    · rw [hid, pcOfId, hex]; exact h.ifid
    · rw [hpc, pcOfIf, pcOfId, hid, hex]; exact h.fetch
  | held _ hh hpc hid hex _ _ =>
    rw [pcCommit_stay _ (not_exGo_of_hold hh)]
    refine ⟨?_, ?_, ?_⟩
    · rw [hex]; exact h.idex
    · rw [hid, pcOfId, hex]; exact h.ifid
    · rw [hpc, pcOfIf, pcOfId, hid, hex]; exact h.fetch
  | flushed hg _ hpc hid hex _ _ =>
    refine ⟨?_, ?_, ?_⟩
    · simp [hex, IdEx.bubble]
    · simp [hid, IfId.bubble]
    · simp [hpc, pcOfIf, pcOfId, hid, hex, IfId.bubble, IdEx.bubble, pcCommit, hg]
  | bubbled hf hh hr _ hpc hid hex _ _ =>
    rw [pcCommit_pass hf hh hr]
    have hq : pcOfId (Unified.step c s i) (pcOfId s pc) = pcOfId s pc := by
      simp [pcOfId, hex, IdEx.bubble]
    refine ⟨?_, ?_, ?_⟩
    · simp [hex, IdEx.bubble]
    · rw [hid, hq]; exact h.ifid
    · rw [hpc, pcOfIf, hid, hq]; exact h.fetch
  | advanced hf hh hr _ hpc hid hex _ _ =>
    rw [pcCommit_pass hf hh hr]
    -- the old ID is the new EX, and the old fetch PC is what follows it
    have hq : pcOfId (Unified.step c s i) (pcOfId s pc) = pcOfIf s pc := by
      simp [pcOfId, pcOfIf, hex, decode, IfId.guess, IdEx.guess]
    refine ⟨?_, ?_, ?_⟩
    · rw [hex]; exact h.ifid
    · rw [hid, hq]
      split_ifs
      · intro _
        exact h.fetch
      · simp [starved]
    · rw [hpc, pcOfIf, hid, hq]
      by_cases ho : ifOk c s i = true
      · rw [if_pos ho, if_pos ho]
        rfl
      · rw [if_neg ho, if_neg ho]
        exact h.fetch

/-- What EX forwards is the register behind all that drains. -/
theorem UpToDate.value {rs : BitVec 5} {held : Word} (h : UpToDate s rs held) :
    forward s rs held = (archRegs s m).read rs := by
  rw [forward, archRegs, Regs.read_write, Regs.read_write]
  split_ifs with h1 h2
  · simp only [Bool.and_eq_true, bne_iff_ne, beq_iff_eq] at h1
    rw [drainValue_eq, if_neg (h.noLoad h1.1.1 h1.1.2 h1.2)]
  · rfl
  · exact h.held (by simpa using h1) (by simpa using h2)

section commit
variable {img : Ram}

theorem ex_plain (hv : c.vExt = false) (ha : a.csr.priv = Csr.privM) : Plain c (a.ex c img) where
  noVec := hv
  mode := ha
  walker := by simp [ptwBusy, Arch.ex, blank, Ptw.busy, Ptw.reset]
  vec := decode_vec hv _ _ _

theorem ex_exGo (hv : c.vExt = false) (ha : a.csr.priv = Csr.privM) :
    exGo c (a.ex c img) (quietInput 0#32) = true := by
  have hx : (a.ex c img).idex.valid = true := rfl
  have hp : mPort (a.ex c img) = false := rfl
  have hf : freeze c (a.ex c img) (quietInput 0#32) = false := by simp [freeze, hp, quietInput]
  have hh : exHold c (a.ex c img) (quietInput 0#32) = false := by
    rw [(ex_plain hv ha).exHold]
    simp [fenceiWait, quietInput]
  simp [exGo, hx, hf, hh]

/-- The instruction in EX is the one at `pc`, whatever was guessed about its successor. -/
def Holding (c : Cfg) (img : Ram) (x : IdEx) (pc : Word) : Prop :=
  ∃ d1 d2 p q, x = { decode c (fetchAt c img pc) d1 d2 with predTaken := p, predTarget := q }

theorem sameEx_of_holding (hx : Holding c img s.idex a.pc)
    (ho : UpToDate s s.idex.rs1 s.idex.rs1d ∧ UpToDate s s.idex.rs2 s.idex.rs2d)
    (hr : archRegs s m = a.regs) (hc : s.csr = a.csr) (hi : s.counters.inhibit = a.inhibit) :
    SameEx s (a.ex c img) := by
  obtain ⟨d1, d2, p, q, hx⟩ := hx
  have h1 : s.idex.rs1 = rs1Of (fetchAt c img a.pc).instr := by rw [hx]; rfl
  have h2 : s.idex.rs2 = rs2Of (fetchAt c img a.pc).instr := by rw [hx]; rfl
  refine ⟨⟨d1, d2, p, q, ?_⟩, ?_, ?_, hc, hi⟩
  · rw [hx]
    rfl
  · rw [opA, ho.1.value, hr, h1]
    rfl
  · rw [opB, ho.2.value, hr, h2]
    rfl

theorem resvOf_mem : resvOf (a.mem c img) = a.resv := by
  rw [resvOf, Arch.mem]
  cases a.resv <;> rfl

section
variable (h : SameEx s (a.ex c img)) (hs : Plain c s) (he : Plain c (a.ex c img))
  (hl : i.lines = (quietInput 0#32).lines) (hgs : exGo c s i = true)
  (hge : exGo c (a.ex c img) (quietInput 0#32) = true)
  (hn : readsCounter c s = true → s.idex.rd = 0#5)
  (hx : (step c s i).exmem = if exKeep c s i then executed c s i else ExMem.bubble)
include h hs he hl hgs hge hn hx

theorem executed_mem : ∃ v, (step c s i).exmem = { (a.mem c img).exmem with result := v } ∧
      (v = (a.mem c img).exmem.result ∨ (a.mem c img).exmem.rd = 0#5) := by
  have hk := h.exKeep hs he hl hgs hge
  rw [hx, hk]
  simp only [Arch.mem]
  cases hk' : exKeep c (a.ex c img) (quietInput 0#32) with
  | false => exact ⟨ExMem.bubble.result, rfl, .inl rfl⟩
  | true =>
    refine ⟨exResult c s i, h.executed hs he, ?_⟩
    cases hn' : readsCounter c s with
    | false => exact .inl (h.exResult hs he hl hn')
    | true =>
      right
      have hrd : s.idex.rd = (a.ex c img).idex.rd := by
        obtain ⟨_, _, _, _, hid⟩ := h.idex
        rw [hid]
      exact hrd.symm.trans (hn hn')

theorem MemSide.commit
    (hd : Drained (step c s i) m a.regs a.ram (if takeTrap c s i then none else a.resv)) :
    MemSide (step c s i) m (a.step c img) ∧
      regWriteEvent (step c s i).exmem.regWrite (step c s i).exmem.rd (drainValue (step c s i) m) =
        a.regOut c img ∧
      pendingWrite (step c s i) m = a.portOut c img := by
  obtain ⟨v, hv, hres⟩ := executed_mem h hs he hl hgs hge hn hx
  have ht := h.takeTrap hs he hl hgs hge
  cases htt : takeTrap c s i with
  | true =>
    -- a trap puts nothing into MEM on either side
    have hk : exKeep c (a.ex c img) (quietInput 0#32) = false := by
      rw [← h.exKeep hs he hl hgs hge]
      simp [exKeep, htt]
    have hm : (a.mem c img).exmem = ExMem.bubble := by simp [Arch.mem, hk]
    have hb : (step c s i).exmem = ExMem.bubble := by
      rw [hx, h.exKeep hs he hl hgs hge, hk]
      rfl
    have hp : ∀ x : State, x.exmem = ExMem.bubble → pendingWrite x a.ram = [] := by
      intro x hx
      simp [pendingWrite, mStore, scOk, hx, ExMem.bubble]
    refine ⟨Drained.bubble ⟨?_, ?_, ?_, hd.amo⟩ hb, ?_, ?_⟩
    · rw [hd.regs, Arch.step, hm]
      rfl
    · rw [hd.ram, Arch.step, hp _ hm]
      rfl
    · rw [hd.resv, Arch.step, ← ht, htt]
      rfl
    · rw [Arch.regOut, hm, hb]
      rfl
    · rw [Arch.portOut, hd.ram, hp _ hm, hp _ hb]
  | false =>
    have hm : SameMem (step c s i) (a.mem c img) v := ⟨hv, by rw [hd.resv, htt, resvOf_mem]; rfl⟩
    refine ⟨⟨?_, ?_, ?_, ?_⟩, ?_, ?_⟩
    · rw [archRegs, hd.regs, hm.write_eq hres, hd.ram, Arch.step]
    · rw [hm.pendingWrite, hd.ram, Arch.step]
    · rw [hm.drainResv, Arch.step, ← ht, htt]
      rfl
    · intro hph
      simp [hd.amo] at hph
    · rw [hm.event_eq hres, hd.ram, Arch.regOut]
    · rw [hm.pendingWrite, hd.ram, Arch.portOut]

end

end commit

structure Sim (c : Cfg) (s : State) (m : Ram) (a : Arch) : Prop where
  mem : MemSide s m a
  front : Follows s a.pc
  operands : OperandsUp s
  csr : s.csr = a.csr
  inhibit : s.counters.inhibit = a.inhibit
  settled : Csr.Settled c.csr s.csr

/-- M-mode without vectors, a memory that answers with its contents, quiet lines, and an instruction
from the image. -/
structure Cycle (c : Cfg) (img : Ram) (s : State) (i : Input) (m : Ram) : Prop where
  plain : Plain c s
  idexWf : s.idex.Wf
  exmemWf : s.exmem.Wf
  backed : Backed c s i m
  lines : i.lines = (quietInput 0#32).lines
  holding : exGo c s i = true → Holding c img s.idex s.idex.pc
  counters : exGo c s i = true → readsCounter c s = true → s.idex.rd = 0#5

def regPend (s : State) (m : Ram) : List RegWrite :=
  regWriteEvent s.memwb.regWrite s.memwb.rd s.memwb.data ++
    regWriteEvent s.exmem.regWrite s.exmem.rd (drainValue s m)

section cycle
variable {img : Ram}

theorem csrCommand_dirty (hv : c.vExt = false) : (csrCommand c s i).setVsDirty = false := by
  simp [csrCommand, hv]

theorem csr_idle (hv : c.vExt = false) (hset : Csr.Settled c.csr s.csr)
    (hg : exGo c s i = false) : (step c s i).csr = s.csr := by
  have hi := idle_of_not_exGo hg
  refine Csr.step_idle hset (csrCommand_dirty hv) ?_
  simp [Csr.commit, csrCommand, hi.takeTrap, hi.mret, hi.sret, hi.csr]

theorem settled_next (hv : c.vExt = false) : Csr.Settled c.csr (step c s i).csr :=
  Csr.settled_step (by simp [Cfg.csr, hv]) (csrCommand_dirty hv)

theorem inhibit_idle (hg : exGo c s i = false) :
    (step c s i).counters.inhibit = s.counters.inhibit := by
  have hc := (idle_of_not_exGo hg).csr
  simp only [step]
  split_ifs
  · simp [nextCounters, hc]
  · rfl

theorem regPend_leave {m' : Ram} (hf : freeze c s i = false)
    (hval : memwbValue s i = drainValue s m) :
    regPend (step c s i) m' =
      regWriteEvent s.exmem.regWrite s.exmem.rd (drainValue s m) ++
        regWriteEvent (step c s i).exmem.regWrite (step c s i).exmem.rd
          (drainValue (step c s i) m') := by
  have hm : (step c s i).memwb = retired s i := by simp [step, nextMemwb, hf, retired]
  rw [regPend, hm, retired, hval]

theorem Sim.stay (h : Sim c s m a) (hc : Cycle c img s i m) (hg : exGo c s i = false) :
    Sim c (step c s i) (m.after (accepted c s i)) a ∧
      regWriteEvent s.memwb.regWrite s.memwb.rd s.memwb.data ++
        regPend (step c s i) (m.after (accepted c s i)) = regPend s m ∧
      accepted c s i ++ pendingWrite (step c s i) (m.after (accepted c s i)) =
        pendingWrite s m := by
  have hrest : MemSide (step c s i) (m.after (accepted c s i)) a →
      Sim c (step c s i) (m.after (accepted c s i)) a := fun hm =>
    ⟨hm, pcCommit_stay a.pc hg ▸ h.front.step, h.operands.step hc.idexWf,
      (csr_idle hc.plain.noVec h.settled hg).trans h.csr, (inhibit_idle hg).trans h.inhibit,
      settled_next hc.plain.noVec⟩
  cases hf : freeze c s i with
  | true =>
    have hq := accepted_frozen hc.plain hc.exmemWf hf
    have hm := h.mem.frozen hc.plain hc.exmemWf hf hc.backed
    rw [hq] at hrest ⊢
    have hs : SameMem (step c s i) s s.exmem.result := by
      obtain ⟨hv, hr⟩ := resv_frozen hc.exmemWf hf
      exact ⟨by simp [step, nextExmem, hf], by rw [resvOf, hv, hr, resvOf]⟩
    refine ⟨hrest hm, ?_, ?_⟩
    · have hwb : (step c s i).memwb = MemWb.bubble := by simp [step, nextMemwb, hf]
      rw [regPend, hwb, Ram.after_nil, hs.event_eq (.inl rfl), regPend]
      rfl
    · rw [Ram.after_nil, hs.pendingWrite]
      rfl
  | false =>
    have hi := idle_of_not_exGo hg
    have hd := h.mem.leave hc.plain hc.exmemWf hf hc.backed
    have hx : (step c s i).exmem = ExMem.bubble := by simp [step, nextExmem, hf, hi.keep]
    rw [hi.takeTrap] at hd
    refine ⟨hrest (hd.bubble hx), ?_, ?_⟩
    · rw [regPend_leave hf (memwbValue_eq hc.plain hc.exmemWf hf hc.backed h.mem.amo), hx, regPend]
      simp [regWriteEvent, ExMem.bubble]
    · rw [accepted_leave hc.plain hc.exmemWf hf h.mem.amo]
      simp [pendingWrite, mStore, scOk, hx, ExMem.bubble]

theorem Sim.commit (h : Sim c s m a) (hc : Cycle c img s i m) (hg : exGo c s i = true) :
    Sim c (step c s i) (m.after (accepted c s i)) (a.step c img) ∧
      regWriteEvent s.memwb.regWrite s.memwb.rd s.memwb.data ++
        regPend (step c s i) (m.after (accepted c s i)) = regPend s m ++ a.regOut c img ∧
      accepted c s i ++ pendingWrite (step c s i) (m.after (accepted c s i)) =
        pendingWrite s m ++ a.portOut c img := by
  obtain ⟨hv, hf, -⟩ := exGo_inv hg
  have hhold : Holding c img s.idex a.pc := h.front.idex hv ▸ hc.holding hg
  have hs := sameEx_of_holding hhold (h.operands hv) h.mem.regs h.csr h.inhibit
  have hmode : a.csr.priv = Csr.privM := h.csr ▸ hc.plain.mode
  have he : Plain c (a.ex c img) := ex_plain hc.plain.noVec hmode
  have hge : exGo c (a.ex c img) (quietInput 0#32) = true := ex_exGo hc.plain.noVec hmode
  have hx : (step c s i).exmem = if exKeep c s i then executed c s i else ExMem.bubble := by
    simp [step, nextExmem, hf]
  obtain ⟨hm, hreg, hport⟩ := MemSide.commit hs hc.plain he hc.lines hg hge (hc.counters hg) hx
    (h.mem.leave hc.plain hc.exmemWf hf hc.backed)
  refine ⟨⟨hm, ?_, h.operands.step hc.idexWf, ?_, ?_, settled_next hc.plain.noVec⟩, ?_,
    ?_⟩
  · have hpc : (a.step c img).pc = pcCommit c s i a.pc := by
      rw [pcCommit, if_pos hg, hs.redirectPc hc.plain he hc.lines hg hge]
      rfl
    rw [hpc]
    exact h.front.step
  · have hk := hs.csrCommand hc.plain he hc.lines hg hge
    show Csr.step c.csr s.csr (csrCommand c s i) = _
    rw [hk, h.csr]
    rfl
  · have hi := hs.inhibit_next hc.plain he hc.lines hg hge
    simp only [step, Arch.step]
    split_ifs
    · exact hi
    · exact h.inhibit
  · rw [regPend_leave hf (memwbValue_eq hc.plain hc.exmemWf hf hc.backed h.mem.amo), hreg, regPend,
      List.append_assoc]
  · rw [hport, accepted_leave hc.plain hc.exmemWf hf h.mem.amo]

end cycle

end RiscvScratch.Unified
