import RiscvScratch.Compressed.Datapaths
import RiscvScratch.Spartan6.Program

/-! One instruction on the two RV32IMC cores, where it is not SYSTEM and does not trap. -/
namespace RiscvScratch.Compressed
variable {μ : Type*}

/-- A memory that is written by byte lanes. A read may have an effect. -/
structure ByteBus (μ : Type*) where
  read : μ → Word → Word × μ
  write : μ → List (Word × BitVec 8) → μ

def ByteBus.words (bus : ByteBus μ) : S6Core.WordBus μ where
  read := bus.read
  write m addr mask data := bus.write m (lanes addr mask data)

/-- A register write other than to `x0`, or a byte written to memory. -/
inductive Effect where
  | reg (rd : BitVec 5) (value : Word)
  | byte (addr : Word) (value : BitVec 8)
  deriving DecidableEq, Repr

def regEffect (we : Bool) (rd : BitVec 5) (v : Word) : List Effect :=
  if we && rd != 0#5 then [.reg rd v] else []

def byteEffects (addr : Word) (mask : BitVec 4) (data : Word) : List Effect :=
  (lanes addr mask data).map fun b => .byte b.1 b.2

def effectOf : S6Core.Event → List Effect
  | .reg rd v => [.reg rd v]
  | .write addr mask data => byteEffects addr mask data
  | .retire _ | .trap _ _ _ | .read _ => []

@[simp] theorem byteEffects_zero (addr data : Word) : byteEffects addr 0#4 data = [] := by
  simp [byteEffects, lanes_zero]

@[simp] theorem flatMap_regEvent (we : Bool) (rd : BitVec 5) (v : Word) :
    (S6Core.regEvent we rd v).flatMap effectOf = regEffect we rd v := by
  unfold S6Core.regEvent regEffect
  split <;> rfl

structure Outcome (μ : Type*) where
  pc : Word
  regs : Regs
  mem : μ
  effects : List Effect

def Outcome.ofArch (x : S6Core.Arch μ × List S6Core.Event) : Outcome μ :=
  ⟨x.1.pc, x.1.regs, x.1.mem, x.2.flatMap effectOf⟩

/-- An instruction of `cpu_mc_c` that does not trap: a load ends in `S_MEM`, all others in
`S_EXEC`. -/
def outcome (bus : ByteBus μ) (regs : Regs) (m : μ) (e : CpuMcC.Datapath) : Outcome μ :=
  let c := ctrlOf e.instr
  if c.memRead then
    let x := bus.read m (CpuMcC.aluResult e)
    ⟨CpuMcC.nextPc e false, regs.write c.regWrite (rdOf e.instr) (CpuMcC.wbFinal e x.1), x.2,
      regEffect c.regWrite (rdOf e.instr) (CpuMcC.wbFinal e x.1)⟩
  else
    let mask := if c.memWrite then CpuMcC.wmask e else 0#4
    ⟨CpuMcC.nextPc e true, regs.write c.regWrite (rdOf e.instr) (CpuMcC.wbFinal e 0#32),
      if mask ≠ 0#4 then
        bus.write m (lanes (CpuMcC.aluResult e) mask (CpuMcC.dmemWdata e))
      else m,
      byteEffects (CpuMcC.aluResult e) mask (CpuMcC.dmemWdata e) ++
        regEffect c.regWrite (rdOf e.instr) (CpuMcC.wbFinal e 0#32)⟩

/-- The Spartan-6 core executes the instruction in front of it without a trap, and it is not
SYSTEM. -/
structure Ordinary (p : S6Core.Isa) (d : S6Core.Datapath) : Prop where
  system : S6Core.isSystem d.instr = false
  exc : S6Core.excAny p d = false

section instruction
variable {p : S6Core.Isa} {d : S6Core.Datapath} {e : CpuMcC.Datapath} {image : Word → Word}
  {bus : ByteBus μ} {a : S6Core.Arch μ}

theorem Ordinary.illegal (h : Ordinary p d) : S6Core.illegalInstr p d = false := by
  have := h.exc
  simp only [S6Core.excAny, Bool.or_eq_false_iff] at this
  exact this.1.1.1.1.1

theorem Ordinary.storeFault (h : Ordinary p d) : S6Core.storeFault p d = false := by
  have := h.exc
  simp only [S6Core.excAny, Bool.or_eq_false_iff] at this
  exact this.1.2

theorem Ordinary.kind (hA : p.enableA = false) (h : Ordinary p d) : Kind p d.instr := by
  have := h.illegal
  simp only [S6Core.illegalInstr, Bool.or_eq_false_iff, Bool.not_eq_false'] at this
  exact kind_of_legal hA h.system this.1.1.2

theorem wbFinal_of_memRead_false (hr : (ctrlOf e.instr).memRead = false) (dw dw' : Word) :
    CpuMcC.wbFinal e dw = CpuMcC.wbFinal e dw' := by
  have hsel : (ctrlOf e.instr).wbSel ≠ .mem := by
    rw [Ne, (ctrlOf_wf e.instr).wbSel_mem, hr]
    decide
  unfold CpuMcC.wbFinal CpuMcC.wbData
  cases hw : (ctrlOf e.instr).wbSel with
  | mem => exact absurd hw hsel
  | alu | pc4 | imm => rfl

theorem mem_ctrl {w : Word} (hk : Kind p w) :
    ((ctrlOf w).memRead = true ↔ opcodeOf w = opLoad) ∧
      ((ctrlOf w).memWrite = true ↔ opcodeOf w = opStore) := by
  cases hk with
  | lui h | auipc h | jal h | jalr h _ | branch h | load h | store h | opImm h | op h _
  | muldiv h _ _ | fence h =>
    simp +decide [ctrlOf, control, Ctrl.default, h]

theorem course_eq (hA : p.enableA = false) (hk : Kind p d.instr) :
    S6Core.course p d.instr d =
      if S6Core.isMuldiv p d.instr then .md
      else if opcodeOf d.instr = opLoad then .load
      else if opcodeOf d.instr = opStore then .store
      else .finish := by
  obtain ⟨hlr, hsc, hrmw, -⟩ := isAmo_false hA d.instr
  obtain ⟨-, -, hwfi⟩ := s6_sys_false hk
  simp [S6Core.course, S6Core.writes, S6Core.isLoad, S6Core.isStore, hwfi, hlr, hsc, hrmw]

theorem wmask_ne_zero (e : CpuMcC.Datapath) : CpuMcC.wmask e ≠ 0#4 := by
  have hb (b : BitVec 2) : 0b0001#4 <<< b.toNat ≠ 0#4 ∧ 0b0011#4 <<< b.toNat ≠ 0#4 := by
    revert b
    decide
  unfold CpuMcC.wmask
  split_ifs
  · exact (hb _).1
  · exact (hb _).2
  · decide

section
variable (hA : p.enableA = false) (hC : p.enableC = true) (ho : Ordinary p (S6Core.view p image a))
  (hm : Matches (S6Core.view p image a) e)
include hA hC ho hm

theorem outcome_load (h : opcodeOf (S6Core.view p image a).instr = opLoad) :
    Outcome.ofArch (S6Core.loadStep p bus.words a (S6Core.view p image a)) =
      outcome bus a.regs a.mem e := by
  generalize S6Core.view p image a = d at ho hm h ⊢
  have hctrl : (ctrlOf d.instr).memRead = true ∧ (ctrlOf d.instr).regWrite = true ∧
      (ctrlOf d.instr).wbSel = .mem := by
    simp +decide [ctrlOf, control, Ctrl.default, h]
  have hk : Kind p d.instr := .load h
  have hwb (dw : Word) : CpuMcC.wbFinal e dw = S6Core.loadVal p d dw := by
    simp [CpuMcC.wbFinal, CpuMcC.wbData, hm.instr, (sys_false hk).1, hctrl.2.2, loadVal_eq hA hm h]
  simp only [outcome, hm.instr, hctrl, if_true, hwb, nextPc_eq hA hC hk hm ho.illegal,
    ← memAddr_eq hA hm hk (.inl h)]
  simp [Outcome.ofArch, S6Core.loadStep, ByteBus.words, effectOf]

theorem outcome_store (h : opcodeOf (S6Core.view p image a).instr = opStore) :
    Outcome.ofArch (S6Core.storeStep p bus.words a (S6Core.view p image a)) =
      outcome bus a.regs a.mem e := by
  generalize S6Core.view p image a = d at ho hm h ⊢
  have hctrl : (ctrlOf d.instr).memRead = false ∧ (ctrlOf d.instr).memWrite = true ∧
      (ctrlOf d.instr).regWrite = false := by
    simp +decide [ctrlOf, control, Ctrl.default, h]
  have hk : Kind p d.instr := .store h
  have hmd : S6Core.isMuldiv p d.instr = false := by
    simp +decide [S6Core.isMuldiv, S6Core.isOp, h]
  have hwe : S6Core.execRfWe p d.instr = false := by
    rw [(execWb_eq hA hk hm (by rw [h]; decide) hmd 0#32).1, hm.instr, hctrl.2.2]
  have hlanes := store_lanes_eq hA hm h ho.storeFault
  simp only [outcome, hm.instr, hctrl, nextPc_eq hA hC hk hm ho.illegal, byteEffects, ← hlanes,
    ← memAddr_eq hA hm hk (.inr h), if_true, Bool.false_eq_true, if_false]
  simp [Outcome.ofArch, S6Core.storeStep, ByteBus.words, effectOf, hwe, byteEffects,
    wmask_ne_zero, S6Core.regEvent, regEffect]

theorem outcome_md (h : S6Core.isMuldiv p (S6Core.view p image a).instr = true) :
    Outcome.ofArch (S6Core.mdStep p a (S6Core.view p image a)) =
      outcome bus a.regs a.mem e := by
  generalize S6Core.view p image a = d at ho hm h ⊢
  simp only [S6Core.isMuldiv, S6Core.isOp, Bool.and_eq_true, beq_iff_eq] at h
  obtain ⟨⟨hM, hop⟩, hf⟩ := h
  have hk : Kind p d.instr := .muldiv hop hf hM
  have hctrl : (ctrlOf d.instr).memRead = false ∧ (ctrlOf d.instr).memWrite = false ∧
      (ctrlOf d.instr).regWrite = true ∧ (ctrlOf d.instr).wbSel = .alu := by
    simp [ctrlOf, control, Ctrl.default, hop]
  have hwb : CpuMcC.wbFinal e 0#32 =
      aluMulDiv d.rs1Data d.rs1Data d.rs2Data (aluMulDivOp (funct3Of d.instr)) := by
    simp [CpuMcC.wbFinal, CpuMcC.wbData, hm.instr, (sys_false hk).1, hctrl.2.2.2,
      aluResult_muldiv hm hop hf]
  simp only [outcome, hm.instr, hctrl, nextPc_eq hA hC hk hm ho.illegal, hwb, Bool.false_eq_true,
    if_false]
  simp [Outcome.ofArch, S6Core.mdStep, effectOf]

theorem outcome_plain (hmd : S6Core.isMuldiv p (S6Core.view p image a).instr = false)
    (hl : opcodeOf (S6Core.view p image a).instr ≠ opLoad)
    (hs : opcodeOf (S6Core.view p image a).instr ≠ opStore) :
    Outcome.ofArch (S6Core.plainStep p a (S6Core.view p image a)) =
      outcome bus a.regs a.mem e := by
  generalize S6Core.view p image a = d at ho hm hmd hl hs ⊢
  have hk : Kind p d.instr := ho.kind hA
  have hctrl : (ctrlOf d.instr).memRead = false ∧ (ctrlOf d.instr).memWrite = false := by
    simpa [hl, hs] using mem_ctrl hk
  obtain ⟨hwe, hwb⟩ := execWb_eq hA hk hm hl hmd 0#32
  simp only [outcome, hm.instr, hctrl, nextPc_eq hA hC hk hm ho.illegal, Bool.false_eq_true,
    if_false] at hwe hwb ⊢
  cases hr : (ctrlOf d.instr).regWrite with
  | true => simp [Outcome.ofArch, S6Core.plainStep, effectOf, hwe, hr, hwb hr]
  | false => simp [Outcome.ofArch, S6Core.plainStep, effectOf, hwe, hr, regEffect, S6Core.regEvent]

theorem outcome_eq :
    Outcome.ofArch (S6Core.execute p image bus.words a) = outcome bus a.regs a.mem e := by
  unfold S6Core.execute
  simp only [ho.exc, Bool.false_eq_true, if_false, course_eq hA (ho.kind hA)]
  by_cases hmd : S6Core.isMuldiv p (S6Core.view p image a).instr = true
  · rw [if_pos hmd]
    exact outcome_md hA hC ho hm hmd
  rw [if_neg hmd]
  by_cases hl : opcodeOf (S6Core.view p image a).instr = opLoad
  · rw [if_pos hl]
    exact outcome_load hA hC ho hm hl
  rw [if_neg hl]
  by_cases hs : opcodeOf (S6Core.view p image a).instr = opStore
  · rw [if_pos hs]
    exact outcome_store hA hC ho hm hs
  · rw [if_neg hs]
    exact outcome_plain hA hC ho hm (by simpa using hmd) hl hs

end

end instruction

end RiscvScratch.Compressed
