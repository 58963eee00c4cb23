import RiscvScratch.Sbi.TrapEntry

/-! The frame of an SBI call: what the payload finds unchanged when the handler has returned. -/
namespace RiscvScratch.Sbi
open Platform
open Csr (privM privS)
open ByteMem (Mem load32 store32 Apart)

def frameBase : Word := 0x80003F80#32

theorem slot_toNat (i : BitVec 5) : (slot i).toNat = 4 * i.toNat := by
  have := i.isLt
  simp only [slot, BitVec.truncate_eq_setWidth, BitVec.toNat_mul, BitVec.toNat_setWidth]
  show 4 * (i.toNat % 2 ^ 32) % 2 ^ 32 = 4 * i.toNat
  omega

theorem slot_apart (f : Word) {i j : BitVec 5} (h : i ≠ j) {k : ℕ} (hk : k < 4) :
    Apart (f + slot j + BitVec.ofNat 32 k) (f + slot i) := by
  have hi := i.isLt
  have hj := j.isLt
  have hne : i.toNat ≠ j.toNat := fun he => h (BitVec.eq_of_toNat_eq he)
  have hsi := slot_toNat i
  have hsj := slot_toNat j
  unfold Apart
  bv_omega

theorem inFirmware_slot (i : BitVec 5) {k : ℕ} (hk : k < 4) :
    InFirmware (frameBase + slot i + BitVec.ofNat 32 k) 1 := by
  have hi := i.isLt
  have hs := slot_toNat i
  unfold InFirmware frameBase payloadBase ramBase fwRamSize
  constructor <;> bv_omega

theorem apart_of_not_inFirmware {a : Word} (h : ¬InFirmware a 1) (i : BitVec 5) :
    Apart a (frameBase + slot i) := by
  by_contra hlt
  have hlt' : (a - (frameBase + slot i)).toNat < 4 := by
    unfold Apart at hlt
    omega
  have heq : a = frameBase + slot i + BitVec.ofNat 32 (a - (frameBase + slot i)).toNat := by
    bv_omega
  exact h (heq ▸ inFirmware_slot i hlt')

theorem wordBytes_slot {a : Word} {i : BitVec 5} (h : a ∈ wordBytes (frameBase + slot i)) :
    InFirmware a 1 := by
  simp only [wordBytes, List.mem_cons, List.not_mem_nil, or_false] at h
  obtain rfl | rfl | rfl | rfl := h
  · simpa using inFirmware_slot i (k := 0) (by decide)
  · exact inFirmware_slot i (k := 1) (by decide)
  · exact inFirmware_slot i (k := 2) (by decide)
  · exact inFirmware_slot i (k := 3) (by decide)

section frame
variable {υ : Type*} {p : Csr.Params} {gp : Word} {m m' : Machine υ}

def Machine.word (m : Machine υ) (i : BitVec 5) : Word := load32 m.mem (frameBase + slot i)

theorem storeWord_word (m : Machine υ) (i j : BitVec 5) (v : Word) :
    (m.storeWord (frameBase + slot i) v).word j = if j = i then v else m.word j := by
  split
  · subst j
    exact ByteMem.load32_store32 _ _ _
  · rename_i h
    exact ByteMem.load32_store32_apart v fun k hk => slot_apart frameBase (Ne.symm h) hk

/-- `m'` differs from `m` in the frame and the logs only, and there by accesses to the frame. -/
structure FrameOnly (m m' : Machine υ) : Prop where
  regs : m'.regs = m.regs
  csr : m'.csr = m.csr
  mem : ∀ a, ¬InFirmware a 1 → m'.mem a = m.mem a
  loads : m'.loads = m.loads
  stores : ∀ a ∈ m'.stores, a ∈ m.stores ∨ InFirmware a 1

theorem FrameOnly.trans {m'' : Machine υ} (h : FrameOnly m m') (h' : FrameOnly m' m'') :
    FrameOnly m m'' := by
  refine ⟨h'.regs.trans h.regs, h'.csr.trans h.csr, fun a ha => (h'.mem a ha).trans (h.mem a ha),
    h'.loads.trans h.loads, fun a ha => ?_⟩
  obtain ha | ha := h'.stores a ha
  · exact h.stores a ha
  · exact .inr ha

theorem frameOnly_storeWord (m : Machine υ) (i : BitVec 5) (v : Word) :
    FrameOnly m (m.storeWord (frameBase + slot i) v) := by
  refine ⟨rfl, rfl, fun a ha => ByteMem.store32_apart v (apart_of_not_inFirmware ha i), rfl, ?_⟩
  intro a ha
  obtain ha | ha := List.mem_append.mp ha
  · exact .inr (wordBytes_slot ha)
  · exact .inl ha

theorem exec_saves (p : Csr.Params) (gp : Word) (is : List (BitVec 5))
    (hsp : m.regs.read sp = frameBase) :
    FrameOnly m ((is.map fun i => Instr.sw i (slot i)).foldl (Machine.exec p gp) m) ∧
      ∀ j, ((is.map fun i => Instr.sw i (slot i)).foldl (Machine.exec p gp) m).word j =
        if j ∈ is then m.regs.read j else m.word j := by
  induction is generalizing m with
  | nil => exact ⟨⟨rfl, rfl, fun _ _ => rfl, rfl, fun _ ha => .inl ha⟩, fun j => by simp⟩
  | cons i is ih =>
    have hstep : m.exec p gp (.sw i (slot i)) =
        m.storeWord (frameBase + slot i) (m.regs.read i) := by
      rw [Machine.exec, hsp]
    obtain ⟨hf, hw⟩ := ih (m := m.storeWord (frameBase + slot i) (m.regs.read i)) hsp
    rw [List.map_cons, List.foldl_cons, hstep]
    refine ⟨(frameOnly_storeWord m i _).trans hf, fun j => ?_⟩
    rw [hw, storeWord_word]
    by_cases hj : j ∈ is
    · rw [if_pos hj, if_pos (List.mem_cons_of_mem _ hj)]
      rfl
    · by_cases hji : j = i
      · subst hji
        simp [hj]
      · simp [hj, hji]

/-- `m'` differs from `m` in the registers and the log of loads. -/
structure RegsOnly (m m' : Machine υ) : Prop where
  mem : m'.mem = m.mem
  csr : m'.csr = m.csr
  loads : ∀ a ∈ m'.loads, a ∈ m.loads ∨ InFirmware a 1
  stores : m'.stores = m.stores

theorem read_setReg_self (m : Machine υ) {rd : BitVec 5} (h : rd ≠ 0#5) (v : Word) :
    (m.setReg rd v).regs.read rd = v := by
  show (m.regs.write true rd v).read rd = v
  simp [Regs.read_write, h]

theorem read_setReg_ne (m : Machine υ) {rd i : BitVec 5} (h : i ≠ rd) (v : Word) :
    (m.setReg rd v).regs.read i = m.regs.read i := by
  show (m.regs.write true rd v).read i = m.regs.read i
  simp [Regs.read_write, Ne.symm h]

theorem exec_restores (p : Csr.Params) (gp : Word) (is : List (BitVec 5))
    (hz : ∀ i ∈ is, i ≠ 0#5 ∧ i ≠ sp)
    (hsp : m.regs.read sp = frameBase) :
    RegsOnly m ((is.map fun i => Instr.lw i (slot i)).foldl (Machine.exec p gp) m) ∧
      ∀ j, ((is.map fun i => Instr.lw i (slot i)).foldl (Machine.exec p gp) m).regs.read j =
        if j ∈ is then m.word j else m.regs.read j := by
  induction is generalizing m with
  | nil => exact ⟨⟨rfl, rfl, fun _ ha => .inl ha, rfl⟩, fun j => by simp⟩
  | cons i is ih =>
    obtain ⟨hi0, hisp⟩ := hz i (List.mem_cons_self ..)
    let m₁ := (m.loadWord (frameBase + slot i)).2.setReg i (m.word i)
    have hm₁ : m.exec p gp (.lw i (slot i)) = m₁ := by
      rw [Machine.exec, hsp]
      rfl
    have hread (j : BitVec 5) : m₁.regs.read j = if j = i then m.word i else m.regs.read j := by
      split
      · subst j
        exact read_setReg_self _ hi0 _
      · exact read_setReg_ne _ ‹_› _
    have hsp₁ : m₁.regs.read sp = frameBase := by
      rw [hread, if_neg (Ne.symm hisp), hsp]
    have hword (j : BitVec 5) : m₁.word j = m.word j := rfl
    obtain ⟨hf, hw⟩ := ih (fun j hj => hz j (List.mem_cons_of_mem _ hj)) hsp₁
    rw [List.map_cons, List.foldl_cons, hm₁]
    refine ⟨⟨hf.mem, hf.csr, fun a ha => ?_, hf.stores⟩, fun j => ?_⟩
    · obtain ha | ha := hf.loads a ha
      · obtain ha | ha := List.mem_append.mp ha
        · exact .inr (wordBytes_slot ha)
        · exact .inl ha
      · exact .inr ha
    · rw [hw, hread, hword]
      by_cases hj : j ∈ is
      · simp [hj]
      · by_cases hji : j = i
        · subst hji
          simp [hj]
        · simp [hj, hji]

structure CsrKept (csr csr' : Csr.State) : Prop where
  mepc : csr'.mepc = csr.mepc
  mcause : csr'.mcause = csr.mcause
  mpp : csr'.mstatus.extractLsb' 11 2 = csr.mstatus.extractLsb' 11 2

theorem CsrKept.trans {a b c : Csr.State} (h : CsrKept a b) (h' : CsrKept b c) : CsrKept a c :=
  ⟨h'.mepc.trans h.mepc, h'.mcause.trans h.mcause, h'.mpp.trans h.mpp⟩

theorem csrKept_scratch (p : Csr.Params) (csr : Csr.State) (v : Word) :
    CsrKept csr (Csr.step p csr (csrCommand 0b001#3 Csr.mscratchA v)) ∧
      (Csr.step p csr (csrCommand 0b001#3 Csr.mscratchA v)).mscratch = v :=
  ⟨⟨rfl, rfl, (fixStatus_mode false csr.mstatus).2⟩, rfl⟩

/-- After the listing up to `call sbi_trap`. -/
structure Entered (m m' : Machine υ) : Prop where
  sp : m'.regs.read sp = frameBase
  a0 : m'.regs.read a0 = frameBase
  scratch : m'.csr.mscratch = m.regs.read Sbi.sp
  csr : CsrKept m.csr m'.csr
  word : ∀ i, i ≠ 0#5 → m'.word i = m.regs.read i
  mem : ∀ a, ¬InFirmware a 1 → m'.mem a = m.mem a
  loads : m'.loads = m.loads
  stores : ∀ a ∈ m'.stores, a ∈ m.stores ∨ InFirmware a 1

theorem mem_saved (i : BitVec 5) : i ∈ saved ↔ i ≠ 0#5 ∧ i ≠ sp := by
  revert i
  decide

theorem entered (p : Csr.Params) (gp : Word) (h : m.csr.mscratch = fwStackTop) :
    Entered m (entryCode.foldl (Machine.exec p gp) m) := by
  -- the swap of the stacks
  obtain ⟨m₁, hm₁⟩ : ∃ m₁, m₁ = [Instr.swapScratch sp sp, .addi sp sp (-128#32)].foldl
    (Machine.exec p gp) m := ⟨_, rfl⟩
  have hread (j : BitVec 5) (hj : j ≠ sp) : m₁.regs.read j = m.regs.read j := by
    rw [hm₁]
    exact (read_setReg_ne _ hj _).trans (read_setReg_ne _ hj _)
  have hsp : m₁.regs.read sp = frameBase := by
    rw [hm₁]
    refine (read_setReg_self _ (by decide) _).trans ?_
    rw [show ((m.exec p gp (.swapScratch sp sp)).regs.read sp) = fwStackTop from
      (read_setReg_self _ (by decide) _).trans h]
    decide
  have hcsr : CsrKept m.csr m₁.csr ∧ m₁.csr.mscratch = m.regs.read sp := by
    rw [hm₁]
    exact csrKept_scratch p m.csr (m.regs.read sp)
  have hmem₁ : m₁.mem = m.mem ∧ m₁.loads = m.loads ∧ m₁.stores = m.stores := by
    rw [hm₁]
    exact ⟨rfl, rfl, rfl⟩
  -- the frame
  obtain ⟨m₂, hm₂⟩ : ∃ m₂, m₂ = (saved.map fun i => Instr.sw i (slot i)).foldl
    (Machine.exec p gp) m₁ := ⟨_, rfl⟩
  obtain ⟨hf, hw⟩ := exec_saves p gp saved hsp
  rw [← hm₂] at hf hw
  -- the interrupted stack pointer
  let m₃ := m₂.setReg t0 m₂.csr.mscratch
  have hsp₃ : m₃.regs.read sp = frameBase := by
    rw [read_setReg_ne _ (by decide), hf.regs, hsp]
  have ht₃ : m₃.regs.read t0 = m.regs.read sp := by
    rw [read_setReg_self _ (by decide), hf.csr, hcsr.2]
  have hend : entryCode.foldl (Machine.exec p gp) m =
      ((m₃.storeWord (frameBase + slot sp) (m.regs.read sp)).setReg 3#5 gp).setReg a0
        (frameBase + 0#32) := by
    have hsp₅ : ((m₃.storeWord (frameBase + slot sp) (m.regs.read sp)).setReg 3#5 gp).regs.read sp =
        frameBase := by
      rw [read_setReg_ne _ (by decide)]
      exact hsp₃
    rw [entryCode, List.foldl_append, List.foldl_append, ← hm₁, ← hm₂]
    simp only [List.foldl_cons, List.foldl_nil, Machine.exec]
    rw [hsp₃, ht₃, hsp₅]
  rw [hend]
  have hstore := frameOnly_storeWord m₃ sp (m.regs.read sp)
  refine ⟨?_, ?_, ?_, ?_, fun i hi => ?_, fun a ha => ?_, ?_, fun a ha => ?_⟩
  · rw [read_setReg_ne _ (by decide), read_setReg_ne _ (by decide)]
    exact hsp₃
  · rw [read_setReg_self _ (by decide), BitVec.add_zero]
  · show m₂.csr.mscratch = _
    exact hf.csr ▸ hcsr.2
  · show CsrKept m.csr m₂.csr
    exact hf.csr ▸ hcsr.1
  · show (m₃.storeWord (frameBase + slot sp) (m.regs.read sp)).word i = _
    rw [storeWord_word]
    split
    · rw [‹i = sp›]
    · show m₂.word i = _
      rw [hw, if_pos ((mem_saved i).mpr ⟨hi, ‹_›⟩), hread i ‹_›]
  · exact (hstore.mem a ha).trans ((hf.mem a ha).trans (congrFun hmem₁.1 a))
  · exact hf.loads.trans hmem₁.2.1
  · obtain ha | ha := hstore.stores a ha
    · exact hmem₁.2.2 ▸ hf.stores a ha
    · exact .inr ha

/-- After the listing from the return of `sbi_trap` and the `mret`. -/
structure Left (m m' : Machine υ) : Prop where
  sp : m'.regs.read sp = m.csr.mscratch
  scratch : m'.csr.mscratch = fwStackTop
  regs : ∀ i, i ≠ 0#5 → i ≠ Sbi.sp → m'.regs.read i = m.word i
  pc : m'.pc = m.csr.mepc
  priv : m'.csr.priv = m.csr.mstatus.extractLsb' 11 2
  mem : m'.mem = m.mem
  loads : ∀ a ∈ m'.loads, a ∈ m.loads ∨ InFirmware a 1
  stores : m'.stores = m.stores

theorem left (p : Csr.Params) (gp : Word) (h : m.regs.read sp = frameBase) :
    Left m ((exitCode.foldl (Machine.exec p gp) m).mret p) := by
  obtain ⟨m₁, hm₁⟩ : ∃ m₁, m₁ = (saved.map fun i => Instr.lw i (slot i)).foldl
    (Machine.exec p gp) m := ⟨_, rfl⟩
  obtain ⟨hr, hregs⟩ := exec_restores p gp saved (fun i hi => (mem_saved i).mp hi) h
  rw [← hm₁] at hr hregs
  have hsp₁ : m₁.regs.read sp = frameBase := by
    rw [hregs, if_neg (by decide), h]
  let m₂ := m₁.setReg sp (frameBase + 128#32)
  have hsp₂ : m₂.regs.read sp = fwStackTop := by
    rw [read_setReg_self _ (by decide)]
    decide
  have hcsr₂ : m₂.csr = m.csr := hr.csr
  have hend : exitCode.foldl (Machine.exec p gp) m =
      (m₂.writeScratch p fwStackTop).setReg sp m₂.csr.mscratch := by
    rw [exitCode, List.foldl_append, ← hm₁]
    simp only [List.foldl_cons, List.foldl_nil, Machine.exec]
    rw [hsp₁, hsp₂]
  obtain ⟨hkept, hscratch⟩ := csrKept_scratch p m₂.csr fwStackTop
  rw [hend]
  refine ⟨?_, ?_, fun i hi hisp => ?_, ?_, ?_, ?_, fun a ha => ?_, ?_⟩
  · show ((m₂.writeScratch p fwStackTop).setReg sp m₂.csr.mscratch).regs.read sp = _
    rw [read_setReg_self _ (by decide), hcsr₂]
  · exact hscratch
  · show ((m₂.writeScratch p fwStackTop).setReg sp m₂.csr.mscratch).regs.read i = _
    rw [read_setReg_ne _ hisp]
    show m₂.regs.read i = _
    rw [read_setReg_ne _ hisp, hregs, if_pos ((mem_saved i).mpr ⟨hi, hisp⟩)]
  · exact hkept.mepc.trans (congrArg Csr.State.mepc hcsr₂)
  · exact hkept.mpp.trans (by rw [hcsr₂])
  · exact hr.mem
  · exact hr.loads a ha
  · exact hr.stores

end frame

end RiscvScratch.Sbi
