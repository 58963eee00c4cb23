import RiscvScratch.Unified.Control

/-! What EX may assume about the flags of the instruction it holds: each instruction has one kind.
-/
namespace RiscvScratch.Unified

def IdEx.special (x : IdEx) : Bool :=
  x.isCsr || x.isMret || x.sret || x.sfence || x.ecall || x.ebreak || x.fencei || x.vec

/-- The flags of one kind exclude those of the others: a SYSTEM, fence or vector instruction has no
memory, branch or register-write flag, and every atomic is a read. -/
structure IdEx.Wf (x : IdEx) : Prop where
  plain : x.special = true → x.memRead = false ∧ x.memWrite = false ∧ x.branch = false ∧
    x.jump = false ∧ x.jalr = false ∧ x.regWrite = false ∧ x.lr = false ∧ x.sc = false ∧
    x.rmw = false
  amo : x.lr = true ∨ x.sc = true ∨ x.rmw = true → x.memRead = true ∧ x.memWrite = false
  amoKind : (x.lr = true → x.sc = false ∧ x.rmw = false) ∧ (x.sc = true → x.rmw = false)
  csr : x.isCsr = true → x.isMret = false ∧ x.sret = false ∧ x.sfence = false ∧
    x.fencei = false ∧ x.vec = false
  vec : x.vec = true → x.isCsr = false ∧ x.isMret = false ∧ x.sret = false ∧
    x.sfence = false ∧ x.fencei = false
  fencei : x.fencei = true → x.isMret = false ∧ x.sret = false ∧ x.sfence = false
  wbSel : x.wbSel = .mem ↔ x.memRead = true
  memRead : x.memRead = true → x.regWrite = true ∧ x.memWrite = false
  noJump : x.memRead = true ∨ x.memWrite = true → x.branch = false ∧ x.jump = false ∧
    x.jalr = false
  jalr : x.jalr = true → x.jump = true

theorem IdEx.bubble_wf : IdEx.bubble.Wf := by
  constructor <;> simp [IdEx.bubble, IdEx.special]

/-- SYSTEM, MISC-MEM and the vector opcodes, for which `control` has no case. -/
def specialOpcode (o : BitVec 7) : Prop :=
  o = 0b1110011#7 ∨ o = 0b0001111#7 ∨ o = 0b1010111#7 ∨ o = 0b0000111#7 ∨ o = 0b0100111#7

variable {w : Word} {c : Cfg}

theorem ctrlOf_special (h : specialOpcode (opcodeOf w)) : ctrlOf w = Ctrl.default := by
  unfold ctrlOf
  obtain h | h | h | h | h := h <;> (rw [h]; rfl)

theorem idIsAmo_special (h : specialOpcode (opcodeOf w)) :
    idIsAmo w c = false := by
  unfold idIsAmo
  obtain h | h | h | h | h := h <;> rw [h] <;> simp

theorem Vec.opcode_of_isVec (h : Vec.isVec w = true) :
    opcodeOf w = 0b1010111#7 ∨ opcodeOf w = 0b0000111#7 ∨ opcodeOf w = 0b0100111#7 := by
  simp only [Vec.isVec, Vec.isOpv, Vec.isLd, Vec.isSt, Bool.or_eq_true, Bool.and_eq_true,
    beq_iff_eq] at h
  tauto

theorem sysWith_opcode {n : BitVec 12} (h : sysWith w n = true) :
    opcodeOf w = 0b1110011#7 ∧ funct3Of w = 0b000#3 := by
  simp only [sysWith, isSystem, Bool.and_eq_true, beq_iff_eq] at h
  exact h.1

theorem idSfence_opcode (h : idSfence w = true) :
    opcodeOf w = 0b1110011#7 ∧ funct3Of w = 0b000#3 := by
  simp only [idSfence, isSystem, Bool.and_eq_true, beq_iff_eq] at h
  exact h.1

theorem idFencei_opcode (h : idFencei w = true) : opcodeOf w = 0b0001111#7 := by
  simp only [idFencei, Bool.and_eq_true, beq_iff_eq] at h
  exact h.1

theorem idIsCsr_opcode (h : idIsCsr w = true) :
    opcodeOf w = 0b1110011#7 ∧ funct3Of w ≠ 0b000#3 := by
  simpa [idIsCsr, isSystem] using h

/-- Any flag of a special kind comes from one of the special opcodes. -/
theorem decode_special_opcode {f : IfId} {d1 d2 : Word}
    (h : (decode c f d1 d2).special = true) : specialOpcode (opcodeOf f.instr) := by
  simp only [IdEx.special, decode, Bool.or_eq_true] at h
  obtain ((((((h | h) | h) | h) | h) | h) | h) | h := h
  · exact .inl (idIsCsr_opcode h).1
  · exact .inl (sysWith_opcode h).1
  · exact .inl (sysWith_opcode h).1
  · exact .inl (idSfence_opcode h).1
  · exact .inl (sysWith_opcode h).1
  · exact .inl (sysWith_opcode h).1
  · exact .inr (.inl (idFencei_opcode h))
  · simp only [idVec, Bool.and_eq_true] at h
    exact .inr (.inr (Vec.opcode_of_isVec h.2))

theorem idIsAmo_ctrl (h : idIsAmo w c = true) :
    (ctrlOf w).memWrite = false ∧ (ctrlOf w).memRead = true ∧ (ctrlOf w).regWrite = true ∧
      (ctrlOf w).wbSel = .mem := by
  simp only [idIsAmo, Bool.and_eq_true, beq_iff_eq] at h
  rw [ctrlOf, h.1.2]
  exact ⟨rfl, rfl, rfl, rfl⟩

/-- Decode builds well-formed control words, whatever the word and the options. -/
theorem decode_wf (c : Cfg) (f : IfId) (d1 d2 : Word) : (decode c f d1 d2).Wf := by
  have hk := ctrlOf_wf f.instr
  have hamo : ∀ {b : Bool}, (idLr f.instr c = b ∨ idSc f.instr c = b ∨ idRmw f.instr c = b) →
      b = true → idIsAmo f.instr c = true := by
    rintro b h rfl
    simp only [idRmw, idLr, idSc, Bool.and_eq_true] at h
    tauto
  -- the SYSTEM, fence and vector opcodes exclude each other
  have hsys : ∀ {w : Word}, opcodeOf w = 0b1110011#7 → idFencei w = false ∧ idVec w c = false := by
    intro w h
    constructor
    · simp [idFencei, h]
    · simp [idVec, Vec.isVec, Vec.isOpv, Vec.isLd, Vec.isSt, h]
  have hnsys : ∀ {w : Word}, opcodeOf w ≠ 0b1110011#7 → idIsCsr w = false ∧ idIsMret w = false ∧
      idSret w = false ∧ idSfence w = false := by
    intro w h
    simp [idIsCsr, idIsMret, idSret, idSfence, sysWith, isSystem, h]
  constructor
  case plain =>
    intro h
    have ho := decode_special_opcode h
    have hc := ctrlOf_special ho
    have ha : idIsAmo f.instr c = false := idIsAmo_special ho
    simp [decode, hc, ha, Ctrl.default, idLr, idSc, idRmw]
  case amo =>
    intro h
    have ha := hamo h rfl
    simp [decode, ha, idIsAmo_ctrl ha]
  case amoKind =>
    constructor
    · intro h
      simp only [decode, idLr, idSc, idRmw, Bool.and_eq_true, beq_iff_eq] at h ⊢
      simp [h]
    · intro h
      simp only [decode, idSc, idRmw, Bool.and_eq_true, beq_iff_eq] at h ⊢
      simp [h]
  case csr =>
    intro h
    obtain ⟨ho, h3⟩ := idIsCsr_opcode h
    simp [decode, hsys ho, idIsMret, idSret, idSfence, sysWith, h3]
  case vec =>
    intro h
    simp only [decode, idVec, Bool.and_eq_true] at h
    have ho := Vec.opcode_of_isVec h.2
    have hn : opcodeOf f.instr ≠ 0b1110011#7 := by
      intro he
      rw [he] at ho
      revert ho
      decide
    have hf : idFencei f.instr = false := by
      obtain ho | ho | ho := ho <;> simp [idFencei, ho]
    simp [decode, hnsys hn, hf]
  case fencei =>
    intro h
    have ho := idFencei_opcode h
    have hn : opcodeOf f.instr ≠ 0b1110011#7 := by rw [ho]; decide
    exact ⟨(hnsys hn).2.1, (hnsys hn).2.2.1, (hnsys hn).2.2.2⟩
  case wbSel =>
    cases ha : idIsAmo f.instr c with
    | true => simp [decode, ha]
    | false => simpa [decode, ha] using hk.wbSel_mem
  case memRead =>
    intro h
    cases ha : idIsAmo f.instr c with
    | true => simp [decode, ha, idIsAmo_ctrl ha]
    | false =>
      simp only [decode, ha, Bool.or_false] at h ⊢
      exact ⟨hk.regWrite_of_memRead h, hk.memWrite_of_memRead h⟩
  case noJump =>
    intro h
    cases ha : idIsAmo f.instr c with
    | true => exact hk.straight_of_mem (.inl (idIsAmo_ctrl ha).2.1)
    | false =>
      simp only [decode, ha, Bool.or_false] at h
      exact hk.straight_of_mem h
  case jalr => exact hk.jump_of_jalr

theorem relatched_wf {s : State} (h : s.idex.Wf) : (relatched s).Wf :=
  ⟨h.plain, h.amo, h.amoKind, h.csr, h.vec, h.fencei, h.wbSel, h.memRead, h.noJump, h.jalr⟩

theorem step_idex_wf {s : State} {i : Input} (h : s.idex.Wf) :
    (step c s i).idex.Wf := by
  cases step_move c s i with
  | frozen _ _ _ hx _ _ | held _ _ _ _ hx _ _ => rw [hx]; exact relatched_wf h
  | flushed _ _ _ _ hx _ _ | bubbled _ _ _ _ _ _ hx _ _ => rw [hx]; exact IdEx.bubble_wf
  | advanced _ _ _ _ _ _ hx _ _ => rw [hx]; exact decode_wf _ _ _ _

/-- In every cycle of every run EX holds an instruction of one kind, or a bubble. -/
theorem run_idex_wf (r : Run c) (t : ℕ) : (r.state t).idex.Wf := by
  refine r.invariant (fun _ => True) (fun s => s.idex.Wf) ?_ ?_ (fun _ => trivial) t
  · rintro s ⟨u, rfl⟩
    exact IdEx.bubble_wf
  · intro s i _ h
    exact step_idex_wf h

end RiscvScratch.Unified
