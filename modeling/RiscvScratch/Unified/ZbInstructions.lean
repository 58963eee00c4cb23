import RiscvScratch.Unified.Wires

/-! The encodings of the bit-manipulation extensions beside those of the base and M instructions. -/
namespace RiscvScratch

/-- The fields that tell an OP or OP-IMM instruction; `none` where a field is an operand. -/
structure Encoding where
  opcode : BitVec 7
  funct3 : BitVec 3
  funct7 : Option (BitVec 7)
  rs2 : Option (BitVec 5)
  deriving DecidableEq, Repr

structure Encoding.Matches (e : Encoding) (opcode : BitVec 7) (f3 : BitVec 3) (f7 : BitVec 7)
    (rs2f : BitVec 5) : Prop where
  opcode : opcode = e.opcode
  funct3 : f3 = e.funct3
  funct7 : ∀ x ∈ e.funct7, f7 = x
  rs2 : ∀ x ∈ e.rs2, rs2f = x

variable {opcode : BitVec 7} {f3 : BitVec 3} {f7 : BitVec 7} {rs2f : BitVec 5}

theorem Encoding.Matches.binary :
    (Encoding.mk opcode f3 (some f7) none).Matches opcode f3 f7 rs2f :=
  ⟨rfl, rfl, by rintro _ ⟨⟩; rfl, by rintro _ ⟨⟩⟩

theorem Encoding.Matches.unary :
    (Encoding.mk opcode f3 (some f7) (some rs2f)).Matches opcode f3 f7 rs2f :=
  ⟨rfl, rfl, by rintro _ ⟨⟩; rfl, by rintro _ ⟨⟩; rfl⟩

def Encoding.IsOf (e : Encoding) (w : Word) : Prop :=
  e.Matches (opcodeOf w) (funct3Of w) (funct7Of w) (rs2Of w)

namespace Zb

inductive Instr where
  | sh1add | sh2add | sh3add
  | andn | orn | xnor | clz | ctz | cpop | min | minu | max | maxu
  | sextB | sextH | zextH | rol | ror | rori | orcB | rev8
  | clmul | clmulh | clmulr
  | bclr | bclri | bset | bseti | binv | binvi | bext | bexti
  deriving DecidableEq, Repr

def Instr.configured (p : Params) : Instr → Bool
  | .sh1add | .sh2add | .sh3add => p.zba
  | .clmul | .clmulh | .clmulr => p.zbc
  | .bclr | .bclri | .bset | .bseti | .binv | .binvi | .bext | .bexti => p.zbs
  | _ => p.zbb

def Instr.encoding : Instr → Encoding
  | .sh1add => ⟨RiscvScratch.opR, 0b010#3, some 0b0010000#7, none⟩
  | .sh2add => ⟨RiscvScratch.opR, 0b100#3, some 0b0010000#7, none⟩
  | .sh3add => ⟨RiscvScratch.opR, 0b110#3, some 0b0010000#7, none⟩
  | .andn => ⟨RiscvScratch.opR, 0b111#3, some 0b0100000#7, none⟩
  | .orn => ⟨RiscvScratch.opR, 0b110#3, some 0b0100000#7, none⟩
  | .xnor => ⟨RiscvScratch.opR, 0b100#3, some 0b0100000#7, none⟩
  | .clz => ⟨RiscvScratch.opI, 0b001#3, some 0b0110000#7, some 0#5⟩
  | .ctz => ⟨RiscvScratch.opI, 0b001#3, some 0b0110000#7, some 1#5⟩
  | .cpop => ⟨RiscvScratch.opI, 0b001#3, some 0b0110000#7, some 2#5⟩
  | .min => ⟨RiscvScratch.opR, 0b100#3, some 0b0000101#7, none⟩
  | .minu => ⟨RiscvScratch.opR, 0b101#3, some 0b0000101#7, none⟩
  | .max => ⟨RiscvScratch.opR, 0b110#3, some 0b0000101#7, none⟩
  | .maxu => ⟨RiscvScratch.opR, 0b111#3, some 0b0000101#7, none⟩
  | .sextB => ⟨RiscvScratch.opI, 0b001#3, some 0b0110000#7, some 4#5⟩
  | .sextH => ⟨RiscvScratch.opI, 0b001#3, some 0b0110000#7, some 5#5⟩
  | .zextH => ⟨RiscvScratch.opR, 0b100#3, some 0b0000100#7, some 0#5⟩
  | .rol => ⟨RiscvScratch.opR, 0b001#3, some 0b0110000#7, none⟩
  | .ror => ⟨RiscvScratch.opR, 0b101#3, some 0b0110000#7, none⟩
  | .rori => ⟨RiscvScratch.opI, 0b101#3, some 0b0110000#7, none⟩
  | .orcB => ⟨RiscvScratch.opI, 0b101#3, some 0b0010100#7, some 0b00111#5⟩
  | .rev8 => ⟨RiscvScratch.opI, 0b101#3, some 0b0110100#7, some 0b11000#5⟩
  | .clmul => ⟨RiscvScratch.opR, 0b001#3, some 0b0000101#7, none⟩
  | .clmulh => ⟨RiscvScratch.opR, 0b011#3, some 0b0000101#7, none⟩
  | .clmulr => ⟨RiscvScratch.opR, 0b010#3, some 0b0000101#7, none⟩
  | .bclr => ⟨RiscvScratch.opR, 0b001#3, some 0b0100100#7, none⟩
  | .bclri => ⟨RiscvScratch.opI, 0b001#3, some 0b0100100#7, none⟩
  | .bset => ⟨RiscvScratch.opR, 0b001#3, some 0b0010100#7, none⟩
  | .bseti => ⟨RiscvScratch.opI, 0b001#3, some 0b0010100#7, none⟩
  | .binv => ⟨RiscvScratch.opR, 0b001#3, some 0b0110100#7, none⟩
  | .binvi => ⟨RiscvScratch.opI, 0b001#3, some 0b0110100#7, none⟩
  | .bext => ⟨RiscvScratch.opR, 0b101#3, some 0b0100100#7, none⟩
  | .bexti => ⟨RiscvScratch.opI, 0b101#3, some 0b0100100#7, none⟩

def Instr.output (a b : Word) : Instr → Word
  | .sh1add => (a <<< 1) + b
  | .sh2add => (a <<< 2) + b
  | .sh3add => (a <<< 3) + b
  | .andn => a &&& ~~~b
  | .orn => a ||| ~~~b
  | .xnor => ~~~(a ^^^ b)
  | .clz => clz32 a
  | .ctz => ctz32 a
  | .cpop => cpop32 a
  | .min => if a.slt b then a else b
  | .minu => if a.ult b then a else b
  | .max => if a.slt b then b else a
  | .maxu => if a.ult b then b else a
  | .sextB => (a.extractLsb' 0 8).signExtend 32
  | .sextH => (a.extractLsb' 0 16).signExtend 32
  | .zextH => (a.extractLsb' 0 16).zeroExtend 32
  | .rol => Zb.rol a (b.extractLsb' 0 5).toNat
  | .ror | .rori => Zb.ror a (b.extractLsb' 0 5).toNat
  | .orcB => Zb.orcB a
  | .rev8 => Zb.rev8 a
  | .clmul => (clmul64 a b).extractLsb' 0 32
  | .clmulh => (clmul64 a b).extractLsb' 32 32
  | .clmulr => (clmul64 a b).extractLsb' 31 32
  | .bclr | .bclri => a &&& ~~~(1#32 <<< (b.extractLsb' 0 5).toNat)
  | .bset | .bseti => a ||| (1#32 <<< (b.extractLsb' 0 5).toNat)
  | .binv | .binvi => a ^^^ (1#32 <<< (b.extractLsb' 0 5).toNat)
  | .bext | .bexti => if a &&& (1#32 <<< (b.extractLsb' 0 5).toNat) = 0#32 then 0#32 else 1#32

section unit
variable {p : Params} {opcode : BitVec 7} {f3 : BitVec 3} {f7 : BitVec 7} {rs2f : BitVec 5}
  {a b : Word}

theorem unit_of_matches {i : Instr} (hc : i.configured p = true)
    (hm : i.encoding.Matches opcode f3 f7 rs2f) :
    unit p opcode f3 f7 rs2f a b = some (i.output a b) := by
  obtain ⟨ho, h3, h7, h2⟩ := hm
  cases i <;>
    simp only [Instr.encoding, Option.mem_def, Option.some.injEq, forall_eq', reduceCtorEq,
      false_implies, implies_true] at ho h3 h7 h2 <;>
    simp only [Instr.configured] at hc <;> subst ho h3 h7 <;>
    simp [unit, Zb.opR, Zb.opI, RiscvScratch.opR, RiscvScratch.opI, hc, h2, Instr.output]

theorem gate {q : Bool} {u v : Word} (h : (if q then some u else none) = some v) : q = true :=
  (Option.ite_none_right_eq_some.mp h).1

theorem gate_and {α : Type*} [DecidableEq α] {q : Bool} {x y : α} {u v : Word}
    (h : (if q && x == y then some u else none) = some v) : q = true ∧ x = y := by
  simpa only [Bool.and_eq_true, beq_iff_eq] using gate h

theorem matches_of_opR {v : Word} (h : Zb.opR p f3 f7 rs2f a b = some v) :
    ∃ i : Instr, i.configured p = true ∧ i.encoding.Matches RiscvScratch.opR f3 f7 rs2f := by
  unfold Zb.opR at h
  extract_lets sh cl onehot bext at h
  split at h
  · obtain ⟨hp, h⟩ := Option.ite_none_right_eq_some.mp h
    split at h
    · exact ⟨.andn, hp, .binary⟩
    · exact ⟨.orn, hp, .binary⟩
    · exact ⟨.xnor, hp, .binary⟩
    · cases h
  · split at h
    · exact ⟨.min, gate h, .binary⟩
    · exact ⟨.minu, gate h, .binary⟩
    · exact ⟨.max, gate h, .binary⟩
    · exact ⟨.maxu, gate h, .binary⟩
    · exact ⟨.clmul, gate h, .binary⟩
    · exact ⟨.clmulh, gate h, .binary⟩
    · exact ⟨.clmulr, gate h, .binary⟩
    · cases h
  · obtain ⟨hp, h⟩ := Option.ite_none_right_eq_some.mp h
    split at h
    · exact ⟨.rol, hp, .binary⟩
    · exact ⟨.ror, hp, .binary⟩
    · cases h
  · obtain ⟨hp, h⟩ := Option.ite_none_right_eq_some.mp h
    split at h
    · exact ⟨.sh1add, hp, .binary⟩
    · exact ⟨.sh2add, hp, .binary⟩
    · exact ⟨.sh3add, hp, .binary⟩
    · cases h
  · have hp := gate h
    simp only [Bool.and_eq_true, beq_iff_eq] at hp
    obtain ⟨⟨hp, rfl⟩, rfl⟩ := hp
    exact ⟨.zextH, hp, .unary⟩
  · obtain ⟨hp, h⟩ := Option.ite_none_right_eq_some.mp h
    split at h
    · exact ⟨.bclr, hp, .binary⟩
    · exact ⟨.bext, hp, .binary⟩
    · cases h
  · obtain ⟨hp, rfl⟩ := gate_and h
    exact ⟨.bset, hp, .binary⟩
  · obtain ⟨hp, rfl⟩ := gate_and h
    exact ⟨.binv, hp, .binary⟩
  · cases h

theorem matches_of_opI {v : Word} (h : Zb.opI p f3 f7 rs2f a b = some v) :
    ∃ i : Instr, i.configured p = true ∧ i.encoding.Matches RiscvScratch.opI f3 f7 rs2f := by
  unfold Zb.opI at h
  extract_lets sh onehot bext at h
  split at h
  · split at h
    · obtain ⟨hp, h⟩ := Option.ite_none_right_eq_some.mp h
      split at h
      · exact ⟨.clz, hp, .unary⟩
      · exact ⟨.ctz, hp, .unary⟩
      · exact ⟨.cpop, hp, .unary⟩
      · exact ⟨.sextB, hp, .unary⟩
      · exact ⟨.sextH, hp, .unary⟩
      · cases h
    · exact ⟨.bclri, gate h, .binary⟩
    · exact ⟨.bseti, gate h, .binary⟩
    · exact ⟨.binvi, gate h, .binary⟩
    · cases h
  · split at h
    · exact ⟨.rori, gate h, .binary⟩
    · exact ⟨.bexti, gate h, .binary⟩
    · obtain ⟨hp, rfl⟩ := gate_and h
      exact ⟨.orcB, hp, .unary⟩
    · obtain ⟨hp, rfl⟩ := gate_and h
      exact ⟨.rev8, hp, .unary⟩
    · cases h
  · cases h

theorem hit_iff : hit p opcode f3 f7 rs2f = true ↔
      ∃ i : Instr, i.configured p = true ∧ i.encoding.Matches opcode f3 f7 rs2f := by
  constructor
  · intro h
    obtain ⟨v, hv⟩ := Option.isSome_iff_exists.mp h
    unfold unit at hv
    split_ifs at hv with hr hi
    · subst hr
      exact matches_of_opR hv
    · subst hi
      exact matches_of_opI hv
  · rintro ⟨i, hc, hm⟩
    rw [hit, unit_of_matches hc hm]
    rfl

theorem result_of_matches {i : Instr} (hc : i.configured p = true)
    (hm : i.encoding.Matches opcode f3 f7 rs2f) :
    result p opcode f3 f7 rs2f a b = i.output a b := by
  rw [result, unit_of_matches hc hm]
  rfl

end unit
end Zb

namespace Base

inductive Instr where
  | add | sub | sll | slt | sltu | xor | srl | sra | or | and
  | addi | slti | sltiu | xori | ori | andi | slli | srli | srai
  | mul | mulh | mulhsu | mulhu | div | divu | rem | remu
  deriving DecidableEq, Repr

def Instr.isM : Instr → Bool
  | .mul | .mulh | .mulhsu | .mulhu | .div | .divu | .rem | .remu => true
  | _ => false

def Instr.encoding : Instr → Encoding
  | .add => ⟨opR, 0b000#3, some 0b0000000#7, none⟩
  | .sub => ⟨opR, 0b000#3, some 0b0100000#7, none⟩
  | .sll => ⟨opR, 0b001#3, some 0b0000000#7, none⟩
  | .slt => ⟨opR, 0b010#3, some 0b0000000#7, none⟩
  | .sltu => ⟨opR, 0b011#3, some 0b0000000#7, none⟩
  | .xor => ⟨opR, 0b100#3, some 0b0000000#7, none⟩
  | .srl => ⟨opR, 0b101#3, some 0b0000000#7, none⟩
  | .sra => ⟨opR, 0b101#3, some 0b0100000#7, none⟩
  | .or => ⟨opR, 0b110#3, some 0b0000000#7, none⟩
  | .and => ⟨opR, 0b111#3, some 0b0000000#7, none⟩
  | .addi => ⟨opI, 0b000#3, none, none⟩
  | .slti => ⟨opI, 0b010#3, none, none⟩
  | .sltiu => ⟨opI, 0b011#3, none, none⟩
  | .xori => ⟨opI, 0b100#3, none, none⟩
  | .ori => ⟨opI, 0b110#3, none, none⟩
  | .andi => ⟨opI, 0b111#3, none, none⟩
  | .slli => ⟨opI, 0b001#3, some 0b0000000#7, none⟩
  | .srli => ⟨opI, 0b101#3, some 0b0000000#7, none⟩
  | .srai => ⟨opI, 0b101#3, some 0b0100000#7, none⟩
  | .mul => ⟨opR, 0b000#3, some 0b0000001#7, none⟩
  | .mulh => ⟨opR, 0b001#3, some 0b0000001#7, none⟩
  | .mulhsu => ⟨opR, 0b010#3, some 0b0000001#7, none⟩
  | .mulhu => ⟨opR, 0b011#3, some 0b0000001#7, none⟩
  | .div => ⟨opR, 0b100#3, some 0b0000001#7, none⟩
  | .divu => ⟨opR, 0b101#3, some 0b0000001#7, none⟩
  | .rem => ⟨opR, 0b110#3, some 0b0000001#7, none⟩
  | .remu => ⟨opR, 0b111#3, some 0b0000001#7, none⟩

end Base

def Encoding.apart (e e' : Encoding) : Bool :=
  e.opcode != e'.opcode || e.funct3 != e'.funct3 ||
    match e.funct7, e'.funct7 with
    | some x, some y => x != y
    | _, _ => false

theorem Encoding.Matches.apart {e e' : Encoding} (h : e.Matches opcode f3 f7 rs2f)
    (h' : e'.Matches opcode f3 f7 rs2f) : e.apart e' = false := by
  obtain ⟨ho, h3, h7, -⟩ := h
  obtain ⟨ho', h3', h7', -⟩ := h'
  unfold Encoding.apart
  rw [← ho, ← h3, ← ho', ← h3']
  cases hx : e.funct7 with
  | none => simp
  | some x =>
    cases hy : e'.funct7 with
    | none => simp
    | some y => simp [← h7 x hx, ← h7' y hy]

theorem zb_apart_base (i : Zb.Instr) (j : Base.Instr) : i.encoding.apart j.encoding = true := by
  cases i <;> cases j <;> rfl

namespace Unified

variable {c : Cfg} {w : Word}

theorem funct3_cases (f3 : BitVec 3) :
    f3 = 0b000#3 ∨ f3 = 0b001#3 ∨ f3 = 0b010#3 ∨ f3 = 0b011#3 ∨ f3 = 0b100#3 ∨ f3 = 0b101#3 ∨
      f3 = 0b110#3 ∨ f3 = 0b111#3 := by
  revert f3
  decide

/-- A word of the base instructions or, where they are configured, of M. -/
def IsBase (c : Cfg) (w : Word) : Prop :=
  ∃ j : Base.Instr, (j.isM = true → c.mExt = true) ∧ j.encoding.IsOf w

def IsZb (c : Cfg) (w : Word) : Prop :=
  ∃ i : Zb.Instr, i.configured c.zb = true ∧ i.encoding.IsOf w

theorem isOf_binary {f3 : BitVec 3} {f7 : BitVec 7} {o : BitVec 7} (ho : opcodeOf w = o)
    (h3 : funct3Of w = f3) (h7 : funct7Of w = f7) : (Encoding.mk o f3 (some f7) none).IsOf w :=
  ⟨ho, h3, by rintro _ ⟨⟩; exact h7, by rintro _ ⟨⟩⟩

theorem isOf_immediate {f3 : BitVec 3} {o : BitVec 7} (ho : opcodeOf w = o)
    (h3 : funct3Of w = f3) : (Encoding.mk o f3 none none).IsOf w :=
  ⟨ho, h3, by rintro _ ⟨⟩, by rintro _ ⟨⟩⟩

theorem isBase_of_baseR (ho : opcodeOf w = opR) (h : baseR w c = true) : IsBase c w := by
  simp only [baseR, Bool.or_eq_true, Bool.and_eq_true, beq_iff_eq] at h
  rcases h with (h7 | ⟨h7, h3 | h3⟩) | ⟨h7, hm⟩
  · rcases funct3_cases (funct3Of w) with h3 | h3 | h3 | h3 | h3 | h3 | h3 | h3
    · exact ⟨.add, nofun, isOf_binary ho h3 h7⟩
    · exact ⟨.sll, nofun, isOf_binary ho h3 h7⟩
    · exact ⟨.slt, nofun, isOf_binary ho h3 h7⟩
    · exact ⟨.sltu, nofun, isOf_binary ho h3 h7⟩
    · exact ⟨.xor, nofun, isOf_binary ho h3 h7⟩
    · exact ⟨.srl, nofun, isOf_binary ho h3 h7⟩
    · exact ⟨.or, nofun, isOf_binary ho h3 h7⟩
    · exact ⟨.and, nofun, isOf_binary ho h3 h7⟩
  · exact ⟨.sub, nofun, isOf_binary ho h3 h7⟩
  · exact ⟨.sra, nofun, isOf_binary ho h3 h7⟩
  · rcases funct3_cases (funct3Of w) with h3 | h3 | h3 | h3 | h3 | h3 | h3 | h3
    · exact ⟨.mul, fun _ => hm, isOf_binary ho h3 h7⟩
    · exact ⟨.mulh, fun _ => hm, isOf_binary ho h3 h7⟩
    · exact ⟨.mulhsu, fun _ => hm, isOf_binary ho h3 h7⟩
    · exact ⟨.mulhu, fun _ => hm, isOf_binary ho h3 h7⟩
    · exact ⟨.div, fun _ => hm, isOf_binary ho h3 h7⟩
    · exact ⟨.divu, fun _ => hm, isOf_binary ho h3 h7⟩
    · exact ⟨.rem, fun _ => hm, isOf_binary ho h3 h7⟩
    · exact ⟨.remu, fun _ => hm, isOf_binary ho h3 h7⟩

theorem isBase_of_baseI (ho : opcodeOf w = opI) (h : baseI w = true) : IsBase c w := by
  unfold baseI at h
  rcases funct3_cases (funct3Of w) with h3 | h3 | h3 | h3 | h3 | h3 | h3 | h3
  · exact ⟨.addi, nofun, isOf_immediate ho h3⟩
  · rw [if_pos h3, beq_iff_eq] at h
    exact ⟨.slli, nofun, isOf_binary ho h3 h⟩
  · exact ⟨.slti, nofun, isOf_immediate ho h3⟩
  · exact ⟨.sltiu, nofun, isOf_immediate ho h3⟩
  · exact ⟨.xori, nofun, isOf_immediate ho h3⟩
  · rw [h3, if_neg (by decide), if_pos rfl, Bool.or_eq_true, beq_iff_eq, beq_iff_eq] at h
    rcases h with h7 | h7
    · exact ⟨.srli, nofun, isOf_binary ho h3 h7⟩
    · exact ⟨.srai, nofun, isOf_binary ho h3 h7⟩
  · exact ⟨.ori, nofun, isOf_immediate ho h3⟩
  · exact ⟨.andi, nofun, isOf_immediate ho h3⟩

theorem encOk_of_isBase (h : IsBase c w) : encOk w c = true := by
  obtain ⟨j, hm, ho, h3, h7, -⟩ := h
  cases j <;>
    simp only [Base.Instr.encoding, Option.mem_def, Option.some.injEq, forall_eq', reduceCtorEq,
      false_implies, implies_true] at ho h3 h7 <;>
    simp only [Base.Instr.isM, Bool.false_eq_true, false_implies, true_implies] at hm <;>
    simp [encOk, baseR, baseI, ho, h3, h7, opR, opI, hm]

theorem opOk_iff (hw : opcodeOf w = opR ∨ opcodeOf w = opI) :
    opOk w c = true ↔ IsBase c w ∨ IsZb c w := by
  have hknown : opKnown w c = true := by
    rcases hw with h | h <;> simp [opKnown, h, opR, opI]
  have hzb : idZb w c = true ↔ IsZb c w := Zb.hit_iff
  rw [opOk, hknown, Bool.true_and]
  constructor
  · intro h
    rcases hw with ho | ho
    · rw [encOk, if_pos ho, Bool.or_eq_true, hzb] at h
      exact h.imp_left (isBase_of_baseR ho)
    · rw [encOk, ho, if_neg (by decide), if_pos rfl, Bool.or_eq_true, hzb] at h
      exact h.imp_left (isBase_of_baseI ho)
  · rintro (h | h)
    · exact encOk_of_isBase h
    · rw [← hzb] at h
      unfold encOk
      rcases hw with ho | ho
      · rw [if_pos ho, h, Bool.or_true]
      · rw [ho, if_neg (by decide), if_pos rfl, h, Bool.or_true]

end Unified
end RiscvScratch
