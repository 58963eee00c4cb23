import RiscvScratch.Core.Decode

/-! The register file (`regfile.v`), the instruction memory (`imem.v`) and the byte-wide
data memory (`dmem.v`) of the teaching cores. -/
namespace RiscvScratch

/-- The 32 stored words; `x0` is stored like the others and masked on reads. -/
abbrev Regs := BitVec 5 → Word

def Regs.read (r : Regs) (a : BitVec 5) : Word := if a = 0#5 then 0#32 else r a

def Regs.write (r : Regs) (we : Bool) (rd : BitVec 5) (v : Word) : Regs :=
  if we && rd != 0#5 then Function.update r rd v else r

@[simp] theorem Regs.write_false (r : Regs) (rd : BitVec 5) (v : Word) :
    r.write false rd v = r := rfl

@[simp] theorem Regs.write_zero (r : Regs) (we : Bool) (v : Word) : r.write we 0#5 v = r := by
  simp [Regs.write]

theorem Regs.read_write (r : Regs) (we : Bool) (rd a : BitVec 5) (v : Word) :
    (r.write we rd v).read a = if we && rd != 0#5 && rd == a then v else r.read a := by
  unfold Regs.write Regs.read
  by_cases h0 : a = 0#5
  · subst h0
    have : (rd != 0#5 && rd == 0#5) = false := by
      by_cases hr : rd = 0#5 <;> simp [hr]
    simp [Bool.and_assoc, this]
  · by_cases hw : (we && rd != 0#5) = true
    · by_cases ha : rd = a
      · subst ha; simp [hw, h0]
      · have ha' : ¬ a = rd := fun h => ha h.symm
        simp [hw, h0, ha, ha', Function.update]
    · simp [hw, h0]

/-- The 1024-word instruction memory; the byte address is cut to its word index. -/
abbrev Imem := BitVec 10 → Word

def Imem.fetch (m : Imem) (addr : Word) : Word := m (addr.extractLsb' 2 10)

def dmemBytes : ℕ := 4096

/-- Byte array of `dmem`. Indices from `dmemBytes` on, which `mem[a+1]` .. `mem[a+3]` can name, are
never written. -/
abbrev Dmem := ℕ → BitVec 8

def Dmem.index (addr : Word) : ℕ := (addr.extractLsb' 0 12).toNat

def Dmem.read (m : Dmem) (addr : Word) (f3 : BitVec 3) : Word :=
  let a := Dmem.index addr
  let half : BitVec 16 := m (a + 1) ++ m a
  let word : Word := m (a + 3) ++ m (a + 2) ++ m (a + 1) ++ m a
  match f3 with
  | 0b000#3 => (m a).signExtend 32
  | 0b001#3 => half.signExtend 32
  | 0b010#3 => word
  | 0b100#3 => (m a).zeroExtend 32
  | 0b101#3 => half.zeroExtend 32
  | _ => word

def Dmem.setByte (m : Dmem) (n : ℕ) (b : BitVec 8) : Dmem :=
  if n < dmemBytes then Function.update m n b else m

def Dmem.write (m : Dmem) (we : Bool) (addr wdata : Word) (f3 : BitVec 3) : Dmem :=
  let a := Dmem.index addr
  let m1 := m.setByte a (wdata.extractLsb' 0 8)
  let m2 := m1.setByte (a + 1) (wdata.extractLsb' 8 8)
  if we then
    match f3 with
    | 0b000#3 => m1
    | 0b001#3 => m2
    | 0b010#3 =>
      (m2.setByte (a + 2) (wdata.extractLsb' 16 8)).setByte (a + 3) (wdata.extractLsb' 24 8)
    | _ => m
  else m

@[simp] theorem Dmem.write_false (m : Dmem) (addr wdata : Word) (f3 : BitVec 3) :
    m.write false addr wdata f3 = m := rfl

structure RegWrite where
  rd : BitVec 5
  value : Word
  deriving DecidableEq, Repr

structure MemWrite where
  addr : Word
  wdata : Word
  funct3 : BitVec 3
  deriving DecidableEq, Repr

def regWriteEvent (we : Bool) (rd : BitVec 5) (v : Word) : List RegWrite :=
  if we && rd != 0#5 then [⟨rd, v⟩] else []

def memWriteEvent (we : Bool) (addr wdata : Word) (f3 : BitVec 3) : List MemWrite :=
  if we then [⟨addr, wdata, f3⟩] else []

end RiscvScratch
