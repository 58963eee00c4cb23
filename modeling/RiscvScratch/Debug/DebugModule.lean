import RiscvScratch.Core.Alu

/-! The debug module (`debug_module.v`): the registers a host writes over the DMI and the pulses and
levels they make for the core. -/
namespace RiscvScratch

/-- An access of the host; nothing happens unless `sel`. -/
structure Dmi where
  sel : Bool
  we : Bool
  addr : BitVec 8
  wdata : Word
  deriving DecidableEq, Repr

namespace Dmi

def idle : Dmi := ⟨false, false, 0#8, 0#32⟩
def write (addr : BitVec 8) (wdata : Word) : Dmi := ⟨true, true, addr, wdata⟩
def read (addr : BitVec 8) : Dmi := ⟨true, false, addr, 0#32⟩

end Dmi

namespace DebugModule

def control : BitVec 8 := 0x00#8
def status : BitVec 8 := 0x04#8
def regsel : BitVec 8 := 0x08#8
def regdata : BitVec 8 := 0x0C#8
def dpc : BitVec 8 := 0x10#8
def memaddr : BitVec 8 := 0x14#8
def memdata : BitVec 8 := 0x18#8
def bpsel : BitVec 8 := 0x1C#8
def bpset : BitVec 8 := 0x20#8
def bpclr : BitVec 8 := 0x24#8

/-- `bp_en` and `bp_addr_flat` with one entry per breakpoint. -/
structure State where
  haltReq : Bool
  regsel : BitVec 5
  memaddr : Word
  bpsel : ℕ
  bpEn : List Bool
  bpAddr : List Word
  deriving DecidableEq, Repr

def reset (nbp : ℕ) : State := ⟨false, 0#5, 0#32, 0, List.replicate nbp false,
  List.replicate nbp 0#32⟩

def clog2 (n : ℕ) : ℕ := if n ≤ 1 then 0 else Nat.log2 (n - 1) + 1

variable (nbp : ℕ) (s : State) (d : Dmi)

def wr (a : BitVec 8) : Bool := d.sel && d.we && d.addr == a

def dbgResume : Bool := wr d control && d.wdata.getLsbD 1
def dbgStep : Bool := wr d control && d.wdata.getLsbD 2
def dbgRegWe : Bool := wr d regdata
def dbgPcWe : Bool := wr d dpc
def dmMemReq : Bool := d.sel && d.addr == memdata
def dmMemWe : Bool := wr d memdata

def step : State where
  haltReq :=
    if wr d control then
      if d.wdata.getLsbD 2 then false
      else if d.wdata.getLsbD 1 then false
      else if d.wdata.getLsbD 0 then true
      else s.haltReq
    else s.haltReq
  regsel := if wr d regsel then d.wdata.setWidth 5 else s.regsel
  memaddr := if wr d memaddr then d.wdata else s.memaddr
  bpsel := if wr d bpsel then d.wdata.toNat % 2 ^ clog2 nbp else s.bpsel
  bpEn :=
    if wr d bpset then s.bpEn.set s.bpsel true
    else if wr d bpclr then s.bpEn.set s.bpsel false
    else s.bpEn
  bpAddr := if wr d bpset then s.bpAddr.set s.bpsel d.wdata else s.bpAddr

/-- `bp_match`, which the core computes. -/
def bpMatch (pc : Word) : Bool := (s.bpEn.zip s.bpAddr).any fun b => b.1 && pc == b.2

def enabled : List Word := ((s.bpEn.zip s.bpAddr).filter (·.1)).map (·.2)

theorem bpMatch_iff (pc : Word) : bpMatch s pc = true ↔ pc ∈ enabled s := by
  unfold bpMatch enabled
  simp only [List.any_eq_true, Bool.and_eq_true, beq_iff_eq, List.mem_map, List.mem_filter]
  constructor
  · rintro ⟨b, hb, he, rfl⟩
    exact ⟨b, ⟨hb, he⟩, rfl⟩
  · rintro ⟨b, ⟨hb, he⟩, rfl⟩
    exact ⟨b, hb, he, rfl⟩

@[simp] theorem step_idle : step nbp s .idle = s := rfl

end DebugModule
end RiscvScratch
