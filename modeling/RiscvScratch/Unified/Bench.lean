import RiscvScratch.Unified.Core

/-! A bench for the unified core: a read-only memory image behind both ports, a schedule for
each `ready`, and quiet interrupt lines. -/
namespace RiscvScratch.Unified

/-- Every feature off, one region list to be filled in. -/
def Cfg.bare : Cfg where
  resetPc := 0#32
  tlbEntries := 1
  bpred := false
  bpIdxBits := 1
  mExt := false
  aExt := false
  hasU := false
  hasS := false
  mmu := false
  zba := false
  zbb := false
  zbc := false
  zbs := false
  vExt := false
  vlen := 64
  zicntr := false
  svade := false
  pmaN := 0
  pmaBase _ := 0#32
  pmaSize _ := 0#32
  pmaAttr _ := 0#3
  tlbPos := Nat.one_pos

/-- Sv32 with a one-entry TLB on each side. -/
def Cfg.paged : Cfg := { Cfg.bare with hasU := true, hasS := true, mmu := true }

def blankTlb : Tlb.State := ⟨fun _ => ⟨false, false, 0#20, 0#22, 0#4⟩, 0⟩

def blankVec : Vec.State where
  vrf _ := 0#32
  vl := 0#32
  vtype := 0#32
  vstart := 0#32
  vxrm := 0#2
  vxsat := false
  fsm := .idle
  idx := 0#32
  x1 := 0#32
  x2 := 0#32
  acc := 0#32
  found := false
  mres _ := 0#32
  mwr _ := 0#32
  eaddr := 0#32
  fw := 0
  done := false
  fault := false
  faultCause := 0#4
  faultTval := 0#32
  scalarOut := 0#32

/-- All registers zero, for the ones `rst` leaves alone. -/
def blank (c : Cfg) : State where
  pc := 0#32
  ifid := IfId.bubble
  idex := IdEx.bubble
  exmem := ExMem.bubble
  memwb := MemWb.bubble
  regs _ := 0#32
  csr := Csr.reset c.csr
  itlb := blankTlb
  dtlb := blankTlb
  ptw := Ptw.reset
  bp := BranchPredictor.reset
  vec := blankVec
  counters := ⟨.other, .other, fun _ => 0#64, 0#8⟩
  wresValid := false
  wresI := false
  wresVpn := 0#20
  wresAf := false
  resvValid := false
  resvAddr := 0#32
  amoPh := false
  amoOld := 0#32

/-- The image answers both ports; `iReady` and `dReady` say in which cycles. -/
def bench (c : Cfg) (image : Word → Word) (iReady dReady : ℕ → Bool) (t : ℕ) (s : State) :
    Input where
  timerIrq := false
  mtime := 0#64
  meip := false
  seip := false
  halt := false
  fenceiAck := true
  iRdata := image (iAddr c s)
  iReady := iReady t
  dRdata := image (dAddr c s)
  dReady := dReady t

theorem blank_starts (c : Cfg) : (machine c).init (reset c (blank c)) := ⟨blank c, rfl⟩

def benchRun (c : Cfg) (image : Word → Word) (iReady dReady : ℕ → Bool) : Run c :=
  (machine c).runOf (bench c image iReady dReady) (reset c (blank c)) (blank_starts c)

/-- Boots into S-mode at `0x3FFFFC`, the last word of the mapping. -/
def superImage (a : Word) : Word :=
  match a with
  | 0x00#32 => 0x800000B7#32 -- lui x1, 0x80000
  | 0x04#32 => 0x00108093#32 -- addi x1, x1, 1
  | 0x08#32 => 0x18009073#32 -- csrw satp, x1
  | 0x0C#32 => 0x00400137#32 -- lui x2, 0x400
  | 0x10#32 => 0xFFC10113#32 -- addi x2, x2, -4
  | 0x14#32 => 0x34111073#32 -- csrw mepc, x2
  | 0x18#32 => 0x000011B7#32 -- lui x3, 1
  | 0x1C#32 => 0x80018193#32 -- addi x3, x3, -0x800
  | 0x20#32 => 0x30019073#32 -- csrw mstatus, x3
  | 0x24#32 => 0x30200073#32 -- mret
  | 0x1000#32 => 0x000000CF#32 -- leaf for the first 4 MiB
  | _ => nop

end RiscvScratch.Unified
