import RiscvScratch.Clocked.Machine

/-! The driver of the byte-wide SRAM (`s6_sram.v`) with the part on its pins (`s6_sram_model.v`).
The part answers within `RD_CYCLES` clocks; until then its data pins may show anything. It stores
what is on them when `/WE` rises. -/
namespace RiscvScratch.S6Sram

/-- `RD_CYCLES` and `WR_CYCLES`; the counter has eight bits. -/
structure Config where
  rdCycles : ℕ
  wrCycles : ℕ
  rd_pos : 1 ≤ rdCycles
  rd_le : rdCycles ≤ 256
  wr_pos : 1 ≤ wrCycles
  wr_le : wrCycles ≤ 256

inductive Phase where
  | idle | rd | wset | wpul | whold | ack
  deriving DecidableEq, Repr

structure Bus where
  sel : Bool
  re : Bool
  be : BitVec 4
  addr : BitVec 19
  wdata : BitVec 32
  deriving DecidableEq, Repr

structure Ctl where
  st : Phase
  bi : BitVec 2
  cnt : BitVec 8
  wordA : BitVec 17
  wbuf : BitVec 32
  bebuf : BitVec 4
  isWr : Bool
  rdata : BitVec 32
  deriving DecidableEq, Repr

structure Pins where
  a : BitVec 19
  dout : BitVec 8
  doe : Bool
  ceN : Bool
  oeN : Bool
  weN : Bool
  deriving DecidableEq, Repr

def lane (x : BitVec 32) (j : BitVec 2) : BitVec 8 := x.extractLsb' (8 * j.toNat) 8

def setLane (x : BitVec 32) (j : BitVec 2) (b : BitVec 8) : BitVec 32 :=
  (x &&& ~~~(0xFF#32 <<< (8 * j.toNat))) ||| b.setWidth 32 <<< (8 * j.toNat)

def Bus.requests (i : Bus) : Bool := i.sel && (i.re || i.be != 0)

/-- `addr[18:2]` -/
def Bus.word (i : Bus) : BitVec 17 := i.addr.extractLsb' 2 17

namespace Ctl

def reset : Ctl := ⟨.idle, 0, 0, 0, 0, 0, false, 0⟩

def ready (s : Ctl) : Bool := s.st == .ack
def lastByte (s : Ctl) : Bool := s.bi == 3
def writing (s : Ctl) : Bool := s.st == .wset || s.st == .wpul || s.st == .whold

def pins (s : Ctl) : Pins where
  a := s.wordA ++ s.bi
  dout := lane s.wbuf s.bi
  doe := s.writing
  ceN := !(s.st == .rd || s.writing)
  oeN := !(s.st == .rd)
  weN := !(s.st == .wpul)

def samples (c : Config) (s : Ctl) : Bool := s.st == .rd && s.cnt.toNat + 1 == c.rdCycles

def step (c : Config) (s : Ctl) (i : Bus) (din : BitVec 8) : Ctl :=
  match s.st with
  | .idle =>
    if i.requests then
      { s with wordA := i.word, wbuf := i.wdata, bebuf := i.be, isWr := i.be != 0, bi := 0,
               cnt := 0, st := if i.be ≠ 0 then .wset else .rd }
    else s
  | .rd =>
    if s.cnt.toNat + 1 = c.rdCycles then
      let s' := { s with rdata := setLane s.rdata s.bi din, cnt := 0 }
      if s.lastByte then { s' with st := .ack } else { s' with bi := s.bi + 1 }
    else { s with cnt := s.cnt + 1 }
  | .wset =>
    let s' := { s with cnt := 0 }
    if !s.bebuf.getLsbD s.bi.toNat then
      if s.lastByte then { s' with st := .ack } else { s' with bi := s.bi + 1 }
    else { s' with st := .wpul }
  | .wpul =>
    if s.cnt.toNat + 1 = c.wrCycles then { s with cnt := 0, st := .whold }
    else { s with cnt := s.cnt + 1 }
  | .whold =>
    if s.lastByte then { s with st := .ack } else { s with bi := s.bi + 1, st := .wset }
  | .ack => { s with st := .idle }

section Steps

variable {c : Config} {s : Ctl} {i : Bus} {d : BitVec 8}

theorem step_idle (hst : s.st = .idle) (h : i.requests = false) : s.step c i d = s := by
  simp [step, hst, h]

theorem step_start (hst : s.st = .idle) (h : i.requests = true) :
    s.step c i d = { s with
      wordA := i.word, wbuf := i.wdata, bebuf := i.be, isWr := i.be != 0, bi := 0, cnt := 0,
      st := if i.be ≠ 0 then .wset else .rd } := by
  simp only [step, hst, h, if_true]

theorem step_rd_wait (hst : s.st = .rd) (h : s.cnt.toNat + 1 ≠ c.rdCycles) :
    s.step c i d = { s with cnt := s.cnt + 1 } := by
  simp only [step, hst]
  rw [if_neg h]

theorem step_rd_next (hst : s.st = .rd) (h : s.cnt.toNat + 1 = c.rdCycles)
    (hl : s.lastByte = false) :
    s.step c i d = { s with rdata := setLane s.rdata s.bi d, cnt := 0, bi := s.bi + 1 } := by
  simp only [step, hst, hl, Bool.false_eq_true, if_false]
  rw [if_pos h]

theorem step_rd_last (hst : s.st = .rd) (h : s.cnt.toNat + 1 = c.rdCycles)
    (hl : s.lastByte = true) :
    s.step c i d = { s with rdata := setLane s.rdata s.bi d, cnt := 0, st := .ack } := by
  simp only [step, hst, hl, if_true]
  rw [if_pos h]

theorem step_wset_skip (hst : s.st = .wset) (h : s.bebuf.getLsbD s.bi.toNat = false)
    (hl : s.lastByte = false) : s.step c i d = { s with cnt := 0, bi := s.bi + 1 } := by
  simp [step, hst, h, hl]

theorem step_wset_skip_last (hst : s.st = .wset) (h : s.bebuf.getLsbD s.bi.toNat = false)
    (hl : s.lastByte = true) : s.step c i d = { s with cnt := 0, st := .ack } := by
  simp [step, hst, h, hl]

theorem step_wset_pulse (hst : s.st = .wset) (h : s.bebuf.getLsbD s.bi.toNat = true) :
    s.step c i d = { s with cnt := 0, st := .wpul } := by
  simp [step, hst, h]

theorem step_wpul_wait (hst : s.st = .wpul) (h : s.cnt.toNat + 1 ≠ c.wrCycles) :
    s.step c i d = { s with cnt := s.cnt + 1 } := by
  simp only [step, hst]
  rw [if_neg h]

theorem step_wpul_end (hst : s.st = .wpul) (h : s.cnt.toNat + 1 = c.wrCycles) :
    s.step c i d = { s with cnt := 0, st := .whold } := by
  simp only [step, hst]
  rw [if_pos h]

theorem step_whold_next (hst : s.st = .whold) (hl : s.lastByte = false) :
    s.step c i d = { s with bi := s.bi + 1, st := .wset } := by
  simp [step, hst, hl]

theorem step_whold_last (hst : s.st = .whold) (hl : s.lastByte = true) :
    s.step c i d = { s with st := .ack } := by
  simp [step, hst, hl]

theorem step_ack (hst : s.st = .ack) : s.step c i d = { s with st := .idle } := by
  simp [step, hst]

end Steps

end Ctl

abbrev Mem := BitVec 19 → BitVec 8

/-- For how many clocks up to the last the part has driven the data of address `lastA`. -/
structure Chip where
  mem : Mem
  lastA : BitVec 19
  held : ℕ

namespace Chip

def drives (p : Pins) : Bool := !p.ceN && !p.oeN && p.weN

def steady (m : Chip) (p : Pins) : ℕ :=
  if drives p then (if m.lastA = p.a then m.held else 0) + 1 else 0

/-- From the pins of one cycle to those of the next: `/WE` rising stores a byte. -/
def step (m : Chip) (p p' : Pins) : Chip where
  mem := if !p.weN && p'.weN && !p'.ceN then Function.update m.mem p'.a p'.dout else m.mem
  lastA := p.a
  held := m.steady p

end Chip

structure State where
  ctl : Ctl
  chip : Chip

/-- `noise` is what the data pins show while the part has no answer. -/
structure Input where
  bus : Bus
  noise : BitVec 8

variable (c : Config)

def din (s : State) (i : Input) : BitVec 8 :=
  if c.rdCycles ≤ s.chip.steady s.ctl.pins then s.chip.mem s.ctl.pins.a else i.noise

def step (s : State) (i : Input) : State :=
  let ctl := s.ctl.step c i.bus (din c s i)
  ⟨ctl, s.chip.step s.ctl.pins ctl.pins⟩

/-- The contents at the start are whatever they are. -/
def machine : Clocked.Machine State Input where
  init s := s.ctl = Ctl.reset ∧ s.chip.held = 0
  step := step c

abbrev Run := (machine c).Run

end RiscvScratch.S6Sram
