import RiscvScratch.Debug.CpuCoreDbg
import RiscvScratch.Program.Wp

/-! The GDB server (`gdbstub.py`) on the debugged core. The transport makes one DMI access of each
`w32` and `r32` and leaves the core some idle clocks after it. A Python exception ends the server;
`int(s, 16)` and `bytes.fromhex` are parameters. -/
namespace RiscvScratch.Gdbstub

abbrev Str := List Char

/-- The program, its slaves, the timer line and the clocks the transport takes, by the cycle; and
Python's two parsers. -/
structure Setup (μ : Type) where
  fetch : Word → Word
  bus : Bus μ
  timer : ℕ → Bool
  idle : ℕ → ℕ
  int16 : Str → Option ℤ
  fromHex : Str → Option (List (BitVec 8))

/-- `NBP`, of the server and of the debug module. -/
def nbp : ℕ := 4

inductive Event where
  | packet (body : Str) (halted : Bool)
  | sent (text : Str) (halted : Bool)
  deriving DecidableEq, Repr

/-- The core and its cycle, `bp_slots` in the order of insertion, `buf`, and the history. -/
structure Server (μ : Type) where
  soc : DebugSoc.State μ
  cycle : ℕ
  slots : List (ℤ × ℕ)
  buf : Str
  trace : List Event

inductive Crash where
  | valueError
  deriving DecidableEq, Repr

abbrev Stub (μ : Type) := EStateM Crash (Server μ)

section transport
variable {μ : Type} (e : Setup μ)

def tick (d : Dmi) (s : Server μ) : Server μ :=
  { s with
    soc := DebugSoc.step e.fetch e.bus nbp s.soc ⟨e.timer s.cycle, d⟩
    cycle := s.cycle + 1 }

def wait : ℕ → Server μ → Server μ
  | 0, s => s
  | n + 1, s => wait n (tick e .idle s)

def access (d : Dmi) (s : Server μ) : Server μ := wait e (e.idle s.cycle) (tick e d s)

def w32 (a : BitVec 8) (v : ℤ) : Stub μ PUnit := modify (access e (.write a (BitVec.ofInt 32 v)))

def r32 (a : BitVec 8) : Stub μ ℕ := do
  let s ← get
  set (access e (.read a) s)
  pure (DebugSoc.dmiRdata e.fetch e.bus s.soc ⟨e.timer s.cycle, .read a⟩).toNat

def halt : Stub μ PUnit := w32 e DebugModule.control 1
def cont : Stub μ PUnit := w32 e DebugModule.control 2
def stepOne : Stub μ PUnit := w32 e DebugModule.control 4

def rdReg (i : ℤ) : Stub μ ℕ :=
  if i = 32 then r32 e DebugModule.dpc
  else do
    w32 e DebugModule.regsel i
    r32 e DebugModule.regdata

def wrReg (i : ℤ) (v : ℤ) : Stub μ PUnit :=
  if i = 32 then w32 e DebugModule.dpc v
  else do
    w32 e DebugModule.regsel i
    w32 e DebugModule.regdata v

def wordAddr (a : ℤ) : ℤ := a - a % 4

def rdWord (a : ℤ) : Stub μ ℕ := do
  w32 e DebugModule.memaddr (wordAddr a)
  r32 e DebugModule.memdata

def wrWord (a : ℤ) (v : ℤ) : Stub μ PUnit := do
  w32 e DebugModule.memaddr (wordAddr a)
  w32 e DebugModule.memdata v

/-- The position of byte `a` in its word, in bits. -/
def laneOf (a : ℤ) : ℕ := 8 * (a % 4).toNat

def rdMem (addr : ℤ) : ℕ → Stub μ (List ℕ)
  | 0 => pure []
  | n + 1 => do
    let w ← rdWord e addr
    let rest ← rdMem (addr + 1) n
    pure (w / 2 ^ laneOf addr % 256 :: rest)

def wrMem (addr : ℤ) : List (BitVec 8) → Stub μ PUnit
  | [] => pure ()
  | b :: rest => do
    let w ← rdWord e addr
    let cleared := w - w / 2 ^ laneOf addr % 256 * 2 ^ laneOf addr
    wrWord e addr (cleared + b.toNat * 2 ^ laneOf addr : ℕ)
    wrMem (addr + 1) rest

def setSlot (slots : List (ℤ × ℕ)) (addr : ℤ) (idx : ℕ) : List (ℤ × ℕ) :=
  if slots.any (·.1 == addr) then slots.map fun p => if p.1 = addr then (addr, idx) else p
  else slots ++ [(addr, idx)]

def setBp (addr : ℤ) : Stub μ PUnit := do
  let idx := (← get).slots.length % nbp
  modify fun s => { s with slots := setSlot s.slots addr idx }
  w32 e DebugModule.bpsel idx
  w32 e DebugModule.bpset addr

def clrBp (addr : ℤ) : Stub μ PUnit := do
  match (← get).slots.lookup addr with
  | none => pure ()
  | some idx =>
    w32 e DebugModule.bpsel idx
    w32 e DebugModule.bpclr 0
    modify fun s => { s with slots := s.slots.filter (·.1 != addr) }

/-- `%02x`. -/
def hex2 (n : ℕ) : Str := [Nat.digitChar (n / 16 % 16), Nat.digitChar (n % 16)]

def hexreg (v : ℕ) : Str := (List.range 4).flatMap fun i => hex2 (v / 2 ^ (8 * i) % 256)

/-- The value of `x`, or the exception its evaluation raises. -/
def require {α : Type} (x : Option α) : Stub μ α :=
  match x with
  | some a => pure a
  | none => throw .valueError

def two {α : Type} : List α → Option (α × α)
  | [a, b] => some (a, b)
  | _ => none

def three {α : Type} : List α → Option (α × α × α)
  | [a, b, c] => some (a, b, c)
  | _ => none

def fromLittle : List (BitVec 8) → ℕ
  | [] => 0
  | b :: rest => b.toNat + 256 * fromLittle rest

def readAll : ℕ → ℕ → Stub μ Str
  | _, 0 => pure []
  | i, n + 1 => do
    let v ← rdReg e i
    let rest ← readAll (i + 1) n
    pure (hexreg v ++ rest)

def writeAll (data : Str) : ℕ → ℕ → Stub μ PUnit
  | _, 0 => pure ()
  | i, n + 1 => do
    let bs ← require (e.fromHex ((data.drop (i * 8)).take 8))
    wrReg e i (fromLittle bs)
    writeAll data (i + 1) n

def ok : Str := ['O', 'K']
def stopped : Str := ['S', '0', '5']

/-- `p` and `P`. -/
def readOne (arg : Str) : Stub μ Str := do
  let i ← require (e.int16 arg)
  let v ← rdReg e i
  pure (hexreg v)

def writeOne (arg : Str) : Stub μ Str := do
  let (r, v) ← require (two (arg.splitOn '='))
  let i ← require (e.int16 r)
  let bs ← require (e.fromHex v)
  wrReg e i (fromLittle bs)
  pure ok

/-- `m` and `M`. -/
def readMemory (arg : Str) : Stub μ Str := do
  let (a, l) ← require (two (arg.splitOn ','))
  let addr ← require (e.int16 a)
  let len ← require (e.int16 l)
  let bytes ← rdMem e addr len.toNat
  pure (bytes.flatMap hex2)

def writeMemory (arg : Str) : Stub μ Str := do
  let (head, data) ← require (two (arg.splitOn ':'))
  let (a, _) ← require (two (head.splitOn ','))
  let addr ← require (e.int16 a)
  let bytes ← require (e.fromHex data)
  wrMem e addr bytes
  pure ok

/-- `Z` and `z`. -/
def breakpoint (insert : Bool) (arg : Str) : Stub μ Str := do
  let (typ, addr, _) ← require (three (arg.splitOn ','))
  if typ = ['0'] ∨ typ = ['1'] then
    let a ← require (e.int16 addr)
    if insert then setBp e a else clrBp e a
    pure ok
  else pure []

def queries : List (Str × Str) :=
  [("qAttached".toList, ['1']), ("qC".toList, []), ("qfThreadInfo".toList, ['m', '0']),
    ("qsThreadInfo".toList, []), ("qTStatus".toList, [])]

def handle (pkt : Str) : Stub μ Str :=
  if "qSupported".toList.isPrefixOf pkt then pure "PacketSize=1000;hwbreak+".toList
  else match queries.lookup pkt with
    | some reply => pure reply
    | none =>
      match pkt with
      | '?' :: _ => do halt e; pure stopped
      | 'g' :: _ => readAll e 0 33
      | 'G' :: data => do writeAll e data 0 33; pure ok
      | 'p' :: arg => readOne e arg
      | 'P' :: arg => writeOne e arg
      | 'm' :: arg => readMemory e arg
      | 'M' :: arg => writeMemory e arg
      | 'c' :: _ => do cont e; pure stopped
      | 's' :: _ => do stepOne e; pure stopped
      | 'Z' :: arg => breakpoint e true arg
      | 'z' :: arg => breakpoint e false arg
      | _ => pure []

def checksum (body : Str) : ℕ := (body.map Char.toNat).sum % 256

def frame (body : Str) : Str := '$' :: (body ++ '#' :: hex2 (checksum body))

def record (f : Bool → Event) : Stub μ PUnit :=
  modify fun s => { s with trace := s.trace ++ [f s.soc.cpu.halted] }

def sendall (text : Str) : Stub μ PUnit := record (.sent text)

def ctrlC : Char := '\x03'

/-- `'#' in buf and buf.index('#') + 2 < len(buf)`. -/
def complete (buf : Str) : Bool := decide (buf.idxOf '#' + 2 < buf.length)

def turn : Stub μ PUnit := do
  let buf := (← get).buf
  if buf.head? = some ctrlC then
    halt e
    sendall ('+' :: frame stopped)
    modify fun s => { s with buf := buf.drop 1 }
  else
    let i := buf.idxOf '$'
    if buf.length ≤ i then throw .valueError
    let n := (buf.drop i).idxOf '#'
    if buf.length ≤ i + n then throw .valueError
    let body := (buf.drop (i + 1)).take (n - 1)
    modify fun s => { s with buf := buf.drop (i + n + 3) }
    record (.packet body)
    sendall ['+']
    let reply ← handle e body
    sendall (frame reply)

/-- The inner loop, for at most `n` turns. -/
def turns : ℕ → Stub μ PUnit
  | 0 => pure ()
  | n + 1 => do
    if complete (← get).buf then
      turn e
      turns n

/-- One `recv`, some clocks after the one before. Every turn takes a character from the buffer. -/
def recv (delay : ℕ) (data : Str) : Stub μ PUnit := do
  modify fun s => { wait e delay s with buf := s.buf ++ data }
  turns e (← get).buf.length

def serve : List (ℕ × Str) → Stub μ PUnit
  | [] => pure ()
  | (delay, data) :: rest => do
    recv e delay data
    serve rest

end transport

def final {μ α : Type} (c : Stub μ α) (s : Server μ) : Server μ :=
  match c s with
  | .ok _ s' => s'
  | .error _ s' => s'

def start {μ : Type} (resetPc resvAddr : Word) (regs : Regs) (mem : μ) : Server μ :=
  ⟨DebugSoc.reset nbp resetPc resvAddr regs mem, 0, [], [], []⟩

end RiscvScratch.Gdbstub
