import RiscvScratch.Clocked.Machine
import RiscvScratch.Core.Alu
import RiscvScratch.Oz.AsyncFifo

/-! The PS's view of the core (`oz_host.v`): an AXI4-Lite slave in the `aclk` domain whose requests
reach the block RAMs in the `cclk` domain (`oz_rv_soc.v`) by a toggle handshake. A step is an edge
of either clock or of both; what crosses at an edge is an input of the step. -/
namespace RiscvScratch.Host

structure Params where
  features : Word
  imemBytes : Word
  dmemBytes : Word
  cfgHash : Word
  coreHz : Word

/-- One access to a block RAM: `rq_*`, and `h_*` in the core's domain. -/
structure Request where
  we : Bool
  dmem : Bool
  addr : BitVec 16
  wdata : Word
  deriving DecidableEq

inductive Fsm
  | idle | memW | memR | b | r
  deriving DecidableEq

/-- The registers on `aclk`. -/
structure ASide where
  fsm : Fsm
  ctrlRun : Bool
  reqTgl : Bool
  rq : Request
  rdata : Word
  conPop : Bool
  ackA1 : Bool
  ackA2 : Bool
  ackA3 : Bool
  haltA1 : Bool
  haltA2 : Bool
  exitA : Word

/-- The registers on `cclk`; the last three belong to the second ports of the RAMs. -/
structure CSide where
  reqC1 : Bool
  reqC2 : Bool
  reqC3 : Bool
  ackTgl : Bool
  hEn : Bool
  hCap : Bool
  h : Request
  resp : Word
  hDmemQ : Bool
  ibRdata : Word
  dbRdata : Word

structure State where
  a : ASide
  c : CSide
  con : AsyncFifo.State (BitVec 8) 4

/-- An edge of `aclk`: the master's signals, and what is seen of the other domain. -/
structure AEdge where
  awaddr : Word
  awvalid : Bool
  wdata : Word
  wstrb : BitVec 4
  wvalid : Bool
  bready : Bool
  araddr : Word
  arvalid : Bool
  rready : Bool
  ackSeen : Bool
  respSeen : Word
  wgraySeen : AsyncFifo.Ptr 4
  halted : Bool
  exitCode : Word

/-- An edge of `cclk`; `imem` and `dmem` are the contents of the RAMs, which the core writes too. -/
structure CEdge where
  conValid : Bool
  conData : BitVec 8
  reqSeen : Bool
  rqSeen : Request
  rgraySeen : AsyncFifo.Ptr 4
  imem : BitVec 16 → Word
  dmem : BitVec 16 → Word

structure Input where
  a : Option AEdge
  c : Option CEdge

/-- `addr[21:20]`: the window of an address, and whether it is the DMEM's. -/
def window (addr : Word) : Option Bool :=
  if addr.extractLsb' 20 2 = 1#2 then some false
  else if addr.extractLsb' 20 2 = 2#2 then some true
  else none

def memDone (a : ASide) : Bool := a.ackA2 != a.ackA3
def doWr (a : ASide) (e : AEdge) : Bool := a.fsm == .idle && e.awvalid && e.wvalid
def doRd (a : ASide) (e : AEdge) : Bool := a.fsm == .idle && !doWr a e && e.arvalid

variable (p : Params) (a : ASide) (conAvail : Bool) (conByte : BitVec 8)

def readReg (addr : BitVec 8) :
    Word :=
  if addr = 0x00#8 then 0x4F5A5256#32
  else if addr = 0x04#8 then (BitVec.ofBool a.ctrlRun).zeroExtend 32
  else if addr = 0x08#8 then
    (BitVec.ofBool conAvail ++ BitVec.ofBool a.haltA2 ++ BitVec.ofBool a.ctrlRun).zeroExtend 32
  else if addr = 0x0C#8 then a.exitA
  else if addr = 0x10#8 then (BitVec.ofBool conAvail ++ conByte).zeroExtend 32
  else if addr = 0x14#8 then p.features
  else if addr = 0x18#8 then p.imemBytes
  else if addr = 0x1C#8 then p.dmemBytes
  else if addr = 0x20#8 then p.cfgHash
  else if addr = 0x24#8 then p.coreHz
  else 0#32

/-- The synchronisers of `aclk`, which run in every state. -/
def ASide.sync (a : ASide) (e : AEdge) : ASide :=
  { a with
    conPop := false
    ackA1 := e.ackSeen, ackA2 := a.ackA1, ackA3 := a.ackA2
    haltA1 := e.halted, haltA2 := a.haltA1
    exitA := if a.haltA2 then e.exitCode else a.exitA }

def ASide.onIdle (e : AEdge) :
    ASide :=
  let n := a.sync e
  if doWr a e then
    match window e.awaddr with
    | some dmem =>
      { n with
        rq := ⟨true, dmem, e.awaddr.extractLsb' 2 16, e.wdata⟩
        reqTgl := !a.reqTgl, fsm := .memW }
    | none =>
      { n with
        ctrlRun :=
          if e.awaddr.extractLsb' 0 8 = 0x04#8 ∧ e.wstrb.getLsbD 0 then e.wdata.getLsbD 0
          else a.ctrlRun
        fsm := .b }
  else if doRd a e then
    match window e.araddr with
    | some dmem =>
      { n with
        rq := { a.rq with we := false, dmem := dmem, addr := e.araddr.extractLsb' 2 16 }
        reqTgl := !a.reqTgl, fsm := .memR }
    | none =>
      { n with
        rdata := readReg p a conAvail conByte (e.araddr.extractLsb' 0 8)
        conPop := e.araddr.extractLsb' 0 8 == 0x10#8 && conAvail
        fsm := .r }
  else n

def ASide.step (e : AEdge) :
    ASide :=
  match a.fsm with
  | .idle => a.onIdle p conAvail conByte e
  | .memW => if memDone a then { a.sync e with fsm := .b } else a.sync e
  | .memR => if memDone a then { a.sync e with rdata := e.respSeen, fsm := .r } else a.sync e
  | .b => if e.bready then { a.sync e with fsm := .idle } else a.sync e
  | .r => if e.rready then { a.sync e with fsm := .idle } else a.sync e

def hRdata (c : CSide) : Word := if c.hDmemQ then c.dbRdata else c.ibRdata

def CSide.step (c : CSide) (e : CEdge) : CSide where
  reqC1 := e.reqSeen
  reqC2 := c.reqC1
  reqC3 := c.reqC2
  hEn := c.reqC2 != c.reqC3
  h := if c.reqC2 != c.reqC3 then e.rqSeen else c.h
  hCap := c.hEn
  resp := if c.hCap then hRdata c else c.resp
  ackTgl := if c.hCap then !c.ackTgl else c.ackTgl
  hDmemQ := if c.hEn then c.h.dmem else c.hDmemQ
  ibRdata := if c.hEn && !c.h.dmem then e.imem c.h.addr else c.ibRdata
  dbRdata := if c.hEn && c.h.dmem then e.dmem c.h.addr else c.dbRdata

def fifoWrite (e : CEdge) : AsyncFifo.WriteEdge (BitVec 8) 4 := ⟨e.conValid, e.conData, e.rgraySeen⟩
def fifoRead (a : ASide) (e : AEdge) : AsyncFifo.ReadEdge 4 := ⟨a.conPop, e.wgraySeen⟩

def step (s : State) (i : Input) : State where
  a := i.a.elim s.a (s.a.step p s.con.rvalid s.con.rdata)
  c := i.c.elim s.c s.c.step
  con := AsyncFifo.step s.con (i.c.map fifoWrite) (i.a.map (fifoRead s.a))

/-- Both domains just out of reset; what the resets leave alone is arbitrary. -/
structure Reset (s : State) : Prop where
  fsm : s.a.fsm = .idle
  ctrlRun : s.a.ctrlRun = false
  conPop : s.a.conPop = false
  toggles : s.a.reqTgl = false ∧ s.c.reqC1 = false ∧ s.c.reqC2 = false ∧ s.c.reqC3 = false ∧
    s.c.ackTgl = false ∧ s.a.ackA1 = false ∧ s.a.ackA2 = false ∧ s.a.ackA3 = false
  quiet : s.c.hEn = false ∧ s.c.hCap = false
  con : ∃ mem, s.con = AsyncFifo.reset mem

def machine : Clocked.Machine State Input := ⟨Reset, step p⟩

abbrev Run := (machine p).Run

/-- A toggle is seen before or after it changes, and words that cross without a synchroniser are
seen right only if they do not change. -/
structure Sampling (p : Params) (s : State) (i : Input) : Prop where
  req : ∀ e, i.c = some e → e.reqSeen = s.a.reqTgl ∨ e.reqSeen = (step p s i).a.reqTgl
  rq : ∀ e, i.c = some e → (step p s i).a.rq = s.a.rq → e.rqSeen = s.a.rq
  ack : ∀ e, i.a = some e → e.ackSeen = s.c.ackTgl ∨ e.ackSeen = (step p s i).c.ackTgl
  resp : ∀ e, i.a = some e → (step p s i).c.resp = s.c.resp → e.respSeen = s.c.resp
  con : AsyncFifo.Sampling s.con (i.c.map fifoWrite) (i.a.map (fifoRead s.a))

structure Access where
  write : Bool
  addr : Word
  wdata : Word
  deriving DecidableEq

inductive Event
  | start (x : Access)
  /-- A RAM sees `h_en`; for a read, the word it then puts out. -/
  | pulse (q : Request) (word : Word)
  /-- The response is taken; `rdata` counts for a read. -/
  | finish (rdata : Word)
  deriving DecidableEq

def CSide.events (c : CSide) (e : CEdge) : List Event :=
  if c.hEn then [.pulse c.h (if c.h.dmem then e.dmem c.h.addr else e.imem c.h.addr)] else []

def ASide.events (a : ASide) (e : AEdge) : List Event :=
  if doWr a e then [.start ⟨true, e.awaddr, e.wdata⟩]
  else if doRd a e then [.start ⟨false, e.araddr, 0#32⟩]
  else if (a.fsm == .b && e.bready) || (a.fsm == .r && e.rready) then [.finish a.rdata]
  else []

def events (s : State) (i : Input) : List Event :=
  i.c.elim [] s.c.events ++ i.a.elim [] s.a.events

def consoleIn (s : State) (i : Input) : List (BitVec 8) :=
  AsyncFifo.accepted s.con (i.c.map fifoWrite)

end RiscvScratch.Host
