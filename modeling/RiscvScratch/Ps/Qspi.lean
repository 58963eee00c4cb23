import RiscvScratch.Image.Bootbin

/-! The PS's QSPI driver (qspi.c) on the controller and the flash of host_test.c, without the
complaints of the test's model. -/
namespace RiscvScratch.Ps

structure Flash where
  mem : ℕ → BitVec 8
  wel : Bool
  busy : ℕ
  protect : Bool
  selected : Bool
  n : ℕ
  cmd : BitVec 8
  addr : BitVec 32
  ppCount : ℕ
  page : BitVec 8 → BitVec 8

def flashSelect (f : Flash) : Flash := { f with selected := true, n := 0, ppCount := 0 }

def flashByte (f : Flash) (x : BitVec 8) : BitVec 8 × Flash :=
  let i := f.n
  let f := { f with n := i + 1 }
  if i = 0 then
    (0xff#8, { f with cmd := x, busy := if x = 0x05#8 then f.busy - 1 else f.busy })
  else if f.cmd = 0x05#8 then
    ((if f.busy = 0 then 0#8 else 1#8) ||| (if f.wel then 2#8 else 0#8), f)
  else if f.cmd = 0x9f#8 then ([0xef#8, 0x40#8, 0x18#8].getD (i - 1) 0xff#8, f)
  else if f.cmd = 0x02#8 ∨ f.cmd = 0xd8#8 then
    if i ≤ 3 then
      (0xff#8, { f with
        addr := if i = 1 then x.setWidth 32
          else (f.addr <<< 8 ||| x.setWidth 32) &&& 0xffffff#32 })
    else if f.cmd = 0x02#8 then
      (0xff#8, { f with
        page := Function.update f.page (f.addr.setWidth 8 + BitVec.ofNat 8 f.ppCount) x
        ppCount := f.ppCount + 1 })
    else (0xff#8, f)
  else (0xff#8, f)

/-- A program runs over at most the page, and wraps inside it. -/
def flashDeselect (f : Flash) : Flash :=
  let f := { f with selected := false }
  if f.n = 0 then f
  else if f.cmd = 0x06#8 then if f.protect then f else { f with wel := true }
  else if f.cmd = 0x02#8 ∨ f.cmd = 0xd8#8 then
    if f.n < 4 ∨ f.wel = false then f
    else if f.cmd = 0xd8#8 then
      { f with
        wel := false, busy := 7
        mem := fun a => if a / 0x10000 = f.addr.toNat / 0x10000 then 0xff#8 else f.mem a }
    else
      { f with
        wel := false, busy := 2
        mem := fun a =>
          if a / 256 = f.addr.toNat / 256 ∧ (a + 256 - f.addr.toNat % 256) % 256 < f.ppCount then
            f.mem a &&& f.page (BitVec.ofNat 8 a)
          else f.mem a }
  else f

structure Controller where
  flash : Flash
  cr : BitVec 32
  er : BitVec 32
  lq : BitVec 32
  isrDis : BitVec 32
  txq : List (BitVec 32 × ℕ)
  rxq : List (BitVec 32)

/-- The first `n` bytes of `w` go out, and the answers come in. -/
def shiftBytes (w : BitVec 32) (f : Flash) : ℕ → BitVec 32 × Flash
  | 0 => (0#32, f)
  | b + 1 =>
    let (r, f) := shiftBytes w f b
    let (x, f) := flashByte f ((w >>> (8 * b)).setWidth 8)
    (r ||| x.setWidth 32 <<< (8 * b), f)

def shiftOut (d : Controller) : Controller :=
  let d := d.txq.foldl (fun d e =>
    let (r, f) := shiftBytes e.1 d.flash e.2
    { d with flash := f, rxq := d.rxq ++ [r <<< (8 * (4 - e.2))] }) d
  { d with txq := [] }

inductive Reg
  | cr | isr | idr | er | txd0 | rxd | txd1 | lqspiCfg

def hwRd (a : Reg) (d : Controller) : BitVec 32 × Controller :=
  match a with
  | .cr => (d.cr, d)
  | .isr => (if d.rxq = [] then 0#32 else 1#32 <<< 4, d)
  | .er => (d.er, d)
  | .rxd =>
    match d.rxq with
    | [] => (0#32, d)
    | v :: q => (v, { d with rxq := q })
  | .lqspiCfg => (d.lq, d)
  | _ => (0#32, d)

def hwWr (a : Reg) (v : BitVec 32) (d : Controller) : Controller :=
  match a with
  | .cr =>
    let was := d.flash.selected
    let now := v.getLsbD 14 && !v.getLsbD 10
    let d := { d with cr := v &&& ~~~(1#32 <<< 16) }
    let d := if now && !was then { d with flash := flashSelect d.flash } else d
    let d := if v.getLsbD 16 then shiftOut d else d
    if !now && was then { d with flash := flashDeselect d.flash } else d
  | .idr => { d with isrDis := v }
  | .er => { d with er := v &&& 1#32 }
  | .txd0 => if d.txq.length = 63 then d else { d with txq := d.txq ++ [(v, 4)] }
  | .txd1 => if d.txq.length = 63 then d else { d with txq := d.txq ++ [(v, 1)] }
  | .lqspiCfg => { d with lq := v }
  | _ => d

inductive Out
  | text (s : String)
  | dec (v : BitVec 32)
  | hex (v : BitVec 32)

structure Board where
  dev : Controller
  timedOut : Bool
  line : List (BitVec 8)
  out : List Out

inductive Stop
  /-- `getc_` waits for a byte. -/
  | waiting
  /-- `bootbin_parse` loads outside the buffer. -/
  | outside

abbrev Prog := EStateM Stop Board

def rd (a : Reg) : Prog (BitVec 32) :=
  modifyGet fun s => ((hwRd a s.dev).1, { s with dev := (hwRd a s.dev).2 })

def wr (a : Reg) (v : BitVec 32) : Prog PUnit := modify fun s => { s with dev := hwWr a v s.dev }

def say (o : List Out) : Prog PUnit := modify fun s => { s with out := s.out ++ o }

def crManstrt : BitVec 32 := 1#32 <<< 16
def crPcs : BitVec 32 := 1#32 <<< 10
def crBase : BitVec 32 := 1#32 <<< 31 ||| 1#32 <<< 19 ||| 3#32 <<< 6 ||| 2#32 <<< 3 ||| 1#32

/-- `while (hw_rd(Q_ISR) & ISR_RXNEMPTY) (void)hw_rd(Q_RXD);` -/
def drain : Prog PUnit := modify fun s => { s with dev := { s.dev with rxq := [] } }

def mode (linear : Bool) : Prog PUnit := do
  wr .er 0#32
  if linear then
    wr .cr crBase
    wr .lqspiCfg (1#32 <<< 31 ||| 0x0b#32 ||| 1#32 <<< 8)
  else
    wr .lqspiCfg 0#32
    wr .cr (crBase ||| 1#32 <<< 15 ||| 1#32 <<< 14 ||| crPcs)
    wr .idr 0x7f#32
  wr .er 1#32
  if !linear then drain

/-- The receive loop of `cmd`, until `want` words have come or nothing does for too long. -/
def collect (want spin got : ℕ) (v : BitVec 32) : Prog (BitVec 32) := do
  if got < want then
    if (← rd .isr) &&& 1#32 <<< 4 ≠ 0#32 then
      collect want (spin + 1) (got + 1) (← rd .rxd)
    else if spin > 10000000 then
      modify fun s => { s with timedOut := true }
      return v
    else collect want (spin + 1) got v
  else return v
termination_by (want - got) + (10000001 - spin)

def word (f : ℕ → BitVec 8) (a : ℕ) : BitVec 32 := f (a + 3) ++ f (a + 2) ++ f (a + 1) ++ f a

def cmd (w0 : BitVec 32) (oneByte : Bool) (data : ℕ → BitVec 8) (nwords : ℕ) :
    Prog (BitVec 32) := do
  let cr := (← rd .cr) &&& ~~~crManstrt
  wr .cr (cr &&& ~~~crPcs)
  wr (if oneByte then .txd1 else .txd0) w0
  (List.range nwords).forM fun i => wr .txd0 (word data (4 * i))
  wr .cr ((cr &&& ~~~crPcs) ||| crManstrt)
  let v ← collect (nwords + 1) 0 0 0#32
  wr .cr (cr ||| crPcs)
  return v

def cmdAddr (c a : BitVec 32) : BitVec 32 :=
  c ||| (a >>> 16 &&& 0xff#32) <<< 8 ||| (a >>> 8 &&& 0xff#32) <<< 16 ||| (a &&& 0xff#32) <<< 24

def noData : ℕ → BitVec 8 := fun _ => 0#8

def rdsr : Prog (BitVec 32) := do
  return (← cmd 0x05#32 false noData 0) >>> 16 &&& 0xff#32

def qspiJedecId : Prog (BitVec 32) := do
  mode false
  let v ← cmd 0x9f#32 false noData 0
  mode true
  return (v >>> 8 &&& 0xff#32) <<< 16 ||| (v >>> 16 &&& 0xff#32) <<< 8 ||| (v >>> 24 &&& 0xff#32)

def wren : Prog Bool := do
  let _ ← cmd 0x06#32 true noData 0
  return (← rdsr) &&& 2#32 ≠ 0#32

def waitReady : ℕ → Prog Bool
  | 0 => return false
  | i + 1 => do
    if (← get).timedOut then return false
    if (← rdsr) &&& 1#32 = 0#32 then return true
    waitReady i

inductive Why
  | lengthOutOfRange | noWriteEnable | eraseTimeout | programTimeout | mismatch | noAnswer

def Why.text : Why → String
  | .lengthOutOfRange => "length out of range"
  | .noWriteEnable => "the flash ignores write enable (status register WEL stays 0)"
  | .eraseTimeout => "a block erase never finished"
  | .programTimeout => "a page program never finished"
  | .mismatch => "reading it back does not match"
  | .noAnswer => "the controller never answered"

def qspiFlashBytes : ℕ := 0x01000000
def block : ℕ := 0x10000
def chunk : ℕ := 128

/-- The page programs from `a` up to `stop`. -/
def programChunks (src : ℕ → BitVec 8) (n stop a : ℕ) : Prog (Option Why) := do
  if a < stop then
    let k := min (n - a) chunk
    if !(← wren) then return some .noWriteEnable
    let _ ← cmd (cmdAddr 0x02#32 (BitVec.ofNat 32 a)) false
      (fun i => if i < k then src (a + i) else 0xff#8) ((k + 3) / 4)
    if !(← waitReady 50000000) then return some .programTimeout
    programChunks src n stop (a + chunk)
  else return none
termination_by stop - a
decreasing_by unfold chunk; omega

def writeBlocks (src : ℕ → BitVec 8) (n : ℕ) (progress : ℕ → ℕ → Prog PUnit) (blk : ℕ) :
    Prog (Option Why) := do
  if blk < n then
    if !(← wren) then return some .noWriteEnable
    let _ ← cmd (cmdAddr 0xd8#32 (BitVec.ofNat 32 blk)) false noData 0
    if !(← waitReady 50000000) then return some .eraseTimeout
    if let some why ← programChunks src n (min (blk + block) n) blk then return some why
    progress (min (blk + block) n) n
    writeBlocks src n progress (blk + block)
  else return none
termination_by n - blk
decreasing_by unfold block; omega

/-- The comparison by words, and by bytes at the end. -/
def readsBack (f src : ℕ → BitVec 8) (n : ℕ) : Bool :=
  (List.range (n / 4)).all (fun i => word f (4 * i) == word src (4 * i)) &&
    (List.range (n % 4)).all fun i => f (n / 4 * 4 + i) == src (n / 4 * 4 + i)

def qspiWrite (src : ℕ → BitVec 8) (n : ℕ) (progress : ℕ → ℕ → Prog PUnit) :
    Prog (Option Why) := do
  if n = 0 ∨ n > qspiFlashBytes then return some .lengthOutOfRange
  modify fun s => { s with timedOut := false }
  mode false
  match ← writeBlocks src n progress 0 with
  | some why =>
    let s ← get
    mode true
    return some (if s.timedOut then .noAnswer else why)
  | none =>
    mode true
    if readsBack (← get).dev.flash.mem src n then return none else return some .mismatch

end RiscvScratch.Ps
