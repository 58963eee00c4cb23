import RiscvScratch.Unified.VecDecode

/-! Element datapath, memory side and sequencer of the vector unit (`vec_unit.v`). -/
namespace RiscvScratch.Vec

variable (vlen : ℕ)

/-- `ewa`: word address of element `i` of the group starting at register `r`. -/
def ewa (r : BitVec 5) (i : Word) (el : ℕ) : ℕ :=
  (r.toNat * 2 ^ lwpr vlen + (i <<< el).toNat / 4 % 2 ^ aw vlen) % 2 ^ aw vlen

def mwa (r : BitVec 5) (i : Word) : ℕ :=
  (r.toNat * 2 ^ lwpr vlen + i.toNat / 32 % 2 ^ aw vlen) % 2 ^ aw vlen

def zext (v : Word) (el : ℕ) : Word :=
  if el = 0 then (v.extractLsb' 0 8).zeroExtend 32
  else if el = 1 then (v.extractLsb' 0 16).zeroExtend 32 else v

def sext (v : Word) (el : ℕ) : Word :=
  if el = 0 then (v.extractLsb' 0 8).signExtend 32
  else if el = 1 then (v.extractLsb' 0 16).signExtend 32 else v

def getz (w : Word) (lane el : ℕ) : Word := zext (w >>> (8 * lane)) el

def elMask (el : ℕ) : Word :=
  if el = 0 then 0xFF#32 else if el = 1 then 0xFFFF#32 else 0xFFFFFFFF#32

/-- `put`: element `v` into word `w` at a byte lane. -/
def put (w v : Word) (lane el : ℕ) : Word :=
  let m := elMask el <<< (8 * lane)
  (w &&& ~~~m) ||| ((v <<< (8 * lane)) &&& m)

def low2 (w : Word) : ℕ := w.toNat % 4
def low5 (w : Word) : ℕ := w.toNat % 32
def bit0 (b : Bool) : Word := if b then 1#32 else 0#32

section datapath
variable (s : State) (instr : Word)

def vlmaxNow : Word :=
  let base := BitVec.ofNat 32 (vlen / 8) >>> sewl s
  if lmull s < 0 then base >>> (-lmull s).toNat else base <<< (lmull s).toNat

/-- The source element of `vs2`, which the slides move, and whether it exists. -/
def sidx : Word :=
  match cls instr with
  | .slup => s.idx - s.x1
  | .sl1up => s.idx - 1#32
  | .sldn => s.idx + s.x1
  | .sl1dn => s.idx + 1#32
  | .red | .mvxs => if s.fsm = .init then 0#32 else s.idx
  | _ => s.idx

def sidxOk : Bool :=
  match cls instr with
  | .sl1up => s.idx != 0#32
  | .sldn => (s.idx + s.x1).ult (vlmaxNow vlen s) && !(s.idx + s.x1).ult s.idx
  | .sl1dn => (s.idx + 1#32).ult s.vl
  | _ => true

def iD : Word := if cls instr = .mvsx then 0#32 else s.idx

def aAddr : ℕ :=
  if (widths vlen s instr).maskA then mwa vlen (rs2f instr) s.idx
  else ewa vlen (rs2f instr) (sidx s instr) (widths vlen s instr).aEewl

def bAddr : ℕ :=
  if (widths vlen s instr).maskA then mwa vlen (rs1f instr) s.idx
  else ewa vlen (rs1f instr) (if cls instr = .red then 0#32 else s.idx) (sewl s)

def cAddr : ℕ :=
  if s.fsm = .final then
    ((vd instr).toNat * 2 ^ lwpr vlen + s.fw % 2 ^ lwpr vlen) % 2 ^ aw vlen
  else if (widths vlen s instr).maskD then mwa vlen (vd instr) s.idx
  else ewa vlen (vd instr) (iD s instr) (widths vlen s instr).dEewl

def wa : Word := s.vrf (aAddr vlen s instr)
def wb : Word := s.vrf (bAddr vlen s instr)
def wc : Word := s.vrf (cAddr vlen s instr)
def wm : Word := s.vrf (mwa vlen 0#5 s.idx)
def wnr : Word := s.vrf (ewa vlen (rs2f instr) s.idx 2)

def dLane : ℕ := low2 (iD s instr <<< (widths vlen s instr).dEewl)

def e2 : Word :=
  let w := widths vlen s instr
  if w.maskA then bit0 ((wa vlen s instr).getLsbD (low5 s.idx))
  else getz (wa vlen s instr) (low2 (sidx s instr <<< w.aEewl)) w.aEewl

/-- `vs1[i]`, its mask bit, and `vs1[0]` -/
def e1v : Word := getz (wb vlen s instr) (low2 s.idx * 2 ^ sewl s % 4) (sewl s)
def e1m : Bool := (wb vlen s instr).getLsbD (low5 s.idx)
def e1r : Word := getz (wb vlen s instr) 0 (sewl s)

def ed : Word := getz (wc vlen s instr) (dLane vlen s instr) (widths vlen s instr).dEewl

def v0i : Bool := (wm vlen s).getLsbD (low5 s.idx)

def e1 : Word :=
  if ivv instr || mvv instr then e1v vlen s instr
  else if ivi instr then
    if [0b100101#6, 0b101000#6, 0b101001#6, 0b001110#6, 0b001111#6].contains (f6 instr) then
      (rs1f instr).zeroExtend 32
    else (rs1f instr).signExtend 32
  else s.x1

def shm : ℕ :=
  let e := (e1 vlen s instr).toNat
  if sewl s = 0 then e % 8 else if sewl s = 1 then e % 16 else e % 32

/-- The 66-bit product; vmadd and vnmsub multiply `vd` instead of `vs2`. -/
def prod : BitVec 66 :=
  let f := f6 instr
  let mA := if f = 0b101001#6 ∨ f = 0b101011#6 then ed vlen s instr else e2 vlen s instr
  let a := if f = 0b100100#6 then (zext mA (sewl s)).zeroExtend 66
    else (sext mA (sewl s)).signExtend 66
  let e := e1 vlen s instr
  let b := if f = 0b100100#6 ∨ f = 0b100110#6 then (zext e (sewl s)).zeroExtend 66
    else (sext e (sewl s)).signExtend 66
  a * b

def pLo : Word := (prod vlen s instr).extractLsb' 0 32

def pHi : Word :=
  let p := prod vlen s instr
  if sewl s = 0 then (p.extractLsb' 8 8).zeroExtend 32
  else if sewl s = 1 then (p.extractLsb' 16 16).zeroExtend 32
  else p.extractLsb' 32 32

def elResult : Word :=
  let a := e2 vlen s instr
  let b := e1 vlen s instr
  let z2 := zext a (sewl s)
  let z1 := zext b (sewl s)
  let s2 := sext a (sewl s)
  let s1 := sext b (sewl s)
  let f := f6 instr
  if iv instr then
    if f = 0b000000#6 then a + b
    else if f = 0b000010#6 then a - b
    else if f = 0b000011#6 then b - a
    else if f = 0b000100#6 then (if z2.ult z1 then a else b)
    else if f = 0b000101#6 then (if s2.slt s1 then a else b)
    else if f = 0b000110#6 then (if z2.ult z1 then b else a)
    else if f = 0b000111#6 then (if s2.slt s1 then b else a)
    else if f = 0b001001#6 then a &&& b
    else if f = 0b001010#6 then a ||| b
    else if f = 0b001011#6 then a ^^^ b
    else if f = 0b100101#6 then z2 <<< shm vlen s instr
    else if f = 0b101000#6 then z2 >>> shm vlen s instr
    else if f = 0b101001#6 then s2.sshiftRight (shm vlen s instr)
    else if f = 0b010111#6 then (if vm instr || v0i vlen s then b else a)
    else a
  else if f = 0b100101#6 then pLo vlen s instr
  else if f = 0b100100#6 ∨ f = 0b100110#6 ∨ f = 0b100111#6 then pHi vlen s instr
  else if f = 0b101101#6 then pLo vlen s instr + ed vlen s instr
  else if f = 0b101111#6 then ed vlen s instr - pLo vlen s instr
  else if f = 0b101001#6 then pLo vlen s instr + a
  else if f = 0b101011#6 then a - pLo vlen s instr
  else a

def cmp : Bool :=
  let z2 := zext (e2 vlen s instr) (sewl s)
  let z1 := zext (e1 vlen s instr) (sewl s)
  let s2 := sext (e2 vlen s instr) (sewl s)
  let s1 := sext (e1 vlen s instr) (sewl s)
  let f := f6 instr
  if f = 0b011000#6 then z2 == z1
  else if f = 0b011001#6 then z2 != z1
  else if f = 0b011010#6 then z2.ult z1
  else if f = 0b011011#6 then s2.slt s1
  else if f = 0b011100#6 then z2.ule z1
  else if f = 0b011101#6 then s2.sle s1
  else if f = 0b011110#6 then z1.ult z2
  else s1.slt s2

def mlog : Bool :=
  let a := (e2 vlen s instr).getLsbD 0
  let b := e1m vlen s instr
  match (f6 instr).extractLsb' 0 3 with
  | 0b000#3 => a && !b
  | 0b001#3 => a && b
  | 0b010#3 => a || b
  | 0b011#3 => a ^^ b
  | 0b100#3 => a || !b
  | 0b101#3 => !(a && b)
  | 0b110#3 => !(a || b)
  | _ => !(a ^^ b)

def red : Word :=
  let a := e2 vlen s instr
  let z2 := zext a (sewl s)
  let s2 := sext a (sewl s)
  let za := zext s.acc (sewl s)
  let sa := sext s.acc (sewl s)
  match (f6 instr).extractLsb' 0 3 with
  | 0b000#3 => s.acc + a
  | 0b001#3 => s.acc &&& a
  | 0b010#3 => s.acc ||| a
  | 0b011#3 => s.acc ^^^ a
  | 0b100#3 => if z2.ult za then a else s.acc
  | 0b101#3 => if s2.slt sa then a else s.acc
  | 0b110#3 => if za.ult z2 then a else s.acc
  | _ => if sa.slt s2 then a else s.acc

def evl : Word := (widths vlen s instr).evl
def last : Bool := !(s.idx + 1#32).ult (evl vlen s instr)
def inRange : Bool := s.idx.ult (evl vlen s instr)

/-- vmerge uses `v0` as data. -/
def masked : Bool := !vm instr && !v0i vlen s && !(iv instr && f6 instr == 0b010111#6)

def unmask : Bool :=
  cls instr == .mlog || cls instr == .mvnr || (isMem instr && (mWhole instr || mMask instr))

def active : Bool :=
  !(masked vlen s instr && !unmask instr) && !(cls instr == .slup && s.idx.ult s.x1)

end datapath

section memory
variable (s : State) (instr : Word)

def busy : Bool := s.fsm != .idle
def memActive : Bool := busy s && isMem instr

def memVa : Word :=
  if mIdx instr then s.x1 + zext (e2 vlen s instr) (widths vlen s instr).aEewl
  else if mStrd instr then s.eaddr
  else s.x1 + (s.idx <<< (widths vlen s instr).dEewl)

def memStore : Bool := cls instr == .st

/-- `mem_el`, also `mem_want`: the current element needs an access. -/
def memWant : Bool :=
  s.fsm == .run && memActive s instr && inRange vlen s instr && active vlen s instr

def memReq (xlOk xlFault : Bool) : Bool := memWant vlen s instr && xlOk && !xlFault

def memLane : ℕ := low2 (memVa vlen s instr)

def memBe : BitVec 4 :=
  let el := (widths vlen s instr).dEewl
  (if el = 0 then 0b0001#4 else if el = 1 then 0b0011#4 else 0b1111#4) <<< memLane vlen s instr

def memWdata : Word := ed vlen s instr <<< (8 * memLane vlen s instr)

end memory

structure Input where
  instr : Word
  start : Bool
  rs1 : Word
  rs2 : Word
  cfgCommit : Bool
  csrAddr : BitVec 12
  csrWe : Bool
  csrWdata : Word
  memRdata : Word
  memDone : Bool
  xlFault : Bool

/-- The write port of the register file: address and data when `we` is up. -/
def vrfWrite (s : State) (i : Input) : Option (ℕ × Word) :=
  let c := cls i.instr
  let w := widths vlen s i.instr
  let old := wc vlen s i.instr
  let lane := dLane vlen s i.instr
  if s.fsm = .run ∧ inRange vlen s i.instr ∧ active vlen s i.instr then
    match c with
    | .arith | .sldn | .sl1dn | .slup | .sl1up =>
      let edge := (c == .sl1up && s.idx == 0#32) || (c == .sl1dn && last vlen s i.instr)
      let ok := sidxOk vlen s i.instr
      let v := if edge then s.x1 else if c == .sldn && !ok then 0#32 else elResult vlen s i.instr
      if edge || ok || c == .sldn then
        some (cAddr vlen s i.instr, put old v lane w.dEewl)
      else none
    | .vid => some (cAddr vlen s i.instr, put old s.idx lane w.dEewl)
    | .mvnr => some (ewa vlen (vd i.instr) s.idx 2, wnr vlen s i.instr)
    | .ld =>
      if i.memDone then
        let el := getz i.memRdata (memLane vlen s i.instr) w.dEewl
        some (cAddr vlen s i.instr, put old el lane w.dEewl)
      else none
    | _ => none
  else if s.fsm = .init ∧ c = .mvsx ∧ s.vl ≠ 0#32 ∧ s.vstart.ult s.vl then
    some (cAddr vlen s i.instr, put old s.x1 0 (sewl s))
  else if s.fsm = .final ∧ c = .red then
    some (cAddr vlen s i.instr, put old s.acc 0 (sewl s))
  else if s.fsm = .final ∧ (c = .cmp ∨ c = .mlog) then
    let k := s.fw % 2 ^ lwpr vlen
    some (cAddr vlen s i.instr, (old &&& ~~~s.mwr k) ||| (s.mres k &&& s.mwr k))
  else none

def maskBit (m : ℕ → Word) (vlen : ℕ) (idx : Word) (b : Bool) : ℕ → Word :=
  let n := idx.toNat % 2 ^ clog2 vlen
  let bit : Word := 1#32 <<< (n % 32)
  Function.update m (n / 32) (if b then m (n / 32) ||| bit else m (n / 32) &&& ~~~bit)

def collect (s : State) (instr : Word) : State :=
  if inRange vlen s instr && active vlen s instr then
    match cls instr with
    | .cmp =>
      { s with
        mres := maskBit s.mres vlen s.idx (cmp vlen s instr)
        mwr := maskBit s.mwr vlen s.idx true }
    | .mlog =>
      { s with
        mres := maskBit s.mres vlen s.idx (mlog vlen s instr)
        mwr := maskBit s.mwr vlen s.idx true }
    | .red => { s with acc := red vlen s instr }
    | .cpop => { s with acc := s.acc + bit0 ((e2 vlen s instr).getLsbD 0) }
    | .first =>
      if (e2 vlen s instr).getLsbD 0 && !s.found then { s with acc := s.idx, found := true } else s
    | _ => s
  else s

/-- `vsetvl*` and CSR writes, which the core commits in EX. -/
def coreWrites (s : State) (i : Input) : State :=
  let s1 := if i.cfgCommit then
      { s with
        vtype := if nOk i.instr i.rs2 then ((nvtRaw i.instr i.rs2).extractLsb' 0 8).zeroExtend 32
          else 0x80000000#32
        vl := cfgNewVl vlen s i.instr i.rs1 i.rs2
        vstart := 0#32 }
    else s
  if i.csrWe then
    if i.csrAddr = 0x008#12 then { s1 with vstart := i.csrWdata &&& BitVec.ofNat 32 (vlen - 1) }
    else if i.csrAddr = 0x009#12 then { s1 with vxsat := i.csrWdata.getLsbD 0 }
    else if i.csrAddr = 0x00A#12 then { s1 with vxrm := i.csrWdata.extractLsb' 0 2 }
    else if i.csrAddr = 0x00F#12 then
      { s1 with vxsat := i.csrWdata.getLsbD 0, vxrm := i.csrWdata.extractLsb' 1 2 }
    else s1
  else s1

/-- `S_IDLE` with `start`; the register writes of the core have been applied in `t`. -/
def onStart (s t : State) (i : Input) : State :=
  { t with
    x1 := if ivi i.instr then (rs1f i.instr).zeroExtend 32 else i.rs1
    x2 := i.rs2, idx := s.vstart, fault := false, found := false
    mwr := fun _ => 0#32
    acc := if cls i.instr = .first then 0xFFFFFFFF#32 else 0#32
    eaddr := i.rs1 + s.vstart * i.rs2
    fsm := .init }

def onInit (s t : State) (i : Input) : State :=
  let empty := !s.vstart.ult (evl vlen s i.instr)
  { t with
    acc := if cls i.instr = .red then e1r vlen s i.instr else t.acc
    scalarOut := if cls i.instr = .mvxs then sext (e2 vlen s i.instr) (sewl s) else t.scalarOut
    fw := 0
    fsm := if cls i.instr = .mvxs ∨ cls i.instr = .mvsx ∨ empty then .done else .run }

def onRun (s t : State) (i : Input) : State :=
  if memWant vlen s i.instr && i.xlFault then
    if mFf i.instr && s.idx != 0#32 then { t with vl := s.idx, fsm := .done }
    else
      { t with
        fault := true
        faultCause := if memStore i.instr then 15#4 else 13#4
        faultTval := memVa vlen s i.instr
        vstart := s.idx, fsm := .done }
  else if !memWant vlen s i.instr || i.memDone then
    let c := collect vlen s i.instr
    { t with
      mres := c.mres, mwr := c.mwr, acc := c.acc, found := c.found
      eaddr := if mStrd i.instr then s.eaddr + s.x2 else t.eaddr
      idx := s.idx + 1#32
      fsm := if last vlen s i.instr then
          (match cls i.instr with
           | .red | .cmp | .mlog => .final
           | _ => .done)
        else .run }
  else t

def onFinal (s t : State) (i : Input) : State :=
  if cls i.instr = .red then { t with fsm := .done }
  else { t with fw := s.fw + 1, fsm := if s.fw = wpr vlen - 1 then .done else .final }

def onDone (s t : State) (i : Input) : State :=
  { t with
    vstart := if s.fault then t.vstart else 0#32
    scalarOut := if cls i.instr = .cpop ∨ cls i.instr = .first then s.acc else t.scalarOut
    done := true, fsm := .idle }

def sequence (s : State) (i : Input) : State :=
  let t := { coreWrites vlen s i with done := false }
  match s.fsm with
  | .idle => if i.start then onStart s t i else t
  | .init => onInit vlen s t i
  | .run => onRun vlen s t i
  | .final => onFinal vlen s t i
  | .done => onDone s t i

def step (s : State) (i : Input) : State :=
  { sequence vlen s i with
    vrf := match vrfWrite vlen s i with
      | some (a, d) => Function.update s.vrf a d
      | none => s.vrf }

/-- The registers `rst` touches. -/
def reset (s : State) : State :=
  { s with
    done := false, fsm := .idle, vl := 0#32, vtype := 0x80000000#32, vstart := 0#32
    vxrm := 0#2, vxsat := false, fault := false }

def csrHit (a : BitVec 12) : Bool :=
  [0x008#12, 0x009#12, 0x00A#12, 0x00F#12, 0xC20#12, 0xC21#12, 0xC22#12].contains a

def csrRdata (s : State) (a : BitVec 12) : Word :=
  if a = 0x008#12 then s.vstart
  else if a = 0x009#12 then bit0 s.vxsat
  else if a = 0x00A#12 then s.vxrm.zeroExtend 32
  else if a = 0x00F#12 then (s.vxrm ++ BitVec.ofBool s.vxsat).zeroExtend 32
  else if a = 0xC20#12 then s.vl
  else if a = 0xC21#12 then s.vtype
  else if a = 0xC22#12 then BitVec.ofNat 32 (vlen / 8)
  else 0#32

end RiscvScratch.Vec
