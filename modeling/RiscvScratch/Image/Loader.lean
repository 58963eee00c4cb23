import RiscvScratch.Boot.Platform
import RiscvScratch.Image.Rvbi

/-! The boot ROM's image loader (rom_main.c): `load_image` and its two sources, the UART and an
image in RAM. The UART is the list of the line status reads to come, each with the byte in RBR;
where it ends the ROM waits. A load or store outside RAM ends in `rom_panic`. -/
namespace RiscvScratch.Rvbi

open ByteMem Platform

/-- The probed RAM, the bound on the payload, and where the linker put the variables. -/
structure Config where
  ramSize : BitVec 32
  payloadEnd : BitVec 32
  hdr : BitVec 32
  seg : BitVec 32
  cmdline : BitVec 32
  /-- The end of RAM is an address. -/
  ram_fits : ramBase.toNat + ramSize.toNat < 2 ^ 32
  payloadEnd_ge : payloadBase.toNat ≤ payloadEnd.toNat
  payloadEnd_le : payloadEnd.toNat ≤ ramBase.toNat + ramSize.toNat
  hdr_firmware : InFirmware hdr hdrBytes
  seg_firmware : InFirmware seg (segBytes * rvbiMaxSegs)
  cmdline_firmware : InFirmware cmdline (rvbiMaxCmd + 1)
  hdr_seg : Separate hdr hdrBytes seg (segBytes * rvbiMaxSegs)
  hdr_cmdline : Separate hdr hdrBytes cmdline (rvbiMaxCmd + 1)
  seg_cmdline : Separate seg (segBytes * rvbiMaxSegs) cmdline (rvbiMaxCmd + 1)

/-- One read of the UART's LSR, and the byte a read of RBR then gives. -/
structure Poll where
  lsr : BitVec 32
  rbr : BitVec 32

inductive Stop where
  /-- The line is quiet and the ROM waits. -/
  | waiting
  /-- A load or store access fault. -/
  | fault (a : BitVec 32)
  deriving DecidableEq, Repr

/-- `got`, `reads` and `wrote` are history: the bytes taken after the magic, and the addresses read
through `msrc` and stored to. -/
structure Machine where
  mem : Mem
  line : List Poll
  msrc : BitVec 32
  lineErr : BitVec 32
  badSeg : ℕ
  crcGot : BitVec 32
  rxErr : BitVec 32
  rxTotal : BitVec 32
  got : List (BitVec 8)
  reads : List (BitVec 32)
  wrote : List (BitVec 32)

abbrev Rom := EStateM Stop Machine

inductive ImgCode where
  | ok | badHdr | hdrCrc | range | sizes | entry | line | dataCrc
  deriving DecidableEq, Repr

namespace Config

variable (c : Config)

def InRam (a : BitVec 32) : Prop :=
  ramBase.toNat ≤ a.toNat ∧ a.toNat < ramBase.toNat + c.ramSize.toNat

instance (a : BitVec 32) : Decidable (c.InRam a) := inferInstanceAs (Decidable (_ ∧ _))

variable (m : Mem)

def magic : BitVec 32 := load32 m c.hdr
def version : BitVec 16 := load16 m (c.hdr + 4#32)
def nseg : BitVec 16 := load16 m (c.hdr + 6#32)
def entry : BitVec 32 := load32 m (c.hdr + 8#32)
def flags : BitVec 32 := load32 m (c.hdr + 12#32)
def cmdlineLen : BitVec 16 := load16 m (c.hdr + 16#32)
def dataSize : BitVec 32 := load32 m (c.hdr + 20#32)
def dataCrc : BitVec 32 := load32 m (c.hdr + 24#32)
def hdrCrc : BitVec 32 := load32 m (c.hdr + 28#32)

def segAt (i : ℕ) : BitVec 32 := c.seg + BitVec.ofNat 32 (segBytes * i)
def segAddr (i : ℕ) : BitVec 32 := load32 m (c.segAt i)
def filesz (i : ℕ) : BitVec 32 := load32 m (c.segAt i + 4#32)
def memsz (i : ℕ) : BitVec 32 := load32 m (c.segAt i + 8#32)

end Config

section Loader

variable (c : Config)

def store (a : BitVec 32) (b : BitVec 8) : Rom PUnit := do
  if c.InRam a then
    modify fun s => { s with mem := Function.update s.mem a b, wrote := s.wrote ++ [a] }
  else throw (.fault a)

def storeWord (a v : BitVec 32) : Rom PUnit := do
  store c a (v.extractLsb' 0 8)
  store c (a + 1#32) (v.extractLsb' 8 8)
  store c (a + 2#32) (v.extractLsb' 16 8)
  store c (a + 3#32) (v.extractLsb' 24 8)

def memset : BitVec 32 → BitVec 8 → ℕ → Rom PUnit
  | _, _, 0 => pure ⟨⟩
  | p, b, n + 1 => do
    store c p b
    memset (p + 1#32) b n

def lsrDr : BitVec 32 := 1#32
/-- `UART_LSR_OE | UART_LSR_PE | UART_LSR_FE`. -/
def lsrErrors : BitVec 32 := 0xE#32

/-- Polls LSR until a byte is there, collecting the status bits in `mask`. -/
def waitByte (mask err : BitVec 32) : List Poll → Option (BitVec 32 × BitVec 8 × List Poll)
  | [] => none
  | p :: ps =>
    let err := err ||| (p.lsr &&& mask)
    if p.lsr &&& lsrDr ≠ 0#32 then some (err, p.rbr.setWidth 8, ps) else waitByte mask err ps

/-- `rx`: the byte, with `line_err` updated at every poll. -/
def rx (err : BitVec 32) (line : List Poll) : Option (BitVec 32 × BitVec 8 × List Poll) :=
  waitByte lsrErrors err line

theorem waitByte_length {mask err e : BitVec 32} {b : BitVec 8} {line rest : List Poll}
    (h : waitByte mask err line = some (e, b, rest)) : rest.length < line.length := by
  induction line generalizing err with
  | nil => cases h
  | cons p ps ih =>
    rw [waitByte] at h
    split at h
    · cases h; exact Nat.lt_succ_self _
    · exact Nat.lt_succ_of_lt (ih h)

/-- `while (w != RVBI_MAGIC) w = (w >> 8) | ((uint32_t)rx() << 24);` -/
def hunt (w err : BitVec 32) (line : List Poll) : Option (BitVec 32 × List Poll) :=
  if w = rvbiMagic then some (err, line)
  else match _h : rx err line with
    | none => none
    | some (e, b, rest) => hunt ((w >>> 8) ||| (b.setWidth 32 <<< 24)) e rest
termination_by line.length
decreasing_by exact waitByte_length (by assumption)

/-- The inner loop of `rx_bytes` and the read of RBR. -/
def nextByte (err : BitVec 32) : Rom (BitVec 32 × BitVec 8) := do
  match waitByte (BitVec.allOnes 32) err (← get).line with
  | none =>
    modify fun s => { s with line := [] }
    throw .waiting
  | some (err, b, rest) =>
    modify fun s => { s with line := rest, got := s.got ++ [b] }
    return (err, b)

def rxLoop : BitVec 32 → ℕ → BitVec 32 → BitVec 32 → Rom (BitVec 32 × BitVec 32)
  | _, 0, err, crc => pure (err, crc)
  | p, n + 1, err, crc => do
    let (err, b) ← nextByte err
    store c p b
    rxLoop (p + 1#32) n err (crc32Byte crc b)

def rxBytes (dst : BitVec 32) (n : ℕ) (crc : BitVec 32) : Rom (BitVec 32) := do
  let (err, crc) ← rxLoop c dst n 0#32 crc
  modify fun s => { s with lineErr := s.lineErr ||| (err &&& lsrErrors) }
  return crc

def fetch : Rom (BitVec 8) := do
  let s ← get
  if c.InRam s.msrc then
    set { s with
      msrc := s.msrc + 1#32
      got := s.got ++ [s.mem s.msrc]
      reads := s.reads ++ [s.msrc] }
    return s.mem s.msrc
  else throw (.fault s.msrc)

def copyLoop : BitVec 32 → ℕ → BitVec 32 → Rom (BitVec 32)
  | _, 0, crc => pure crc
  | p, n + 1, crc => do
    let b ← fetch c
    store c p b
    copyLoop (p + 1#32) n (crc32Byte crc b)

def getBytes (dst : BitVec 32) (n : ℕ) (crc : BitVec 32) : Rom (BitVec 32) := do
  if (← get).msrc = 0#32 then rxBytes c dst n crc else copyLoop c dst n crc

def magicWord : Rom (BitVec 32) := do
  let s ← get
  if s.msrc ≠ 0#32 then
    -- a word load: aligned, and all of it in RAM
    if s.msrc.toNat % 4 = 0 ∧ c.InRam s.msrc ∧ c.InRam (s.msrc + 3#32) then
      set { s with
        msrc := s.msrc + 4#32
        reads := s.reads ++ [s.msrc, s.msrc + 1#32, s.msrc + 2#32, s.msrc + 3#32] }
      return load32 s.mem s.msrc
    else throw (.fault s.msrc)
  else match hunt 0#32 s.lineErr s.line with
    | none =>
      set { s with line := [] }
      throw .waiting
    | some (err, rest) =>
      set { s with lineErr := err, line := rest }
      return rvbiMagic

def badHeader (m : Mem) : Prop :=
  c.magic m ≠ rvbiMagic ∨ c.version m ≠ rvbiVersion ∨ c.nseg m = 0#16 ∨
    rvbiMaxSegs < (c.nseg m).toNat ∨ rvbiMaxCmd < (c.cmdlineLen m).toNat

instance (m : Mem) : Decidable (badHeader c m) := inferInstanceAs (Decidable (_ ∨ _))

/-- `seg[i]` does not lie in the payload area, or has more file than memory. -/
def badSegment (m : Mem) (i : ℕ) : Prop :=
  let a := c.segAddr m i
  let fin := a + c.memsz m i
  c.filesz m i > c.memsz m i ∨ fin < a ∨ a < payloadBase ∨ fin > c.payloadEnd

instance (m : Mem) (i : ℕ) : Decidable (badSegment c m i) := inferInstanceAs (Decidable (_ ∨ _))

def entryIn (m : Mem) (i : ℕ) : Prop :=
  c.entry m ≥ c.segAddr m i ∧ c.entry m < c.segAddr m i + c.filesz m i

instance (m : Mem) (i : ℕ) : Decidable (entryIn c m i) := inferInstanceAs (Decidable (_ ∧ _))

/-- The loop over the segment table: the first bad index, or `total` and `entry_ok`. -/
def checkSegs (m : Mem) (i : ℕ) (total : BitVec 32) (entryOk : Bool) :
    Except ℕ (BitVec 32 × Bool) :=
  if _h : i < (c.nseg m).toNat then
    if badSegment c m i then .error i
    else checkSegs m (i + 1) (total + c.filesz m i) (entryOk || decide (entryIn c m i))
  else .ok (total, entryOk)
termination_by 2 ^ 16 - i
decreasing_by have := (c.nseg m).isLt; omega

def loadSeg (i : ℕ) (crc : BitVec 32) : Rom (BitVec 32) := do
  let m := (← get).mem
  let p := c.segAddr m i
  let crc ← getBytes c p (c.filesz m i).toNat crc
  let m := (← get).mem
  memset c (p + c.filesz m i) 0#8 (c.memsz m i - c.filesz m i).toNat
  return crc

def loadSegs (i : ℕ) (crc : BitVec 32) : Rom (BitVec 32) := do
  let m := (← get).mem
  if _h : i < (c.nseg m).toNat then
    let crc ← loadSeg c i crc
    loadSegs (i + 1) crc
  else return crc
termination_by 2 ^ 16 - i
decreasing_by have := (c.nseg m).isLt; omega

/-- `hdr`, and the running CRC with `hdr_crc` itself as zero. -/
def receiveFixed : Rom (BitVec 32) := do
  modify fun s => { s with lineErr := 0#32 }
  let w ← magicWord c
  storeWord c c.hdr w
  let crc := crc32 0#32 (slice (← get).mem c.hdr 4) ^^^ 0xFFFFFFFF#32
  let crc ← getBytes c (c.hdr + 4#32) 24 crc
  let _ ← getBytes c (c.hdr + 28#32) 4 0#32
  return (List.replicate 4 0#8).foldl crc32Byte crc

/-- `seg`, `cmdline` and the header CRC. -/
def receiveTables (crc : BitVec 32) : Rom (Option ImgCode) := do
  let m := (← get).mem
  let crc ← getBytes c c.seg ((c.nseg m).toNat * segBytes) crc
  let m := (← get).mem
  let crc ← getBytes c c.cmdline (c.cmdlineLen m).toNat crc
  let m := (← get).mem
  store c (c.cmdline + (c.cmdlineLen m).setWidth 32) 0#8
  modify fun s => { s with crcGot := ~~~crc }
  let s ← get
  if s.crcGot ≠ c.hdrCrc s.mem then return some .hdrCrc else return none

def receiveHeader : Rom (Option ImgCode) := do
  let crc ← receiveFixed c
  if badHeader c (← get).mem then return some .badHdr else receiveTables c crc

def receiveData (total : BitVec 32) : Rom ImgCode := do
  let crc ← loadSegs c 0 0xFFFFFFFF#32
  modify fun s => { s with crcGot := ~~~crc, rxTotal := total, rxErr := s.lineErr }
  let s ← get
  if s.rxErr ≠ 0#32 then return .line
  else if s.crcGot ≠ c.dataCrc s.mem then return .dataCrc
  else return .ok

def loadChecked : Rom ImgCode := do
  let m := (← get).mem
  -- every check happens before the first byte is written
  match checkSegs c m 0 0#32 false with
  | .error i =>
    modify fun s => { s with badSeg := i }
    return .range
  | .ok (total, entryOk) =>
    if total ≠ c.dataSize m then return .sizes
    else if !entryOk then return .entry
    else receiveData c total

def loadImage : Rom ImgCode := do
  match ← receiveHeader c with
  | some code => return code
  | none => loadChecked c

end Loader

end RiscvScratch.Rvbi
