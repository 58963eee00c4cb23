import RiscvScratch.Crc.Reflected
import RiscvScratch.Memory.Slices

/-!
The boot image and the tool that makes it: the layout of bootimg.h, the CRC-32 of lib.h and lib.c,
and `make_image` of tools/rvboot.
-/
namespace RiscvScratch.Rvbi

open ByteMem

def rvbiMagic : BitVec 32 := 0x49425652#32
def rvbiVersion : BitVec 16 := 1#16
def rvbiMaxSegs : ℕ := 8
def rvbiMaxCmd : ℕ := 255
/-- `sizeof (struct rvbi_header)` and `sizeof (struct rvbi_seg)`. -/
def hdrBytes : ℕ := 32
def segBytes : ℕ := 12

def crcPoly : BitVec 32 := 0xEDB88320#32

def crcShift (crc : BitVec 32) : BitVec 32 := (crc >>> 1) ^^^ (crcPoly &&& -(crc &&& 1#32))

def crc32Byte (crc : BitVec 32) (b : BitVec 8) : BitVec 32 := crcShift^[8] (crc ^^^ b.setWidth 32)

def crc32 (crc : BitVec 32) (l : List (BitVec 8)) : BitVec 32 := ~~~(l.foldl crc32Byte (~~~crc))

theorem crcShift_eq : crcShift = Crc.shift crcPoly := by
  funext crc
  have hmask : -(crc &&& 1#32) = if crc.getLsbD 0 then BitVec.allOnes 32 else 0#32 := by
    rw [BitVec.and_one_eq_setWidth_ofBool_getLsbD]
    cases crc.getLsbD 0 <;> rfl
  rw [crcShift, Crc.shift, hmask]
  split
  · rw [BitVec.and_allOnes, BitVec.xor_comm]
  · rw [BitVec.and_zero, BitVec.xor_zero]

theorem crc32Byte_eq : crc32Byte = Crc.byte crcPoly := by
  funext crc b
  rw [crc32Byte, Crc.byte, crcShift_eq]

theorem foldl_crc32Byte (crc : BitVec 32) (l : List (BitVec 8)) :
    l.foldl crc32Byte crc = Crc.run crcPoly crc l := by
  rw [crc32Byte_eq, Crc.run]

def le16 (v : BitVec 16) : List (BitVec 8) := [v.extractLsb' 0 8, v.extractLsb' 8 8]

def load16 (m : Mem) (a : BitVec 32) : BitVec 16 := m (a + 1#32) ++ m a

/-- A loadable segment: `(addr, data, memsz)`. -/
structure Segment where
  addr : BitVec 32
  data : List (BitVec 8)
  memsz : BitVec 32

/-- `struct.pack` of an `H` field: out of range raises. -/
def pack16 (n : ℕ) : Option (List (BitVec 8)) :=
  if n < 2 ^ 16 then some (le16 (BitVec.ofNat 16 n)) else none

def pack32 (n : ℕ) : Option (List (BitVec 8)) :=
  if n < 2 ^ 32 then some (le32 (BitVec.ofNat 32 n)) else none

def packSeg (g : Segment) : Option (List (BitVec 8)) := do
  let filesz ← pack32 g.data.length
  return le32 g.addr ++ filesz ++ le32 g.memsz

def packTable : List Segment → Option (List (BitVec 8))
  | [] => some []
  | g :: gs => do
    let row ← packSeg g
    let rows ← packTable gs
    return row ++ rows

/-- `HDR.pack(...)`, `hdr_crc` given. -/
def packHdr (nseg : ℕ) (entry flags : BitVec 32) (clen dsize : ℕ) (dcrc hcrc : BitVec 32) :
    Option (List (BitVec 8)) := do
  let nseg ← pack16 nseg
  let clen ← pack16 clen
  let dsize ← pack32 dsize
  return le32 rvbiMagic ++ le16 rvbiVersion ++ nseg ++ le32 entry ++ le32 flags ++ clen ++
    le16 0#16 ++ dsize ++ le32 dcrc ++ le32 hcrc

/-- `none` where the tool dies or `struct.pack` raises. -/
def makeImage (entry : BitVec 32) (segs : List Segment) (bootargs : List (BitVec 8))
    (flags : BitVec 32) : Option (List (BitVec 8)) := do
  let data := (segs.map Segment.data).flatten
  let table ← packTable segs
  if 255 < bootargs.length then none
  let hdr ← packHdr segs.length entry flags bootargs.length data.length (crc32 0#32 data) 0#32
  let hdr := hdr.take (hdr.length - 4) ++ le32 (crc32 0#32 (hdr ++ table ++ bootargs))
  return hdr ++ table ++ bootargs ++ data

end RiscvScratch.Rvbi
