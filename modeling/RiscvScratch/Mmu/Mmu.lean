import RiscvScratch.Sv32.Walk
import RiscvScratch.Core.Alu

/-! The combinational Sv32 translator (`mmu.v`): the whole walk in one cycle, over two read ports
of the memory. -/
namespace RiscvScratch.Mmu

structure Input where
  satp : Word
  priv : BitVec 2
  va : Word
  isLoad : Bool
  isStore : Bool
  req : Bool
  walkData1 : Word
  walkData2 : Word

def active (i : Input) : Bool := i.priv == 0b00#2 && i.satp.getLsbD 31

/-- The sum is 34 bits wide; the port takes 32. -/
def walkAddr1 (satp va : Word) : Word :=
  ((satp.extractLsb' 0 22 ++ 0#12 : BitVec 34) +
    (0#20 ++ va.extractLsb' 22 10 ++ 0#2 : BitVec 32).zeroExtend 34).setWidth 32

def walkAddr2 (pte1 va : Word) : Word :=
  ((pte1.extractLsb' 10 22 ++ 0#12 : BitVec 34) +
    (0#20 ++ va.extractLsb' 12 10 ++ 0#2 : BitVec 32).zeroExtend 34).setWidth 32

def pteLeaf (pte : Word) : Bool := pte.getLsbD 1 || pte.getLsbD 3
def pteBad (pte : Word) : Bool := !pte.getLsbD 0 || (!pte.getLsbD 1 && pte.getLsbD 2)

def paSuper (pte1 va : Word) : Word :=
  (pte1.extractLsb' 20 12 ++ va.extractLsb' 0 22 : BitVec 34).setWidth 32

def pa4k (pte0 va : Word) : Word :=
  (pte0.extractLsb' 10 22 ++ va.extractLsb' 0 12 : BitVec 34).setWidth 32

section out
variable (i : Input)

def useSuper : Bool := pteLeaf i.walkData1
def leafU : Bool := if useSuper i then i.walkData1.getLsbD 4 else i.walkData2.getLsbD 4
def leafR : Bool := if useSuper i then i.walkData1.getLsbD 1 else i.walkData2.getLsbD 1
def leafW : Bool := if useSuper i then i.walkData1.getLsbD 2 else i.walkData2.getLsbD 2
def paXlat : Word := if useSuper i then paSuper i.walkData1 i.va else pa4k i.walkData2 i.va

def walkFault : Bool :=
  if pteBad i.walkData1 then true
  else if pteLeaf i.walkData1 then false
  else if pteBad i.walkData2 then true
  else !pteLeaf i.walkData2

def permFault : Bool :=
  !walkFault i && (!leafU i || (i.isLoad && !leafR i) || (i.isStore && !leafW i))

def fault : Bool := active i && i.req && (walkFault i || permFault i)
def faultStore : Bool := i.isStore
def pa : Word := if active i then paXlat i else i.va

/-- The access as the core makes it: the page fault that `fault_store` selects, or the access to
`pa`. -/
def outcome : Except Word Word :=
  if fault i then .error (if faultStore i then 15#32 else 13#32) else .ok (pa i)

end out

/-- A data access of U-mode with the two walk ports on the memory. -/
def userInput (mem : Word → Word) (satp va : Word) (k : Sv32.Kind) : Input where
  satp := satp
  priv := 0b00#2
  va := va
  isLoad := k == .load
  isStore := k == .store
  req := true
  walkData1 := mem (walkAddr1 satp va)
  walkData2 := mem (walkAddr2 (mem (walkAddr1 satp va)) va)

end RiscvScratch.Mmu
