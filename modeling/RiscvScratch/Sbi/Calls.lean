import RiscvScratch.Boot.Platform
import RiscvScratch.Core.Storage
import RiscvScratch.Unified.Csr

/-! The calls of the resident SBI (`rom_sbi.c`): what a payload asks for, and what the answer does
to the timer. -/
namespace RiscvScratch.Sbi

open Platform

def fwStackTop : Word := ramBase + fwRamSize
def mipStip : Word := 1#32 <<< 5
def mipMtip : Word := 1#32 <<< 7

def extLegacySetTimer : Word := 0x00#32
def extLegacyPutchar : Word := 0x01#32
def extLegacyGetchar : Word := 0x02#32
def extLegacyShutdown : Word := 0x08#32
def extBase : Word := 0x10#32
def extTime : Word := 0x54494D45#32
def extDbcn : Word := 0x4442434E#32
def extSrst : Word := 0x53525354#32

def success : Word := 0#32
def errNotSupported : Word := BitVec.ofInt 32 (-2)
def errInvalidParam : Word := BitVec.ofInt 32 (-3)

def specVersion : Word := 0x02000000#32
def implId : Word := 0x52564653#32
def implVersion : Word := 49#32

def srstShutdown : Word := 0#32
def srstWarmReboot : Word := 2#32
def srstReasonNone : Word := 0#32
def srstReasonFailure : Word := 1#32

def probe (eid : Word) : Word :=
  if eid = extBase ∨ eid = extTime ∨ eid = extDbcn ∨ eid = extSrst ∨ eid = extLegacySetTimer ∨
      eid = extLegacyPutchar ∨ eid = extLegacyGetchar ∨ eid = extLegacyShutdown then 1#32
  else 0#32

def payloadBuffer (ramSize lo hi n : Word) : Bool :=
  hi == 0#32 && payloadBase.ule lo && lo.ule (lo + n) && (lo + n).ule (ramBase + ramSize)

inductive Call where
  /-- `set_timer`; a legacy call has no second result. -/
  | setTimer (legacy : Bool) (t : BitVec 64)
  | legacyPutchar (c : Word)
  | legacyGetchar
  /-- Powers off or goes back to the ROM. -/
  | reset (type reason : Word)
  | writeByte (c : Word)
  | write (buf n : Word)
  | read (buf n : Word)
  /-- Nothing but the two results. -/
  | answer (err val : Word)
  deriving DecidableEq

section decode
variable (ramSize : Word) (csrRead : BitVec 12 → Word) (r : BitVec 5 → Word)

/-- `((uint64_t)r[A1] << 32) | r[A0]`. -/
def timerArg : BitVec 64 := r 11#5 ++ r 10#5

def baseCall : Call :=
  if r 16#5 = 0#32 then .answer success specVersion
  else if r 16#5 = 1#32 then .answer success implId
  else if r 16#5 = 2#32 then .answer success implVersion
  else if r 16#5 = 3#32 then .answer success (probe (r 10#5))
  else if r 16#5 = 4#32 then .answer success (csrRead 0xF11#12)
  else if r 16#5 = 5#32 then .answer success (csrRead 0xF12#12)
  else if r 16#5 = 6#32 then .answer success (csrRead 0xF13#12)
  else .answer errNotSupported 0#32

def dbcnCall : Call :=
  if r 16#5 = 2#32 then .writeByte (r 10#5 &&& 0xff#32)
  else if r 16#5 = 0#32 ∨ r 16#5 = 1#32 then
    if !payloadBuffer ramSize (r 11#5) (r 12#5) (r 10#5) then .answer errInvalidParam 0#32
    else if r 16#5 = 0#32 then .write (r 11#5) (r 10#5)
    else .read (r 11#5) (r 10#5)
  else .answer errNotSupported 0#32

def srstCall : Call :=
  if r 16#5 = 0#32 ∧ (r 10#5).ule srstWarmReboot ∧ (r 11#5).ule srstReasonFailure then
    .reset (r 10#5) (r 11#5)
  else .answer (if r 16#5 = 0#32 then errInvalidParam else errNotSupported) 0#32

/-- The switch of `ecall`: `a7` is the extension, `a6` the function. -/
def decode : Call :=
  if r 17#5 = extLegacySetTimer then .setTimer true (timerArg r)
  else if r 17#5 = extLegacyPutchar then .legacyPutchar (r 10#5)
  else if r 17#5 = extLegacyGetchar then .legacyGetchar
  else if r 17#5 = extLegacyShutdown then .reset srstShutdown srstReasonNone
  else if r 17#5 = extBase then baseCall csrRead r
  else if r 17#5 = extTime then
    if r 16#5 = 0#32 then .setTimer false (timerArg r) else .answer errNotSupported 0#32
  else if r 17#5 = extDbcn then dbcnCall ramSize r
  else if r 17#5 = extSrst then srstCall r
  else .answer errNotSupported 0#32

end decode

/-- Stores to `mtimecmp` and CSR instructions of the firmware. -/
inductive Op where
  | mtimecmp (high : Bool) (w : Word)
  | csr (funct3 : BitVec 3) (addr : BitVec 12) (src : Word)
  | mret
  deriving DecidableEq

def csrWrite (addr : BitVec 12) (v : Word) : Op := .csr 0b001#3 addr v
def csrSet (addr : BitVec 12) (v : Word) : Op := .csr 0b010#3 addr v
def csrClear (addr : BitVec 12) (v : Word) : Op := .csr 0b011#3 addr v

/-- `set_timer`: never a moment where the comparison value is in the past. -/
def setTimer (t : BitVec 64) : List Op :=
  [.mtimecmp true 0xFFFFFFFF#32, .mtimecmp false (t.extractLsb' 0 32),
    .mtimecmp true (t.extractLsb' 32 32), csrClear Csr.mipA mipStip, csrSet Csr.mieA mipMtip]

def Call.ops : Call → List Op
  | .setTimer _ t => Sbi.setTimer t
  | .legacyPutchar _ | .legacyGetchar | .reset _ _ | .writeByte _ | .write _ _ | .read _ _
  | .answer _ _ => []

/-- `sbi_trap` on the machine timer: the supervisor timer interrupt takes its place. -/
def timerTrap : List Op := [csrClear Csr.mieA mipMtip, csrSet Csr.mipA mipStip]

end RiscvScratch.Sbi
