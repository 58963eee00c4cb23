import RiscvScratch.Spartan6.Program

/-! What the datapath computes for an instruction does not depend on the counters, on the time or
on the last AMO. -/
namespace RiscvScratch

namespace S6Csr

def isCounter (addr : BitVec 12) : Bool :=
  [0xB00#12, 0xC00#12, 0xB80#12, 0xC80#12, 0xB02#12, 0xC02#12, 0xB82#12, 0xC82#12, 0xC01#12,
    0xC81#12].contains addr

def Lines.irqs (l : Lines) : Lines := { l with mtime := 0#64 }

variable {p : Params} {s : State} {l : Lines} {addr : BitVec 12}

/-- Every other CSR reads the same whatever the counters and the time are. -/
theorem rdata_settled (h : isCounter addr = false) :
    rdata p (S6Core.settled s) l.irqs addr = rdata p s l addr := by
  simp only [isCounter, List.contains_cons, List.contains_nil, Bool.or_false,
    Bool.or_eq_false_iff, beq_eq_false_iff_ne] at h
  obtain ⟨h1, h2, h3, h4, h5, h6, h7, h8, h9, h10⟩ := h
  unfold rdata
  simp only [h1, h2, h3, h4, h5, h6, h7, h8, h9, h10, or_self, if_false]
  rfl

theorem settled_eq_iff {s s' : State} :
    S6Core.settled s' = S6Core.settled s ↔ ∃ c n, s' = { s with mcycle := c, minstret := n } := by
  refine ⟨fun h => ⟨s'.mcycle, s'.minstret, ?_⟩, ?_⟩
  · cases s
    cases s'
    simpa [S6Core.settled] using h
  · rintro ⟨c, n, rfl⟩
    rfl

theorem settled_write {s s' : State} (h : S6Core.settled s' = S6Core.settled s) (w : Word) :
    S6Core.settled (write p s' addr w) = S6Core.settled (write p s addr w) := by
  have hcase (c : Prop) [Decidable c] {x x' y y' : State}
      (hx : S6Core.settled x' = S6Core.settled x) (hy : S6Core.settled y' = S6Core.settled y) :
      S6Core.settled (if c then x' else y') = S6Core.settled (if c then x else y) := by
    split
    · exact hx
    · exact hy
  obtain ⟨c, n, rfl⟩ := settled_eq_iff.mp h
  unfold write
  -- one register after the other, and the address that names none
  iterate 13
    apply hcase
    · simp only [S6Core.settled]
  rfl

theorem settled_write_counter (h : isCounter addr = true) (w : Word) :
    S6Core.settled (write p s addr w) = S6Core.settled s := by
  simp only [isCounter, List.contains_cons, List.contains_nil, Bool.or_false, Bool.or_eq_true,
    beq_iff_eq] at h
  obtain rfl | rfl | rfl | rfl | rfl | rfl | rfl | rfl | rfl | rfl := h <;>
    simp [write, S6Core.settled]

theorem settled_written (k : Command) :
    S6Core.settled (written p (S6Core.settled s) l.irqs k) =
      S6Core.settled (written p s l k) := by
  have htick : S6Core.settled (tick (S6Core.settled s) k.retire) =
      S6Core.settled (tick s k.retire) := rfl
  have hill : illegal (S6Core.settled s) k.addr k.access k.willWrite =
      illegal s k.addr k.access k.willWrite := rfl
  unfold written
  rw [hill]
  split_ifs
  · cases hc : isCounter k.addr with
    | true => rw [settled_write_counter hc, settled_write_counter hc, htick]
    | false =>
      have hw : wdata p (S6Core.settled s) l.irqs k.addr k.f3 k.wsrc =
          wdata p s l k.addr k.f3 k.wsrc := by
        unfold wdata
        rw [rdata_settled hc]
      rw [hw, settled_write htick]
  · exact htick

/-- The rest of the CSR file steps by itself: the counters are never read back into it. -/
theorem settled_step (k : Command) :
    S6Core.settled (step p (S6Core.settled s) l.irqs k) = S6Core.settled (step p s l k) := by
  obtain ⟨c, n, hw⟩ := settled_eq_iff.mp (settled_written (p := p) (s := s) (l := l) k)
  unfold step
  split_ifs
  · rw [hw]
    rfl
  · rw [hw]
    rfl
  · exact settled_written k

theorem settled_step_idle {k : Command} (ht : k.trapTake = false) (hm : k.mret = false)
    (hw : k.we = false) : S6Core.settled (step p s l k) = S6Core.settled s := by
  simp only [step, written, ht, hm, hw, Bool.false_and, Bool.false_eq_true, if_false]
  rfl

end S6Csr

namespace S6Core

/-- The datapath without what an instruction may not depend on. -/
def Datapath.plain (d : Datapath) : Datapath :=
  { d with
    raw16 := if d.isC then d.raw16 else 0#16
    amoVal := 0#32
    csr := settled d.csr
    lines := d.lines.irqs }

section plain
variable {p : Isa} {d : Datapath}

theorem illegalInstr_plain : illegalInstr p d.plain = illegalInstr p d := by
  have hc : (d.plain.isC && cIllegal p d.plain) = (d.isC && cIllegal p d) := by
    simp only [Datapath.plain, cIllegal]
    cases d.isC <;> rfl
  unfold illegalInstr
  rw [hc]
  rfl

theorem csrRdata_plain (h : S6Csr.isCounter (f12 d.instr) = false) :
    csrRdata p d.plain = csrRdata p d := S6Csr.rdata_settled h

variable (h : d.amoExec = false)
include h

theorem sameOperands_plain : SameOperands d d.plain :=
  ⟨rfl, rfl, rfl, rfl, fun hx => by simp [h] at hx⟩

theorem memAddr_plain : memAddr p d.plain = memAddr p d := (sameOperands_plain h).memAddr
theorem wmask_plain : wmask p d.plain = wmask p d := (sameOperands_plain h).wmask
theorem dbusWdata_plain : dbusWdata p d.plain = dbusWdata p d := (sameOperands_plain h).dbusWdata

theorem takesJump_plain : takesJump p d.plain = takesJump p d := by
  have hlt : cmpLt p d.plain = cmpLt p d := (sameOperands_plain h).cmpLt
  have heq : cmpEq p d.plain = cmpEq p d := by
    unfold cmpEq
    rw [(sameOperands_plain h).aluA, (sameOperands_plain h).aluB]
  have hc : branchCond p d.plain = branchCond p d := by
    unfold branchCond
    rw [hlt, heq]
    rfl
  unfold takesJump branchTaken
  rw [hc]
  rfl

theorem jumpTgt_plain : jumpTgt p d.plain = jumpTgt p d := by
  unfold jumpTgt jalrTgt
  rw [(sameOperands_plain h).aluResult]
  rfl

theorem scOk_plain : scOk p d.plain = scOk p d := by
  unfold scOk
  rw [memAddr_plain h]
  rfl

theorem writes_plain : writes p d.plain = writes p d := by
  unfold writes
  rw [scOk_plain h]
  rfl

theorem course_plain (w : Word) : course p w d.plain = course p w d := by
  unfold course
  rw [writes_plain h]

theorem ba_plain : ba p d.plain = ba p d := by
  unfold ba
  rw [memAddr_plain h]

theorem faults_plain : loadFault p d.plain = loadFault p d ∧
    storeFault p d.plain = storeFault p d ∧ instrFault p d.plain = instrFault p d := by
  unfold loadFault storeFault instrFault lsBad
  rw [ba_plain h, takesJump_plain h, jumpTgt_plain h]
  exact ⟨rfl, rfl, rfl⟩

theorem excAny_plain : excAny p d.plain = excAny p d := by
  obtain ⟨h1, h2, h3⟩ := faults_plain (p := p) h
  unfold excAny
  rw [h1, h2, h3, illegalInstr_plain]
  rfl

theorem trapCause_plain : trapCause p d.plain = trapCause p d := by
  obtain ⟨h1, h2, -⟩ := faults_plain (p := p) h
  unfold trapCause excCause
  rw [h1, h2, illegalInstr_plain]
  rfl

/-- A trap value holds the raw halfword only of a compressed instruction. -/
theorem trapTval_plain : trapTval p d.plain = trapTval p d := by
  obtain ⟨h1, h2, h3⟩ := faults_plain (p := p) h
  have hraw : (if d.plain.isC then d.plain.raw16.zeroExtend 32 else d.plain.instr) =
      if d.isC then d.raw16.zeroExtend 32 else d.instr := by
    by_cases hc : d.isC = true <;> simp [Datapath.plain, hc]
  unfold trapTval excTval
  rw [h1, h2, h3, illegalInstr_plain, memAddr_plain h, jumpTgt_plain h, hraw]
  rfl

theorem nextPc_plain (trap : Bool) : nextPc p d.plain trap = nextPc p d trap := by
  unfold nextPc
  rw [trapCause_plain h, takesJump_plain h, jumpTgt_plain h]
  rfl

theorem loadVal_plain (dw : Word) : loadVal p d.plain dw = loadVal p d dw := by
  unfold loadVal
  rw [ba_plain h]
  rfl

/-- Only a CSR read of a counter delivers what `plain` leaves out. -/
theorem execWb_plain (hc : isCsr d.instr = true → S6Csr.isCounter (f12 d.instr) = false) :
    execWb p d.plain = execWb p d := by
  have hcsr : isCsr d.instr = true → csrRdata p d.plain = csrRdata p d :=
    fun hx => csrRdata_plain (hc hx)
  unfold execWb
  rw [scOk_plain h, (sameOperands_plain h).aluResult]
  show (if isCsr d.instr then _ else _) = _
  split
  · exact hcsr ‹_›
  · rfl

theorem csrAfter_plain (trap retire : Bool) :
    csrAfter p d.plain trap retire = csrAfter p d trap retire := by
  have hk : command p d.plain trap retire = command p d trap retire := by
    unfold command
    rw [trapCause_plain h, trapTval_plain h]
    rfl
  unfold csrAfter
  rw [hk]
  exact S6Csr.settled_step _

end plain
end S6Core
end RiscvScratch
