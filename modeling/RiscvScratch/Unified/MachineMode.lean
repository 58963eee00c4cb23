import RiscvScratch.Unified.Frame
import RiscvScratch.Unified.Reference

/-! M-mode without a vector unit: nothing is translated, and what EX computes depends on the
instruction, its operands and the CSRs alone. -/
namespace RiscvScratch

namespace Csr
variable {p : Params} {s : State} {k : Command}

def Settled (p : Params) (s : State) : Prop := fixStatus p s false s.mstatus = s.mstatus

theorem fixStatus_noV (hv : p.hasV = false) (w : Word) :
    fixStatus p s false w = setBit (setPair w 9 0b00#2) 31 false := by
  simp [fixStatus, hv]

theorem settled_step (hv : p.hasV = false) (hd : k.setVsDirty = false) :
    Settled p (step p s k) := by
  have hm : (step p s k).mstatus = setBit (setPair (commit p s k).mstatus 9 0b00#2) 31 false := by
    rw [step, hd, fixStatus_noV hv]
  rw [Settled, fixStatus_noV hv, hm]
  generalize (commit p s k).mstatus = w
  ext j hj
  simp only [setBit, setPair, Bool.false_eq_true, ↓reduceIte, BitVec.getElem_and,
    BitVec.getElem_or, BitVec.getElem_not]
  cases (3#32 <<< 9)[j] <;> cases (1#32 <<< 31)[j] <;> simp

theorem settled_reset (hv : p.hasV = false) : Settled p (reset p) := by
  rw [Settled, fixStatus_noV hv]
  simp only [reset, least]
  cases p.hasU <;> decide

theorem step_idle (h : Settled p s) (hd : k.setVsDirty = false) (hc : commit p s k = s) :
    step p s k = s := by
  rw [step, hc, hd, h]

end Csr

namespace Unified

variable {c : Cfg} {s e : State} {i : Input}

structure Plain (c : Cfg) (s : State) : Prop where
  noVec : c.vExt = false
  mode : s.csr.priv = Csr.privM
  walker : ptwBusy c s = false
  vec : s.idex.vec = false

namespace Plain

section
variable (h : Plain c s)
include h

theorem vmOn : vmOn c s = false := by simp [Unified.vmOn, inM, h.mode]

theorem xlate : exXlate c s = false := by simp [exXlate, h.vmOn]

theorem exPa : exPa c s = exVa c s := by simp [Unified.exPa, h.xlate]

theorem dwalk : exDwalk c s = false := by simp [exDwalk, h.xlate]

theorem dfault : exDfault c s = false := by simp [exDfault, h.xlate]

theorem dafPma : exDafPma c s = (exMem s && !exMisal c s &&
    ((needR s && !c.allowsR (exVa c s)) || (needW s && !c.allowsW (exVa c s)))) := by
  simp [exDafPma, h.dfault, h.dwalk, h.exPa]

theorem daf : exDaf c s = exDafPma c s := by
  simp [exDaf, exDafWalk, h.dfault]

theorem exHold : exHold c s i = fenceiWait s i := by
  simp [Unified.exHold, h.dwalk, vWait, h.vec]

theorem faultNow : vFaultNow c s = false := by simp [vFaultNow, h.vec]

theorem inactive : vMemActive c s = false := by simp [vMemActive, h.noVec]

theorem dReq : dReq c s i = mReq c s i := by
  simp [Unified.dReq, h.walker, vReqG, vMemReq, h.noVec]

theorem dAddr : dAddr c s = s.exmem.addr := by
  simp [Unified.dAddr, h.walker, h.inactive]

theorem dWe : dWe c s = if mWrite s then (if s.exmem.rmw then 0b1111#4 else stMask s) else 0#4 := by
  simp [Unified.dWe, h.walker, h.inactive]

theorem dWdata : dWdata c s = if s.exmem.rmw then amoNew s else stData s := by
  simp [Unified.dWdata, h.inactive]

theorem ifWalk : ifWalk c s = false := by simp [Unified.ifWalk, h.vmOn]

theorem iAddr : iAddr c s = s.pc := by simp [Unified.iAddr, h.vmOn]

theorem ifFault : ifFault c s = !c.allowsX s.pc ∧ ifAfault c s = !c.allowsX s.pc := by
  simp [Unified.ifFault, ifAfault, ifPfault, h.vmOn, h.ifWalk, h.iAddr]

end

end Plain

theorem decode_vec (hv : c.vExt = false) (f : IfId) (d1 d2 : Word) :
    (decode c f d1 d2).vec = false := by
  simp [decode, idVec, hv]

theorem run_plain (hv : c.vExt = false) (r : Run c)
    (hm : ∀ t, (r.state t).csr.priv = Csr.privM) (t : ℕ) : Plain c (r.state t) := by
  induction t with
  | zero =>
    obtain ⟨u, hu⟩ := r.starts
    refine ⟨hv, hm 0, ?_, ?_⟩
    · simp [hu, reset, ptwBusy, Ptw.busy, Ptw.reset]
    · simp [hu, reset, IdEx.bubble]
  | succ t ih =>
    have hstep := run_step r t
    refine ⟨hv, hm (t + 1), ?_, ?_⟩
    · rw [hstep]
      cases hmmu : c.mmu with
      | false => simp [ptwBusy, hmmu]
      | true =>
        have hf : (r.state t).ptw.fsm = .idle := by simpa [ptwBusy, Ptw.busy, hmmu] using ih.walker
        have hd : (ptwInput c (r.state t) (r.input t)).startD = false := by
          simp [ptwInput, ptwStartD, ih.dwalk, vWalk, ih.inactive]
        have hi : (ptwInput c (r.state t) (r.input t)).startI = false := by
          simp [ptwInput, ptwStartI, ih.ifWalk]
        simp [ptwBusy, hmmu, ptw_step hmmu, Ptw.busy, Ptw.step_idle c.svade hf hd hi]
    · rw [hstep]
      cases step_move c (r.state t) (r.input t) with
      | frozen _ _ _ hx _ _ | held _ _ _ _ hx _ _ => rw [hx]; exact ih.vec
      | flushed _ _ _ _ hx _ _ | bubbled _ _ _ _ _ _ hx _ _ => rw [hx]; rfl
      | advanced _ _ _ _ _ _ hx _ _ => rw [hx]; exact decode_vec hv _ _ _

def readsCounter (c : Cfg) (s : State) : Bool :=
  s.idex.isCsr && c.zicntr && (isCnt s || isTime s)

/-- Two states whose EX stages hold the same instruction with the same operands, whatever was
guessed. -/
structure SameEx (s e : State) : Prop where
  idex : ∃ d1 d2 p q, s.idex = { e.idex with rs1d := d1, rs2d := d2, predTaken := p,
                                             predTarget := q }
  opA : opA s = opA e
  opB : opB s = opB e
  csr : s.csr = e.csr
  inhibit : s.counters.inhibit = e.counters.inhibit

namespace SameEx

section
variable (h : SameEx s e)
include h

theorem aluResult : aluResult c s = aluResult c e := by
  obtain ⟨_, _, _, _, hx⟩ := h.idex
  simp only [Unified.aluResult, aluB, hx, h.opA, h.opB]

theorem exTaken : exTaken s = exTaken e := by
  obtain ⟨_, _, _, _, hx⟩ := h.idex
  simp only [Unified.exTaken, hx, h.opA, h.opB]

theorem exTarget : exTarget c s = exTarget c e := by
  have ha := h.aluResult (c := c)
  obtain ⟨_, _, _, _, hx⟩ := h.idex
  simp only [Unified.exTarget, jalrTgt, brTarget, ha, hx]

theorem exVa : exVa c s = exVa c e := by
  have ha := h.aluResult (c := c)
  obtain ⟨_, _, _, _, hx⟩ := h.idex
  simp only [Unified.exVa, exAmo, ha, hx, h.opA]
  rfl

end

variable {j : Input}

section
variable (h : SameEx s e) (hs : Plain c s) (he : Plain c e)
include h hs he

theorem faults : exMisal c s = exMisal c e ∧ exImisal c s = exImisal c e ∧
    exDafPma c s = exDafPma c e ∧ exIllegal c s = exIllegal c e := by
  have ht := h.exTaken
  have hg := h.exTarget (c := c)
  have hva := h.exVa (c := c)
  obtain ⟨_, _, _, _, hx⟩ := h.idex
  have hm : exMisal c s = exMisal c e := by simp only [exMisal, exMem, hva, hx]
  refine ⟨hm, ?_, ?_, ?_⟩
  · simp only [exImisal, ht, hg, hx]
  · rw [hs.dafPma, he.dafPma, hm, hva]
    simp only [exMem, needR, needW, hx]
  · simp only [exIllegal, csrBad, csrNoS, csrWrites, vCsrHit, vsOn, vIllegal, inM, inUser, hx,
      h.csr, hs.noVec, Bool.false_and, Bool.false_eq_true, ↓reduceIte]

theorem exception : exception c s = exception c e := by
  obtain ⟨hm, hj, hd, hi⟩ := h.faults hs he
  simp only [Unified.exception, hs.dfault, he.dfault, hs.faultNow, he.faultNow, hd, hi, hm, hj]
  obtain ⟨_, _, _, _, hx⟩ := h.idex
  simp only [hx]

theorem irqTake (hl : i.lines = j.lines) :
    irqTake c s i = irqTake c e j := by
  have hx := h.exception hs he
  simp only [Unified.irqTake, hx, irqPending, h.csr, hl, hs.vec, he.vec, Bool.false_and]
  obtain ⟨_, _, _, _, hx⟩ := h.idex
  simp only [hx]

theorem trapCause (hl : i.lines = j.lines) :
    trapCause c s i = trapCause c e j := by
  obtain ⟨hm, hj, hd, hi⟩ := h.faults hs he
  simp only [Unified.trapCause, hs.daf, he.daf, hs.dfault, he.dfault, hs.faultNow, he.faultNow,
    hd, hi, hm, hj, h.csr, hl, inUser, inM, Bool.false_eq_true, ↓reduceIte]
  obtain ⟨_, _, _, _, hx⟩ := h.idex
  simp only [hx, needW]
  rfl

theorem trapVal : trapVal c s = trapVal c e := by
  obtain ⟨hm, hj, hd, hi⟩ := h.faults hs he
  have hva := h.exVa (c := c)
  have hg := h.exTarget (c := c)
  simp only [Unified.trapVal, hs.daf, he.daf, hs.dfault, he.dfault, hs.faultNow, he.faultNow,
    hd, hi, hm, hj, hva, hg, Bool.false_eq_true, ↓reduceIte]
  obtain ⟨_, _, _, _, hx⟩ := h.idex
  simp only [hx]

end

theorem csrWsrc (h : SameEx s e) : csrWsrc s = csrWsrc e := by
  obtain ⟨_, _, _, _, hx⟩ := h.idex
  simp only [Unified.csrWsrc, hx, h.opA]

section commit
variable (h : SameEx s e) (hs : Plain c s) (he : Plain c e) (hl : i.lines = j.lines)
  (hgs : exGo c s i = true) (hge : exGo c e j = true)
include h hs he hl hgs hge

theorem takeTrap : takeTrap c s i = takeTrap c e j := by
  simp only [Unified.takeTrap, hgs, hge, h.exception hs he, h.irqTake hs he hl]

theorem exKeep : exKeep c s i = exKeep c e j := by
  simp only [Unified.exKeep, hgs, hge, h.takeTrap hs he hl hgs hge]

theorem system : mretEx c s i = mretEx c e j ∧ sretEx c s i = sretEx c e j ∧
    csrCommit c s i = csrCommit c e j := by
  simp only [mretEx, sretEx, csrCommit, hgs, hge, h.takeTrap hs he hl hgs hge]
  obtain ⟨_, _, _, _, hx⟩ := h.idex
  simp only [hx, and_self]

theorem csrCommand : csrCommand c s i = csrCommand c e j := by
  obtain ⟨hm, hr, hc⟩ := h.system hs he hl hgs hge
  simp only [Unified.csrCommand, h.takeTrap hs he hl hgs hge, hm, hr, hc, h.trapCause hs he hl,
    h.trapVal hs he, h.csrWsrc, vCsrHit, hs.noVec, Bool.false_and]
  obtain ⟨_, _, _, _, hx⟩ := h.idex
  simp only [hx]

theorem redirectPc : redirectPc c s i = redirectPc c e j := by
  have ht := h.exTaken
  have hg := h.exTarget (c := c)
  obtain ⟨hm, hr, -⟩ := h.system hs he hl hgs hge
  simp only [Unified.redirectPc, h.takeTrap hs he hl hgs hge, hm, hr, h.trapCause hs he hl, h.csr,
    ht, hg, pc4Ex]
  obtain ⟨_, _, _, _, hx⟩ := h.idex
  simp only [hx]

theorem inhibit_next : (nextCounters c s i).inhibit = (nextCounters c e j).inhibit := by
  have hc := (h.system hs he hl hgs hge).2.2
  have hw := h.csrWsrc
  have hi : isInh s = isInh e := by
    obtain ⟨_, _, _, _, hx⟩ := h.idex
    simp only [isInh, hx]
  simp only [nextCounters, hc, hi, h.inhibit]
  cases hin : isInh e with
  | false => simp
  | true =>
    have hf : s.idex.funct3 = e.idex.funct3 := by
      obtain ⟨_, _, _, _, hx⟩ := h.idex
      simp only [hx]
    have hr : cntRdata s i = cntRdata e j := by
      simp only [cntRdata, hi, hin, ↓reduceIte, h.inhibit]
    simp only [cntNew, hr, hw, hf]

end commit

theorem isCsr (h : SameEx s e) : s.idex.isCsr = e.idex.isCsr := by
  obtain ⟨_, _, _, _, hx⟩ := h.idex
  rw [hx]

theorem csrAddr (h : SameEx s e) : s.idex.csrAddr = e.idex.csrAddr := by
  obtain ⟨_, _, _, _, hx⟩ := h.idex
  rw [hx]

theorem csrRdata (h : SameEx s e) (hv : c.vExt = false) (hl : i.lines = j.lines)
    (hn : c.zicntr = true → isCnt s = false ∧ isTime s = false) :
    csrRdata c s i = csrRdata c e j := by
  have hc : isCnt s = isCnt e := by simp only [isCnt, h.csrAddr]
  have hi : isInh s = isInh e := by simp only [isInh, h.csrAddr]
  have ht : isTime s = isTime e := by simp only [isTime, h.csrAddr]
  have hhit : cntHit c s = cntHit c e := by simp only [cntHit, hc, hi, ht]
  simp only [Unified.csrRdata, vCsrHit, hv, Bool.false_and, Bool.false_eq_true, ↓reduceIte, hhit,
    h.csr, hl, h.csrAddr]
  cases hx : cntHit c e with
  | false => rfl
  | true =>
    simp only [cntHit, ← hc, ← hi, ← ht, Bool.and_eq_true] at hx
    have hin : isInh s = true := by simpa [hn hx.1] using hx.2
    simp only [cntRdata, ← hi, hin, h.inhibit, ↓reduceIte]

theorem exResult (h : SameEx s e) (hs : Plain c s) (he : Plain c e) (hl : i.lines = j.lines)
    (hn : readsCounter c s = false) : exResult c s i = exResult c e j := by
  have ha := h.aluResult (c := c)
  have hb : aluB s = aluB e := by
    have hB := h.opB
    obtain ⟨_, _, _, _, hx⟩ := h.idex
    simp only [aluB, hB, hx]
  have hz : zbResult c s = zbResult c e := by
    have hA := h.opA
    obtain ⟨_, _, _, _, hx⟩ := h.idex
    simp only [zbResult, hA, hb, hx]
  simp only [Unified.exResult, hs.vec, he.vec, h.isCsr, ha, hz, pc4Ex]
  cases hx : e.idex.isCsr with
  | true =>
    have hr : Unified.csrRdata c s i = Unified.csrRdata c e j := by
      refine h.csrRdata hs.noVec hl fun hcnt => ?_
      simpa [readsCounter, h.isCsr, hx, hcnt] using hn
    simp only [hr, ↓reduceIte]
  | false =>
    simp only [Bool.false_eq_true, ↓reduceIte]
    obtain ⟨_, _, _, _, hx⟩ := h.idex
    rw [hx]

theorem executed (h : SameEx s e) (hs : Plain c s) (he : Plain c e) :
    executed c s i = { executed c e j with result := Unified.exResult c s i } := by
  have hva := h.exVa (c := c)
  have hB := h.opB
  simp only [Unified.executed, hs.exPa, he.exPa, hva, hB, hs.vec, he.vec]
  obtain ⟨_, _, _, _, hidex⟩ := h.idex
  simp only [hidex, Bool.false_and, Bool.or_false]

end SameEx

end Unified
end RiscvScratch
