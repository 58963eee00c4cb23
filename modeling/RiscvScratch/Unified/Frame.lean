import RiscvScratch.Unified.TlbLookup
import RiscvScratch.Unified.VectorHold

/-! Frame facts: what a cycle leaves alone when EX does not commit, when the walker is idle
or when it stays where it is. -/
namespace RiscvScratch

namespace Csr
variable (p : Params) (s : State) (k : Command)

theorem fixStatus_sum (dirty : Bool) (m : Word) :
    (fixStatus p s dirty m).getLsbD 18 = m.getLsbD 18 := by
  simp only [fixStatus]
  split_ifs <;> simp [setBit, setPair]

theorem fixStatus_mxr (dirty : Bool) (m : Word) :
    (fixStatus p s dirty m).getLsbD 19 = m.getLsbD 19 := by
  simp only [fixStatus]
  split_ifs <;> simp [setBit, setPair]

structure SameMode (s s' : State) : Prop where
  priv : s'.priv = s.priv
  satp : s'.satp = s.satp
  sum : sum s' = sum s
  mxr : mxr s' = mxr s

theorem step_sameMode (ht : k.takeTrap = false) (hm : k.isMret = false) (hs : k.isSret = false)
    (hw : k.we = false) : SameMode s (step p s k) := by
  have hc : commit p s k = s := by simp [commit, ht, hm, hs, hw]
  constructor
  · simp [step, hc]
  · simp [step, hc]
  · simp only [step, hc, sum]
    exact fixStatus_sum p s _ _
  · simp only [step, hc, mxr]
    exact fixStatus_mxr p s _ _

theorem write_satp (addr : BitVec 12) (src : Word) (f3 : BitVec 3)
    (h : (write p s addr src f3).satp ≠ s.satp) :
    addr = satpA ∧ p.hasSatp = true ∧ (write p s addr src f3).satp = nx s.satp src f3 := by
  revert h
  unfold write
  dsimp only
  repeat' refine iteInduction (motive := fun q : State => q.satp ≠ s.satp →
    addr = satpA ∧ p.hasSatp = true ∧ q.satp = nx s.satp src f3) (fun _ => ?_) (fun _ => ?_)
  all_goals first
    | exact fun hne => absurd rfl hne
    | intro hne
  cases hp : p.hasSatp
  · simp [hp] at hne
  · exact ⟨‹addr = satpA›, rfl, by simp⟩

theorem step_satp (h : (step p s k).satp ≠ s.satp) :
    k.we = true ∧ k.addr = satpA ∧ p.hasSatp = true ∧
      (step p s k).satp = nx s.satp k.wsrc k.funct3 := by
  have hst : (step p s k).satp = (commit p s k).satp := rfl
  rw [hst] at h ⊢
  unfold commit at h ⊢
  cases ht : k.takeTrap with
  | true =>
    simp only [ht, ↓reduceIte, trapEnter] at h
    split_ifs at h <;> exact absurd rfl h
  | false =>
    cases hm : k.isMret with
    | true => simp [ht, hm, mret] at h
    | false =>
      cases hs : k.isSret with
      | true => simp [ht, hm, hs, sret] at h
      | false =>
        cases hw : k.we with
        | false => simp [ht, hm, hs, hw] at h
        | true =>
          simp only [ht, hm, hs, hw, Bool.false_eq_true, ↓reduceIte] at h ⊢
          exact ⟨trivial, write_satp p s _ _ _ h⟩

theorem step_satpA (ht : k.takeTrap = false) (hm : k.isMret = false) (hs : k.isSret = false)
    (hw : k.we = true) (ha : k.addr = satpA) (hp : p.hasSatp = true) :
    (step p s k).satp = nx s.satp k.wsrc k.funct3 := by
  have hst : (step p s k).satp = (commit p s k).satp := rfl
  have hwr : write p s satpA k.wsrc k.funct3 =
      { s with satp := if p.hasSatp then nx s.satp k.wsrc k.funct3 else s.satp } := rfl
  simp [hst, commit, ht, hm, hs, hw, ha, hwr, hp]

end Csr

namespace Ptw
variable (svade : Bool)

variable {s : State} {i : Input}

theorem good_busy (h : good svade s i = true) : s.fsm ≠ .idle := by
  intro hf
  simp [good, atL1, atL0, hf] at h

theorem bad_busy (h : bad svade s i = true) : s.fsm ≠ .idle := by
  intro hf
  simp [bad, noread, busy, atL1, atL0, hf] at h

theorem not_good_of_bad (h : bad svade s i = true) :
    good svade s i = false := by
  by_contra hg
  simp only [Bool.not_eq_false, good, Bool.and_eq_true, Bool.or_eq_true, Bool.not_eq_true'] at hg
  obtain ⟨hn, ⟨⟨-, hp⟩, hl⟩ | ⟨⟨-, hp⟩, hl⟩⟩ := hg <;> simp [bad, hn, hp, hl] at h

theorem step_wait (hb : busy s = true) (hr : i.memReady = false)
    (ho : i.memOk = true) :
    (step svade s i).fsm = s.fsm ∧ (step svade s i).va = s.va ∧
      (step svade s i).l0Ppn = s.l0Ppn ∧ (step svade s i).sideI = s.sideI := by
  have hn : noread s i = false := by simp [noread, ho]
  cases hf : s.fsm with
  | idle => simp [busy, hf] at hb
  | l1 => simp [step, hf, hn, hr]
  | l0 => simp [step, hf, hn, hr]

theorem step_busy (hb : busy s = true) :
    (step svade s i).va = s.va ∧ (step svade s i).sideI = s.sideI ∧
    (step svade s i).killed = (s.killed || (i.kill && s.sideI)) ∧
    ((busy (step svade s i) = true ∧ good svade s i = false ∧ bad svade s i = false) ∨
      (busy (step svade s i) = false ∧ (good svade s i = true ∨ bad svade s i = true))) := by
  have e1 : (Fsm.l1 != Fsm.idle) = true := rfl
  have e0 : (Fsm.l0 != Fsm.idle) = true := rfl
  cases hf : s.fsm with
  | idle => simp [busy, hf] at hb
  | l1 =>
    cases hn : noread s i with
    | true => simp [e1, step, hf, hn, busy, bad]
    | false =>
      cases hr : i.memReady with
      | false => simp [e1, step, hf, hn, hr, busy, good, bad, atL1, atL0]
      | true =>
        cases hp : pteBad svade i.memRdata with
        | true => simp [e1, step, hf, hn, hr, hp, busy, bad, atL1]
        | false =>
          cases hl : pteLeaf i.memRdata with
          | true => simp [e1, step, hf, hn, hr, hp, hl, busy, good, atL1]
          | false => simp [e1, step, hf, hn, hr, hp, hl, busy, good, bad, atL1, atL0]
  | l0 =>
    cases hn : noread s i with
    | true => simp [e0, step, hf, hn, busy, bad]
    | false =>
      cases hr : i.memReady with
      | false => simp [e0, step, hf, hn, hr, busy, good, bad, atL1, atL0]
      | true =>
        cases hp : pteBad svade i.memRdata with
        | true => simp [e0, step, hf, hn, hr, hp, busy, bad, atL0]
        | false => cases hl : pteLeaf i.memRdata <;>
            simp [e0, step, hf, hn, hr, hp, hl, busy, good, bad, atL0]

theorem step_startD (hf : s.fsm = .idle) (hd : i.startD = true) :
    step svade s i = { s with killed := false, sideI := false, va := i.vaD, fsm := .l1 } := by
  simp [step, hf, hd]

theorem step_startI (hf : s.fsm = .idle) (hd : i.startD = false)
    (hi : i.startI = true) :
    step svade s i = { s with killed := false, sideI := true, va := i.vaI, fsm := .l1 } := by
  simp [step, hf, hd, hi]

theorem step_idle (hf : s.fsm = .idle) (hd : i.startD = false)
    (hi : i.startI = false) : (step svade s i).fsm = .idle := by
  simp [step, hf, hd, hi]

end Ptw

namespace Unified
variable {c : Cfg} {s : State} {i : Input}

theorem Idle.sameMode (h : Idle c s i) : Csr.SameMode s.csr (step c s i).csr :=
  Csr.step_sameMode _ _ _ h.takeTrap h.mret h.sret (by simp [csrCommand, h.csr])

theorem Idle.flush (h : Idle c s i) :
    (tlbFlush c s i).all = false ∧ (tlbFlush c s i).one = false := by
  simp [tlbFlush, h.sfence]

theorem vmOn_congr {s' : State} (h : Csr.SameMode s.csr s'.csr) : vmOn c s' = vmOn c s := by
  simp only [vmOn, inM, satpVal, Csr.satpOut, h.priv, h.satp]

theorem vmOn_mmu (h : vmOn c s = true) : c.mmu = true := by
  simp only [vmOn, Bool.and_eq_true] at h
  exact h.1.1

theorem inUser_congr {s' : State} (h : Csr.SameMode s.csr s'.csr) : inUser s' = inUser s := by
  rw [inUser, inUser, h.priv]

/-- The value a CSR instruction in EX gives to `satp`. -/
def satpNew (s : State) : Word := Csr.nx s.csr.satp (csrWsrc s) s.idex.funct3

theorem satpVal_mmu (hm : c.mmu = true) : satpVal c s = s.csr.satp := by
  simp [satpVal, Csr.satpOut, Cfg.csr, hm]

theorem satp_moves (h : (step c s i).csr.satp ≠ s.csr.satp) :
    csrCommit c s i = true ∧ s.idex.csrAddr = Csr.satpA ∧ (step c s i).csr.satp = satpNew s := by
  obtain ⟨hwe, ha, -, hn⟩ := Csr.step_satp c.csr s.csr (csrCommand c s i) h
  simp only [csrCommand, Bool.and_eq_true] at hwe
  exact ⟨hwe.1, ha, hn⟩

theorem csrCommit_satp (hw : s.idex.Wf) (hm : c.mmu = true) (hc : csrCommit c s i = true)
    (ha : s.idex.csrAddr = Csr.satpA) : (step c s i).csr.satp = satpNew s := by
  have hv : vCsrHit c s = false := by simp [vCsrHit, ha, Vec.csrHit, Csr.satpA]
  have hx := hc
  simp only [csrCommit, Bool.and_eq_true, Bool.not_eq_true'] at hx
  obtain ⟨hnm, hns, -⟩ := hw.csr hx.1.2
  apply Csr.step_satpA
  · simp [csrCommand, hx.2]
  · simp [csrCommand, mretEx, hnm]
  · simp [csrCommand, sretEx, hns]
  · simp [csrCommand, hc, hv]
  · exact ha
  · simp [Cfg.csr, hm]

theorem ptw_step (hm : c.mmu = true) :
    (step c s i).ptw = Ptw.step c.svade s.ptw (ptwInput c s i) := by
  simp [step, hm]

theorem ptwBusy_mmu (h : ptwBusy c s = true) : c.mmu = true ∧ Ptw.busy s.ptw = true := by
  simpa [ptwBusy] using h

theorem ptwFill_busy (h : ptwFill c s i = true) : ptwBusy c s = true := by
  simp only [ptwFill, Ptw.doneFill, Bool.and_eq_true] at h
  simpa [ptwBusy, Ptw.busy, h.1] using Ptw.good_busy c.svade h.2.1

theorem ptwFault_busy (h : ptwFault c s i = true) : ptwBusy c s = true := by
  simp only [ptwFault, Ptw.doneFault, Bool.and_eq_true] at h
  simpa [ptwBusy, Ptw.busy, h.1] using Ptw.bad_busy c.svade h.2.1

theorem no_result_of_idle (h : ptwBusy c s = false) :
    ptwFill c s i = false ∧ ptwFault c s i = false := by
  constructor
  · by_contra hn
    simp [ptwFill_busy (Bool.eq_true_of_not_eq_false hn)] at h
  · by_contra hn
    simp [ptwFault_busy (Bool.eq_true_of_not_eq_false hn)] at h

theorem itlb_hold (h : Idle c s i) (hf : (tlbFill c s i true).en = false) :
    (step c s i).itlb = s.itlb := by
  cases hm : c.mmu with
  | false => simp [step, hm]
  | true => simpa [step, hm] using Tlb.step_hold _ _ hf h.flush.1 h.flush.2

theorem dtlb_hold (h : Idle c s i) (hf : (tlbFill c s i false).en = false) :
    (step c s i).dtlb = s.dtlb := by
  cases hm : c.mmu with
  | false => simp [step, hm]
  | true => simpa [step, hm] using Tlb.step_hold _ _ hf h.flush.1 h.flush.2

theorem no_fill_of_idle (side : Bool) (h : ptwBusy c s = false) :
    (tlbFill c s i side).en = false := by
  simp [tlbFill, (no_result_of_idle h).1]

theorem step_victims (h : s.itlb.victim < c.tlbEntries ∧ s.dtlb.victim < c.tlbEntries) :
    (step c s i).itlb.victim < c.tlbEntries ∧ (step c s i).dtlb.victim < c.tlbEntries := by
  cases hm : c.mmu with
  | false => simpa [step, hm] using h
  | true =>
    simp only [step, hm, ↓reduceIte]
    exact ⟨Tlb.step_victim c.tlbPos h.1 _ _, Tlb.step_victim c.tlbPos h.2 _ _⟩

theorem run_victim (r : Run c) (t : ℕ) :
    (r.state t).itlb.victim < c.tlbEntries ∧ (r.state t).dtlb.victim < c.tlbEntries := by
  refine r.invariant (fun _ => True)
    (fun s => s.itlb.victim < c.tlbEntries ∧ s.dtlb.victim < c.tlbEntries) ?_ ?_
    (fun _ => trivial) t
  · rintro s ⟨u, rfl⟩
    exact ⟨c.tlbPos, c.tlbPos⟩
  · intro s i _ h
    exact step_victims h

theorem wres_same (h : Idle c s i) (h1 : ptwFill c s i = false) (h2 : ptwFault c s i = false) :
    (step c s i).wresValid = s.wresValid ∧ (step c s i).wresI = s.wresI ∧
      (step c s i).wresVpn = s.wresVpn := by
  simp [step, nextWresValid, wresWrite, h.takeTrap, h.sfence, h1, h2]

theorem wres_hold (h : Idle c s i) (hb : ptwBusy c s = false) :
    (step c s i).wresValid = s.wresValid ∧ (step c s i).wresI = s.wresI ∧
      (step c s i).wresVpn = s.wresVpn :=
  wres_same h (no_result_of_idle hb).1 (no_result_of_idle hb).2

theorem wres_of_fault (h : Idle c s i) (hf : ptwFault c s i = true) :
    (step c s i).wresValid = true ∧ (step c s i).wresI = s.ptw.sideI ∧
      (step c s i).wresVpn = Tlb.vpn s.ptw.va := by
  simp [step, nextWresValid, wresWrite, h.takeTrap, h.sfence, hf]

end Unified
end RiscvScratch
