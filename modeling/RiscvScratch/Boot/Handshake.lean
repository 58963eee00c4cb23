import RiscvScratch.Boot.Port
import RiscvScratch.Cache.Sweep

/-! The FENCE.I handshake: from the sweep of the data cache to the answer the only D-side traffic is
page-table reads. -/
namespace RiscvScratch.Unified

variable {c : Cfg} {s : State} {i : Input}

structure FenceWaits (s : State) : Prop where
  valid : s.idex.valid = true
  fencei : s.idex.fencei = true
  exmem : s.exmem = ExMem.bubble

theorem fencei_not_vec (hw : s.idex.Wf) (hf : s.idex.fencei = true) : s.idex.vec = false := by
  by_contra hv
  simp [(hw.vec (Bool.eq_true_of_not_eq_false hv)).2.2.2.2] at hf

theorem FenceWaits.dWe (h : FenceWaits s) (hw : s.idex.Wf) (hv : VecHeld c s) :
    dWe c s = 0#4 := by
  have hact : vMemActive c s = false := by
    by_contra ha
    have hb := vMemActive_busy (Bool.eq_true_of_not_eq_false ha)
    have hvec := hv.vec (by simp [vRunning, hb])
    simp [fencei_not_vec hw h.fencei] at hvec
  have hm : mWrite s = false := by simp [mWrite, mStore, scOk, h.exmem, ExMem.bubble]
  simp [Unified.dWe, hact, hm]

theorem FenceWaits.fenceiReq (h : FenceWaits s) (hl : i.halt = false) :
    fenceiReq c s i = true := by
  simp [Unified.fenceiReq, h.valid, h.fencei, freeze_of_no_port (mPort_bubble h.exmem), hl]

theorem fenceiReq_inv (h : fenceiReq c s i = true) :
    s.idex.valid = true ∧ s.idex.fencei = true ∧ freeze c s i = false := by
  simpa [fenceiReq, and_assoc] using h

theorem fence_waits (h : fenceiReq c s i = true) (ha : i.fenceiAck = false) :
    FenceWaits (step c s i) := by
  obtain ⟨hv, hf, hz⟩ := fenceiReq_inv h
  have hh : exHold c s i = true := by simp [exHold, fenceiWait, hv, hf, ha]
  obtain ⟨-, hx, ⟨hz', -⟩ | ⟨-, he, -⟩⟩ := stays_move (.inr hh)
  · simp [hz] at hz'
  · exact ⟨by rw [hx]; exact hv, by rw [hx]; exact hf, he⟩

theorem fence_leaves (hw : s.idex.Wf) (h : fenceiReq c s i = true) (ha : i.fenceiAck = true) :
    (step c s i).idex.valid = false := by
  obtain ⟨hv, hf, hz⟩ := fenceiReq_inv h
  have hplain := hw.plain (by simp [IdEx.special, hf])
  have hvec := fencei_not_vec hw hf
  have hh : exHold c s i = false := by
    simp [exHold, exDwalk, exXlate, exMem, hplain.1, hplain.2.1, vWait, hvec, fenceiWait, ha]
  have hg : exGo c s i = true := by simp [exGo, hv, hz, hh]
  have hr : redirect c s i = true := by simp [redirect, hg, hf]
  cases step_move c s i with
  | frozen hz' => simp [hz] at hz'
  | held _ hh' => simp [hh] at hh'
  | flushed _ _ _ _ hx _ _ => rw [hx]; rfl
  | bubbled _ _ hr' | advanced _ _ hr' => simp [hr] at hr'

end RiscvScratch.Unified

namespace RiscvScratch.Boot

open Cache Unified

variable {p : Params} {s : State} {i : Input}

/-- Where the platform stands with a FENCE.I. The answer is given in `acked`. -/
inductive Phase (p : Params) (s : State) : Prop
  | off (fsm : s.dc.fsm ≠ .clean) (cleaned : s.dc.cleaned = false) (ack : s.fiDone = false)
  | sweeping (fsm : s.dc.fsm = .clean) (cleaned : s.dc.cleaned = false) (ack : s.fiDone = false)
      (waits : FenceWaits s.core) (swept : Dcache.Swept s.dc s.dc.ci)
  | cleaned (fsm : s.dc.fsm ≠ .clean) (cleaned : s.dc.cleaned = true) (ack : s.fiDone = false)
      (waits : FenceWaits s.core) (clean : Dcache.Clean p.dg s.dc)
  | acked (fsm : s.dc.fsm ≠ .clean) (ack : s.fiDone = true) (waits : FenceWaits s.core)
      (clean : Dcache.Clean p.dg s.dc)
  | past (fsm : s.dc.fsm ≠ .clean) (cleaned : s.dc.cleaned = false) (ack : s.fiDone = true)
      (left : s.core.idex.valid = false)

theorem not_accepted_of_waits (hc : CoreSound p.cfg s.core) (hw : FenceWaits s.core) :
    Dcache.accepted p.dg s.dc (dcInput p s i) = false := by
  have : (dcInput p s i).we = 0#4 := hw.dWe hc.wf hc.vec
  simp [Dcache.accepted, this]

theorem fenceiReq_of_waits (hw : FenceWaits s.core) (hl : s.halt = false) :
    fenceiReq p s i = true :=
  hw.fenceiReq hl

theorem Phase.run (h : Phase p s) (hc : CoreSound p.cfg s.core) (hl : s.halt = false)
    (hp : Dcache.Port p.dg s.dc (dcInput p s i)) : Phase p (run p s i) := by
  have hwaits (hr : fenceiReq p s i = true) (ha : s.fiDone = false) :
      FenceWaits (Boot.run p s i).core := fence_waits hr ha
  cases h with
  | off hf hcl ha =>
    have hfi : (Boot.run p s i).fiDone = false := by
      simp [Boot.run, nextFiDone, dcCleanDone, Dcache.cleanDone, hcl, ha]
    obtain ⟨hcl', hf' | ⟨hf', hci, hq, -⟩⟩ := Dcache.rest_step (g := p.dg) (i := dcInput p s i) hf
    · exact .off hf' (hcl'.trans (by simp [hcl])) hfi
    · simp only [dcInput, dcClean, Bool.and_eq_true] at hq
      refine .sweeping hf' (hcl'.trans (by simp [hcl])) hfi (hwaits hq.1 ha) ?_
      change Dcache.Swept _ (Dcache.step p.dg s.dc (dcInput p s i)).ci
      rw [hci]
      exact Dcache.Swept.zero _
  | sweeping hf hcl ha hw hs =>
    have hq : fenceiReq p s i = true := fenceiReq_of_waits hw hl
    have hfi : (Boot.run p s i).fiDone = false := by
      simp [Boot.run, nextFiDone, dcCleanDone, Dcache.cleanDone, hcl, ha]
    obtain ⟨hf', hcl', hs'⟩ | ⟨hf', hcl', hk⟩ := Dcache.sweep_step hf hp hs
    · exact .sweeping hf' (hcl'.trans (by simp [hcl])) hfi (hwaits hq ha) hs'
    · exact .cleaned (by simp [Boot.run, hf']) hcl' hfi (hwaits hq ha) hk
  | cleaned hf hcl ha hw hk =>
    have hq : fenceiReq p s i = true := fenceiReq_of_waits hw hl
    have hclean : (dcInput p s i).clean = true := by simp [dcInput, dcClean, hq, ha]
    have hfi : (Boot.run p s i).fiDone = true := by
      simp [Boot.run, nextFiDone, dcCleanDone, Dcache.cleanDone, hcl, hq, hclean]
    obtain ⟨-, hf' | ⟨-, -, -, hn⟩⟩ := Dcache.rest_step (g := p.dg) (i := dcInput p s i) hf
    · exact .acked hf' hfi (hwaits hq ha) (hk.step (not_accepted_of_waits hc hw))
    · simp [hcl] at hn
  | acked hf ha hw hk =>
    have hq : fenceiReq p s i = true := fenceiReq_of_waits hw hl
    have hclean : (dcInput p s i).clean = false := by simp [dcInput, dcClean, ha]
    have hfi : (Boot.run p s i).fiDone = true := by
      simp [Boot.run, nextFiDone, dcCleanDone, Dcache.cleanDone, hq, hclean, ha]
    obtain ⟨hcl', hf' | ⟨-, -, hn, -⟩⟩ := Dcache.rest_step (g := p.dg) (i := dcInput p s i) hf
    · exact .past hf' (hcl'.trans (by simp [hclean])) hfi (fence_leaves hc.wf hq ha)
    · simp [hclean] at hn
  | past hf hcl ha hv =>
    have hq : fenceiReq p s i = false := by simp [fenceiReq, Unified.fenceiReq, hv]
    have hclean : (dcInput p s i).clean = false := by simp [dcInput, dcClean, hq]
    obtain ⟨hcl', hf' | ⟨-, -, hn, -⟩⟩ := Dcache.rest_step (g := p.dg) (i := dcInput p s i) hf
    · exact .off hf' (hcl'.trans (by simp [hcl])) (by simp [Boot.run, nextFiDone, hq])
    · simp [hclean] at hn

end RiscvScratch.Boot
