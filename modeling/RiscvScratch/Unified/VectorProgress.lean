import RiscvScratch.Unified.Frame
import RiscvScratch.Unified.Provenance

/-! Progress of a vector instruction: the unit works through its elements in order, and a
translation fault leaves the number of the first one not done in `vstart`. -/
namespace RiscvScratch

namespace Vec
variable {vlen : ℕ} {s : State} {i : Input}

theorem coreWrites_quiet (hc : i.cfgCommit = false) (hw : i.csrWe = false) :
    coreWrites vlen s i = s := by
  simp [coreWrites, hc, hw]

theorem step_vtype (hc : i.cfgCommit = false) (hw : i.csrWe = false) :
    (step vlen s i).vtype = s.vtype := by
  unfold step sequence
  rw [coreWrites_quiet hc hw]
  cases s.fsm with
  | idle => simp only [onStart]; split_ifs <;> rfl
  | init => rfl
  | run => simp only [onRun]; split_ifs <;> rfl
  | final => simp only [onFinal]; split_ifs <;> rfl
  | done => rfl

theorem illegal_congr {s' : State} (h : s'.vtype = s.vtype) (w : Word) (on : Bool) :
    illegal vlen s' w on = illegal vlen s w on := by
  have hs : sewl s' = sewl s := by simp [sewl, h]
  have hl : lmull s' = lmull s := by simp [lmull, h]
  have he : (widths vlen s' w).emull = (widths vlen s w).emull := by
    unfold widths
    cases cls w <;> simp only [hs, hl] <;> split_ifs <;> rfl
  have hr : regOk vlen s' w = regOk vlen s w := by simp only [regOk, hl, he]
  have hm : memOk vlen s' w = memOk vlen s w := by simp only [memOk, he]
  simp only [illegal, h, hr, hm]

theorem evl_congr {s' : State} (hvl : s'.vl = s.vl) (w : Word) :
    evl vlen s' w = evl vlen s w := by
  unfold evl widths
  cases cls w <;> simp only [hvl] <;> split_ifs <;> rfl

def Clean (s : State) : Prop := s.fsm = .init ∨ s.fsm = .run ∨ s.fsm = .final → s.fault = false

theorem coreWrites_fault : (coreWrites vlen s i).fault = s.fault := by
  unfold coreWrites
  dsimp only
  split_ifs <;> rfl

theorem Clean.step (h : Clean s) : Clean (step vlen s i) := by
  unfold Vec.step sequence
  cases hf : s.fsm with
  | idle =>
    intro hn
    simp only [onStart] at hn ⊢
    split_ifs at hn ⊢ <;> simp_all [coreWrites_fsm]
  | init =>
    intro _
    simpa [onInit, coreWrites_fault] using h (.inl hf)
  | run =>
    have h0 := h (.inr (.inl hf))
    intro hn
    simp only [onRun] at hn ⊢
    split_ifs at hn ⊢ <;> simp_all [coreWrites_fault]
  | final =>
    intro _
    have h0 := h (.inr (.inr hf))
    simp only [onFinal]
    split_ifs <;> simpa [coreWrites_fault] using h0
  | done =>
    intro hn
    simp [onDone] at hn

theorem step_running (vlen : ℕ) (i : Input) (h : s.fsm ≠ .idle) :
    (step vlen s i).fsm ≠ .idle ∨ (step vlen s i).done = true := by
  rw [step_done]
  cases hf : s.fsm with
  | idle => exact absurd hf h
  | init =>
    left
    simp only [step, sequence, hf, onInit]
    split_ifs <;> simp
  | run =>
    left
    simp only [step, sequence, hf, onRun]
    split_ifs
    · simp
    · simp
    · simp
    all_goals first
      | (split <;> simp)
      | simp [coreWrites_fsm, hf]
  | final =>
    left
    simp only [step, sequence, hf, onFinal]
    split_ifs <;> simp
  | done => exact .inr rfl

/-- The unit is past element `x` of the instruction `w`. -/
structure Past (vlen : ℕ) (x : Word) (w : Word) (s : State) : Prop where
  begun : s.fsm ≠ .init
  run : s.fsm = .run → x.toNat < s.idx.toNat ∧ inRange vlen s w = true
  fault : s.fault = true → x.toNat < s.vstart.toNat

theorem idx_succ {w : Word} (hr : inRange vlen s w = true) :
    (s.idx + 1#32).toNat = s.idx.toNat + 1 := by
  simp only [inRange, BitVec.ult, decide_eq_true_eq] at hr
  have := (evl vlen s w).isLt
  rw [BitVec.toNat_add]
  simp
  omega

theorem next_past {x : Word} (hc : i.cfgCommit = false) (hw : i.csrWe = false)
    (hf : s.fsm = .run) (hcl : Clean s) (hr : inRange vlen s i.instr = true)
    (hx : x.toNat ≤ s.idx.toNat) (hnf : (memWant vlen s i.instr && i.xlFault) = false)
    (hgo : (!memWant vlen s i.instr || i.memDone) = true) :
    Past vlen x i.instr (step vlen s i) := by
  have h0 := hcl (.inr (.inl hf))
  have hseq : sequence vlen s i = onRun vlen s { s with done := false } i := by
    rw [sequence_run _ _ _ hf, coreWrites_quiet hc hw]
  have hst : (step vlen s i).idx = s.idx + 1#32 ∧ (step vlen s i).vl = s.vl ∧
      (step vlen s i).fault = s.fault := by
    refine ⟨?_, ?_, ?_⟩ <;>
      simp only [step, hseq, onRun, hnf, hgo, Bool.false_eq_true, ↓reduceIte]
  have hfsm : (step vlen s i).fsm = .run ∧ last vlen s i.instr = false ∨
      (step vlen s i).fsm = .final ∨ (step vlen s i).fsm = .done := by
    simp only [step, hseq, onRun, hnf, hgo, Bool.false_eq_true, ↓reduceIte]
    cases last vlen s i.instr with
    | false => exact .inl ⟨rfl, rfl⟩
    | true =>
      refine .inr ?_
      rw [if_pos rfl]
      split
      all_goals simp
  obtain ⟨hidx, hvl, hfa⟩ := hst
  refine ⟨?_, fun hrun => ?_, fun hfault => ?_⟩
  · rcases hfsm with ⟨hfsm, -⟩ | hfsm | hfsm <;> simp [hfsm]
  · obtain ⟨-, hl⟩ : (step vlen s i).fsm = .run ∧ last vlen s i.instr = false := by
      rcases hfsm with h | h | h
      · exact h
      all_goals simp [h] at hrun
    rw [hidx, idx_succ hr]
    refine ⟨by omega, ?_⟩
    rw [inRange, evl_congr hvl, hidx]
    simpa [last] using hl
  · simp [hfa, h0] at hfault

theorem Past.step {x : Word} (h : Past vlen x i.instr s) (hcl : Clean s)
    (hb : s.fsm ≠ .idle) (hc : i.cfgCommit = false) (hw : i.csrWe = false) :
    Past vlen x i.instr (step vlen s i) := by
  cases hf : s.fsm with
  | idle => exact absurd hf hb
  | init => exact absurd hf h.begun
  | run =>
    obtain ⟨hx, hr⟩ := h.run hf
    have h0 := hcl (.inr (.inl hf))
    have hseq : sequence vlen s i = onRun vlen s { s with done := false } i := by
      rw [sequence_run _ _ _ hf, coreWrites_quiet hc hw]
    cases hflt : memWant vlen s i.instr && i.xlFault with
    | true =>
      simp only [Vec.step, hseq, onRun, hflt, ↓reduceIte]
      -- a fault-only-first load trims `vl` instead
      cases mFf i.instr && s.idx != 0#32 with
      | true => exact ⟨by simp, by simp, by simp [h0]⟩
      | false => exact ⟨by simp, by simp, fun _ => hx⟩
    | false =>
      cases hgo : !memWant vlen s i.instr || i.memDone with
      | true => exact next_past hc hw hf hcl hr hx.le hflt hgo
      | false =>
        simp only [Vec.step, hseq, onRun, hflt, hgo, Bool.false_eq_true, ↓reduceIte]
        exact ⟨h.begun, fun _ => ⟨hx, hr⟩, h.fault⟩
  | final =>
    have h0 := hcl (.inr (.inr hf))
    simp only [Vec.step, sequence, hf, coreWrites_quiet hc hw, onFinal]
    split_ifs <;> exact ⟨by simp, by simp, by simp [h0]⟩
  | done =>
    simp only [Vec.step, sequence, hf, coreWrites_quiet hc hw, onDone]
    refine ⟨by simp, by simp, fun hfault => ?_⟩
    simp only at hfault
    simp only [hfault, ↓reduceIte]
    exact h.fault hfault

end Vec

theorem Csr.vs_of_idle (p : Csr.Params) (s : Csr.State) {k : Csr.Command} (hv : p.hasV = true)
    (hc : Csr.commit p s k = s) (h : Csr.vs s ≠ 0b00#2) : Csr.vs (Csr.step p s k) ≠ 0b00#2 := by
  have hx : (Csr.setBit s.mstatus 31 false).extractLsb' 9 2 = s.mstatus.extractLsb' 9 2 := by
    ext j hj
    simp only [BitVec.getElem_extractLsb', Csr.setBit]
    interval_cases j <;> simp
  have hy : (Csr.setBit (Csr.setPair s.mstatus 9 0b11#2) 31 false).extractLsb' 9 2 = 0b11#2 := by
    ext j hj
    simp only [BitVec.getElem_extractLsb', Csr.setBit, Csr.setPair]
    interval_cases j <;> simp
  have hon : (Csr.vs s != 0b00#2) = true := by simpa using h
  simp only [Csr.step, Csr.fixStatus, hc, hv, hon, Bool.and_true, Bool.not_true]
  cases k.setVsDirty with
  | true =>
    simp only [Csr.vs, Bool.false_eq_true, ↓reduceIte, hy]
    decide
  | false =>
    simp only [Csr.vs, Bool.false_eq_true, ↓reduceIte, hx]
    exact h

namespace Unified
variable {c : Cfg} {s : State} {i : Input}

def otherException (c : Cfg) (s : State) : Bool :=
  s.idex.ifault || exIllegal c s || s.idex.ecall || s.idex.ebreak || exDfault c s ||
    exDafPma c s || exMisal c s || exImisal c s

theorem exception_eq : exception c s = (otherException c s || vFaultNow c s) := rfl

theorem otherException_vec (hw : s.idex.Wf) (hv : s.idex.vec = true) :
    otherException c s = (s.idex.ifault || s.idex.illegal || vIllegal c s || s.idex.ecall ||
      s.idex.ebreak) := by
  obtain ⟨hr, hst, hb, hj, -⟩ := hw.plain (by simp [IdEx.special, hv])
  obtain ⟨hcsr, hm, hs, hf, -⟩ := hw.vec hv
  have hx : exMem s = false := by simp [exMem, hr, hst]
  have ht : exTaken s = false := by simp [exTaken, hb, hj]
  simp [otherException, exIllegal, csrBad, exDfault, exXlate, exDafPma, exMisal, exImisal, hx, ht,
    hcsr, hm, hs, hf, hv, Bool.or_assoc]

theorem vRunning_ext (h : vRunning c s = true) : c.vExt = true := by
  simp only [vRunning, vBusy, vDone, Bool.or_eq_true, Bool.and_eq_true] at h
  tauto

theorem vec_step_eq (he : c.vExt = true) :
    (step c s i).vec = Vec.step c.vlen s.vec (vecInput c s i) := by
  simp [step, he]

theorem otherException_step (hw : s.idex.Wf) (hv : VecHeld c s)
    (ih : vRunning c s = true → otherException c s = false)
    (hr : vRunning c (step c s i) = true) : otherException c (step c s i) = false := by
  obtain ⟨hh, -, hx, -, hvec, -⟩ := hv.keeps hr
  have hid := idle_of_not_exGo (not_exGo_of_hold hh)
  have he := vRunning_ext hr
  have h0 : otherException c s = false := by
    obtain hb | hs := vRunning_step hr
    · exact ih (by simp [vRunning, hb])
    · simp only [vStart, vWait, Bool.and_eq_true, Bool.or_eq_true, Bool.not_eq_true'] at hs
      have hexc : exception c s = false := by
        obtain ⟨⟨⟨⟨⟨-, hb | hn⟩, hnb⟩, -⟩, -⟩, -⟩ := hs
        · simp [hb] at hnb
        · exact hn.1
      rw [exception_eq, Bool.or_eq_false_iff] at hexc
      exact hexc.1
  have hw' : (step c s i).idex.Wf := step_idex_wf hw
  rw [otherException_vec hw hvec] at h0
  rw [otherException_vec hw' (by rw [hx]; exact hvec), hx]
  simp only [Bool.or_eq_false_iff] at h0
  -- only VS and `vtype` could have changed, and they have not
  have hty : (step c s i).vec.vtype = s.vec.vtype := by
    rw [vec_step_eq he]
    exact Vec.step_vtype hid.cfg (by simp [vecInput, hid.csr])
  have hill : vIllegal c (step c s i) = false := by
    have h1 := h0.1.1.2
    simp only [vIllegal, he, ↓reduceIte, hx, relatched, Vec.illegal_congr hty] at h1 ⊢
    cases hon : vsOn s with
    | false =>
      have : Vec.isVec s.idex.instr = false := by simpa [Vec.illegal, hon] using h1
      simp [Vec.illegal, this]
    | true =>
      have : vsOn (step c s i) = true := by
        simp only [vsOn, bne_iff_ne] at hon ⊢
        refine Csr.vs_of_idle _ _ (by simp [Cfg.csr, he]) ?_ hon
        simp [Csr.commit, csrCommand, hid.takeTrap, hid.mret, hid.sret, hid.csr]
      rwa [this, ← hon]
  simp only [relatched, hill, h0, Bool.or_false]

theorem run_otherException (r : Run c) (t : ℕ) :
    vRunning c (r.state t) = true → otherException c (r.state t) = false := by
  induction t with
  | zero =>
    obtain ⟨u, hu⟩ := r.starts
    simp [hu, vRunning, vBusy, vDone, Vec.busy, reset, Vec.reset]
  | succ t ih =>
    rw [r.steps]
    exact otherException_step (run_idex_wf r t) (run_vecHeld r t) ih

theorem run_clean (r : Run c) (t : ℕ) : Vec.Clean (r.state t).vec := by
  refine r.invariant (fun _ => True) (fun s => Vec.Clean s.vec) ?_ ?_ (fun _ => trivial) t
  · rintro s ⟨u, rfl⟩
    intro _
    rfl
  · intro s i _ h
    cases he : c.vExt with
    | false => simpa [machine, step, he] using h
    | true =>
      change Vec.Clean (step c s i).vec
      rw [vec_step_eq he]
      exact h.step

theorem exGo_of_done (hw : s.idex.Wf) (hv : VecHeld c s) (hd : vDone c s = true)
    (hl : i.halt = false) : exGo c s i = true := by
  have hr : vRunning c s = true := by simp [vRunning, hd]
  have hvec := hv.vec hr
  obtain ⟨hmr, hmw, -⟩ := hw.plain (by simp [IdEx.special, hvec])
  have hf : freeze c s i = false := by rw [freeze_of_no_port (mPort_bubble (hv.exmem hr)), hl]
  have hx : exDwalk c s = false := by simp [exDwalk, exXlate, exMem, hmr, hmw]
  have hh : exHold c s i = false := by
    simp [exHold, hx, vWait, hd, fenceiWait, (hw.vec hvec).2.2.2.2]
  simp [exGo, hv.valid hr, hf, hh]

/-- `halt` is the halt register of the SoC: once set it stays set. -/
def HaltLatched (r : Run c) : Prop :=
  ∀ t, (r.input t).halt = true → (r.input (t + 1)).halt = true

theorem HaltLatched.le {r : Run c} (h : HaltLatched r) {t u : ℕ}
    (ht : (r.input t).halt = true) (hu : t ≤ u) : (r.input u).halt = true := by
  induction u, hu using Nat.le_induction with
  | base => exact ht
  | succ u _ ih => exact h u ih

end Unified
end RiscvScratch
