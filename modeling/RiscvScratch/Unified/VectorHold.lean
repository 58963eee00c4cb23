import RiscvScratch.Unified.Decoded

/-! A running vector instruction owns EX and finds MEM empty. -/
namespace RiscvScratch

namespace Vec
variable (vlen : ℕ) (s : State) (i : Input)

theorem coreWrites_fsm : (coreWrites vlen s i).fsm = s.fsm := by
  unfold coreWrites
  dsimp only
  split_ifs <;> rfl

theorem step_done : (step vlen s i).done = (s.fsm == .done) := by
  unfold step sequence
  cases hf : s.fsm with
  | idle => simp only [onStart]; split_ifs <;> rfl
  | init => rfl
  | run => simp only [onRun]; split_ifs <;> rfl
  | final => simp only [onFinal]; split_ifs <;> rfl
  | done => rfl

theorem step_fsm_idle (hf : s.fsm = .idle) :
    (step vlen s i).fsm = if i.start then .init else .idle := by
  cases hs : i.start <;> simp [step, sequence, hf, hs, onStart, coreWrites_fsm]

theorem sequence_run (hf : s.fsm = .run) :
    sequence vlen s i = onRun vlen s { coreWrites vlen s i with done := false } i := by
  unfold sequence
  rw [hf]

theorem step_fsm_done (hf : s.fsm = .done) : (step vlen s i).fsm = .idle := by
  simp [step, sequence, hf, onDone]

end Vec

namespace Unified
variable {c : Cfg} {s : State} {i : Input}

def vRunning (c : Cfg) (s : State) : Bool := vBusy c s || vDone c s

structure VecHeld (c : Cfg) (s : State) : Prop where
  exmem : vRunning c s = true → s.exmem = ExMem.bubble
  valid : vRunning c s = true → s.idex.valid = true
  vec : vRunning c s = true → s.idex.vec = true
  notCfg : vRunning c s = true → vIsCfg c s = false
  notDone : vBusy c s = true → vDone c s = false

theorem VecHeld.wait (h : VecHeld c s) (hb : vBusy c s = true) : vWait c s i = true := by
  have hr : vRunning c s = true := by simp [vRunning, hb]
  simp [vWait, h.valid hr, h.vec hr, h.notCfg hr, h.notDone hb, hb]

theorem exHold_of_wait (h : vWait c s i = true) : exHold c s i = true := by simp [exHold, h]

theorem mPort_bubble (h : s.exmem = ExMem.bubble) : mPort s = false := by
  simp [mPort, mLoad, mStore, scOk, h, ExMem.bubble]

theorem valid_of_port (r : Run c) {t : ℕ} (h : mPort (r.state t) = true) :
    (r.state t).exmem.valid = true := by
  obtain hv | hv := run_exmem_bubble r t
  · exact hv
  · simp [mPort_bubble hv] at h

theorem freeze_of_no_port (h : mPort s = false) : freeze c s i = i.halt := by
  simp [freeze, h]

theorem vRunning_step (h : vRunning c (step c s i) = true) :
    vBusy c s = true ∨ vStart c s i = true := by
  cases hv : c.vExt with
  | false => simp [vRunning, vBusy, vDone, hv] at h
  | true =>
    have hvec : (step c s i).vec = Vec.step c.vlen s.vec (vecInput c s i) := by
      simp [step, hv]
    simp only [vRunning, vBusy, vDone, Vec.busy, hv, Bool.true_and, hvec, Vec.step_done] at h
    by_cases hf : s.vec.fsm = .idle
    · right
      cases hs : vStart c s i with
      | true => rfl
      | false => simp [Vec.step_fsm_idle _ _ _ hf, hf, vecInput, hs] at h
    · left
      simp [vBusy, Vec.busy, hv, hf]

theorem VecHeld.keeps (h : VecHeld c s) (hr : vRunning c (step c s i) = true) :
    exHold c s i = true ∧ (step c s i).exmem = ExMem.bubble ∧ (step c s i).idex = relatched s ∧
      s.idex.valid = true ∧ s.idex.vec = true ∧ vIsCfg c s = false := by
  have hwait : vWait c s i = true := by
    obtain hb | hs := vRunning_step hr
    · exact h.wait hb
    · simp only [vStart, Bool.and_eq_true] at hs
      exact hs.1.1.1.1
  have hh := exHold_of_wait hwait
  have hx := hwait
  simp only [vWait, Bool.and_eq_true, Bool.not_eq_true'] at hx
  obtain ⟨-, hid, ⟨hf, he, -⟩ | ⟨-, he, -⟩⟩ := stays_move (.inr hh)
  · refine ⟨hh, ?_, hid, hx.1.1.1.1, hx.1.1.1.2, hx.1.1.2⟩
    obtain hb | hs := vRunning_step hr
    · rw [he, h.exmem (by simp [vRunning, hb])]
    · simp only [vStart, Bool.and_eq_true, Bool.not_eq_true'] at hs
      simp [freeze_of_no_port hs.1.1.2, hs.2] at hf
  · exact ⟨hh, he, hid, hx.1.1.1.1, hx.1.1.1.2, hx.1.1.2⟩

theorem VecHeld.step (h : VecHeld c s) : VecHeld c (step c s i) := by
  constructor
  case exmem => exact fun hr => (h.keeps hr).2.1
  case valid =>
    intro hr
    obtain ⟨-, -, hx, hv, -⟩ := h.keeps hr
    rwa [hx]
  case vec =>
    intro hr
    obtain ⟨-, -, hx, -, hv, -⟩ := h.keeps hr
    rwa [hx]
  case notCfg =>
    intro hr
    obtain ⟨-, -, hx, -, -, hn⟩ := h.keeps hr
    simpa [vIsCfg, hx, relatched] using hn
  case notDone =>
    intro hb
    cases hv : c.vExt with
    | false => simp [vDone, hv]
    | true =>
      simp only [vBusy, vDone, Vec.busy, hv, Unified.step, ↓reduceIte, Bool.true_and,
        Vec.step_done] at hb ⊢
      by_contra hd
      have hf : s.vec.fsm = .done := by simpa using hd
      simp [Vec.step_fsm_done _ _ _ hf] at hb

theorem VecHeld.reset (c : Cfg) (u : State) : VecHeld c (Unified.reset c u) := by
  constructor <;> simp [vRunning, vBusy, vDone, Vec.busy, Unified.reset, Vec.reset]

theorem run_vecHeld {c : Cfg} (r : Run c) (t : ℕ) : VecHeld c (r.state t) := by
  refine r.invariant (fun _ => True) (VecHeld c) ?_ ?_ (fun _ => trivial) t
  · rintro s ⟨u, rfl⟩
    exact VecHeld.reset c u
  · intro s i _ h
    exact h.step

theorem vMemActive_busy (h : vMemActive c s = true) : vBusy c s = true := by
  simp only [vMemActive, Vec.memActive, Bool.and_eq_true] at h
  simp [vBusy, h]

theorem VecHeld.not_active (h : VecHeld c s) (hp : mPort s = true) : vMemActive c s = false := by
  by_contra ha
  have hb := vMemActive_busy (Bool.eq_true_of_not_eq_false ha)
  have he := h.exmem (by simp [vRunning, hb])
  simp [mPort_bubble he] at hp

end Unified
end RiscvScratch
