import RiscvScratch.Unified.MachineMode
import RiscvScratch.Unified.PreciseTrap

/-! What leaves MEM: the value for WB, the write on the D-port and the reservation, whenever the
port answers. -/
namespace RiscvScratch.Unified

variable {c : Cfg} {s : State} {i : Input} {m : Ram} {a : Arch}

structure ExMem.Wf (x : ExMem) : Prop where
  load : x.wbSel = .mem → x.memRead = true
  read : x.memRead = true → x.memWrite = false
  amo : x.lr = true ∨ x.sc = true ∨ x.rmw = true → x.memRead = true ∧ x.memWrite = false
  lr : x.lr = true → x.sc = false ∧ x.rmw = false
  sc : x.sc = true → x.rmw = false

theorem ExMem.bubble_wf : ExMem.bubble.Wf := by
  constructor <;> simp [ExMem.bubble]

theorem executed_wf (h : s.idex.Wf) : (executed c s i).Wf where
  load hx := by
    cases hc : s.idex.isCsr with
    | true => simp [executed, hc] at hx
    | false => exact h.wbSel.mp (by simpa [executed, hc] using hx)
  read hx := (h.memRead hx).2
  amo := h.amo
  lr := h.amoKind.1
  sc := h.amoKind.2

theorem run_exmem_wf (r : Run c) (t : ℕ) : (r.state t).exmem.Wf :=
  run_exmem r ExMem.bubble_wf (fun t _ => executed_wf (run_idex_wf r t)) t

/-- The memory behind the D-port answers reads with its contents. -/
def Backed (c : Cfg) (s : State) (i : Input) (m : Ram) : Prop :=
  dReq c s i = true → i.dReady = true → dWe c s = 0#4 → i.dRdata = m.load (dAddr c s)

def AmoHeld (s : State) (m : Ram) : Prop :=
  s.amoPh = true → s.exmem.rmw = true ∧ s.amoOld = m.load s.exmem.addr

theorem mStore_of_rmw (h : s.exmem.Wf) (hr : s.exmem.rmw = true) : mStore s = false := by
  have hs : s.exmem.sc = false := by
    by_contra hs
    simp [h.sc (Bool.eq_true_of_not_eq_false hs)] at hr
  simp [mStore, scOk, hs, (h.amo (.inr (.inr hr))).2]

theorem mLoad_dWe (hp : Plain c s) (h : s.exmem.Wf) (hl : mLoad s = true) : dWe c s = 0#4 := by
  have hx : s.exmem.memRead = true ∧ s.exmem.sc = false ∧ s.exmem.rmw = false := by
    simpa [mLoad, and_assoc] using hl
  rw [hp.dWe]
  simp [mWrite, mStore, scOk, hx, h.read hx.1]

section leave
variable (hp : Plain c s) (hw : s.exmem.Wf) (hf : freeze c s i = false)
include hp hw hf

theorem read_of_leave (hb : Backed c s i m) (hl : mLoad s = true) :
    i.dRdata = m.load s.exmem.addr := by
  obtain ⟨hd, -⟩ := last_of_leave hf (by simp [mPort, hl])
  have hq : mReq c s i = true ∧ i.dReady = true := by simpa [mDone] using hd
  have := hb (by rw [hp.dReq]; exact hq.1) hq.2 (mLoad_dWe hp hw hl)
  rwa [hp.dAddr] at this

theorem memwbValue_eq (hb : Backed c s i m) (ha : AmoHeld s m) :
    memwbValue s i = drainValue s m := by
  simp only [drainValue_eq, memwbValue, memValue]
  split_ifs with hsel hsc _ hrmw
  · rfl
  · rfl
  · obtain ⟨-, hl⟩ := last_of_leave hf (by simp [mPort, hrmw])
    have hph : s.amoPh = true := by simpa [mLast, hrmw] using hl
    exact (ha hph).2
  · have hd : i.dRdata = m.load s.exmem.addr :=
      read_of_leave hp hw hf hb (by simp [mLoad, hw.load hsel, hsc, hrmw])
    simp only [loadVal, hd, quietInput]
  · rfl

theorem accepted_leave (ha : AmoHeld s m) : accepted c s i = pendingWrite s m := by
  have hq : mPort s = true → (dReq c s i && i.dReady) = true ∧ mLast s = true := by
    intro h
    obtain ⟨hd, hl⟩ := last_of_leave hf h
    rw [hp.dReq]
    exact ⟨hd, hl⟩
  simp only [accepted, pendingWrite, hp.dWe, hp.dAddr, hp.dWdata]
  cases hr : s.exmem.rmw with
  | true =>
    obtain ⟨hd, hl⟩ := hq (by simp [mPort, hr])
    have hph : s.amoPh = true := by simpa [mLast, hr] using hl
    simp [mWrite, mStore_of_rmw hw hr, hr, hph, hd, amoNew, (ha hph).2]
  | false =>
    cases hs : mStore s with
    | true =>
      obtain ⟨hd, -⟩ := hq (by simp [mPort, hs])
      simp [mWrite, hs, hd, stMask_ne_zero]
    | false => simp [mWrite, hs, hr]

omit hp in
theorem resv_leave : resvOf (step c s i) = if takeTrap c s i then none else drainResv s := by
  have hv : (step c s i).resvValid = nextResvValid c s i := rfl
  have ha : (step c s i).resvAddr =
      if !takeTrap c s i && s.exmem.lr && mDone c s i then s.exmem.addr else s.resvAddr := rfl
  rw [resvOf, hv, ha, drainResv, nextResvValid]
  by_cases ht : takeTrap c s i = true
  · simp [ht]
  · by_cases hl : s.exmem.lr = true
    · have hload : mLoad s = true := by simp [mLoad, hw.lr hl, (hw.amo (.inl hl)).1]
      obtain ⟨hd, -⟩ := last_of_leave hf (by simp [mPort, hload])
      simp [ht, hl, hd]
    · by_cases hx : (s.exmem.sc || s.exmem.rmw) = true
      · simp [ht, hl, hx, hf]
      · simp [ht, hl, hx, resvOf]

end leave

theorem frozen_done (hf : freeze c s i = true) (hd : mDone c s i = true) :
    s.exmem.rmw = true ∧ s.amoPh = false := by
  by_contra h
  have hl : mLast s = true := by
    cases hr : s.exmem.rmw <;> cases ha : s.amoPh <;> simp_all [mLast]
  simp [freeze_of_last hd hl] at hf

section frozen
variable (hp : Plain c s) (hw : s.exmem.Wf) (hf : freeze c s i = true)
include hp hw hf

theorem accepted_frozen : accepted c s i = [] := by
  unfold accepted
  rw [hp.dReq]
  cases hd : (mReq c s i && i.dReady) with
  | false => simp
  | true =>
    obtain ⟨hr, hph⟩ := frozen_done hf hd
    simp [hp.dWe, mWrite, mStore_of_rmw hw hr, hph]

theorem amoHeld_frozen (hb : Backed c s i m) (ha : AmoHeld s m)
    (hx : (step c s i).exmem = s.exmem) : AmoHeld (step c s i) m := by
  intro hph
  rw [hx]
  cases hd : mDone c s i with
  | false =>
    have h1 : (step c s i).amoOld = s.amoOld := by simp [step, hd]
    rw [h1]
    exact ha (by simpa [step, nextAmoPh, hd] using hph)
  | true =>
    obtain ⟨hr, h0⟩ := frozen_done hf hd
    have h1 : (step c s i).amoOld = i.dRdata := by simp [step, hd, hr, h0]
    have hq : mReq c s i = true ∧ i.dReady = true := by simpa [mDone] using hd
    have hwe : dWe c s = 0#4 := by simp [hp.dWe, mWrite, mStore_of_rmw hw hr, h0]
    have := hb (by rw [hp.dReq]; exact hq.1) hq.2 hwe
    rw [hp.dAddr] at this
    exact ⟨hr, h1.trans this⟩

omit hp in
theorem resv_frozen : (step c s i).resvValid = s.resvValid ∧
    (step c s i).resvAddr = s.resvAddr := by
  have hlr : (s.exmem.lr && mDone c s i) = false := by
    by_contra h
    have h := Bool.eq_true_of_not_eq_false h
    simp only [Bool.and_eq_true] at h
    have hr := (frozen_done hf h.2).1
    simp [(hw.lr h.1).2] at hr
  have ht := (idle_of_not_exGo (not_exGo_of_freeze hf)).takeTrap
  constructor
  · simp [step, nextResvValid, ht, hlr, hf]
  · simp [step, ht, hlr]

end frozen

theorem step_regs : (step c s i).regs = s.regs.write s.memwb.regWrite s.memwb.rd s.memwb.data := rfl

/-- What the rest of the pipe still has to do leads to the state of `a`. -/
structure MemSide (s : State) (m : Ram) (a : Arch) : Prop where
  regs : archRegs s m = a.regs
  ram : m.after (pendingWrite s m) = a.ram
  resv : drainResv s = a.resv
  amo : AmoHeld s m

structure Drained (s : State) (m : Ram) (regs : Regs) (ram : Ram) (resv : Option Word) : Prop where
  regs : s.regs.write s.memwb.regWrite s.memwb.rd s.memwb.data = regs
  ram : m = ram
  resv : resvOf s = resv
  amo : s.amoPh = false

structure SameMem (s e : State) (v : Word) : Prop where
  exmem : s.exmem = { e.exmem with result := v }
  resv : resvOf s = resvOf e

theorem scOk_eq : scOk s = (s.exmem.sc && decide (resvOf s = some s.exmem.addr)) := by
  unfold scOk resvOf
  cases s.resvValid <;> simp [Bool.beq_eq_decide_eq]

namespace SameMem
variable {e : State} {v : Word}

section
variable (h : SameMem s e v)
include h

theorem mStore : mStore s = mStore e := by
  simp only [Unified.mStore, scOk_eq, h.resv, h.exmem]

theorem pendingWrite : pendingWrite s m = pendingWrite e m := by
  simp only [Unified.pendingWrite, h.mStore, stMask, stData, ba, h.exmem]

theorem drainResv : drainResv s = drainResv e := by
  simp only [Unified.drainResv, h.resv, h.exmem]

theorem drainValue (hv : v = e.exmem.result) :
    drainValue s m = drainValue e m := by
  simp only [drainValue_eq, scOk_eq, loadVal, ba, h.resv, h.exmem, hv]

theorem write_eq (hv : v = e.exmem.result ∨ e.exmem.rd = 0#5) (regs : Regs) :
    regs.write s.exmem.regWrite s.exmem.rd (Unified.drainValue s m) =
      regs.write e.exmem.regWrite e.exmem.rd (Unified.drainValue e m) := by
  obtain hv | h0 := hv
  · rw [h.drainValue hv, h.exmem]
  · rw [h.exmem]
    simp [h0]

theorem event_eq (hv : v = e.exmem.result ∨ e.exmem.rd = 0#5) :
    regWriteEvent s.exmem.regWrite s.exmem.rd (Unified.drainValue s m) =
      regWriteEvent e.exmem.regWrite e.exmem.rd (Unified.drainValue e m) := by
  obtain hv | h0 := hv
  · rw [h.drainValue hv, h.exmem]
  · rw [h.exmem]
    simp [regWriteEvent, h0]

end

end SameMem

theorem MemSide.frozen (h : MemSide s m a) (hp : Plain c s) (hw : s.exmem.Wf)
    (hf : freeze c s i = true) (hb : Backed c s i m) : MemSide (step c s i) m a := by
  obtain ⟨hv, hr⟩ := resv_frozen hw hf
  have hx : (step c s i).exmem = s.exmem := by simp [step, nextExmem, hf]
  have hm : (step c s i).memwb = MemWb.bubble := by simp [step, nextMemwb, hf]
  have hs : SameMem (step c s i) s s.exmem.result := by
    refine ⟨hx, ?_⟩
    rw [resvOf, hv, hr, resvOf]
  constructor
  · rw [← h.regs, archRegs, archRegs, hs.drainValue rfl, hm, hx, step_regs]
    simp [MemWb.bubble]
  · rw [hs.pendingWrite, h.ram]
  · rw [hs.drainResv, h.resv]
  · exact amoHeld_frozen hp hw hf hb h.amo hx

theorem MemSide.leave (h : MemSide s m a) (hp : Plain c s) (hw : s.exmem.Wf)
    (hf : freeze c s i = false) (hb : Backed c s i m) :
    Drained (step c s i) (m.after (accepted c s i)) a.regs a.ram
      (if takeTrap c s i then none else a.resv) where
  regs := by
    have hm : (step c s i).memwb = retired s i := by simp [step, nextMemwb, hf, retired]
    rw [hm, step_regs, ← h.regs, archRegs, ← memwbValue_eq hp hw hf hb h.amo]
    rfl
  ram := by rw [accepted_leave hp hw hf h.amo, h.ram]
  resv := by rw [resv_leave hw hf, h.resv]
  amo := amoPh_leave hf fun hp => (h.amo hp).1

theorem Drained.bubble (h : Drained s m a.regs a.ram a.resv) (hx : s.exmem = ExMem.bubble) :
    MemSide s m a where
  regs := by rw [archRegs, hx, h.regs]; rfl
  ram := by simp [pendingWrite, mStore, scOk, hx, ExMem.bubble, h.ram]
  resv := by simp [drainResv, hx, ExMem.bubble, h.resv]
  amo hph := by simp [h.amo] at hph

end RiscvScratch.Unified
