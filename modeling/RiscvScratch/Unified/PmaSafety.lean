import RiscvScratch.Unified.Bench
import RiscvScratch.Unified.VectorHold

/-! Physical memory attributes: all accesses but those of the vector unit are checked before they
reach a port. -/
namespace RiscvScratch.Unified

variable {c : Cfg} {s : State} {i : Input}

structure ExMem.Allowed (c : Cfg) (x : ExMem) : Prop where
  read : x.memRead = true → x.sc = false → c.allowsR x.addr = true
  write : x.memWrite = true ∨ x.sc = true ∨ x.rmw = true → c.allowsW x.addr = true
  rmw : x.rmw = true → x.memRead = true ∧ x.sc = false

theorem ExMem.bubble_allowed (c : Cfg) : ExMem.bubble.Allowed c := by
  constructor <;> simp [ExMem.bubble]

theorem exKeep_no_fault (h : exKeep c s i = true) :
    exDfault c s = false ∧ exDafPma c s = false ∧ exMisal c s = false ∧ exDwalk c s = false := by
  obtain ⟨hg, he, -⟩ := exKeep_inv h
  obtain ⟨-, -, hh⟩ := exGo_inv hg
  simp only [exception, exHold, Bool.or_eq_false_iff] at he hh
  exact ⟨he.1.1.1.1.2, he.1.1.1.2, he.1.1.2, hh.1.1⟩

theorem executed_allowed (hw : s.idex.Wf) (h : exKeep c s i = true) :
    (executed c s i).Allowed c := by
  obtain ⟨hdf, hpma, hmis, hwalk⟩ := exKeep_no_fault h
  have hv := (exGo_inv (exKeep_inv h).1).1
  -- the PMA check of EX, once the other reasons to fault are gone
  have hok : s.idex.memRead = true ∨ s.idex.memWrite = true →
      (needR s = true → c.allowsR (exPa c s) = true) ∧
      (needW s = true → c.allowsW (exPa c s) = true) := by
    intro hm
    have hx : exMem s = true := by simpa [exMem, hv] using hm
    simpa [exDafPma, hx, hmis, hdf, hwalk] using hpma
  constructor
  · intro hr hsc
    exact (hok (.inl hr)).1 (by simp_all [needR, executed])
  · intro hor
    simp only [executed] at hor
    have hm : s.idex.memRead = true ∨ s.idex.memWrite = true := by
      obtain h1 | h1 | h1 := hor
      · exact .inr h1
      · exact .inl (hw.amo (.inr (.inl h1))).1
      · exact .inl (hw.amo (.inr (.inr h1))).1
    exact (hok hm).2 (by simpa [needW, or_assoc] using hor)
  · intro hr
    refine ⟨(hw.amo (.inr (.inr hr))).1, ?_⟩
    by_contra hsc
    simp [executed, hw.amoKind.2 (by simpa [executed] using hsc)] at hr

theorem run_allowed (r : Run c) (t : ℕ) : (r.state t).exmem.Allowed c :=
  run_exmem r (ExMem.bubble_allowed c) (fun t hk => executed_allowed (run_idex_wf r t) hk) t

structure PortsAllowed (c : Cfg) (s : State) (i : Input) : Prop where
  fetch : iReq c s i = true → c.allowsX (iAddr c s) = true
  read : dReq c s i = true → dWe c s = 0#4 → c.allowsR (dAddr c s) = true
  write : dReq c s i = true → dWe c s ≠ 0#4 → c.allowsW (dAddr c s) = true

def VecAllowed (c : Cfg) (s : State) (i : Input) : Prop :=
  vReqG c s i = true →
    if vMemStore c s then c.allowsW (vPa c s) = true else c.allowsR (vPa c s) = true

theorem iReq_allowed (h : iReq c s i = true) : c.allowsX (iAddr c s) = true := by
  simp only [iReq, ifFault, ifAfault, Bool.and_eq_true, Bool.not_eq_true',
    Bool.or_eq_false_iff] at h
  obtain ⟨⟨-, hp, ha, -⟩, hw⟩ := h
  simpa [hp, hw] using ha

theorem vReqG_active (h : vReqG c s i = true) :
    ptwBusy c s = false ∧ vMemActive c s = true := by
  simp only [vReqG, vMemReq, Vec.memReq, Vec.memWant, Bool.and_eq_true, Bool.not_eq_true'] at h
  simp [vMemActive, h]

theorem memBe_ne_zero (vlen : ℕ) (v : Vec.State) (w : Word) : Vec.memBe vlen v w ≠ 0#4 := by
  have hl : Vec.memLane vlen v w < 4 := Nat.mod_lt _ (by decide)
  unfold Vec.memBe
  generalize Vec.memLane vlen v w = k at hl
  dsimp only
  interval_cases k <;> split_ifs <;> decide

theorem stMask_ne_zero (s : State) : stMask s ≠ 0#4 := by
  have hl : ba s < 4 := Nat.mod_lt _ (by decide)
  unfold stMask
  generalize ba s = k at hl
  interval_cases k <;> split_ifs <;> decide

theorem vec_port (h : vReqG c s i = true) :
    dAddr c s = vPa c s ∧ (dWe c s = 0#4 ↔ vMemStore c s = false) := by
  obtain ⟨hb, ha⟩ := vReqG_active h
  refine ⟨by simp [dAddr, hb, ha], ?_⟩
  cases hs : vMemStore c s <;> simp [dWe, hb, ha, hs, memBe_ne_zero]

theorem dReq_cases (hv : VecHeld c s) (h : dReq c s i = true) :
    (ptwBusy c s = true ∧ ptwMemOk c s = true) ∨ vReqG c s i = true ∨
      (mReq c s i = true ∧ ptwBusy c s = false ∧ vMemActive c s = false) := by
  simp only [dReq, Bool.or_eq_true, Bool.and_eq_true] at h
  obtain (h | h) | h := h
  · exact .inl h
  · exact .inr (.inl h)
  · have hm := h
    simp only [mReq, Bool.and_eq_true, Bool.not_eq_true'] at hm
    exact .inr (.inr ⟨h, hm.1.2, hv.not_active hm.1.1⟩)

theorem mem_read_allowed (ha : s.exmem.Allowed c) (hp : mPort s = true) (hw : mWrite s = false) :
    c.allowsR s.exmem.addr = true := by
  simp only [mWrite, Bool.or_eq_false_iff] at hw
  simp only [mPort, hw.1, Bool.or_false, mLoad, Bool.or_eq_true, Bool.and_eq_true,
    Bool.not_eq_true'] at hp
  obtain h | h := hp
  · exact ha.read h.1.1 h.1.2
  · exact ha.read (ha.rmw h).1 (ha.rmw h).2

theorem mem_write_allowed (ha : s.exmem.Allowed c) (hw : mWrite s = true) :
    c.allowsW s.exmem.addr = true := by
  apply ha.write
  simp only [mWrite, mStore, scOk, Bool.or_eq_true, Bool.and_eq_true] at hw
  tauto

theorem mem_port (hb : ptwBusy c s = false) (ha : vMemActive c s = false) :
    (dWe c s = 0#4 ↔ mWrite s = false) ∧ dAddr c s = s.exmem.addr := by
  refine ⟨?_, by simp [dAddr, hb, ha]⟩
  cases hw : mWrite s
  · simp [dWe, hb, ha, hw]
  · cases hr : s.exmem.rmw <;> simp [dWe, hb, ha, hw, hr, stMask_ne_zero]

theorem portsAllowed_of_vec (hv : VecHeld c s) (ha : s.exmem.Allowed c)
    (h : VecAllowed c s i) : PortsAllowed c s i := by
  refine ⟨iReq_allowed, fun hd he => ?_, fun hd he => ?_⟩
  · obtain ⟨hb, hok⟩ | hvr | ⟨hm, hb, hact⟩ := dReq_cases hv hd
    · simpa [dAddr, hb, ptwMemOk] using hok
    · obtain ⟨haddr, hwe⟩ := vec_port hvr
      have := h hvr
      rwa [hwe.mp he, if_neg (by simp), ← haddr] at this
    · obtain ⟨hwe, haddr⟩ := mem_port hb hact
      simp only [mReq, Bool.and_eq_true] at hm
      rw [haddr]
      exact mem_read_allowed ha hm.1.1 (hwe.mp he)
  · obtain ⟨hb, -⟩ | hvr | ⟨hm, hb, hact⟩ := dReq_cases hv hd
    · simp [dWe, hb] at he
    · obtain ⟨haddr, hwe⟩ := vec_port hvr
      have hst : vMemStore c s = true := by
        by_contra hn
        exact he (hwe.mpr (by simpa using hn))
      have := h hvr
      rwa [if_pos hst, ← haddr] at this
    · obtain ⟨hwe, haddr⟩ := mem_port hb hact
      rw [haddr]
      apply mem_write_allowed ha
      by_contra hn
      exact he (hwe.mpr (by simpa using hn))

theorem vec_of_portsAllowed (h : PortsAllowed c s i) : VecAllowed c s i := by
  intro hvr
  obtain ⟨haddr, hwe⟩ := vec_port hvr
  have hd : dReq c s i = true := by simp [dReq, hvr]
  rw [← haddr]
  cases hst : vMemStore c s with
  | false => exact h.read hd (hwe.mpr hst)
  | true => exact h.write hd fun h0 => by simp [hwe.mp h0] at hst

/-- Every access of a run respects the regions exactly when every element access of the
vector unit does. -/
theorem ports_allowed_iff (c : Cfg) (r : Run c) :
    (∀ t, PortsAllowed c (r.state t) (r.input t)) ↔
      ∀ t, VecAllowed c (r.state t) (r.input t) :=
  ⟨fun h t => vec_of_portsAllowed (h t),
    fun h t => portsAllowed_of_vec (run_vecHeld r t) (run_allowed r t) (h t)⟩

/-- One region of 4 KiB at address 0, vectors on. -/
def strayCfg : Cfg :=
  { Cfg.bare with vExt := true, pmaN := 1, pmaSize := fun _ => 0x1000#32,
                  pmaAttr := fun _ => 0b111#3 }

/-- Turns the vector unit on and stores one element at `0x2000`, outside the region. -/
def strayImage (a : Word) : Word :=
  match a with
  | 0x00#32 => 0x60000093#32 -- addi x1, x0, 0x600
  | 0x04#32 => 0x30009073#32 -- csrw mstatus, x1
  | 0x08#32 => 0xC100F057#32 -- vsetivli x0, 1, e32, m1
  | 0x0C#32 => 0x00002137#32 -- lui x2, 2
  | 0x10#32 => 0x02016027#32 -- vse32.v v0, (x2)
  | _ => nop

def strayRun : Run strayCfg := benchRun strayCfg strayImage (fun _ => true) (fun _ => true)

theorem vector_store_escapes :
    0 < strayCfg.pmaN ∧ ¬ PortsAllowed strayCfg (strayRun.state 8) (strayRun.input 8) := by
  refine ⟨by decide, fun h => ?_⟩
  have hd : dReq strayCfg (strayRun.state 8) (strayRun.input 8) = true := by decide +kernel
  have hw : dWe strayCfg (strayRun.state 8) ≠ 0#4 := by decide +kernel
  have ha : strayCfg.allowsW (dAddr strayCfg (strayRun.state 8)) = false := by decide +kernel
  simp [h.write hd hw] at ha

end RiscvScratch.Unified
