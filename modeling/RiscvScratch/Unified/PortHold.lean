import RiscvScratch.Unified.PmaSafety
import RiscvScratch.Unified.VectorFetch

/-! Does a request that waits on the D-port stay? It does but for the level-1 address, which is
formed from the live `satp` that EX may write while the read waits. -/
namespace RiscvScratch.Unified

variable {c : Cfg} {s s' : State} {i i' : Input}

structure SameRequest (c : Cfg) (s s' : State) (i' : Input) : Prop where
  req : dReq c s' i' = true
  addr : dAddr c s' = dAddr c s
  we : dWe c s' = dWe c s
  wdata : dWe c s ≠ 0#4 → dWdata c s' = dWdata c s

/-- A request that `d_ready` does not answer is made again in the next cycle. -/
def PortHolds (c : Cfg) (r : Run c) (t : ℕ) : Prop :=
  dReq c (r.state t) (r.input t) = true → (r.input t).dReady = false →
    SameRequest c (r.state t) (r.state (t + 1)) (r.input (t + 1))

/-- A CSR write moves the root table while the level-1 read of a walk waits on the port. -/
def RootMoves (c : Cfg) (s : State) (i : Input) : Prop :=
  ptwBusy c s = true ∧ s.ptw.fsm = .l1 ∧ ptwMemOk c s = true ∧ i.dReady = false ∧
    csrCommit c s i = true ∧ s.idex.csrAddr = Csr.satpA ∧
    (satpNew s).extractLsb' 0 20 ≠ s.csr.satp.extractLsb' 0 20

instance (c : Cfg) (s : State) (i : Input) : Decidable (RootMoves c s i) :=
  inferInstanceAs (Decidable (_ ∧ _ ∧ _ ∧ _ ∧ _ ∧ _ ∧ _))

theorem memAddr_congr {p p' : Ptw.State} {w w' : Word} (hf : p'.fsm = p.fsm) (hv : p'.va = p.va)
    (hl : p'.l0Ppn = p.l0Ppn)
    (hw : p.fsm = .l1 → w'.extractLsb' 0 20 = w.extractLsb' 0 20) :
    Ptw.memAddr p' w' = Ptw.memAddr p w := by
  unfold Ptw.memAddr
  cases h : p.fsm with
  | idle => rw [hf, h]
  | l1 => rw [hf, h, hv]; dsimp only; rw [hw h]
  | l0 => rw [hf, h, hv, hl]

theorem memAddr_l1_ne {p p' : Ptw.State} {w w' : Word} (h1 : p.fsm = .l1) (hf : p'.fsm = p.fsm)
    (hv : p'.va = p.va) (hw : w'.extractLsb' 0 20 ≠ w.extractLsb' 0 20) :
    Ptw.memAddr p' w' ≠ Ptw.memAddr p w := by
  unfold Ptw.memAddr
  rw [hf, h1, hv]
  dsimp only
  intro he
  have hb := (BitVec.add_left_inj _).mp he
  apply hw
  have hx := congrArg (fun x : BitVec (20 + 12) => x.extractLsb' 12 20) hb
  rwa [BitVec.extractLsb'_append_eq_left, BitVec.extractLsb'_append_eq_left] at hx

theorem walk_waits (hb : ptwBusy c s = true) (hok : ptwMemOk c s = true)
    (hr : i.dReady = false) :
    (step c s i).ptw.fsm = s.ptw.fsm ∧ (step c s i).ptw.va = s.ptw.va ∧
      (step c s i).ptw.l0Ppn = s.ptw.l0Ppn ∧ ptwBusy c (step c s i) = true := by
  obtain ⟨hm, hpb⟩ := ptwBusy_mmu hb
  obtain ⟨h1, h2, h3, -⟩ := Ptw.step_wait c.svade (i := ptwInput c s i) hpb hr hok
  rw [← ptw_step (i := i) hm] at h1 h2 h3
  refine ⟨h1, h2, h3, ?_⟩
  simpa [ptwBusy, hm, Ptw.busy, h1] using hpb

theorem walker_holds (hb : ptwBusy c s = true) (hok : ptwMemOk c s = true)
    (hr : i.dReady = false) (hn : ¬ RootMoves c s i) :
    SameRequest c s (step c s i) i' := by
  obtain ⟨hm, -⟩ := ptwBusy_mmu hb
  obtain ⟨hf, hv, hl, hb'⟩ := walk_waits (i := i) hb hok hr
  have hroot : s.ptw.fsm = .l1 →
      (step c s i).csr.satp.extractLsb' 0 20 = s.csr.satp.extractLsb' 0 20 := by
    intro h1
    by_cases hs : (step c s i).csr.satp = s.csr.satp
    · rw [hs]
    · obtain ⟨hc, ha, hx⟩ := satp_moves hs
      rw [hx]
      by_contra hne
      exact hn ⟨hb, h1, hok, hr, hc, ha, hne⟩
  have haddr : ptwAddr c (step c s i) = ptwAddr c s := by
    simp only [ptwAddr, hm, ↓reduceIte, satpVal_mmu hm]
    exact memAddr_congr hf hv hl hroot
  have hok' : ptwMemOk c (step c s i) = true := by rwa [ptwMemOk, haddr]
  exact ⟨by simp [dReq, hb', hok'], by simp [dAddr, hb, hb', haddr], by simp [dWe, hb, hb'],
    fun h => by simp [dWe, hb] at h⟩

theorem walker_jumps (hw : s.idex.Wf) (h : RootMoves c s i) :
    dReq c s i = true ∧ dAddr c (step c s i) ≠ dAddr c s := by
  obtain ⟨hb, h1, hok, hr, hc, ha, hne⟩ := h
  obtain ⟨hm, -⟩ := ptwBusy_mmu hb
  obtain ⟨hf, hv, -, hb'⟩ := walk_waits (i := i) hb hok hr
  refine ⟨by simp [dReq, hb, hok], ?_⟩
  simp only [dAddr, hb, hb', ↓reduceIte, ptwAddr, hm, satpVal_mmu hm]
  apply memAddr_l1_ne h1 hf hv
  rwa [csrCommit_satp hw hm hc ha]

theorem ptwBusy_stays_idle (hb : ptwBusy c s = false) (hd : ptwStartD c s i = false)
    (hi : ptwStartI c s i = false) : ptwBusy c (step c s i) = false := by
  cases hm : c.mmu with
  | false => simp [ptwBusy, hm]
  | true =>
    have hf : s.ptw.fsm = .idle := by simpa [ptwBusy, Ptw.busy, hm] using hb
    simp [ptwBusy, hm, ptw_step hm, Ptw.busy,
      Ptw.step_idle c.svade (i := ptwInput c s i) hf hd hi]

theorem vec_holds (hw : s.idex.Wf) (hv : VecHeld c s) (hq : FetchQuiet c s)
    (hreq : vReqG c s i = true) (hr : i.dReady = false) (hl : i'.halt = false) :
    SameRequest c s (step c s i) i' := by
  have hx := hreq
  simp only [vReqG, vMemReq, Vec.memReq, Bool.and_eq_true, Bool.not_eq_true'] at hx
  obtain ⟨⟨⟨hext, ⟨hwant, hok⟩, hnf⟩, hb⟩, hlt⟩ := hx
  have hwant : vMemWant c s = true := by simp [vMemWant, hext, hwant]
  have hact := vMemWant_active hwant
  have hbusy := vMemActive_busy hact
  have hc := VecCycle.of_busy (i := i) hw hv hbusy hlt
  have hmode := hc.idle.sameMode
  have hdone : vMemDone c s i = false := by simp [vMemDone, hr]
  have hel : SameElement c s (step c s i) :=
    .of_eq (vec_stuck hc.idle (vBusy_not_done hv hbusy) hwant hnf hdone) hc.instr
  have hdt := dtlb_hold hc.idle (no_fill_of_idle false hb)
  -- the element hits or is not translated, and IF has nothing to walk for
  have hb' : ptwBusy c (step c s i) = false := by
    apply ptwBusy_stays_idle hb
    · rw [← show (ptwInput c s i).startD = ptwStartD c s i from rfl, hc.starts.1]
      by_contra hvw
      obtain ⟨-, hon, hmiss, -⟩ := vWalk_inv (Bool.eq_true_of_not_eq_false hvw)
      simp [vXlOk, hon, hmiss] at hok
    · rw [← show (ptwInput c s i).startI = ptwStartI c s i from rfl, hc.starts.2]
      by_contra hiw
      simp [(hq.idle hbusy hb (Bool.eq_true_of_not_eq_false hiw)).2] at hnf
  have hact' : vMemActive c (step c s i) = true := by rw [hel.active, hact]
  have hon := vmOn_congr (c := c) hmode
  have htr : vmOn c s = true → dtlb c (step c s i) = dtlb c s :=
    fun h => dtlb_congr hel hact hdt (vmOn_mmu h)
  have hpa : vPa c (step c s i) = vPa c s := by
    cases hv : vmOn c s with
    | false => simp [vPa, hon, hv, hel.va]
    | true => simp [vPa, hon, hv, htr hv]
  have hxl : vXlOk c (step c s i) = true ∧ vXlFault c (step c s i) = false := by
    cases hv : vmOn c s with
    | false => simp [vXlOk, vXlFault, hon, hv]
    | true =>
      have hp := vPermOk_congr hel hmode (htr hv)
      simp only [vXlOk, hv, Bool.not_true, Bool.false_or, Bool.and_eq_true] at hok
      simp [vXlOk, vXlFault, hon, hv, htr hv, hp, hok]
  have hreq' : vReqG c (step c s i) i' = true := by
    have hw' : vMemWant c (step c s i) = true := by rw [hel.want, hwant]
    simp only [vMemWant, Bool.and_eq_true] at hw'
    simp [vReqG, vMemReq, Vec.memReq, hw', hxl, hb', hl]
  refine ⟨by simp [dReq, hreq'], by simp [dAddr, hb, hb', hact, hact', hpa], ?_, fun _ => ?_⟩
  · simp [dWe, hb, hb', hact, hact', hel.store, hel.be]
  · simp [dWdata, hact, hact', hel.wdata]

theorem mem_holds (hv' : VecHeld c (step c s i)) (hreq : mReq c s i = true)
    (hact : vMemActive c s = false) (hr : i.dReady = false) (hl : i'.halt = false) :
    SameRequest c s (step c s i) i' := by
  have hx := hreq
  simp only [mReq, Bool.and_eq_true, Bool.not_eq_true'] at hx
  obtain ⟨⟨hp, hb⟩, -⟩ := hx
  have hnd : mDone c s i = false := by simp [mDone, hr]
  have hf : freeze c s i = true := by simp [freeze, hp, hnd]
  have hid := idle_of_not_exGo (not_exGo_of_freeze hf)
  have he : (step c s i).exmem = s.exmem := by simp [step, nextExmem, hf]
  have hsc : scOk (step c s i) = scOk s := by
    simp [scOk, step, nextExmem, nextResvValid, hid.takeTrap, hnd, hf]
  have hph : (step c s i).amoPh = s.amoPh := by simp [step, nextAmoPh, hnd]
  have hold : (step c s i).amoOld = s.amoOld := by simp [step, hnd]
  have hp' : mPort (step c s i) = true := by
    rw [← hp]
    simp only [mPort, mLoad, mStore, he, hsc]
  have hb' : ptwBusy c (step c s i) = false := by
    apply ptwBusy_stays_idle hb <;> simp [ptwStartD, ptwStartI, hp]
  have hact' := hv'.not_active hp'
  refine ⟨by simp [dReq, mReq, hp', hb', hl], by simp [dAddr, hb, hb', hact, hact', he], ?_,
    fun _ => ?_⟩
  · simp [dWe, hb, hb', hact, hact', mWrite, mStore, hsc, he, hph, stMask, ba]
  · simp [dWdata, hact, hact', amoNew, stData, ba, he, hold]

theorem step_holds (hw : s.idex.Wf) (hv : VecHeld c s) (hv' : VecHeld c (step c s i))
    (hq : FetchQuiet c s) (hl : i'.halt = false) (hn : ¬ RootMoves c s i)
    (hd : dReq c s i = true) (hr : i.dReady = false) : SameRequest c s (step c s i) i' := by
  obtain ⟨hb, hok⟩ | hvr | ⟨hm, -, hact⟩ := dReq_cases hv hd
  · exact walker_holds hb hok hr hn
  · exact vec_holds hw hv hq hvr hr hl
  · exact mem_holds hv' hm hact hr hl

/-- With `halt` low every waiting request stays on the D-port exactly when no CSR write moves the
root table under a level-1 read. -/
theorem port_holds_iff (c : Cfg) (r : Run c) (hl : ∀ t, (r.input t).halt = false) :
    (∀ t, PortHolds c r t) ↔ ∀ t, ¬ RootMoves c (r.state t) (r.input t) := by
  constructor
  · intro h t hm
    obtain ⟨hd, hne⟩ := walker_jumps (run_idex_wf r t) hm
    have hs := h t hd hm.2.2.2.1
    rw [r.steps] at hs
    exact hne hs.addr
  · intro h t hd hr
    have hv' := run_vecHeld r (t + 1)
    rw [r.steps] at hv' ⊢
    exact step_holds (run_idex_wf r t) (run_vecHeld r t) hv' (run_fetchQuiet r hl t)
      (hl (t + 1)) (h t) hd hr

def slowStoreRun : Run strayCfg :=
  benchRun strayCfg strayImage (fun _ => true) (fun t => t % 3 == 0)

theorem slow_store_holds : (dReq strayCfg (slowStoreRun.state 8) (slowStoreRun.input 8) = true ∧
      (slowStoreRun.input 8).dReady = false) ∧
    (∀ t, (slowStoreRun.input t).halt = false) ∧ ∀ t, PortHolds strayCfg slowStoreRun t := by
  refine ⟨by decide +kernel, fun _ => rfl, ?_⟩
  apply (port_holds_iff strayCfg slowStoreRun fun _ => rfl).mpr
  intro t h
  simp [RootMoves, ptwBusy, strayCfg, Cfg.bare] at h

/-- S-mode writes `satp` in the last word of a mapping; the fetch behind it misses. -/
def movingRootImage (a : Word) : Word :=
  match a with
  | 0x3FFFFC#32 => 0x18016073#32 -- csrrsi x0, satp, 2
  | _ => superImage a

def movingRootRun : Run Cfg.paged :=
  benchRun Cfg.paged movingRootImage (fun _ => true) (fun t => t < 16)

/-- The waiting level-1 read at `0x1004` becomes one at `0x3004`. -/
theorem root_moves_under_read :
    (∀ t, (movingRootRun.input t).halt = false) ∧ ¬ PortHolds Cfg.paged movingRootRun 16 := by
  refine ⟨fun _ => rfl, fun h => ?_⟩
  have hs := (h (by decide +kernel) (by decide +kernel)).addr
  have h0 : dAddr Cfg.paged (movingRootRun.state 16) = 0x1004#32 := by decide +kernel
  have h1 : dAddr Cfg.paged (movingRootRun.state 17) = 0x3004#32 := by decide +kernel
  rw [h0, h1] at hs
  exact absurd hs (by decide)

end RiscvScratch.Unified
