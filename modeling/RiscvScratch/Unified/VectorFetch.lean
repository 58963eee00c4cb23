import RiscvScratch.Unified.Frame

/-! The vector unit and the walker. While a vector instruction holds EX, IF holds its PC, so no walk
begins while an element request waits on the D-port. -/
namespace RiscvScratch.Unified

variable {c : Cfg} {s s' : State} {i i' : Input}

theorem ifWalk_congr (hpc : s'.pc = s.pc) (hm : Csr.SameMode s.csr s'.csr)
    (ht : s'.itlb = s.itlb) (hw : ifWresFault s' = ifWresFault s) :
    ifWalk c s' = ifWalk c s := by
  simp only [ifWalk, itlb, vmOn_congr hm, ht, hpc, hw]

/-- The vector unit asks for the same element access in both states. -/
structure SameElement (c : Cfg) (s s' : State) : Prop where
  active : vMemActive c s' = vMemActive c s
  want : vMemWant c s' = vMemWant c s
  store : vMemStore c s' = vMemStore c s
  va : vMemVa c s' = vMemVa c s
  be : Vec.memBe c.vlen s'.vec s'.idex.instr = Vec.memBe c.vlen s.vec s.idex.instr
  wdata : Vec.memWdata c.vlen s'.vec s'.idex.instr = Vec.memWdata c.vlen s.vec s.idex.instr

theorem SameElement.of_eq (hv : s'.vec = s.vec) (hi : s'.idex.instr = s.idex.instr) :
    SameElement c s s' := by
  constructor <;> simp only [vMemActive, vMemWant, vMemStore, vMemVa, hv, hi]

theorem dtlb_congr (he : SameElement c s s') (ha : vMemActive c s = true)
    (ht : s'.dtlb = s.dtlb) (hm : c.mmu = true) : dtlb c s' = dtlb c s := by
  simp only [dtlb, hm, ↓reduceIte, dtlbVa, he.active, ha, he.va, ht]

theorem vPermOk_congr (he : SameElement c s s') (hm : Csr.SameMode s.csr s'.csr)
    (hd : dtlb c s' = dtlb c s) : vPermOk c s' = vPermOk c s := by
  simp only [vPermOk, userOk, readable, hd, he.store, inUser_congr hm, hm.sum, hm.mxr]

/-- The unit waits, unchanged, while its access is neither answered nor faults. -/
theorem vec_stuck (hid : Idle c s i) (hd : s.vec.done = false) (hw : vMemWant c s = true)
    (hx : vXlFault c s = false) (hn : vMemDone c s i = false) : (step c s i).vec = s.vec := by
  simp only [vMemWant, Bool.and_eq_true] at hw
  have hcore : Vec.coreWrites c.vlen s.vec (vecInput c s i) = s.vec := by
    simp [Vec.coreWrites, vecInput, hid.cfg, hid.csr]
  have hrun : s.vec.fsm = .run := by
    simp only [Vec.memWant, Bool.and_eq_true, beq_iff_eq] at hw
    exact hw.2.1.1.1
  have hseq : Vec.sequence c.vlen s.vec (vecInput c s i) = s.vec := by
    rw [Vec.sequence_run _ _ _ hrun, hcore]
    simp only [Vec.onRun, vecInput, hw.2, hx, hn, Bool.and_false, Bool.not_true, Bool.or_self,
      Bool.false_eq_true, ↓reduceIte]
    rw [← hd]
  have hwr : Vec.vrfWrite c.vlen s.vec (vecInput c s i) = none := by
    have hm : Vec.isMem s.idex.instr = true := by
      simp only [Vec.memWant, Vec.memActive, Bool.and_eq_true] at hw
      exact hw.2.1.1.2.2
    simp only [Vec.isMem, Bool.or_eq_true, beq_iff_eq] at hm
    unfold Vec.vrfWrite
    obtain hm | hm := hm <;> simp [vecInput, hm, hrun, hn]
  simp only [step, hw.1, ↓reduceIte, Vec.step, hseq, hwr]

/-- The walk under way is for the element that the unit waits for. -/
structure ElementWalk (c : Cfg) (s : State) : Prop where
  want : vMemWant c s = true
  on : vmOn c s = true
  va : s.ptw.va = vMemVa c s
  miss : (dtlb c s).hit = false
  wres : vWresFault c s = false

/-- While the vector unit is busy, IF asks for a walk only once the element has faulted; a walk of
IF is for the PC that IF holds, and during one of the element IF asks for none. -/
structure FetchQuiet (c : Cfg) (s : State) : Prop where
  idle : vBusy c s = true → ptwBusy c s = false → ifWalk c s = true →
    vMemWant c s = true ∧ vXlFault c s = true
  fetch : vBusy c s = true → ptwBusy c s = true → s.ptw.sideI = true →
    s.ptw.killed = false ∧ s.ptw.va = s.pc
  data : vBusy c s = true → ptwBusy c s = true → s.ptw.sideI = false →
    ifWalk c s = false ∧ ElementWalk c s

theorem vMemWant_active (h : vMemWant c s = true) : vMemActive c s = true := by
  simp only [vMemWant, Vec.memWant, Bool.and_eq_true] at h
  simp [vMemActive, h]

/-- A cycle in which a vector instruction holds EX: PC and ID/EX stay, and MEM is empty. -/
structure VecCycle (c : Cfg) (s : State) (i : Input) : Prop where
  idle : Idle c s i
  pc : (step c s i).pc = s.pc
  idex : (step c s i).idex = relatched s
  noWalk : exDwalk c s = false
  noPort : mPort s = false
  running : i.halt = false

theorem VecCycle.of_wait (hw : s.idex.Wf) (hv : vWait c s i = true) (hp : mPort s = false)
    (hl : i.halt = false) : VecCycle c s i := by
  have hh := exHold_of_wait hv
  have hvec : s.idex.vec = true := by
    simp only [vWait, Bool.and_eq_true] at hv
    exact hv.1.1.1.2
  have hmem : exMem s = false := by
    have := hw.plain (by simp [IdEx.special, hvec])
    simp [exMem, this]
  obtain ⟨hpc, hid, -⟩ := stays_move (.inr hh)
  exact ⟨idle_of_not_exGo (not_exGo_of_hold hh), hpc, hid, by simp [exDwalk, exXlate, hmem], hp, hl⟩

theorem VecCycle.of_busy (hw : s.idex.Wf) (hv : VecHeld c s) (hb : vBusy c s = true)
    (hl : i.halt = false) : VecCycle c s i :=
  .of_wait hw (hv.wait hb) (mPort_bubble (hv.exmem (by simp [vRunning, hb]))) hl

theorem VecCycle.of_start (hw : s.idex.Wf) (hs : vStart c s i = true) : VecCycle c s i := by
  simp only [vStart, Bool.and_eq_true, Bool.not_eq_true'] at hs
  exact .of_wait hw hs.1.1.1.1 hs.1.1.2 hs.2

theorem VecCycle.instr (h : VecCycle c s i) : (step c s i).idex.instr = s.idex.instr := by
  rw [h.idex]; rfl

theorem VecCycle.starts (h : VecCycle c s i) :
    (ptwInput c s i).startD = vWalk c s ∧ (ptwInput c s i).startI = ifWalk c s := by
  simp [ptwInput, ptwStartD, ptwStartI, h.noWalk, h.noPort, h.running, h.idle.redirect]

theorem vWalk_inv (h : vWalk c s = true) :
    vMemWant c s = true ∧ vmOn c s = true ∧ (dtlb c s).hit = false ∧ vWresFault c s = false := by
  simp only [vWalk, Bool.and_eq_true, Bool.not_eq_true'] at h
  exact ⟨h.1.1.1.2, h.1.1.2, h.1.2, h.2⟩

theorem miss_stuck (hon : vmOn c s = true) (hm : (dtlb c s).hit = false)
    (hw : vWresFault c s = false) : vXlFault c s = false ∧ vMemDone c s i = false := by
  simp [vXlFault, vMemDone, vReqG, vMemReq, Vec.memReq, vXlOk, hon, hm, hw]

theorem vBusy_not_done (hv : VecHeld c s) (hb : vBusy c s = true) : s.vec.done = false := by
  have hd := hv.notDone hb
  have he : c.vExt = true := by
    simp only [vBusy, Bool.and_eq_true] at hb
    exact hb.1
  simpa [vDone, he] using hd

theorem VecCycle.element (h : VecCycle c s i) (hv : VecHeld c s) (hb : vBusy c s = true)
    (hw : vMemWant c s = true) (hon : vmOn c s = true) (hm : (dtlb c s).hit = false)
    (hr : vWresFault c s = false) : SameElement c s (step c s i) := by
  obtain ⟨hx, hn⟩ := miss_stuck (i := i) hon hm hr
  exact .of_eq (vec_stuck h.idle (vBusy_not_done hv hb) hw hx hn) h.instr

theorem FetchQuiet.step_idle (hc : VecCycle c s i) (hb : ptwBusy c s = false)
    (hq : vWalk c s = true → ifWalk c s = false)
    (hel : vWalk c s = true → SameElement c s (step c s i)) : FetchQuiet c (step c s i) := by
  have hmode := hc.idle.sameMode
  have hit := itlb_hold hc.idle (no_fill_of_idle true hb)
  have hdt := dtlb_hold hc.idle (no_fill_of_idle false hb)
  obtain ⟨hw1, hw2, hw3⟩ := wres_hold hc.idle hb
  have hwalk : ifWalk c (step c s i) = ifWalk c s :=
    ifWalk_congr hc.pc hmode hit (by simp only [ifWresFault, hw1, hw2, hw3, hc.pc])
  obtain ⟨hsd, hsi⟩ := hc.starts
  have hidle : c.mmu = true → s.ptw.fsm = .idle := fun hm => by
    simpa [ptwBusy, Ptw.busy, hm] using hb
  cases hvw : vWalk c s with
  | true =>
    obtain ⟨hwant, hon, hmiss, hres⟩ := vWalk_inv hvw
    have hm := vmOn_mmu hon
    have hel := hel hvw
    have hp : (step c s i).ptw =
        { s.ptw with killed := false, sideI := false, va := dtlbVa c s, fsm := .l1 } := by
      rw [ptw_step hm, Ptw.step_startD _ (hidle hm) (hsd.trans hvw)]
      rfl
    have hact := vMemWant_active hwant
    constructor
    · intro _ hn _
      simp [ptwBusy, hm, hp, Ptw.busy] at hn
    · intro _ _ hside
      simp [hp] at hside
    · intro _ _ _
      refine ⟨by rw [hwalk, hq hvw], ⟨by rw [hel.want, hwant], by rw [vmOn_congr hmode, hon],
        ?_, ?_, ?_⟩⟩
      · rw [hp, hel.va]
        simp [dtlbVa, hact]
      · rw [dtlb_congr hel hact hdt hm, hmiss]
      · rw [← hres]
        simp only [vWresFault, hw1, hw2, hw3, hel.va]
  | false =>
    cases hiw : ifWalk c s with
    | true =>
      have hm : c.mmu = true := vmOn_mmu (s := s) (by
        simp only [ifWalk, Bool.and_eq_true] at hiw
        exact hiw.1.1)
      have hp : (step c s i).ptw =
          { s.ptw with killed := false, sideI := true, va := s.pc, fsm := .l1 } := by
        rw [ptw_step hm, Ptw.step_startI _ (hidle hm) (hsd.trans hvw) (hsi.trans hiw)]
        rfl
      constructor
      · intro _ hn _
        simp [ptwBusy, hm, hp, Ptw.busy] at hn
      · intro _ _ _
        simp [hp, hc.pc]
      · intro _ _ hside
        simp [hp] at hside
    | false =>
      have hn : ptwBusy c (step c s i) = false := by
        cases hm : c.mmu with
        | false => simp [ptwBusy, hm]
        | true =>
          have := Ptw.step_idle c.svade (hidle hm) (hsd.trans hvw) (hsi.trans hiw)
          simp [ptwBusy, ptw_step hm, Ptw.busy, this]
      constructor
      · intro _ _ hx
        simp [hwalk, hiw] at hx
      · intro _ hx
        simp [hn] at hx
      · intro _ hx
        simp [hn] at hx

/-- A walk of IF answers it: the entry it fills or the fault it records stops the next request. -/
theorem ifWalk_of_result (hc : VecCycle c s i) (hm : c.mmu = true) (hs : s.ptw.sideI = true)
    (hva : s.ptw.va = s.pc) (h : ptwFill c s i = true ∨ ptwFault c s i = true)
    (hlt : s.itlb.victim < c.tlbEntries) : ifWalk c (step c s i) = false := by
  cases hfa : ptwFault c s i with
  | true =>
    have hres : ifWresFault (step c s i) = true := by
      obtain ⟨h1, h2, h3⟩ := wres_of_fault hc.idle hfa
      simp [ifWresFault, h1, h2, h3, hs, hva, hc.pc]
    simp [ifWalk, hres]
  | false =>
    have hfi : ptwFill c s i = true := h.resolve_right (by simp [hfa])
    have hit : (itlb c (step c s i)).hit = true := by
      have hentry : ((step c s i).itlb.entry s.itlb.victim).covers
          (Tlb.vpn (step c s i).pc) = true := by
        rw [hc.pc, ← hva]
        simp [step, hm, Tlb.step, tlbFlush, hc.idle.sfence, tlbFill, hfi, hs, Tlb.Fill.entry,
          Tlb.Entry.covers]
      simp only [itlb, hm, ↓reduceIte, Tlb.lookup_hit]
      exact Tlb.find_isSome hlt hentry
    simp [ifWalk, hit]

theorem FetchQuiet.step_busy (h : FetchQuiet c s) (hc : VecCycle c s i) (hv : VecHeld c s)
    (hvb : vBusy c s = true) (hb : ptwBusy c s = true) (hlt : s.itlb.victim < c.tlbEntries) :
    FetchQuiet c (step c s i) := by
  obtain ⟨hm, hpb⟩ := ptwBusy_mmu hb
  have hmode := hc.idle.sameMode
  obtain ⟨hva, hside, hkill, hend⟩ := Ptw.step_busy c.svade (i := ptwInput c s i) hpb
  have hnk : (ptwInput c s i).kill = false := hc.idle.redirect
  rw [← ptw_step (i := i) hm] at hva hside hkill hend
  have hbusy : ptwBusy c (step c s i) = Ptw.busy (step c s i).ptw := by simp [ptwBusy, hm]
  cases hs : s.ptw.sideI with
  | true =>
    obtain ⟨hk, hpc⟩ := h.fetch hvb hb hs
    obtain ⟨hgo, -, -⟩ | ⟨hstop, hres⟩ := hend
    · constructor
      · intro _ hn
        simp [hbusy, hgo] at hn
      · intro _ _ _
        exact ⟨by rw [hkill, hk, hnk]; rfl, by rw [hva, hpc, hc.pc]⟩
      · intro _ _ hx
        simp [hside, hs] at hx
    · have hres' : ptwFill c s i = true ∨ ptwFault c s i = true := by
        simpa [ptwFill, ptwFault, Ptw.doneFill, Ptw.doneFault, Ptw.drop, hm, hk, hnk] using hres
      have hw := ifWalk_of_result hc hm hs hpc hres' hlt
      constructor
      · intro _ _ hx
        simp [hw] at hx
      · intro _ hx
        simp [hbusy, hstop] at hx
      · intro _ hx
        simp [hbusy, hstop] at hx
  | false =>
    obtain ⟨hnw, ⟨hwant, hon, hpva, hmiss, hwres⟩⟩ := h.data hvb hb hs
    have hel := hc.element hv hvb hwant hon hmiss hwres
    have hact := vMemWant_active hwant
    have hit := itlb_hold hc.idle (i := i) (by simp [tlbFill, hs])
    -- a D-side result never clears or sets what IF remembers, except by taking its place
    have hkeep : ptwFault c s i = false → ifWalk c (step c s i) = false := by
      intro hnf
      rw [ifWalk_congr hc.pc hmode hit, hnw]
      have hw2 : (step c s i).wresI = s.wresI := by simp [step, wresWrite, hnf]
      have hw3 : (step c s i).wresVpn = s.wresVpn := by simp [step, wresWrite, hnf]
      have hw1 : (step c s i).wresValid = if ptwFill c s i && Tlb.vpn s.ptw.va == s.wresVpn &&
          s.ptw.sideI == s.wresI then false else s.wresValid := by
        simp [step, nextWresValid, hc.idle.takeTrap, hc.idle.sfence, hnf]
      simp only [ifWresFault, hw2, hw3, hc.pc, hw1, hs]
      cases s.wresI <;> simp
    obtain ⟨hgo, hg, hbad⟩ | ⟨hstop, -⟩ := hend
    · have hnf : ptwFault c s i = false := by simp [ptwFault, Ptw.doneFault, hbad]
      have hng : ptwFill c s i = false := by simp [ptwFill, Ptw.doneFill, hg]
      have hdt := dtlb_hold hc.idle (i := i) (by simp [tlbFill, hng])
      constructor
      · intro _ hn
        simp [hbusy, hgo] at hn
      · intro _ _ hx
        simp [hside, hs] at hx
      · intro _ _ _
        refine ⟨hkeep hnf, by rw [hel.want, hwant], by rw [vmOn_congr hmode, hon],
          by rw [hva, hpva, hel.va], by rw [dtlb_congr hel hact hdt hm, hmiss], ?_⟩
        obtain ⟨h1, h2, h3⟩ := wres_same hc.idle hng hnf
        rw [← hwres, vWresFault, vWresFault, h1, h2, h3, hel.va]
    · constructor
      · intro _ _ hx
        cases hf : ptwFault c s i with
        | false => simp [hkeep hf] at hx
        | true =>
          have hng : ptwFill c s i = false := by
            simp only [ptwFault, Ptw.doneFault, Bool.and_eq_true] at hf
            simp [ptwFill, Ptw.doneFill, Ptw.not_good_of_bad _ hf.2.1]
          have hdt := dtlb_hold hc.idle (i := i) (by simp [tlbFill, hng])
          obtain ⟨h1, h2, h3⟩ := wres_of_fault hc.idle hf
          refine ⟨by rw [hel.want, hwant], ?_⟩
          simp [vXlFault, vmOn_congr hmode, hon, dtlb_congr hel hact hdt hm, hmiss, vWresFault,
            h1, h2, h3, hs, hpva, hel.va]
      · intro _ hx
        simp [hbusy, hstop] at hx
      · intro _ hx
        simp [hbusy, hstop] at hx

theorem FetchQuiet.of_not_busy (hb : ¬vBusy c s = true) : FetchQuiet c s :=
  ⟨fun hx => absurd hx hb, fun hx => absurd hx hb, fun hx => absurd hx hb⟩

theorem FetchQuiet.step (h : FetchQuiet c s) (hw : s.idex.Wf) (hv : VecHeld c s)
    (hl : i.halt = false) (hlt : s.itlb.victim < c.tlbEntries) : FetchQuiet c (step c s i) := by
  by_cases hb' : vBusy c (Unified.step c s i) = true
  · have hor : vBusy c s = true ∨ vStart c s i = true :=
      vRunning_step (by simp [vRunning, hb'])
    obtain hb | hs := hor
    · have hc := VecCycle.of_busy hw hv hb hl
      cases hp : ptwBusy c s with
      | true => exact h.step_busy hc hv hb hp hlt
      | false =>
        refine FetchQuiet.step_idle hc hp (fun hvw => ?_) (fun hvw => ?_)
        · obtain ⟨-, hon, hmiss, hres⟩ := vWalk_inv hvw
          by_contra hx
          have := (h.idle hb hp (by simpa using hx)).2
          simp [(miss_stuck (i := i) hon hmiss hres).1] at this
        · obtain ⟨hwant, hon, hmiss, hres⟩ := vWalk_inv hvw
          exact hc.element hv hb hwant hon hmiss hres
    · have hc := VecCycle.of_start hw hs
      simp only [vStart, Bool.and_eq_true, Bool.not_eq_true'] at hs
      have hnw : vWalk c s = false := by
        by_contra hx
        have hact := vMemWant_active (vWalk_inv (by simpa using hx)).1
        simp [vMemActive_busy hact] at hs
      exact FetchQuiet.step_idle hc hs.1.2 (fun hx => by simp [hnw] at hx)
        (fun hx => by simp [hnw] at hx)
  · exact .of_not_busy hb'

theorem FetchQuiet.reset (c : Cfg) (u : State) : FetchQuiet c (Unified.reset c u) :=
  .of_not_busy (by simp [Unified.reset, vBusy, Vec.busy, Vec.reset])

/-- The invariant holds in every cycle of a run that is never halted. -/
theorem run_fetchQuiet (r : Run c) (hl : ∀ t, (r.input t).halt = false) (t : ℕ) :
    FetchQuiet c (r.state t) := by
  induction t with
  | zero =>
    obtain ⟨u, hu⟩ := r.starts
    rw [hu]
    exact FetchQuiet.reset c u
  | succ t ih =>
    rw [r.steps]
    exact ih.step (run_idex_wf r t) (run_vecHeld r t) (hl t) (run_victim r t).1

end RiscvScratch.Unified
