import RiscvScratch.Clocked.Refinement
import RiscvScratch.Unified.LatencySim

/-! Latency insensitivity of M-mode code. -/
namespace RiscvScratch.Unified

variable {c : Cfg}

/-- M-mode code on a memory that starts as `m`, without counter reads and stores to its words. -/
structure PlainRun (r : Run c) (m : Ram) : Prop where
  mode : ∀ t, (r.state t).csr.priv = Csr.privM
  lines : ∀ t, (r.input t).lines = ⟨false, false, false⟩
  fetch : ∀ t, iReq c (r.state t) (r.input t) = true → (r.input t).iReady = true →
    (r.input t).iRdata = (ramAt r m t).load (iAddr c (r.state t))
  read : ∀ t, Backed c (r.state t) (r.input t) (ramAt r m t)
  counters : ∀ t, exGo c (r.state t) (r.input t) = true → readsCounter c (r.state t) = true →
    (r.state t).idex.rd = 0#5
  stable : ∀ t, exGo c (r.state t) (r.input t) = true → ∀ u < (tags r t).idex, ∀ w ∈ portOut r u,
    wordOf w.addr ≠ wordOf (r.state t).idex.pc

/-- Every request is granted in the end, and the SoC does not halt. -/
structure Granted (r : Run c) : Prop where
  running : ∀ t, (r.input t).halt = false
  fetch : ∀ t, ∃ u ≥ t, iReq c (r.state u) (r.input u) = true → (r.input u).iReady = true
  data : ∀ t, ∃ u ≥ t, dReq c (r.state u) (r.input u) = true → (r.input u).dReady = true
  fence : ∀ t, ∃ u ≥ t, fenceiReq c (r.state u) (r.input u) = true → (r.input u).fenceiAck = true

section run
variable {r : Run c} {m : Ram} (hv : c.vExt = false) (h : PlainRun r m)
include hv h

theorem PlainRun.holding {t : ℕ} (hg : exGo c (r.state t) (r.input t) = true) :
    Holding c m (r.state t).idex (r.state t).idex.pc := by
  obtain ⟨⟨d1, d2, hx⟩, hok⟩ := (run_traced r t).idex (exGo_inv hg).1
  have hst := h.stable t hg
  have hpc : (r.state t).idex.pc = (r.state (tags r t).idex).pc := by rw [hx]; rfl
  rw [hpc] at hst ⊢
  generalize (tags r t).idex = f at hx hok hst
  have hp := run_plain hv r h.mode f
  have hinstr : (fetched c (r.state f) (r.input f)).instr = (fetchAt c m (r.state f).pc).instr := by
    simp only [fetched, fetchAt, hp.ifFault.1]
    cases ha : c.allowsX (r.state f).pc with
    | false => rfl
    | true =>
      have hreq : iReq c (r.state f) (r.input f) = true ∧ (r.input f).iReady = true := by
        simpa [ifOk, hp.ifFault.1, ha] using hok
      have hload := h.fetch f hreq.1 hreq.2
      rw [hp.iAddr, ramAt, Ram.load_after] at hload
      · simpa using hload
      · intro w hw
        obtain ⟨u, hu, hw⟩ := List.mem_flatMap.mp hw
        exact hst u (List.mem_range.mp hu) w hw
  refine ⟨d1, d2, bpTaken c (r.state f), bpTarget c (r.state f), ?_⟩
  have hf : fetched c (r.state f) (r.input f) =
      { fetchAt c m (r.state f).pc with
        predTaken := bpTaken c (r.state f), predTarget := bpTarget c (r.state f) } := by
    simp only [fetched, fetchAt] at hinstr ⊢
    rw [hinstr, hp.ifFault.1, hp.ifFault.2]
  rw [hx, hf]
  rfl

theorem PlainRun.cycle (t : ℕ) : Cycle c m (r.state t) (r.input t) (ramAt r m t) where
  plain := run_plain hv r h.mode t
  idexWf := run_idex_wf r t
  exmemWf := run_exmem_wf r t
  backed := h.read t
  lines := h.lines t
  holding := h.holding hv
  counters := h.counters t

end run

def commits (r : Run c) (t : ℕ) : Bool := exGo c (r.state t) (r.input t)

/-- The one-instruction machine after the commits of the first `t` cycles. -/
def archAt (r : Run c) (m : Ram) (t : ℕ) : Arch :=
  Clocked.committed (Arch.step c m) (Arch.start c m (r.state 0).regs) (commits r) t

theorem sim_start (hv : c.vExt = false) (r : Run c) (m : Ram) :
    Sim c (r.state 0) m (Arch.start c m (r.state 0).regs) := by
  obtain ⟨u, hu⟩ := r.starts
  rw [hu]
  refine ⟨⟨rfl, rfl, rfl, ?_⟩, ⟨?_, ?_, rfl⟩, ?_, rfl, rfl, ?_⟩
  · intro hph
    simp [reset] at hph
  · simp [reset, IdEx.bubble]
  · simp [reset, IfId.bubble]
  · exact hu ▸ run_operands r 0
  · exact Csr.settled_reset (by simp [Cfg.csr, hv])

theorem archAt_succ (r : Run c) (m : Ram) (t : ℕ) :
    archAt r m (t + 1) =
      bif commits r t then Arch.step c m (archAt r m t) else archAt r m t :=
  Clocked.committed_succ _ _ _ _

section traces
variable {r : Run c} {m : Ram} (hv : c.vExt = false) (h : PlainRun r m)
include hv h

theorem PlainRun.sim (t : ℕ) : Sim c (r.state t) (ramAt r m t) (archAt r m t) := by
  induction t with
  | zero => exact sim_start hv r m
  | succ t ih =>
    rw [r.steps, ramAt_succ, archAt_succ]
    have hc := h.cycle hv t
    cases hg : commits r t with
    | true => exact (ih.commit hc hg).1
    | false => exact (ih.stay hc hg).1

theorem PlainRun.emits (t : ℕ) :
    regOut r t ++ regPend (r.state (t + 1)) (ramAt r m (t + 1)) =
        regPend (r.state t) (ramAt r m t) ++
          (bif commits r t then (archAt r m t).regOut c m else []) ∧
      portOut r t ++ pendingWrite (r.state (t + 1)) (ramAt r m (t + 1)) =
        pendingWrite (r.state t) (ramAt r m t) ++
          (bif commits r t then (archAt r m t).portOut c m else []) := by
  rw [r.steps, ramAt_succ]
  have hs := h.sim hv t
  have hc := h.cycle hv t
  cases hg : commits r t with
  | true => exact (hs.commit hc hg).2
  | false =>
    rw [cond_false, cond_false, List.append_nil, List.append_nil]
    exact (hs.stay hc hg).2

/-- The register writes and the port writes trail the one-instruction machine's. -/
theorem PlainRun.emitsLate :
    Clocked.EmitsLate (Arch.step c m) (Arch.regOut c m) (Arch.start c m (r.state 0).regs)
        (commits r) (regOut r) (fun t => regPend (r.state t) (ramAt r m t)) ∧
      Clocked.EmitsLate (Arch.step c m) (Arch.portOut c m) (Arch.start c m (r.state 0).regs)
        (commits r) (portOut r) (fun t => pendingWrite (r.state t) (ramAt r m t)) := by
  have hstart : regPend (r.state 0) (ramAt r m 0) = [] ∧
      pendingWrite (r.state 0) (ramAt r m 0) = [] := by
    obtain ⟨u, hu⟩ := r.starts
    rw [hu]
    exact ⟨rfl, rfl⟩
  exact ⟨⟨hstart.1, fun t => (h.emits hv t).1⟩, hstart.2, fun t => (h.emits hv t).2⟩

theorem PlainRun.regs_drain {t : ℕ} (hf : freeze c (r.state t) (r.input t) = false) :
    Clocked.emitted (regOut r) t ++ regPend (r.state t) (ramAt r m t) =
      Clocked.emitted (regOut r) (t + 2) := by
  have hc := h.cycle hv t
  have hm : (r.state (t + 1)).memwb = retired (r.state t) (r.input t) := by
    rw [r.steps]
    simp [machine, step, nextMemwb, hf, retired]
  rw [Clocked.emitted_succ, Clocked.emitted_succ, List.append_assoc, regPend]
  congr 2
  rw [regOut, hm, retired, memwbValue_eq hc.plain hc.exmemWf hf hc.backed (h.sim hv t).mem.amo]

theorem PlainRun.ports_drain {t : ℕ} (hf : freeze c (r.state t) (r.input t) = false) :
    Clocked.emitted (portOut r) t ++ pendingWrite (r.state t) (ramAt r m t) =
      Clocked.emitted (portOut r) (t + 1) := by
  have hc := h.cycle hv t
  rw [Clocked.emitted_succ, portOut,
    accepted_leave hc.plain hc.exmemWf hf (h.sim hv t).mem.amo]

end traces

section progress
variable {r : Run c} (hp : ∀ t, Plain c (r.state t)) (hg : Granted r)
include hp hg

theorem thaws (t : ℕ) : ∃ u ≥ t, freeze c (r.state u) (r.input u) = false := by
  by_contra hno
  push Not at hno
  have hfz : ∀ u ≥ t, freeze c (r.state u) (r.input u) = true := fun u hu =>
    Bool.eq_true_of_not_eq_false (hno u hu)
  have hport : ∀ u ≥ t, mPort (r.state u) = true := by
    intro u hu
    have := hfz u hu
    simp only [freeze, hg.running u, Bool.false_or, Bool.and_eq_true] at this
    exact this.1
  -- the port answers, so only the first phase of an atomic can be behind a frozen cycle
  have hdone : ∀ v ≥ t, ∃ u ≥ v, (r.state u).exmem.rmw = true ∧ (r.state u).amoPh = false ∧
      mDone c (r.state u) (r.input u) = true := by
    intro v hv
    obtain ⟨u, hu, hr⟩ := hg.data v
    have hq : mReq c (r.state u) (r.input u) = true := by
      simp [mReq, hport u (hv.trans hu), (hp u).walker, hg.running u]
    have hd : mDone c (r.state u) (r.input u) = true := by
      simp [mDone, hq, hr (by rw [(hp u).dReq]; exact hq)]
    obtain ⟨h1, h2⟩ := frozen_done (hfz u (hv.trans hu)) hd
    exact ⟨u, hu, h1, h2, hd⟩
  obtain ⟨u, hu, hrmw, hph, hd⟩ := hdone t le_rfl
  have hstay : ∀ v ≥ u + 1, (r.state v).amoPh = true := by
    intro v hv
    induction v, hv using Nat.le_induction with
    | base =>
      rw [r.steps]
      simp [machine, step, nextAmoPh, hrmw, hd, hph]
    | succ v hv ih =>
      have hn : mDone c (r.state v) (r.input v) = false := by
        by_contra hd
        have := (frozen_done (hfz v (by omega)) (Bool.eq_true_of_not_eq_false hd)).2
        simp [ih] at this
      rw [r.steps]
      simp [machine, step, nextAmoPh, hn, ih]
  obtain ⟨v, hv, -, hph', -⟩ := hdone (u + 1) (by omega)
  simp [hstay v hv] at hph'

section idle
variable {t : ℕ} (hidle : ∀ u ≥ t, exGo c (r.state u) (r.input u) = false)
  (hf : freeze c (r.state t) (r.input t) = false)
include hidle hf

omit hp in
theorem idle_thawed : ∀ u ≥ t, freeze c (r.state u) (r.input u) = false := by
  intro u hu
  induction u, hu using Nat.le_induction with
  | base => exact hf
  | succ u hu ih =>
    have hx : (r.state (u + 1)).exmem = ExMem.bubble := by
      rw [r.steps]
      simp [machine, step, nextExmem, ih, (idle_of_not_exGo (hidle u hu)).keep]
    simp [freeze, hg.running, mPort_bubble hx]

theorem idle_empty : ∀ u ≥ t, (r.state u).idex.valid = false := by
  have hthaw := idle_thawed hg hidle hf
  intro u hu
  by_contra hval
  have hwait : ∀ v ≥ u, (r.state v).idex.valid = true →
      fenceiWait (r.state v) (r.input v) = true := by
    intro v hv hval
    have := hidle v (hu.trans hv)
    simpa [exGo, hval, hthaw v (hu.trans hv), (hp v).exHold] using this
  have hkeep : ∀ v ≥ u, (r.state v).idex.valid = true := by
    intro v hv
    induction v, hv using Nat.le_induction with
    | base => exact Bool.eq_true_of_not_eq_false hval
    | succ v hv ih =>
      have hh : exHold c (r.state v) (r.input v) = true := by
        rw [(hp v).exHold]
        exact hwait v hv ih
      have hstep := run_step r v
      have hx : (r.state (v + 1)).idex = relatched (r.state v) := by
        simp [hstep, step, nextIdex, hh, relatched]
      rw [hx]
      exact ih
  obtain ⟨v, hv, hack⟩ := hg.fence u
  have hw := hwait v hv (hkeep v hv)
  simp only [fenceiWait, Bool.and_eq_true, Bool.not_eq_true'] at hw
  have := hack (by simp [fenceiReq, hw.1.1, hw.1.2, hthaw v (hu.trans hv)])
  simp [hw.2] at this

end idle

theorem commits_again (t : ℕ) : ∃ u ≥ t, commits r u = true := by
  by_contra hno
  push Not at hno
  obtain ⟨t1, ht1, hf1⟩ := thaws hp hg t
  have hidle : ∀ u ≥ t1, exGo c (r.state u) (r.input u) = false := fun u hu =>
    Bool.eq_false_of_not_eq_true (hno u (ht1.trans hu))
  have hthaw := idle_thawed hg hidle hf1
  have hempty := idle_empty hp hg hidle hf1
  -- with EX empty the front end runs until it has fetched
  have hmove : ∀ u ≥ t1, (r.state (u + 1)).idex.valid = (r.state u).ifid.valid ∧
      (ifOk c (r.state u) (r.input u) = true → (r.state (u + 1)).ifid.valid = true) := by
    intro u hu
    have hh : exHold c (r.state u) (r.input u) = false := by
      simp [(hp u).exHold, fenceiWait, hempty u hu]
    have hr := (idle_of_not_exGo (hidle u hu)).redirect
    have hl : loadUse (r.state u) = false := by simp [loadUse, hempty u hu]
    have hstep := run_step r u
    constructor
    · simp [hstep, step, nextIdex, hthaw u hu, hh, hr, hl, decode]
    · intro ho
      simp [hstep, step, nextIfid, hthaw u hu, frontHold, hh, hr, hl, ho, fetched]
  obtain ⟨u, hu, hready⟩ := hg.fetch t1
  have hok : ifOk c (r.state u) (r.input u) = true := by
    cases hfault : ifFault c (r.state u) with
    | true => simp [ifOk, hfault]
    | false =>
      have hq : iReq c (r.state u) (r.input u) = true := by
        simp [iReq, hg.running u, hfault, (hp u).ifWalk]
      simp [ifOk, hq, hready hq]
  have h1 := (hmove u hu).2 hok
  have h2 := (hmove (u + 1) (by omega)).1
  rw [h1, hempty (u + 2) (by omega)] at h2
  exact absurd h2 (by decide)

end progress

/-- The register writes and the D-port writes of `r` up to cycle `t` are the first ones of `r'`
up to cycle `t'`. -/
def Precedes {c c' : Cfg} (r : Run c) (t : ℕ) (r' : Run c') (t' : ℕ) : Prop :=
  Clocked.emitted (regOut r) t <+: Clocked.emitted (regOut r') t' ∧
    Clocked.emitted (portOut r) t <+: Clocked.emitted (portOut r') t'

theorem PlainRun.reaches {r : Run c} {m : Ram} (hv : c.vExt = false) (h : PlainRun r m)
    (hg : Granted r) (k : ℕ) :
    ∃ t, Clocked.seqTrace (Arch.step c m) (Arch.regOut c m) (Arch.start c m (r.state 0).regs) k <+:
        Clocked.emitted (regOut r) t ∧
      Clocked.seqTrace (Arch.step c m) (Arch.portOut c m) (Arch.start c m (r.state 0).regs) k <+:
        Clocked.emitted (portOut r) t := by
  have hp := run_plain hv r h.mode
  have hlive := commits_again hp hg
  have hthaw : ∀ t, ∃ u ≥ t, freeze c (r.state u) (r.input u) = false := thaws hp hg
  obtain ⟨t1, h1⟩ := (h.emitsLate hv).1.complete (fun t => by
    obtain ⟨u, hu, hf⟩ := hthaw t
    exact ⟨u, hu, u + 2, h.regs_drain hv hf ▸ List.prefix_rfl⟩) hlive k
  obtain ⟨t2, h2⟩ := (h.emitsLate hv).2.complete (fun t => by
    obtain ⟨u, hu, hf⟩ := hthaw t
    exact ⟨u, hu, u + 1, h.ports_drain hv hf ▸ List.prefix_rfl⟩) hlive k
  exact ⟨max t1 t2, h1.trans (Clocked.emitted_mono _ (le_max_left _ _)),
    h2.trans (Clocked.emitted_mono _ (le_max_right _ _))⟩

/-- Two runs of one program from one register file write the same, whatever the ports' schedules and
the branch predictor. -/
theorem latency_insensitive (c : Cfg) (hv : c.vExt = false) (b : Bool) (n : ℕ) (m : Ram)
    (r : Run c) (r' : Run { c with bpred := b, bpIdxBits := n })
    (hregs : (r'.state 0).regs = (r.state 0).regs) (h : PlainRun r m) (h' : PlainRun r' m) :
    (∀ t t',
      (Clocked.emitted (regOut r) t <+: Clocked.emitted (regOut r') t' ∨
        Clocked.emitted (regOut r') t' <+: Clocked.emitted (regOut r) t) ∧
      (Clocked.emitted (portOut r) t <+: Clocked.emitted (portOut r') t' ∨
        Clocked.emitted (portOut r') t' <+: Clocked.emitted (portOut r) t)) ∧
    (Granted r' → ∀ t, ∃ t', Precedes r t r' t') ∧
    (Granted r → ∀ t', ∃ t, Precedes r' t' r t) := by
  have hv' : ({ c with bpred := b, bpIdxBits := n } : Cfg).vExt = false := hv
  obtain ⟨hreg, hport⟩ := h'.emitsLate hv'
  have hreach := h'.reaches hv'
  -- the one-instruction machine has no predictor: both runs follow the same one
  rw [hregs, Arch.step_bpred, Arch.start_bpred, Arch.regOut_bpred] at hreg
  rw [hregs, Arch.step_bpred, Arch.start_bpred, Arch.portOut_bpred] at hport
  rw [hregs, Arch.step_bpred, Arch.start_bpred, Arch.regOut_bpred, Arch.portOut_bpred] at hreach
  refine ⟨fun t t' => ⟨?_, ?_⟩, fun hg t => ?_, fun hg t' => ?_⟩
  · exact Clocked.emitted_comparable _ ((h.emitsLate hv).1.sound t) (hreg.sound t')
  · exact Clocked.emitted_comparable _ ((h.emitsLate hv).2.sound t) (hport.sound t')
  · obtain ⟨t', h1, h2⟩ := hreach hg (Clocked.count (commits r) t)
    exact ⟨t', ((h.emitsLate hv).1.sound t).trans h1, ((h.emitsLate hv).2.sound t).trans h2⟩
  · obtain ⟨t, h1, h2⟩ := h.reaches hv hg (Clocked.count (commits r') t')
    exact ⟨t, (hreg.sound t').trans h1, (hport.sound t').trans h2⟩

/-- `addi x1, x1, 1` -/
def incr : Word := 0x00108093#32

section incr
variable (hv : c.vExt = false) (hm : c.mmu = false) (hn : c.pmaN = 0) (r : Run c)
  (hr : ∀ t, (r.input t).iRdata = incr) (hl : ∀ t, (r.input t).lines = ⟨false, false, false⟩)

include hm hn hr in
theorem incr_idex {t : ℕ} (hx : (r.state t).idex.valid = true) :
    ∃ f d1 d2, (r.state t).idex = decode c f d1 d2 ∧ f.instr = incr ∧ f.ifault = false := by
  obtain ⟨⟨d1, d2, hx⟩, -⟩ := (run_traced r t).idex hx
  have hf : ∀ s : State, ifFault c s = false := by
    intro s
    simp [ifFault, ifAfault, ifPfault, ifWalk, vmOn, hm, Cfg.allowsX, Cfg.pma, hn, pmaScan]
  refine ⟨_, d1, d2, hx, ?_, hf _⟩
  simp [fetched, hf, hr]

theorem decode_incr (c : Cfg) {f : IfId} (d1 d2 : Word) (hi : f.instr = incr) :
    (decode c f d1 d2).special = false ∧ (decode c f d1 d2).illegal = false ∧
      (decode c f d1 d2).memRead = false ∧ (decode c f d1 d2).memWrite = false ∧
      (decode c f d1 d2).jump = false ∧ (decode c f d1 d2).branch = false := by
  have ho : opcodeOf incr = opI := by decide
  have h3 : funct3Of incr = 0b000#3 := by decide
  have hamo : idIsAmo incr c = false := by simp [idIsAmo, ho, opI]
  have hk : (ctrlOf incr).memRead = false ∧ (ctrlOf incr).memWrite = false ∧
      (ctrlOf incr).jump = false ∧ (ctrlOf incr).branch = false := by decide
  refine ⟨?_, ?_, ?_, ?_, ?_, ?_⟩
  · simp [IdEx.special, decode, hi, idIsCsr, idIsMret, idSret, idSfence, idEcall, idEbreak,
      idFencei,
      sysWith, isSystem, ho, opI, idVec, Vec.isVec, Vec.isOpv, Vec.isLd, Vec.isSt]
  · simp [decode, hi, opOk, opKnown, encOk, ho, opI, opR, baseI, h3]
  · simp [decode, hi, hamo, hk]
  · simp [decode, hi, hk]
  · simp [decode, hi, hk]
  · simp [decode, hi, hk]

theorem incr_exception {s : State} {f : IfId} {d1 d2 : Word}
    (hx : s.idex = decode c f d1 d2) (hi : f.instr = incr) (hf : f.ifault = false) :
    exception c s = false := by
  obtain ⟨hs, hill, h1, h2, h3, h4⟩ := decode_incr c d1 d2 hi
  rw [← hx] at hs hill h1 h2 h3 h4
  simp only [IdEx.special, Bool.or_eq_false_iff] at hs
  have hfault : s.idex.ifault = false := by rw [hx]; exact hf
  simp [exception, hfault, hill, hs, exIllegal, csrBad, exDfault, exXlate, exDafPma, exMisal, exMem,
    h1, h2, exImisal, exTaken, h3, h4, vFaultNow]

include hv hm hn hr hl in
theorem incr_csr (t : ℕ) : (r.state t).csr = Csr.reset c.csr := by
  have hset : Csr.Settled c.csr (Csr.reset c.csr) := Csr.settled_reset (by simp [Cfg.csr, hv])
  induction t with
  | zero =>
    obtain ⟨u, hu⟩ := r.starts
    rw [hu]
    rfl
  | succ t ih =>
    rw [← ih] at hset ⊢
    have hstep := run_step r t
    rw [hstep]
    cases hg : exGo c (r.state t) (r.input t) with
    | false => exact csr_idle hv hset hg
    | true =>
      obtain ⟨f, d1, d2, hx, hi, hf⟩ := incr_idex hm hn r hr (exGo_inv hg).1
      have hexc := incr_exception hx hi hf
      have hirq : irqPending (r.state t) (r.input t) = false := by
        simp [irqPending, ih, hl, Csr.irqPending, Csr.firesM, Csr.firesS, Csr.raised, Csr.reset]
      obtain ⟨hs, -⟩ := decode_incr c d1 d2 hi
      rw [← hx] at hs
      simp only [IdEx.special, Bool.or_eq_false_iff] at hs
      refine Csr.step_idle hset (csrCommand_dirty hv) ?_
      simp [Csr.commit, csrCommand, takeTrap, irqTake, mretEx, sretEx, csrCommit, hexc, hirq, hs]

include hm hn hr in
theorem incr_port (t : ℕ) : mPort (r.state t) = false := by
  have h : (r.state t).exmem.memRead = false ∧ (r.state t).exmem.memWrite = false := by
    refine run_exmem r (P := fun x => x.memRead = false ∧ x.memWrite = false) ⟨rfl, rfl⟩ ?_ t
    intro t hk
    obtain ⟨f, d1, d2, hx, hi, -⟩ := incr_idex hm hn r hr (exGo_inv (exKeep_inv hk).1).1
    obtain ⟨-, -, h1, h2, -⟩ := decode_incr c d1 d2 hi
    rw [← hx] at h1 h2
    exact ⟨h1, h2⟩
  have hw := run_exmem_wf r t
  have hsc : (r.state t).exmem.sc = false := by
    by_contra hx
    have := hw.amo (.inr (.inl (Bool.eq_true_of_not_eq_false hx)))
    simp [h.1] at this
  have hrmw : (r.state t).exmem.rmw = false := by
    by_contra hx
    have := hw.amo (.inr (.inr (Bool.eq_true_of_not_eq_false hx)))
    simp [h.1] at this
  simp [mPort, mLoad, mStore, scOk, h, hsc, hrmw]

include hv hm hn hr hl in
theorem incr_plainRun : PlainRun r fun _ => incr := by
  have hmode : ∀ t, (r.state t).csr.priv = Csr.privM := fun t => by
    rw [incr_csr hv hm hn r hr hl]
    rfl
  have hreq : ∀ t, dReq c (r.state t) (r.input t) = false := fun t => by
    rw [(run_plain hv r hmode t).dReq, mReq, incr_port hm hn r hr t]
    rfl
  have hout : ∀ t, portOut r t = [] := fun t => by simp [portOut, accepted, hreq t]
  have hram : ∀ t, ramAt r (fun _ => incr) t = fun _ => incr := fun t => by
    have : Clocked.emitted (portOut r) t = [] := by simp [Clocked.emitted, hout]
    rw [ramAt, this, Ram.after_nil]
  refine ⟨hmode, hl, fun t _ _ => ?_, fun t hq => ?_, fun t hg hc => ?_, fun t _ u _ w hw => ?_⟩
  · rw [hr, hram]
    rfl
  · simp [hreq t] at hq
  · obtain ⟨f, d1, d2, hx, hi, -⟩ := incr_idex hm hn r hr (exGo_inv hg).1
    obtain ⟨hs, -⟩ := decode_incr c d1 d2 hi
    rw [← hx] at hs
    simp only [IdEx.special, Bool.or_eq_false_iff] at hs
    simp [readsCounter, hs] at hc
  · simp [hout u] at hw

end incr

def promptRun : Run Cfg.bare :=
  benchRun Cfg.bare (fun _ => incr) (fun _ => true) fun _ => true

def tardyRun : Run { Cfg.bare with bpred := true, bpIdxBits := 4 } :=
  benchRun { Cfg.bare with bpred := true, bpIdxBits := 4 } (fun _ => incr) (fun t => t % 3 == 2)
    fun t => t % 3 == 0

theorem tardyRun_granted : Granted tardyRun where
  running _ := rfl
  fetch t := ⟨3 * t + 2, by omega, fun _ =>
    by simp [tardyRun, benchRun, Clocked.Machine.runOf, bench]⟩
  data t := ⟨3 * t, by omega, fun _ => by simp [tardyRun, benchRun, Clocked.Machine.runOf, bench]⟩
  fence t := ⟨t, le_rfl, fun _ => rfl⟩

theorem tardy_writes_the_same : (Clocked.emitted (regOut promptRun) 6 = [⟨1#5, 1#32⟩, ⟨1#5, 2#32⟩] ∧
      Clocked.emitted (regOut tardyRun) 6 = []) ∧
    (Clocked.emitted (regOut promptRun) 6 <+: Clocked.emitted (regOut tardyRun) 14 ∨
      Clocked.emitted (regOut tardyRun) 14 <+: Clocked.emitted (regOut promptRun) 6) ∧
    ∃ t, Precedes promptRun 6 tardyRun t := by
  have h := latency_insensitive Cfg.bare rfl true 4 (fun _ => incr) promptRun tardyRun rfl
    (incr_plainRun rfl rfl rfl _ (fun _ => rfl) fun _ => rfl)
    (incr_plainRun rfl rfl rfl _ (fun _ => rfl) fun _ => rfl)
  exact ⟨⟨by decide +kernel, by decide +kernel⟩, (h.1 6 14).1, h.2.1 tardyRun_granted 6⟩

end RiscvScratch.Unified
