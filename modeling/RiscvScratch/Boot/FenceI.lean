import RiscvScratch.Boot.Bench
import RiscvScratch.Boot.Handshake

/-! FENCE.I coherence: the fence leaves a clean data cache and an empty instruction cache, and until
a store nothing writes to memory. -/
namespace RiscvScratch.Boot

open Cache

variable {p : Params} {s : State} {i : Input}

/-- `sys_rst`, power-on apart. -/
def sysRst (s : State) : Bool := s.wrst != 0#3

/-- No CSR write moves the root table under a waiting page-table read, and vector accesses are ones
their regions allow. -/
structure Orderly (p : Params) (s : State) (i : Input) : Prop where
  root : ¬ Unified.RootMoves p.cfg s.core (coreInput p s i)
  vec : Unified.VecAllowed p.cfg s.core (coreInput p s i)

/-- What the D-side would read: the data cache's own line, or what it would fetch. -/
def dSide (p : Params) (s : State) (mem : MainMemory) (a : Word) : Word :=
  Dcache.view p.dg s.dc mem (a.toNat / 4)

/-- The ROM and the RAM behind the line port, with content `mem t` in cycle `t`: a request sampled
since the last answer is answered with a one-cycle `done`. Writes to the ROM are lost. -/
structure LineMemory (r : Run p) (mem : ℕ → MainMemory) : Prop where
  quiet : ∀ t, sysRst (r.state t) = false → (r.input t).lmDone = false → mem (t + 1) = mem t
  answer : ∀ t, sysRst (r.state t) = false → (r.input t).lmDone = true → ∃ a,
    Clocked.Sampled (fun u => lmReq (r.state u))
      (fun u => (r.input u).lmDone || sysRst (r.state u)) a t ∧
    if lmWe (r.state a) then
      mem (t + 1) = if p.inRom (lmAddr p (r.state a)) then mem t
        else (mem t).writeLine p.dg (lmAddr p (r.state a)) (lmWdata p (r.state a) (r.input a))
    else mem (t + 1) = mem t ∧
      ∀ k < p.dg.lineWords, (r.input t).lmRdata k = (mem t).readLine p.dg (lmAddr p (r.state a)) k

structure Wired (p : Params) (s : State) : Prop where
  core : CoreSound p.cfg s.core
  port : ∀ i, Dcache.Port p.dg s.dc (dcInput p s i)
  phase : Phase p s
  rom : Dcache.DirtyIn p.dg (fun a => p.inRom a = false) s.dc
  refill : s.ic.mReq = s.ic.filling
  resets : sysRst s = true → s.fiDone = false

theorem dirtyIn_reset (Q : Word → Prop) (tags : ℕ → ℕ) (lines : ℕ → Line) :
    Dcache.DirtyIn p.dg Q (Dcache.reset tags lines) :=
  ⟨by simp [Dcache.reset], by simp [Dcache.reset]⟩

theorem wired_of_reset {u : Unified.State} {tags : ℕ → ℕ} {lines : ℕ → Line}
    (hcore : s.core = Unified.reset p.cfg u) (hic : s.ic.mReq = s.ic.filling)
    (hdc : s.dc = Dcache.reset tags lines) (hfi : s.fiDone = false) : Wired p s where
  core := hcore ▸ CoreSound.reset _ _
  port i := by rw [hdc]; exact (rfl : false = false)
  phase := .off (by simp [hdc, Dcache.reset]) (by simp [hdc, Dcache.reset]) hfi
  rom := hdc ▸ dirtyIn_reset _ _ _
  refill := hic
  resets _ := hfi

theorem no_restart_of_waits (hc : CoreSound p.cfg s.core) (hw : Unified.FenceWaits s.core) :
    restarts p s = false := by
  have : dwe p s = 0#4 := hw.dWe hc.wf hc.vec
  simp [restarts, wrTest, this]

theorem fiDone_of_restarts (h : Wired p s) (hr : restarts p s = true) :
    (run p s i).fiDone = false := by
  have hnw : ¬ Unified.FenceWaits s.core := fun hw => by
    simp [no_restart_of_waits h.core hw] at hr
  cases h.phase with
  | off _ hcl ha => simp [run, nextFiDone, dcCleanDone, Dcache.cleanDone, hcl, ha]
  | sweeping _ _ _ hw _ | cleaned _ _ _ hw _ | acked _ _ hw _ => exact absurd hw hnw
  | past _ _ _ hv => simp [run, nextFiDone, fenceiReq, Unified.fenceiReq, hv]

theorem Wired.step (h : Wired p s) (hl' : (step p s i).halt = false) (ho : Orderly p s i) :
    Wired p (step p s i) := by
  unfold Boot.step at hl' ⊢
  split_ifs at hl' ⊢ with hr
  · exact wired_of_reset rfl rfl rfl rfl
  have hl : s.halt = false := by
    simp only [run, Bool.or_eq_false_iff] at hl'
    exact hl'.1
  refine ⟨h.core.step hl, fun i' => ?_, h.phase.run h.core hl (h.port i), ?_, ?_, fun hw => ?_⟩
  · exact (h.port i).step (dcInput_repeats h.core hl hl' ho.root i')
  · exact h.rom.step fun ha => line_not_inRom _ (inRam_of_accepted h.core ho.vec ha)
  · exact Icache.step_mReq h.refill
  · apply fiDone_of_restarts h
    by_contra hn
    simp [sysRst, run, hn] at hw

theorem Wired.held (h : Wired p s) (hl' : (run p s i).halt = false) (hl : s.halt = false)
    (ho : Orderly p s i) (hq : lmReq s = true) (hd : i.lmDone = false) (i' : Input) :
    lmReq (run p s i) = true ∧ lmWe (run p s i) = lmWe s ∧
      lmAddr p (run p s i) = lmAddr p s ∧
      (lmWe s = true → lmWdata p (run p s i) i' = lmWdata p s i) := by
  have hown : (run p s i).owner = s.owner := by
    cases hs : s.owner <;> simp [run, nextOwner, hd, hs]
    simp [lmReq, hs] at hq
  cases hs : s.owner with
  | none => simp [lmReq, hs] at hq
  | d =>
    have hq : s.dc.mReq = true := by simpa [lmReq, hs] using hq
    obtain ⟨h1, h2, h3, h4⟩ := (h.port i).held (dcInput_repeats h.core hl hl' ho.root i') hq
      (by simp [dcInput, hd])
    simp only [lmReq, lmWe, lmAddr, lmWdata, hown, hs]
    exact ⟨h1, by simpa [run] using h2, by simpa [run] using h3, fun _ => h4⟩
  | i =>
    have hq : s.ic.mReq = true := by simpa [lmReq, hs] using hq
    have hfill : s.ic.filling = true := h.refill ▸ hq
    have hic : (run p s i).ic.mReq = true ∧ (run p s i).ic.missAddr = s.ic.missAddr := by
      simp only [run, Icache.step, icInput, hd]
      split_ifs <;> simp_all [Icache.onInval]
    exact ⟨by simpa [lmReq, hown, hs] using hic.1, by rw [lmWe, lmWe, hown, hs]; rfl,
      by simp [lmAddr, hown, hs, Icache.mAddr, hic.2], by simp [lmWe, hs]⟩

structure Answers (p : Params) (s : State) (i : Input) (mem mem' : MainMemory) : Prop where
  quiet : i.lmDone = false → mem' = mem
  asked : i.lmDone = true → lmReq s = true
  write : i.lmDone = true → lmWe s = true →
    mem' = if p.inRom (lmAddr p s) then mem
      else mem.writeLine p.dg (lmAddr p s) (lmWdata p s i)
  read : i.lmDone = true → lmWe s = false →
    mem' = mem ∧ ∀ k < p.dg.lineWords, i.lmRdata k = mem.readLine p.dg (lmAddr p s) k

/-- The other cache's refills change nothing, and no dirty line is lost in the ROM. -/
theorem Answers.memStep {mem mem' : MainMemory} (h : Answers p s i mem mem') (hw : Wired p s) :
    Dcache.MemStep p.dg s.dc (dcInput p s i) mem mem' := by
  have hdone : (dcInput p s i).mDone = true → i.lmDone = true ∧ s.owner = .d := by
    simp [dcInput]
  constructor
  · intro hd
    by_cases hl : i.lmDone = true
    · have hn : s.owner ≠ .d := by simpa [dcInput, hl] using hd
      exact (h.read hl (by simp [lmWe, hn])).1
    · exact h.quiet (by simpa using hl)
  · intro hd hwe
    obtain ⟨hl, ho⟩ := hdone hd
    have hmem := h.write hl (by simp [lmWe, ho, hwe])
    have ha : lmAddr p s = s.dc.mAddr := by simp [lmAddr, ho]
    rw [ha, if_neg (by simp [hw.rom.port hwe])] at hmem
    exact hmem
  · intro hd hwe
    obtain ⟨hl, ho⟩ := hdone hd
    have hmem := h.read hl (by simp [lmWe, hwe])
    have ha : lmAddr p s = s.dc.mAddr := by simp [lmAddr, ho]
    rwa [ha] at hmem
  · intro hd
    obtain ⟨hl, ho⟩ := hdone hd
    simpa [lmReq, ho] using h.asked hl

structure Fresh (p : Params) (s : State) (mem : MainMemory) : Prop where
  clean : Dcache.Clean p.dg s.dc
  icache : Icache.Matches p.ig s.ic mem
  runs : sysRst s = false

theorem Fresh.step {mem mem' : MainMemory} (h : Fresh p s mem) (hw : Wired p s)
    (ha : Answers p s i mem mem') (hs : storeAccepted p s = false) :
    Fresh p (step p s i) mem' := by
  have hna : Dcache.accepted p.dg s.dc (dcInput p s i) = false := by
    by_contra hx
    simp [(storeAccepted_of_accepted (Bool.eq_true_of_not_eq_false hx)).1] at hs
  have hwe : i.lmDone = true → lmWe s = false := by
    intro hd
    cases ho : s.owner with
    | none | i => simp [lmWe, ho]
    | d =>
      have hq : s.dc.mReq = true := by simpa [lmReq, ho] using ha.asked hd
      simp [lmWe, h.clean.reads (hw.port i) hq]
  have hmem : mem' = mem := by
    cases hd : i.lmDone with
    | false => exact ha.quiet hd
    | true => exact (ha.read hd (hwe hd)).1
  have hrun : Boot.step p s i = run p s i := if_neg (by simpa [sysRst] using h.runs)
  rw [hrun, hmem]
  refine ⟨h.clean.step hna, h.icache.step fun _ hd => ?_, ?_⟩
  · simp only [icInput, Bool.and_eq_true, beq_iff_eq] at hd
    have hread := (ha.read hd.1 (hwe hd.1)).2
    rw [lmAddr, if_pos hd.2] at hread
    exact hread
  · have hr : restarts p s = false := by
      by_contra hx
      simp only [Bool.not_eq_false, restarts, Bool.and_eq_true] at hx
      simp [storeAccepted_of_wrTest hx.1] at hs
    simp [sysRst, run, hr]

theorem inval_of_acked (hw : Wired p s) (hl : s.halt = false)
    (hfi : (run p s i).fiDone = true) (hv : (run p s i).core.idex.valid = true) :
    (icInput p s i).inval = true ∧ Dcache.Clean p.dg (run p s i).dc := by
  cases hw.phase with
  | off _ hcl ha | sweeping _ hcl ha _ _ =>
    simp [run, nextFiDone, dcCleanDone, Dcache.cleanDone, hcl, ha] at hfi
  | cleaned _ hcl ha hwt hk =>
    have hq : fenceiReq p s i = true := fenceiReq_of_waits hwt hl
    refine ⟨?_, hk.step (not_accepted_of_waits hw.core hwt)⟩
    simp [icInput, dcClean, dcCleanDone, Dcache.cleanDone, dcInput, hq, ha, hcl]
  | acked _ ha hwt _ =>
    have hq : fenceiReq p s i = true := fenceiReq_of_waits hwt hl
    have hleft : (run p s i).core.idex.valid = false :=
      Unified.fence_leaves hw.core.wf hq ha
    simp [hleft] at hv
  | past _ _ _ hnv => simp [run, nextFiDone, fenceiReq, Unified.fenceiReq, hnv] at hfi

section run
variable {r : Run p} {mem : ℕ → MainMemory}

variable {t : ℕ}

theorem halt_of_succ (h : (r.state (t + 1)).halt = false) : (r.state t).halt = false := by
  rw [r.steps] at h
  simp only [machine, step] at h
  split_ifs at h
  · exact h
  · exact (Bool.or_eq_false_iff.mp h).1

theorem halt_of_le {u : ℕ} (h : (r.state t).halt = false) (hu : u ≤ t) :
    (r.state u).halt = false := by
  induction t, hu using Nat.le_induction with
  | base => exact h
  | succ t _ ih => exact ih (halt_of_succ h)

theorem run_wired (hl : (r.state t).halt = false)
    (ho : ∀ u < t, Orderly p (r.state u) (r.input u)) : Wired p (r.state t) := by
  induction t with
  | zero =>
    obtain ⟨u, hu⟩ := r.starts.core
    obtain ⟨tags, lines, hi⟩ := r.starts.ic
    obtain ⟨_, _, hd⟩ := r.starts.dc
    exact wired_of_reset hu (by rw [hi]; rfl) hd r.starts.fiDone
  | succ t ih =>
    have hw := ih (halt_of_succ hl) fun u hu => ho u (by omega)
    rw [r.steps] at hl ⊢
    exact hw.step hl (ho t (by omega))

theorem run_step (h : sysRst (r.state t) = false) :
    r.state (t + 1) = run p (r.state t) (r.input t) := by
  rw [r.steps]
  exact if_neg (by simpa [sysRst] using h)

section
variable (hm : LineMemory r mem) (hl : (r.state t).halt = false)
  (ho : ∀ u < t, Orderly p (r.state u) (r.input u))
include hm hl ho

theorem LineMemory.answers (hr : sysRst (r.state t) = false) :
    Answers p (r.state t) (r.input t) (mem t) (mem (t + 1)) := by
  cases hd : (r.input t).lmDone with
  | false => exact ⟨fun _ => hm.quiet t hr hd, by simp [hd], by simp [hd], by simp [hd]⟩
  | true =>
    obtain ⟨a, hs, ha⟩ := hm.answer t hr hd
    obtain ⟨hq, hpay⟩ := hs.held (fun u => (lmWe (r.state u), lmAddr p (r.state u),
      if lmWe (r.state u) then some (lmWdata p (r.state u) (r.input u)) else none)) <| by
        intro u hu hreq hack
        simp only [Bool.or_eq_false_iff] at hack
        have hl' := halt_of_le hl (Nat.succ_le_of_lt hu)
        have hw := run_wired (halt_of_le hl hu.le) fun v hv => ho v (by omega)
        rw [run_step hack.2] at hl' ⊢
        obtain ⟨h1, h2, h3, h4⟩ := hw.held hl' (halt_of_le hl hu.le) (ho u hu) hreq hack.1
          (r.input (u + 1))
        refine ⟨h1, ?_⟩
        cases hwe : lmWe (r.state u) with
        | false => simp [h2, h3, hwe]
        | true => simp [h2, h3, hwe, h4 hwe]
    simp only [Prod.mk.injEq] at hpay
    rw [← hpay.1, ← hpay.2.1] at ha
    refine ⟨by simp [hd], fun _ => hq, fun _ hwe => ?_, fun _ hwe => ?_⟩
    · have hdata := hpay.2.2
      rw [← hpay.1] at hdata
      simp only [hwe, ↓reduceIte, Option.some.injEq] at ha hdata
      rwa [← hdata] at ha
    · simpa [hwe] using ha

theorem run_coherent : Dcache.Coherent p.dg (r.state t).dc (mem t) := by
  have hempty (tags : ℕ → ℕ) (lines : ℕ → Line) (m : MainMemory) :
      Dcache.Coherent p.dg (Dcache.reset tags lines) m :=
    ⟨by simp [Dcache.reset], by simp [Dcache.reset], by simp [Dcache.reset]⟩
  induction t with
  | zero =>
    obtain ⟨_, _, hd⟩ := r.starts.dc
    rw [hd]
    exact hempty _ _ _
  | succ t ih =>
    have ho' : ∀ u < t, Orderly p (r.state u) (r.input u) := fun u hu => ho u (by omega)
    have hlt := halt_of_succ hl
    by_cases hr : sysRst (r.state t) = true
    · rw [r.steps]
      simp only [machine, step]
      rw [if_pos (by simpa [sysRst] using hr)]
      exact hempty _ _ _
    · have hr : sysRst (r.state t) = false := by simpa using hr
      have hw := run_wired hlt ho'
      rw [run_step hr]
      exact ((ih hlt ho').step (hw.port _) ((hm.answers hlt ho' hr).memStep hw)).1

end

theorem run_acked (mem : MainMemory) (hl : (r.state t).halt = false)
    (ho : ∀ u < t, Orderly p (r.state u) (r.input u))
    (hq : fenceiReq p (r.state t) (r.input t) = true) (hfi : (r.state t).fiDone = true) :
    Fresh p (r.state t) mem := by
  have hv := (Unified.fenceiReq_inv hq).1
  have hw := run_wired hl ho
  have hr : sysRst (r.state t) = false := by
    by_contra hx
    simp [hw.resets (Bool.eq_true_of_not_eq_false hx)] at hfi
  cases t with
  | zero => simp [r.starts.fiDone] at hfi
  | succ t =>
    have hw := run_wired (halt_of_succ hl) fun u hu => ho u (by omega)
    by_cases hrt : sysRst (r.state t) = true
    · rw [r.steps] at hfi
      simp only [machine, step] at hfi
      rw [if_pos (by simpa [sysRst] using hrt)] at hfi
      simp [warm] at hfi
    · rw [run_step (by simpa using hrt)] at hfi hv hr ⊢
      obtain ⟨hinv, hk⟩ := inval_of_acked hw (halt_of_succ hl) hfi hv
      refine ⟨hk, Icache.matches_of_empty fun j => ?_, hr⟩
      simp [run, Icache.step, hinv, Icache.onInval]

end run

/-- From the answer to a FENCE.I to the next accepted store, the instruction cache returns what the
D-side would read. -/
theorem fencei_coherent (p : Params) (r : Run p) (mem : ℕ → MainMemory) (hm : LineMemory r mem)
    (t₀ t : ℕ) (ho : ∀ u < t, Orderly p (r.state u) (r.input u))
    (hq : fenceiReq p (r.state t₀) (r.input t₀) = true) (hack : (r.state t₀).fiDone = true)
    (ht : t₀ ≤ t) (hs : ∀ u, t₀ ≤ u → u < t → storeAccepted p (r.state u) = false)
    (hr : iready p (r.state t) = true) :
    cacheable p (iaddr p (r.state t)) = true ∧
      irdata p (r.state t) = dSide p (r.state t) (mem t) (iaddr p (r.state t)) := by
  simp only [iready, Icache.ready, Bool.and_eq_true] at hr
  obtain ⟨⟨hreq, hhit⟩, -⟩ := hr
  have hl : (r.state t).halt = false := by
    simp only [ireq, Unified.iReq, probe, Bool.and_eq_true, Bool.not_eq_true'] at hreq
    exact hreq.1.1
  have hfresh : Fresh p (r.state t) (mem t) := by
    clear hreq hhit
    induction t, ht using Nat.le_induction with
    | base => exact run_acked _ hl ho hq hack
    | succ t ht ih =>
      have ho' : ∀ u < t, Orderly p (r.state u) (r.input u) := fun u hu => ho u (by omega)
      have hlt := halt_of_succ hl
      have hf := ih ho' (fun u h1 h2 => hs u h1 (by omega)) hlt
      rw [r.steps]
      exact hf.step (run_wired hlt ho') (hm.answers hlt ho' hf.runs) (hs t ht (by omega))
  refine ⟨cacheable_of_allowsX (Unified.iReq_allowed hreq), ?_⟩
  rw [irdata, hfresh.icache.rdata hhit, dSide, hfresh.clean.view (run_coherent hm hl ho)]

theorem rig_lineMemory (p : Params) (mem : MainMemory) :
    LineMemory (rigRun p mem) fun t => (rig p mem t).mem where
  quiet t _ hd := by
    have hd : (rig p mem t).done = false := hd
    simp [rig_succ, Rig.next, hd]
  answer t _ hd := by
    have hd : (rig p mem t).done = true := hd
    have hq := hd
    simp only [Rig.done, Bool.and_eq_true] at hq
    refine ⟨t, ⟨le_rfl, hq.1, fun u h1 h2 => absurd h1 (by omega)⟩, ?_⟩
    simp only [rigRun, rig_succ, Rig.next, hd, Bool.true_and]
    cases hw : lmWe (rig p mem t).soc with
    | false => exact ⟨by simp, fun k _ => rfl⟩
    | true =>
      rw [if_pos rfl]
      by_cases hrom : p.inRom (lmAddr p (rig p mem t).soc) = true <;> simp [hrom]

theorem vecAllowed_std (s : Unified.State) (i : Unified.Input) :
    Unified.VecAllowed Params.std.cfg s i := by
  intro h
  simp [Unified.vReqG, Unified.vMemReq, Params.cfg, Params.std] at h

def patchImage (n : ℕ) : Word :=
  match n * 4 with
  | 0x1000 => 0x800000B7#32 -- lui x1, 0x80000
  | 0x1004 => 0x00100137#32 -- lui x2, 0x100
  | 0x1008 => 0x51310113#32 -- addi x2, x2, 0x513
  | 0x100C => 0x0020A023#32 -- sw x2, 0(x1)
  | 0x1010 => 0x0000100F#32 -- fence.i
  | 0x1014 => 0x00008067#32 -- jalr x0, 0(x1)
  | _ => 0#32

def patchRun : Run Params.std := rigRun Params.std patchImage

/-- The fence is answered in cycle 111; the stored instruction is fetched in cycle 140. -/
theorem patched_fetch : iready Params.std (patchRun.state 140) = true ∧
    irdata Params.std (patchRun.state 140) = 0x00100513#32 ∧
    irdata Params.std (patchRun.state 140) = dSide Params.std (patchRun.state 140)
      (rig Params.std patchImage 140).mem (iaddr Params.std (patchRun.state 140)) := by
  have hrun : (∀ u < 140, ¬ Unified.RootMoves Params.std.cfg (patchRun.state u).core
      (coreInput Params.std (patchRun.state u) (patchRun.input u))) ∧
      (∀ u < 140, 111 ≤ u → storeAccepted Params.std (patchRun.state u) = false) ∧
      (fenceiReq Params.std (patchRun.state 111) (patchRun.input 111) = true ∧
      (patchRun.state 111).fiDone = true) ∧ iready Params.std (patchRun.state 140) = true ∧
      irdata Params.std (patchRun.state 140) = 0x00100513#32 := by
    decide +kernel
  obtain ⟨hroot, hstore, hack, hready, hdata⟩ := hrun
  refine ⟨hready, hdata, ?_⟩
  exact (fencei_coherent Params.std patchRun _ (rig_lineMemory _ _) 111 140
    (fun u hu => ⟨hroot u hu, vecAllowed_std _ _⟩) hack.1 hack.2 (by decide)
    (fun u h1 h2 => hstore u h2 h1) hready).2

/-- S-mode moves the root table to `0x4000` while the fetch behind it waits for the entry at
`0x3020`. -/
def movedImage (n : ℕ) : Word :=
  match n * 4 with
  | 0x1000 => 0x0000100F#32 -- fence.i
  | 0x1004 => 0x800000B7#32 -- lui x1, 0x80000
  | 0x1008 => 0x00308093#32 -- addi x1, x1, 3
  | 0x100C => 0x18009073#32 -- csrw satp, x1
  | 0x1010 => 0x80000137#32 -- lui x2, 0x80000
  | 0x1014 => 0x00410113#32 -- addi x2, x2, 4
  | 0x1018 => 0x020001B7#32 -- lui x3, 0x2000
  | 0x101C => 0xFFC18193#32 -- addi x3, x3, -4
  | 0x1020 => 0x34119073#32 -- csrw mepc, x3
  | 0x1024 => 0x00004237#32 -- lui x4, 4
  | 0x1028 => 0x02020213#32 -- addi x4, x4, 0x20
  | 0x102C => 0x30521073#32 -- csrw mtvec, x4
  | 0x1030 => 0x000012B7#32 -- lui x5, 1
  | 0x1034 => 0x80028293#32 -- addi x5, x5, -0x800
  | 0x1038 => 0x30029073#32 -- csrw mstatus, x5
  | 0x103C => 0x30200073#32 -- mret
  | 0x1FFC => 0x18011073#32 -- csrw satp, x2, at 0x1fffffc for S-mode
  | 0x2FFC => 0x0000044B#32 -- leaf for page 1
  | 0x301C => 0x00000801#32 -- level-0 table at 0x2000
  | 0x4020 => 0x0000006F#32 -- j .
  | _ => nop

def movedRun : Run Params.std := rigRun Params.std movedImage

/-- The line read at `0x3020` is installed under `0x4020`: the handler that is fetched is not what
the D-side would read. -/
theorem moved_root_splits_caches :
    (LineMemory movedRun fun t => (rig Params.std movedImage t).mem) ∧
    fenceiReq Params.std (movedRun.state 82) (movedRun.input 82) = true ∧
    (movedRun.state 82).fiDone = true ∧
    (∀ u < 208, storeAccepted Params.std (movedRun.state u) = false) ∧
    iready Params.std (movedRun.state 208) = true ∧
    iaddr Params.std (movedRun.state 208) = 0x4020#32 ∧
    irdata Params.std (movedRun.state 208) = 0x0000006F#32 ∧
    dSide Params.std (movedRun.state 208) (rig Params.std movedImage 208).mem 0x4020#32 =
      0x00000013#32 :=
  ⟨rig_lineMemory _ _, by decide +kernel⟩

end RiscvScratch.Boot
