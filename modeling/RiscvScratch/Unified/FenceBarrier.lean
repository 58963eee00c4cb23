import RiscvScratch.Unified.FenceComplete
import RiscvScratch.Unified.UserSafety

/-! `sfence.vma` as a fetch barrier. The fence discards nothing behind it, so what is in ID and IF
when it commits was fetched through the old entries. -/
namespace RiscvScratch.Unified

variable {c : Cfg} {s : State} {i : Input}

/-- Nothing younger than the instruction in EX is in the pipe after this cycle. -/
def AlonePast (c : Cfg) (s : State) (i : Input) : Prop :=
  redirect c s i = true ∨ (s.ifid.valid = false ∧ ifOk c s i = false)

def TurnsOn (c : Cfg) (s : State) (i : Input) : Prop :=
  csrCommit c s i = true ∧ s.idex.csrAddr = Csr.satpA ∧ inM s = false ∧
    s.csr.satp.getLsbD 31 = false ∧ (satpNew s).getLsbD 31 = true

/-- The fence, or the switch, finds the pipe behind it empty, and no walk crosses the fence. -/
structure BarrierOk (c : Cfg) (s : State) (i : Input) : Prop where
  fence : fullFence c s i = true → vmOn c s = true → AlonePast c s i
  crossing : fullFence c s i = true → ¬ WalkCrosses c s i
  switch : TurnsOn c s i → AlonePast c s i

theorem front_of_alone (r : Run c) {t : ℕ} (hg : exGo c (r.state t) (r.input t) = true)
    (ha : AlonePast c (r.state t) (r.input t)) : front r (t + 1) = [] := by
  obtain hr | ⟨hv, ho⟩ := ha
  · exact front_of_redirect r hr
  · have hstep := run_step r t
    obtain ⟨-, hf, hh⟩ := exGo_inv hg
    cases step_move c (r.state t) (r.input t) with
    | frozen hf' => simp [hf] at hf'
    | held _ hh' => simp [hh] at hh'
    | flushed _ hr => exact front_of_redirect r hr
    | bubbled _ _ _ _ _ hid hex _ _ =>
      simp [front, behind, hstep, hid, hex, hv, IdEx.bubble]
    | advanced _ _ _ _ _ hid hex _ _ =>
      simp [front, behind, hstep, hid, hex, ho, hv, starved, decode]

theorem vmOn_turned (hr : redirect c s i = false) (h0 : vmOn c s = false)
    (h1 : vmOn c (step c s i) = true) : TurnsOn c s i := by
  have hm := vmOn_mmu h1
  simp only [redirect, Bool.or_eq_false_iff] at hr
  have hp : (step c s i).csr.priv = s.csr.priv := Csr.step_priv _ _ hr.1.1.1 hr.1.1.2 hr.1.2
  have hinM : inM (step c s i) = inM s := by simp [inM, hp]
  simp only [vmOn, hm, satpVal_mmu hm, hinM, Bool.true_and, Bool.and_eq_true,
    Bool.not_eq_true'] at h0 h1
  have hoff : s.csr.satp.getLsbD 31 = false := by simpa [h1.1] using h0
  have hne : (step c s i).csr.satp ≠ s.csr.satp := by
    intro he
    rw [he, hoff] at h1
    simp at h1
  obtain ⟨hc, ha, hn⟩ := satp_moves hne
  exact ⟨hc, ha, h1.1, hoff, hn ▸ h1.2⟩

theorem csrCommit_exGo (h : csrCommit c s i = true) : exGo c s i = true := by
  simp only [csrCommit, Bool.and_eq_true] at h
  exact h.1.1

theorem vmOn_front (r : Run c) (hok : ∀ t, BarrierOk c (r.state t) (r.input t)) {g t : ℕ}
    (hg : g ∈ front r t) (hon : vmOn c (r.state t) = true) {x : ℕ} (hgx : g ≤ x) (hxt : x ≤ t) :
    vmOn c (r.state x) = true := by
  induction t, hxt using Nat.le_induction with
  | base => exact hon
  | succ t hxt ih =>
    have hstep := run_step r t
    have hr : redirect c (r.state t) (r.input t) = false := by
      by_contra hr
      rw [front_of_redirect r (Bool.eq_true_of_not_eq_false hr)] at hg
      simp at hg
    have hont : vmOn c (r.state t) = true := by
      by_contra hoff
      have ht := vmOn_turned hr (Bool.eq_false_of_not_eq_true hoff) (hstep ▸ hon)
      have := front_of_alone r (csrCommit_exGo ht.1) ((hok t).switch ht)
      simp [this] at hg
    obtain hxt | rfl := Nat.lt_or_eq_of_le hxt
    · exact ih ((front_conveyor r).mem_of_le hg (by omega) (Nat.le_succ t)) hont
    · exact hont

theorem fullFence_exGo (h : fullFence c s i = true) : exGo c s i = true := by
  simp only [fullFence, sfenceEx, Bool.and_eq_true] at h
  exact h.1.1.1

theorem fetched_after (r : Run c) (hok : ∀ t, BarrierOk c (r.state t) (r.input t)) {t₀ t g : ℕ}
    (hf : fullFence c (r.state t₀) (r.input t₀) = true) (ht : t₀ < t) (hg : g ∈ front r t)
    (hon : vmOn c (r.state t) = true) : t₀ < g := by
  by_contra hle
  have hon₀ := vmOn_front r hok hg hon (x := t₀) (by omega) ht.le
  have hempty := front_of_alone r (fullFence_exGo hf) ((hok t₀).fence hf hon₀)
  have := (front_conveyor r).mem_of_le hg (u := t₀ + 1) (by omega) ht
  simp [hempty] at this

/-- The instruction that commits in cycle `t` was fetched in `f` through the entry `k`, whose walk
started after `t₀`. -/
structure FreshFetch (r : Run c) (t₀ t f k a u v : ℕ) : Prop where
  after : t₀ ≤ a
  accepted : iReq c (r.state f) (r.input f) = true ∧ (r.input f).iReady = true
  pc : (r.state t).idex.pc = (r.state f).pc
  instr : (r.state t).idex.instr = (r.input f).iRdata
  hit : hitOn c (r.state f) true = some k
  addr : iAddr c (r.state f) = ((r.state f).itlb.entry k).pa (r.state f).pc
  entry : EntryFrom r true k f a u v

theorem hit_entry (hon : vmOn c s = true) (hh : (itlb c s).hit = true) :
    ∃ k, hitOn c s true = some k ∧ iAddr c s = (s.itlb.entry k).pa s.pc := by
  have hm := vmOn_mmu hon
  simp only [itlb, hm, ↓reduceIte, Tlb.lookup] at hh
  cases hf : Tlb.find s.itlb s.pc c.tlbEntries with
  | none => simp [hf] at hh
  | some k => exact ⟨k, by simp [hitOn, tlbOf, hf], by simp [iAddr, hon, itlb, hm, Tlb.lookup, hf]⟩

/-- Where fences and switches find the pipe behind them empty, and no walk crosses a fence, a full
fence is a fetch barrier. -/
theorem fence_barrier (c : Cfg) (hm : c.mmu = true) (r : Run c)
    (hok : ∀ t, BarrierOk c (r.state t) (r.input t)) (t₀ t : ℕ)
    (hf : fullFence c (r.state t₀) (r.input t₀) = true) (ht : t₀ < t)
    (hk : exKeep c (r.state t) (r.input t) = true) (hon : vmOn c (r.state t) = true) :
    ∃ k a u v, FreshFetch r t₀ t (tags r t).idex k a u v := by
  have hd := delivered_of_keep r hk
  have hlt := fetched_after r hok hf ht hd.mem hon
  have hfon := vmOn_front r hok hd.mem hon le_rfl ((front_conveyor r).lt hd.mem).le
  obtain ⟨k, hhit, haddr⟩ := hit_entry hfon (fetch_hits hfon hd.noFault hd.noWalk)
  obtain ⟨-, hcov⟩ := Tlb.find_some hhit
  simp only [Tlb.Entry.covers, Bool.and_eq_true] at hcov
  obtain ⟨a, u, v, ha, he⟩ := entry_late hm r hf ((hok t₀).crossing hf) true k hlt hcov.1
  exact ⟨k, a, u, v, ha, hd.accepted, hd.pc, hd.instr, hhit, haddr, he⟩

instance (c : Cfg) (s : State) (i : Input) : Decidable (AlonePast c s i) :=
  inferInstanceAs (Decidable (_ ∨ _))

instance (c : Cfg) (s : State) (i : Input) : Decidable (TurnsOn c s i) :=
  inferInstanceAs (Decidable (_ ∧ _ ∧ _ ∧ _ ∧ _))

instance (c : Cfg) (s : State) (i : Input) : Decidable (BarrierOk c s i) :=
  decidable_of_iff ((fullFence c s i = true → vmOn c s = true → AlonePast c s i) ∧
      (fullFence c s i = true → ¬ WalkCrosses c s i) ∧ (TurnsOn c s i → AlonePast c s i))
    ⟨fun h => ⟨h.1, h.2.1, h.2.2⟩, fun h => ⟨h.fence, h.crossing, h.switch⟩⟩

/-- Boots into S-mode at `0x100`, where a full fence is the first instruction. -/
def barrierImage (a : Word) : Word :=
  match a with
  | 0x14#32 => 0x000011B7#32 -- lui x3, 1
  | 0x18#32 => 0x80018193#32 -- addi x3, x3, -0x800
  | 0x1C#32 => 0x30019073#32 -- csrw mstatus, x3
  | 0x20#32 => 0x30200073#32 -- mret
  | 0x100#32 => 0x12000073#32 -- sfence.vma x0, x0
  | 0x1000#32 => 0x000000CF#32 -- leaf for the first 4 MiB
  | _ => userImage a

/-- The SoC halts in cycle 22. -/
def barrierEnv (iReady : ℕ → Bool) (t : ℕ) (s : State) : Input :=
  { bench Cfg.paged barrierImage iReady (fun _ => true) t s with halt := decide (22 ≤ t) }

def barrierRun (iReady : ℕ → Bool) : Run Cfg.paged :=
  (machine Cfg.paged).runOf (barrierEnv iReady) (reset Cfg.paged (blank Cfg.paged))
    (blank_starts _)

theorem barrierOk_of_halt (h : i.halt = true) : BarrierOk c s i := by
  have hg : exGo c s i = false := not_exGo_of_freeze (by simp [freeze, h])
  have hi := idle_of_not_exGo hg
  have hf : fullFence c s i = false := by simp [fullFence, hi.sfence]
  refine ⟨fun h => ?_, fun h => ?_, fun h => ?_⟩
  · simp [hf] at h
  · simp [hf] at h
  · simp [TurnsOn, hi.csr] at h

/-- With the I-port busy behind the fence of cycle 15, the next instruction is fetched in
cycle 18 through a new entry. -/
theorem fence_alone_is_barrier :
    ∃ k a u v, FreshFetch (barrierRun fun t => t != 14 && t != 15) 15 20
      (tags (barrierRun fun t => t != 14 && t != 15) 20).idex k a u v := by
  refine fence_barrier Cfg.paged rfl (barrierRun fun t => t != 14 && t != 15) (fun t => ?_) 15 20
    (by decide +kernel) (by decide) (by decide +kernel) (by decide +kernel)
  by_cases ht : t < 22
  · have hall : ∀ t < 22, BarrierOk Cfg.paged
        ((barrierRun fun t => t != 14 && t != 15).state t)
        ((barrierRun fun t => t != 14 && t != 15).input t) := by decide +kernel
    exact hall t ht
  · exact barrierOk_of_halt (decide_eq_true (by omega))

/-- The instruction behind the fence commits in cycle 16 and was fetched in cycle 14, before the
fence committed. -/
theorem fetched_before_fence : fullFence Cfg.paged ((barrierRun fun _ => true).state 15)
        ((barrierRun fun _ => true).input 15) = true ∧
      exKeep Cfg.paged ((barrierRun fun _ => true).state 16)
        ((barrierRun fun _ => true).input 16) = true ∧
      vmOn Cfg.paged ((barrierRun fun _ => true).state 16) = true ∧
      ¬ ∃ k a u v, FreshFetch (barrierRun fun _ => true) 15 16
        (tags (barrierRun fun _ => true) 16).idex k a u v := by
  refine ⟨by decide +kernel, by decide +kernel, by decide +kernel, ?_⟩
  rintro ⟨k, a, u, v, h⟩
  have hf : (tags (barrierRun fun _ => true) 16).idex = 14 := by decide +kernel
  have hord := h.entry.order
  have hafter := h.after
  rw [hf] at hord
  omega

end RiscvScratch.Unified
