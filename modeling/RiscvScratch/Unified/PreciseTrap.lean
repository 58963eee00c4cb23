import RiscvScratch.Unified.PmaSafety
import RiscvScratch.Unified.VectorProgress

/-! Precise traps. The trapping instruction and everything fetched after it leaves nothing behind.
-/
namespace RiscvScratch.Unified

variable {c : Cfg} {s : State} {i : Input}

variable (r : Run c)

/-- The instruction fetched in cycle `g` is in MEM. -/
def InMem (t g : ℕ) : Prop :=
  (r.state t).exmem.valid = true ∧ (tags r t).exmem = g

/-- The instruction fetched in cycle `g` is in WB. -/
def InWb (t g : ℕ) : Prop :=
  (r.state t).memwb.valid = true ∧ (tags r t).memwb = g

variable {u t g v : ℕ}

theorem mem_front (h : (r.state t).idex.valid = true) :
    (tags r t).idex ∈ front r t := by
  simp [front_cons r h]

theorem exGo_unique (ht : exGo c (r.state t) (r.input t) = true)
    (hu : exGo c (r.state u) (r.input u) = true) (h : (tags r t).idex = (tags r u).idex) :
    t = u := by
  have hmt := mem_front r (exGo_inv ht).1
  have hmu := mem_front r (exGo_inv hu).1
  obtain hlt | rfl | hlt := lt_trichotomy t u
  · exact absurd (h ▸ hmu) (not_mem_front_of_exGo r ht hlt)
  · rfl
  · exact absurd (h ▸ hmt) (not_mem_front_of_exGo r hu hlt)

theorem leaves_mem_unique (ht : InMem r t g) (hu : InMem r u g)
    (hft : freeze c (r.state t) (r.input t) = false)
    (hfu : freeze c (r.state u) (r.input u) = false) : t = u := by
  have hit := run_issued r t ht.1
  have hiu := run_issued r u hu.1
  have hw : (tags r t).left = (tags r u).left := by
    apply exGo_unique r (exKeep_inv hit.keep).1 (exKeep_inv hiu.keep).1
    rw [← hit.tag, ← hiu.tag, ht.2, hu.2]
  obtain hlt | rfl | hlt := lt_trichotomy t u
  · simp [hiu.waits t (hw ▸ hit.lt) hlt] at hft
  · rfl
  · simp [hit.waits u (hw ▸ hiu.lt) hlt] at hfu

theorem inWb_succ : InWb r (t + 1) g ↔ freeze c (r.state t) (r.input t) = false ∧ InMem r t g := by
  have hstep := run_step r t
  cases hf : freeze c (r.state t) (r.input t) with
  | true => simp [InWb, hstep, step, nextMemwb, hf, MemWb.bubble]
  | false => simp [InWb, InMem, hstep, step, nextMemwb, hf, tags, nextTags]

theorem inWb_pos (h : InWb r t g) : ∃ u, t = u + 1 := by
  cases t with
  | zero =>
    obtain ⟨u, hu⟩ := r.starts
    simp [InWb, hu, reset, MemWb.bubble] at h
  | succ u => exact ⟨u, rfl⟩

theorem inWb_unique (hm : InMem r u g)
    (hf : freeze c (r.state u) (r.input u) = false) (v : ℕ) : InWb r v g ↔ v = u + 1 := by
  constructor
  · intro h
    obtain ⟨w, rfl⟩ := inWb_pos r h
    obtain ⟨hfw, hw⟩ := (inWb_succ r).mp h
    rw [leaves_mem_unique r hw hm hfw hf]
  · rintro rfl
    exact (inWb_succ r).mpr ⟨hf, hm⟩

/-- The memory answers a scalar request of the instruction fetched in cycle `g`. -/
def Accessed (t g : ℕ) : Prop :=
  mDone c (r.state t) (r.input t) = true ∧ (tags r t).exmem = g

theorem mDone_inv (h : mDone c s i = true) :
    mPort s = true ∧ ptwBusy c s = false ∧ i.halt = false ∧ i.dReady = true := by
  simpa [mDone, mReq, and_assoc] using h

theorem freeze_of_last (h : mDone c s i = true) (hl : mLast s = true) : freeze c s i = false := by
  simp [freeze, (mDone_inv h).2.2.1, h, hl]

theorem last_of_leave (hf : freeze c s i = false) (hp : mPort s = true) :
    mDone c s i = true ∧ mLast s = true := by
  have h : i.halt = false ∧ mDone c s i = true ∧ mLast s = true := by simpa [freeze, hp] using hf
  exact h.2

theorem Accessed.inMem {r : Run c} (h : Accessed r t g) : InMem r t g :=
  ⟨valid_of_port r (mDone_inv h.1).1, h.2⟩

theorem amoPh_leave {s : State} {i : Input} (hf : freeze c s i = false)
    (ha : s.amoPh = true → s.exmem.rmw = true) : (step c s i).amoPh = false := by
  cases hr : s.exmem.rmw with
  | false => simpa [step, nextAmoPh, hr] using ha
  | true =>
    -- the atomic leaves, so its second phase is over
    have hl := last_of_leave hf (by simp [mPort, hr])
    simp only [mLast, hr, Bool.not_true, Bool.false_or] at hl
    simp [step, nextAmoPh, hr, hl]

theorem run_amoPh (t : ℕ) :
    (r.state t).amoPh = true → (r.state t).exmem.rmw = true := by
  refine r.invariant (fun _ => True) (fun s => s.amoPh = true → s.exmem.rmw = true) ?_ ?_
    (fun _ => trivial) t
  · rintro s ⟨u, rfl⟩ h
    simp [reset] at h
  · intro s i _ ih h
    cases hf : freeze c s i with
    | true =>
      simp only [machine, step, nextAmoPh, nextExmem, hf, if_true] at h ⊢
      by_contra hr
      simp_all
    | false => simp [machine, amoPh_leave hf ih] at h

theorem issued_stays {w : ℕ} (h : Issued r u w) (hv : w < v)
    (hvu : v ≤ u) :
    (r.state v).exmem = (r.state u).exmem ∧ (tags r v).exmem = (tags r u).exmem := by
  induction u, hvu using Nat.le_induction with
  | base => exact ⟨rfl, rfl⟩
  | succ u hvu ih =>
    have hf := h.waits u (by omega) (Nat.lt_succ_self u)
    have he : (r.state (u + 1)).exmem = (r.state u).exmem := by
      rw [r.steps]
      simp [machine, step, nextExmem, hf]
    have hg : (tags r (u + 1)).exmem = (tags r u).exmem := by simp [tags, nextTags, hf]
    have hu : Issued r u w := ⟨by omega, h.keep, he ▸ h.exmem, hg ▸ h.tag,
      fun x h1 h2 => h.waits x h1 (by omega)⟩
    rw [he, hg]
    exact ih hu

theorem amoPh_iff {w : ℕ} (h : Issued r u w) (hr : (r.state u).exmem.rmw = true)
    (hv : w + 1 ≤ v) (hvu : v ≤ u) :
    (r.state v).amoPh = true ↔ ∃ a, w < a ∧ a < v ∧ mDone c (r.state a) (r.input a) = true := by
  induction v, hv using Nat.le_induction with
  | base =>
    rw [run_step r, amoPh_leave (exGo_inv (exKeep_inv h.keep).1).2.1 (run_amoPh r _)]
    constructor
    · simp
    · rintro ⟨a, h1, h2, -⟩
      omega
  | succ v hv ih =>
    have hrv : (r.state v).exmem.rmw = true := by
      rw [(issued_stays r h (by omega) (by omega)).1, hr]
    have hstep := run_step r v
    have hf := h.waits v (by omega) (by omega)
    have ih := ih (by omega)
    cases hd : mDone c (r.state v) (r.input v) with
    | true =>
      have hph : (r.state v).amoPh = false := by
        by_contra hp
        have hl : mLast (r.state v) = true := by simp [mLast, Bool.eq_true_of_not_eq_false hp]
        simp [freeze_of_last hd hl] at hf
      have : (r.state (v + 1)).amoPh = true := by simp [hstep, step, nextAmoPh, hrv, hd, hph]
      exact ⟨fun _ => ⟨v, by omega, Nat.lt_succ_self v, hd⟩, fun _ => this⟩
    | false =>
      have : (r.state (v + 1)).amoPh = (r.state v).amoPh := by simp [hstep, step, nextAmoPh, hd]
      rw [this, ih]
      constructor
      · rintro ⟨a, h1, h2, h3⟩
        exact ⟨a, h1, by omega, h3⟩
      · rintro ⟨a, h1, h2, h3⟩
        obtain h2 | rfl := Nat.lt_succ_iff_lt_or_eq.mp h2
        · exact ⟨a, h1, h2, h3⟩
        · simp [hd] at h3

/-- The instruction that leaves MEM in cycle `u` has done all it had to do, once. -/
structure Completed (r : Run c) (u : ℕ) : Prop where
  leaves : freeze c (r.state u) (r.input u) = false
  wb : ∀ v, InWb r v (tags r u).exmem ↔ v = u + 1
  write : (r.state (u + 2)).regs = (r.state (u + 1)).regs.write (r.state u).exmem.regWrite
    (r.state u).exmem.rd (memwbValue (r.state u) (r.input u))
  noPort : mPort (r.state u) = false → ∀ v, ¬ Accessed r v (tags r u).exmem
  access : mPort (r.state u) = true → (r.state u).exmem.rmw = false →
    ∀ v, Accessed r v (tags r u).exmem ↔ v = u
  atomic : (r.state u).exmem.rmw = true → ∃ a < u, dWe c (r.state a) = 0#4 ∧
    dWe c (r.state u) ≠ 0#4 ∧ ∀ v, Accessed r v (tags r u).exmem ↔ v = a ∨ v = u

/-- An access of an instruction that leaves MEM in cycle `u` is made by then, and before `u`
only while it is frozen. -/
theorem accessed_le (hm : InMem r u g)
    (hf : freeze c (r.state u) (r.input u) = false) (ha : Accessed r v g) :
    v ≤ u ∧ (tags r v).left = (tags r u).left := by
  have hiu := run_issued r u hm.1
  have hiv := run_issued r v ha.inMem.1
  have hw : (tags r v).left = (tags r u).left := by
    apply exGo_unique r (exKeep_inv hiv.keep).1 (exKeep_inv hiu.keep).1
    rw [← hiv.tag, ← hiu.tag, ha.2, hm.2]
  refine ⟨?_, hw⟩
  by_contra hlt
  simp [hiv.waits u (hw ▸ hiu.lt) (by omega)] at hf

theorem accessed_early (hm : InMem r u g)
    (hf : freeze c (r.state u) (r.input u) = false) (ha : Accessed r v g) (hv : v < u) :
    (r.state u).exmem.rmw = true ∧ (r.state v).amoPh = false := by
  obtain ⟨-, hw⟩ := accessed_le r hm hf ha
  have hiu := run_issued r u hm.1
  have hiv := run_issued r v ha.inMem.1
  have hwv : (tags r u).left < v := hw ▸ hiv.lt
  have hfv := hiu.waits v hwv hv
  have hl : mLast (r.state v) = false := by
    by_contra hl
    simp [freeze_of_last ha.1 (Bool.eq_true_of_not_eq_false hl)] at hfv
  simp only [mLast, Bool.or_eq_false_iff, Bool.not_eq_false'] at hl
  rw [← (issued_stays r hiu hwv hv.le).1]
  exact hl

theorem atomic_once (hm : InMem r u (tags r u).exmem)
    (hf : freeze c (r.state u) (r.input u) = false) (hr : (r.state u).exmem.rmw = true) :
    ∃ a < u, dWe c (r.state a) = 0#4 ∧ dWe c (r.state u) ≠ 0#4 ∧
      ∀ v, Accessed r v (tags r u).exmem ↔ v = a ∨ v = u := by
  have hiu := run_issued r u hm.1
  have hlt := hiu.lt
  obtain ⟨hdu, hlu⟩ := last_of_leave hf (by simp [mPort, hr])
  have hphu : (r.state u).amoPh = true := by simpa [mLast, hr] using hlu
  obtain ⟨a, hwa, hau, hda⟩ := (amoPh_iff r hiu hr hlt le_rfl).mp hphu
  obtain ⟨hea, hga⟩ := issued_stays r hiu hwa hau.le
  have hacc : Accessed r a (tags r u).exmem := ⟨hda, hga⟩
  have hpha := (accessed_early r hm hf hacc hau).2
  -- an atomic is neither a store nor an SC, so its phase alone decides the direction
  have hst : ∀ x, (r.state x).exmem = (r.state u).exmem →
      mWrite (r.state x) = (r.state x).amoPh := by
    intro x hx
    have hw := run_idex_wf r (tags r u).left
    have hrw : (r.state (tags r u).left).idex.rmw = true := by
      have := hr
      rwa [hiu.exmem] at this
    have hmw := (hw.amo (.inr (.inr hrw))).2
    have hsc : (r.state (tags r u).left).idex.sc = false := by
      by_contra hs
      simp [hw.amoKind.2 (Bool.eq_true_of_not_eq_false hs)] at hrw
    simp [mWrite, mStore, scOk, hx, hiu.exmem, executed, hmw, hsc, hrw]
  have hport : ∀ x, mDone c (r.state x) (r.input x) = true →
      (dWe c (r.state x) = 0#4 ↔ mWrite (r.state x) = false) := by
    intro x hx
    obtain ⟨hp, hb, -⟩ := mDone_inv hx
    exact (mem_port hb ((run_vecHeld r x).not_active hp)).1
  refine ⟨a, hau, (hport a hda).mpr (by rw [hst a hea, hpha]), fun h0 => ?_, fun v => ⟨?_, ?_⟩⟩
  · have := (hport u hdu).mp h0
    rw [hst u rfl, hphu] at this
    simp at this
  · intro hv
    obtain ⟨hvu, hw⟩ := accessed_le r hm hf hv
    obtain hvu | rfl := Nat.lt_or_eq_of_le hvu
    · left
      have hphv := (accessed_early r hm hf hv hvu).2
      have hwv : (tags r u).left < v := hw ▸ (run_issued r v hv.inMem.1).lt
      obtain hva | rfl | hav := lt_trichotomy v a
      · have := (amoPh_iff r hiu hr (v := a) (by omega) (by omega)).mpr ⟨v, hwv, hva, hv.1⟩
        simp [hpha] at this
      · rfl
      · have := (amoPh_iff r hiu hr (v := v) (by omega) (by omega)).mpr ⟨a, hwa, hav, hda⟩
        simp [hphv] at this
    · exact .inr rfl
  · rintro (rfl | rfl)
    · exact hacc
    · exact ⟨hdu, rfl⟩

theorem completed_of_leave (hv : (r.state u).exmem.valid = true)
    (hf : freeze c (r.state u) (r.input u) = false) : Completed r u := by
  have hm : InMem r u (tags r u).exmem := ⟨hv, rfl⟩
  refine ⟨hf, inWb_unique r hm hf, ?_, fun hp v ha => ?_, fun hp hr v => ⟨fun ha => ?_, ?_⟩,
    atomic_once r hm hf⟩
  · have h1 : (r.state (u + 1)).memwb = retired (r.state u) (r.input u) := by
      rw [r.steps]
      simp [machine, step, nextMemwb, hf, retired]
    have h2 : r.state (u + 2) = step c (r.state (u + 1)) (r.input (u + 1)) := r.steps (u + 1)
    rw [h2]
    simp only [step, h1, retired]
  · obtain hvu | rfl := Nat.lt_or_eq_of_le (accessed_le r hm hf ha).1
    · have := (accessed_early r hm hf ha hvu).1
      simp [mPort, this] at hp
    · simp [(mDone_inv ha.1).1] at hp
  · obtain hvu | rfl := Nat.lt_or_eq_of_le (accessed_le r hm hf ha).1
    · simp [(accessed_early r hm hf ha hvu).1] at hr
    · rfl
  · rintro rfl
    exact ⟨(last_of_leave hf hp).1, rfl⟩

theorem redirect_of_trap (h : takeTrap c s i = true) : redirect c s i = true := by
  simp [redirect, h]

/-- What is in EX and was fetched no earlier than the trapping instruction, and no later than the
trap, is the trapping instruction itself. -/
theorem trap_window (ht : takeTrap c (r.state t) (r.input t) = true)
    (hv : (r.state u).idex.valid = true) (hlo : (tags r t).idex ≤ (tags r u).idex)
    (hhi : (tags r u).idex ≤ t) : u ≤ t ∧ (tags r u).idex = (tags r t).idex := by
  have hq := front_conveyor r
  have hmu := mem_front r hv
  have hmt := mem_front r (exGo_inv (takeTrap_exGo ht)).1
  have hut : u ≤ t := by
    by_contra hn
    have := hq.le_of_clear (front_of_redirect r (redirect_of_trap ht)) (by omega) hmu
    omega
  refine ⟨hut, le_antisymm ?_ hlo⟩
  exact hq.head_le (front_cons r hv) (hq.mem_of_le hmt (lt_of_le_of_lt hlo (hq.lt hmu)) hut)

theorem trap_no_keep (ht : takeTrap c (r.state t) (r.input t) = true)
    (hk : exKeep c (r.state u) (r.input u) = true) (hlo : (tags r t).idex ≤ (tags r u).idex)
    (hhi : (tags r u).idex ≤ t) : False := by
  have hg := (exKeep_inv hk).1
  obtain ⟨-, htag⟩ := trap_window r ht (exGo_inv hg).1 hlo hhi
  obtain rfl := exGo_unique r hg (takeTrap_exGo ht) htag
  simp [exKeep, ht] at hk

/-- What the instruction fetched in cycle `g` can leave behind in cycle `u`. -/
inductive Effect (r : Run c) (g u : ℕ) : Prop
  | register (h : (r.state u).memwb.regWrite = true) (hg : (tags r u).memwb = g)
  | access (h : mReq c (r.state u) (r.input u) = true) (hg : (tags r u).exmem = g)
  | csr (h : csrCommit c (r.state u) (r.input u) = true) (hg : (tags r u).idex = g)
  | config (h : vCfgCommit c (r.state u) (r.input u) = true) (hg : (tags r u).idex = g)
  | ret (h : mretEx c (r.state u) (r.input u) = true ∨ sretEx c (r.state u) (r.input u) = true)
      (hg : (tags r u).idex = g)
  | fence (h : sfenceEx c (r.state u) (r.input u) = true) (hg : (tags r u).idex = g)

theorem Effect.keep {r : Run c} (h : Effect r g u) :
    ∃ w, exKeep c (r.state w) (r.input w) = true ∧ (tags r w).idex = g := by
  have hmem : ∀ v, InMem r v g → ∃ w, exKeep c (r.state w) (r.input w) = true ∧
      (tags r w).idex = g := by
    intro v hv
    have hi := run_issued r v hv.1
    exact ⟨_, hi.keep, by rw [← hi.tag, hv.2]⟩
  cases h with
  | register h hg =>
    have hv : (r.state u).memwb.valid = true := by
      cases u with
      | zero =>
        obtain ⟨x, hx⟩ := r.starts
        simp [hx, reset, MemWb.bubble] at h
      | succ u =>
        rw [r.steps] at h ⊢
        simp only [machine, step, nextMemwb] at h ⊢
        split_ifs at h ⊢
        · simp [MemWb.bubble] at h
        · obtain hv | hv := run_exmem_bubble r u
          · exact hv
          · simp [hv, ExMem.bubble] at h
    obtain ⟨v, rfl⟩ := inWb_pos r ⟨hv, hg⟩
    exact hmem v ((inWb_succ r).mp ⟨hv, hg⟩).2
  | access h hg =>
    simp only [mReq, Bool.and_eq_true] at h
    exact hmem u ⟨valid_of_port r h.1.1, hg⟩
  | csr h hg =>
    simp only [csrCommit, Bool.and_eq_true] at h
    exact ⟨u, by simp [exKeep, h], hg⟩
  | config h hg =>
    simp only [vCfgCommit, Bool.and_eq_true] at h
    exact ⟨u, by simp [exKeep, h], hg⟩
  | ret h hg =>
    simp only [mretEx, sretEx, Bool.and_eq_true] at h
    exact ⟨u, by obtain h | h := h <;> simp [exKeep, h], hg⟩
  | fence h hg =>
    simp only [sfenceEx, Bool.and_eq_true] at h
    exact ⟨u, by simp [exKeep, h], hg⟩

theorem trap_no_effect (ht : takeTrap c (r.state t) (r.input t) = true)
    (hlo : (tags r t).idex ≤ g) (hhi : g ≤ t) : ¬ Effect r g u := by
  intro h
  obtain ⟨w, hk, rfl⟩ := h.keep
  exact trap_no_keep r ht hk hlo hhi

theorem vMemDone_inv (h : vMemDone c s i = true) :
    vMemWant c s = true ∧ vXlFault c s = false ∧ vBusy c s = true ∧ i.halt = false := by
  simp only [vMemDone, vReqG, vMemReq, Vec.memReq, Bool.and_eq_true, Bool.not_eq_true'] at h
  obtain ⟨⟨⟨⟨he, ⟨hw, -⟩, hf⟩, -⟩, hl⟩, -⟩ := h
  refine ⟨by simp [vMemWant, he, hw], hf, ?_, hl⟩
  simp only [Vec.memWant, Vec.memActive, Bool.and_eq_true] at hw
  simp [vBusy, he, hw]

theorem relatched_instr : (relatched s).instr = s.idex.instr := rfl

theorem busy_stays (hb : vBusy c (r.state v) = true) :
    vRunning c (r.state (v + 1)) = true ∧ (tags r (v + 1)).idex = (tags r v).idex ∧
      (r.state (v + 1)).idex.instr = (r.state v).idex.instr ∧
      Idle c (r.state v) (r.input v) := by
  have hstep := run_step r v
  have he := vRunning_ext (c := c) (s := r.state v) (by simp [vRunning, hb])
  have hr : vRunning c (r.state (v + 1)) = true := by
    have hf : (r.state v).vec.fsm ≠ .idle := by simpa [vBusy, he, Vec.busy] using hb
    have := Vec.step_running c.vlen (vecInput c (r.state v) (r.input v)) hf
    rw [hstep]
    simpa [vRunning, vBusy, vDone, he, Vec.busy, vec_step_eq he] using this
  rw [hstep] at hr
  obtain ⟨hh, -, hx, -⟩ := (run_vecHeld r v).keeps hr
  rw [hstep, hx]
  exact ⟨hr, by simp [tags, nextTags, hh], relatched_instr,
    idle_of_not_exGo (not_exGo_of_hold hh)⟩

theorem past_until (hl : HaltLatched r) (ht : exGo c (r.state t) (r.input t) = true)
    (hu : vMemDone c (r.state u) (r.input u) = true)
    (htag : (tags r u).idex = (tags r t).idex) (huv : u + 1 ≤ v) (hvt : v ≤ t) :
    vRunning c (r.state v) = true ∧ (tags r v).idex = (tags r t).idex ∧
      (r.state v).idex.instr = (r.state u).idex.instr ∧
      Vec.Past c.vlen (r.state u).vec.idx (r.state u).idex.instr (r.state v).vec := by
  have hvec : ∀ x, vBusy c (r.state x) = true → (r.state (x + 1)).vec =
      Vec.step c.vlen (r.state x).vec (vecInput c (r.state x) (r.input x)) := by
    intro x hx
    rw [r.steps]
    exact vec_step_eq (vRunning_ext (s := r.state x) (by simp [vRunning, hx]))
  induction v, huv using Nat.le_induction with
  | base =>
    obtain ⟨hw, hnf, hb, -⟩ := vMemDone_inv hu
    obtain ⟨hr, hg, hi, hid⟩ := busy_stays r hb
    refine ⟨hr, hg.trans htag, hi, ?_⟩
    rw [hvec u hb]
    simp only [vMemWant, Vec.memWant, Bool.and_eq_true, beq_iff_eq] at hw
    refine Vec.next_past (i := vecInput c (r.state u) (r.input u)) hid.cfg
      (by simp [vecInput, hid.csr]) hw.2.1.1.1 (run_clean r u) hw.2.1.2 le_rfl
      (by simp [vecInput, hnf]) (by simp [vecInput, hu])
  | succ v huv ih =>
    obtain ⟨hr, hg, hi, hp⟩ := ih (by omega)
    -- the end of the instruction would let it leave before `t`, or leave the core halted
    have hb : vBusy c (r.state v) = true := by
      by_contra hnb
      have hd : vDone c (r.state v) = true := by simpa [vRunning, hnb] using hr
      have hnl : (r.input v).halt = false := by
        by_contra hh
        have := hl.le (Bool.eq_true_of_not_eq_false hh) (show v ≤ t by omega)
        simp [exGo, freeze, this] at ht
      have hgo := exGo_of_done (run_idex_wf r v) (run_vecHeld r v) hd hnl
      have := exGo_unique r hgo ht hg
      omega
    obtain ⟨hr', hg', hi', hid⟩ := busy_stays r hb
    refine ⟨hr', hg'.trans hg, hi'.trans hi, ?_⟩
    have he := vRunning_ext hr
    have hf : (r.state v).vec.fsm ≠ .idle := by simpa [vBusy, he, Vec.busy] using hb
    rw [hvec v hb, ← hi]
    rw [← hi] at hp
    exact Vec.Past.step (i := vecInput c (r.state v) (r.input v)) hp (run_clean r v) hf hid.cfg
      (by simp [vecInput, hid.csr])

/-- An element accepted for an instruction of the window is one below the `vstart` of the vector
fault that traps. -/
theorem trap_element (hl : HaltLatched r)
    (ht : takeTrap c (r.state t) (r.input t) = true)
    (hu : vMemDone c (r.state u) (r.input u) = true) (hlo : (tags r t).idex ≤ (tags r u).idex)
    (hhi : (tags r u).idex ≤ t) :
    (tags r u).idex = (tags r t).idex ∧ u < t ∧ vFaultNow c (r.state t) = true ∧
      (r.state u).vec.idx.toNat < (r.state t).vec.vstart.toNat := by
  have hgo := takeTrap_exGo ht
  have hb := (vMemDone_inv hu).2.2.1
  have hrun : vRunning c (r.state u) = true := by simp [vRunning, hb]
  obtain ⟨hut, htag⟩ := trap_window r ht ((run_vecHeld r u).valid hrun) hlo hhi
  have hlt : u < t := by
    refine lt_of_le_of_ne hut fun h => ?_
    subst h
    have hh := exHold_of_wait ((run_vecHeld r u).wait (i := r.input u) hb)
    simp [not_exGo_of_hold hh] at hgo
  obtain ⟨hr, -, -, hp⟩ := past_until r hl hgo hu htag hlt le_rfl
  have hnb : vBusy c (r.state t) = false := by
    by_contra hbt
    have hh := exHold_of_wait
      ((run_vecHeld r t).wait (i := r.input t) (Bool.eq_true_of_not_eq_false hbt))
    simp [not_exGo_of_hold hh] at hgo
  have hd : vDone c (r.state t) = true := by simpa [vRunning, hnb] using hr
  have hvec := (run_vecHeld r t).vec hr
  have hirq : irqTake c (r.state t) (r.input t) = false := by simp [irqTake, hvec, hd]
  have hexc : vFaultNow c (r.state t) = true := by
    simpa [takeTrap, hgo, hirq, exception_eq, run_otherException r t hr] using ht
  refine ⟨htag, hlt, hexc, hp.fault ?_⟩
  simp only [vFaultNow, vFault, Bool.and_eq_true] at hexc
  exact hexc.2.2

theorem trap_epc (ht : takeTrap c s i = true) :
    if Csr.deleg c.csr s.csr (trapCause c s i) then (step c s i).csr.sepc = s.idex.pc
    else (step c s i).csr.mepc = s.idex.pc := by
  split_ifs with hd <;> simp [step, Csr.step, Csr.commit, ht, Csr.trapEnter, csrCommand, hd]

/-- What a trap in cycle `t` means for the instructions of the pipe. -/
structure PreciseTrap (r : Run c) (t : ℕ) : Prop where
  epc : if Csr.deleg c.csr (r.state t).csr (trapCause c (r.state t) (r.input t))
    then (r.state (t + 1)).csr.sepc = (r.state t).idex.pc
    else (r.state (t + 1)).csr.mepc = (r.state t).idex.pc
  mem : (r.state t).exmem.valid = true → Completed r t
  wb : (r.state t).memwb.valid = true →
    ∃ u, u + 1 = t ∧ (tags r u).exmem = (tags r t).memwb ∧ Completed r u
  squashed : ∀ g, (tags r t).idex ≤ g → g ≤ t → ∀ u, ¬ Effect r g u
  element : ∀ u, vMemDone c (r.state u) (r.input u) = true →
    (tags r t).idex ≤ (tags r u).idex → (tags r u).idex ≤ t →
    (tags r u).idex = (tags r t).idex ∧ u < t ∧ vFaultNow c (r.state t) = true ∧
      (r.state u).vec.idx.toNat < (r.state t).vec.vstart.toNat

/-- Traps are precise; with a vector unit this needs the halt register to be a latch, for its end is
a pulse a halted core would miss. -/
theorem trap_is_precise (c : Cfg) (r : Run c) (hl : c.vExt = true → HaltLatched r) (t : ℕ)
    (ht : takeTrap c (r.state t) (r.input t) = true) : PreciseTrap r t := by
  have hf := (exGo_inv (takeTrap_exGo ht)).2.1
  refine ⟨?_, fun hv => completed_of_leave r hv hf, fun hv => ?_,
    fun g h1 h2 u => trap_no_effect r ht h1 h2, fun u hu h1 h2 => ?_⟩
  · rw [r.steps]
    exact trap_epc ht
  · obtain ⟨u, rfl⟩ := inWb_pos r ⟨hv, rfl⟩
    obtain ⟨hfu, hm⟩ := (inWb_succ r).mp ⟨hv, rfl⟩
    exact ⟨u, rfl, hm.2, completed_of_leave r hm.1 hfu⟩
  · have he : c.vExt = true := by
      have := (vMemDone_inv hu).2.2.1
      simp only [vBusy, Bool.and_eq_true] at this
      exact this.1
    exact trap_element r (hl he) ht hu h1 h2

/-- An `ecall` behind a store and an addition. -/
def ecallImage (a : Word) : Word :=
  match a with
  | 0x00#32 => 0x00500093#32 -- addi x1, x0, 5
  | 0x04#32 => 0x10102023#32 -- sw x1, 0x100(x0)
  | 0x08#32 => 0x00000073#32 -- ecall
  | _ => nop

def ecallRun : Run strayCfg := benchRun strayCfg ecallImage (fun _ => true) (fun _ => true)

theorem ecall_precise : (takeTrap strayCfg (ecallRun.state 4) (ecallRun.input 4) = true ∧
      (ecallRun.state 4).exmem.valid = true ∧ (ecallRun.state 4).memwb.valid = true) ∧
    PreciseTrap ecallRun 4 := by
  refine ⟨by decide +kernel, trap_is_precise strayCfg ecallRun (fun _ t h => ?_) 4 ?_⟩
  · exact absurd h (by simp [ecallRun, benchRun, Clocked.Machine.runOf, bench])
  · decide +kernel

end RiscvScratch.Unified
