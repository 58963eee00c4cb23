import RiscvScratch.Pipe.Refinement

/-! The branch-predicting pipeline. EX checks a guess only for control instructions, so every valid
BTB entry must belong to a word that holds one. -/
namespace RiscvScratch
open Pipe

theorem Imem.fetch_congr (img : Imem) {p q : Word} (h : p.toNat / 4 = q.toNat / 4) :
    img.fetch p = img.fetch q := by
  have hx : p.extractLsb' 2 10 = q.extractLsb' 2 10 := by
    apply BitVec.eq_of_toNat_eq
    simp only [BitVec.extractLsb'_toNat, Nat.shiftRight_eq_div_pow, Nat.reducePow, h]
  rw [Imem.fetch, hx, Imem.fetch]

namespace CpuPipeBp

/-- The tag and index of a valid entry name a control instruction, whatever the other PC bits. -/
def BtbSound (idxBits : ℕ) (img : Imem) (bp : BranchPredictor.State) : Prop :=
  ∀ pc, BranchPredictor.btbHit idxBits bp pc = true → isCtrl (img.fetch pc) = true

theorem btbSound_reset (idxBits : ℕ) (img : Imem) : BtbSound idxBits img BranchPredictor.reset := by
  intro pc h
  simp [BranchPredictor.btbHit, BranchPredictor.reset] at h

theorem BtbSound.step {idxBits : ℕ} {img : Imem} {bp : BranchPredictor.State}
    (h : BtbSound idxBits img bp) {u : BranchPredictor.Update}
    (hu : u.en = true → isCtrl (img.fetch u.pc) = true) :
    BtbSound idxBits img (BranchPredictor.step idxBits bp u) := by
  intro pc hit
  cases hen : u.en
  · simp only [BranchPredictor.step, hen, Bool.false_eq_true, ↓reduceIte] at hit
    exact h pc hit
  cases ht : u.taken
  · simp only [BranchPredictor.step, hen, ht, Bool.false_eq_true, ↓reduceIte] at hit
    exact h pc hit
  simp only [BranchPredictor.step, hen, ht, ↓reduceIte, BranchPredictor.btbHit,
    Bool.and_eq_true, beq_iff_eq] at hit
  by_cases hi : BranchPredictor.index idxBits pc = BranchPredictor.index idxBits u.pc
  · have htag : BranchPredictor.tag idxBits pc = BranchPredictor.tag idxBits u.pc := by
      simpa [hi] using hit.2.symm
    rw [img.fetch_congr (BranchPredictor.word_eq_of_index_tag idxBits hi htag)]
    exact hu hen
  · apply h pc
    simpa [BranchPredictor.btbHit, Function.update_of_ne hi] using hit

def front (s : State) : Front :=
  ⟨s.pc, s.ifidPc, s.ifidInstr, s.ifidPredTaken, s.ifidPredTarget, s.idexPredTaken,
    s.idexPredTarget⟩

def guess (idxBits : ℕ) (s : State) : Bool × Word :=
  (predictTaken idxBits s, predictTarget idxBits s)

def ghost (idxBits : ℕ) (img : Imem) (s : State) : ℕ → Spec
  | 0 => ⟨front s, s.back, false, false⟩
  | t + 1 => (ghost idxBits img s t).step img (guess idxBits ((step idxBits img)^[t] s))

structure Tracks (p : Spec) (s : State) : Prop where
  front : p.front = front s
  back : p.back = s.back

variable {p : Spec} {s : State}

theorem Tracks.flush (h : Tracks p s) : p.flush = flush s := by
  simp only [Spec.flush, Spec.exIsCtrl, h.front, h.back, CpuPipeBp.front, CpuPipeBp.flush,
    mispred, dirWrong, tgtWrong, exIsCtrl, Bool.and_or_distrib_left, Bool.and_assoc]

theorem Tracks.stall (h : Tracks p s) : p.stall = stall s := by
  have hi : p.front.ifidInstr = s.ifidInstr := by rw [h.front]; rfl
  rw [Spec.stall, CpuPipeBp.stall, h.flush, h.back, hi]

theorem Tracks.step (h : Tracks p s) (idxBits : ℕ) (img : Imem) :
    Tracks (p.step img (guess idxBits s)) (step idxBits img s) where
  front := by
    simp only [Spec.step, h.flush, h.stall, h.front, h.back]
    rfl
  back := by
    simp only [Spec.step, h.flush, h.stall, h.front, h.back]
    rfl

theorem ghost_tracks (idxBits : ℕ) (img : Imem) (s : State) (t : ℕ) :
    Tracks (ghost idxBits img s t) ((CpuPipeBp.step idxBits img)^[t] s) := by
  induction t with
  | zero => exact ⟨rfl, rfl⟩
  | succ t ih =>
    rw [ghost, Function.iterate_succ_apply']
    exact ih.step idxBits img

theorem update_sound {img : Imem} {a : Cpu.State} (h : Tracks p s)
    (hsim : Sim img p a) (hen : (update s).en = true) :
    isCtrl (img.fetch (update s).pc) = true := by
  have hctrl : p.exIsCtrl = true := by rw [Spec.exIsCtrl, h.back]; exact hen
  cases hv : p.vIdex
  · have hi := hsim.idexInert hv
    simp [Spec.exIsCtrl, hi.branch, hi.jump, hi.jalr] at hctrl
  · have hx := hsim.idex hv
    have hpc : (update s).pc = a.pc := by
      rw [update, ← h.back, hx]; rfl
    rw [hpc, ← hctrl, Spec.exIsCtrl, hx]
    rfl

section run
variable (idxBits : ℕ) (img : Imem) (resetPc : Word) (regs : Regs) (dmem : Dmem)

/-- The state in cycle `t` of the run from reset. -/
def stateAt (t : ℕ) : State := (step idxBits img)^[t] (reset resetPc regs dmem)

theorem sim_and_btb (t : ℕ) :
    (∃ a, Sim img (ghost idxBits img (reset resetPc regs dmem) t) a) ∧
      BtbSound idxBits img (stateAt idxBits img resetPc regs dmem t).bp := by
  induction t with
  | zero =>
    exact ⟨⟨_, Sim.reset img (front (reset resetPc regs dmem)) regs dmem rfl⟩,
      btbSound_reset idxBits img⟩
  | succ t ih =>
    obtain ⟨⟨a, hsim⟩, hbtb⟩ := ih
    have ht := ghost_tracks idxBits img (reset resetPc regs dmem) t
    have hg : (guess idxBits (stateAt idxBits img resetPc regs dmem t)).1 = true →
        isCtrl (img.fetch (ghost idxBits img (reset resetPc regs dmem) t).front.pc) = true := by
      intro hp
      rw [ht.front]
      simp only [guess, predictTaken, BranchPredictor.predictTaken, Bool.and_eq_true] at hp
      exact hbtb _ hp.1
    refine ⟨⟨_, hsim.step _ hg⟩, ?_⟩
    rw [stateAt, Function.iterate_succ_apply']
    exact hbtb.step (update_sound ht hsim)

theorem predictTaken_isCtrl (t : ℕ) (pc : Word)
    (h : BranchPredictor.predictTaken idxBits
      (stateAt idxBits img resetPc regs dmem t).bp pc = true) :
    isCtrl (img.fetch pc) = true := by
  simp only [BranchPredictor.predictTaken, Bool.and_eq_true] at h
  exact (sim_and_btb idxBits img resetPc regs dmem t).2 pc h.1

def specRun : SpecRun img (Cpu.reset resetPc regs dmem) where
  spec := ghost idxBits img (reset resetPc regs dmem)
  guess t := guess idxBits (stateAt idxBits img resetPc regs dmem t)
  steps _ := rfl
  starts := Sim.reset img (front (reset resetPc regs dmem)) regs dmem rfl
  sound t h := by
    rw [(ghost_tracks idxBits img (reset resetPc regs dmem) t).front]
    exact predictTaken_isCtrl idxBits img resetPc regs dmem t _ h
  drained := Back.reset_drained regs dmem

theorem regTrace_eq : regTrace idxBits img (reset resetPc regs dmem) = Clocked.emitted
    (fun t => ((specRun idxBits img resetPc regs dmem).spec t).back.regOut) := by
  funext n
  simp only [regTrace, specRun, (ghost_tracks idxBits img (reset resetPc regs dmem) _).back]

theorem memTrace_eq : memTrace idxBits img (reset resetPc regs dmem) = Clocked.emitted
    (fun t => ((specRun idxBits img resetPc regs dmem).spec t).back.memOut) := by
  funext n
  simp only [memTrace, specRun, (ghost_tracks idxBits img (reset resetPc regs dmem) _).back]

/-- The predictor changes no write sequence, at any table size, and only control instructions are
ever predicted taken. -/
theorem matches_cpuPipe : (∀ n, ∃ m, regTrace idxBits img (reset resetPc regs dmem) n <+:
      CpuPipe.regTrace img (CpuPipe.reset resetPc regs dmem) m) ∧
    (∀ m, ∃ n, CpuPipe.regTrace img (CpuPipe.reset resetPc regs dmem) m <+:
      regTrace idxBits img (reset resetPc regs dmem) n) ∧
    (∀ n, ∃ m, memTrace idxBits img (reset resetPc regs dmem) n <+:
      CpuPipe.memTrace img (CpuPipe.reset resetPc regs dmem) m) ∧
    (∀ m, ∃ n, CpuPipe.memTrace img (CpuPipe.reset resetPc regs dmem) m <+:
      memTrace idxBits img (reset resetPc regs dmem) n) ∧
    (∀ t, predictTaken idxBits (stateAt idxBits img resetPc regs dmem t) = true →
      isCtrl (img.fetch (stateAt idxBits img resetPc regs dmem t).pc) = true) := by
  set r := specRun idxBits img resetPc regs dmem
  set r' := CpuPipe.specRun img resetPc regs dmem
  rw [regTrace_eq, memTrace_eq, CpuPipe.regTrace_eq, CpuPipe.memTrace_eq]
  exact ⟨r.regs_le r', r'.regs_le r, r.mems_le r', r'.mems_le r,
    fun t => predictTaken_isCtrl idxBits img resetPc regs dmem t _⟩

end run
end CpuPipeBp
end RiscvScratch
