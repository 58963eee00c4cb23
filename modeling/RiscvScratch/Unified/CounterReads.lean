import RiscvScratch.Unified.CycleAccounting

/-! The counters `mcycle` and `minstret` of the unified core. Their write enable takes every CSR
instruction at a machine address for a write. -/
namespace RiscvScratch.Unified

variable {c : Cfg} {s : State} {i : Input}

/-- The CSR instruction in EX, if there is one, writes none of `0xB00` to `0xB87`. -/
def CountersRead (s : State) : Prop :=
  s.idex.isCsr = true → 0xB00#12 ≤ s.idex.csrAddr → s.idex.csrAddr ≤ 0xB87#12 →
    csrWrites s = false

instance (s : State) : Decidable (CountersRead s) := by
  unfold CountersRead
  infer_instance

/-- No CSR instruction in EX addresses counter `n` by its machine address. -/
def UserReads (n : ℕ) (s : State) : Prop :=
  s.idex.isCsr = true → isCnt s = true → cntIdx s = n → s.idex.csrAddr.extractLsb' 8 4 ≠ 0xB#4

instance (n : ℕ) (s : State) : Decidable (UserReads n s) := by
  unfold UserReads
  infer_instance

variable {n : ℕ}

theorem not_cntWe (h : UserReads n s) : ¬(cntWe c s i = true ∧ cntIdx s = n) := by
  rintro ⟨hw, hn⟩
  simp only [cntWe, csrCommit, Bool.and_eq_true, beq_iff_eq] at hw
  exact h hw.1.1.1.2 hw.1.2 hn hw.2

theorem nextCnt_counts (h1 : n ≠ 1) (h : UserReads n s)
    (hi : s.counters.inhibit = 0#8) :
    nextCnt c s i n = s.counters.cnt n + BitVec.ofNat 64 (cntEvent c s i n && !i.halt).toNat := by
  have hw := not_cntWe (c := c) (i := i) h
  have hw' : ¬(cntWe c s i = true ∧ cntIdx s = n ∧ highHalf s = true) := fun hx =>
    hw ⟨hx.1, hx.2.1⟩
  unfold nextCnt
  dsimp only
  rw [if_neg h1, if_neg hw', if_neg hw, hi, BitVec.getLsbD_zero, Bool.not_false, Bool.and_true]
  cases cntEvent c s i n && !i.halt with
  | true => rfl
  | false => exact (BitVec.add_zero _).symm

theorem cnt_counts (hz : c.zicntr = true) (r : Run c) (h1 : n ≠ 1)
    (hread : ∀ t, UserReads n (r.state t)) (hinh : ∀ t, (r.state t).counters.inhibit = 0#8)
    (t : ℕ) : (r.state t).counters.cnt n = BitVec.ofNat 64 (Clocked.count (fun u =>
      cntEvent c (r.state u) (r.input u) n && !(r.input u).halt) t) := by
  induction t with
  | zero =>
    obtain ⟨u, hu⟩ := r.starts
    rw [hu]
    rfl
  | succ t ih =>
    have hcnt : (r.state (t + 1)).counters.cnt n = nextCnt c (r.state t) (r.input t) n := by
      rw [r.steps t]
      simp [machine, step, hz, nextCounters]
    rw [hcnt, nextCnt_counts h1 (hread t) (hinh t), ih, Clocked.count, BitVec.ofNat_add]

theorem retires_running (h : (exGo c s i && !takeTrap c s i) = true) : i.halt = false := by
  rw [Bool.and_eq_true] at h
  have hf := (exGo_inv h.1).2.1
  unfold freeze at hf
  rw [Bool.or_eq_false_iff] at hf
  exact hf.1

/-- `mcycle` and `minstret` count, as long as the program reads them by their user addresses. -/
theorem counters_count (c : Cfg) (hz : c.zicntr = true) (r : Run c)
    (hinh : ∀ t, (r.state t).counters.inhibit = 0#8)
    (huser : ∀ t, UserReads 0 (r.state t) ∧ UserReads 2 (r.state t)) (t : ℕ) :
    (r.state t).counters.cnt 0 =
        BitVec.ofNat 64 (Clocked.count (fun u => !(r.input u).halt) t) ∧
      (r.state t).counters.cnt 2 = BitVec.ofNat 64 (Clocked.count (fun u =>
        exGo c (r.state u) (r.input u) && !takeTrap c (r.state u) (r.input u)) t) := by
  constructor
  · exact cnt_counts hz r (by decide) (fun u => (huser u).1) hinh t
  · rw [cnt_counts hz r (by decide) (fun u => (huser u).2) hinh t]
    have hev (u : ℕ) : (cntEvent c (r.state u) (r.input u) 2 && !(r.input u).halt) =
        (exGo c (r.state u) (r.input u) && !takeTrap c (r.state u) (r.input u)) := by
      show ((exGo c (r.state u) (r.input u) && !takeTrap c (r.state u) (r.input u)) && _) = _
      cases h : exGo c (r.state u) (r.input u) && !takeTrap c (r.state u) (r.input u) with
      | false => rfl
      | true => rw [retires_running h]; rfl
    simp only [hev]

/-- The bench, halted from cycle `stop` on. -/
def haltedRun (c : Cfg) (image : Word → Word) (stop : ℕ) : Run c :=
  (machine c).runOf (fun t s =>
    { bench c image (fun _ => true) (fun _ => true) t s with halt := decide (stop ≤ t) })
    (reset c (blank c)) (blank_starts c)

theorem step_halted (h : i.halt = true) :
    (step c s i).idex.isCsr = s.idex.isCsr ∧ (step c s i).idex.csrAddr = s.idex.csrAddr ∧
      (step c s i).idex.funct3 = s.idex.funct3 ∧ (step c s i).idex.rs1 = s.idex.rs1 ∧
      (step c s i).counters.inhibit = s.counters.inhibit := by
  have hf : freeze c s i = true := by simp [freeze, h]
  have hc : csrCommit c s i = false := by simp [csrCommit, not_exGo_of_freeze hf]
  have hidex : (step c s i).idex = relatched s := by
    cases step_move c s i with
    | frozen _ _ _ hid _ _ => exact hid
    | held hf' | bubbled hf' | advanced hf' => rw [hf] at hf'; cases hf'
    | flushed hg => rw [not_exGo_of_freeze hf] at hg; cases hg
  refine ⟨?_, ?_, ?_, ?_, ?_⟩
  iterate 4
    rw [hidex]
    rfl
  · cases hz : c.zicntr <;> simp [step, hz, nextCounters, hc]

theorem haltedRun_forall {image : Word → Word} {stop : ℕ} {P : State → Prop}
    (hP : ∀ s s' : State, s'.idex.isCsr = s.idex.isCsr → s'.idex.csrAddr = s.idex.csrAddr →
      s'.idex.funct3 = s.idex.funct3 → s'.idex.rs1 = s.idex.rs1 →
      s'.counters.inhibit = s.counters.inhibit → P s → P s')
    (h : ∀ t ≤ stop, P ((haltedRun c image stop).state t)) (t : ℕ) :
    P ((haltedRun c image stop).state t) := by
  rcases le_total t stop with ht | ht
  · exact h t ht
  induction t, ht using Nat.le_induction with
  | base => exact h stop le_rfl
  | succ t ht ih =>
    have hhalt : ((haltedRun c image stop).input t).halt = true := decide_eq_true ht
    obtain ⟨h1, h2, h3, h4, h5⟩ :=
      step_halted (c := c) (s := (haltedRun c image stop).state t) hhalt
    exact hP _ _ h1 h2 h3 h4 h5 ih

/-- `csrrs x1, addr, x0`, then jumps to itself. -/
def readImage (addr : BitVec 12) (a : Word) : Word :=
  if a = 0#32 then addr ++ 0x020F3#20 else 0x0000006f#32

/-- The read of `mcycle` reaches EX in cycle 2 and leaves it with the cycle uncounted. -/
def machineReadRun : Run Cfg.counting := haltedRun Cfg.counting (readImage 0xB00#12) 3

theorem machineReadRun_loses_cycle : (∀ t, CountersRead (machineReadRun.state t) ∧
        (machineReadRun.state t).counters.inhibit = 0#8) ∧
      (machineReadRun.state 3).counters.cnt 0 = 2#64 ∧
      Clocked.count (fun u => !(machineReadRun.input u).halt) 3 = 3 := by
  refine ⟨fun t => ?_, by decide +kernel, by decide⟩
  apply haltedRun_forall (P := fun s => CountersRead s ∧ s.counters.inhibit = 0#8)
  · rintro s s' h1 h2 h3 h4 h5 ⟨hr, hi⟩
    refine ⟨?_, h5.trans hi⟩
    unfold CountersRead csrWrites at hr ⊢
    rwa [h1, h2, h3, h4]
  · decide +kernel

/-- The same read by the user address `cycle`. -/
def userReadRun : Run Cfg.counting := haltedRun Cfg.counting (readImage 0xC00#12) 3

theorem userReadRun_counts : (userReadRun.state 3).counters.cnt 0 = 3#64 := by
  have hall (t : ℕ) : (UserReads 0 (userReadRun.state t) ∧ UserReads 2 (userReadRun.state t)) ∧
      (userReadRun.state t).counters.inhibit = 0#8 := by
    apply haltedRun_forall
      (P := fun s => (UserReads 0 s ∧ UserReads 2 s) ∧ s.counters.inhibit = 0#8)
    · rintro s s' h1 h2 h3 h4 h5 ⟨hr, hi⟩
      refine ⟨?_, h5.trans hi⟩
      unfold UserReads isCnt cntIdx at hr ⊢
      rwa [h1, h2]
    · decide +kernel
  exact (counters_count Cfg.counting rfl userReadRun (fun t => (hall t).2)
    (fun t => (hall t).1) 3).1

end RiscvScratch.Unified
