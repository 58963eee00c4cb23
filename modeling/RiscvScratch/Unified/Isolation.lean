import RiscvScratch.Unified.UserSafety

/-! Machine-state isolation: S and U reach the registers of M only through the masked views
`sstatus`, `sie` and `sip`. -/
namespace RiscvScratch

namespace Csr

section masks
variable {w m : Word} {k : ℕ}

theorem setBit_and (b : Bool) (h : (1#32 <<< k) &&& m = 0#32) : setBit w k b &&& m = w &&& m := by
  unfold setBit
  split_ifs
  · rw [BitVec.and_comm, BitVec.and_or_distrib_left, BitVec.and_comm m (1#32 <<< k), h,
      BitVec.or_zero, BitVec.and_comm]
  · ext j hj
    have hb := congrArg (fun x : Word => x[j]) h
    simp only [BitVec.getElem_and, BitVec.getElem_not, BitVec.getElem_zero] at hb ⊢
    generalize (1#32 <<< k)[j] = a at hb ⊢
    cases a <;> simp_all

theorem setPair_and (v : BitVec 2) (h : (3#32 <<< k) &&& m = 0#32) :
    setPair w k v &&& m = w &&& m := by
  have hv : (v.zeroExtend 32 <<< k) &&& m = 0#32 := by
    have hsub : v.zeroExtend 32 &&& 3#32 = v.zeroExtend 32 := by revert v; decide
    rw [← hsub, BitVec.shiftLeft_and_distrib, BitVec.and_assoc, h, BitVec.and_zero]
  ext j hj
  have h1 := congrArg (fun x : Word => x[j]) h
  have h2 := congrArg (fun x : Word => x[j]) hv
  simp only [setPair, BitVec.getElem_and, BitVec.getElem_or, BitVec.getElem_not,
    BitVec.getElem_zero] at h1 h2 ⊢
  generalize (3#32 <<< k)[j] = a at h1 ⊢
  generalize (v.zeroExtend 32 <<< k)[j] = b at h2 ⊢
  cases a <;> cases b <;> simp_all

theorem nxMasked_and {mask old src : Word} {f3 : BitVec 3} (h : mask &&& m = 0#32) :
    nxMasked mask old src f3 &&& m = old &&& m := by
  unfold nxMasked
  generalize nx (old &&& mask) src f3 = x
  ext j hj
  have hb := congrArg (fun x : Word => x[j]) h
  simp only [BitVec.getElem_and, BitVec.getElem_or, BitVec.getElem_not, BitVec.getElem_zero]
    at hb ⊢
  generalize mask[j] = a at hb ⊢
  cases a <;> simp_all

end masks

def mStatusMask : Word := 0x00001888#32

def mPendMask : Word := 0x00000220#32

structure MachineView where
  status : Word
  medeleg : Word
  mideleg : Word
  enable : Word
  mtvec : Word
  mscratch : Word
  mepc : Word
  mcause : Word
  mtval : Word
  pending : Word
  deriving DecidableEq

def machineView (s : State) : MachineView where
  status := s.mstatus &&& mStatusMask
  medeleg := s.medeleg
  mideleg := s.mideleg
  enable := s.mie &&& ~~~sIntMask
  mtvec := s.mtvec
  mscratch := s.mscratch
  mepc := s.mepc
  mcause := s.mcause
  mtval := s.mtval
  pending := s.mipSw &&& mPendMask

variable (p : Params) (s : State)

theorem fixStatus_machine (dirty : Bool) (m : Word) :
    fixStatus p s dirty m &&& mStatusMask = m &&& mStatusMask := by
  unfold fixStatus
  dsimp only
  rw [setBit_and _ (by decide)]
  split_ifs <;> simp only [setPair_and _ (show (3#32 <<< 9) &&& mStatusMask = 0#32 by decide)]

theorem write_machineView {addr : BitVec 12} (src : Word) (f3 : BitVec 3)
    (h : addr.extractLsb' 8 2 ≠ 0b11#2) :
    machineView (write p s addr src f3) = machineView s := by
  apply write_below (P := fun x => machineView x = machineView s) h
  · exact fun _ _ _ _ _ _ => rfl
  · simp only [machineView, nxMasked_and (show sstatusMask &&& mStatusMask = 0#32 by decide)]
  · simp only [machineView, nxMasked_and (show sIntMask &&& ~~~sIntMask = 0#32 by decide)]
  · simp only [machineView, nxMasked_and (show 0x2#32 &&& mPendMask = 0#32 by decide)]

theorem trapEnter_machineView {cause : Word} (pc tval : Word) (h : deleg p s cause = true) :
    machineView (trapEnter p s pc cause tval) = machineView s := by
  simp only [trapEnter, h, ↓reduceIte, machineView]
  rw [setBit_and _ (by decide), setBit_and _ (by decide), setBit_and _ (by decide)]

theorem sret_machineView : machineView (sret p s) = machineView s := by
  simp only [sret, machineView]
  rw [setBit_and _ (by decide), setBit_and _ (by decide), setBit_and _ (by decide)]

/-- No command below M changes M's state: a trap goes to S, there is no `mret`, and a write is below
M's range. -/
theorem step_machineView {k : Command}
    (ht : k.takeTrap = true → deleg p s k.trapCause = true) (hm : k.isMret = false)
    (hw : k.we = true → k.addr.extractLsb' 8 2 ≠ 0b11#2) :
    machineView (step p s k) = machineView s := by
  have hfix (q : State) : machineView { q with mstatus := fixStatus p s k.setVsDirty q.mstatus } =
      machineView q := by
    simp only [machineView, fixStatus_machine]
  rw [step, hfix]
  simp only [commit, hm, Bool.false_eq_true, ↓reduceIte]
  split_ifs with h1 h2 h3
  · exact trapEnter_machineView p s _ _ (ht h1)
  · exact sret_machineView p s
  · exact write_machineView p s _ _ (hw h3)
  · rfl

end Csr

namespace Unified
variable {c : Cfg} {s : State} {i : Input}

/-- The machine-level state: M's part of the CSR file, and `mcountinhibit`. -/
structure MachineState where
  csr : Csr.MachineView
  inhibit : BitVec 8
  deriving DecidableEq

def machineState (s : State) : MachineState := ⟨Csr.machineView s.csr, s.counters.inhibit⟩

def trapToM (c : Cfg) (s : State) (i : Input) : Bool :=
  takeTrap c s i && !Csr.deleg c.csr s.csr (trapCause c s i)

theorem no_exception (hg : exGo c s i = true) (ht : takeTrap c s i = false) :
    exception c s = false := by
  by_contra he
  simp [takeTrap, hg, Bool.eq_true_of_not_eq_false he] at ht

theorem csrCommit_priv (h : csrCommit c s i = true) :
    s.csr.priv.ult (s.idex.csrAddr.extractLsb' 8 2) = false := by
  simp only [csrCommit, Bool.and_eq_true, Bool.not_eq_true'] at h
  have hx := no_exception h.1.1 h.2
  simp only [exception, exIllegal, csrBad, h.1.2, Bool.or_eq_false_iff, Bool.true_and] at hx
  exact hx.1.1.1.1.1.1.1.2.1.1.1.1.2.1.1.1

theorem csrCommit_below_M (hp : s.csr.priv = Csr.privS ∨ s.csr.priv = Csr.privU)
    (h : csrCommit c s i = true) : s.idex.csrAddr.extractLsb' 8 2 ≠ 0b11#2 := by
  intro ha
  have hlt := csrCommit_priv h
  rw [ha] at hlt
  obtain hp | hp := hp <;> rw [hp] at hlt <;> exact absurd hlt (by decide)

theorem mretEx_inM (h : mretEx c s i = true) : inM s = true := by
  simp only [mretEx, Bool.and_eq_true, Bool.not_eq_true'] at h
  have hx := no_exception h.1.1 h.2
  by_contra hm
  simp [exception, exIllegal, h.1.2, hm] at hx

theorem step_machineState (hp : s.csr.priv = Csr.privS ∨ s.csr.priv = Csr.privU)
    (ht : trapToM c s i = false) : machineState (step c s i) = machineState s := by
  have hcsr : Csr.machineView (step c s i).csr = Csr.machineView s.csr := by
    apply Csr.step_machineView
    · intro hk
      simpa [trapToM, csrCommand, show takeTrap c s i = true from hk] using ht
    · by_contra hm
      have hin := mretEx_inM (Bool.eq_true_of_not_eq_false hm)
      obtain hp | hp := hp <;> simp [inM, hp, Csr.privS, Csr.privU, Csr.privM] at hin
    · intro hw
      simp only [csrCommand, Bool.and_eq_true] at hw
      exact csrCommit_below_M hp hw.1
  have hinh : (step c s i).counters.inhibit = s.counters.inhibit := by
    simp only [step]
    split_ifs
    · simp only [nextCounters]
      rw [if_neg]
      intro hx
      simp only [Bool.and_eq_true, isInh, beq_iff_eq] at hx
      exact csrCommit_below_M hp hx.1 (by rw [hx.2]; decide)
    · rfl
  simp only [machineState, hcsr, hinh]

/-- While the privilege is S or U and M takes no trap, nothing of the machine-level state
changes, whatever executes. -/
theorem machine_isolated (c : Cfg) (r : Run c) (t u : ℕ) (htu : t ≤ u)
    (hp : ∀ v, t ≤ v → v < u →
      (r.state v).csr.priv = Csr.privS ∨ (r.state v).csr.priv = Csr.privU)
    (ht : ∀ v, t ≤ v → v < u → trapToM c (r.state v) (r.input v) = false) :
    machineState (r.state u) = machineState (r.state t) := by
  induction u, htu using Nat.le_induction with
  | base => rfl
  | succ u hu ih =>
    have hs : machineState (r.state (u + 1)) = machineState (r.state u) := by
      rw [r.steps]
      exact step_machineState (hp u hu (by omega)) (ht u hu (by omega))
    rw [hs]
    exact ih (fun v h1 h2 => hp v h1 (by omega)) fun v h1 h2 => ht v h1 (by omega)

/-- Enters S-mode, which writes ones to `sie` and `sstatus`. -/
def onesImage (a : Word) : Word :=
  match a with
  | 0x00#32 => 0x000010B7#32 -- lui x1, 1
  | 0x04#32 => 0x80008093#32 -- addi x1, x1, -0x800
  | 0x08#32 => 0x30009073#32 -- csrw mstatus, x1
  | 0x0C#32 => 0x02000113#32 -- addi x2, x0, 0x20
  | 0x10#32 => 0x34111073#32 -- csrw mepc, x2
  | 0x14#32 => 0x30200073#32 -- mret
  | 0x20#32 => 0xFFF00193#32 -- addi x3, x0, -1
  | 0x24#32 => 0x10419073#32 -- csrw sie, x3
  | 0x28#32 => 0x10019073#32 -- csrw sstatus, x3
  | _ => nop

def onesRun : Run Cfg.paged := benchRun Cfg.paged onesImage (fun _ => true) (fun _ => true)

theorem ones_isolated : (Cfg.paged.hasS = true ∧ Cfg.paged.hasU = true) ∧
    ((onesRun.state 8).csr.mie = 0#32 ∧ (onesRun.state 16).csr.mie = 0x222#32) ∧
    ((onesRun.state 8).csr.mstatus = 0x80#32 ∧ (onesRun.state 16).csr.mstatus = 0xC01A2#32) ∧
    machineState (onesRun.state 16) = machineState (onesRun.state 8) :=
  ⟨by decide, by decide +kernel, by decide +kernel,
    machine_isolated Cfg.paged onesRun 8 16 (by decide)
      (fun v h1 h2 => (by decide +kernel : ∀ v < 16, 8 ≤ v →
        (onesRun.state v).csr.priv = Csr.privS ∨ (onesRun.state v).csr.priv = Csr.privU) v h2 h1)
      (fun v h1 h2 => (by decide +kernel : ∀ v < 16, 8 ≤ v →
        trapToM Cfg.paged (onesRun.state v) (onesRun.input v) = false) v h2 h1)⟩

end Unified
end RiscvScratch
