import RiscvScratch.Unified.VectorProgress

/-! The vector length of the unified core: in every run it is one the vector type allows. -/
namespace RiscvScratch

namespace Vec
variable {vlen : ℕ} {s : State} {i : Input}

/-- `vl` is at most VLMAX, and 0 where the type is illegal. -/
def Fits (vlen : ℕ) (s : State) : Prop :=
  s.vl.toNat ≤ if s.vtype.getLsbD 31 then 0 else (vlmaxNow vlen s).toNat

theorem Fits.of_le {s' : State} (h : Fits vlen s) (hvl : s'.vl.toNat ≤ s.vl.toNat)
    (hty : s'.vtype = s.vtype) : Fits vlen s' := by
  have hmax : vlmaxNow vlen s' = vlmaxNow vlen s := by
    unfold vlmaxNow sewl lmull
    rw [hty]
  unfold Fits at h ⊢
  rw [hty, hmax]
  exact hvl.trans h

/-- `vsetvl*` takes VLMAX from the type it sets. -/
theorem vlmaxNow_config {instr rs2 : Word} (h : nOk instr rs2 = true)
    (hty : s.vtype = ((nvtRaw instr rs2).extractLsb' 0 8).zeroExtend 32) :
    vlmaxNow vlen s = nVlmax vlen instr rs2 := by
  have hsew : sewl s = (nSew instr rs2).toNat := by
    have hle : (nSew instr rs2).toNat ≤ 2 := by
      simp only [nOk, Bool.and_eq_true, BitVec.ule, decide_eq_true_eq] at h
      exact h.1.1.1
    unfold sewl nSew at *
    rw [hty]
    simp [BitVec.extractLsb'_toNat, Nat.shiftRight_eq_div_pow] at hle ⊢
    omega
  have hlmul : s.vtype.extractLsb' 0 3 = nLmul instr rs2 := by
    rw [hty, nLmul]
    ext k hk
    simp [show k < 8 by omega, show k < 32 by omega]
  unfold vlmaxNow nVlmax lmull
  rw [hsew, hlmul]
  generalize nLmul instr rs2 = m
  have hm := m.isLt
  by_cases hneg : m.getLsbD 2 = true
  · have hshift : (-((m.toNat : ℤ) - 8)).toNat = 8 - m.toNat := by omega
    simp only [if_pos hneg, hshift]
    exact if_pos (by omega)
  · simp only [if_neg hneg, Int.toNat_natCast]
    exact if_neg (by omega)

theorem coreWrites_config (vlen : ℕ) (s : State) (i : Input) :
    (coreWrites vlen s i).vl =
        (if i.cfgCommit then cfgNewVl vlen s i.instr i.rs1 i.rs2 else s.vl) ∧
      (coreWrites vlen s i).vtype =
        if i.cfgCommit then
          if nOk i.instr i.rs2 then ((nvtRaw i.instr i.rs2).extractLsb' 0 8).zeroExtend 32
          else 0x80000000#32
        else s.vtype := by
  unfold coreWrites
  dsimp only
  constructor <;> split_ifs <;> rfl

theorem Fits.coreWrites (h : Fits vlen s) : Fits vlen (coreWrites vlen s i) := by
  obtain ⟨hvl, hty⟩ := coreWrites_config vlen s i
  cases hc : i.cfgCommit with
  | false =>
    rw [hc, if_neg Bool.false_ne_true] at hvl hty
    exact h.of_le (hvl ▸ le_rfl) hty
  | true =>
    rw [hc, if_pos rfl] at hvl hty
    unfold Fits
    rw [hvl, cfgNewVl]
    cases hok : nOk i.instr i.rs2 with
    | false =>
      rw [if_neg Bool.false_ne_true]
      exact Nat.zero_le _
    | true =>
      rw [hok, if_pos rfl] at hty
      have hlegal : (Vec.coreWrites vlen s i).vtype.getLsbD 31 = false := by simp [hty]
      rw [vlmaxNow_config hok hty, hlegal, if_pos rfl, if_neg Bool.false_ne_true]
      split_ifs with hlt
      · exact (BitVec.ult_iff_lt.mp hlt).le
      · exact le_rfl

theorem evl_faultOnlyFirst {w : Word} (hf : mFf w = true) (hm : isMem w = true) :
    evl vlen s w = s.vl := by
  simp only [mFf, Bool.and_eq_true, beq_iff_eq] at hf
  obtain ⟨⟨hu, hrs2⟩, -⟩ := hf
  have hw : mWhole w = false := by simp [mWhole, hrs2]
  have hk : mMask w = false := by simp [mMask, hrs2]
  unfold evl widths
  simp only [hw, hk, Bool.false_eq_true, if_false]
  simp only [isMem, Bool.or_eq_true, beq_iff_eq] at hm
  rcases hm with hm | hm <;> (rw [hm]; split_ifs <;> rfl)

theorem Fits.step (h : Fits vlen s) (hq : s.fsm = .run → i.cfgCommit = false) :
    Fits vlen (step vlen s i) := by
  have hcore := h.coreWrites (i := i)
  unfold Vec.step sequence
  cases hf : s.fsm with
  | idle =>
    dsimp only
    split_ifs <;> exact hcore.of_le le_rfl rfl
  | init => exact hcore.of_le le_rfl rfl
  | run =>
    dsimp only [onRun]
    split_ifs with hfault hff
    · -- a fault-only-first load ends at the element that faulted, one below `vl`
      simp only [memWant, memActive, inRange, Bool.and_eq_true] at hfault hff
      obtain ⟨⟨⟨⟨-, -, hm⟩, hr⟩, -⟩, -⟩ := hfault
      rw [evl_faultOnlyFirst hff.1 hm] at hr
      have hty := (coreWrites_config vlen s i).2
      rw [hq hf] at hty
      exact h.of_le (BitVec.ult_iff_lt.mp hr).le hty
    all_goals exact hcore.of_le le_rfl rfl
  | final =>
    dsimp only [onFinal]
    split_ifs <;> exact hcore.of_le le_rfl rfl
  | done => exact hcore.of_le le_rfl rfl

end Vec

namespace Unified
variable {c : Cfg}

/-- In every cycle of every run `vl` is a length the vector type allows. -/
theorem vector_length_fits (r : Run c) (t : ℕ) : Vec.Fits c.vlen (r.state t).vec := by
  induction t with
  | zero =>
    obtain ⟨u, hu⟩ := r.starts
    rw [hu]
    exact Nat.zero_le _
  | succ t ih =>
    rw [r.steps]
    cases he : c.vExt with
    | false => simpa [machine, step, he] using ih
    | true =>
      change Vec.Fits c.vlen (step c (r.state t) (r.input t)).vec
      rw [vec_step_eq he]
      apply ih.step
      intro hrun
      have hb : vBusy c (r.state t) = true := by simp [vBusy, he, Vec.busy, hrun]
      have hh := exHold_of_wait ((run_vecHeld r t).wait (i := r.input t) hb)
      exact (idle_of_not_exGo (not_exGo_of_hold hh)).cfg

end Unified

end RiscvScratch
