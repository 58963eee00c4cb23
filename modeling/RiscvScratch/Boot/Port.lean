import RiscvScratch.Boot.Soc
import RiscvScratch.Cache.DcacheInvisible
import RiscvScratch.Unified.PortHold

/-! The D-port between the core and the data cache: the platform's decoder and the core's regions
agree, and a waiting request is repeated. -/
namespace RiscvScratch.Boot

open Cache

variable {p : Params} {s : State} {i : Input}

theorem pma_eq (p : Params) (a : Word) :
    p.cfg.pma a =
      if (a - 0x80000000#32).ult p.ramBytes then 0b111#3
      else if (a - 0x10000000#32).ult 0x100#32 then 0b011#3
      else if (a - 0x0C000000#32).ult 0x04000000#32 then 0b011#3
      else if (a - 0x02000000#32).ult 0x10000#32 then 0b011#3
      else if (a - 0x00100000#32).ult 0x1000#32 then 0b011#3
      else if (a - 0x00001000#32).ult p.romBytes then 0b101#3
      else 0b000#3 := rfl

theorem romBytes_toNat (p : Params) : p.romBytes.toNat = p.romWords * 4 := by
  have := p.romFits
  rw [Params.romBytes, BitVec.toNat_ofNat, Nat.mod_eq_of_lt (by omega)]

theorem ramBytes_toNat (p : Params) : p.ramBytes.toNat = p.ramWords * 4 := by
  have := p.ramFits
  rw [Params.ramBytes, BitVec.toNat_ofNat, Nat.mod_eq_of_lt (by omega)]

variable {a : Word}

theorem inRom_iff : p.inRom a = true ↔ 0x1000 ≤ a.toNat ∧ a.toNat < 0x1000 + p.romWords * 4 := by
  have hrom := p.romFits
  have hb := romBytes_toNat p
  simp only [Params.inRom, BitVec.ule, BitVec.ult, Bool.and_eq_true, decide_eq_true_eq,
    BitVec.toNat_sub, BitVec.toNat_ofNat, hb]
  omega

theorem inRam_iff : inRam a = true ↔ 0x80000000 ≤ a.toNat ∧ a.toNat < 0x90000000 := by
  have ha := a.isLt
  simp only [inRam, beq_iff_eq, ← BitVec.toNat_inj, BitVec.extractLsb'_toNat,
    Nat.shiftRight_eq_div_pow, BitVec.toNat_ofNat]
  omega

theorem cacheable_of_allowsX (h : p.cfg.allowsX a = true) :
    cacheable p a = true := by
  have hrom := p.romFits
  have hram := p.ramFits
  have ha := a.isLt
  have h1 := romBytes_toNat p
  have h2 := ramBytes_toNat p
  simp only [cacheable, Bool.or_eq_true, inRam_iff, inRom_iff]
  simp only [Unified.Cfg.allowsX, pma_eq] at h
  split_ifs at h with h5 h4 h3 h2' h1' h0
  · left
    simp only [BitVec.ult, decide_eq_true_eq, BitVec.toNat_sub, BitVec.toNat_ofNat, h2] at h5
    omega
  all_goals try simp at h
  right
  simp only [BitVec.ult, decide_eq_true_eq, BitVec.toNat_sub, BitVec.toNat_ofNat, h1] at h0
  omega

theorem not_inRom_of_allowsW (h : p.cfg.allowsW a = true) : p.inRom a = false := by
  have hrom := p.romFits
  have hram := p.ramFits
  by_contra hr
  have hr := inRom_iff.mp (Bool.eq_true_of_not_eq_false hr)
  have hout (base size : Word) (hb : 0x100000 ≤ base.toNat)
    (hs : base.toNat + size.toNat ≤ 2 ^ 32) :
      ¬ (a - base).ult size = true := by
    simp only [BitVec.ult, decide_eq_true_eq, BitVec.toNat_sub]
    omega
  rw [Unified.Cfg.allowsW, pma_eq, if_neg (hout _ _ (by decide) ?_),
    if_neg (hout _ _ (by decide) (by decide)), if_neg (hout _ _ (by decide) (by decide)),
    if_neg (hout _ _ (by decide) (by decide)), if_neg (hout _ _ (by decide) (by decide))] at h
  · split_ifs at h <;> simp at h
  · rw [ramBytes_toNat]
    simp only [BitVec.toNat_ofNat]
    omega

theorem line_not_inRom (g : Geometry) (h : inRam a = true) :
    p.inRom (g.lineAddr (g.tag a) (g.idx a)) = false := by
  have hrom := p.romFits
  have ha := inRam_iff.mp h
  by_contra hr
  have hr := inRom_iff.mp (Bool.eq_true_of_not_eq_false hr)
  have hl : (g.lineAddr (g.tag a) (g.idx a)).toNat = a.toNat / 2 ^ g.off * 2 ^ g.off := by
    rw [Geometry.lineAddr, BitVec.toNat_ofNat, Nat.mod_eq_of_lt (g.fits_addr a),
      g.lineNum_tag_idx, Geometry.lineOf]
  rw [hl] at hr
  -- a line that reaches down from the RAM into the ROM would be the one at address 0
  by_cases ho : g.off ≤ 31
  · have hd : 2 ^ g.off ∣ 2 ^ 31 := pow_dvd_pow 2 ho
    obtain ⟨k, hk⟩ := hd
    have hle : k ≤ a.toNat / 2 ^ g.off := by
      rw [Nat.le_div_iff_mul_le (Nat.two_pow_pos _), mul_comm, ← hk]
      exact ha.1
    have := Nat.mul_le_mul_right (2 ^ g.off) hle
    rw [mul_comm k, ← hk] at this
    omega
  · have hz : a.toNat / 2 ^ g.off = 0 := by
      apply Nat.div_eq_of_lt
      calc a.toNat < 2 ^ 32 := a.isLt
        _ ≤ 2 ^ g.off := Nat.pow_le_pow_right (by decide) (by omega)
    simp [hz] at hr

theorem not_cacheable_of_test (h : selTest a = true) : cacheable p a = false := by
  have hrom := p.romFits
  have ha : 0x100000 ≤ a.toNat ∧ a.toNat < 0x101000 := by
    simp only [selTest, beq_iff_eq, ← BitVec.toNat_inj, BitVec.extractLsb'_toNat,
      Nat.shiftRight_eq_div_pow, BitVec.toNat_ofNat] at h
    have := a.isLt
    omega
  by_contra hc
  simp only [Bool.not_eq_false, cacheable, Bool.or_eq_true, inRam_iff, inRom_iff] at hc
  omega

structure CoreSound (c : Unified.Cfg) (s : Unified.State) : Prop where
  wf : s.idex.Wf
  vec : Unified.VecHeld c s
  allowed : s.exmem.Allowed c
  victims : s.itlb.victim < c.tlbEntries ∧ s.dtlb.victim < c.tlbEntries
  quiet : Unified.FetchQuiet c s

theorem CoreSound.reset (c : Unified.Cfg) (u : Unified.State) :
    CoreSound c (Unified.reset c u) where
  wf := Unified.IdEx.bubble_wf
  vec := Unified.VecHeld.reset c u
  allowed := Unified.ExMem.bubble_allowed c
  victims := ⟨c.tlbPos, c.tlbPos⟩
  quiet := Unified.FetchQuiet.reset c u

theorem CoreSound.step {c : Unified.Cfg} {s : Unified.State} {i : Unified.Input}
    (h : CoreSound c s) (hl : i.halt = false) : CoreSound c (Unified.step c s i) where
  wf := Unified.step_idex_wf h.wf
  vec := h.vec.step
  allowed := Unified.step_exmem (Unified.ExMem.bubble_allowed c) (Unified.executed_allowed h.wf)
    h.allowed
  victims := Unified.step_victims h.victims
  quiet := h.quiet.step h.wf h.vec hl h.victims.1

def storeAccepted (p : Params) (s : State) : Bool := dreq p s && dwe p s != 0#4 && dready p s

theorem ready_eq (p : Params) (s : State) (i : Input) :
    Dcache.ready p.dg s.dc (dcInput p s i) = dcReady p s := rfl

theorem storeAccepted_of_accepted (h : Dcache.accepted p.dg s.dc (dcInput p s i) = true) :
    storeAccepted p s = true ∧ cacheable p (daddr p s) = true := by
  simp only [Dcache.accepted, Bool.and_eq_true] at h
  obtain ⟨hr, hw⟩ := h
  rw [ready_eq] at hr
  have hq := hr
  simp only [dcReady, dcReq, Bool.and_eq_true] at hq
  have hw' : (dwe p s != 0#4) = true := hw
  exact ⟨by simp [storeAccepted, hq, hw', dready, hr], hq.1.1.2⟩

theorem storeAccepted_of_wrTest (h : wrTest p s = true) : storeAccepted p s = true := by
  simp only [wrTest, Bool.and_eq_true] at h
  obtain ⟨⟨⟨ht, hq⟩, hw⟩, -⟩ := h
  simp [storeAccepted, hq, hw, dready, not_cacheable_of_test ht]

theorem inRam_of_accepted (hc : CoreSound p.cfg s.core)
    (hv : Unified.VecAllowed p.cfg s.core (coreInput p s i))
    (h : Dcache.accepted p.dg s.dc (dcInput p s i) = true) : inRam (daddr p s) = true := by
  obtain ⟨hs, hm⟩ := storeAccepted_of_accepted h
  simp only [storeAccepted, Bool.and_eq_true, bne_iff_ne] at hs
  have hw := (Unified.portsAllowed_of_vec hc.vec hc.allowed hv).write hs.1.1 hs.1.2
  have hr : p.inRom (daddr p s) = false := not_inRom_of_allowsW hw
  simpa [cacheable, hr] using hm

theorem dcInput_repeats (hc : CoreSound p.cfg s.core) (hl : s.halt = false)
    (hl' : (run p s i).halt = false)
    (hn : ¬ Unified.RootMoves p.cfg s.core (coreInput p s i)) (i' : Input) :
    Dcache.Repeats p.dg s.dc (dcInput p s i) (dcInput p (run p s i) i') := by
  intro hq hr
  have hq : (dreq p s && cacheable p (daddr p s)) = true := hq
  simp only [Bool.and_eq_true] at hq
  rw [ready_eq] at hr
  have hd : (coreInput p s i).dReady = false := by simp [coreInput, dready, hq.2, hr]
  have hl'' : (probe (run p s i).halt).halt = false := hl'
  have hsame := Unified.step_holds hc.wf hc.vec (hc.step (i := coreInput p s i) hl).vec hc.quiet
    hl'' hn hq.1 hd
  have ha : daddr p (run p s i) = daddr p s := hsame.addr
  have hq' : dreq p (run p s i) = true := hsame.req
  exact ⟨by simp [dcInput, dcReq, ha, hq', hq.2], ha⟩

end RiscvScratch.Boot
