import RiscvScratch.Spartan6.SramMemory

/-! The pins of the SRAM driver over whole runs, and with them the whole of what it promises. -/
namespace RiscvScratch.S6Sram

variable {c : Config}

section Step

variable {s : Ctl} {i : Bus} {d : BitVec 8}

theorem wpul_of_step (h : (s.step c i d).st = .wpul) (hst : s.st ≠ .wpul) :
    s.st = .wset ∧ s.step c i d = { s with cnt := 0, st := .wpul } := by
  have hset : s.st = .wset := by
    cases hs : s.st with
    | ack => rw [Ctl.step_ack hs] at h; cases h
    | _ => simp only [Ctl.step, hs] at h; split_ifs at h <;> simp_all
  refine ⟨hset, Ctl.step_wset_pulse hset ?_⟩
  cases hb : s.bebuf.getLsbD s.bi.toNat with
  | true => rfl
  | false =>
    cases hl : s.lastByte with
    | true =>
      rw [Ctl.step_wset_skip_last hset hb hl] at h
      cases h
    | false =>
      rw [Ctl.step_wset_skip hset hb hl] at h
      exact absurd h hst

theorem rd_of_step (h : (s.step c i d).st = .rd) :
    (s.step c i d).cnt = 0 ∨ s.st = .rd ∧ s.step c i d = { s with cnt := s.cnt + 1 } := by
  by_cases hs : s.st = .rd
  · by_cases hend : s.cnt.toNat + 1 = c.rdCycles
    · left
      simp only [Ctl.step, hs]
      rw [if_pos hend]
      split_ifs <;> rfl
    · exact .inr ⟨hs, Ctl.step_rd_wait hs hend⟩
  · left
    have hid : s.st = .idle := by
      cases hs' : s.st with
      | ack => rw [Ctl.step_ack hs'] at h; cases h
      | _ => simp only [Ctl.step, hs'] at h; split_ifs at h <;> simp_all
    cases hr : i.requests with
    | false =>
      rw [Ctl.step_idle hid hr] at h
      exact absurd h hs
    | true => rw [Ctl.step_start hid hr]

end Step

section Runs

variable (r : Run c)

theorem ctl_step (t : ℕ) : (r.state (t + 1)).ctl =
    (r.state t).ctl.step c (bus r t) (din c (r.state t) (r.input t)) := by
  rw [r.steps]
  rfl

variable {t : ℕ}

/-- A pulse that starts after `t`: the count runs up, and then `/WE` rises for the hold clock. -/
theorem pulse (h : (r.state (t + 1)).ctl = { (r.state t).ctl with cnt := 0, st := .wpul }) :
    (∀ k < c.wrCycles, (r.state (t + 1 + k)).ctl =
      { (r.state t).ctl with cnt := BitVec.ofNat 8 k, st := .wpul }) ∧
    (r.state (t + 1 + c.wrCycles)).ctl = { (r.state t).ctl with cnt := 0, st := .whold } := by
  have hle := c.wr_le
  have hpos := c.wr_pos
  have hlow : ∀ k < c.wrCycles, (r.state (t + 1 + k)).ctl =
      { (r.state t).ctl with cnt := BitVec.ofNat 8 k, st := .wpul } := by
    intro k hk
    induction k with
    | zero => exact h
    | succ k ih =>
      have ih := ih (by omega)
      have hst : (r.state (t + 1 + k)).ctl.st = .wpul := by rw [ih]
      have hcnt : (r.state (t + 1 + k)).ctl.cnt = BitVec.ofNat 8 k := by rw [ih]
      have hne : (r.state (t + 1 + k)).ctl.cnt.toNat + 1 ≠ c.wrCycles := by
        rw [hcnt, BitVec.toNat_ofNat, Nat.mod_eq_of_lt (by omega)]
        omega
      rw [← Nat.add_assoc, ctl_step, Ctl.step_wpul_wait hst hne, ih, BitVec.ofNat_add]
      rfl
  refine ⟨hlow, ?_⟩
  have hlast := hlow (c.wrCycles - 1) (by omega)
  have hst : (r.state (t + 1 + (c.wrCycles - 1))).ctl.st = .wpul := by rw [hlast]
  have hend : (r.state (t + 1 + (c.wrCycles - 1))).ctl.cnt.toNat + 1 = c.wrCycles := by
    rw [hlast]
    change (BitVec.ofNat 8 (c.wrCycles - 1)).toNat + 1 = _
    rw [BitVec.toNat_ofNat, Nat.mod_eq_of_lt (by omega)]
    omega
  rw [show t + 1 + c.wrCycles = t + 1 + (c.wrCycles - 1) + 1 by omega, ctl_step,
    Ctl.step_wpul_end hst hend, hlast]

/-- `/WE` low for `WR_CYCLES` clocks, with address and data unchanged from one clock before to one
clock after. -/
theorem write_pulse (hhi : (pins r t).weN = true) (hlo : (pins r (t + 1)).weN = false) :
    (∀ k, 1 ≤ k → k ≤ c.wrCycles → (pins r (t + k)).weN = false) ∧
    (pins r (t + c.wrCycles + 1)).weN = true ∧
    ∀ k ≤ c.wrCycles + 1, (pins r (t + k)).a = (pins r t).a ∧
      (pins r (t + k)).dout = (pins r t).dout ∧ (pins r (t + k)).doe = true ∧
      (pins r (t + k)).ceN = false := by
  have hst : (r.state t).ctl.st ≠ .wpul := by simpa [pins, Ctl.pins] using hhi
  have hst' : (r.state (t + 1)).ctl.st = .wpul := by simpa [pins, Ctl.pins] using hlo
  have hstep := ctl_step r t
  rw [hstep] at hst'
  obtain ⟨hset, hpul⟩ := wpul_of_step hst' hst
  obtain ⟨hlow, hhold⟩ := pulse r (hstep.trans hpul)
  refine ⟨?_, ?_, ?_⟩
  · intro k hk hkw
    have := hlow (k - 1) (by omega)
    rw [show t + 1 + (k - 1) = t + k by omega] at this
    simp [pins, Ctl.pins, this]
  · rw [show t + c.wrCycles + 1 = t + 1 + c.wrCycles by omega]
    simp [pins, Ctl.pins, hhold]
  · intro k hk
    rcases Nat.eq_zero_or_pos k with rfl | hpos
    · simp [pins, Ctl.pins, Ctl.writing, hset]
    · rcases Nat.lt_or_ge k (c.wrCycles + 1) with hlt | hge
      · have := hlow (k - 1) (by omega)
        rw [show t + 1 + (k - 1) = t + k by omega] at this
        simp [pins, Ctl.pins, Ctl.writing, this]
      · rw [show t + k = t + 1 + c.wrCycles by omega]
        simp [pins, Ctl.pins, Ctl.writing, hhold]

/-- A read that has counted `n` clocks has had its address on the pins that long. -/
theorem reading (hst : (r.state t).ctl.st = .rd) :
    ∀ k ≤ (r.state t).ctl.cnt.toNat, k ≤ t ∧ (r.state (t - k)).ctl.st = .rd ∧
      (pins r (t - k)).a = (pins r t).a := by
  induction t with
  | zero =>
    rw [r.starts.1] at hst
    cases hst
  | succ t ih =>
    intro k hk
    rcases Nat.eq_zero_or_pos k with rfl | hpos
    · exact ⟨Nat.zero_le _, hst, rfl⟩
    · have hstep := ctl_step r t
      rw [hstep] at hst
      rcases rd_of_step hst with h0 | ⟨hrd, hwait⟩
      · rw [hstep, h0] at hk
        exact absurd hk (by simp; omega)
      · have hle : (r.state (t + 1)).ctl.cnt.toNat ≤ (r.state t).ctl.cnt.toNat + 1 := by
          rw [hstep, hwait]
          exact (BitVec.toNat_add _ _).trans_le (Nat.mod_le _ _)
        obtain ⟨hkt, hst', ha⟩ := ih hrd (k - 1) (by omega)
        refine ⟨by omega, by rw [show t + 1 - k = t - (k - 1) by omega]; exact hst', ?_⟩
        rw [show t + 1 - k = t - (k - 1) by omega, ha]
        unfold pins
        rw [hstep, hwait]
        rfl

/-- Every byte is sampled with the address on the pins for `RD_CYCLES` clocks. -/
theorem sampled_stable (h : (r.state t).ctl.samples c = true) :
    ∀ k < c.rdCycles, k ≤ t ∧ (pins r (t - k)).a = (pins r t).a ∧
      (pins r (t - k)).ceN = false ∧ (pins r (t - k)).oeN = false := by
  obtain ⟨hst, hcnt⟩ : (r.state t).ctl.st = .rd ∧
      (r.state t).ctl.cnt.toNat + 1 = c.rdCycles := by
    simpa [Ctl.samples] using h
  intro k hk
  obtain ⟨hkt, hst', ha⟩ := reading r hst k (by omega)
  exact ⟨hkt, ha, by simp [pins, Ctl.pins, hst'], by simp [pins, Ctl.pins, hst']⟩

/-- Each request held until ready is answered once, a read with the word the requests before it
leave; and the pins obey the part's rules. -/
theorem sram_is_memory (hheld : RequestsHeld r) :
    (∀ t, Begins r t → ∃ n, 0 < n ∧ ready r (t + n) = true ∧
      (∀ k < n, ready r (t + k) = false) ∧ ∀ k ≤ n, bus r (t + k) = bus r t) ∧
    (∀ t, ready r t = true → (bus r t).requests = true ∧
      (r.state t).chip.mem = (bus r t).apply (contents r t) ∧
      ((bus r t).be = 0 → (r.state t).ctl.rdata = wordAt (contents r t) (bus r t).word)) ∧
    (∀ t, (bus r t).requests = false → (r.state t).chip.mem = contents r t) ∧
    (∀ t, (pins r t).weN = true → (pins r (t + 1)).weN = false →
      (∀ k, 1 ≤ k → k ≤ c.wrCycles → (pins r (t + k)).weN = false) ∧
      (pins r (t + c.wrCycles + 1)).weN = true ∧
      ∀ k ≤ c.wrCycles + 1, (pins r (t + k)).a = (pins r t).a ∧
        (pins r (t + k)).dout = (pins r t).dout ∧ (pins r (t + k)).doe = true ∧
        (pins r (t + k)).ceN = false) ∧
    (∀ t, (pins r t).oeN = false → (pins r t).doe = false) ∧
    ∀ t, (r.state t).ctl.samples c = true → ∀ k < c.rdCycles, k ≤ t ∧
      (pins r (t - k)).a = (pins r t).a ∧ (pins r (t - k)).ceN = false ∧
      (pins r (t - k)).oeN = false := by
  refine ⟨?_, ?_, ?_, fun t => write_pulse r, ?_, fun t => sampled_stable r⟩
  · intro t hb
    obtain ⟨n, hn, hr, hbefore⟩ := answered r hheld hb
    refine ⟨n, hn, hr, hbefore, ?_⟩
    intro k hk
    have hs : Clocked.Sampled (fun t => (bus r t).requests) (ready r) t (t + k) := by
      refine ⟨Nat.le_add_right t k, hb.1, ?_⟩
      intro u htu huk
      have := hbefore (u - t) (by omega)
      rwa [Nat.add_sub_cancel' htu] at this
    exact (hheld.sampled hs).2
  · intro t hr
    have hst : (r.state t).ctl.st = .ack := by simpa [ready, Ctl.ready] using hr
    have h := run_inv r hheld t
    simp only [Inv, hst] at h
    exact h
  · intro t hno
    have h := run_inv r hheld t
    have hid : (r.state t).ctl.st = .idle := by
      by_contra hst
      have := h.requests hst
      simp [hno] at this
    simpa [Inv, hid] using h
  · intro t ho
    have hst : (r.state t).ctl.st = .rd := by simpa [pins, Ctl.pins] using ho
    simp [pins, Ctl.pins, Ctl.writing, hst]

end Runs

def storeForever : Run ⟨2, 2, by decide, by decide, by decide, by decide⟩ :=
  Clocked.Machine.runOf (machine _)
    (fun _ _ => ⟨⟨true, false, 0xF, 0x40, 0xDEADBEEF⟩, 0⟩)
    ⟨Ctl.reset, ⟨fun _ => 0, 0, 0⟩⟩ ⟨rfl, rfl⟩

theorem storeForever_answered : ∃ n, 0 < n ∧ ready storeForever (0 + n) = true ∧
    (∀ k < n, ready storeForever (0 + k) = false) ∧
    ∀ k ≤ n, bus storeForever (0 + k) = bus storeForever 0 := by
  have hheld : RequestsHeld storeForever := fun t hreq _ => ⟨hreq, rfl⟩
  refine (sram_is_memory storeForever hheld).1 0 ⟨by decide, ?_⟩
  intro u hu
  omega

end RiscvScratch.S6Sram
