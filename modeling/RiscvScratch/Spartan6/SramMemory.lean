import RiscvScratch.Clocked.Machine
import RiscvScratch.Spartan6.Sram

/-! The SRAM behind its driver is a 32-bit memory with byte enables, for any requests held until
ready. -/
namespace RiscvScratch.S6Sram

def wordAt (m : Mem) (a : BitVec 17) : BitVec 32 :=
  m (a ++ 3#2) ++ m (a ++ 2#2) ++ m (a ++ 1#2) ++ m (a ++ 0#2)

/-- The lanes below `n` that a request enables, written over `m`. -/
def partialWrite (m : Mem) (i : Bus) (n : ℕ) : Mem := fun x =>
  if x.extractLsb' 2 17 = i.word ∧ (x.setWidth 2).toNat < n ∧ i.be.getLsbD (x.setWidth 2).toNat then
    lane i.wdata (x.setWidth 2)
  else m x

/-- What a request leaves in memory; a read enables no byte. -/
def Bus.apply (i : Bus) (m : Mem) : Mem := partialWrite m i 4

theorem word_append (a : BitVec 17) (j : BitVec 2) : (a ++ j).extractLsb' 2 17 = a := by
  apply BitVec.eq_of_getLsbD_eq
  intro k hk
  rw [BitVec.getLsbD_extractLsb', BitVec.getLsbD_append, if_neg (by omega), Nat.add_sub_cancel_left]
  simp [hk]

theorem lane_append (a : BitVec 17) (j : BitVec 2) : (a ++ j).setWidth 2 = j := by
  apply BitVec.eq_of_getLsbD_eq
  intro k hk
  rw [BitVec.getLsbD_setWidth, BitVec.getLsbD_append, if_pos hk]
  simp [hk]

theorem append_split (x : BitVec 19) : x.extractLsb' 2 17 ++ x.setWidth 2 = x := by
  apply BitVec.eq_of_getLsbD_eq
  intro k hk
  rw [BitVec.getLsbD_append]
  split_ifs with h
  · simp [h]
  · simp [show k - 2 < 17 by omega, show 2 + (k - 2) = k by omega]

variable {n : ℕ}

theorem getLsbD_lane {x : BitVec 32} {j : BitVec 2} (hn : n < 8) :
    (lane x j).getLsbD n = x.getLsbD (8 * j.toNat + n) := by
  rw [lane, BitVec.getLsbD_extractLsb']
  simp [hn]

theorem getLsbD_ff : (0xFF#32).getLsbD n = decide (n < 8) := by
  rcases Nat.lt_or_ge n 32 with h | h
  · revert n
    decide
  · rw [BitVec.getLsbD_of_ge _ _ h, eq_comm, decide_eq_false_iff_not]
    omega

theorem lane_setLane (x : BitVec 32) (j k : BitVec 2) (b : BitVec 8) :
    lane (setLane x j b) k = if k = j then b else lane x k := by
  have hj := j.isLt
  have hk := k.isLt
  apply BitVec.eq_of_getLsbD_eq
  intro n hn
  rw [getLsbD_lane hn, setLane, BitVec.getLsbD_or, BitVec.getLsbD_and, BitVec.getLsbD_not,
    BitVec.getLsbD_shiftLeft, BitVec.getLsbD_shiftLeft, getLsbD_ff, BitVec.getLsbD_setWidth]
  have h32 : 8 * k.toNat + n < 32 := by omega
  split_ifs with h
  · subst h
    simp [hn, h32, show n < 32 by omega]
  · have hne : k.toNat ≠ j.toNat := fun heq => h (BitVec.eq_of_toNat_eq heq)
    rw [getLsbD_lane hn]
    rcases Nat.lt_or_ge k.toNat j.toNat with hlt | hge
    · simp [h32, show 8 * k.toNat + n < 8 * j.toNat by omega]
    · have hfar : 8 ≤ 8 * k.toNat + n - 8 * j.toNat := by omega
      simp [h32, BitVec.getLsbD_of_ge _ _ hfar, show ¬8 * k.toNat + n < 8 * j.toNat by omega,
        show ¬8 * k.toNat + n - 8 * j.toNat < 8 by omega]

theorem eq_of_lanes {x y : BitVec 32} (h : ∀ j, lane x j = lane y j) : x = y := by
  apply BitVec.eq_of_getLsbD_eq
  intro n hn
  have hj := congrArg (fun v : BitVec 8 => v.getLsbD (n % 8)) (h (BitVec.ofNat 2 (n / 8)))
  have hlt : n % 8 < 8 := Nat.mod_lt _ (by decide)
  simp only [getLsbD_lane hlt, BitVec.toNat_ofNat] at hj
  rwa [Nat.mod_eq_of_lt (show n / 8 < 2 ^ 2 by omega), Nat.div_add_mod] at hj

theorem lane_wordAt (m : Mem) (a : BitVec 17) (j : BitVec 2) :
    lane (wordAt m a) j = m (a ++ j) := by
  have hj : j = 0#2 ∨ j = 1#2 ∨ j = 2#2 ∨ j = 3#2 := by revert j; decide
  apply BitVec.eq_of_getLsbD_eq
  intro n hn
  rw [getLsbD_lane hn, wordAt, BitVec.getLsbD_append, BitVec.getLsbD_append, BitVec.getLsbD_append]
  rcases hj with rfl | rfl | rfl | rfl
  · simp [hn]
  · simp [show ¬8 + n < 8 by omega, hn]
  · simp [show ¬16 + n < 8 by omega, show ¬16 + n - 8 < 8 by omega, hn,
      show 16 + n - 8 - 8 = n by omega]
  · simp [show ¬24 + n < 8 by omega, show ¬24 + n - 8 < 8 by omega,
      show ¬24 + n - 8 - 8 < 8 by omega, show 24 + n - 8 - 8 - 8 = n by omega]

theorem partialWrite_zero (m : Mem) (i : Bus) : partialWrite m i 0 = m := by
  funext x
  simp [partialWrite]

theorem partialWrite_read {i : Bus} (h : i.be = 0) (m : Mem) (n : ℕ) : partialWrite m i n = m := by
  funext x
  simp [partialWrite, h]

theorem partialWrite_masked {m : Mem} {i : Bus} (h : i.be.getLsbD n = false) :
    partialWrite m i (n + 1) = partialWrite m i n := by
  funext x
  unfold partialWrite
  congr 1
  have : (x.setWidth 2).toNat = n → i.be.getLsbD (x.setWidth 2).toNat = false := fun hx => hx ▸ h
  grind

theorem partialWrite_enabled {m : Mem} {i : Bus} {j : BitVec 2} (h : i.be.getLsbD j.toNat = true) :
    Function.update (partialWrite m i j.toNat) (i.word ++ j) (lane i.wdata j) =
      partialWrite m i (j.toNat + 1) := by
  funext x
  by_cases hx : x = i.word ++ j
  · rw [hx, Function.update_self]
    simp [partialWrite, word_append, lane_append, h]
  · rw [Function.update_of_ne hx]
    unfold partialWrite
    have hne : x.extractLsb' 2 17 = i.word → (x.setWidth 2).toNat ≠ j.toNat := by
      intro hw hj
      apply hx
      rw [← append_split x, hw, BitVec.eq_of_toNat_eq hj]
    congr 1
    grind

variable {c : Config}

structure Latched (s : Ctl) (i : Bus) : Prop where
  requests : i.requests = true
  word : s.wordA = i.word
  wbuf : s.wbuf = i.wdata
  bebuf : s.bebuf = i.be

/-- `m` is the memory before the request `i` that is being served, if one is. -/
def Inv (c : Config) (s : State) (m : Mem) (i : Bus) : Prop :=
  match s.ctl.st with
  | .idle => s.chip.mem = m
  | .rd =>
    Latched s.ctl i ∧ i.be = 0 ∧ s.chip.mem = m ∧
      (∀ j, j.toNat < s.ctl.bi.toNat → lane s.ctl.rdata j = m (i.word ++ j)) ∧
      s.ctl.cnt.toNat < c.rdCycles ∧
      (s.ctl.cnt.toNat = 0 ∨ s.ctl.cnt.toNat ≤ s.chip.held ∧ s.chip.lastA = s.ctl.pins.a)
  | .wset => Latched s.ctl i ∧ i.be ≠ 0 ∧ s.chip.mem = partialWrite m i s.ctl.bi.toNat
  | .wpul =>
    Latched s.ctl i ∧ i.be ≠ 0 ∧ s.chip.mem = partialWrite m i s.ctl.bi.toNat ∧
      i.be.getLsbD s.ctl.bi.toNat = true ∧ s.ctl.cnt.toNat < c.wrCycles
  | .whold => Latched s.ctl i ∧ i.be ≠ 0 ∧ s.chip.mem = partialWrite m i (s.ctl.bi.toNat + 1)
  | .ack =>
    i.requests = true ∧ s.chip.mem = i.apply m ∧ (i.be = 0 → s.ctl.rdata = wordAt m i.word)

variable {s : State} {i : Input} {m : Mem} {i' : Bus}

theorem Latched.congr {s s' : Ctl} {i : Bus} (h : Latched s i) (hw : s'.wordA = s.wordA)
    (hb : s'.wbuf = s.wbuf) (he : s'.bebuf = s.bebuf) : Latched s' i :=
  ⟨h.requests, hw.trans h.word, hb.trans h.wbuf, he.trans h.bebuf⟩

theorem Inv.of_ctl {s' : State} {x : Ctl} (hctl : s'.ctl = x) (h : Inv c ⟨x, s'.chip⟩ m i') :
    Inv c s' m i' := by
  subst hctl
  exact h

theorem mem_step (s : State) (i : Input) : (step c s i).chip.mem =
    if s.ctl.st = .wpul ∧ (step c s i).ctl.st = .whold then
      Function.update s.chip.mem (step c s i).ctl.pins.a (step c s i).ctl.pins.dout
    else s.chip.mem := by
  change (if (!s.ctl.pins.weN && (step c s i).ctl.pins.weN && !(step c s i).ctl.pins.ceN) = true
    then _ else _) = _
  by_cases hst : s.ctl.st = .wpul
  · have hnext : (step c s i).ctl.st = .wpul ∨ (step c s i).ctl.st = .whold := by
      simp only [step, Ctl.step, hst]
      split_ifs <;> simp
    rcases hnext with h | h
    · simp [Ctl.pins, hst, h]
    · have hrise : (!s.ctl.pins.weN && (step c s i).ctl.pins.weN &&
          !(step c s i).ctl.pins.ceN) = true := by
        simp [Ctl.pins, Ctl.writing, hst, h]
      rw [if_pos hrise, if_pos ⟨hst, h⟩]
      rfl
  · simp [Ctl.pins, hst]

theorem mem_step_of_ne {s : State} (hst : s.ctl.st ≠ .wpul) (i : Input) :
    (step c s i).chip.mem = s.chip.mem := by
  rw [mem_step, if_neg fun h => hst h.1]

theorem toNat_next_lane {s : Ctl} (h : s.lastByte = false) : (s.bi + 1).toNat = s.bi.toNat + 1 := by
  have hlt := s.bi.isLt
  have hne : s.bi.toNat ≠ 3 := by
    intro h3
    have : s.bi = 3 := BitVec.eq_of_toNat_eq h3
    simp [Ctl.lastByte, this] at h
  rw [BitVec.toNat_add_of_lt (by simp; omega)]
  rfl

theorem toNat_last_lane {s : Ctl} (h : s.lastByte = true) : s.bi.toNat = 3 := by
  have : s.bi = 3 := by simpa [Ctl.lastByte] using h
  rw [this]
  rfl

theorem inv_idle (hst : s.ctl.st = .idle) (h : Inv c s m i.bus)
    (hheld : i.bus.requests = true → i' = i.bus) : Inv c (step c s i) m i' := by
  have hmem : s.chip.mem = m := by simpa [Inv, hst] using h
  have hkeep : (step c s i).chip.mem = m := by
    rw [mem_step_of_ne (by rw [hst]; decide), hmem]
  by_cases hreq : i.bus.requests = true
  · rw [hheld hreq]
    refine .of_ctl (Ctl.step_start hst hreq) ?_
    by_cases hbe : i.bus.be = 0
    · simp only [Inv, if_neg (not_not.mpr hbe)]
      exact ⟨⟨hreq, rfl, rfl, rfl⟩, hbe, hkeep, fun j hj => absurd hj (Nat.not_lt_zero _), c.rd_pos,
        .inl rfl⟩
    · simp only [Inv, if_pos hbe]
      exact ⟨⟨hreq, rfl, rfl, rfl⟩, hbe, hkeep.trans (partialWrite_zero m i.bus).symm⟩
  · refine .of_ctl (Ctl.step_idle hst (by simpa using hreq)) ?_
    simp only [Inv, hst]
    exact hkeep

theorem lt_steady (hst : s.ctl.st = .rd)
    (hheld : s.ctl.cnt.toNat = 0 ∨
      s.ctl.cnt.toNat ≤ s.chip.held ∧ s.chip.lastA = s.ctl.pins.a) :
    s.ctl.cnt.toNat < s.chip.steady s.ctl.pins := by
  have hdrives : Chip.drives s.ctl.pins = true := by
    simp [Chip.drives, Ctl.pins, Ctl.writing, hst]
  rw [Chip.steady, if_pos hdrives]
  rcases hheld with h | ⟨h, ha⟩
  · omega
  · rw [if_pos ha]
    omega

theorem inv_rd (hst : s.ctl.st = .rd) (h : Inv c s m i.bus) : Inv c (step c s i) m i.bus := by
  simp only [Inv, hst] at h
  obtain ⟨hl, hbe, hmem, hlanes, hcnt, hheld⟩ := h
  have hkeep : (step c s i).chip.mem = m := by
    rw [mem_step_of_ne (by rw [hst]; decide), hmem]
  by_cases hend : s.ctl.cnt.toNat + 1 = c.rdCycles
  · have hdin : din c s i = m (i.bus.word ++ s.ctl.bi) := by
      have := lt_steady hst hheld
      rw [din, if_pos (by omega), hmem, ← hl.word]
      rfl
    have hnew : ∀ j, j.toNat < s.ctl.bi.toNat + 1 →
        lane (setLane s.ctl.rdata s.ctl.bi (din c s i)) j = m (i.bus.word ++ j) := by
      intro j hj
      rw [lane_setLane]
      split_ifs with hjb
      · rw [hdin, hjb]
      · have hne : j.toNat ≠ s.ctl.bi.toNat := fun heq => hjb (BitVec.eq_of_toNat_eq heq)
        exact hlanes j (by omega)
    cases hlast : s.ctl.lastByte with
    | true =>
      refine .of_ctl (Ctl.step_rd_last hst hend hlast) ?_
      simp only [Inv]
      refine ⟨hl.requests, by rw [hkeep, Bus.apply, partialWrite_read hbe], ?_⟩
      intro _
      apply eq_of_lanes
      intro j
      rw [lane_wordAt]
      exact hnew j (by rw [toNat_last_lane hlast]; exact j.isLt)
    | false =>
      refine .of_ctl (Ctl.step_rd_next hst hend hlast) ?_
      simp only [Inv, hst]
      refine ⟨hl.congr rfl rfl rfl, hbe, hkeep, fun j hj => ?_, c.rd_pos, .inl rfl⟩
      exact hnew j (by rwa [toNat_next_lane hlast] at hj)
  · have hcnt' : (s.ctl.cnt + 1).toNat = s.ctl.cnt.toNat + 1 := by
      have := c.rd_le
      exact BitVec.toNat_add_of_lt (by simp; omega)
    refine .of_ctl (Ctl.step_rd_wait hst hend) ?_
    simp only [Inv, hst]
    refine ⟨hl.congr rfl rfl rfl, hbe, hkeep, hlanes, by omega, .inr ⟨?_, rfl⟩⟩
    rw [hcnt']
    exact lt_steady hst hheld

theorem inv_lane_done {s' : State} (hl : Latched s'.ctl i') (hbe : i'.be ≠ 0)
    (hmem : s'.chip.mem = partialWrite m i' (n + 1))
    (hst : s'.ctl.st = .wset ∧ s'.ctl.bi.toNat = n + 1 ∨ s'.ctl.st = .ack ∧ n = 3) :
    Inv c s' m i' := by
  rcases hst with ⟨hst, hbi⟩ | ⟨hst, hn⟩
  · simp only [Inv, hst]
    exact ⟨hl, hbe, by rw [hbi]; exact hmem⟩
  · simp only [Inv, hst]
    exact ⟨hl.requests, by rw [hmem, hn]; rfl, fun h => absurd h hbe⟩

theorem inv_wset (hst : s.ctl.st = .wset) (h : Inv c s m i.bus) : Inv c (step c s i) m i.bus := by
  simp only [Inv, hst] at h
  obtain ⟨hl, hbe, hmem⟩ := h
  have hkeep : (step c s i).chip.mem = s.chip.mem := mem_step_of_ne (by rw [hst]; decide) i
  cases hb : s.ctl.bebuf.getLsbD s.ctl.bi.toNat with
  | false =>
    have hmask : i.bus.be.getLsbD s.ctl.bi.toNat = false := by rw [← hl.bebuf]; exact hb
    have hnext : (step c s i).chip.mem = partialWrite m i.bus (s.ctl.bi.toNat + 1) := by
      rw [hkeep, hmem, partialWrite_masked hmask]
    cases hlast : s.ctl.lastByte with
    | true =>
      exact .of_ctl (Ctl.step_wset_skip_last hst hb hlast)
        (inv_lane_done (hl.congr rfl rfl rfl) hbe hnext (.inr ⟨rfl, toNat_last_lane hlast⟩))
    | false =>
      exact .of_ctl (Ctl.step_wset_skip hst hb hlast)
        (inv_lane_done (hl.congr rfl rfl rfl) hbe hnext (.inl ⟨hst, toNat_next_lane hlast⟩))
  | true =>
    refine .of_ctl (Ctl.step_wset_pulse hst hb) ?_
    simp only [Inv]
    exact ⟨hl.congr rfl rfl rfl, hbe, hkeep.trans hmem, by rw [← hl.bebuf]; exact hb, c.wr_pos⟩

theorem inv_wpul (hst : s.ctl.st = .wpul) (h : Inv c s m i.bus) : Inv c (step c s i) m i.bus := by
  simp only [Inv, hst] at h
  obtain ⟨hl, hbe, hmem, hb, hcnt⟩ := h
  by_cases hend : s.ctl.cnt.toNat + 1 = c.wrCycles
  · have hctl : (step c s i).ctl = _ := Ctl.step_wpul_end hst hend
    refine .of_ctl hctl ?_
    simp only [Inv]
    refine ⟨hl.congr rfl rfl rfl, hbe, ?_⟩
    rw [mem_step, if_pos ⟨hst, congrArg Ctl.st hctl⟩, hctl, hmem]
    change Function.update (partialWrite m i.bus s.ctl.bi.toNat) (s.ctl.wordA ++ s.ctl.bi)
      (lane s.ctl.wbuf s.ctl.bi) = _
    rw [hl.word, hl.wbuf]
    exact partialWrite_enabled hb
  · have hctl : (step c s i).ctl = _ := Ctl.step_wpul_wait hst hend
    have hpul : (step c s i).ctl.st = .wpul := (congrArg Ctl.st hctl).trans hst
    have hcnt' : (s.ctl.cnt + 1).toNat = s.ctl.cnt.toNat + 1 := by
      have := c.wr_le
      exact BitVec.toNat_add_of_lt (by simp; omega)
    have hkeep : (step c s i).chip.mem = s.chip.mem := by
      rw [mem_step, if_neg fun hh => by rw [hpul] at hh; exact absurd hh.2 (by decide)]
    refine .of_ctl hctl ?_
    simp only [Inv, hst]
    exact ⟨hl.congr rfl rfl rfl, hbe, hkeep.trans hmem, hb, by omega⟩

theorem inv_whold (hst : s.ctl.st = .whold) (h : Inv c s m i.bus) :
    Inv c (step c s i) m i.bus := by
  simp only [Inv, hst] at h
  obtain ⟨hl, hbe, hmem⟩ := h
  have hnext : (step c s i).chip.mem = partialWrite m i.bus (s.ctl.bi.toNat + 1) := by
    rw [mem_step_of_ne (by rw [hst]; decide), hmem]
  cases hlast : s.ctl.lastByte with
  | true =>
    exact .of_ctl (Ctl.step_whold_last hst hlast)
      (inv_lane_done (hl.congr rfl rfl rfl) hbe hnext (.inr ⟨rfl, toNat_last_lane hlast⟩))
  | false =>
    exact .of_ctl (Ctl.step_whold_next hst hlast)
      (inv_lane_done (hl.congr rfl rfl rfl) hbe hnext (.inl ⟨rfl, toNat_next_lane hlast⟩))

theorem inv_ack (hst : s.ctl.st = .ack) (h : Inv c s m i.bus) :
    Inv c (step c s i) (i.bus.apply m) i' := by
  simp only [Inv, hst] at h
  have hid : (step c s i).ctl.st = .idle := congrArg Ctl.st (Ctl.step_ack hst)
  simp only [Inv, hid]
  rw [mem_step_of_ne (by rw [hst]; decide)]
  exact h.2.1

theorem Inv.requests (h : Inv c s m i') (hst : s.ctl.st ≠ .idle) : i'.requests = true := by
  unfold Inv at h
  cases hs : s.ctl.st with
  | idle => exact absurd hs hst
  | rd | wset | wpul | whold => simp only [hs] at h; exact h.1.requests
  | ack => simp only [hs] at h; exact h.1

theorem inv_step (h : Inv c s m i.bus)
    (hheld : i.bus.requests = true → s.ctl.ready = false → i' = i.bus) :
    Inv c (step c s i) (if s.ctl.ready then i.bus.apply m else m) i' := by
  have hbusy : ∀ p, s.ctl.st = p → p ≠ .idle → p ≠ .ack → i' = i.bus ∧ s.ctl.ready = false := by
    rintro p rfl hid hack
    have hr : s.ctl.ready = false := by simpa [Ctl.ready] using hack
    exact ⟨hheld (h.requests hid) hr, hr⟩
  cases hst : s.ctl.st with
  | idle =>
    have hr : s.ctl.ready = false := by simp [Ctl.ready, hst]
    rw [hr]
    exact inv_idle hst h fun hreq => hheld hreq hr
  | rd =>
    obtain ⟨rfl, hr⟩ := hbusy .rd hst (by decide) (by decide)
    rw [hr]
    exact inv_rd hst h
  | wset =>
    obtain ⟨rfl, hr⟩ := hbusy .wset hst (by decide) (by decide)
    rw [hr]
    exact inv_wset hst h
  | wpul =>
    obtain ⟨rfl, hr⟩ := hbusy .wpul hst (by decide) (by decide)
    rw [hr]
    exact inv_wpul hst h
  | whold =>
    obtain ⟨rfl, hr⟩ := hbusy .whold hst (by decide) (by decide)
    rw [hr]
    exact inv_whold hst h
  | ack =>
    rw [if_pos (by simp [Ctl.ready, hst])]
    exact inv_ack hst h

def rank (c : Config) (s : Ctl) : ℕ :=
  match s.st with
  | .idle => 0
  | .rd => (3 - s.bi.toNat) * c.rdCycles + (c.rdCycles - s.cnt.toNat)
  | .wset => (3 - s.bi.toNat) * (c.wrCycles + 3) + (c.wrCycles + 3)
  | .wpul => (3 - s.bi.toNat) * (c.wrCycles + 3) + (c.wrCycles + 2 - s.cnt.toNat)
  | .whold => (3 - s.bi.toNat) * (c.wrCycles + 3) + 1
  | .ack => 0

theorem rank_lane {s : Ctl} (h : s.lastByte = false) (n : ℕ) :
    (3 - s.bi.toNat) * n = (3 - (s.bi + 1).toNat) * n + n := by
  have hlt := s.bi.isLt
  have hbi := toNat_next_lane h
  have : (s.bi + 1).toNat < 4 := (s.bi + 1).isLt
  rw [hbi, show 3 - s.bi.toNat = 3 - (s.bi.toNat + 1) + 1 by omega, Nat.add_mul, Nat.one_mul]

theorem Inv.cnt_lt (h : Inv c s m i') : (s.ctl.st = .rd → s.ctl.cnt.toNat < c.rdCycles) ∧
    (s.ctl.st = .wpul → s.ctl.cnt.toNat < c.wrCycles) := by
  constructor
  · intro hst
    simp only [Inv, hst] at h
    exact h.2.2.2.2.1
  · intro hst
    simp only [Inv, hst] at h
    exact h.2.2.2.2

theorem rank_step (h : Inv c s m i.bus) (hid : s.ctl.st ≠ .idle) (hack : s.ctl.st ≠ .ack) :
    rank c (step c s i).ctl < rank c s.ctl ∧ (step c s i).ctl.st ≠ .idle := by
  have hrd := c.rd_le
  have hwr := c.wr_le
  obtain ⟨hcr, hcw⟩ := h.cnt_lt
  change rank c (s.ctl.step c i.bus (din c s i)) < _ ∧ (s.ctl.step c i.bus (din c s i)).st ≠ _
  cases hst : s.ctl.st with
  | idle => exact absurd hst hid
  | ack => exact absurd hst hack
  | rd =>
    have hlt := hcr hst
    by_cases hend : s.ctl.cnt.toNat + 1 = c.rdCycles
    · cases hlast : s.ctl.lastByte with
      | true =>
        rw [Ctl.step_rd_last hst hend hlast]
        simp only [rank, hst]
        exact ⟨by omega, by decide⟩
      | false =>
        have := rank_lane hlast c.rdCycles
        have hzero : (0 : BitVec 8).toNat = 0 := rfl
        rw [Ctl.step_rd_next hst hend hlast]
        simp only [rank, hst, hzero]
        exact ⟨by omega, by decide⟩
    · have hcnt : (s.ctl.cnt + 1).toNat = s.ctl.cnt.toNat + 1 :=
        BitVec.toNat_add_of_lt (by simp; omega)
      rw [Ctl.step_rd_wait hst hend]
      simp only [rank, hst, hcnt]
      exact ⟨by omega, by decide⟩
  | wset =>
    cases hb : s.ctl.bebuf.getLsbD s.ctl.bi.toNat with
    | true =>
      rw [Ctl.step_wset_pulse hst hb]
      simp only [rank, hst, BitVec.ofNat_eq_ofNat, BitVec.toNat_ofNat, Nat.zero_mod]
      exact ⟨by omega, by decide⟩
    | false =>
      cases hlast : s.ctl.lastByte with
      | true =>
        rw [Ctl.step_wset_skip_last hst hb hlast]
        simp only [rank, hst]
        exact ⟨by omega, by decide⟩
      | false =>
        have := rank_lane hlast (c.wrCycles + 3)
        rw [Ctl.step_wset_skip hst hb hlast]
        simp only [rank, hst]
        exact ⟨by omega, by decide⟩
  | wpul =>
    have hlt := hcw hst
    by_cases hend : s.ctl.cnt.toNat + 1 = c.wrCycles
    · rw [Ctl.step_wpul_end hst hend]
      simp only [rank, hst]
      exact ⟨by omega, by decide⟩
    · have hcnt : (s.ctl.cnt + 1).toNat = s.ctl.cnt.toNat + 1 :=
        BitVec.toNat_add_of_lt (by simp; omega)
      rw [Ctl.step_wpul_wait hst hend]
      simp only [rank, hst, hcnt]
      exact ⟨by omega, by decide⟩
  | whold =>
    cases hlast : s.ctl.lastByte with
    | true =>
      rw [Ctl.step_whold_last hst hlast]
      simp only [rank, hst]
      exact ⟨by omega, by decide⟩
    | false =>
      have := rank_lane hlast (c.wrCycles + 3)
      rw [Ctl.step_whold_next hst hlast]
      simp only [rank, hst]
      exact ⟨by omega, by decide⟩

section Runs

variable (r : Run c)

def bus (t : ℕ) : Bus := (r.input t).bus
def ready (t : ℕ) : Bool := (r.state t).ctl.ready
def pins (t : ℕ) : Pins := (r.state t).ctl.pins

/-- The memory as the requests answered before `t` leave it. -/
def contents : ℕ → Mem
  | 0 => (r.state 0).chip.mem
  | t + 1 => if ready r t then (bus r t).apply (contents t) else contents t

/-- Cycle `t` is the first of a request. -/
def Begins (t : ℕ) : Prop :=
  (bus r t).requests = true ∧
    ∀ u, t = u + 1 → (bus r u).requests = false ∨ ready r u = true

abbrev RequestsHeld : Prop :=
  Clocked.Holds (fun t => (bus r t).requests) (ready r) (bus r)

section Held

variable (hheld : RequestsHeld r)
include hheld

theorem run_inv (t : ℕ) : Inv c (r.state t) (contents r t) (bus r t) := by
  induction t with
  | zero =>
    have hid : (r.state 0).ctl.st = .idle := by rw [r.starts.1]; rfl
    simp only [Inv, hid]
    rfl
  | succ t ih =>
    rw [r.steps]
    exact inv_step ih fun hreq hr => (hheld t hreq hr).2

theorem idle_of_begins {t : ℕ} (h : Begins r t) : (r.state t).ctl.st = .idle := by
  cases t with
  | zero => rw [r.starts.1]; rfl
  | succ u =>
    have hstep : (r.state (u + 1)).ctl = (r.state u).ctl.step c (bus r u) (din c (r.state u)
      (r.input u)) := by rw [r.steps]; rfl
    rcases h.2 u rfl with hno | hr
    · have hid : (r.state u).ctl.st = .idle := by
        by_contra hst
        have := (run_inv r hheld u).requests hst
        simp [hno] at this
      rw [hstep, Ctl.step_idle hid hno]
      exact hid
    · have hack : (r.state u).ctl.st = .ack := by simpa [ready, Ctl.ready] using hr
      rw [hstep, Ctl.step_ack hack]

theorem ready_of_busy (n t : ℕ) (hn : rank c (r.state t).ctl ≤ n)
    (hid : (r.state t).ctl.st ≠ .idle) :
    ∃ k, ready r (t + k) = true ∧ ∀ j < k, ready r (t + j) = false := by
  induction n generalizing t with
  | zero =>
    by_cases hack : (r.state t).ctl.st = .ack
    · exact ⟨0, by simp [ready, Ctl.ready, hack], by simp⟩
    · have := (rank_step (run_inv r hheld t) hid hack).1
      omega
  | succ n ih =>
    by_cases hack : (r.state t).ctl.st = .ack
    · exact ⟨0, by simp [ready, Ctl.ready, hack], by simp⟩
    · obtain ⟨hrank, hid'⟩ := rank_step (i := r.input t) (run_inv r hheld t) hid hack
      have hstep : r.state (t + 1) = step c (r.state t) (r.input t) := r.steps t
      rw [← hstep] at hrank hid'
      obtain ⟨k, hk, hbefore⟩ := ih (t + 1) (by omega) hid'
      refine ⟨k + 1, by rw [← hk, Nat.add_comm k 1, ← Nat.add_assoc], ?_⟩
      intro j hj
      cases j with
      | zero => simpa [ready, Ctl.ready] using hack
      | succ j =>
        rw [Nat.add_comm j 1, ← Nat.add_assoc]
        exact hbefore j (by omega)

theorem answered {t : ℕ} (h : Begins r t) :
    ∃ n, 0 < n ∧ ready r (t + n) = true ∧ ∀ k < n, ready r (t + k) = false := by
  have hid := idle_of_begins r hheld h
  have hstep : (r.state (t + 1)).ctl = (r.state t).ctl.step c (bus r t) (din c (r.state t)
    (r.input t)) := by rw [r.steps]; rfl
  have hbusy : (r.state (t + 1)).ctl.st ≠ .idle := by
    rw [hstep, Ctl.step_start hid h.1]
    dsimp only
    split_ifs <;> decide
  obtain ⟨k, hk, hbefore⟩ := ready_of_busy r hheld _ (t + 1) (Nat.le_refl _) hbusy
  refine ⟨k + 1, Nat.succ_pos k, by rw [← hk, Nat.add_comm k 1, ← Nat.add_assoc], ?_⟩
  intro j hj
  cases j with
  | zero => simp [ready, Ctl.ready, hid]
  | succ j =>
    rw [Nat.add_comm j 1, ← Nat.add_assoc]
    exact hbefore j (by omega)

end Held
end Runs

end RiscvScratch.S6Sram
