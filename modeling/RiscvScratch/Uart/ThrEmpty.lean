import RiscvScratch.Uart.FifoIntegrity

/-! The THR-empty interrupt of the 16550. -/
namespace RiscvScratch.Uart16550

section Step

variable {s : State} {i : Input}

/-- `IER[1]` is set and the transmit FIFO is empty. -/
def Due (s : State) : Prop := s.ier.getLsbD 1 = true ∧ s.txN = 0

/-- A clear of the transmit FIFO takes nothing but the byte the transmitter starts with. -/
def ClearsNothing (s : State) (i : Input) : Prop :=
  clearTx s i = true → s.txN = 0 ∨ s.txN = 1 ∧ txSend s = true

theorem txN_step_zero (h : Sound s) (hc : clearTx s i = false) :
    (step s i).txN = 0 ↔ pushTx s i = false ∧ (s.txN = 0 ∨ s.txN = 1 ∧ txSend s = true) := by
  have hn := Ring.toNat_next (wbyte i) h.tx (pushTx_room (i := i)) txSend_ne
  rw [← hc, ← txRing_step] at hn
  have hpos : txSend s = true → 0 < s.txN.toNat := Ring.Ok.pos txSend_ne
  have hzero : ∀ x : BitVec 5, x = 0 ↔ x.toNat = 0 := fun x => BitVec.toNat_inj.symm
  have hone : s.txN = 1 ↔ s.txN.toNat = 1 := BitVec.toNat_inj.symm
  change (step s i).txN.toNat = s.txN.toNat + _ - _ at hn
  rw [hzero, hzero, hone, hn]
  cases hp : pushTx s i <;> cases hs : txSend s <;> simp_all <;> omega

theorem wr_ne {a b : BitVec 3} (h : wr i a = true) (hab : b ≠ a) : wr i b = false := by
  simp [wr] at h ⊢
  intro _ _ hb
  exact hab (hb.symm.trans h.2)

theorem threIp_step : (step s i).threIp =
    if raisesThre s i then true else if acksThre s i then false else if pushTx s i then false
    else if txSend s && s.txN == 1 then true else s.threIp := rfl

theorem ier_step : (step s i).ier =
    if wr i 1#3 && !dlab s then (i.wdata.setWidth 4).setWidth 8 else s.ier := rfl

theorem acks_due (h : acksThre s i = true) :
    s.ier.getLsbD 1 = true ∧ s.threIp = true := by
  simp only [acksThre, Bool.and_eq_true, beq_iff_eq] at h
  have hi := h.2
  unfold iid at hi
  split_ifs at hi with h1 h2 h3 h4
  · exact absurd hi (by decide)
  · exact absurd hi (by decide)
  · exact absurd hi (by decide)
  · simpa [intThre] using h4
  · exact absurd hi (by decide)

theorem pending_empty_step (h : Sound s) (hp : s.threIp = true → s.txN = 0)
    (hset : (step s i).threIp = true) : (step s i).txN = 0 := by
  cases hc : clearTx s i with
  | true => simp [step, hc]
  | false =>
    rw [txN_step_zero h hc]
    rw [threIp_step] at hset
    split_ifs at hset with hr ha hpush hlast
    · simp [raisesThre] at hr
      exact ⟨hr.2.2, .inl hr.2.1.2⟩
    · refine ⟨by simpa using hpush, .inr ?_⟩
      simp at hlast
      exact ⟨hlast.2, hlast.1⟩
    · exact ⟨by simpa using hpush, .inl (hp hset)⟩

/-- A step into a state where the interrupt is due leaves it pending, or was due before and has
reported it or kept it. -/
theorem due_step (h : Sound s) (hp : s.threIp = true → s.txN = 0) (hclear : ClearsNothing s i)
    (hdue : Due (step s i)) :
    (step s i).threIp = true ∨
      Due s ∧ (acksThre s i = true ∨ (step s i).threIp = s.threIp) := by
  obtain ⟨hier, hn⟩ := hdue
  rw [threIp_step]
  split_ifs with hr ha hpush hlast
  · exact .inl rfl
  · have := acks_due ha
    exact .inr ⟨⟨this.1, hp this.2⟩, .inl ha⟩
  · exfalso
    have hc : clearTx s i = false := by
      have hw : wr i 0#3 = true := by simp [pushTx] at hpush; exact hpush.1.1
      simp [clearTx, clears, wr_ne hw (show (2#3) ≠ 0#3 by decide)]
    have := ((txN_step_zero h hc).mp hn).1
    simp [hpush] at this
  · exact .inl rfl
  · -- nothing touched the bit: the FIFO was empty already, and the enable was set
    have hempty : s.txN = 0 := by
      have hz : s.txN = 0 ∨ s.txN = 1 ∧ txSend s = true := by
        cases hc : clearTx s i with
        | true => exact hclear hc
        | false => exact ((txN_step_zero h hc).mp hn).2
      rcases hz with hz | ⟨h1, hs⟩
      · exact hz
      · simp [h1, hs] at hlast
    refine .inr ⟨⟨?_, hempty⟩, .inr rfl⟩
    rw [ier_step] at hier
    split_ifs at hier with hw
    · by_contra hoff
      apply hr
      simp at hier hw hoff hpush
      simp [raisesThre, hw, hier, hoff, hempty, hpush]
    · exact hier

end Step

section Runs

variable {defDiv : BitVec 16} (r : Run defDiv)

/-- A read of IIR that returns 2. -/
def ReportsThre (t : ℕ) : Prop :=
  rd (r.input t) 2#3 = true ∧ (rdata (r.state t) (r.input t).toBus).setWidth 4 = 2#4

theorem reports_of_acks {t : ℕ} (h : acksThre (r.state t) (r.input t) = true) :
    ReportsThre r t := by
  simp [acksThre] at h
  refine ⟨h.1, ?_⟩
  have hra : (r.input t).ra = 2#3 := by
    have := h.1
    simp [rd] at this
    exact this.2
  have hread : readByte (r.state t) 2#3 = BitVec.ofBool (r.state t).fifoEn ++
      BitVec.ofBool (r.state t).fifoEn ++ 0#2 ++ iid (r.state t) := rfl
  rw [rdata, hra, hread, h.2]
  cases (r.state t).fifoEn <;> decide

/-- While the interrupt is due it is pending or has been reported, as long as FIFO control writes do
not empty the transmit FIFO. -/
theorem thre_not_lost (hclear : ∀ t, ClearsNothing (r.state t) (r.input t)) (t : ℕ) :
    (Due (r.state t) → (r.state t).threIp = true ∨
      ∃ u < t, ReportsThre r u ∧ ∀ v, u ≤ v → v ≤ t → Due (r.state v)) ∧
    ((r.state t).threIp = true → (r.state t).txN = 0) := by
  induction t with
  | zero =>
    have h0 : r.state 0 = reset defDiv := r.starts
    rw [h0]
    constructor
    · intro hdue
      exact absurd hdue.1 (by simp [reset])
    · intro _
      rfl
  | succ t ih =>
    obtain ⟨ihdue, ihp⟩ := ih
    have hsound := run_sound r t
    have hstep : r.state (t + 1) = step (r.state t) (r.input t) := r.steps t
    constructor
    · intro hdue
      have hd := hdue
      rw [hstep] at hd ⊢
      rcases due_step hsound ihp (hclear t) hd with h | ⟨hold, hack | hkeep⟩
      · exact .inl h
      · refine .inr ⟨t, Nat.lt_succ_self t, reports_of_acks r hack, ?_⟩
        intro v htv hvt
        rcases Nat.le_succ_iff_eq_or_le.mp hvt with rfl | h
        · exact hdue
        · obtain rfl : v = t := by omega
          exact hold
      · rw [hkeep]
        rcases ihdue hold with h | ⟨u, hut, hu, hall⟩
        · exact .inl h
        · refine .inr ⟨u, hut.trans (Nat.lt_succ_self t), hu, ?_⟩
          intro v huv hvt
          rcases Nat.le_succ_iff_eq_or_le.mp hvt with rfl | h
          · exact hdue
          · exact hall v huv h
    · rw [hstep]
      exact pending_empty_step hsound ihp

end Runs

/-- A write of `v` to register `a`, with nothing arriving. -/
def writeReg (a : BitVec 3) (v : BitVec 32) : Input := ⟨⟨true, true, a ++ 0#2, v⟩, none⟩

def quiet : Input := ⟨⟨false, false, 0, 0⟩, none⟩

/-- IER enables the interrupt, a first byte goes to the transmitter, and a second one waits. -/
def twoSent : ℕ → Input
  | 0 => writeReg 1#3 2
  | 1 => writeReg 0#3 0x41
  | 3 => writeReg 0#3 0x42
  | _ => quiet

/-- The same, and then FCR clears the transmit FIFO. -/
def thenCleared (t : ℕ) : Input := if t = 4 then writeReg 2#3 4 else twoSent t

def runOn (input : ℕ → Input) : Run 1 :=
  (machine 1).runOf (fun t _ => input t) (reset 1) rfl

/-- No IIR read at all, and yet after the clear the interrupt is due and not pending. -/
theorem cleared_lost :
    Due ((runOn thenCleared).state 5) ∧ ((runOn thenCleared).state 5).threIp = false ∧
      ∀ t, ¬ReportsThre (runOn thenCleared) t := by
  refine ⟨⟨by decide +kernel, by decide +kernel⟩, by decide +kernel, ?_⟩
  intro t ht
  have hread : rd (thenCleared t) 2#3 = true := ht.1
  unfold thenCleared twoSent at hread
  split_ifs at hread
  · exact absurd hread (by decide)
  · split at hread <;> exact absurd hread (by decide)

theorem enabled_pending :
    Due ((runOn twoSent).state 1) ∧ ((runOn twoSent).state 1).threIp = true := by
  have hdue : Due ((runOn twoSent).state 1) := ⟨by decide +kernel, by decide +kernel⟩
  refine ⟨hdue, ?_⟩
  have hno : ∀ t, ClearsNothing ((runOn twoSent).state t) ((runOn twoSent).input t) := by
    intro t hc
    have hw : wr (twoSent t) 2#3 = true := by
      have hc' : clears _ (twoSent t) 2 = true := hc
      simp only [clears, Bool.and_eq_true] at hc'
      exact hc'.1
    unfold twoSent at hw
    split at hw <;> exact absurd hw (by decide)
  rcases (thre_not_lost (runOn twoSent) hno 1).1 hdue with h | ⟨u, hu, hrep, -⟩
  · exact h
  · obtain rfl : u = 0 := by omega
    exact absurd hrep.1 (by decide +kernel)

end RiscvScratch.Uart16550
