import RiscvScratch.Queue.Ring
import RiscvScratch.Uart.Uart16550

/-! The two FIFOs of the 16550 over whole runs. -/
namespace RiscvScratch.Uart16550

open Queue

structure Ring where
  mem : BitVec 4 → BitVec 8
  rd : BitVec 4
  wr : BitVec 4
  n : BitVec 5

namespace Ring

def contents (r : Ring) : List (BitVec 8) := segment r.mem r.rd r.n.toNat

def next (r : Ring) (push : Bool) (x : BitVec 8) (pop clear : Bool) : Ring where
  mem := if push then Function.update r.mem r.wr x else r.mem
  rd := if clear then 0 else if pop then r.rd + 1 else r.rd
  wr := if clear then 0 else if push then r.wr + 1 else r.wr
  n :=
    if clear then 0
    else r.n + (BitVec.ofBool push).setWidth 5 - (BitVec.ofBool pop).setWidth 5

/-- The count is at most `cap`, and the write pointer is that far ahead. -/
structure Ok (r : Ring) (cap : ℕ) : Prop where
  le : r.n.toNat ≤ cap
  cap_le : cap ≤ 16
  ahead : r.wr = r.rd + BitVec.ofNat 4 r.n.toNat

theorem Ok.pos {r : Ring} {pop : Bool} (hpop : pop → r.n ≠ 0) (hp : pop) : 0 < r.n.toNat :=
  Nat.pos_of_ne_zero fun h0 => hpop hp (BitVec.eq_of_toNat_eq h0)

variable {r : Ring} {cap : ℕ} {push pop : Bool} (x : BitVec 8)

theorem toNat_next (h : r.Ok cap) (hpush : push → r.n.toNat ≠ cap) (hpop : pop → r.n ≠ 0) :
    (r.next push x pop false).n.toNat = r.n.toNat + push.toNat - pop.toNat := by
  have hle := h.le
  have hcap := h.cap_le
  have hn : pop → 0 < r.n.toNat := Ok.pos hpop
  simp only [next, Bool.false_eq_true, if_false]
  cases push <;> cases pop <;> simp_all [BitVec.toNat_sub, BitVec.toNat_add] <;> omega

theorem next_ok (h : r.Ok cap) (hpush : push → r.n.toNat ≠ cap) (hpop : pop → r.n ≠ 0) :
    (r.next push x pop false).Ok cap := by
  have hn := toNat_next x h hpush hpop
  have hle := h.le
  refine ⟨?_, h.cap_le, ?_⟩
  · rw [hn]
    cases push <;> simp_all <;> omega
  · rw [hn]
    exact ahead_step h.ahead (Ok.pos hpop)

theorem cleared_ok (hcap : cap ≤ 16) : (r.next push x pop true).Ok cap :=
  ⟨Nat.zero_le cap, hcap, rfl⟩

theorem contents_next (h : r.Ok cap) (hpush : push → r.n.toNat ≠ cap) (hpop : pop → r.n ≠ 0)
    (clear : Bool) :
    (r.next push x pop clear).contents =
      Queue.step r.contents ⟨if push then some x else none, pop, clear⟩ := by
  cases clear with
  | true => rfl
  | false =>
    have hn := toNat_next x h hpush hpop
    have hlt : push → r.n.toNat < 2 ^ 4 := by
      intro hp
      have := hpush hp
      have := h.le
      have := h.cap_le
      omega
    have hseg := segment_step r.mem r.rd x hlt (Ok.pos hpop)
    rw [contents, hn]
    rw [← h.ahead] at hseg
    refine hseg.trans ?_
    cases push <;> rfl

theorem head_contents (h : r.n ≠ 0) : r.contents.head? = some (r.mem r.rd) := by
  obtain ⟨k, hk⟩ : ∃ k, r.n.toNat = k + 1 := Nat.exists_eq_succ_of_ne_zero fun h0 =>
    h (BitVec.eq_of_toNat_eq h0)
  rw [contents, hk, segment_succ, List.head?_cons]

end Ring

section Fifos

variable {s : State} {i : Input}

def rxRing (s : State) : Ring := ⟨s.rxq, s.rxRd, s.rxWr, s.rxN⟩
def txRing (s : State) : Ring := ⟨s.txq, s.txRd, s.txWr, s.txN⟩

/-- Counts and pointers of both FIFOs, and the transmitter's `busy`. -/
structure Sound (s : State) : Prop where
  rx : (rxRing s).Ok (cap s).toNat
  tx : (txRing s).Ok (cap s).toNat
  busy : UartTxCfg.Tracks s.tx

def rxByte (i : Input) : BitVec 8 := (i.arrival.map (·.byte)).getD 0

theorem rxRing_step : rxRing (step s i) =
    (rxRing s).next (pushRx s i) (rxByte i) (popRx s i) (clearRx s i) := rfl

theorem txRing_step : txRing (step s i) =
    (txRing s).next (pushTx s i) (wbyte i) (txSend s) (clearTx s i) := rfl

theorem cap_le (s : State) : (cap s).toNat ≤ 16 := by
  unfold cap
  split_ifs <;> decide

theorem pushRx_room (h : pushRx s i = true) : (rxRing s).n.toNat ≠ (cap s).toNat := by
  intro heq
  simp [pushRx] at h
  exact h.2 (BitVec.eq_of_toNat_eq heq)

theorem pushTx_room (h : pushTx s i = true) : (txRing s).n.toNat ≠ (cap s).toNat := by
  intro heq
  simp [pushTx] at h
  exact h.2 (BitVec.eq_of_toNat_eq heq)

theorem popRx_ne (h : popRx s i = true) : (rxRing s).n ≠ 0 := by
  simp [popRx] at h
  exact h.2

theorem txSend_ne (h : txSend s = true) : (txRing s).n ≠ 0 := by
  simp [txSend] at h
  exact h.1

theorem cap_step (b : ℕ) (h : clears s i b = false) : cap (step s i) = cap s := by
  have hmode : (step s i).fifoEn = s.fifoEn := by
    by_cases hw : wr i 2#3 = true
    · simp [clears, hw] at h
      simp [step, hw, h.2]
    · simp [step, hw]
  rw [cap, cap, hmode]

theorem reset_sound (defDiv : BitVec 16) : Sound (reset defDiv) :=
  ⟨⟨Nat.zero_le _, cap_le _, rfl⟩, ⟨Nat.zero_le _, cap_le _, rfl⟩, rfl⟩

theorem step_sound (h : Sound s) : Sound (step s i) := by
  refine ⟨?_, ?_, UartTxCfg.step_tracks h.busy⟩
  · rw [rxRing_step]
    cases hc : clearRx s i with
    | true => exact Ring.cleared_ok _ (cap_le _)
    | false =>
      rw [cap_step 1 hc]
      exact Ring.next_ok _ h.rx pushRx_room popRx_ne
  · rw [txRing_step]
    cases hc : clearTx s i with
    | true => exact Ring.cleared_ok _ (cap_le _)
    | false =>
      rw [cap_step 2 hc]
      exact Ring.next_ok _ h.tx pushTx_room txSend_ne

end Fifos

section Runs

variable {defDiv : BitVec 16} (r : Run defDiv)

variable (t : ℕ)

theorem run_sound : Sound (r.state t) :=
  r.invariant (fun _ => True) Sound (by rintro s rfl; exact reset_sound defDiv)
    (fun _ _ _ h => step_sound h) (fun _ => trivial) t

/-- The receive FIFO's cycles: characters that find room, RBR reads that pop, FCR clears. -/
def rxOps : Op (BitVec 8) where
  push := if (r.state t).rxN = cap (r.state t) then none else (r.input t).arrival.map (·.byte)
  pop := popRx (r.state t) (r.input t)
  clear := clearRx (r.state t) (r.input t)

def returned : BitVec 8 := (rdata (r.state t) (r.input t).toBus).setWidth 8

def started : Option (BitVec 8) :=
  UartTxCfg.starts (r.state t).tx (txInput (r.state t))

/-- The transmit FIFO's cycles: THR writes that find room, frames started, FCR clears. -/
def txOps : Op (BitVec 8) where
  push := if pushTx (r.state t) (r.input t) then some (wbyte (r.input t)) else none
  pop := (started r t).isSome
  clear := clearTx (r.state t) (r.input t)

theorem rxOps_push : (rxOps r t).push =
    if pushRx (r.state t) (r.input t) then some (rxByte (r.input t)) else none := by
  unfold rxOps pushRx rxByte
  cases (r.input t).arrival with
  | none => simp
  | some a => by_cases h : (r.state t).rxN = cap (r.state t) <;> simp [h]

theorem started_eq : started r t =
    if txSend (r.state t) then some ((r.state t).txq (r.state t).txRd) else none := by
  have hbusy := (run_sound r t).busy
  unfold UartTxCfg.Tracks at hbusy
  unfold started UartTxCfg.starts
  cases hs : txSend (r.state t) with
  | false => simp [txInput, hs]
  | true =>
    have hidle : (r.state t).tx.phase = .idle := by
      simp [txSend, hbusy] at hs
      exact hs.2
    simp [txInput, hs, hidle]

theorem rx_contents :
    (rxRing (r.state (t + 1))).contents = Queue.step (rxRing (r.state t)).contents (rxOps r t) := by
  have h := Ring.contents_next (rxByte (r.input t)) (run_sound r t).rx
    (pushRx_room (i := r.input t)) (popRx_ne (i := r.input t)) (clearRx (r.state t) (r.input t))
  rw [← rxOps_push] at h
  rw [r.steps]
  exact h

theorem tx_contents :
    (txRing (r.state (t + 1))).contents = Queue.step (txRing (r.state t)).contents (txOps r t) := by
  have h := Ring.contents_next (wbyte (r.input t)) (run_sound r t).tx
    (pushTx_room (i := r.input t)) txSend_ne (clearTx (r.state t) (r.input t))
  have hpop : (started r t).isSome = txSend (r.state t) := by
    rw [started_eq]
    split_ifs with hs <;> simp [hs]
  rw [r.steps]
  unfold txOps
  rw [hpop]
  exact h

theorem returned_of_pop {t : ℕ} (h : popRx (r.state t) (r.input t) = true) :
    returned r t = (r.state t).rxq (r.state t).rxRd := by
  simp [popRx, rd] at h
  simp [returned, rdata, readByte, h]

theorem rx_serves :
    Serves (rxOps r) (source (rxOps r)) (returned r) fun t => (r.state t).rxN.toNat := by
  have h0 : (rxRing (r.state 0)).contents = [] := by rw [r.starts]; rfl
  have hserves := serves_of_contents (fun t => (rxRing (r.state t)).contents) (returned r) h0
    (rx_contents r) ?_
  · simpa only [Ring.contents, length_segment, rxRing] using hserves
  · intro t hp
    rw [returned_of_pop r hp]
    exact Ring.head_contents (popRx_ne hp)

theorem tx_serves : Serves (txOps r) (source (txOps r)) (fun t => (started r t).getD 0)
      fun t => (r.state t).txN.toNat := by
  have h0 : (txRing (r.state 0)).contents = [] := by rw [r.starts]; rfl
  have hserves := serves_of_contents (fun t => (txRing (r.state t)).contents)
    (fun t => (started r t).getD 0) h0 (tx_contents r) ?_
  · simpa only [Ring.contents, length_segment, txRing] using hserves
  · intro t hp
    have hsend : txSend (r.state t) = true := by
      by_contra hs
      simp [txOps, started_eq, hs] at hp
    rw [started_eq, if_pos hsend]
    exact Ring.head_contents (txSend_ne hsend)

/-- A read of LSR that shows the overrun. -/
def ReadsOverrun : Prop :=
  rd (r.input t) 5#3 = true ∧ (rdata (r.state t) (r.input t).toBus).getLsbD 1 = true

theorem rdata_overrun {s : State} {b : Bus} (h : b.ra = 5#3) :
    (rdata s b).getLsbD 1 = s.oe := by
  rw [rdata, readByte, h, BitVec.getLsbD_setWidth]
  exact (BitVec.getLsbD_ofBoolListBE).trans (by simp)

theorem oe_until {t u : ℕ} (ht : (r.state t).oe = true) (htu : t ≤ u) :
    (r.state u).oe = true ∨ ∃ v, t ≤ v ∧ v < u ∧ ReadsOverrun r v := by
  induction u, htu using Nat.le_induction with
  | base => exact .inl ht
  | succ u htu ih =>
    rcases ih with hoe | ⟨v, htv, hvu, hv⟩
    · by_cases hread : rd (r.input u) 5#3 = true
      · have hra : (r.input u).ra = 5#3 := by
          simp [rd] at hread
          exact hread.2
        exact .inr ⟨u, htu, Nat.lt_succ_self u, hread, by rw [rdata_overrun hra, hoe]⟩
      · left
        rw [r.steps]
        change (step _ _).oe = true
        simp [step, hread, hoe]
    · exact .inr ⟨v, htv, hvu.trans (Nat.lt_succ_self u), hv⟩

theorem oe_of_dropped {t : ℕ} (ha : (r.input t).arrival.isSome)
    (hfull : (r.state t).rxN = cap (r.state t)) : (r.state (t + 1)).oe = true := by
  rw [r.steps]
  change (step _ _).oe = true
  simp [step, ha, hfull]

/-- Whatever the bus does and the receiver delivers: counts within the capacity, reads of what
arrived with room, an overrun shown until LSR is read, and frames of what was queued. -/
theorem fifos_intact : (∀ t, (r.state t).rxN ≤ cap (r.state t) ∧ (r.state t).txN ≤ cap (r.state t) ∧
      (r.state t).rxN.setWidth 4 = (r.state t).rxWr - (r.state t).rxRd ∧
      (r.state t).txN.setWidth 4 = (r.state t).txWr - (r.state t).txRd) ∧
    (∃ src, Serves (rxOps r) src (returned r) fun t => (r.state t).rxN.toNat) ∧
    (∀ t u, (r.input t).arrival.isSome → (r.state t).rxN = cap (r.state t) → t < u →
      (r.state u).oe = true ∨ ∃ v, t < v ∧ v < u ∧ ReadsOverrun r v) ∧
    ∃ src, Serves (txOps r) src (fun t => (started r t).getD 0)
      fun t => (r.state t).txN.toNat := by
  refine ⟨?_, ⟨_, rx_serves r⟩, ?_, ⟨_, tx_serves r⟩⟩
  · intro t
    have h := run_sound r t
    have hptr : ∀ {g : Ring}, g.Ok (cap (r.state t)).toNat → g.n.setWidth 4 = g.wr - g.rd := by
      intro g hg
      rw [hg.ahead, BitVec.add_comm, BitVec.add_sub_cancel, BitVec.ofNat_toNat]
    exact ⟨h.rx.le, h.tx.le, hptr h.rx, hptr h.tx⟩
  · intro t u ha hfull htu
    rcases oe_until r (oe_of_dropped r ha hfull) htu with h | ⟨v, htv, hvu, hv⟩
    · exact .inl h
    · exact .inr ⟨v, htv, hvu, hv⟩

end Runs
end RiscvScratch.Uart16550
