import RiscvScratch.SocPlic.Claims

/-! Received bytes of `uart_full` behind `cpu_mc`. A load selects the UART for two cycles, each of
which clears the status after the capture of the same edge. -/
namespace RiscvScratch.SocPlic

variable {c : Config} {s : State c} {i : Input}

def reads (s : State c) : Bool := selUart s && !wrAny s && (daddr s).setWidth 8 == 0x04#8

theorem rdRx_uartInput : UartFull.rdRx (uartInput s i) = reads s := by
  simp only [UartFull.rdRx, uartInput, reads]
  cases selUart s <;> simp

/-- No byte arrives in a cycle of an RXDATA load, and the load of the cycle is not interrupted. -/
structure Quiet (s : State c) : Prop where
  apart : s.uart.rx.valid = true → reads s = false
  load : CpuMc.LoadUninterrupted s.core (coreInput s 0#32)

instance (s : State c) : Decidable (Quiet s) :=
  decidable_of_iff ((s.uart.rx.valid = true → reads s = false) ∧
    CpuMc.LoadUninterrupted s.core (coreInput s 0#32)) ⟨fun h => ⟨h.1, h.2⟩, fun h => ⟨h.1, h.2⟩⟩

theorem rxHold_step (s : State c) (i : Input) :
    (step s i).uart.rxHold = if UartFull.captures s.uart then s.uart.rx.data else s.uart.rxHold :=
  rfl

theorem rxValid_step (hr : reads s = false) :
    (step s i).uart.rxValid = (s.uart.rx.valid || s.uart.rxValid) := by
  change (if UartFull.rdRx (uartInput s i) then false
    else if UartFull.captures s.uart then true else s.uart.rxValid) = _
  rw [rdRx_uartInput, hr, UartFull.captures]
  cases s.uart.rx.valid <;> cases s.uart.rxValid <;> rfl

theorem stOver_step (hr : reads s = false) :
    (step s i).uart.stOver = (s.uart.rx.valid && s.uart.rxValid || s.uart.stOver) := by
  change (if UartFull.rdRx (uartInput s i) then false
    else if s.uart.rx.valid && s.uart.rxValid then true else s.uart.stOver) = _
  rw [rdRx_uartInput, hr]
  cases s.uart.rx.valid && s.uart.rxValid <;> rfl

theorem Loading.reads (hl : Loading s) (h : Ok s) : reads (step s i) = reads s := by
  obtain ⟨hw, hw', -⟩ := hl.again (i := i) h
  simp only [SocPlic.reads, hl.selUart h, hl.daddr h, hw, hw']

theorem dre_of_reads (h : reads s = true) : dre s = true := by
  simp only [reads, Bool.and_eq_true, Bool.not_eq_true'] at h
  obtain ⟨⟨hsel, hw⟩, -⟩ := h
  simp only [selUart, selIo, dvalid, hw, Bool.or_false, Bool.and_eq_true] at hsel
  exact hsel.1.1

theorem loading_of_reads {r : Run c} {t : ℕ} (hq : Quiet (r.state (t + 1)))
    (h : reads (r.state (t + 1)) = true) (hno : reads (r.state t) = false) :
    Loading (r.state (t + 1)) := by
  have hre := dre_of_reads h
  simp only [dre, CpuMc.dmemRe, Bool.and_eq_true, Bool.or_eq_true] at hre
  obtain ⟨hread, he | hm⟩ := hre
  · exact ⟨by simpa [CpuMc.inExec] using he, hread, CpuMc.traps_eq_false hq.load he hread⟩
  · -- MEM repeats the read of EXEC
    have hmem : (r.state (t + 1)).core.state = .mem := by simpa [CpuMc.inMem] using hm
    have hstep : r.state (t + 1) = step (r.state t) (r.input t) := r.steps t
    rw [hstep] at hmem h
    rw [(loading_of_mem hmem).reads (run_ok r t), hno] at h
    cases h

theorem Loading.drdata_rx (hl : Loading s) (h : Ok s) (hr : SocPlic.reads s = true) (i' : Input) :
    drdata (step s i) i' = (step s i).uart.rxHold.setWidth 32 := by
  have hr' := hl.reads (i := i) h
  rw [hr] at hr'
  simp only [SocPlic.reads, Bool.and_eq_true, beq_iff_eq] at hr'
  obtain ⟨⟨hsel, -⟩, haddr⟩ := hr'
  have haddr' : (uartInput (step s i) i').addr = 0x04 := haddr
  rw [drdata, if_pos hsel, UartFull.rdata, if_pos haddr']

/-- A byte in the holding register, or an overrun, stays until the next read. -/
structure Kept (s : State c) (valid : Bool) (byte : BitVec 8) : Prop where
  held : valid = false → s.uart.rxValid = true ∧ s.uart.rxHold = byte
  overrun : valid = true → s.uart.stOver = true

theorem kept_of_valid (hv : s.uart.rx.valid = true) (hr : reads s = false) :
    Kept (step s i) s.uart.rxValid s.uart.rx.data := by
  constructor
  · intro hfree
    have hc : UartFull.captures s.uart = true := by simp [UartFull.captures, hv, hfree]
    rw [rxValid_step hr, rxHold_step, hc, hv]
    exact ⟨rfl, rfl⟩
  · intro hfull
    rw [stOver_step hr, hv, hfull]
    rfl

theorem Kept.step {valid : Bool} {byte : BitVec 8} (h : Kept s valid byte)
    (hr : reads s = false) : Kept (step s i) valid byte := by
  constructor
  · intro hfree
    obtain ⟨hvalid, hhold⟩ := h.held hfree
    have hc : UartFull.captures s.uart = false := by simp [UartFull.captures, hvalid]
    rw [rxValid_step hr, rxHold_step, hc, hvalid]
    exact ⟨by simp, hhold⟩
  · intro hfull
    rw [stOver_step hr, h.overrun hfull]
    simp

theorem run_kept {r : Run c} {t u : ℕ} (hv : (r.state t).uart.rx.valid = true)
    (hr : reads (r.state t) = false) (htu : t + 1 ≤ u)
    (hno : ∀ v, t < v → v < u → reads (r.state v) = false) :
    Kept (r.state u) (r.state t).uart.rxValid (r.state t).uart.rx.data := by
  induction u, htu using Nat.le_induction with
  | base =>
    rw [r.steps]
    exact kept_of_valid hv hr
  | succ u htu ih =>
    have hkept := ih fun v h1 h2 => hno v h1 (by omega)
    rw [r.steps]
    exact hkept.step (hno u htu (by omega))

/-- A byte that arrives at `t` is delivered by the next read of RXDATA at `u`, or the overrun bit
shows it. -/
theorem received_shown (r : Run c) (t u : ℕ) (htu : t < u)
    (hv : (r.state t).uart.rx.valid = true)
    (hq : ∀ v, t ≤ v → v ≤ u → Quiet (r.state v))
    (hno : ∀ v, t < v → v < u → reads (r.state v) = false) :
    Kept (r.state u) (r.state t).uart.rxValid (r.state t).uart.rx.data ∧
      ((r.state t).uart.rxValid = false → reads (r.state u) = true →
        Delivers r u ((r.state t).uart.rx.data.setWidth 32)) := by
  have hr : reads (r.state t) = false := (hq t le_rfl htu.le).apart hv
  have hkept := run_kept hv hr htu hno
  refine ⟨hkept, fun hfree hread => ?_⟩
  have hqu := hq u htu.le le_rfl
  have hbefore : reads (r.state (u - 1)) = false := by
    rcases Nat.lt_or_ge t (u - 1) with h | h
    · exact hno (u - 1) h (by omega)
    · rwa [show u - 1 = t by omega]
  have hl : Loading (r.state u) := by
    obtain ⟨w, rfl⟩ : ∃ w, u = w + 1 := ⟨u - 1, by omega⟩
    exact loading_of_reads hqu hread hbefore
  -- nothing arrives in the read's own cycle, so the second cycle still finds the byte
  have hhold : (r.state (u + 1)).uart.rxHold = (r.state t).uart.rx.data := by
    have hvalid : (r.state u).uart.rx.valid = false := by
      by_contra hv'
      have := hqu.apart (by simpa using hv')
      simp [hread] at this
    rw [r.steps]
    change (step (r.state u) (r.input u)).uart.rxHold = _
    rw [rxHold_step, UartFull.captures, hvalid]
    exact (hkept.held hfree).2
  have hdata : drdata (r.state (u + 1)) (r.input (u + 1)) =
      (r.state t).uart.rx.data.setWidth 32 := by
    rw [← hhold, r.steps u]
    exact hl.drdata_rx (run_ok r u) hread _
  rw [← hdata]
  exact hl.delivers

/-- The letter `A` at four clocks a bit, after five cycles of idle line. -/
def letterA (t : ℕ) : Bool :=
  if t < 5 then true
  else if t < 9 then false
  else if t < 41 then (0x41#8).getLsbD ((t - 9) / 4)
  else true

/-- A program in the ROM with the UART's address in `x1`, receiving the letter. -/
def receiving (rom : BitVec 5 → Word) : Run ⟨5, 4, rom, fun _ => 0, { defClks := 4 }⟩ :=
  (machine _).runOf (fun t _ => ⟨letterA t, fun _ => false⟩)
    (reset _ (fun a => if a = 1 then 0x10000000 else 0) 0 0) ⟨_, _, _, rfl⟩

def loadOnce : BitVec 5 → Word := fun a => if a = 25 then 0x0040a383 else 0x00000013

/-- Loads RXDATA all the time. -/
def loadAlways : BitVec 5 → Word := fun a => if a = 0 then 0x0040a003 else 0xffdff06f

theorem loadOnce_waits : ∀ v < 51, 47 < v → reads ((receiving loadOnce).state v) = false := by
  decide +kernel

theorem loadOnce_delivers : ((receiving loadOnce).state 47).uart.rx.data = 0x41 ∧
      Delivers (receiving loadOnce) 51
        (((receiving loadOnce).state 47).uart.rx.data.setWidth 32) :=
  ⟨by decide +kernel,
    (received_shown (receiving loadOnce) 47 51 (by decide) (by decide +kernel) (by decide +kernel)
      fun v h1 h2 => loadOnce_waits v h2 h1).2 (by decide +kernel) (by decide +kernel)⟩

/-- The byte arrives in the second cycle of a load: it is captured and the same edge clears its
valid bit, with no overrun. -/
theorem loadAlways_lost : ((receiving loadAlways).state 47).uart.rx.valid = true ∧
      ((receiving loadAlways).state 47).uart.rx.data = 0x41 ∧
      ((receiving loadAlways).state 47).core.state = .mem ∧
      ((receiving loadAlways).state 47).uart.rxHold = 0 ∧
      ((receiving loadAlways).state 48).uart.rxValid = false ∧
      ((receiving loadAlways).state 48).uart.stOver = false ∧
      ((receiving loadAlways).state 48).core.state = .fetch := by
  decide +kernel

end RiscvScratch.SocPlic
