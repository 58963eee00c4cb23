import RiscvScratch.Clocked.Machine
import RiscvScratch.Spartan6.Cycle

/-! The data-bus request of the Spartan-6 core is recomputed in every cycle. It stays the same while
it waits, except for a store-conditional that overwrites an operand. -/
namespace RiscvScratch.S6Core

section cycle
variable {p : Params} {s : State} {i i' : Input}

structure Request where
  addr : Word
  we : BitVec 4
  re : Bool
  wdata : Option Word
  deriving DecidableEq

def request (p : Params) (s : State) (i : Input) : Request where
  addr := dbusAddr p s i
  we := dbusWe p s i
  re := dbusRe p s i
  wdata := if dbusWe p s i = 0#4 then none else some (wdata p s i)

def requests (p : Params) (s : State) (i : Input) : Bool :=
  dbusRe p s i || dbusWe p s i != 0#4

/-- A store-conditional that is about to store does not overwrite its own operands. -/
def ScApart (p : Params) (s : State) (i : Input) : Prop :=
  issueStore p s i = true → isSc p (instr p s i) = true → rdOf (instr p s i) ≠ 0#5 →
    rdOf (instr p s i) ≠ rs1Of (instr p s i) ∧ rdOf (instr p s i) ≠ rs2Of (instr p s i)

inductive Waits (p : Params) (s : State) (i : Input) : Fsm → Prop where
  | issueLoad (h : issueLoad p s i = true) {f : Fsm} (hf : f = .load ∨ f = .amoL) : Waits p s i f
  | issueStore (h : issueStore p s i = true) : Waits p s i .store
  | load (h : s.state = .load) : Waits p s i .load
  | store (h : s.state = .store) : Waits p s i .store
  | amoL (h : s.state = .amoL) : Waits p s i .amoL
  | amoS (h : s.state = .amoS) : Waits p s i .amoS

theorem issues_of_requests (hs : s.state = .exec) (hreq : requests p s i = true) :
    issueLoad p s i = true ∨ issueStore p s i = true := by
  simp only [requests, dbusRe, dbusWe, hs, Bool.or_eq_true] at hreq
  obtain h | h := hreq
  · left
    simpa using h
  · right
    by_contra hn
    simp [hn] at h

theorem fsm_waits (hh : i.halt = false) (hr : i.dbusReady = false)
    (hreq : requests p s i = true) : ∃ f, Waits p s i f ∧ fsm p s i = { s with state := f } := by
  have hquiet (hs : s.state = .fetch ∨ s.state = .md ∨ s.state = .wfi ∨ s.state = .halt) :
      False := by
    have hne : s.state ≠ .exec := by rintro he; simp [he] at hs
    obtain hs | hs | hs | hs := hs <;>
      simp [requests, dbusRe, dbusWe, issues_idle hne, hs] at hreq
  have hsame (f : Fsm) (hs : s.state = f) : s = { s with state := f } := by rw [← hs]
  cases hs : s.state with
  | fetch => exact (hquiet (.inl hs)).elim
  | md => exact (hquiet (.inr (.inl hs))).elim
  | wfi => exact (hquiet (.inr (.inr (.inl hs)))).elim
  | halt => exact (hquiet (.inr (.inr (.inr hs)))).elim
  | load => exact ⟨.load, .load hs, by simpa [fsm, hh, hs, hr] using hsame _ hs⟩
  | store => exact ⟨.store, .store hs, by simpa [fsm, hh, hs, hr] using hsame _ hs⟩
  | amoL => exact ⟨.amoL, .amoL hs, by simpa [fsm, hh, hs, hr] using hsame _ hs⟩
  | amoS => exact ⟨.amoS, .amoS hs, by simpa [fsm, hh, hs, hr] using hsame _ hs⟩
  | exec =>
    obtain h | h := issues_of_requests hs hreq
    · have hx := h
      simp only [issueLoad, Bool.and_eq_true, Bool.not_eq_true'] at hx
      obtain ⟨⟨hc, ht⟩, hreads⟩ := hx
      obtain hco | hco := course_of_reads (datapath p s i) hreads
      · exact ⟨.load, .issueLoad h (.inl rfl),
          by simp [fsm, hh, hs, (exec_of_commit hc).2, ht, execCourse, hco, Course.done,
            Course.waitState]⟩
      · exact ⟨.amoL, .issueLoad h (.inr rfl),
          by simp [fsm, hh, hs, (exec_of_commit hc).2, ht, execCourse, hco, Course.done,
            Course.waitState]⟩
    · have hx := h
      simp only [issueStore, Bool.and_eq_true, Bool.not_eq_true'] at hx
      obtain ⟨⟨hc, ht⟩, hwrites⟩ := hx
      have hco : execCourse p s i = .store := course_of_writes (d := datapath p s i) hwrites
      exact ⟨.store, .issueStore h,
        by simp [fsm, hh, hs, (exec_of_commit hc).2, ht, hco, Course.done,
          Course.waitState, hr]⟩

variable {f : Fsm}

theorem rfWe_waits (hw : Waits p s i f) (hr : i.dbusReady = false)
    (hsc : ScApart p s i) (a : BitVec 5)
    (ha : a = rs1Of (instr p s i) ∨ a = rs2Of (instr p s i)) :
    (s.regs.write (rfWe p s i) (rdOf (instr p s i)) (wbData p s i)).read a = s.regs.read a := by
  have hkeep (h : rfWe p s i = false) :
      (s.regs.write (rfWe p s i) (rdOf (instr p s i)) (wbData p s i)).read a = s.regs.read a := by
    rw [h, Regs.write_false]
  cases hw with
  | load h | amoS h => exact hkeep (by simp [rfWe, h, hr])
  | store h | amoL h => exact hkeep (by simp [rfWe, h, commit, inExec])
  | issueLoad h _ =>
    simp only [issueLoad, Bool.and_eq_true, Bool.not_eq_true'] at h
    have hs := (exec_of_commit h.1.1).1
    exact hkeep (by simp [rfWe, hs, execRfWe_of_reads h.2])
  | issueStore h =>
    have hx := h
    simp only [issueStore, writes, Bool.and_eq_true, Bool.not_eq_true', Bool.or_eq_true] at hx
    have hs := (exec_of_commit hx.1.1).1
    obtain hst | ⟨hsc', _⟩ := hx.2
    · have hst' : isStore (instr p s i) = true := hst
      exact hkeep (by simp [rfWe, hs, execRfWe_of_isStore hst'])
    · -- only here does a waiting instruction write its destination
      have hapart := hsc h hsc'
      rw [Regs.read_write]
      by_cases h0 : rdOf (instr p s i) = 0#5
      · simp [h0]
      · obtain ⟨h1, h2⟩ := hapart h0
        have hne : rdOf (instr p s i) ≠ a := by
          obtain rfl | rfl := ha
          · exact h1
          · exact h2
        simp [hne]

theorem Waits.amoExec (h : Waits p s i f) : (f == .amoS) = (s.state == .amoS) := by
  cases h with
  | issueLoad h hf =>
    simp only [S6Core.issueLoad, Bool.and_eq_true] at h
    rw [(exec_of_commit h.1.1).1]
    obtain rfl | rfl := hf <;> rfl
  | issueStore h =>
    simp only [S6Core.issueStore, Bool.and_eq_true] at h
    rw [(exec_of_commit h.1.1).1]
    rfl
  | load h | store h | amoL h | amoS h => rw [h]

theorem Waits.strobes (h : Waits p s i f) :
    (f = .load ∨ f = .amoL) ∧ dbusRe p s i = true ∧ dbusWe p s i = 0#4 ∨
      (f = .store ∨ f = .amoS) ∧ dbusRe p s i = false ∧
        dbusWe p s i = wmask p (datapath p s i) := by
  cases h with
  | issueLoad h hf =>
    have hx := h
    simp only [S6Core.issueLoad, Bool.and_eq_true] at hx
    have hs := (exec_of_commit hx.1.1).1
    have hn : S6Core.issueStore p s i = false := by
      have hw : writes p (datapath p s i) = false := not_writes_of_reads hx.2
      simp [S6Core.issueStore, hw]
    exact .inl ⟨hf, by simp [dbusRe, h], by simp [dbusWe, hn, hs]⟩
  | issueStore h =>
    have hx := h
    simp only [S6Core.issueStore, Bool.and_eq_true] at hx
    have hs := (exec_of_commit hx.1.1).1
    have hn : S6Core.issueLoad p s i = false := by
      by_contra hl
      simp only [S6Core.issueLoad, Bool.not_eq_false, Bool.and_eq_true] at hl
      have hw : writes p (datapath p s i) = false := not_writes_of_reads hl.2
      simp [hw] at hx
    exact .inr ⟨.inl rfl, by simp [dbusRe, hn, hs], by simp [dbusWe, h]⟩
  | load h => exact .inl ⟨.inl rfl, by simp [dbusRe, h], by simp [dbusWe, issues_idle, h]⟩
  | amoL h => exact .inl ⟨.inr rfl, by simp [dbusRe, h], by simp [dbusWe, issues_idle, h]⟩
  | store h => exact .inr ⟨.inl rfl, by simp [dbusRe, issues_idle, h], by simp [dbusWe, h]⟩
  | amoS h => exact .inr ⟨.inr rfl, by simp [dbusRe, issues_idle, h], by simp [dbusWe, h]⟩

theorem request_held (hh : i.halt = false) (hr : i.dbusReady = false)
    (hreq : requests p s i = true) (hsc : ScApart p s i) (hi : i'.ibusRdata = i.ibusRdata) :
    requests p (step p s i) i' = true ∧ request p (step p s i) i' = request p s i := by
  obtain ⟨f, hw, hf⟩ := fsm_waits hh hr hreq
  have hstate : (step p s i).state = f := by simp [step, hf]
  have hinstr : instr p (step p s i) i' = instr p s i :=
    instr_congr (by simp [step, hf]) (by simp [step, hf]) (by simp [step, hf]) hi
  have hsame : SameOperands (datapath p s i) (datapath p (step p s i) i') := by
    refine ⟨hinstr, ?_, ?_, ?_, by simp [datapath, step, hf]⟩
    · simp only [datapath, hinstr]
      exact rfWe_waits hw hr hsc _ (.inl rfl)
    · simp only [datapath, hinstr]
      exact rfWe_waits hw hr hsc _ (.inr rfl)
    · simp only [datapath, hstate]
      exact hw.amoExec
  have hstrobes : dbusRe p (step p s i) i' = dbusRe p s i ∧
      dbusWe p (step p s i) i' = dbusWe p s i := by
    obtain ⟨rfl | rfl, h1, h2⟩ | ⟨rfl | rfl, h1, h2⟩ := hw.strobes <;> rw [h1, h2] <;>
      simp [dbusRe, dbusWe, issues_idle, hstate, hsame.wmask]
  obtain ⟨hre, hwe⟩ := hstrobes
  refine ⟨?_, ?_⟩
  · simpa only [requests, hre, hwe] using hreq
  · simp only [request, hre, hwe, dbusAddr, wdata, hsame.memAddr, hsame.dbusWdata]

theorem Waits.quiet (h : Waits p s i f)
    (hr : i.dbusReady = false) : instrDone p s i = false ∧ fetchHiNow p s i = false := by
  cases h with
  | load h | store h | amoL h | amoS h => simp [instrDone, fetchHiNow, inExec, h, hr]
  | issueLoad h _ =>
    simp only [S6Core.issueLoad, Bool.and_eq_true, Bool.not_eq_true'] at h
    obtain ⟨hs, hn⟩ := exec_of_commit h.1.1
    have hd : (execCourse p s i).done i.dbusReady = false := by
      obtain hco | hco := course_of_reads (datapath p s i) h.2 <;>
        simp [execCourse, hco, Course.done]
    simp [instrDone, fetchHiNow, hs, hn, h.1.2, hd]
  | issueStore h =>
    simp only [S6Core.issueStore, Bool.and_eq_true, Bool.not_eq_true'] at h
    obtain ⟨hs, hn⟩ := exec_of_commit h.1.1
    have hco : execCourse p s i = .store := course_of_writes (d := datapath p s i) h.2
    simp [instrDone, fetchHiNow, hs, hn, h.1.2, hco, Course.done, hr]

end cycle

/-- The instruction bus is a registered read of a memory that may change, but not in the word
that is being read. -/
structure Fetches (p : Params) (r : Run p) (imem : ℕ → Word → Word) : Prop where
  reads : ∀ t, (r.input (t + 1)).ibusRdata = imem t (ibusAddr p (r.state t) (r.input t))
  keeps : ∀ t, imem (t + 1) (ibusAddr p (r.state t) (r.input t)) =
    imem t (ibusAddr p (r.state t) (r.input t))

/-- The core holds its data-bus request until it is answered, if no store-conditional names one of
its own operands as its destination. -/
theorem dbus_request_held (p : Params) (r : Run p) (imem : ℕ → Word → Word)
    (hhalt : ∀ t, (r.input t).halt = false) (hfetch : Fetches p r imem)
    (hsc : ∀ t, ScApart p (r.state t) (r.input t)) :
    Clocked.Holds (fun t => requests p (r.state t) (r.input t)) (fun t => (r.input t).dbusReady)
      (fun t => request p (r.state t) (r.input t)) := by
  intro t hreq hr
  have hstep (u : ℕ) : r.state (u + 1) = step p (r.state u) (r.input u) := r.steps u
  obtain ⟨f, hw, -⟩ := fsm_waits (hhalt t) hr hreq
  obtain ⟨hd, hf⟩ := hw.quiet hr
  cases t with
  | zero =>
    obtain ⟨regs, h0⟩ := r.starts
    simp [h0, requests, dbusRe, dbusWe, issues_idle, reset] at hreq
  | succ t =>
    -- the word the waiting instruction came from is read again
    have hne : (step p (r.state t) (r.input t)).state ≠ .fetch := by
      intro he
      rw [← hstep] at he
      cases hw with
      | issueLoad h _ =>
        simp only [issueLoad, Bool.and_eq_true] at h
        simp [(exec_of_commit h.1.1).1] at he
      | issueStore h =>
        simp only [issueStore, Bool.and_eq_true] at h
        simp [(exec_of_commit h.1.1).1] at he
      | load h | store h | amoL h | amoS h => simp [h] at he
    have haddr : ibusAddr p (r.state (t + 1)) (r.input (t + 1)) =
        ibusAddr p (r.state t) (r.input t) := by
      rw [ibusAddr_idle hd hf, ibusAddr_step (hhalt t) hne, hstep]
    have hword : (r.input (t + 2)).ibusRdata = (r.input (t + 1)).ibusRdata := by
      rw [hfetch.reads (t + 1), haddr, hfetch.keeps t, hfetch.reads t]
    show requests p (r.state (t + 1 + 1)) _ = true ∧ request p (r.state (t + 1 + 1)) _ = _
    rw [hstep (t + 1)]
    exact request_held (hhalt _) hr hreq (hsc _) hword

structure Probe where
  ibusRdata : Word
  cycle : ℕ

/-- The slave answers in the cycles that `ready` names. -/
def Probe.answer (ready : ℕ → Bool) (e : Probe) (_ : State) : Input :=
  ⟨e.ibusRdata, 0#32, ready e.cycle, ⟨false, false, false, 0#64⟩, false⟩

def Probe.react (p : Params) (image : Word → Word) (e : Probe) (s : State) (i : Input) : Probe :=
  ⟨image (ibusAddr p s i), e.cycle + 1⟩

def probeRun (p : Params) (image : Word → Word) (ready : ℕ → Bool) (regs : Regs) : Run p :=
  (machine p).coupledRun (Probe.answer ready) (Probe.react p image)
    (reset p regs, ⟨0#32, 0⟩) ⟨regs, rfl⟩

theorem probeRun_fetches (p : Params) (image : Word → Word) (ready : ℕ → Bool) (regs : Regs) :
    Fetches p (probeRun p image ready regs) fun _ => image := ⟨fun _ => rfl, fun _ => rfl⟩

/-- All extensions, overlapped fetch. -/
def Params.full : Params := ⟨⟨0#32, true, true, true, true, 0#32⟩, false, true⟩

def Params.noC : Params := { Params.full with enableC := false }

/-- `lr.w x3, (x1)`, then the given word, then `jal x0, 0`. -/
def lrThen (w : Word) (addr : Word) : Word :=
  match addr with
  | 0x00#32 => 0x1000A1AF#32
  | 0x04#32 => w
  | _ => 0x0000006F#32

/-- `x1` points into the external SRAM, `x2` is 7. -/
def sramRegs : Regs := fun a => if a = 1#5 then 0x40000000#32 else if a = 2#5 then 7#32 else 0#32

/-- `sc.w x4, x2, (x1)`, answered in cycle 5. -/
def scApartRun : Run .noC :=
  probeRun _ (lrThen 0x1820A22F#32) (fun t => t == 2 || t == 5) sramRegs

theorem scApartRun_apart (t : ℕ) :
    ScApart .noC (scApartRun.state t) (scApartRun.input t) := by
  intro hissue hsc h0
  cases t with
  | zero => exact absurd hissue (by decide +kernel)
  | succ t =>
    obtain ⟨a, ha⟩ : ∃ a, (scApartRun.input (t + 1)).ibusRdata = lrThen 0x1820A22F#32 a := ⟨_, rfl⟩
    rw [instr_noC rfl scApartRun fun _ => rfl, ha] at hsc ⊢
    have hmem : lrThen 0x1820A22F#32 a ∈ [0x1000A1AF#32, 0x1820A22F#32, 0x0000006F#32] := by
      unfold lrThen
      split <;> simp
    generalize lrThen 0x1820A22F#32 a = w at hmem hsc
    fin_cases hmem
    · exact absurd hsc (by decide)
    · decide
    · exact absurd hsc (by decide)

/-- The store waits from cycle 3 to cycle 5 and is the same throughout. -/
theorem scApartRun_held : request .noC (scApartRun.state 3) (scApartRun.input 3) =
        ⟨0x40000000#32, 0xF#4, false, some 7#32⟩ ∧
      Clocked.Holds
        (fun t => requests .noC (scApartRun.state t) (scApartRun.input t))
        (fun t => (scApartRun.input t).dbusReady)
        (fun t => request .noC (scApartRun.state t) (scApartRun.input t)) :=
  ⟨by decide +kernel, dbus_request_held _ scApartRun (fun _ => lrThen 0x1820A22F#32)
    (fun _ => rfl) (probeRun_fetches _ _ _ _) scApartRun_apart⟩

/-- `sc.w x1, x2, (x1)`: the slave answers the load in cycle 2 and nothing before cycle 5. -/
def scRun : Run .full := probeRun .full (lrThen 0x1820A0AF#32) (fun t => t == 2 || t == 5) sramRegs

/-- The store-conditional asks for a write to the SRAM and, one cycle later, to address 0. -/
theorem sc_request_changes : (∀ t, (scRun.input t).halt = false) ∧
      Fetches .full scRun (fun _ => lrThen 0x1820A0AF#32) ∧
      request .full (scRun.state 3) (scRun.input 3) = ⟨0x40000000#32, 0xF#4, false, some 7#32⟩ ∧
      (scRun.input 3).dbusReady = false ∧
      request .full (scRun.state 4) (scRun.input 4) = ⟨0#32, 0xF#4, false, some 7#32⟩ :=
  ⟨fun _ => rfl, probeRun_fetches _ _ _ _, by decide +kernel, rfl, by decide +kernel⟩

end RiscvScratch.S6Core
