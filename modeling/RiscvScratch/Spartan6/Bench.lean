import RiscvScratch.Clocked.Multicycle
import RiscvScratch.Spartan6.Timeless

/-! The Spartan-6 core in front of a fixed image and a prompt data bus, whatever `FAST_FETCH` is. -/
namespace RiscvScratch.S6Core
variable {μ : Type*}

def readDone (s : State) (i : Input) : Bool :=
  (s.state == .load || s.state == .amoL) && i.dbusReady

/-- Instructions from a fixed image, and a data bus that answers a write at once and a read a cycle
later. -/
structure Bench (p : Params) (r : Run p) (image : Word → Word) (bus : WordBus μ)
    (mem : ℕ → μ) : Prop where
  halt : ∀ t, (r.input t).halt = false
  lines : ∀ t, (r.input t).lines.irqs = quiet
  fetch : ∀ t, (r.input (t + 1)).ibusRdata = image (ibusAddr p (r.state t) (r.input t))
  write : ∀ t, dbusWe p (r.state t) (r.input t) ≠ 0#4 → (r.input t).dbusReady = true
  read : ∀ t, issueLoad p (r.state t) (r.input t) = true → (r.input (t + 1)).dbusReady = true
  data : ∀ t, readDone (r.state t) (r.input t) = true →
    (r.input t).dbusRdata = (bus.read (mem t) (dbusAddr p (r.state t) (r.input t))).1
  mem : ∀ t, mem (t + 1) =
    if dbusWe p (r.state t) (r.input t) ≠ 0#4 then
      bus.write (mem t) (dbusAddr p (r.state t) (r.input t)) (dbusWe p (r.state t) (r.input t))
        (wdata p (r.state t) (r.input t))
    else if readDone (r.state t) (r.input t) then
      (bus.read (mem t) (dbusAddr p (r.state t) (r.input t))).2
    else mem t

/-- The fetch registers and the bus word hold the instruction at `c`. -/
structure Holding (p : Isa) (image : Word → Word) (c : Word) (s : State) (i : Input) : Prop where
  pc : s.pc = c
  straddle : s.straddleQ = straddles p image c
  word : i.ibusRdata = image (currentAddr s)
  low : s.straddleQ = true → s.loHalf = (image (wordAddr c)).extractLsb' 16 16

section holding
variable {p : Params} {image : Word → Word} {c : Word} {s : State} {i : Input}

theorem raw16_eq (hpc : s.pc = c) (hw : i.ibusRdata = image (wordAddr c)) :
    raw16 s i = halfAt image c := by
  unfold raw16 halfAt
  rw [hpc, hw]

theorem Holding.fetched (h : Holding p image c s i) :
    instr p s i = fetched p image c ∧ isC p s i = compressed p image c ∧
      (isC p s i = true → raw16 s i = halfAt image c) ∧ needHi p s i = false := by
  cases hs : straddles p image c with
  | true =>
    have hq : s.straddleQ = true := h.straddle.trans hs
    have hcur : currentAddr s = wordAddr c + 4#32 := by
      simp [currentAddr, hq, pcWord, h.pc, wordAddr]
    have hc : compressed p image c = false := by
      simp only [straddles, Bool.and_eq_true, beq_iff_eq] at hs
      simp [compressed, hs.2]
    refine ⟨?_, by simp [isC, hq, hc], by simp [isC, hq], by simp [needHi, hq]⟩
    simp [instr, hq, S6Core.fetched, hs, h.word, hcur, h.low hq]
  | false =>
    have hq : s.straddleQ = false := h.straddle.trans hs
    have hcur : currentAddr s = wordAddr c := by simp [currentAddr, hq, pcWord, h.pc, wordAddr]
    have hraw : raw16 s i = halfAt image c := raw16_eq h.pc (hcur ▸ h.word)
    have hc : isC p s i = compressed p image c := by simp [isC, compressed, hq, hraw]
    refine ⟨?_, hc, fun _ => hraw, ?_⟩
    · simp [instr, hq, hc, hraw, S6Core.fetched, hs, h.word, hcur]
    · rw [← hs]
      simp [needHi, straddles, hq, hraw, h.pc]

end holding

structure Agrees (s : State) (a : Arch μ) : Prop where
  regs : s.regs = a.regs
  csr : settled s.csr = a.csr
  resValid : s.resValid = a.resValid
  resAddr : s.resAddr = a.resAddr

structure Silent (p : Params) (s : State) (i : Input) : Prop where
  regs : rfWe p s i = false
  trap : trapNow p s i = false
  csr : (isCsr (instr p s i) && commit p s i) = false
  mret : (isMret (instr p s i) && commit p s i) = false
  lr : reserves p s i = false
  sc : (commit p s i && isSc p (instr p s i)) = false
  we : dbusWe p s i = 0#4

section silent
variable {p : Params} {s : State} {i : Input} {a : Arch μ}

theorem Silent.agrees (h : Silent p s i) (ha : Agrees s a) : Agrees (step p s i) a := by
  have hhit : storeHitsRes p s i = false := by simp [storeHitsRes, h.we]
  refine ⟨?_, ?_, ?_, ?_⟩
  · show s.regs.write (rfWe p s i) _ _ = a.regs
    rw [h.regs, Regs.write_false, ha.regs]
  · show settled (S6Csr.step _ _ _ (csrCommand p s i)) = a.csr
    rw [S6Csr.settled_step_idle, ha.csr]
    · exact h.trap
    · simp [csrCommand, h.mret]
    · simp [csrCommand, h.csr]
  · show resValidNext p s i = a.resValid
    simp [resValidNext, h.trap, h.lr, h.sc, hhit, ha.resValid]
  · show resAddrNext p s i = a.resAddr
    simp [resAddrNext, h.lr, ha.resAddr]

theorem Silent.of_commit_false (hc : commit p s i = false) (hw : rfWe p s i = false)
    (hlr : reserves p s i = false) (hwe : dbusWe p s i = 0#4) : Silent p s i := by
  refine ⟨hw, ?_, ?_, ?_, hlr, ?_, hwe⟩ <;> simp [trapNow, hc]

theorem commit_false (hs : s.state ≠ .exec) : commit p s i = false := by
  simp [commit, inExec, hs]

theorem md_idle (hi : s.md.state = .idle) (hm : mdStart p s i = false) :
    (step p s i).md.state = .idle := by
  simp only [step]
  split
  · simp [S6Muldiv.step, hi, hm]
  · exact hi

theorem dbusWe_idle (hs : s.state ≠ .store) (hs' : s.state ≠ .amoS)
    (hc : commit p s i = false) : dbusWe p s i = 0#4 := by
  simp [dbusWe, issueStore, hc, hs, hs']

end silent

theorem csrCommand_eq {p : Params} {s : State} {i : Input} (hc : commit p s i = true) :
    csrCommand p s i = command p (datapath p s i) (trapNow p s i) (retireOut p s i) := by
  simp only [csrCommand, command, hc, Bool.and_true]
  rfl

/-- The core's datapath shows the instruction `d`. -/
structure Sees (p : Params) (s : State) (i : Input) (d : Datapath) : Prop where
  plain : (datapath p s i).plain = d
  amo : (datapath p s i).amoExec = false

section sees
variable {p : Params} {s : State} {i : Input} {d : Datapath} (h : Sees p s i d)
include h

theorem Sees.pc : s.pc = d.pc := by rw [← h.plain]; rfl
theorem Sees.instr : instr p s i = d.instr := by rw [← h.plain]; rfl
theorem Sees.rs1Data : (datapath p s i).rs1Data = d.rs1Data := by rw [← h.plain]; rfl
theorem Sees.rs2Data : (datapath p s i).rs2Data = d.rs2Data := by rw [← h.plain]; rfl

theorem Sees.writes : writes p (datapath p s i) = writes p d := by
  rw [← h.plain, writes_plain h.amo]

theorem Sees.course : execCourse p s i = course p d.instr d := by
  rw [execCourse, h.instr, ← h.plain, course_plain h.amo]

theorem Sees.addr : dbusAddr p s i = memAddr p d := by
  rw [dbusAddr, ← h.plain, memAddr_plain h.amo]

theorem Sees.mask : wmask p (datapath p s i) = wmask p d := by
  rw [← h.plain, wmask_plain h.amo]

theorem Sees.data : wdata p s i = dbusWdata p d := by
  rw [wdata, ← h.plain, dbusWdata_plain h.amo]

theorem Sees.line : lineAddr p s i = reservation p d := by
  rw [lineAddr, h.addr, reservation]

theorem Sees.next : next p s i = nextPc p d (trapNow p s i) := by
  rw [S6Core.next, ← h.plain, nextPc_plain h.amo]

theorem Sees.loadVal (dw : Word) : loadVal p (datapath p s i) dw = loadVal p d dw := by
  rw [← h.plain, loadVal_plain h.amo]

theorem Sees.csr (hc : commit p s i = true) :
    settled (step p s i).csr = csrAfter p d (trapNow p s i) (retireOut p s i) := by
  show settled (S6Csr.step _ _ _ (csrCommand p s i)) = _
  rw [csrCommand_eq hc, ← h.plain, csrAfter_plain h.amo]
  rfl

end sees

/-- At cycle `t` the core works on the instruction of `a`, in the FSM state `f`; nothing of it is in
the registers yet. -/
structure Works (p : Params) (r : Run p) (image : Word → Word) (mem : ℕ → μ) (t : ℕ) (a : Arch μ)
    (f : Fsm) (m : μ) : Prop where
  state : (r.state t).state = f
  holding : Holding p image a.pc (r.state t) (r.input t)
  agrees : Agrees (r.state t) a
  mem : mem t = m

/-- At cycle `t` the core has finished everything before `a`. -/
structure Rests (p : Params) (r : Run p) (mem : ℕ → μ) (t : ℕ) (a : Arch μ) : Prop where
  pc : (r.state t).pc = a.pc
  straddle : (r.state t).straddleQ = false
  agrees : Agrees (r.state t) a
  idle : (r.state t).md.state = .idle
  mem : mem t = a.mem

/-- At cycle `t` the core begins with the instruction of `a`. -/
structure Begins (p : Params) (r : Run p) (image : Word → Word) (mem : ℕ → μ) (t : ℕ)
    (a : Arch μ) : Prop extends Rests p r mem t a where
  state : (r.state t).state = .exec
  word : (r.input t).ibusRdata = image (wordAddr a.pc)

section works
variable {p : Params} {r : Run p} {image : Word → Word} {bus : WordBus μ} {mem : ℕ → μ} {t : ℕ}
  {a : Arch μ} {f : Fsm} {m : μ}

theorem Works.instr_eq (h : Works p r image mem t a f m) :
    instr p (r.state t) (r.input t) = S6Core.fetched p image a.pc := h.holding.fetched.1

theorem Works.plain (hb : Bench p r image bus mem) (h : Works p r image mem t a f m)
    (hf : f ≠ .amoS) : (datapath p (r.state t) (r.input t)).plain = view p image a := by
  obtain ⟨h1, h2, h3, -⟩ := h.holding.fetched
  have hamo : ((r.state t).state == .amoS) = false := by simpa [h.state] using hf
  have hraw : (if isC p (r.state t) (r.input t) then raw16 (r.state t) (r.input t) else 0#16) =
      if compressed p image a.pc then halfAt image a.pc else 0#16 := by
    rw [h2] at h3 ⊢
    split
    · exact h3 ‹_›
    · rfl
  simp only [Datapath.plain, datapath, view, h1, h2, hamo, h.holding.pc, h.agrees.regs,
    h.agrees.csr, h.agrees.resValid, h.agrees.resAddr, hb.lines]
  rw [h2] at hraw
  rw [hraw]

theorem Works.sees (hb : Bench p r image bus mem) (h : Works p r image mem t a f m)
    (hf : f ≠ .amoS) : Sees p (r.state t) (r.input t) (view p image a) :=
  ⟨h.plain hb hf, by simpa [datapath, h.state] using hf⟩

theorem run_step (t : ℕ) : r.state (t + 1) = step p (r.state t) (r.input t) := r.steps t

theorem irqAny_quiet (s : S6Csr.State) : S6Csr.irqAny s quiet = false := by
  have hmip : S6Csr.mipVal quiet = 0#32 := by decide
  simp [S6Csr.irqAny, S6Csr.pend, hmip]

section
variable (hb : Bench p r image bus mem)
include hb

theorem trapNow_eq (h : Works p r image mem t a .exec m) :
    commit p (r.state t) (r.input t) = true ∧
      trapNow p (r.state t) (r.input t) = excAny p (view p image a) := by
  have hc : commit p (r.state t) (r.input t) = true := by
    simp [commit, inExec, h.state, hb.halt, h.holding.fetched.2.2.2]
  have hirq : irqPending (view p image a) = false := by
    simp [irqPending, S6Csr.irqPending, irqAny_quiet, view]
  have hpl := h.plain hb (by decide)
  have hamo : (datapath p (r.state t) (r.input t)).amoExec = false := by
    simp [datapath, h.state]
  refine ⟨hc, ?_⟩
  have hi : irqPending (datapath p (r.state t) (r.input t)) = irqPending (view p image a) := by
    rw [← hpl]
    rfl
  rw [trapNow, hc, hi, hirq, ← hpl, excAny_plain hamo]
  rfl

theorem Works.stays (h : Works p r image mem t a f m) {f' : Fsm}
    {v : Word} (hd : instrDone p (r.state t) (r.input t) = false)
    (hf : fetchHiNow p (r.state t) (r.input t) = false)
    (hm : fsm p (r.state t) (r.input t) = { r.state t with state := f', amoVal := v })
    (hs : Silent p (r.state t) (r.input t)) :
    Works p r image mem (t + 1) a f' (mem (t + 1)) ∧ (r.state (t + 1)).amoVal = v := by
  have hst := run_step (r := r) t
  have hcur : currentAddr (r.state (t + 1)) = currentAddr (r.state t) := by
    rw [hst]
    simp [currentAddr, step, hm, pcWord]
  refine ⟨⟨by rw [hst]; simp [step, hm], ⟨?_, ?_, ?_, ?_⟩, ?_, rfl⟩, by rw [hst]; simp [step, hm]⟩
  · rw [hst]
    simp [step, hm, h.holding.pc]
  · rw [hst]
    simp [step, hm, h.holding.straddle]
  · rw [hb.fetch, ibusAddr_idle hd hf, hcur]
  · rw [hst]
    simpa [step, hm] using h.holding.low
  · rw [hst]
    exact hs.agrees h.agrees

theorem mem_idle (hwe : dbusWe p (r.state t) (r.input t) = 0#4)
    (hrd : readDone (r.state t) (r.input t) = false) : mem (t + 1) = mem t := by
  simp [hb.mem, hwe, hrd]

theorem Rests.fetches (h : Rests p r mem t a)
    (hs : (r.state t).state = .fetch) :
    Begins p r image mem (t + 1) a ∧ out p (r.state t) (r.input t) = [] := by
  have hst := run_step (r := r) t
  have hc : commit p (r.state t) (r.input t) = false := commit_false (by simp [hs])
  have hwe : dbusWe p (r.state t) (r.input t) = 0#4 :=
    dbusWe_idle (by simp [hs]) (by simp [hs]) hc
  have hw : rfWe p (r.state t) (r.input t) = false := by simp [rfWe, hs, hc]
  have hd : instrDone p (r.state t) (r.input t) = false := by simp [instrDone, hs]
  have hm : fsm p (r.state t) (r.input t) = { r.state t with state := .exec } := by
    simp [fsm, hs, hb.halt]
  have hsil : Silent p (r.state t) (r.input t) :=
    .of_commit_false hc hw (by simp [reserves, hs]) hwe
  refine ⟨⟨⟨?_, ?_, ?_, ?_, ?_⟩, ?_, ?_⟩, ?_⟩
  · rw [hst]
    simpa [step, hm] using h.pc
  · rw [hst]
    simpa [step, hm] using h.straddle
  · rw [hst]
    exact hsil.agrees h.agrees
  · rw [hst]
    exact md_idle h.idle (by simp [mdStart, hc])
  · rw [mem_idle hb hwe (by simp [readDone, hs]), h.mem]
  · rw [hst]
    simp [step, hm]
  · have haddr : ibusAddr p (r.state t) (r.input t) = wordAddr a.pc := by
      rw [ibusAddr_idle hd (by simp [fetchHiNow, inExec, hs])]
      simp [currentAddr, h.straddle, pcWord, h.pc, wordAddr]
    rw [hb.fetch, haddr]
  · simp [out, hsil.trap, hwe, hw, regEvent, dbusRe, issueLoad, hc, hs, retireOut, hd]

theorem Rests.begins
    (hd : instrDone p (r.state t) (r.input t) = true) (h : Rests p r mem (t + 1) a) :
    ∃ n > 0, Begins p r image mem (t + n) a ∧
      Clocked.span (fun u => out p (r.state u) (r.input u)) t n =
        out p (r.state t) (r.input t) := by
  have hst := run_step (r := r) t
  obtain ⟨hpc', hstate⟩ : (r.state (t + 1)).pc = next p (r.state t) (r.input t) ∧
      (r.state (t + 1)).state = p.doneState := by
    cases fetchMove p (r.state t) (r.input t) (hb.halt t) with
    | finish _ hm =>
      rw [hst]
      simp [step, hm, finish]
    | straddle _ hd' _ => simp [hd] at hd'
    | stay hd' => simp [hd] at hd'
  cases hff : p.fastFetch with
  | true =>
    refine ⟨1, one_pos, ⟨h, by simp [hstate, Params.doneState, hff], ?_⟩, Clocked.span_one _ _⟩
    have haddr : ibusAddr p (r.state t) (r.input t) = wordAddr a.pc := by
      simp [ibusAddr, fetchNext, hff, hd, ← hpc', h.pc, wordAddr]
    rw [hb.fetch, haddr]
  | false =>
    obtain ⟨hbeg, hout⟩ := h.fetches hb (by simp [hstate, Params.doneState, hff])
    refine ⟨2, two_pos, hbeg, ?_⟩
    rw [Clocked.span_succ, Clocked.span_one, hout, List.append_nil]

theorem Begins.discover (h : Begins p r image mem t a) :
    ∃ n, Works p r image mem (t + n) a .exec a.mem ∧ (r.state (t + n)).md.state = .idle ∧
      Clocked.span (fun u => out p (r.state u) (r.input u)) t n = [] := by
  have hraw : raw16 (r.state t) (r.input t) = halfAt image a.pc := raw16_eq h.pc h.word
  cases hs : straddles p image a.pc with
  | false =>
    refine ⟨0, ⟨h.state, ⟨h.pc, h.straddle.trans hs.symm, ?_, ?_⟩, h.agrees, h.mem⟩, h.idle, rfl⟩
    · rw [Nat.add_zero, h.word]
      simp [currentAddr, h.straddle, pcWord, h.pc, wordAddr]
    · intro hq
      simp [h.straddle] at hq
  | true =>
    have hneed : needHi p (r.state t) (r.input t) = true := by
      rw [← hs]
      simp [needHi, straddles, h.straddle, hraw, h.pc]
    have hhi : fetchHiNow p (r.state t) (r.input t) = true := by
      simp [fetchHiNow, inExec, h.state, hb.halt, hneed]
    have hc : commit p (r.state t) (r.input t) = false := by simp [commit, hneed]
    have hwe : dbusWe p (r.state t) (r.input t) = 0#4 :=
      dbusWe_idle (by simp [h.state]) (by simp [h.state]) hc
    have hw : rfWe p (r.state t) (r.input t) = false := by simp [rfWe, h.state, hc]
    have hd : instrDone p (r.state t) (r.input t) = false := by simp [instrDone, h.state, hc]
    have hm : fsm p (r.state t) (r.input t) = { r.state t with
        loHalf := (r.input t).ibusRdata.extractLsb' 16 16, straddleQ := true } := by
      simp [fsm, h.state, hb.halt, hneed]
    have hsil : Silent p (r.state t) (r.input t) :=
      .of_commit_false hc hw (by simp [reserves, h.state]) hwe
    have hst := run_step (r := r) t
    refine ⟨1, ⟨?_, ⟨?_, ?_, ?_, ?_⟩, ?_, ?_⟩, ?_, ?_⟩
    · rw [hst]
      simp [step, hm, h.state]
    · rw [hst]
      simp [step, hm, h.pc]
    · rw [hst, hs]
      simp [step, hm]
    · have haddr : ibusAddr p (r.state t) (r.input t) = currentAddr (r.state (t + 1)) := by
        rw [hst]
        simp [ibusAddr, fetchNext, hd, hhi, currentAddr, step, hm, pcWord]
      rw [hb.fetch, haddr]
    · intro _
      rw [hst]
      simp [step, hm, h.word]
    · rw [hst]
      exact hsil.agrees h.agrees
    · rw [mem_idle hb hwe (by simp [readDone, h.state]), h.mem]
    · rw [hst]
      exact md_idle h.idle (by simp [mdStart, hc])
    · rw [Clocked.span_one]
      simp [out, hsil.trap, hwe, hw, regEvent, dbusRe, issueLoad, hc, h.state, retireOut, hd]

end

end works

end RiscvScratch.S6Core
