import RiscvScratch.Spartan6.Bench
import RiscvScratch.Spartan6.MuldivResult

/-! One instruction of the Spartan-6 core, from the cycle that executes it to the cycle that begins
with the next, for every setting of `FAST_FETCH` and `MUL_DSP`. -/
namespace RiscvScratch.S6Core
variable {μ : Type*}

section exec
variable {p : Params} {s : State} {i : Input}

theorem wmask_ne_zero (p : Isa) (d : Datapath) : wmask p d ≠ 0#4 := by
  have hb (b : BitVec 2) : 0b0001#4 <<< b.toNat ≠ 0#4 ∧ 0b0011#4 <<< b.toNat ≠ 0#4 := by
    revert b
    decide
  unfold wmask
  split_ifs
  · exact (hb _).1
  · exact (hb _).2
  · decide

structure ExecWires (p : Params) (s : State) (i : Input) : Prop where
  re : dbusRe p s i = reads p (instr p s i)
  we : dbusWe p s i = if writes p (datapath p s i) then wmask p (datapath p s i) else 0#4
  rf : rfWe p s i = execRfWe p (instr p s i)
  wb : wbData p s i = execWb p (datapath p s i)
  md : mdStart p s i = isMuldiv p (instr p s i)
  done : instrDone p s i = (execCourse p s i).done i.dbusReady
  lr : reserves p s i = false
  rd : readDone s i = false

theorem execWires (hs : s.state = .exec) (hc : commit p s i = true)
    (ht : trapNow p s i = false) : ExecWires p s i := by
  constructor
  · rw [dbusRe, issueLoad, hc, ht, hs]
    cases reads p (instr p s i) <;> rfl
  · simp [dbusWe, issueStore, hc, ht, hs]
  · simp [rfWe, hs, hc, ht]
  · simp [wbData, hs]
  · simp [mdStart, hc, ht]
  · simp [instrDone, hs, hc, ht]
  · simp [reserves, hs]
  · simp [readDone, hs]

end exec

section course
variable {p : Isa} {w : Word} {d : Datapath}

theorem of_finish (h : course p d.instr d = .finish) :
    isMuldiv p d.instr = false ∧ reads p d.instr = false ∧ writes p d = false := by
  unfold course at h
  split_ifs at h with h1 h2 h3 h4 h5
  simp only [Bool.not_eq_true] at h2 h3 h4 h5
  exact ⟨h2, by simp [reads, h3, h4], h5⟩

theorem of_store (h : course p d.instr d = .store) :
    isMuldiv p d.instr = false ∧ reads p d.instr = false ∧ writes p d = true := by
  unfold course at h
  split_ifs at h with h1 h2 h3 h4 h5
  simp only [Bool.not_eq_true] at h2 h3 h4
  exact ⟨h2, by simp [reads, h3, h4], h5⟩

theorem of_load (h : course p d.instr d = .load) :
    isMuldiv p d.instr = false ∧ reads p d.instr = true ∧ isAmoRmw p d.instr = false := by
  unfold course at h
  split_ifs at h with h1 h2 h3
  simp only [Bool.not_eq_true] at h2
  refine ⟨h2, by simp [reads, h3], ?_⟩
  simp only [isLoad, isLr, Bool.or_eq_true, Bool.and_eq_true, beq_iff_eq] at h3
  obtain h3 | ⟨⟨-, h3⟩, -⟩ := h3
  · simp +decide [isAmoRmw, isAmoop, h3]
  · simp [isAmoRmw, amoRmwOk, h3]

theorem of_amo (h : course p d.instr d = .amo) :
    isMuldiv p d.instr = false ∧ reads p d.instr = true ∧ isAmoRmw p d.instr = true := by
  unfold course at h
  split_ifs at h with h1 h2 h3 h4
  simp only [Bool.not_eq_true] at h2
  exact ⟨h2, by simp [reads, h4], h4⟩

/-- An instruction of the A or M extension, a load or a store is no CSR instruction and no jump. -/
theorem plain_opcode (h : opcodeOf w = opLoad ∨ opcodeOf w = opStore ∨ opcodeOf w = opAmo ∨
    opcodeOf w = opR) : isCsr w = false ∧ isMret w = false ∧ isJal w = false ∧ isJalr w = false ∧
      isBranch w = false := by
  obtain h | h | h | h := h <;>
    simp +decide [isCsr, isMret, sysPlain, isSystem, isJal, isJalr, isBranch, h]

theorem plain_of_reads (h : reads p w = true) : isCsr w = false ∧ isMret w = false ∧
    isJal w = false ∧ isJalr w = false ∧ isBranch w = false := by
  obtain ho | ⟨ho, -⟩ := opcode_of_reads h
  · exact plain_opcode (.inl ho)
  · exact plain_opcode (.inr (.inr (.inl ho)))

theorem plain_of_writes (h : writes p d = true) : isCsr d.instr = false ∧
    isMret d.instr = false ∧ isJal d.instr = false ∧ isJalr d.instr = false ∧
      isBranch d.instr = false := by
  obtain ho | ⟨ho, -⟩ := opcode_of_writes h
  · exact plain_opcode (.inr (.inl ho))
  · exact plain_opcode (.inr (.inr (.inl ho)))

/-- What an instruction that leaves `S_EXEC` unfinished is not. -/
structure Leaves (p : Isa) (d : Datapath) : Prop where
  done : ∀ ready, (course p d.instr d).done ready = false
  rf : execRfWe p d.instr = false
  csr : isCsr d.instr = false
  mret : isMret d.instr = false
  sc : isSc p d.instr = false
  writes : writes p d = false

theorem leaves_of_reads (h : reads p d.instr = true) : Leaves p d := by
  obtain ⟨h1, h2, -⟩ := plain_of_reads h
  refine ⟨fun ready => ?_, execRfWe_of_reads h, h1, h2, ?_, not_writes_of_reads h⟩
  · obtain hco | hco := course_of_reads d h <;> rw [hco] <;> rfl
  · obtain ho | ⟨-, hsc⟩ := opcode_of_reads h
    · simp +decide [isSc, isAmoop, ho]
    · exact hsc

theorem leaves_of_muldiv (h : isMuldiv p d.instr = true)
    (hco : course p d.instr d = .md) : Leaves p d ∧ reads p d.instr = false := by
  have ho : opcodeOf d.instr = opR := by
    simp only [isMuldiv, isOp, Bool.and_eq_true, beq_iff_eq] at h
    exact h.1.2
  obtain ⟨h1, h2, h3, h4, -⟩ := plain_opcode (.inr (.inr (.inr ho)))
  refine ⟨⟨fun _ => by rw [hco]; rfl, ?_, h1, h2, ?_, ?_⟩, ?_⟩
  · simp +decide [execRfWe, h, h1, h3, h4, isOpimm, isLui, isAuipc, isSc, isAmoop, ho]
  · simp +decide [isSc, isAmoop, ho]
  · simp +decide [writes, isStore, isSc, isAmoop, ho]
  · simp +decide [reads, isLoad, isLr, isAmoRmw, isAmoop, ho]

theorem leaves_of_wfi (hco : course p d.instr d = .wfi) :
    Leaves p d ∧ reads p d.instr = false := by
  have hw : isWfi d.instr = true := by
    by_contra hn
    unfold course at hco
    split_ifs at hco
  simp only [isWfi, sysPlain, isSystem, Bool.and_eq_true, beq_iff_eq] at hw
  obtain ⟨⟨⟨⟨ho, hf⟩, -⟩, -⟩, hf12⟩ := hw
  have hsc : isSc p d.instr = false := by simp [isSc, isAmoop, ho, opAmo]
  refine ⟨⟨fun _ => by rw [hco]; rfl, ?_, by simp [isCsr, hf], by simp [isMret, hf12], hsc, ?_⟩, ?_⟩
  · simp +decide [execRfWe, isOp, isOpimm, isLui, isAuipc, isJal, isJalr, isCsr, hsc, ho, hf]
  · simp [writes, isStore, hsc, ho, opStore]
  · simp +decide [reads, isLoad, isLr, isAmoRmw, isAmoop, ho]

end course

variable {p : Params} {r : Run p} {image : Word → Word} {bus : WordBus μ} {mem : ℕ → μ} {t : ℕ}
  {a a' : Arch μ} {m : μ} {f : Fsm} {evs : List Event}

/-- From cycle `t` on the core shows the events `evs` and then begins with `a'`. -/
def Completes (p : Params) (r : Run p) (image : Word → Word) (mem : ℕ → μ) (t : ℕ) (a' : Arch μ)
    (evs : List Event) : Prop :=
  ∃ n > 0, Begins p r image mem (t + n) a' ∧
    Clocked.span (fun u => out p (r.state u) (r.input u)) t n = evs

theorem Completes.of_span {n : ℕ} (h : Completes p r image mem (t + n) a' evs) :
    Completes p r image mem t a'
      (Clocked.span (fun u => out p (r.state u) (r.input u)) t n ++ evs) := by
  obtain ⟨k, hk, hbeg, hspan⟩ := h
  refine ⟨n + k, by omega, by rwa [← Nat.add_assoc], ?_⟩
  rw [Clocked.span_add, hspan]

def NoCounter (p : Isa) (image : Word → Word) (a : Arch μ) : Prop :=
  excAny p (view p image a) = false → isCsr (view p image a).instr = true →
    S6Csr.isCounter (f12 (view p image a).instr) = true → rdOf (view p image a).instr = 0#5

theorem Works.waiting (h : Works p r image mem t a f m)
    (hf : f ≠ .exec ∧ f ≠ .store ∧ f ≠ .amoS) : commit p (r.state t) (r.input t) = false ∧
      trapNow p (r.state t) (r.input t) = false ∧ dbusWe p (r.state t) (r.input t) = 0#4 := by
  have hc : commit p (r.state t) (r.input t) = false := commit_false (h.state ▸ hf.1)
  exact ⟨hc, by simp [trapNow, hc], dbusWe_idle (h.state ▸ hf.2.1) (h.state ▸ hf.2.2) hc⟩

theorem Works.csr_kept (h : Works p r image mem t a f m)
    (hc : commit p (r.state t) (r.input t) = false) :
    settled (step p (r.state t) (r.input t)).csr = a.csr := by
  show settled (S6Csr.step _ _ _ (csrCommand p _ _)) = a.csr
  rw [S6Csr.settled_step_idle, h.agrees.csr] <;> simp [csrCommand, trapNow, hc]

variable (hb : Bench p r image bus mem)
include hb

theorem Completes.of_done (hd : instrDone p (r.state t) (r.input t) = true)
    (hpc : next p (r.state t) (r.input t) = a'.pc)
    (hregs : (r.state t).regs.write (rfWe p (r.state t) (r.input t))
      (rdOf (instr p (r.state t) (r.input t))) (wbData p (r.state t) (r.input t)) = a'.regs)
    (hcsr : settled (step p (r.state t) (r.input t)).csr = a'.csr)
    (hvalid : resValidNext p (r.state t) (r.input t) = a'.resValid)
    (haddr : resAddrNext p (r.state t) (r.input t) = a'.resAddr)
    (hidle : (step p (r.state t) (r.input t)).md.state = .idle) (hmem : mem (t + 1) = a'.mem) :
    Completes p r image mem t a' (out p (r.state t) (r.input t)) := by
  have hst := run_step (r := r) t
  rw [← hst] at hcsr hidle
  have hag : Agrees (r.state (t + 1)) a' := by
    refine ⟨?_, hcsr, ?_, ?_⟩ <;> rw [hst]
    exacts [hregs, hvalid, haddr]
  cases fetchMove p (r.state t) (r.input t) (hb.halt t) with
  | finish _ hm =>
    have hrests : Rests p r mem (t + 1) a' := by
      refine ⟨?_, ?_, hag, hidle, hmem⟩
      · rw [hst, ← hpc]
        simp [step, hm, finish]
      · rw [hst]
        simp [step, hm, finish]
    exact hrests.begins hb hd
  | straddle _ hd' => simp [hd] at hd'
  | stay hd' => simp [hd] at hd'

theorem Works.commits (h : Works p r image mem t a .exec a.mem)
    (hexc : excAny p (view p image a) = false) : commit p (r.state t) (r.input t) = true ∧
      trapNow p (r.state t) (r.input t) = false ∧
      Sees p (r.state t) (r.input t) (view p image a) ∧ ExecWires p (r.state t) (r.input t) := by
  obtain ⟨hc, ht⟩ := trapNow_eq hb h
  rw [hexc] at ht
  exact ⟨hc, ht, h.sees hb (by decide), execWires h.state hc ht⟩

theorem Works.trap (h : Works p r image mem t a .exec a.mem)
    (hidle : (r.state t).md.state = .idle) (hexc : excAny p (view p image a) = true) :
    Completes p r image mem t (trapStep p a (view p image a)).1
      (trapStep p a (view p image a)).2 := by
  obtain ⟨hc, ht⟩ := trapNow_eq hb h
  rw [hexc] at ht
  have hv := h.sees hb (by decide)
  have hwe : dbusWe p (r.state t) (r.input t) = 0#4 := by
    simp [dbusWe, issueStore, ht, h.state]
  have hret : retireOut p (r.state t) (r.input t) = false := by simp [retireOut, ht]
  have hout : out p (r.state t) (r.input t) = (trapStep p a (view p image a)).2 := by
    simp [out, ht, hwe, hret, dbusRe, issueLoad, h.state, rfWe, regEvent, trapStep, ← hv.plain,
      trapCause_plain hv.amo, trapTval_plain hv.amo]
    rfl
  rw [← hout]
  apply Completes.of_done hb
  · simp [instrDone, h.state, hc, ht]
  · rw [hv.next, ht]
    rfl
  · simp [rfWe, h.state, ht, trapStep, h.agrees.regs]
  · rw [hv.csr hc, ht, hret]
    rfl
  · simp [resValidNext, ht, trapStep]
  · simp [resAddrNext, ht, trapStep, h.agrees.resAddr]
  · exact md_idle hidle (by simp [mdStart, ht])
  · rw [mem_idle hb hwe (by simp [readDone, h.state]), h.mem]
    rfl

section
variable (h : Works p r image mem t a .exec a.mem)
include h

theorem wb_plain
    (hcnt : NoCounter p image a) (hexc : excAny p (view p image a) = false) (we : Bool) :
    a.regs.write we (rdOf (view p image a).instr)
        (execWb p (datapath p (r.state t) (r.input t))) =
      a.regs.write we (rdOf (view p image a).instr) (execWb p (view p image a)) ∧
    regEvent we (rdOf (view p image a).instr) (execWb p (datapath p (r.state t) (r.input t))) =
      regEvent we (rdOf (view p image a).instr) (execWb p (view p image a)) := by
  have hv := h.sees hb (by decide)
  by_cases h0 : rdOf (view p image a).instr = 0#5
  · simp [h0, regEvent]
  · have hwb : execWb p (datapath p (r.state t) (r.input t)) = execWb p (view p image a) := by
      rw [← hv.plain]
      refine (execWb_plain hv.amo fun hx => ?_).symm
      rw [show (datapath p (r.state t) (r.input t)).instr = (view p image a).instr from hv.instr]
        at hx ⊢
      by_contra hn
      exact h0 (hcnt hexc hx (by simpa using hn))
    rw [hwb]
    exact ⟨rfl, rfl⟩

theorem Works.finish (hidle : (r.state t).md.state = .idle) (hcnt : NoCounter p image a)
    (hexc : excAny p (view p image a) = false)
    (hco : course p (view p image a).instr (view p image a) = .finish) :
    Completes p r image mem t (plainStep p a (view p image a)).1
      (plainStep p a (view p image a)).2 := by
  obtain ⟨hc, ht, hv, hw⟩ := h.commits hb hexc
  obtain ⟨hmd, hrd, hwr⟩ := of_finish hco
  obtain ⟨hregs, hev⟩ := wb_plain hb h hcnt hexc (execRfWe p (view p image a).instr)
  have hd : instrDone p (r.state t) (r.input t) = true := by
    rw [hw.done, hv.course, hco]
    rfl
  have hret : retireOut p (r.state t) (r.input t) = true := by simp [retireOut, hd, ht]
  have hwe : dbusWe p (r.state t) (r.input t) = 0#4 := by simp [hw.we, hv.writes, hwr]
  have hre : dbusRe p (r.state t) (r.input t) = false := by rw [hw.re, hv.instr, hrd]
  have hout : out p (r.state t) (r.input t) = (plainStep p a (view p image a)).2 := by
    simp only [out, ht, hwe, hre, hret, hw.rf, hw.wb, hv.instr, hev, hv.pc, plainStep]
    rfl
  rw [← hout]
  apply Completes.of_done hb hd
  · rw [hv.next, ht]
    rfl
  · rw [hw.rf, hw.wb, hv.instr, h.agrees.regs, hregs]
    rfl
  · rw [hv.csr hc, ht, hret]
    rfl
  · simp only [resValidNext, ht, hw.lr, hc, hv.instr, storeHitsRes, hwe, h.agrees.resValid,
      plainStep]
    cases isSc p (view p image a).instr <;> rfl
  · simp [resAddrNext, hw.lr, h.agrees.resAddr, plainStep]
  · exact md_idle hidle (by rw [hw.md, hv.instr, hmd])
  · rw [mem_idle hb hwe hw.rd, h.mem]
    rfl

theorem Works.store (hidle : (r.state t).md.state = .idle) (hcnt : NoCounter p image a)
    (hexc : excAny p (view p image a) = false)
    (hco : course p (view p image a).instr (view p image a) = .store) :
    Completes p r image mem t (storeStep p bus a (view p image a)).1
      (storeStep p bus a (view p image a)).2 := by
  obtain ⟨hc, ht, hv, hw⟩ := h.commits hb hexc
  obtain ⟨hmd, hrd, hwr⟩ := of_store hco
  obtain ⟨hcsr, hmret, -⟩ := plain_of_writes hwr
  obtain ⟨hregs, hev⟩ := wb_plain hb h hcnt hexc (execRfWe p (view p image a).instr)
  have hwe : dbusWe p (r.state t) (r.input t) = wmask p (view p image a) := by
    rw [hw.we, hv.writes, if_pos hwr, hv.mask]
  have hne : dbusWe p (r.state t) (r.input t) ≠ 0#4 := by
    rw [hwe]
    exact wmask_ne_zero _ _
  have hd : instrDone p (r.state t) (r.input t) = true := by
    rw [hw.done, hv.course, hco]
    exact hb.write t hne
  have hret : retireOut p (r.state t) (r.input t) = true := by simp [retireOut, hd, ht]
  have hre : dbusRe p (r.state t) (r.input t) = false := by rw [hw.re, hv.instr, hrd]
  have hout : out p (r.state t) (r.input t) = (storeStep p bus a (view p image a)).2 := by
    have hbne : (wmask p (view p image a) != 0#4) = true := by
      simpa using wmask_ne_zero p.toIsa (view p image a)
    simp only [out, ht, hre, hret, hw.rf, hw.wb, hv.instr, hev, hv.pc, hwe, hbne, hv.addr, hv.data,
      storeStep]
    rfl
  rw [← hout]
  apply Completes.of_done hb hd
  · rw [hv.next, ht]
    rfl
  · rw [hw.rf, hw.wb, hv.instr, h.agrees.regs, hregs]
    rfl
  · show settled (S6Csr.step _ _ _ (csrCommand p _ _)) = a.csr
    rw [S6Csr.settled_step_idle, h.agrees.csr]
    · exact ht
    · simp [csrCommand, hv.instr, hmret]
    · simp [csrCommand, hv.instr, hcsr]
  · simp only [resValidNext, ht, hw.lr, hc, hv.instr, storeHitsRes, bne_iff_ne.mpr hne,
      h.agrees.resValid, h.agrees.resAddr, hv.line, storeStep]
    cases isSc p (view p image a).instr <;> cases a.resValid <;>
      cases hq : reservation p (view p image a) == a.resAddr <;> simp [bne, hq]
  · simp [resAddrNext, hw.lr, h.agrees.resAddr, storeStep]
  · exact md_idle hidle (by rw [hw.md, hv.instr, hmd])
  · rw [hb.mem, if_pos hne, hv.addr, hwe, hv.data, h.mem]
    rfl

end

theorem Works.leaves (h : Works p r image mem t a .exec a.mem)
    (hexc : excAny p (view p image a) = false) (hl : Leaves p (view p image a)) :
    Works p r image mem (t + 1) a (course p (view p image a).instr (view p image a)).waitState
        a.mem ∧
      out p (r.state t) (r.input t) =
        if reads p (view p image a).instr then [.read (memAddr p (view p image a))] else [] := by
  obtain ⟨hc, ht, hv, hw⟩ := h.commits hb hexc
  have hneed := h.holding.fetched.2.2.2
  have hwe : dbusWe p (r.state t) (r.input t) = 0#4 := by simp [hw.we, hv.writes, hl.writes]
  have hdone : (execCourse p (r.state t) (r.input t)).done (r.input t).dbusReady = false := by
    rw [hv.course, hl.done]
  have hd : instrDone p (r.state t) (r.input t) = false := by rw [hw.done, hdone]
  have hrf : rfWe p (r.state t) (r.input t) = false := by rw [hw.rf, hv.instr, hl.rf]
  have hsil : Silent p (r.state t) (r.input t) := by
    refine ⟨hrf, ht, ?_, ?_, hw.lr, ?_, hwe⟩
    · simp [hv.instr, hl.csr]
    · simp [hv.instr, hl.mret]
    · simp [hv.instr, hl.sc]
  have hfsm : fsm p (r.state t) (r.input t) = { r.state t with
      state := (course p (view p image a).instr (view p image a)).waitState
      amoVal := (r.state t).amoVal } := by
    simp [fsm, hb.halt, h.state, hneed, ht, hv.course, hl.done]
  obtain ⟨hworks, -⟩ := h.stays hb hd (by simp [fetchHiNow, hneed]) hfsm hsil
  refine ⟨⟨hworks.state, hworks.holding, hworks.agrees, ?_⟩, ?_⟩
  · rw [mem_idle hb hwe hw.rd, h.mem]
  · have hre : dbusRe p (r.state t) (r.input t) = reads p (view p image a).instr := by
      rw [hw.re, hv.instr]
    simp only [out, ht, hre, hwe, hrf, hv.addr, retireOut, hd, regEvent]
    cases reads p (view p image a).instr <;> rfl

theorem Works.loaded (h : Works p r image mem t a .load a.mem)
    (hidle : (r.state t).md.state = .idle) (hr : (r.input t).dbusReady = true) :
    let x := bus.read a.mem (memAddr p (view p image a))
    Completes p r image mem t (loadStep p bus a (view p image a)).1
      (.read (memAddr p (view p image a)) ::
        (regEvent true (rdOf (view p image a).instr) (loadVal p (view p image a) x.1) ++
          [.retire (view p image a).pc])) := by
  intro x
  have hv := h.sees hb (by decide)
  obtain ⟨hc, ht, hwe⟩ := h.waiting (by decide)
  have hre : dbusRe p (r.state t) (r.input t) = true := by simp [dbusRe, h.state]
  have hrf : rfWe p (r.state t) (r.input t) = true := by simp [rfWe, h.state, hr]
  have hd : instrDone p (r.state t) (r.input t) = true := by simp [instrDone, h.state, hr]
  have hret : retireOut p (r.state t) (r.input t) = true := by simp [retireOut, hd, ht]
  have hdone : readDone (r.state t) (r.input t) = true := by simp [readDone, h.state, hr]
  have hwb : wbData p (r.state t) (r.input t) = loadVal p (view p image a) x.1 := by
    simp only [wbData, h.state]
    rw [hv.loadVal, hb.data t hdone, h.mem, hv.addr]
  have hout : out p (r.state t) (r.input t) = .read (memAddr p (view p image a)) ::
      (regEvent true (rdOf (view p image a).instr) (loadVal p (view p image a) x.1) ++
        [.retire (view p image a).pc]) := by
    simp only [out, ht, hwe, hre, hret, hrf, hwb, hv.instr, hv.pc, hv.addr]
    rfl
  have hlr : reserves p (r.state t) (r.input t) = isLr p (view p image a).instr := by
    simp [reserves, h.state, hr, hv.instr]
  rw [← hout]
  apply Completes.of_done hb hd
  · rw [hv.next, ht]
    rfl
  · rw [hrf, hwb, hv.instr, h.agrees.regs]
    rfl
  · exact h.csr_kept hc
  · simp [resValidNext, ht, hlr, hc, storeHitsRes, hwe, h.agrees.resValid, loadStep]
  · simp [resAddrNext, ht, hlr, hv.line, h.agrees.resAddr, loadStep]
  · exact md_idle hidle (by simp [mdStart, hc])
  · rw [hb.mem, if_neg (by simp [hwe]), if_pos hdone, hv.addr, h.mem]
    rfl

section
variable (h : Works p r image mem t a .exec a.mem)
  (hidle : (r.state t).md.state = .idle) (hexc : excAny p (view p image a) = false)
include h hidle hexc

theorem Works.issues (hmd : isMuldiv p (view p image a).instr = false)
    (hrd : reads p (view p image a).instr = true) :
    Works p r image mem (t + 1) a (course p (view p image a).instr (view p image a)).waitState
        a.mem ∧
      (r.state (t + 1)).md.state = .idle ∧ (r.input (t + 1)).dbusReady = true ∧
      out p (r.state t) (r.input t) = [.read (memAddr p (view p image a))] := by
  obtain ⟨hworks, hout⟩ := h.leaves hb hexc (leaves_of_reads hrd)
  obtain ⟨hc, ht, hv, hw⟩ := h.commits hb hexc
  refine ⟨hworks, ?_, hb.read t ?_, by rw [hout, if_pos hrd]⟩
  · rw [run_step]
    exact md_idle hidle (by rw [hw.md, hv.instr, hmd])
  · simp [issueLoad, hc, ht, hv.instr, hrd]

theorem Works.load (hco : course p (view p image a).instr (view p image a) = .load) :
    Completes p r image mem t (loadStep p bus a (view p image a)).1
      (loadStep p bus a (view p image a)).2 := by
  obtain ⟨hmd, hrd, -⟩ := of_load hco
  obtain ⟨hworks, hidle', hready, hout⟩ := h.issues hb hidle hexc hmd hrd
  rw [hco] at hworks
  have hend := (hworks.loaded hb hidle' hready).of_span
  rwa [Clocked.span_one, hout] at hend

end

theorem Works.amoRead (h : Works p r image mem t a .amoL a.mem)
    (hidle : (r.state t).md.state = .idle) (hr : (r.input t).dbusReady = true) :
    let x := bus.read a.mem (memAddr p (view p image a))
    Works p r image mem (t + 1) a .amoS x.2 ∧ (r.state (t + 1)).amoVal = x.1 ∧
      (r.state (t + 1)).md.state = .idle ∧
      out p (r.state t) (r.input t) = [.read (memAddr p (view p image a))] := by
  intro x
  have hv := h.sees hb (by decide)
  obtain ⟨hc, ht, hwe⟩ := h.waiting (by decide)
  have hrf : rfWe p (r.state t) (r.input t) = false := by simp [rfWe, h.state, hc]
  have hd : instrDone p (r.state t) (r.input t) = false := by simp [instrDone, h.state]
  have hdone : readDone (r.state t) (r.input t) = true := by simp [readDone, h.state, hr]
  have hdata : (r.input t).dbusRdata = x.1 := by rw [hb.data t hdone, h.mem, hv.addr]
  have hfsm : fsm p (r.state t) (r.input t) =
      { r.state t with state := .amoS, amoVal := (r.input t).dbusRdata } := by
    simp [fsm, hb.halt, h.state, hr]
  obtain ⟨hworks, hval⟩ := h.stays hb hd (by simp [fetchHiNow, inExec, h.state]) hfsm
    (.of_commit_false hc hrf (by simp [reserves, h.state]) hwe)
  refine ⟨⟨hworks.state, hworks.holding, hworks.agrees, ?_⟩, hval.trans hdata, ?_, ?_⟩
  · rw [hb.mem, if_neg (by simp [hwe]), if_pos hdone, hv.addr, h.mem]
  · rw [run_step]
    exact md_idle hidle (by simp [mdStart, hc])
  · have hre : dbusRe p (r.state t) (r.input t) = true := by simp [dbusRe, h.state]
    simp [out, ht, hwe, hrf, hre, hv.addr, retireOut, hd, regEvent]

omit hb in
theorem Works.rmw_operands (h : Works p r image mem t a .amoS m) :
    SameOperands (rmw (view p image a) (r.state t).amoVal)
      (datapath p (r.state t) (r.input t)) := by
  refine ⟨h.instr_eq, ?_, ?_, by simp [datapath, h.state, rmw], fun _ => rfl⟩
  all_goals
    simp only [datapath, h.instr_eq, h.agrees.regs]
    rfl

theorem Works.amoWrite (h : Works p r image mem t a .amoS m)
    (hidle : (r.state t).md.state = .idle)
    (hrmw : isAmoRmw p (view p image a).instr = true)
    (hm : m = (bus.read a.mem (memAddr p (view p image a))).2)
    (hval : (r.state t).amoVal = (bus.read a.mem (memAddr p (view p image a))).1) :
    let x := bus.read a.mem (memAddr p (view p image a))
    let v := aluResult p (rmw (view p image a) x.1)
    Completes p r image mem t (amoStep p bus a (view p image a)).1
      (.write (memAddr p (view p image a)) (wmask p (view p image a)) v ::
        (regEvent true (rdOf (view p image a).instr) x.1 ++ [.retire (view p image a).pc])) := by
  intro x v
  have hops := h.rmw_operands
  rw [hval] at hops
  obtain ⟨hins, hisC, -, -⟩ := h.holding.fetched
  have hinstr : instr p (r.state t) (r.input t) = (view p image a).instr := hins
  have hreads : reads p (view p image a).instr = true := by simp [reads, hrmw]
  obtain ⟨hncsr, hnmret, hnjal, hnjalr, hnbr⟩ := plain_of_reads hreads
  have haddr' : memAddr p (rmw (view p image a) x.1) = memAddr p (view p image a) := by
    have hamo : isAmo p (view p image a).instr = true := by simp [isAmo, hrmw]
    simp [memAddr, rmw, hamo]
  have haddr : dbusAddr p (r.state t) (r.input t) = memAddr p (view p image a) :=
    hops.memAddr.trans haddr'
  have hmask : wmask p (datapath p (r.state t) (r.input t)) = wmask p (view p image a) := by
    rw [hops.wmask]
    unfold wmask ba
    rw [haddr']
    rfl
  have hdata : wdata p (r.state t) (r.input t) = v := by
    rw [wdata, hops.dbusWdata]
    rfl
  have hc : commit p (r.state t) (r.input t) = false := commit_false (by simp [h.state])
  have ht : trapNow p (r.state t) (r.input t) = false := by simp [trapNow, hc]
  have hwe : dbusWe p (r.state t) (r.input t) = wmask p (view p image a) := by
    simp [dbusWe, h.state, hmask]
  have hne : dbusWe p (r.state t) (r.input t) ≠ 0#4 := by
    rw [hwe]
    exact wmask_ne_zero _ _
  have hr := hb.write t hne
  have hre : dbusRe p (r.state t) (r.input t) = false := by
    simp [dbusRe, issueLoad, hc, h.state]
  have hrf : rfWe p (r.state t) (r.input t) = true := by simp [rfWe, h.state, hr]
  have hwb : wbData p (r.state t) (r.input t) = x.1 := by simp [wbData, h.state, hval, x]
  have hd : instrDone p (r.state t) (r.input t) = true := by simp [instrDone, h.state, hr]
  have hret : retireOut p (r.state t) (r.input t) = true := by simp [retireOut, hd, ht]
  have hpc : (r.state t).pc = (view p image a).pc := h.holding.pc
  have hout : out p (r.state t) (r.input t) =
      .write (memAddr p (view p image a)) (wmask p (view p image a)) v ::
        (regEvent true (rdOf (view p image a).instr) x.1 ++ [.retire (view p image a).pc]) := by
    have hbne : (wmask p (view p image a) != 0#4) = true := by
      simpa using wmask_ne_zero p.toIsa (view p image a)
    simp only [out, ht, hre, hret, hrf, hwb, hinstr, hpc, hwe, hbne, haddr, hdata]
    rfl
  rw [← hout]
  apply Completes.of_done hb hd
  · have hjump (d : Datapath) (hi : d.instr = (view p image a).instr) :
        nextPc p d false = pcIncr d := by
      simp [nextPc, takesJump, branchTaken, hi, hnmret, hnjal, hnjalr, hnbr]
    show nextPc p _ _ = nextPc p (view p image a) false
    rw [ht, hjump _ hins, hjump _ rfl]
    simp only [pcIncr, datapath, hisC, hpc]
    rfl
  · rw [hrf, hwb, hinstr, h.agrees.regs]
    rfl
  · exact h.csr_kept hc
  · have hline : lineAddr p (r.state t) (r.input t) = reservation p (view p image a) := by
      rw [lineAddr, haddr, reservation]
    simp only [resValidNext, ht, reserves, h.state, hc, storeHitsRes, bne_iff_ne.mpr hne, hline,
      h.agrees.resValid, h.agrees.resAddr, amoStep]
    cases a.resValid <;> cases hq : reservation p (view p image a) == a.resAddr <;> simp [bne, hq]
  · simp [resAddrNext, reserves, h.state, h.agrees.resAddr, amoStep]
  · exact md_idle hidle (by simp [mdStart, hc])
  · rw [hb.mem, if_pos hne, haddr, hwe, hdata, h.mem, hm]
    rfl

theorem Works.amo (h : Works p r image mem t a .exec a.mem)
    (hidle : (r.state t).md.state = .idle) (hexc : excAny p (view p image a) = false)
    (hco : course p (view p image a).instr (view p image a) = .amo) :
    Completes p r image mem t (amoStep p bus a (view p image a)).1
      (amoStep p bus a (view p image a)).2 := by
  obtain ⟨hmd, hrd, hrmw⟩ := of_amo hco
  obtain ⟨hworks, hidle', hready, hout⟩ := h.issues hb hidle hexc hmd hrd
  rw [hco] at hworks
  obtain ⟨hworks', hval, hidle'', hout'⟩ := hworks.amoRead hb hidle' hready
  have hend := (hworks'.amoWrite hb hidle'' hrmw rfl hval).of_span (t := t) (n := 2)
  rwa [Clocked.span_succ, Clocked.span_one, hout, hout'] at hend

/-- A cycle in which the core goes on waiting for its divider or for an interrupt. -/
theorem Works.idles (h : Works p r image mem t a f a.mem) (hf : f = .md ∨ f = .wfi)
    (hrf : rfWe p (r.state t) (r.input t) = false)
    (hd : instrDone p (r.state t) (r.input t) = false)
    (hfsm : fsm p (r.state t) (r.input t) = r.state t) :
    Works p r image mem (t + 1) a f a.mem ∧ out p (r.state t) (r.input t) = [] := by
  obtain ⟨hc, ht, hwe⟩ := h.waiting (by rcases hf with rfl | rfl <;> decide)
  have hsame : fsm p (r.state t) (r.input t) =
      { r.state t with state := f, amoVal := (r.state t).amoVal } := by
    rw [hfsm, ← h.state]
  obtain ⟨hlr, hrd, hre, hhi⟩ : reserves p (r.state t) (r.input t) = false ∧
      readDone (r.state t) (r.input t) = false ∧ dbusRe p (r.state t) (r.input t) = false ∧
      fetchHiNow p (r.state t) (r.input t) = false := by
    rcases hf with rfl | rfl <;>
      simp [reserves, readDone, dbusRe, issueLoad, fetchHiNow, inExec, hc, h.state]
  obtain ⟨hw, -⟩ := h.stays hb hd hhi hsame (.of_commit_false hc hrf hlr hwe)
  refine ⟨⟨hw.state, hw.holding, hw.agrees, ?_⟩, ?_⟩
  · rw [mem_idle hb hwe hrd, h.mem]
  · simp [out, ht, hwe, hrf, regEvent, hre, retireOut, hd]

theorem Works.dividing (h : Works p r image mem t a .md a.mem)
    (hm : p.enableM = true) {u : S6Muldiv.State} {n : ℕ} {x : Word}
    (hu : (r.state t).md = u) (hdel : S6Muldiv.Delivers u n x) (k : ℕ) (hk : k ≤ n) :
    Works p r image mem (t + k) a .md a.mem ∧
      (r.state (t + k)).md = S6Muldiv.iterate^[k] u ∧
      Clocked.span (fun u => out p (r.state u) (r.input u)) t k = [] := by
  induction k with
  | zero => exact ⟨h, hu, rfl⟩
  | succ k ih =>
    obtain ⟨hw, hmd, hspan⟩ := ih (by omega)
    have hrun := hdel.busy k (by omega)
    rw [← hmd] at hrun
    have hnot : mdDone p (r.state (t + k)) = false := by
      simp [mdDone, hm, S6Muldiv.done, hrun]
    obtain ⟨hw', hout⟩ := hw.idles hb (.inl rfl) (by simp [rfWe, hw.state, hnot])
      (by simp [instrDone, hw.state, hnot]) (by simp [fsm, hb.halt, hw.state, hnot])
    refine ⟨hw', ?_, ?_⟩
    · rw [← Nat.add_assoc, run_step, Function.iterate_succ_apply', ← hmd]
      simp [step, hm, S6Muldiv.step, hrun]
    · rw [Clocked.span_add, hspan, Clocked.span_one, hout]
      rfl

theorem Works.divided (h : Works p r image mem t a .md a.mem)
    (hm : p.enableM = true) (hfix : (r.state t).md.state = .fix)
    (hres : S6Muldiv.result (r.state t).md = aluMulDiv (view p image a).rs1Data
      (view p image a).rs1Data (view p image a).rs2Data
        (aluMulDivOp (funct3Of (view p image a).instr))) :
    Completes p r image mem t (mdStep p a (view p image a)).1 (mdStep p a (view p image a)).2 := by
  have hv := h.sees hb (by decide)
  have hdone : mdDone p (r.state t) = true := by simp [mdDone, S6Muldiv.done, hfix]
  obtain ⟨hc, ht, hwe⟩ := h.waiting (by decide)
  have hre : dbusRe p (r.state t) (r.input t) = false := by
    simp [dbusRe, issueLoad, hc, h.state]
  have hrf : rfWe p (r.state t) (r.input t) = true := by simp [rfWe, h.state, hdone]
  have hwb' : wbData p (r.state t) (r.input t) = S6Muldiv.result (r.state t).md := by
    simp [wbData, h.state, mdResult, hm]
  have hd : instrDone p (r.state t) (r.input t) = true := by simp [instrDone, h.state, hdone]
  have hret : retireOut p (r.state t) (r.input t) = true := by simp [retireOut, hd, ht]
  have hout : out p (r.state t) (r.input t) = (mdStep p a (view p image a)).2 := by
    simp only [out, ht, hwe, hre, hret, hrf, hwb', hres, hv.instr, hv.pc, mdStep]
    rfl
  rw [← hout]
  apply Completes.of_done hb hd
  · rw [hv.next, ht]
    rfl
  · rw [hrf, hwb', hres, hv.instr, h.agrees.regs]
    rfl
  · exact h.csr_kept hc
  · simp [resValidNext, ht, reserves, h.state, hc, storeHitsRes, hwe, h.agrees.resValid, mdStep]
  · simp [resAddrNext, reserves, h.state, h.agrees.resAddr, mdStep]
  · simp [step, hm, S6Muldiv.step, hfix]
  · rw [mem_idle hb hwe (by simp [readDone, h.state]), h.mem]
    rfl

theorem Works.md (h : Works p r image mem t a .exec a.mem)
    (hidle : (r.state t).md.state = .idle) (hexc : excAny p (view p image a) = false)
    (hco : course p (view p image a).instr (view p image a) = .md) :
    Completes p r image mem t (mdStep p a (view p image a)).1 (mdStep p a (view p image a)).2 := by
  have hmd : isMuldiv p (view p image a).instr = true := by
    by_contra hn
    unfold course at hco
    split_ifs at hco
  obtain ⟨hl, hrd⟩ := leaves_of_muldiv hmd hco
  obtain ⟨hworks, hout⟩ := h.leaves hb hexc hl
  rw [hco] at hworks
  obtain ⟨hc, ht, hv, hw⟩ := h.commits hb hexc
  have hm : p.enableM = true := by
    simp only [isMuldiv, Bool.and_eq_true] at hmd
    exact hmd.1.1
  have hunit : (r.state (t + 1)).md = S6Muldiv.load (funct3Of (view p image a).instr)
      (view p image a).rs1Data (view p image a).rs2Data p.mulDsp (r.state t).md := by
    rw [run_step]
    simp [step, hm, S6Muldiv.step, hidle, hw.md, hv.instr, hmd, hv.rs1Data, hv.rs2Data]
  obtain ⟨n, -, hdel⟩ := S6Muldiv.load_delivers (funct3Of (view p image a).instr)
    (view p image a).rs1Data (view p image a).rs2Data p.mulDsp (r.state t).md
  obtain ⟨hworks', hmd', hspan⟩ := hworks.dividing hb hm hunit hdel n le_rfl
  have hend := (hworks'.divided hb hm (by rw [hmd']; exact hdel.done)
    (by rw [hmd']; exact hdel.result)).of_span
  rw [hspan, List.nil_append] at hend
  have hend' := hend.of_span
  rwa [Clocked.span_one, hout, hrd, if_neg Bool.false_ne_true, List.nil_append] at hend'

theorem Works.asleep (h : Works p r image mem t a .wfi a.mem)
    (k : ℕ) : Works p r image mem (t + k) a .wfi a.mem ∧
      out p (r.state (t + k)) (r.input (t + k)) = [] := by
  have hcycle {u : ℕ} (hw : Works p r image mem u a .wfi a.mem) :
      Works p r image mem (u + 1) a .wfi a.mem ∧ out p (r.state u) (r.input u) = [] := by
    have hirq : S6Csr.irqAny (r.state u).csr (r.input u).lines = false := by
      have := irqAny_quiet (r.state u).csr
      rwa [← hb.lines u] at this
    have hc := (hw.waiting (by decide)).1
    exact hw.idles hb (.inr rfl) (by simp [rfWe, hw.state, hc])
      (by simp [instrDone, hw.state, hirq]) (by simp [fsm, hb.halt, hw.state, hirq])
  have hw : Works p r image mem (t + k) a .wfi a.mem := by
    induction k with
    | zero => exact h
    | succ k ih => exact (hcycle ih).1
  exact ⟨hw, (hcycle hw).2⟩

theorem Works.wfi (h : Works p r image mem t a .exec a.mem)
    (hexc : excAny p (view p image a) = false)
    (hco : course p (view p image a).instr (view p image a) = .wfi) :
    ∀ u ≥ t, out p (r.state u) (r.input u) = [] := by
  obtain ⟨hl, hrd⟩ := leaves_of_wfi hco
  obtain ⟨hworks, hout⟩ := h.leaves hb hexc hl
  rw [hco] at hworks
  intro u hu
  obtain rfl | hlt := hu.eq_or_lt
  · simpa [hrd] using hout
  · obtain ⟨k, rfl⟩ := Nat.exists_eq_add_of_le (Nat.succ_le_of_lt hlt)
    exact (hworks.asleep hb k).2

theorem Works.executes (h : Works p r image mem t a .exec a.mem)
    (hidle : (r.state t).md.state = .idle) (hcnt : NoCounter p image a) :
    Completes p r image mem t (archStep p image bus a) (archOut p image bus a) ∨
      Clocked.Parked (archStep p image bus) (archOut p image bus)
        (fun u => out p (r.state u) (r.input u)) t a := by
  unfold archStep archOut execute
  cases hexc : excAny p (view p image a) with
  | true => exact .inl (by simpa [hexc] using h.trap hb hidle hexc)
  | false =>
    cases hco : course p (view p image a).instr (view p image a) with
    | wfi =>
      right
      refine ⟨h.wfi hb hexc hco, ?_, ?_⟩ <;> simp [hexc, hco]
    | md => exact .inl (by simpa [hexc, hco] using h.md hb hidle hexc hco)
    | load => exact .inl (by simpa [hexc, hco] using h.load hb hidle hexc hco)
    | amo => exact .inl (by simpa [hexc, hco] using h.amo hb hidle hexc hco)
    | store => exact .inl (by simpa [hexc, hco] using h.store hb hidle hcnt hexc hco)
    | finish => exact .inl (by simpa [hexc, hco] using h.finish hb hidle hcnt hexc hco)

end RiscvScratch.S6Core
