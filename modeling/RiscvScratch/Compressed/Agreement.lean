import RiscvScratch.Compressed.Pacing
import RiscvScratch.Spartan6.Configuration
import RiscvScratch.Spartan6.Quiet

/-! The two RV32IMC cores agree on every program without SYSTEM instructions and traps. -/
namespace RiscvScratch.Compressed
variable {μ : Type*}

def s6Effects (p : S6Core.Params) (s : S6Core.State) (i : S6Core.Input) : List Effect :=
  byteEffects (S6Core.dbusAddr p s i) (S6Core.dbusWe p s i) (S6Core.wdata p s i) ++
    regEffect (S6Core.rfWe p s i) (rdOf (S6Core.instr p s i)) (S6Core.wbData p s i)

theorem s6Effects_eq (p : S6Core.Params) (s : S6Core.State) (i : S6Core.Input) :
    s6Effects p s i = (S6Core.out p s i).flatMap effectOf := by
  have hwe : (if S6Core.dbusWe p s i != 0#4 then
      [S6Core.Event.write (S6Core.dbusAddr p s i) (S6Core.dbusWe p s i) (S6Core.wdata p s i)]
      else []).flatMap effectOf =
      byteEffects (S6Core.dbusAddr p s i) (S6Core.dbusWe p s i) (S6Core.wdata p s i) := by
    by_cases h : S6Core.dbusWe p s i = 0#4
    · simp [h]
    · simp [h, effectOf]
  have hother (c : Bool) (e : S6Core.Event) (he : effectOf e = []) :
      (if c then [e] else []).flatMap effectOf = [] := by
    cases c <;> simp [he]
  simp only [S6Core.out, List.flatMap_append, hwe, flatMap_regEvent, s6Effects]
  rw [hother _ _ rfl, hother _ _ rfl, hother _ _ rfl, List.nil_append, List.nil_append,
    List.append_nil]

def Effect.regs : Effect → List (BitVec 5 × Word)
  | .reg rd v => [(rd, v)]
  | .byte _ _ => []

def Effect.bytes : Effect → List (Word × BitVec 8)
  | .reg _ _ => []
  | .byte addr v => [(addr, v)]

/-- The writes to registers other than `x0`, cycle by cycle. -/
def regWrites (out : ℕ → List Effect) (t : ℕ) : List (BitVec 5 × Word) :=
  (out t).flatMap Effect.regs

def byteWrites (out : ℕ → List Effect) (t : ℕ) : List (Word × BitVec 8) :=
  (out t).flatMap Effect.bytes

structure Ready (p : S6Core.Params) (r : S6Core.Run p) (image : Word → Word) (bus : ByteBus μ)
    (mem : ℕ → μ) : Prop where
  halt : ∀ t, (r.input t).halt = false
  ready : ∀ t, (r.input t).dbusReady = true
  fetch : ∀ t, (r.input (t + 1)).ibusRdata = image (S6Core.ibusAddr p (r.state t) (r.input t))
  data : ∀ t, S6Core.readDone (r.state t) (r.input t) = true →
    (r.input t).dbusRdata = (bus.read (mem t) (S6Core.dbusAddr p (r.state t) (r.input t))).1
  mem : ∀ t, mem (t + 1) =
    if S6Core.dbusWe p (r.state t) (r.input t) ≠ 0#4 then
      bus.write (mem t) (lanes (S6Core.dbusAddr p (r.state t) (r.input t))
        (S6Core.dbusWe p (r.state t) (r.input t)) (S6Core.wdata p (r.state t) (r.input t)))
    else if S6Core.readDone (r.state t) (r.input t) then
      (bus.read (mem t) (S6Core.dbusAddr p (r.state t) (r.input t))).2
    else mem t

section run
variable {p : S6Core.Params} {r : S6Core.Run p} {image : Word → Word} {bus : ByteBus μ}
  {mem : ℕ → μ}

theorem Ready.bench (h : Ready p r image bus mem)
    (hp : ∀ t, S6Core.Plain p (r.state t) (r.input t)) :
    S6Core.Bench p (S6Core.hushed r hp) image bus.words mem := by
  have hwe (t : ℕ) := (hp t).dbusWe_hush
  have haddr (t : ℕ) := (hp t).ibusAddr_hush (S6Core.state_ne_wfi hp t)
  refine ⟨h.halt, fun _ => rfl, ?_, fun t _ => h.ready t, fun t _ => h.ready (t + 1), h.data, ?_⟩
  · intro t
    exact (h.fetch t).trans (congrArg image (haddr t).symm)
  · intro t
    have := h.mem t
    rw [← hwe t] at this
    exact this

theorem ordinary_run (h : Ready p r image bus mem)
    (hp : ∀ t, S6Core.Plain p (r.state t) (r.input t)) {t : ℕ} {a : S6Core.Arch μ}
    (hb : S6Core.Begins p (S6Core.hushed r hp) image mem t a) :
    Ordinary p (S6Core.view p image a) := by
  obtain ⟨n, hworks, -, -⟩ := hb.discover (h.bench hp)
  obtain ⟨hcommit, htrap⟩ := S6Core.trapNow_eq (h.bench hp) hworks
  refine ⟨?_, htrap.symm.trans (hp (t + n)).trap_hush⟩
  have hins : S6Core.instr p (r.state (t + n)) (r.input (t + n)) =
      (S6Core.view p image a).instr := hworks.instr_eq
  rw [← hins]
  exact (hp (t + n)).system hcommit

theorem s6Effects_hush {s : S6Core.State} {i : S6Core.Input} (h : S6Core.Plain p s i) :
    s6Effects p s i.hush = s6Effects p s i := by
  have haddr : S6Core.dbusAddr p s i.hush = S6Core.dbusAddr p s i := rfl
  have hdata : S6Core.wdata p s i.hush = S6Core.wdata p s i := rfl
  have hins : S6Core.instr p s i.hush = S6Core.instr p s i := rfl
  unfold s6Effects
  rw [h.dbusWe_hush, h.rfWe_hush, haddr, hdata, hins]
  cases hr : S6Core.rfWe p s i with
  | false => simp [regEffect]
  | true => rw [h.write_hush hr]

theorem s6_paces (h : Ready p r image bus mem)
    (hp : ∀ t, S6Core.Plain p (r.state t) (r.input t)) :
    Clocked.Paces (S6Core.archStep p image bus.words) (S6Core.archOut p image bus.words)
      (S6Core.events (S6Core.hushed r hp)) (S6Core.Begins p (S6Core.hushed r hp) image mem) := by
  intro t a hb
  refine hb.executes (h.bench hp) fun _ hcsr => ?_
  have hsys := (ordinary_run h hp hb).system
  simp [S6Core.isCsr, hsys] at hcsr

theorem mc_paces {resetPc : Word} {r' : CpuMcC.Run resetPc} {mem' : ℕ → μ}
    (hA : p.enableA = false) (hC : p.enableC = true) (h : McBench r' image bus mem') :
    Clocked.Paces (S6Core.archStep p image bus.words)
      (fun a => (S6Core.archOut p image bus.words a).flatMap effectOf)
      (fun t => mcEffects (r'.state t) (r'.input t))
      (fun t a => Rv32imc.Rests (Rv32imc.ofReset r') mem' t (asMc a) ∧
        ∀ k, Ordinary p (S6Core.view p image ((S6Core.archStep p image bus.words)^[k] a))) := by
  rintro t a ⟨hrest, ho⟩
  obtain ⟨n, hn, hrest', hspan⟩ := rests_executes hA hC (ho 0) h hrest
  exact .inl ⟨n, hn, ⟨hrest', fun k => ho (k + 1)⟩, hspan⟩

end run

theorem same_effects {p : S6Core.Params} (hA : p.enableA = false) (hC : p.enableC = true)
    {image : Word → Word} {bus : ByteBus μ} {r : S6Core.Run p} {r' : CpuMcC.Run p.resetAddr}
    {mem mem' : ℕ → μ} (h : Ready p r image bus mem) (h' : McBench r' image bus mem')
    (hregs : (r'.state 0).regs = (r.state 0).regs) (hmem : mem' 0 = mem 0)
    (hp : ∀ t, S6Core.Plain p (r.state t) (r.input t)) :
    Clocked.SameEvents (fun t => s6Effects p (r.state t) (r.input t))
      (fun t => mcEffects (r'.state t) (r'.input t)) := by
  obtain ⟨hb, hs⟩ := S6Core.begins_start (h.bench hp)
  have hpaces := s6_paces h hp
  have hrest : Rv32imc.Rests (Rv32imc.ofReset r') mem' 0
      (asMc (S6Core.start p (r.state 0).regs (mem 0))) := by
    obtain ⟨loHalf, regs, h0⟩ := r'.starts
    rw [h0] at hregs
    have h0' : (Rv32imc.ofReset r').state 0 = CpuMcC.reset p.resetAddr loHalf regs := h0
    refine ⟨?_, ?_, ?_, ?_, ?_, hmem⟩ <;> rw [h0']
    · rfl
    · rfl
    · rfl
    · exact hregs
    · rfl
  have hord (k : ℕ) : Ordinary p (S6Core.view p image ((S6Core.archStep p image bus.words)^[k]
      (S6Core.start p (r.state 0).regs (mem 0)))) := by
    obtain ⟨t, ht⟩ := hpaces.reaches hb hs k
    exact ordinary_run h hp ht
  have hs' : Clocked.emitted (fun t => (S6Core.events (S6Core.hushed r hp) t).flatMap effectOf) 1 =
      [] := by
    rw [Clocked.emitted_flatMap, hs, List.flatMap_nil]
  have hsame := (hpaces.flatMap effectOf).sameEvents hb hs' (mc_paces hA hC h') ⟨hrest, hord⟩ rfl
  have hout : (fun t => (S6Core.events (S6Core.hushed r hp) t).flatMap effectOf) =
      fun t => s6Effects p (r.state t) (r.input t) := by
    funext t
    rw [← s6Effects_hush (hp t), s6Effects_eq]
    rfl
  rwa [hout] at hsame

/-- Without SYSTEM instructions and traps the two cores write the same registers and bytes in the
same order. -/
theorem cores_agree (p : S6Core.Params) (hA : p.enableA = false) (hC : p.enableC = true)
    (image : Word → Word) (bus : ByteBus μ) (r : S6Core.Run p) (r' : CpuMcC.Run p.resetAddr)
    (mem mem' : ℕ → μ) (h : Ready p r image bus mem) (h' : McBench r' image bus mem')
    (hregs : (r'.state 0).regs = (r.state 0).regs) (hmem : mem' 0 = mem 0)
    (hp : ∀ t, S6Core.Plain p (r.state t) (r.input t)) :
    Clocked.SameEvents (regWrites fun t => s6Effects p (r.state t) (r.input t))
        (regWrites fun t => mcEffects (r'.state t) (r'.input t)) ∧
      Clocked.SameEvents (byteWrites fun t => s6Effects p (r.state t) (r.input t))
        (byteWrites fun t => mcEffects (r'.state t) (r'.input t)) := by
  have hsame := same_effects hA hC h h' hregs hmem hp
  exact ⟨hsame.flatMap Effect.regs, hsame.flatMap Effect.bytes⟩

theorem board_ready (p : S6Core.Params) (image : Word → Word) (bus : ByteBus μ) (regs : Regs)
    (m : μ) : Ready p (S6Core.boardRun p image bus.words regs m) image bus
      (S6Core.boardMem p image bus.words regs m) where
  halt _ := rfl
  ready _ := rfl
  fetch _ := rfl
  data _ _ := rfl
  mem _ := rfl

def countParams : S6Core.Params := ⟨⟨0#32, true, false, true, true, 0#32⟩, true, true⟩

def countRun : S6Core.Run countParams :=
  S6Core.boardRun countParams countImage byteRam.words (fun _ => 0#32) fun _ => 0#8

/-- The core executes one of the two instructions, and `x8` is zero. -/
structure Counting (s : S6Core.State) (i : S6Core.Input) : Prop where
  state : s.state = .exec
  straddle : s.straddleQ = false
  base : s.regs 8#5 = 0#32
  word : i.ibusRdata = 0xC0000085#32
  lines : i.lines = S6Core.quiet
  halt : i.halt = false
  ready : i.dbusReady = true

variable {s : S6Core.State} {i : S6Core.Input}

theorem Counting.instr (h : Counting s i) :
    S6Core.needHi countParams s i = false ∧ S6Core.isC countParams s i = true ∧
      ((S6Core.raw16 s i = 0x0085#16 ∧ S6Core.instr countParams s i = 0x00108093#32) ∨
       (S6Core.raw16 s i = 0xC000#16 ∧ S6Core.instr countParams s i = 0x00842023#32)) := by
  have hraw : S6Core.raw16 s i = 0x0085#16 ∨ S6Core.raw16 s i = 0xC000#16 := by
    unfold S6Core.raw16
    rw [h.word]
    split
    · exact .inr (by decide)
    · exact .inl (by decide)
  have hlow : (S6Core.raw16 s i).extractLsb' 0 2 ≠ 0b11#2 := by
    obtain hraw | hraw := hraw <;> rw [hraw] <;> decide
  have hc : S6Core.isC countParams s i = true := by
    simp [S6Core.isC, countParams, h.straddle, hlow]
  have hins : S6Core.instr countParams s i = (Rvc.expand (S6Core.raw16 s i)).1 := by
    simp [S6Core.instr, h.straddle, hc]
  refine ⟨by simp [S6Core.needHi, hlow], hc, ?_⟩
  rw [hins]
  obtain hraw | hraw := hraw <;> rw [hraw]
  · exact .inl ⟨rfl, by decide⟩
  · exact .inr ⟨rfl, by decide⟩

theorem excAny_eq {p : S6Core.Isa} {d : S6Core.Datapath} {w : Word} (hi : d.instr = w)
    (hc : (Rvc.expand d.raw16).2 = false) (hl : S6Core.opLegal p w = true)
    (hs : S6Core.isSystem w = false)
    (hj : (S6Core.isJal w || S6Core.isJalr w || S6Core.isBranch w) = false) :
    S6Core.excAny p d = (S6Core.loadFault p d || S6Core.storeFault p d) := by
  simp only [Bool.or_eq_false_iff] at hj
  simp [S6Core.excAny, S6Core.illegalInstr, S6Core.cIllegal, S6Core.csrIllegal, S6Csr.illegal,
    S6Core.instrFault, S6Core.takesJump, S6Core.branchTaken, S6Core.isCsr, S6Core.isMret,
    S6Core.isEcall, S6Core.isEbreak, S6Core.sysPlain, hi, hc, hl, hs, hj]

theorem Counting.excAny (h : Counting s i) :
    S6Core.excAny countParams (S6Core.datapath countParams s i) = false := by
  obtain ⟨-, -, ⟨hraw, hins⟩ | ⟨hraw, hins⟩⟩ := h.instr
  · have hx : (Rvc.expand (S6Core.raw16 s i)).2 = false := by rw [hraw]; decide
    rw [excAny_eq (d := S6Core.datapath countParams s i) hins hx (by decide) (by decide)
      (by decide)]
    have hw : (S6Core.datapath countParams s i).instr = 0x00108093#32 := hins
    have hno : S6Core.isLoad 0x00108093#32 = false ∧ S6Core.isStore 0x00108093#32 = false := by
      decide
    simp [S6Core.loadFault, S6Core.storeFault, hw, hno, isAmo_false (p := countParams.toIsa) rfl]
  · have hx : (Rvc.expand (S6Core.raw16 s i)).2 = false := by rw [hraw]; decide
    rw [excAny_eq (d := S6Core.datapath countParams s i) hins hx (by decide) (by decide)
      (by decide)]
    have hw : (S6Core.datapath countParams s i).instr = 0x00842023#32 := hins
    have hno : S6Core.isLoad 0x00842023#32 = false := by decide
    have hrs : (S6Core.datapath countParams s i).rs1Data = 0#32 := by
      show s.regs.read (rs1Of (S6Core.instr countParams s i)) = 0#32
      rw [hins]
      exact h.base
    have hba : S6Core.ba countParams (S6Core.datapath countParams s i) = 0#2 := by
      have himm : S6Core.imm 0x00842023#32 = 0#32 := by decide
      rw [S6Core.ba, S6Core.memAddr, (isAmo_false (p := countParams.toIsa) rfl _).2.2.2,
        if_neg Bool.false_ne_true, aluResult_add rfl (by simp [S6Core.datapath, h.state])
        (.inr (.inl (by rw [hw]; decide))), hrs, hw, himm]
      decide
    simp [S6Core.loadFault, S6Core.storeFault, S6Core.lsBad, hw, hno, hba,
      isAmo_false (p := countParams.toIsa) rfl]

theorem Counting.plain (h : Counting s i) :
    S6Core.Plain countParams s i := by
  have hirq : S6Core.irqPending (S6Core.datapath countParams s i) = false := by
    simp [S6Core.irqPending, S6Csr.irqPending, S6Core.datapath, h.lines, S6Core.irqAny_quiet]
  refine ⟨fun _ => ?_, by simp [S6Core.trapNow, hirq, h.excAny]⟩
  obtain ⟨-, -, ⟨-, hins⟩ | ⟨-, hins⟩⟩ := h.instr <;> rw [hins] <;> decide

theorem Counting.next (h : Counting s i) :
    (S6Core.step countParams s i).state = .exec ∧
      (S6Core.step countParams s i).straddleQ = false ∧
      (S6Core.step countParams s i).regs 8#5 = 0#32 := by
  have htrap := h.plain.trap
  obtain ⟨hneed, -, hins⟩ := h.instr
  have hdone : (S6Core.execCourse countParams s i).done i.dbusReady = true := by
    rw [h.ready]
    show (S6Core.course _ (S6Core.datapath countParams s i).instr _).done true = true
    have hd : (S6Core.datapath countParams s i).instr = S6Core.instr countParams s i := rfl
    obtain ⟨-, hins⟩ | ⟨-, hins⟩ := hins
    · rw [course_eq rfl (.opImm (by rw [hd, hins]; decide)), hd, hins]
      decide
    · rw [course_eq rfl (.store (by rw [hd, hins]; decide)), hd, hins]
      decide
  have hfsm : S6Core.fsm countParams s i = S6Core.finish countParams s i := by
    simp [S6Core.fsm, h.halt, h.state, hneed, hdone]
  have hrd : rdOf (S6Core.instr countParams s i) ≠ 8#5 := by
    obtain ⟨-, hins⟩ | ⟨-, hins⟩ := hins <;> rw [hins] <;> decide
  refine ⟨?_, ?_, ?_⟩
  · simp only [S6Core.step, hfsm, S6Core.finish]
    rfl
  · simp [S6Core.step, hfsm, S6Core.finish]
  · show s.regs.write _ _ _ 8#5 = 0#32
    unfold Regs.write
    split
    · rw [Function.update_of_ne hrd.symm, h.base]
    · exact h.base

theorem countRun_counting (t : ℕ) :
    Counting (countRun.state (t + 1)) (countRun.input (t + 1)) := by
  induction t with
  | zero => exact ⟨rfl, rfl, by decide +kernel, rfl, rfl, rfl, rfl⟩
  | succ t ih =>
    obtain ⟨h1, h2, h3⟩ := ih.next
    exact ⟨h1, h2, h3, rfl, rfl, rfl, rfl⟩

theorem countRun_plain (t : ℕ) :
    S6Core.Plain countParams (countRun.state t) (countRun.input t) := by
  cases t with
  | zero => exact ⟨by decide +kernel, by decide +kernel⟩
  | succ t => exact (countRun_counting t).plain

/-- Both cores count in `x1` and clear the bytes at `x8`. -/
theorem countRun_cores_agree :
    s6Effects countParams (countRun.state 1) (countRun.input 1) = [.reg 1#5 1#32] ∧
      Clocked.SameEvents
        (regWrites fun t => s6Effects countParams (countRun.state t) (countRun.input t))
        (regWrites fun t => mcEffects
          ((mcBoardRun countImage byteRam 0#32 (fun _ => 0#32) fun _ => 0#8).state t)
          ((mcBoardRun countImage byteRam 0#32 (fun _ => 0#32) fun _ => 0#8).input t)) :=
  ⟨by decide +kernel, (cores_agree countParams rfl rfl countImage byteRam countRun _ _ _
    (board_ready _ _ _ _ _) (mcBoard_bench _ _ _ _ _) rfl rfl countRun_plain).1⟩

end RiscvScratch.Compressed
