import RiscvScratch.Clocked.Machine
import RiscvScratch.Spartan6.Instruction

/-! `FAST_FETCH` and `MUL_DSP` change how long a program takes and nothing else. -/
namespace RiscvScratch.S6Core
variable {μ : Type*}

def events {p : Params} (r : Run p) (t : ℕ) : List Event := out p (r.state t) (r.input t)

/-- The cycle brings no counter and no time into a register. -/
def CounterFree (p : Params) (s : State) (i : Input) : Prop :=
  commit p s i = true → trapNow p s i = false → isCsr (instr p s i) = true →
    S6Csr.isCounter (f12 (instr p s i)) = true → rdOf (instr p s i) = 0#5

def start (c : Isa) (regs : Regs) (m : μ) : Arch μ :=
  ⟨c.resetAddr, regs, S6Csr.reset, false, 0#32, m⟩

section run
variable {p : Params} {r : Run p} {image : Word → Word} {bus : WordBus μ} {mem : ℕ → μ} {t : ℕ}
  {a : Arch μ}

section
variable (hb : Bench p r image bus mem)
include hb

theorem begins_start : Begins p r image mem 1 (start p (r.state 0).regs (mem 0)) ∧
      Clocked.emitted (events r) 1 = [] := by
  obtain ⟨regs, h0⟩ := r.starts
  have hrests : Rests p r mem 0 (start p (r.state 0).regs (mem 0)) := by
    rw [h0]
    refine ⟨?_, ?_, ?_, ?_, rfl⟩ <;> rw [h0]
    · rfl
    · rfl
    · exact ⟨rfl, rfl, rfl, rfl⟩
    · rfl
  obtain ⟨hbeg, hout⟩ := hrests.fetches hb (by rw [h0]; rfl)
  refine ⟨hbeg, ?_⟩
  rw [Clocked.emitted_succ, Clocked.emitted_zero, List.nil_append]
  exact hout

theorem Begins.executes (h : Begins p r image mem t a)
    (hcnt : NoCounter p image a) :
    Completes p r image mem t (archStep p image bus a) (archOut p image bus a) ∨
      Clocked.Parked (archStep p image bus) (archOut p image bus) (events r) t a := by
  obtain ⟨n, hworks, hidle, hspan⟩ := h.discover hb
  obtain hc | hp := hworks.executes hb hidle hcnt
  · left
    have := hc.of_span
    rwa [hspan, List.nil_append] at this
  · right
    refine ⟨fun u hu => ?_, hp.aout, hp.stuck⟩
    by_cases hlt : u < t + n
    · -- the cycle that discovered the straddle
      exact List.flatMap_eq_nil_iff.mp hspan u (List.mem_range'_1.mpr ⟨hu, hlt⟩)
    · exact hp.out u (by omega)

theorem Begins.noCounter
    (hc : ∀ t, CounterFree p (r.state t) (r.input t)) (h : Begins p r image mem t a) :
    NoCounter p image a := by
  obtain ⟨n, hworks, -, -⟩ := h.discover hb
  obtain ⟨hcommit, htrap⟩ := trapNow_eq hb hworks
  have hins : instr p (r.state (t + n)) (r.input (t + n)) = (view p image a).instr :=
    hworks.instr_eq
  intro hexc hcsr hcount
  have := hc (t + n) hcommit (htrap.trans hexc)
  rw [hins] at this
  exact this hcsr hcount

theorem paces : Clocked.Paces (archStep p image bus) (archOut p image bus) (events r)
      (fun t a => Begins p r image mem t a ∧
        ∀ k, NoCounter p image ((archStep p image bus)^[k] a)) := by
  rintro t a ⟨h, hcnt⟩
  obtain ⟨n, hn, hbeg, hspan⟩ | hp := h.executes hb (hcnt 0)
  · refine .inl ⟨n, hn, ⟨hbeg, fun k => ?_⟩, hspan⟩
    exact hcnt (k + 1)
  · exact .inr hp

theorem noCounter_run (hc : ∀ t, CounterFree p (r.state t) (r.input t)) (k : ℕ) :
    NoCounter p image ((archStep p image bus)^[k] (start p (r.state 0).regs (mem 0))) := by
  have hpaces : Clocked.Paces (archStep p image bus) (archOut p image bus) (events r)
      (Begins p r image mem) := fun t a h => h.executes hb (h.noCounter hb hc)
  obtain ⟨h0, hs⟩ := begins_start hb
  obtain ⟨t, ht⟩ := hpaces.reaches h0 hs k
  exact ht.noCounter hb hc

end

end run

/-- What a program retires, writes, traps and accesses comes in the same order for every setting of
`MUL_DSP` and `FAST_FETCH`. -/
theorem configuration_independent {μ : Type*} (p₁ p₂ : Params) (hisa : p₁.toIsa = p₂.toIsa)
    (image : Word → Word) (bus : WordBus μ) (r₁ : Run p₁) (r₂ : Run p₂) (mem₁ mem₂ : ℕ → μ)
    (h₁ : Bench p₁ r₁ image bus mem₁) (h₂ : Bench p₂ r₂ image bus mem₂)
    (hregs : (r₁.state 0).regs = (r₂.state 0).regs) (hmem : mem₁ 0 = mem₂ 0)
    (hcnt : ∀ t, CounterFree p₁ (r₁.state t) (r₁.input t)) :
    Clocked.SameEvents (events r₁) (events r₂) := by
  obtain ⟨hb₁, hs₁⟩ := begins_start h₁
  obtain ⟨hb₂, hs₂⟩ := begins_start h₂
  have hno := noCounter_run h₁ hcnt
  rw [← hregs, ← hmem] at hb₂
  have hp₁ := paces h₁
  rw [hisa] at hb₁ hno hp₁
  exact hp₁.sameEvents ⟨hb₁, hno⟩ hs₁ (paces h₂) ⟨hb₂, hno⟩ hs₂

structure Board (μ : Type*) where
  ibusRdata : Word
  mem : μ

section board
variable (p : Params) (image : Word → Word) (bus : WordBus μ)

def Board.input (e : Board μ) (rdata : Word) : Input := ⟨e.ibusRdata, rdata, true, quiet, false⟩

def Board.answer (e : Board μ) (s : State) : Input :=
  e.input (bus.read e.mem (dbusAddr p s (e.input 0#32))).1

def Board.react (e : Board μ) (s : State) (i : Input) : Board μ where
  ibusRdata := image (ibusAddr p s i)
  mem :=
    if dbusWe p s i ≠ 0#4 then bus.write e.mem (dbusAddr p s i) (dbusWe p s i) (wdata p s i)
    else if readDone s i then (bus.read e.mem (dbusAddr p s i)).2
    else e.mem

def boardRun (regs : Regs) (m : μ) : Run p :=
  (machine p).coupledRun (Board.answer p bus) (Board.react p image bus)
    (reset p regs, ⟨0#32, m⟩) ⟨regs, rfl⟩

def boardMem (regs : Regs) (m : μ) (t : ℕ) : μ :=
  ((machine p).coupledEnv (Board.answer p bus) (Board.react p image bus)
    (reset p regs, ⟨0#32, m⟩) t).mem

theorem board_bench (regs : Regs) (m : μ) :
    Bench p (boardRun p image bus regs m) image bus (boardMem p image bus regs m) where
  halt _ := rfl
  lines _ := rfl
  fetch _ := rfl
  write _ _ := rfl
  read _ _ := rfl
  data _ _ := rfl
  mem _ := rfl

end board

def ramBus : WordBus (BitVec 30 → Word) where
  read m addr := (m (addr.extractLsb' 2 30), m)
  write m addr mask data :=
    let old := m (addr.extractLsb' 2 30)
    let byte (k : ℕ) : BitVec 8 :=
      if mask.getLsbD k then data.extractLsb' (8 * k) 8 else old.extractLsb' (8 * k) 8
    Function.update m (addr.extractLsb' 2 30) (byte 3 ++ byte 2 ++ byte 1 ++ byte 0)

def mulImage (addr : Word) : Word :=
  match addr with
  | 0x00#32 => 0x00600093#32 -- addi x1, x0, 6
  | 0x04#32 => 0x02108133#32 -- mul x2, x1, x1
  | 0x08#32 => 0x04202023#32 -- sw x2, 64(x0)
  | 0x0C#32 => 0x04002183#32 -- lw x3, 64(x0)
  | _ => 0x00100073#32 -- ebreak

def mulWords : List Word :=
  [0x00600093#32, 0x02108133#32, 0x04202023#32, 0x04002183#32, 0x00100073#32]

def slowParams : Params := ⟨⟨0#32, true, true, false, true, 0#32⟩, false, false⟩
def fastParams : Params := ⟨⟨0#32, true, true, false, true, 0#32⟩, true, true⟩

def slowRun : Run slowParams := boardRun _ mulImage ramBus (fun _ => 0#32) fun _ => 0#32
def fastRun : Run fastParams := boardRun _ mulImage ramBus (fun _ => 0#32) fun _ => 0#32

theorem fastRun_counterFree (t : ℕ) :
    CounterFree fastParams (fastRun.state t) (fastRun.input t) := by
  intro hc _ hcsr
  cases t with
  | zero => exact absurd hc (by decide +kernel)
  | succ t =>
    obtain ⟨addr, ha⟩ : ∃ addr, (fastRun.input (t + 1)).ibusRdata = mulImage addr := ⟨_, rfl⟩
    have hmem : mulImage addr ∈ mulWords := by
      unfold mulImage
      split <;> simp [mulWords]
    rw [instr_noC rfl fastRun fun _ => rfl, ha] at hcsr
    generalize mulImage addr = w at hmem hcsr
    fin_cases hmem <;> exact absurd hcsr (by decide)

/-- The fast core has multiplied in cycle 3. -/
theorem fastRun_sameEvents : events fastRun 3 = [.reg 2#5 36#32, .retire 0x04#32] ∧
      Clocked.SameEvents (events fastRun) (events slowRun) :=
  ⟨by decide +kernel, configuration_independent fastParams slowParams rfl mulImage ramBus fastRun
    slowRun _ _ (board_bench _ _ _ _ _) (board_bench _ _ _ _ _) rfl rfl fastRun_counterFree⟩

end RiscvScratch.S6Core
