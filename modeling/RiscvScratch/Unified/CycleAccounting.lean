import RiscvScratch.Unified.Provenance
import RiscvScratch.Unified.Bench

/-! Where the cycles go: every cycle has one class, and the tag a bubble carries names what made it.
-/
namespace RiscvScratch.Unified

variable {c : Cfg} {s : State} {i : Input}

inductive CycleClass
  | retire | loadUse | flush | fetch | freeze | trap | hold | fill
  deriving DecidableEq, Repr

/-- The signal of each class: the counted events, and the three kinds that are not counted. -/
def CycleClass.signal (c : Cfg) (s : State) (i : Input) : CycleClass → Bool
  | .retire => cntEvent c s i 2
  | .loadUse => cntEvent c s i 3
  | .flush => cntEvent c s i 4
  | .fetch => cntEvent c s i 5
  | .freeze => cntEvent c s i 6
  | .trap => takeTrap c s i
  | .hold => exHold c s i && !Unified.freeze c s i
  | .fill => isBubble c s i && s.counters.idexWhy == .other

def CycleClass.ofWhy : Why → CycleClass
  | .other => .fill
  | .loadUse => .loadUse
  | .flush => .flush
  | .fetch => .fetch

theorem cycle_class (h : i.halt = false) : ∃! k : CycleClass, k.signal c s i = true := by
  cases hf : freeze c s i with
  | true =>
    have hg := not_exGo_of_freeze hf
    have ht := (idle_of_not_exGo hg).takeTrap
    refine ⟨.freeze, by simp [CycleClass.signal, cntEvent, hf, h], fun k hk => ?_⟩
    cases k <;> simp_all [CycleClass.signal, cntEvent, isBubble]
  | false =>
    cases hh : exHold c s i with
    | true =>
      have hg := not_exGo_of_hold hh
      have ht := (idle_of_not_exGo hg).takeTrap
      refine ⟨.hold, by simp [CycleClass.signal, hf, hh], fun k hk => ?_⟩
      cases k <;> simp_all [CycleClass.signal, cntEvent, isBubble]
    | false =>
      cases hv : s.idex.valid with
      | true =>
        have hg : exGo c s i = true := by simp [exGo, hf, hh, hv]
        cases ht : takeTrap c s i with
        | true =>
          refine ⟨.trap, by simp [CycleClass.signal, ht], fun k hk => ?_⟩
          cases k <;> simp_all [CycleClass.signal, cntEvent, isBubble]
        | false =>
          refine ⟨.retire, by simp [CycleClass.signal, cntEvent, hg, ht], fun k hk => ?_⟩
          cases k <;> simp_all [CycleClass.signal, cntEvent, isBubble]
      | false =>
        have hb : isBubble c s i = true := by simp [isBubble, hf, hh, hv]
        have hg : exGo c s i = false := by simp [exGo, hv]
        have ht := (idle_of_not_exGo hg).takeTrap
        refine ⟨.ofWhy s.counters.idexWhy, ?_, fun k hk => ?_⟩
        · cases hy : s.counters.idexWhy <;>
            simp [CycleClass.ofWhy, CycleClass.signal, cntEvent, hb, hy]
        · cases k <;> simp_all [CycleClass.signal, cntEvent, CycleClass.ofWhy]

/-- What made the contents of a slot, with the cycle in which it did. -/
inductive Origin
  | reset
  | fetched (t : ℕ)
  | starved (t : ℕ)
  | redirect (t : ℕ)
  | loadUse (t : ℕ)
  deriving DecidableEq, Repr

structure Origins where
  ifid : Origin
  idex : Origin

def nextOrigins (c : Cfg) (s : State) (i : Input) (t : ℕ) (o : Origins) : Origins where
  ifid :=
    if redirect c s i && !freeze c s i then .redirect t
    else if freeze c s i || frontHold c s i then o.ifid
    else if ifOk c s i then .fetched t
    else .starved t
  idex :=
    if !freeze c s i && !exHold c s i && (redirect c s i || loadUse s) then
      if redirect c s i then .redirect t else .loadUse t
    else if freeze c s i || exHold c s i then o.idex
    else o.ifid

def origins (r : Run c) : ℕ → Origins
  | 0 => ⟨.reset, .reset⟩
  | t + 1 => nextOrigins c (r.state t) (r.input t) t (origins r t)

/-- The origin was there: the fetch, the I-port wait, the redirect or the load-use stall
happened in the cycle it names. -/
def Origin.Sound (r : Run c) (t : ℕ) : Origin → Prop
  | .reset => True
  | .fetched u => u < t ∧ ifOk c (r.state u) (r.input u) = true
  | .starved u => u < t ∧ ifOk c (r.state u) (r.input u) = false ∧
      freeze c (r.state u) (r.input u) = false ∧ frontHold c (r.state u) (r.input u) = false
  | .redirect u => u < t ∧ Unified.redirect c (r.state u) (r.input u) = true
  | .loadUse u => u < t ∧ Unified.loadUse (r.state u) = true ∧
      exHold c (r.state u) (r.input u) = false ∧
      freeze c (r.state u) (r.input u) = false

def Origin.why : Origin → Why
  | .reset => .other
  | .fetched _ => .other
  | .starved _ => .fetch
  | .redirect _ => .flush
  | .loadUse _ => .loadUse

def Origin.isFetched : Origin → Bool
  | .fetched _ => true
  | _ => false

structure Accounted (r : Run c) (t : ℕ) (o : Origin) (valid : Bool) (why : Why) : Prop where
  sound : o.Sound r t
  fetched : valid = o.isFetched
  tagged : valid = false → why = o.why

variable {t : ℕ}

theorem Origin.Sound.mono {r : Run c} {o : Origin} (h : o.Sound r t) :
    o.Sound r (t + 1) := by
  cases o with
  | reset => trivial
  | fetched u | starved u | redirect u | loadUse u => exact ⟨by have := h.1; omega, h.2⟩

theorem Accounted.mono {r : Run c} {o : Origin} {valid : Bool} {why : Why}
    (h : Accounted r t o valid why) : Accounted r (t + 1) o valid why :=
  ⟨h.sound.mono, h.fetched, h.tagged⟩

theorem run_accounted (hz : c.zicntr = true) (r : Run c) (t : ℕ) :
    Accounted r t (origins r t).ifid (r.state t).ifid.valid (r.state t).counters.ifidWhy ∧
      Accounted r t (origins r t).idex (r.state t).idex.valid (r.state t).counters.idexWhy := by
  induction t with
  | zero =>
    obtain ⟨u, hu⟩ := r.starts
    rw [hu]
    exact ⟨⟨trivial, rfl, fun _ => rfl⟩, ⟨trivial, rfl, fun _ => rfl⟩⟩
  | succ t ih =>
    have hstep := run_step r t
    have hcnt : (step c (r.state t) (r.input t)).counters =
        nextCounters c (r.state t) (r.input t) := by
      simp [step, hz]
    rw [hstep, hcnt]
    simp only [origins, nextOrigins, nextCounters]
    obtain ⟨h1, h2⟩ := ih
    cases step_move c (r.state t) (r.input t) with
    | frozen hf _ hid hex _ _ =>
      have hr := (idle_of_not_exGo (not_exGo_of_freeze hf)).redirect
      simp only [hid, hex, relatched, hf, hr, Bool.false_and, Bool.not_true, Bool.true_or,
        Bool.false_eq_true, ↓reduceIte]
      exact ⟨h1.mono, h2.mono⟩
    | held hf hh _ hid hex _ _ =>
      have hr := (idle_of_not_exGo (not_exGo_of_hold hh)).redirect
      simp only [hid, hex, relatched, hf, hh, hr, frontHold, Bool.false_and, Bool.not_true,
        Bool.true_or, Bool.and_false, Bool.or_true, Bool.false_eq_true, ↓reduceIte]
      exact ⟨h1.mono, h2.mono⟩
    | flushed hg hr _ hid hex _ _ =>
      obtain ⟨-, hf, hh⟩ := exGo_inv hg
      simp only [hid, hex, hf, hh, hr, Bool.not_false, Bool.true_or, Bool.and_true, ↓reduceIte]
      exact ⟨⟨⟨Nat.lt_succ_self t, hr⟩, rfl, fun _ => rfl⟩,
        ⟨⟨Nat.lt_succ_self t, hr⟩, rfl, fun _ => rfl⟩⟩
    | bubbled hf hh hr hl _ hid hex _ _ =>
      simp only [hid, hex, hf, hh, hr, hl, frontHold, Bool.not_false, Bool.false_and, Bool.or_true,
        Bool.not_true, Bool.and_true, Bool.and_false, Bool.false_eq_true, ↓reduceIte]
      exact ⟨h1.mono, ⟨Nat.lt_succ_self t, hl, hh, hf⟩, rfl, fun _ => rfl⟩
    | advanced hf hh hr hl _ hid hex _ _ =>
      have hfront : frontHold c (r.state t) (r.input t) = false := by simp [frontHold, hh, hl]
      simp only [hid, hex, hf, hh, hr, hl, hfront, Bool.not_false, Bool.false_and, Bool.or_self,
        Bool.and_false, Bool.true_and, Bool.false_eq_true, ↓reduceIte]
      refine ⟨?_, h1.mono⟩
      cases ho : ifOk c (r.state t) (r.input t) with
      | true => exact ⟨⟨Nat.lt_succ_self t, ho⟩, rfl, by simp [fetched]⟩
      | false => exact ⟨⟨Nat.lt_succ_self t, ho, hf, hfront⟩, rfl, fun _ => rfl⟩

theorem bubble_moves (h : s.idex.valid = false) : exHold c s i = false ∧ loadUse s = false := by
  simp [exHold, exDwalk, exXlate, exMem, vWait, fenceiWait, loadUse, h]

theorem reset_fill (hz : c.zicntr = true) (r : Run c) (t : ℕ) :
    ((origins r t).ifid = .reset → ∀ u ≤ t, (origins r u).idex = .reset) ∧
      ((origins r t).idex = .reset → ∀ u ≤ t, (origins r u).idex = .reset) := by
  induction t with
  | zero =>
    have h0 : ∀ u ≤ 0, (origins r u).idex = .reset := by
      intro u hu
      obtain rfl : u = 0 := by omega
      rfl
    exact ⟨fun _ => h0, fun _ => h0⟩
  | succ t ih =>
    have hlater (h : ∀ u ≤ t, (origins r u).idex = .reset)
        (hx : (origins r (t + 1)).idex = .reset) : ∀ u ≤ t + 1, (origins r u).idex = .reset := by
      intro u hu
      obtain hu | rfl := Nat.le_succ_iff.mp hu
      · exact h u hu
      · exact hx
    constructor
    · intro h
      simp only [origins, nextOrigins] at h
      split_ifs at h with h1 h2
      have hold := ih.1 h
      have hv : (r.state t).idex.valid = false := by
        rw [(run_accounted hz r t).2.fetched, hold t le_rfl]
        rfl
      obtain ⟨hh, hl⟩ := bubble_moves (c := c) (i := r.input t) hv
      have hf : freeze c (r.state t) (r.input t) = true := by
        simpa [frontHold, hh, hl] using h2
      refine hlater hold ?_
      simp [origins, nextOrigins, hf, hold t le_rfl]
    · intro h
      refine hlater ?_ h
      simp only [origins, nextOrigins] at h
      split_ifs at h with h1 h2 h3
      · exact ih.2 h
      · exact ih.1 h

/-- Each running cycle has one class, and every counted bubble has the origin its class names. -/
structure Accounts (r : Run c) : Prop where
  classes : ∀ t, (r.input t).halt = false →
    ∃! k : CycleClass, k.signal c (r.state t) (r.input t) = true
  fill : ∀ t, CycleClass.fill.signal c (r.state t) (r.input t) = true →
    ∀ u ≤ t, (origins r u).idex = .reset ∧ (r.state u).idex.valid = false
  loadUse : ∀ t, cntEvent c (r.state t) (r.input t) 3 = true →
    ∃ u, (origins r t).idex = .loadUse u ∧ (origins r t).idex.Sound r t
  flush : ∀ t, cntEvent c (r.state t) (r.input t) 4 = true →
    ∃ u, (origins r t).idex = .redirect u ∧ (origins r t).idex.Sound r t
  fetch : ∀ t, cntEvent c (r.state t) (r.input t) 5 = true →
    ∃ u, (origins r t).idex = .starved u ∧ (origins r t).idex.Sound r t

theorem bubble_origin (hz : c.zicntr = true) (r : Run c) {w : Why}
    (h : (isBubble c (r.state t) (r.input t) && (r.state t).counters.idexWhy == w) = true) :
    (origins r t).idex.why = w ∧ (origins r t).idex.isFetched = false ∧
      (origins r t).idex.Sound r t := by
  have hx := (run_accounted hz r t).2
  simp only [isBubble, Bool.and_eq_true, Bool.not_eq_true', beq_iff_eq] at h
  exact ⟨(hx.tagged h.1.2).symm.trans h.2, hx.fetched.symm.trans h.1.2, hx.sound⟩

/-- Cycle accounting of the unified core with counters. -/
theorem cycles_accounted (c : Cfg) (hz : c.zicntr = true) (r : Run c) : Accounts r where
  classes t h := cycle_class h
  fill t h := by
    obtain ⟨hy, hn, -⟩ := bubble_origin hz r h
    have ho : (origins r t).idex = .reset := by
      cases ho : (origins r t).idex <;> simp_all [Origin.why, Origin.isFetched]
    intro u hu
    have hu := (reset_fill hz r t).2 ho u hu
    exact ⟨hu, by rw [(run_accounted hz r u).2.fetched, hu]; rfl⟩
  loadUse t h := by
    obtain ⟨hy, -, hs⟩ := bubble_origin hz r h
    cases ho : (origins r t).idex with
    | loadUse u => exact ⟨u, rfl, ho ▸ hs⟩
    | reset | fetched u | starved u | redirect u => simp [ho, Origin.why] at hy
  flush t h := by
    obtain ⟨hy, -, hs⟩ := bubble_origin hz r h
    cases ho : (origins r t).idex with
    | redirect u => exact ⟨u, rfl, ho ▸ hs⟩
    | reset | fetched u | starved u | loadUse u => simp [ho, Origin.why] at hy
  fetch t h := by
    obtain ⟨hy, -, hs⟩ := bubble_origin hz r h
    cases ho : (origins r t).idex with
    | starved u => exact ⟨u, rfl, ho ▸ hs⟩
    | reset | fetched u | redirect u | loadUse u => simp [ho, Origin.why] at hy

def loadUseImage (a : Word) : Word :=
  if a = 0#32 then 0x00002083#32
  else if a = 4#32 then 0x00008113#32
  else 0x0000006f#32

def Cfg.counting : Cfg := { Cfg.bare with zicntr := true }

def loadUseRun : Run Cfg.counting :=
  benchRun Cfg.counting loadUseImage (fun t => t != 3) (fun _ => true)

def inClass (t : ℕ) (k : CycleClass) : Bool :=
  k.signal Cfg.counting (loadUseRun.state t) (loadUseRun.input t)

/-- Two cycles fill the pipe, then the load, its bubble, its consumer and the bubble of the
I-port pass EX. -/
theorem loadUseRun_accounted :
    Accounts loadUseRun ∧ inClass 0 .fill = true ∧ inClass 1 .fill = true ∧
      inClass 2 .retire = true ∧ inClass 3 .loadUse = true ∧ inClass 4 .retire = true ∧
      inClass 5 .fetch = true :=
  ⟨cycles_accounted _ rfl _, by decide +kernel⟩

end RiscvScratch.Unified
