import RiscvScratch.Clocked.Machine
import RiscvScratch.Unified.Csr

/-! Which interrupt is taken, and who takes it. Eligibility treats the machine-level sources as not
delegable; delivery looks at `mideleg`, which is writable. -/
namespace RiscvScratch.Csr

/-- `csr_s` on its own: any sequence of writes, traps and returns. -/
def machine (p : Params) : Clocked.Machine State Command where
  init s := s = reset p
  step := step p

abbrev Run (p : Params) := (machine p).Run

/-- MEI, MSI, MTI, SEI, SSI, STI. -/
def sources : List ℕ := [11, 3, 7, 9, 1, 5]

def machineLevel (k : ℕ) : Bool := k == 11 || k == 3 || k == 7

/-- The privilege that source `k` is for. -/
def target (p : Params) (s : State) (k : ℕ) : BitVec 2 :=
  if p.hasS && !machineLevel k && s.mideleg.getLsbD k then privS else privM

/-- Interrupts for `level` are globally enabled. -/
def globallyEnabled (s : State) (level : BitVec 2) : Bool :=
  s.priv.ult level || (s.priv == level && s.mstatus.getLsbD (if level = privM then 3 else 1))

/-- Pending, enabled and globally enabled for its target. -/
def eligible (p : Params) (s : State) (l : Lines) (k : ℕ) : Bool :=
  s.mie.getLsbD k && (mip s l).getLsbD k && globallyEnabled s (target p s k)

/-- Bit 31 and the number of the source. -/
def causeOf (k : ℕ) : Word := 0x80000000#32 ||| BitVec.ofNat 32 k

/-- The trap `k` with the cause of a pending interrupt is delivered as it should be. -/
structure Delivered (p : Params) (s : State) (l : Lines) (k : Command) : Prop where
  machine : irqCause s l = causeOf 11 ∨ irqCause s l = causeOf 3 ∨ irqCause s l = causeOf 7 →
    (step p s k).priv = privM
  toM : (step p s k).priv = privM → s.priv.ult privM = true ∨ s.mstatus.getLsbD 3 = true
  toS : (step p s k).priv = privS →
    s.priv = privU ∨ s.priv = privS ∧ s.mstatus.getLsbD 1 = true
  first : ∃ n, sources.find? (eligible p s l) = some n ∧ irqCause s l = causeOf n

variable {p : Params} {s : State} {l : Lines} {k : Command}

theorem globallyEnabled_M : globallyEnabled s privM = globM s := rfl

theorem globallyEnabled_S : globallyEnabled s privS = globS s := rfl

variable {n : ℕ}

theorem firesM_eq (h : machineLevel n = true) : firesM s l n = eligible p s l n := by
  simp [firesM, raised, eligible, target, h, globallyEnabled_M]

/-- The other sources are for the privilege that `mideleg` says, if there is an S-mode. -/
theorem firesS_eq (h : machineLevel n = false) (hd : p.hasS = false → s.mideleg = 0#32) :
    firesS s l n = eligible p s l n := by
  cases hs : p.hasS with
  | false => simp [firesS, raised, eligible, target, hs, hd hs, globallyEnabled_M]
  | true =>
    cases hm : s.mideleg.getLsbD n <;>
      simp [firesS, raised, eligible, target, hs, h, hm, globallyEnabled_M, globallyEnabled_S]

theorem irqCause_first (hd : p.hasS = false → s.mideleg = 0#32) (h : irqPending s l = true) :
    ∃ n ∈ sources, sources.find? (eligible p s l) = some n ∧ eligible p s l n = true ∧
      irqCause s l = causeOf n := by
  simp only [irqPending, irqCause, firesM_eq (p := p) (show machineLevel 11 = true from rfl),
    firesM_eq (p := p) (show machineLevel 3 = true from rfl),
    firesM_eq (p := p) (show machineLevel 7 = true from rfl),
    firesS_eq (show machineLevel 9 = false from rfl) hd,
    firesS_eq (show machineLevel 1 = false from rfl) hd,
    firesS_eq (show machineLevel 5 = false from rfl) hd, Bool.or_eq_true] at h ⊢
  simp only [sources, List.find?_cons]
  cases h11 : eligible p s l 11
  · cases h3 : eligible p s l 3
    · cases h7 : eligible p s l 7
      · cases h9 : eligible p s l 9
        · cases h1 : eligible p s l 1
          · have h5 : eligible p s l 5 = true := by simpa [h11, h3, h7, h9, h1] using h
            exact ⟨5, by simp, by simp [h5], h5, rfl⟩
          · exact ⟨1, by simp, rfl, h1, rfl⟩
        · exact ⟨9, by simp, rfl, h9, rfl⟩
      · exact ⟨7, by simp, rfl, h7, rfl⟩
    · exact ⟨3, by simp, rfl, h3, rfl⟩
  · exact ⟨11, by simp, rfl, h11, rfl⟩

theorem step_trap_priv (h : k.takeTrap = true) :
    (step p s k).priv = if deleg p s k.trapCause then privS else privM := by
  have hst : (step p s k).priv = (commit p s k).priv := rfl
  rw [hst, commit, if_pos h, trapEnter]
  split_ifs <;> rfl

theorem deleg_causeOf (h : n ∈ sources) :
    deleg p s (causeOf n) = (p.hasS && s.priv != privM && s.mideleg.getLsbD n) := by
  simp only [sources, List.mem_cons, List.not_mem_nil, or_false] at h
  obtain rfl | rfl | rfl | rfl | rfl | rfl := h <;> rfl

theorem run_mideleg (r : Run p) (hs : p.hasS = false) (t : ℕ) : (r.state t).mideleg = 0#32 := by
  refine r.invariant (fun _ => True) (fun s => s.mideleg = 0#32) ?_ ?_ (fun _ => trivial) t
  · rintro s rfl
    rfl
  · intro s k _ h
    have hst : (step p s k).mideleg = (commit p s k).mideleg := rfl
    change (step p s k).mideleg = 0#32
    rw [hst]
    unfold commit
    split_ifs
    · unfold trapEnter
      split_ifs <;> exact h
    · exact h
    · exact h
    · have hw : (write p s k.addr k.wsrc k.funct3).mideleg = s.mideleg := by
        unfold write
        simp only [apply_ite State.mideleg, hs, Bool.false_eq_true, ↓reduceIte, ite_self]
      rw [hw, h]
    · exact h

/-- An interrupt trap is delivered to its target, which may then be interrupted, as long as no
machine-level source is delegated. -/
theorem irq_delivered (p : Params) (r : Run p) (t : ℕ) (l : Lines)
    (hk : (r.input t).takeTrap = true) (hi : irqPending (r.state t) l = true)
    (hc : (r.input t).trapCause = irqCause (r.state t) l)
    (hd : ∀ n, machineLevel n = true → (r.state t).mideleg.getLsbD n = false) :
    Delivered p (r.state t) l (r.input t) := by
  generalize hs : r.state t = s at *
  have hzero : p.hasS = false → s.mideleg = 0#32 := fun h => hs ▸ run_mideleg r h t
  obtain ⟨n, hn, hfind, hel, hcause⟩ := irqCause_first hzero hi
  have hpriv : (step p s (r.input t)).priv = if p.hasS && s.priv != privM && s.mideleg.getLsbD n
      then privS else privM := by
    rw [step_trap_priv hk, hc, hcause, deleg_causeOf hn]
  simp only [eligible, Bool.and_eq_true] at hel
  have hen := hel.2
  refine ⟨fun hm => ?_, fun hM => ?_, fun hS => ?_, n, hfind, hcause⟩
  · have hlevel : machineLevel n = true := by
      rw [hcause] at hm
      simp only [sources, List.mem_cons, List.not_mem_nil, or_false] at hn
      obtain rfl | rfl | rfl | rfl | rfl | rfl := hn <;> revert hm <;> decide
    rw [hpriv, hd n hlevel, Bool.and_false]
    rfl
  · have hno : (p.hasS && s.priv != privM && s.mideleg.getLsbD n) = false := by
      by_contra hx
      rw [hpriv, Bool.eq_true_of_not_eq_false hx] at hM
      exact absurd hM (by decide)
    unfold target at hen
    split_ifs at hen with ht
    · -- a source of S does not fire in M
      simp only [Bool.and_eq_true, Bool.not_eq_true'] at ht
      have hp : s.priv = privM := by simpa [ht] using hno
      rw [globallyEnabled, hp] at hen
      exact absurd hen (by simp [privM, privS])
    · simp only [globallyEnabled, Bool.or_eq_true, Bool.and_eq_true, ↓reduceIte] at hen
      exact hen.imp_right And.right
  · have hyes : (p.hasS && s.priv != privM && s.mideleg.getLsbD n) = true := by
      by_contra hx
      rw [hpriv, Bool.eq_false_of_not_eq_true hx] at hS
      exact absurd hS (by decide)
    simp only [Bool.and_eq_true] at hyes
    have hlevel : machineLevel n = false := by
      by_contra hx
      simp [hd n (Bool.eq_true_of_not_eq_false hx)] at hyes
    have ht : target p s n = privS := by simp [target, hyes, hlevel]
    simp only [ht, globallyEnabled, show privS ≠ privM by decide, ↓reduceIte, Bool.or_eq_true,
      Bool.and_eq_true, beq_iff_eq] at hen
    refine hen.imp_left fun hlt => ?_
    revert hlt
    generalize s.priv = q
    revert q
    decide

/-- M-mode delegates `irqs` and returns to an S-mode with interrupts off; the trap is taken in cycle
4. -/
def setup (irqs : Word) (cause : Word) (t : ℕ) (_ : State) : Command :=
  match t with
  | 0 => ⟨false, 0#32, 0#32, 0#32, false, false, true, midelegA, irqs, 0b001#3, false⟩
  | 1 => ⟨false, 0#32, 0#32, 0#32, false, false, true, mieA, 0xA00#32, 0b001#3, false⟩
  | 2 => ⟨false, 0#32, 0#32, 0#32, false, false, true, mstatusA, 0x800#32, 0b001#3, false⟩
  | 3 => ⟨false, 0#32, 0#32, 0#32, true, false, false, 0#12, 0#32, 0b000#3, false⟩
  | _ => ⟨true, 0#32, cause, 0#32, false, false, false, 0#12, 0#32, 0b000#3, false⟩

def setupRun (irqs cause : Word) : Run ⟨true, true, true, false⟩ :=
  (machine _).runOf (setup irqs cause) (reset _) rfl

/-- Only SEI is delegated, and the external interrupt of M goes to M. -/
theorem setup_delivered :
    Delivered ⟨true, true, true, false⟩ ((setupRun 0x200#32 0x8000000B#32).state 4)
      ⟨false, true, true⟩ ((setupRun 0x200#32 0x8000000B#32).input 4) := by
  apply irq_delivered
  · decide
  · decide
  · decide
  · intro n hn
    simp only [machineLevel, Bool.or_eq_true, beq_iff_eq] at hn
    obtain (rfl | rfl) | rfl := hn <;> decide

/-- With `mideleg[11]` set the external interrupt of M is delivered to S, although S has its
interrupts off. -/
theorem machine_irq_delegated : let s := (setupRun 0x800#32 0x8000000B#32).state 4
    let k := (setupRun 0x800#32 0x8000000B#32).input 4
    let l : Lines := ⟨false, true, false⟩
    (k.takeTrap = true ∧ irqPending s l = true ∧ k.trapCause = irqCause s l) ∧
    (irqCause s l = causeOf 11 ∧ s.priv = privS ∧ s.mstatus.getLsbD 1 = false ∧
      (step ⟨true, true, true, false⟩ s k).priv = privS) ∧
    ¬ Delivered ⟨true, true, true, false⟩ s l k := by
  refine ⟨by decide, by decide, fun h => ?_⟩
  exact absurd (h.machine (.inl (by decide))) (by decide)

end RiscvScratch.Csr
