import RiscvScratch.Spartan6.Cycle

/-! The counters of the Spartan-6 core. A CSR instruction that only reads a machine counter writes
back what it read, and the count of that cycle is lost. -/
namespace RiscvScratch

namespace S6Csr

/-- `mcycle`, `mcycleh`, `minstret` and `minstreth`. -/
def isMachineCounter (addr : BitVec 12) : Bool :=
  [0xB00#12, 0xB80#12, 0xB02#12, 0xB82#12].contains addr

section
variable (p : Params) (s : State)
include p s

theorem write_counters {addr : BitVec 12} (w : Word)
    (h : isMachineCounter addr = false) :
    (write p s addr w).mcycle = s.mcycle ∧ (write p s addr w).minstret = s.minstret := by
  have h' : addr ≠ 0xB00#12 ∧ addr ≠ 0xB80#12 ∧ addr ≠ 0xB02#12 ∧ addr ≠ 0xB82#12 := by
    simpa [isMachineCounter] using h
  obtain ⟨h₁, h₂, h₃, h₄⟩ := h'
  simp only [write, apply_ite State.mcycle, apply_ite State.minstret, if_neg h₁, if_neg h₂,
    if_neg h₃, if_neg h₄, ite_self, and_self]

theorem step_written (l : Lines) (k : Command) :
    (step p s l k).mcycle = (written p s l k).mcycle ∧
      (step p s l k).minstret = (written p s l k).minstret := by
  unfold step
  split_ifs <;> exact ⟨rfl, rfl⟩

theorem step_counts (l : Lines) (k : Command)
    (hi : s.mcountinhibit = 0#3) (hk : k.we = true → isMachineCounter k.addr = false) :
    (step p s l k).mcycle = s.mcycle + 1#64 ∧
      (step p s l k).minstret = if k.retire then s.minstret + 1#64 else s.minstret := by
  obtain ⟨hc, hr⟩ := step_written p s l k
  have ht : (tick s k.retire).mcycle = s.mcycle + 1#64 ∧
      (tick s k.retire).minstret = if k.retire then s.minstret + 1#64 else s.minstret := by
    simp [tick, hi]
  rw [hc, hr, written]
  by_cases hw : (k.we && !illegal s k.addr k.access k.willWrite) = true
  · obtain ⟨hc', hr'⟩ := write_counters p (tick s k.retire)
      (wdata p s l k.addr k.f3 k.wsrc) (hk (Bool.and_eq_true_iff.mp hw).1)
    rw [if_pos hw, hc', hr']
    exact ht
  · rw [if_neg hw]
    exact ht

theorem write_inhibit {addr : BitVec 12} (w : Word)
    (h : addr ≠ 0x320#12) : (write p s addr w).mcountinhibit = s.mcountinhibit := by
  simp only [write, apply_ite State.mcountinhibit, if_neg h, ite_self]

theorem step_inhibit (l : Lines) {k : Command} (hk : k.addr ≠ 0x320#12) :
    (step p s l k).mcountinhibit = s.mcountinhibit := by
  have hw : (written p s l k).mcountinhibit = s.mcountinhibit := by
    unfold written
    split_ifs
    · exact write_inhibit p _ _ hk
    · rfl
  unfold step
  split_ifs <;> exact hw

end

end S6Csr

namespace S6Core

/-- A CSR instruction that takes effect in this cycle names a machine counter. -/
def accessesCounter (p : Params) (s : State) (i : Input) : Bool :=
  (csrCommand p s i).we && S6Csr.isMachineCounter (f12 (instr p s i))

/-- Where no instruction names a machine counter, `mcycle` counts the clocks and `minstret` the
instructions. -/
theorem counters_elapse (p : Params) (r : Run p)
    (hinh : ∀ t, (r.state t).csr.mcountinhibit = 0#3)
    (hacc : ∀ t, accessesCounter p (r.state t) (r.input t) = false) (t : ℕ) :
    (r.state t).csr.mcycle = BitVec.ofNat 64 t ∧
      (r.state t).csr.minstret =
        BitVec.ofNat 64 (Clocked.count (fun u => retireOut p (r.state u) (r.input u)) t) := by
  induction t with
  | zero =>
    obtain ⟨regs, h⟩ := r.starts
    rw [h]
    exact ⟨rfl, rfl⟩
  | succ t ih =>
    have hk : (csrCommand p (r.state t) (r.input t)).we = true →
        S6Csr.isMachineCounter (csrCommand p (r.state t) (r.input t)).addr = false := by
      intro hw
      have ha := hacc t
      rwa [accessesCounter, hw, Bool.true_and] at ha
    obtain ⟨hc, hr⟩ := S6Csr.step_counts p.csr (r.state t).csr (r.input t).lines
      (csrCommand p (r.state t) (r.input t)) (hinh t) hk
    have hs : (r.state (t + 1)).csr = S6Csr.step p.csr (r.state t).csr (r.input t).lines
        (csrCommand p (r.state t) (r.input t)) := by
      rw [r.steps]
      rfl
    rw [hs, hc, hr, ih.1, ih.2]
    refine ⟨by rw [← BitVec.ofNat_add], ?_⟩
    rw [Clocked.count]
    cases hret : retireOut p (r.state t) (r.input t) with
    | false => simp [csrCommand, hret]
    | true => simp [csrCommand, hret, ← BitVec.ofNat_add]

def plainParams : Params := ⟨⟨0#32, true, true, false, true, 0#32⟩, true, true⟩

def repeated (w : Word) : Run plainParams :=
  (machine plainParams).runOf (fun _ _ => ⟨w, 0#32, true, ⟨false, false, false, 0#64⟩, false⟩)
    (reset plainParams fun _ => 0#32) ⟨_, rfl⟩

theorem repeated_instr (w : Word) (t : ℕ) :
    instr plainParams ((repeated w).state t) ((repeated w).input t) = w :=
  instr_noC rfl (repeated w) (fun _ => rfl) t

theorem repeated_inhibit {w : Word} (hw : f12 w ≠ 0x320#12) (t : ℕ) :
    ((repeated w).state t).csr.mcountinhibit = 0#3 := by
  induction t with
  | zero => rfl
  | succ t ih =>
    rw [(repeated w).steps, ← ih]
    apply S6Csr.step_inhibit
    rw [csrCommand, repeated_instr]
    exact hw

/-- A million clocks of `addi x0, x0, 0`. -/
theorem nops_counted : ((repeated 0x00000013#32).state 1000000).csr.mcycle = 1000000#64 :=
  (counters_elapse plainParams (repeated 0x00000013#32) (repeated_inhibit (by decide)) (fun t => by
    rw [accessesCounter, repeated_instr]
    exact Bool.and_false _) 1000000).1

/-- `csrrs x1, mcycle, x0` writes nothing, and after it `mcycle` is a clock behind. -/
theorem cycle_read_loses : (∀ t, ((repeated 0xB00020F3#32).state t).csr.mcountinhibit = 0#3) ∧
    (∀ t, csrWrite (instr plainParams ((repeated 0xB00020F3#32).state t)
      ((repeated 0xB00020F3#32).input t)) = false) ∧
    ((repeated 0xB00020F3#32).state 2).csr.mcycle = 1#64 := by
  refine ⟨repeated_inhibit (by decide), fun t => ?_, by decide +kernel⟩
  rw [repeated_instr]
  decide

end S6Core

end RiscvScratch
