import Mathlib.Data.BitVec
import RiscvScratch.Queue.Ring
import RiscvScratch.Spartan6.Uart

/-! What the Spartan-6 UART transmits: the bytes written to it, oldest first. -/
namespace RiscvScratch.S6Uart

open Queue

namespace Fifo

variable {α : Type*} {w : ℕ} {f : Fifo α w}

def contents (f : Fifo α w) : List α := segment f.mem (f.rptr.setWidth w) f.level.toNat

def Ok (f : Fifo α w) : Prop := f.level.toNat ≤ 2 ^ w

theorem empty_iff : f.empty = true ↔ f.level.toNat = 0 := by
  rw [empty, level, beq_iff_eq, ← sub_eq_zero, ← BitVec.toNat_inj]
  rfl

theorem top_of_add {a b : BitVec (w + 1)} (h : a.toNat = b.toNat + 2 ^ w) :
    a.setWidth w = b.setWidth w ∧ a.getLsbD w ≠ b.getLsbD w := by
  have ha := a.isLt
  have hpow : 2 ^ (w + 1) = 2 ^ w + 2 ^ w := by rw [Nat.pow_succ]; omega
  constructor
  · apply BitVec.eq_of_toNat_eq
    rw [BitVec.toNat_setWidth, BitVec.toNat_setWidth, h, Nat.add_mod_right]
  · have hb : b.toNat / 2 ^ w = 0 := Nat.div_eq_of_lt (by omega)
    have hdiv : a.toNat / 2 ^ w = 1 := by
      rw [h, Nat.add_div_right _ (Nat.two_pow_pos w), hb]
    simp [BitVec.getLsbD, Nat.testBit_eq_decide_div_mod_eq, hb, hdiv]

theorem full_of_level (h : f.level.toNat = 2 ^ w) : f.full = true := by
  have hw := f.wptr.isLt
  have hr := f.rptr.isLt
  have hpow : 2 ^ (w + 1) = 2 ^ w + 2 ^ w := by rw [Nat.pow_succ]; omega
  rw [level, BitVec.toNat_sub] at h
  have hcase : f.wptr.toNat = f.rptr.toNat + 2 ^ w ∨ f.rptr.toNat = f.wptr.toNat + 2 ^ w := by
    have hpos : 0 < 2 ^ w := Nat.two_pow_pos w
    rw [hpow] at h hw hr
    generalize 2 ^ w = d at *
    rcases Nat.lt_or_ge f.wptr.toNat f.rptr.toNat with hlt | hge
    · rw [Nat.mod_eq_of_lt (by omega)] at h
      omega
    · rw [show d + d - f.rptr.toNat + f.wptr.toNat = (f.wptr.toNat - f.rptr.toNat) + (d + d) by
        omega, Nat.add_mod_right, Nat.mod_eq_of_lt (by omega)] at h
      omega
  unfold full
  rcases hcase with h | h
  · obtain ⟨hlow, htop⟩ := top_of_add h
    rw [hlow, beq_self_eq_true, Bool.true_and, bne_iff_ne]
    exact htop
  · obtain ⟨hlow, htop⟩ := top_of_add h
    rw [hlow, beq_self_eq_true, Bool.true_and, bne_iff_ne]
    exact htop.symm

theorem level_lt (hok : f.Ok) (h : f.full = false) : f.level.toNat < 2 ^ w :=
  lt_of_le_of_ne hok fun heq => by simp [full_of_level heq] at h

variable (x : α) {wr rd : Bool}

def puts (f : Fifo α w) (wr : Bool) : Bool := wr && !f.full
def takes (f : Fifo α w) (rd : Bool) : Bool := rd && !f.empty

theorem puts_room (hok : f.Ok) (h : f.puts wr = true) : f.level.toNat < 2 ^ w := by
  simp [puts] at h
  exact level_lt hok h.2

theorem takes_some (h : f.takes rd = true) : 0 < f.level.toNat := by
  simp [takes] at h
  exact Nat.pos_of_ne_zero fun h0 => by simp [empty_iff.mpr h0] at h

theorem level_step (hok : f.Ok) : (f.step false wr x rd).level.toNat =
    f.level.toNat + (f.puts wr).toNat - (f.takes rd).toNat := by
  have hpow : 2 ^ (w + 1) = 2 ^ w + 2 ^ w := by rw [Nat.pow_succ]; omega
  have hone : (1 : BitVec (w + 1)).toNat = 1 := BitVec.toNat_one (Nat.succ_pos w)
  have heq : (f.step false wr x rd).level =
      f.level + (if f.puts wr then 1 else 0) - (if f.takes rd then 1 else 0) := by
    simp only [level, step, Bool.false_eq_true, if_false]
    change (if f.puts wr = true then _ else _) - (if f.takes rd = true then _ else _) = _
    split_ifs <;> ring
  have hadd : f.puts wr = true → (f.level + 1).toNat = f.level.toNat + 1 := by
    intro h
    rw [BitVec.toNat_add_of_lt (by rw [hone]; have := puts_room hok h; omega), hone]
  rw [heq]
  cases hp : f.puts wr <;> cases ht : f.takes rd
  · simp
  · have := takes_some ht
    simp only [Bool.false_eq_true, if_false, if_true, add_zero, Bool.toNat_false, Bool.toNat_true]
    rw [BitVec.toNat_sub_of_le (by rw [BitVec.le_def, hone]; omega), hone]
  · simpa using hadd hp
  · simp

theorem step_ok (hok : f.Ok) (clr : Bool) : (f.step clr wr x rd).Ok := by
  cases clr with
  | true => simp [Ok, step, level]
  | false =>
    have hle : f.level.toNat ≤ 2 ^ w := hok
    unfold Ok
    rw [level_step x hok]
    cases hp : f.puts wr with
    | false =>
      rw [Bool.toNat_false]
      omega
    | true =>
      have := puts_room hok hp
      rw [Bool.toNat_true]
      omega

theorem wptr_eq (f : Fifo α w) :
    f.wptr.setWidth w = f.rptr.setWidth w + BitVec.ofNat w f.level.toNat := by
  have h : f.wptr = f.rptr + f.level := by rw [level]; ring
  conv_lhs => rw [h, BitVec.setWidth_add _ _ (Nat.le_succ w)]
  rw [BitVec.ofNat_toNat]

theorem contents_step (hok : f.Ok) (clr wr rd : Bool) :
    (f.step clr wr x rd).contents =
      Queue.step f.contents ⟨if f.puts wr then some x else none, f.takes rd, clr⟩ := by
  cases clr with
  | true => simp [contents, step, level, Queue.step]
  | false =>
    have hseg := segment_step f.mem (f.rptr.setWidth w) x
      (fun h : f.puts wr = true => puts_room hok h) (fun h : f.takes rd = true => takes_some h)
    rw [contents, level_step x hok]
    rw [← wptr_eq] at hseg
    have hrd : (f.step false wr x rd).rptr.setWidth w =
        if f.takes rd then f.rptr.setWidth w + 1 else f.rptr.setWidth w := by
      change (if f.takes rd = true then f.rptr + 1 else f.rptr).setWidth w = _
      split_ifs
      · rw [BitVec.setWidth_add _ _ (Nat.le_succ w)]
        congr 1
        exact BitVec.setWidth_ofNat_of_le (Nat.le_succ w) 1
      · rfl
    rw [hrd]
    refine hseg.trans ?_
    unfold Queue.step contents
    cases f.puts wr <;> rfl

theorem head_contents (h : f.empty = false) : f.contents.head? = some f.rdata := by
  obtain ⟨k, hk⟩ : ∃ k, f.level.toNat = k + 1 := Nat.exists_eq_succ_of_ne_zero fun h0 => by
    simp [empty_iff.mpr h0] at h
  rw [contents, hk, segment_succ, List.head?_cons, rdata]

end Fifo

section Step

variable {w : ℕ} {s : State w} {i : Input}

/-- A clear of the transmit FIFO does not fall on a decision to start. -/
def ClearsBetweenStarts (s : State w) (i : Input) : Prop :=
  txfClr i = true → ¬(txStart s i = true ∧ s.txStartQ = false)

structure Ready (s : State w) : Prop where
  ok : s.txf.Ok
  idle : s.txStartQ = true → s.tx.st = .idle
  some : s.txStartQ = true → s.txf.empty = false

theorem reset_ready (d : BitVec 20) (txm rxm : BitVec w → BitVec 8) (v : BitVec 32) :
    Ready (reset d txm rxm v) := by
  refine ⟨?_, ?_, ?_⟩
  · simp [Fifo.Ok, Fifo.level, reset]
  · intro h
    simp [reset] at h
  · intro h
    simp [reset] at h

theorem Tx.idle_step {x : Tx} {j : TxInput} (h : x.st = .idle) (hs : j.send = false) :
    (x.step j).st = .idle := by
  simp [Tx.step, h, hs]

theorem Fifo.nonempty_step {α : Type*} {f : Fifo α w} {wr : Bool} {x : α} (hok : f.Ok)
    (h : f.empty = false) : (f.step false wr x false).empty = false := by
  rw [← Bool.not_eq_true, Fifo.empty_iff] at h ⊢
  rw [Fifo.level_step x hok, show f.takes false = false from rfl]
  simp
  omega

theorem step_ready (h : Ready s) (hclr : ClearsBetweenStarts s i) : Ready (step s i) := by
  have hq : (step s i).txStartQ = true → txStart s i = true ∧ s.txStartQ = false := by
    intro hq
    simpa [step] using hq
  refine ⟨Fifo.step_ok _ h.ok _, ?_, ?_⟩
  · intro hq'
    obtain ⟨hstart, hoff⟩ := hq hq'
    have hidle : s.tx.st = .idle := by
      simp [txStart, Tx.busy] at hstart
      exact hstart.1.1.2
    exact Tx.idle_step hidle hoff
  · intro hq'
    have hboth := hq hq'
    have hno : txfClr i = false := by
      by_contra hc
      exact hclr (by simpa using hc) hboth
    have hne : s.txf.empty = false := by
      have hstart := hboth.1
      simp [txStart] at hstart
      exact hstart.1.2
    change (s.txf.step (txfClr i) (txfPush i) (i.wdata.setWidth 8) s.txStartQ).empty = false
    rw [hno, hboth.2]
    exact Fifo.nonempty_step h.ok hne

end Step

section Runs

variable {w : ℕ} {d : BitVec 20} (r : Run w d)

def started (t : ℕ) : Option (BitVec 8) := (r.state t).tx.starts (txInput (r.state t))

/-- The transmit FIFO's cycles: writes of RXTX that find room, frames started, clears. -/
def txOps (t : ℕ) : Op (BitVec 8) where
  push :=
    if (r.state t).txf.puts (txfPush (r.input t)) then some ((r.input t).wdata.setWidth 8) else none
  pop := (started r t).isSome
  clear := txfClr (r.input t)

variable (hclr : ∀ t, ClearsBetweenStarts (r.state t) (r.input t))
include hclr

theorem run_ready (t : ℕ) : Ready (r.state t) := by
  induction t with
  | zero =>
    obtain ⟨txm, rxm, v, h⟩ := r.starts
    rw [h]
    exact reset_ready d txm rxm v
  | succ t ih =>
    rw [r.steps]
    exact step_ready ih (hclr t)

theorem started_eq (t : ℕ) : started r t =
    if (r.state t).txStartQ then some (r.state t).txf.rdata else none := by
  unfold started Tx.starts
  cases hq : (r.state t).txStartQ with
  | false => simp [txInput, hq]
  | true => simp [txInput, hq, (run_ready r hclr t).idle hq]

theorem started_takes (t : ℕ) :
    (started r t).isSome = (r.state t).txf.takes (r.state t).txStartQ := by
  rw [started_eq r hclr, Fifo.takes]
  cases hq : (r.state t).txStartQ with
  | false => rfl
  | true => simp [(run_ready r hclr t).some hq]

theorem tx_contents (t : ℕ) :
    (r.state (t + 1)).txf.contents = Queue.step (r.state t).txf.contents (txOps r t) := by
  have h := Fifo.contents_step ((r.input t).wdata.setWidth 8) (run_ready r hclr t).ok
    (txfClr (r.input t)) (txfPush (r.input t)) (r.state t).txStartQ
  rw [← started_takes r hclr] at h
  rw [r.steps]
  exact h

/-- The frames carry the bytes accepted into the FIFO, oldest first and each once, as long as no
clear falls on a decision to start. -/
theorem transmits_written : ∃ src, Serves (txOps r) src (fun t => (started r t).getD 0)
      fun t => (r.state t).txf.level.toNat := by
  have h0 : (r.state 0).txf.contents = [] := by
    obtain ⟨txm, rxm, v, h⟩ := r.starts
    rw [h]
    simp [reset, Fifo.contents, Fifo.level]
  have hserves := serves_of_contents (fun t => (r.state t).txf.contents)
    (fun t => (started r t).getD 0) h0 (tx_contents r hclr) ?_
  · refine ⟨source (txOps r), ?_⟩
    simpa only [Fifo.contents, length_segment] using hserves
  · intro t hp
    have hp' : (started r t).isSome = true := hp
    have hq : (r.state t).txStartQ = true := by
      by_contra hq
      simp [started_eq r hclr, hq] at hp'
    rw [started_eq r hclr, if_pos hq]
    exact Fifo.head_contents ((run_ready r hclr t).some hq)

end Runs

def writeReg (a : BitVec 8) (v : BitVec 32) : Input := ⟨true, false, 0xF, a, v, true, false⟩
def quiet : Input := ⟨false, false, 0, 0, 0, true, false⟩

def oneByte : ℕ → Input
  | 0 => writeReg 0x00#8 0x41
  | _ => quiet

/-- The byte, and in the next cycle CTRL with the clear of the transmit FIFO. -/
def byteThenClear : ℕ → Input
  | 0 => writeReg 0x00#8 0x41
  | 1 => writeReg 0x08#8 0x13
  | _ => quiet

def runOn (input : ℕ → Input) : Run 4 417 :=
  (machine 4 417).runOf (fun t _ => input t) (reset 417 (fun _ => 0) (fun _ => 0) 0)
    ⟨_, _, _, rfl⟩

/-- A frame starts with a byte a clear has discarded: nothing waits. -/
theorem stale_sent : started (runOn byteThenClear) 2 = some 0x41#8 ∧
    ∀ src u, ¬Waiting (txOps (runOn byteThenClear)) src 2 u := by
  refine ⟨by decide +kernel, ?_⟩
  intro src u h
  have hclear : (txOps (runOn byteThenClear) 1).clear = true := by decide +kernel
  have hle : u ≤ 1 := Nat.lt_succ_iff.mp h.before
  exact absurd (h.kept 1 hle (by omega)) (by rw [hclear]; decide)

theorem oneByte_sent : started (runOn oneByte) 2 = some 0x41#8 ∧
    ∃ src, Serves (txOps (runOn oneByte)) src (fun t => (started (runOn oneByte) t).getD 0)
      fun t => ((runOn oneByte).state t).txf.level.toNat := by
  refine ⟨by decide +kernel, transmits_written (runOn oneByte) ?_⟩
  intro t hc
  have hw : txfClr (oneByte t) = true := hc
  unfold oneByte at hw
  split at hw <;> exact absurd hw (by decide)

end RiscvScratch.S6Uart
