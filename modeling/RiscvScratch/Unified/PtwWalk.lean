import RiscvScratch.Clocked.Machine
import RiscvScratch.Sv32.Walk
import RiscvScratch.Unified.Ptw

/-! The walker against the Sv32 algorithm: it makes every check but that for misaligned superpages.
-/
namespace RiscvScratch.Ptw

def machine (svade : Bool) : Clocked.Machine State Input where
  init s := s = reset
  step := step svade

abbrev Run (svade : Bool) := (machine svade).Run

/-- Physical memory through the 32-bit port: the content, where it may be read. -/
def bus (mem : Word → Word) (ok : Word → Bool) (a : BitVec 34) : Option Word :=
  if ok (a.setWidth 32) then some (mem (a.setWidth 32)) else none

/-- The port in a cycle of a walk that is not killed: `satp` and the memory are as they were. -/
structure Served (mem : Word → Word) (ok : Word → Bool) (satp : Word) (s : State) (i : Input) :
    Prop where
  root : i.satp = satp
  readable : i.memOk = ok (memAddr s satp)
  data : i.memReady = true → i.memRdata = mem (memAddr s satp)
  kept : drop s i = false

variable {svade : Bool}

/-- The walker has been busy since the edge of cycle `t₀`. -/
structure Walking (r : Run svade) (t₀ t : ℕ) : Prop where
  lt : t₀ < t
  busy : ∀ u, t₀ < u → u ≤ t → busy (r.state u) = true

/-- A walk for `va` that starts at the edge of cycle `t₀`. -/
structure Walk (r : Run svade) (mem : Word → Word) (ok : Word → Bool) (satp va : Word) (t₀ : ℕ) :
    Prop where
  idle : (r.state t₀).fsm = .idle
  start : ((r.input t₀).startD = true ∧ (r.input t₀).vaD = va) ∨
    ((r.input t₀).startD = false ∧ (r.input t₀).startI = true ∧ (r.input t₀).vaI = va)
  served : ∀ t, Walking r t₀ t → Served mem ok satp (r.state t) (r.input t)

def accepts (s : State) (i : Input) : Bool := busy s && i.memOk && i.memReady

/-- The addresses read in the cycles after `t₀` and before `t`. -/
def readsIn (r : Run svade) (t₀ t : ℕ) : List Word :=
  Clocked.emitted (fun u => if t₀ < u ∧ accepts (r.state u) (r.input u) = true then
    [memAddr (r.state u) (r.input u).satp] else []) t

/-- What the walker reports in a cycle, as the TLB takes it. -/
def report (svade : Bool) (s : State) (i : Input) : Sv32.Leaf :=
  ⟨leafPpn i, leafSuper s, leafPerm svade i⟩

section cycle
variable {s : State} {i : Input}

theorem busy_l1 (h : s.fsm = .l1) : busy s = true := by rw [busy, h]; rfl

theorem busy_l0 (h : s.fsm = .l0) : busy s = true := by rw [busy, h]; rfl

theorem pteLeaf_eq (pte : Word) : pteLeaf pte = Sv32.Pte.isLeaf pte := rfl

theorem pteBad_eq (svade : Bool) (pte : Word) :
    pteBad svade pte =
      (Sv32.Pte.invalid pte || (Sv32.Pte.isLeaf pte && Sv32.Pte.unaccessed pte svade)) := by
  simp only [pteBad, pteLeaf_eq, Sv32.Pte.invalid, Sv32.Pte.unaccessed]
  cases svade <;> simp

theorem tableAddr_eq (ppn : BitVec 22) (vpn : BitVec 10) :
    (Sv32.pteAddr ppn vpn).setWidth 32 =
      (ppn.extractLsb' 0 20 ++ 0#12) + (vpn.zeroExtend 32 <<< 2 : Word) := by
  rw [Sv32.pteAddr, BitVec.setWidth_add _ _ (by decide)]
  congr 1
  · apply BitVec.eq_of_getLsbD_eq
    intro j hj
    simp only [BitVec.getLsbD_setWidth, BitVec.getLsbD_append, BitVec.getLsbD_extractLsb']
    have h1 : ¬ j < 12 → j - 12 < 20 := by omega
    by_cases h : j < 12 <;> simp [h, hj, h1]
  · apply BitVec.eq_of_getLsbD_eq
    intro j hj
    simp only [BitVec.getLsbD_setWidth, BitVec.getLsbD_append, BitVec.getLsbD_shiftLeft]
    have h1 : j < 34 := by omega
    have h2 : j - 2 < 32 := by omega
    by_cases h : j < 2 <;> simp [h, hj, h1, h2]

def addr1 (satp va : Word) : BitVec 34 := Sv32.pteAddr (satp.extractLsb' 0 22) (Sv32.vpn1 va)

theorem memAddr_l1 (satp : Word) {va : Word} (hf : s.fsm = .l1) (hv : s.va = va) :
    memAddr s satp = (addr1 satp va).setWidth 32 := by
  have hroot : (satp.extractLsb' 0 22).extractLsb' 0 20 = satp.extractLsb' 0 20 := by
    apply BitVec.eq_of_getLsbD_eq
    intro j hj
    simp [hj]
  rw [addr1, tableAddr_eq, memAddr, hf, ← hv, hroot]
  rfl

variable {pte1 : Word}

theorem memAddr_l0 (satp : Word) {va : Word} (hf : s.fsm = .l0) (hv : s.va = va)
    (hp : s.l0Ppn = Sv32.Pte.ppn pte1) :
    memAddr s satp = (Sv32.pteAddr (Sv32.Pte.ppn pte1) (Sv32.vpn0 va)).setWidth 32 := by
  rw [tableAddr_eq, memAddr, hf, ← hv, ← hp]
  rfl

theorem step_l1 (hf : s.fsm = .l1) (h : busy (step svade s i) = true) :
    noread s i = false ∧ (i.memReady = true →
      (pteBad svade i.memRdata = false ∧ pteLeaf i.memRdata = false) ∧
        (step svade s i).fsm = .l0) := by
  cases hno : noread s i with
  | true => simp [step, hf, hno, busy] at h
  | false =>
    refine ⟨rfl, fun hr => ?_⟩
    cases hx : pteBad svade i.memRdata || pteLeaf i.memRdata with
    | true => simp [step, hf, hno, hr, hx, busy] at h
    | false => exact ⟨Bool.or_eq_false_iff.mp hx, by simp [step, hf, hno, hr, hx]⟩

theorem step_l0 (hf : s.fsm = .l0) (h : busy (step svade s i) = true) :
    (noread s i = false ∧ i.memReady = false) ∧ (step svade s i).fsm = .l0 := by
  cases hx : noread s i || i.memReady with
  | true => simp [step, hf, hx, busy] at h
  | false => exact ⟨Bool.or_eq_false_iff.mp hx, by simp [step, hf, hx]⟩

inductive Stage (mem : Word → Word) (ok : Word → Bool) (satp va : Word) (s : State)
    (past : List Word) : Prop
  | l1 (fsm : s.fsm = .l1) (walked : s.va = va) (reads : past = [])
  | l0 (pte1 : Word) (fsm : s.fsm = .l0) (walked : s.va = va)
      (fetch : bus mem ok (addr1 satp va) = some pte1) (valid : Sv32.Pte.invalid pte1 = false)
      (pointer : Sv32.Pte.isLeaf pte1 = false) (ppn : s.l0Ppn = Sv32.Pte.ppn pte1)
      (reads : past = [(addr1 satp va).setWidth 32])

def readNow (s : State) (i : Input) : List Word :=
  if accepts s i = true then [memAddr s i.satp] else []

variable {mem : Word → Word} {ok : Word → Bool} {satp va : Word} {past : List Word}

theorem Stage.next (h : Stage mem ok satp va s past) (hs : Served mem ok satp s i)
    (hb : busy (step svade s i) = true) :
    Stage mem ok satp va (step svade s i) (past ++ readNow s i) := by
  cases h with
  | l1 hf hv hp =>
    have haddr := memAddr_l1 satp hf hv
    obtain ⟨hno, hx⟩ := step_l1 hf hb
    have hok : i.memOk = true := by simpa [noread, busy_l1 hf] using hno
    cases hr : i.memReady with
    | false =>
      refine .l1 ?_ ?_ ?_
      · simp [step, hf, hno, hr]
      · simp [step, hf, hno, hr, hv]
      · simp [hp, readNow, accepts, hr]
    | true =>
      obtain ⟨⟨hbad, hleaf⟩, -⟩ := hx hr
      have hstep : step svade s i = { s with
          killed := s.killed || (i.kill && s.sideI && busy s)
          l0Ppn := i.memRdata.extractLsb' 10 22, fsm := .l0 } := by
        simp [step, hf, hno, hr, hbad, hleaf]
      rw [pteBad_eq, Bool.or_eq_false_iff] at hbad
      rw [hstep]
      refine .l0 i.memRdata rfl hv ?_ hbad.1 hleaf rfl ?_
      · rw [bus, ← haddr, ← hs.readable, hok, if_pos rfl, hs.data hr]
      · simp [hp, readNow, accepts, busy_l1 hf, hok, hr, hs.root, haddr]
  | l0 pte1 hf hv hfetch hval hptr hppn hp =>
    obtain ⟨⟨hno, hr⟩, hl0⟩ := step_l0 hf hb
    refine .l0 pte1 hl0 ?_ hfetch hval hptr ?_ ?_
    · simp [step, hf, hno, hr, hv]
    · simp [step, hf, hno, hr, hppn]
    · simp [hp, readNow, accepts, hr]

def found (svade : Bool) (mem : Word → Word) (ok : Word → Bool) (satp va : Word) :
    Option Sv32.Leaf :=
  Sv32.walkWith svade (fun _ => true) (bus mem ok) (satp.extractLsb' 0 22) va

def portReads (mem : Word → Word) (ok : Word → Bool) (satp va : Word) : List Word :=
  (Sv32.reads (bus mem ok) (satp.extractLsb' 0 22) va).map (·.setWidth 32)

theorem found_none (svade : Bool) (h : bus mem ok (addr1 satp va) = none) :
    found svade mem ok satp va = none ∧ portReads mem ok satp va = [] := by
  simp only [found, Sv32.walkWith, portReads, Sv32.reads]
  rw [← addr1, h]
  exact ⟨rfl, rfl⟩

theorem found_stop (h : bus mem ok (addr1 satp va) = some pte1)
    (hstop : (pteBad svade pte1 || pteLeaf pte1) = true) :
    (found svade mem ok satp va =
      if pteBad svade pte1 then none else some (.ofPte svade true pte1)) ∧
    portReads mem ok satp va = [(addr1 satp va).setWidth 32] := by
  simp only [found, Sv32.walkWith, portReads, Sv32.reads]
  rw [← addr1, h]
  rw [pteBad_eq, pteLeaf_eq] at hstop
  rw [pteBad_eq]
  cases hi : Sv32.Pte.invalid pte1 with
  | true => simp [hi]
  | false =>
    have hl : Sv32.Pte.isLeaf pte1 = true := by
      rw [hi] at hstop
      revert hstop
      cases Sv32.Pte.isLeaf pte1 <;> simp
    cases hu : Sv32.Pte.unaccessed pte1 svade <;> simp [hi, hl, hu]

theorem found_pointer (svade : Bool) (h : bus mem ok (addr1 satp va) = some pte1)
    (hval : Sv32.Pte.invalid pte1 = false) (hptr : Sv32.Pte.isLeaf pte1 = false) :
    (found svade mem ok satp va =
      (bus mem ok (Sv32.pteAddr (Sv32.Pte.ppn pte1) (Sv32.vpn0 va))).bind fun pte0 =>
        if pteBad svade pte0 || !pteLeaf pte0 then none else some (.ofPte svade false pte0)) ∧
    portReads mem ok satp va = (addr1 satp va).setWidth 32 ::
      if (bus mem ok (Sv32.pteAddr (Sv32.Pte.ppn pte1) (Sv32.vpn0 va))).isSome then
        [(Sv32.pteAddr (Sv32.Pte.ppn pte1) (Sv32.vpn0 va)).setWidth 32] else [] := by
  simp only [found, Sv32.walkWith, Sv32.walk0, portReads, Sv32.reads]
  rw [← addr1, h]
  dsimp only
  rw [hval, hptr]
  cases bus mem ok (Sv32.pteAddr (Sv32.Pte.ppn pte1) (Sv32.vpn0 va)) with
  | none => simp
  | some pte0 =>
    simp only [Option.bind_some, pteBad_eq, pteLeaf_eq]
    cases Sv32.Pte.invalid pte0 <;> cases Sv32.Pte.isLeaf pte0 <;>
      cases Sv32.Pte.unaccessed pte0 svade <;> simp

structure Ends (svade : Bool) (mem : Word → Word) (ok : Word → Bool) (satp va : Word) (s : State)
    (i : Input) : Prop where
  fill : doneFill svade s i = true ↔ (found svade mem ok satp va).isSome = true
  fault : doneFault svade s i = true ↔ found svade mem ok satp va = none
  leaf : ∀ l, found svade mem ok satp va = some l → report svade s i = l

theorem ends_fault (hf : found svade mem ok satp va = none) (hk : drop s i = false)
    (hg : good svade s i = false) (hb : bad svade s i = true) : Ends svade mem ok satp va s i :=
  ⟨by simp [doneFill, hg, hf], by simp [doneFault, hb, hk, hf], by simp [hf]⟩

theorem ends_fill (hf : found svade mem ok satp va = some (report svade s i))
    (hk : drop s i = false) (hg : good svade s i = true) (hb : bad svade s i = false) :
    Ends svade mem ok satp va s i :=
  ⟨by simp [doneFill, hg, hk, hf], by simp [doneFault, hb, hf], by simp [hf]⟩

theorem Stage.ends (h : Stage mem ok satp va s past) (hs : Served mem ok satp s i)
    (hb : busy (step svade s i) = false) :
    Ends svade mem ok satp va s i ∧ past ++ readNow s i = portReads mem ok satp va := by
  have hbusy : busy s = true := by
    cases h with
    | l1 hf => exact busy_l1 hf
    | l0 _ hf => exact busy_l0 hf
  have hnow : readNow s i = if i.memOk && i.memReady then [memAddr s satp] else [] := by
    simp [readNow, accepts, hbusy, hs.root]
  cases h with
  | l1 hf hv hp =>
    have haddr := memAddr_l1 satp hf hv
    have hat0 : atL0 s i = false := by simp [atL0, hf]
    cases hok : i.memOk with
    | false =>
      have hno : noread s i = true := by simp [noread, hbusy, hok]
      obtain ⟨hfound, hreads⟩ := found_none svade
        (show bus mem ok (addr1 satp va) = none by simp [bus, ← haddr, ← hs.readable, hok])
      exact ⟨ends_fault hfound hs.kept (by simp [good, hno]) (by simp [bad, hno]),
        by simp [hp, hnow, hok, hreads]⟩
    | true =>
      have hno : noread s i = false := by simp [noread, hok]
      cases hr : i.memReady with
      | false => simp [step, hf, hno, hr, busy] at hb
      | true =>
        have hat : atL1 s i = true := by simp [atL1, hf, hr]
        have hstop : (pteBad svade i.memRdata || pteLeaf i.memRdata) = true := by
          by_contra hx
          simp [step, hf, hno, hr, Bool.eq_false_of_not_eq_true hx, busy] at hb
        obtain ⟨hfound, hreads⟩ := found_stop
          (show bus mem ok (addr1 satp va) = some i.memRdata by
            simp [bus, ← haddr, ← hs.readable, hok, hs.data hr]) hstop
        refine ⟨?_, by simp [hp, hnow, hok, hr, hreads, haddr]⟩
        cases hbad : pteBad svade i.memRdata with
        | true =>
          exact ends_fault (by simp [hfound, hbad]) hs.kept (by simp [good, hbad])
            (by simp [bad, hat, hbad])
        | false =>
          have hleaf : pteLeaf i.memRdata = true := by simpa [hbad] using hstop
          have hrep : report svade s i = .ofPte svade true i.memRdata := by
            rw [report, leafSuper, hf]
            rfl
          exact ends_fill (by simp [hfound, hbad, hrep]) hs.kept
            (by simp [good, hno, hat, hbad, hleaf]) (by simp [bad, hno, hbad, hat0])
  | l0 pte1 hf hv hfetch hval hptr hppn hp =>
    have haddr := memAddr_l0 satp hf hv hppn
    have hat1 : atL1 s i = false := by simp [atL1, hf]
    obtain ⟨hfound, hreads⟩ := found_pointer svade hfetch hval hptr
    have hbus : bus mem ok (Sv32.pteAddr (Sv32.Pte.ppn pte1) (Sv32.vpn0 va)) =
        if i.memOk then some (mem (memAddr s satp)) else none := by
      rw [bus, ← haddr, ← hs.readable]
    rw [hbus] at hfound hreads
    cases hok : i.memOk with
    | false =>
      have hno : noread s i = true := by simp [noread, hbusy, hok]
      exact ⟨ends_fault (by simp [hfound, hok]) hs.kept (by simp [good, hno])
        (by simp [bad, hno]), by simp [hp, hnow, hok, hreads]⟩
    | true =>
      have hno : noread s i = false := by simp [noread, hok]
      cases hr : i.memReady with
      | false => simp [step, hf, hno, hr, busy] at hb
      | true =>
        have hat : atL0 s i = true := by simp [atL0, hf, hr]
        simp only [hok, ↓reduceIte, Option.bind_some, ← hs.data hr] at hfound
        refine ⟨?_, by simp [hp, hnow, hok, hr, hreads, haddr]⟩
        cases hx : pteBad svade i.memRdata || !pteLeaf i.memRdata with
        | true =>
          have hg : good svade s i = false := by
            simp only [good, hat1, hat, Bool.false_and, Bool.false_or, Bool.true_and]
            revert hx
            cases pteBad svade i.memRdata <;> cases pteLeaf i.memRdata <;> simp
          exact ends_fault (by simp [hfound, hx]) hs.kept hg (by simp [bad, hat, hx])
        | false =>
          have hrep : report svade s i = .ofPte svade false i.memRdata := by
            rw [report, leafSuper, hf]
            rfl
          have hx' := Bool.or_eq_false_iff.mp hx
          exact ends_fill (by simp [hfound, hx, hrep]) hs.kept
            (by simp [good, hno, hat, hx'.1, by simpa using hx'.2])
            (by simp [bad, hno, hat1, hx])

theorem no_report (h : busy (step svade s i) = true) :
    doneFill svade s i = false ∧ doneFault svade s i = false := by
  suffices hx : good svade s i = false ∧ bad svade s i = false by
    simp [doneFill, doneFault, hx]
  cases hf : s.fsm with
  | idle => simp [good, bad, noread, busy, atL1, atL0, hf]
  | l1 =>
    obtain ⟨hno, hx⟩ := step_l1 hf h
    cases hr : i.memReady with
    | false => simp [good, bad, atL0, hf, hno, atL1, hr]
    | true => simp [good, bad, atL0, hf, hno, hx hr]
  | l0 => simp [good, bad, atL1, hf, atL0, (step_l0 hf h).1]

end cycle

section walk
variable {r : Run svade} {mem : Word → Word} {ok : Word → Bool} {satp va : Word} {t₀ : ℕ}

theorem readsIn_start (r : Run svade) (t₀ : ℕ) : readsIn r t₀ (t₀ + 1) = [] := by
  simp only [readsIn, Clocked.emitted, List.flatMap_eq_nil_iff, List.mem_range]
  intro u hu
  rw [if_neg]
  omega

theorem readsIn_succ (r : Run svade) {t : ℕ} (h : t₀ < t) :
    readsIn r t₀ (t + 1) = readsIn r t₀ t ++ readNow (r.state t) (r.input t) := by
  rw [readsIn, Clocked.emitted_succ, ← readsIn]
  simp [h, readNow]

theorem Walk.first (h : Walk r mem ok satp va t₀) :
    (r.state (t₀ + 1)).fsm = .l1 ∧ (r.state (t₀ + 1)).va = va := by
  have hst : r.state (t₀ + 1) = step svade (r.state t₀) (r.input t₀) := r.steps t₀
  obtain ⟨hd, hv⟩ | ⟨hd, hi, hv⟩ := h.start
  · simp [hst, step, h.idle, hd, hv]
  · simp [hst, step, h.idle, hd, hi, hv]

theorem Walk.stage (h : Walk r mem ok satp va t₀) {t : ℕ} (hw : Walking r t₀ t) :
    Stage mem ok satp va (r.state t) (readsIn r t₀ t) := by
  obtain ⟨hlt, hbusy⟩ := hw
  induction t, Nat.succ_le_of_lt hlt using Nat.le_induction with
  | base =>
    rw [Nat.succ_eq_add_one, readsIn_start]
    exact .l1 h.first.1 h.first.2 rfl
  | succ t ht ih =>
    have hw : Walking r t₀ t := ⟨ht, fun u h1 h2 => hbusy u h1 (by omega)⟩
    have hb := hbusy (t + 1) hlt le_rfl
    rw [readsIn_succ r ht]
    rw [r.steps] at hb ⊢
    exact (ih ht hw.busy).next (h.served t hw) hb

theorem step_ready {s : State} {i : Input} (hr : i.memReady = true)
    (hb : busy (step svade s i) = true) (hs : busy s = true) :
    (step svade s i).fsm = .l0 ∧ s.fsm ≠ .l0 := by
  cases hf : s.fsm with
  | idle => simp [busy, hf] at hs
  | l1 => exact ⟨((step_l1 hf hb).2 hr).2, by simp⟩
  | l0 => simp [(step_l0 hf hb).1] at hr

theorem Walk.terminates (h : Walk r mem ok satp va t₀)
    (hfair : ∀ n, ∃ t ≥ n, (r.input t).memReady = true) :
    ∃ t, Walking r t₀ t ∧ busy (r.state (t + 1)) = false := by
  by_contra hno
  push Not at hno
  have hbusy : ∀ t, t₀ < t → Walking r t₀ t := by
    intro t ht
    induction t, Nat.succ_le_of_lt ht using Nat.le_induction with
    | base =>
      refine ⟨ht, fun u h1 h2 => ?_⟩
      obtain rfl : u = t₀ + 1 := by omega
      exact busy_l1 h.first.1
    | succ t ht' ih =>
      refine ⟨ht, fun u h1 h2 => ?_⟩
      obtain h2 | rfl := Nat.le_succ_iff.mp h2
      · exact (ih ht').busy u h1 h2
      · simpa using hno t (ih ht')
  obtain ⟨u, hu, hru⟩ := hfair (t₀ + 1)
  have hstep (t : ℕ) : r.state (t + 1) = step svade (r.state t) (r.input t) := r.steps t
  have hb (t : ℕ) (ht : t₀ < t) : busy (step svade (r.state t) (r.input t)) = true := by
    rw [← hstep]
    exact (hbusy (t + 1) (by omega)).busy _ (by omega) le_rfl
  have hl0 : ∀ t, u + 1 ≤ t → (r.state t).fsm = .l0 := by
    intro t ht
    induction t, ht using Nat.le_induction with
    | base =>
      rw [hstep]
      exact (step_ready hru (hb u hu) ((hbusy u hu).busy u hu le_rfl)).1
    | succ t ht ih =>
      rw [hstep]
      exact (step_l0 ih (hb t (by omega))).2
  obtain ⟨v, hv, hrv⟩ := hfair (u + 1)
  have hlt : t₀ < v := by omega
  exact (step_ready hrv (hb v hlt) ((hbusy v hlt).busy v hlt le_rfl)).2 (hl0 v hv)

/-- The walk that starts after cycle `t₀` reports once, at its end, what the algorithm finds, and
has read what the algorithm reads. -/
structure Follows (r : Run svade) (mem : Word → Word) (ok : Word → Bool) (satp va : Word)
    (t₀ : ℕ) (result : Option Sv32.Leaf) : Prop where
  silent : ∀ t, Walking r t₀ t → busy (r.state (t + 1)) = true →
    doneFill svade (r.state t) (r.input t) = false ∧
      doneFault svade (r.state t) (r.input t) = false
  fill : ∀ t, Walking r t₀ t → busy (r.state (t + 1)) = false →
    (doneFill svade (r.state t) (r.input t) = true ↔ result.isSome = true)
  leaf : ∀ t, Walking r t₀ t → busy (r.state (t + 1)) = false →
    ∀ l, result = some l → report svade (r.state t) (r.input t) = l
  fault : ∀ t, Walking r t₀ t → busy (r.state (t + 1)) = false →
    (doneFault svade (r.state t) (r.input t) = true ↔ result = none)
  reads : ∀ t, Walking r t₀ t → busy (r.state (t + 1)) = false →
    readsIn r t₀ (t + 1) = portReads mem ok satp va
  ends : (∀ n, ∃ t ≥ n, (r.input t).memReady = true) →
    ∃ t, Walking r t₀ t ∧ busy (r.state (t + 1)) = false

theorem Walk.follows (h : Walk r mem ok satp va t₀) :
    Follows r mem ok satp va t₀ (found svade mem ok satp va) := by
  have hstep (t : ℕ) : r.state (t + 1) = step svade (r.state t) (r.input t) := r.steps t
  have hends (t : ℕ) (hw : Walking r t₀ t) (hb : busy (r.state (t + 1)) = false) :=
    (h.stage hw).ends (h.served t hw) (hstep t ▸ hb)
  refine ⟨fun t _ hb => ?_, fun t hw hb => ?_, fun t hw hb => ?_, fun t hw hb => ?_,
    fun t hw hb => ?_, h.terminates⟩
  · rw [hstep] at hb
    exact no_report hb
  · exact (hends t hw hb).1.fill
  · exact (hends t hw hb).1.leaf
  · exact (hends t hw hb).1.fault
  · rw [readsIn_succ r hw.lt]
    exact (hends t hw hb).2

end walk

/-- A walk that is not killed is the Sv32 walk without the check for misaligned superpages. -/
theorem walk_follows_sv32 (svade : Bool) (r : Run svade) (mem : Word → Word) (ok : Word → Bool)
    (satp va : Word) (t₀ : ℕ) (h : Walk r mem ok satp va t₀) :
    Follows r mem ok satp va t₀
        (Sv32.walkWith svade (fun _ => true) (bus mem ok) (satp.extractLsb' 0 22) va) ∧
      (¬ Sv32.MisalignedSuper svade (bus mem ok) (satp.extractLsb' 0 22) va →
        Follows r mem ok satp va t₀
          (Sv32.walk svade (bus mem ok) (satp.extractLsb' 0 22) va)) := by
  refine ⟨h.follows, fun ha => ?_⟩
  rw [← Sv32.walkWith_true ha]
  exact h.follows

section run
variable (mem : Word → Word)

/-- A data walk for address 0 from the root page 1, over a port that always answers. -/
def walkEnv (t : ℕ) (s : State) : Input :=
  { satp := 0x80000001#32, startD := t == 0, vaD := 0#32, startI := false, vaI := 0#32,
    kill := false, memRdata := mem (memAddr s 0x80000001#32), memReady := true, memOk := true }

def walkRun : Run false := (machine false).runOf (walkEnv mem) reset rfl

variable {mem}

theorem walkRun_walk (n : ℕ)
    (hkeep : ∀ t < n, drop ((walkRun mem).state t) ((walkRun mem).input t) = false)
    (hn : 0 < n) (hend : busy ((walkRun mem).state n) = false) :
    Walk (walkRun mem) mem (fun _ => true) 0x80000001#32 0#32 0 where
  idle := rfl
  start := Or.inl ⟨rfl, rfl⟩
  served t hw := by
    have hlt : t < n := by
      by_contra hge
      have hb := hw.busy n hn (by omega)
      simp [hend] at hb
    exact ⟨rfl, rfl, fun _ => rfl, hkeep t hlt⟩

end run

def twoLevels (a : Word) : Word := if a = 0x1000#32 then 0x801#32 else 0xcdf#32

theorem twoLevels_follows :
    Follows (walkRun twoLevels) twoLevels (fun _ => true) 0x80000001#32 0#32 0
      (some ⟨3#22, false, 0xf#4⟩) :=
  (walk_follows_sv32 false _ twoLevels _ _ _ 0
    (walkRun_walk 3 (by decide) (by decide) (by decide))).1

/-- A level-1 leaf for page 1, which no superpage can start at, is taken as a translation. -/
theorem misaligned_super_filled :
    Walk (walkRun fun _ => 0x4df#32) (fun _ => 0x4df#32) (fun _ => true) 0x80000001#32 0#32 0 ∧
      Walking (walkRun fun _ => 0x4df#32) 0 1 ∧
      doneFill false ((walkRun fun _ => 0x4df#32).state 1)
        ((walkRun fun _ => 0x4df#32).input 1) = true ∧
      leafSuper ((walkRun fun _ => 0x4df#32).state 1) = true ∧
      Sv32.walk false (bus (fun _ => 0x4df#32) fun _ => true)
        ((0x80000001#32 : Word).extractLsb' 0 22) 0#32 = none := by
  refine ⟨walkRun_walk 2 (by decide) (by decide) (by decide), ⟨by decide, ?_⟩, by decide,
    by decide, by decide⟩
  intro u h1 h2
  obtain rfl : u = 1 := by omega
  decide

end RiscvScratch.Ptw
