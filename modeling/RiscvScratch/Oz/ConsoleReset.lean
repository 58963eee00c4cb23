import RiscvScratch.Oz.HostRun

/-! The console of the PS while the button resets the core: `crst` reaches the write side of the
FIFO only. -/
namespace RiscvScratch

namespace AsyncFifo
variable {α : Type*} {n : ℕ}

/-- The write side after an edge of `wclk` with `wrst` high. -/
def State.wrst (s : State α n) : State α n := { s with wbin := 0, rgrayW1 := 0, rgrayW2 := 0 }

def stepWrst (s : State α n) (r : Option (ReadEdge n)) : State α n :=
  r.elim s.wrst fun e => readEdge s e s.wrst

def AtZero (s : State α n) : Prop := s.wbin = 0 ∧ s.rbin = 0

variable {s : State α n} {r : Option (ReadEdge n)} {ins outs : List α} {c : Crossing.Counts}

theorem stepWrst_eq (s : State α n) (r : Option (ReadEdge n)) :
    stepWrst s r = step s.wrst none r := by
  cases r <;> rfl

theorem Inv.wrst (h : Inv s ins outs c) (hz : AtZero s) :
    Inv s.wrst ins outs { c with w1 := c.read, w2 := c.read } := by
  have hread : (0 : Ptr n) = Gray.gray (BitVec.ofNat _ c.read) := by
    rw [← h.encodes.rbin, hz.2]
    exact gray_zero
  refine ⟨⟨le_rfl, le_rfl, h.ordered.nonempty, h.ordered.stale', h.ordered.behind', ?_⟩,
    ⟨hz.1.symm.trans h.encodes.wbin, h.encodes.rbin, hread, hread, h.encodes.r1, h.encodes.r2⟩,
    h.written, h.read, h.order, h.mem⟩
  rw [h.written, h.read]
  exact h.room.2

theorem sampling_wrst (hz : AtZero s)
    (hs : ∀ e, r = some e → Gray.Sampled s.wgray s.wrst.wgray e.seen) :
    Sampling s.wrst none r := by
  refine ⟨fun e h => (by cases h), fun e h => ?_⟩
  have hsame : s.wgray = s.wrst.wgray := congrArg Gray.gray hz.1
  have hstep : (step s.wrst none r).wgray = s.wrst.wgray := by
    cases r <;> rfl
  rw [hstep]
  exact hsame ▸ hs e h

end AsyncFifo

namespace Host

/-- The core's domain at an edge of `cclk` with `crst` high. -/
def CSide.stepCrst (c : CSide) (e : CEdge) : CSide :=
  { c.step e with
    reqC1 := false, reqC2 := false, reqC3 := false
    ackTgl := false, hEn := false, hCap := false, h := c.h, resp := c.resp }

def stepCrst (p : Params) (s : State) (a : Option AEdge) (e : CEdge) : State where
  a := a.elim s.a (s.a.step p s.con.rvalid s.con.rdata)
  c := s.c.stepCrst e
  con := AsyncFifo.stepWrst s.con (a.map (fifoRead s.a))

/-- The byte that a CONSOLE read which starts at this edge will return as valid. -/
def consoleRead (p : Params) (s : State) (a : Option AEdge) : List (BitVec 8) :=
  (a.elim [] s.a.events).flatMap fun
    | .start x => returned x (a.elim s.a (s.a.step p s.con.rvalid s.con.rdata)).rdata
    | _ => []

/-- What any interleaving leads to, with all bytes accepted and returned; a pulse of `crst` finds
the FIFO in `P`. -/
inductive Reaches (p : Params) (P : AsyncFifo.State (BitVec 8) 4 → Prop) :
    State → List (BitVec 8) → List (BitVec 8) → Prop
  | reset {s : State} (h : Reset s) : Reaches p P s [] []
  | step {s : State} {ins outs : List (BitVec 8)} (h : Reaches p P s ins outs) {i : Input}
      (hs : AsyncFifo.Sampling s.con (i.c.map fifoWrite) (i.a.map (fifoRead s.a))) :
      Reaches p P (step p s i) (ins ++ consoleIn s i) (outs ++ consoleRead p s i.a)
  | crst {s : State} {ins outs : List (BitVec 8)} (h : Reaches p P s ins outs) (hP : P s.con)
      {a : Option AEdge} {e : CEdge}
      (hs : ∀ f, a.map (fifoRead s.a) = some f →
        Gray.Sampled s.con.wgray s.con.wrst.wgray f.seen) :
      Reaches p P (stepCrst p s a e) ins (outs ++ consoleRead p s a)

/-- The bytes returned are those popped, and the one that is popped at the next edge. -/
inductive Due (a : ASide) (valid : Bool) (ins popped outs : List (BitVec 8)) : Prop
  | nothing (conPop : a.conPop = false) (outs : outs = popped)
  | byte (b : BitVec 8) (conPop : a.conPop = true) (fsm : a.fsm = .r) (valid : valid = true)
      (head : ins[popped.length]? = some b) (outs : outs = popped ++ [b])

variable {p : Params} {s : State} {i : Input} {ins popped outs : List (BitVec 8)}
  {c : Crossing.Counts}

theorem consoleRead_busy (hf : s.a.fsm ≠ .idle) {e : AEdge} (ha : i.a = some e) :
    consoleRead p s i.a = [] ∧ (step p s i).a.conPop = false := by
  constructor
  · cases hfsm : s.a.fsm with
    | idle => exact absurd hfsm hf
    | memW | memR => simp [consoleRead, ha, ASide.events, doWr, doRd, hfsm]
    | b => cases hb : e.bready <;> simp [consoleRead, ha, ASide.events, doWr, doRd, hfsm, hb]
    | r => cases hr : e.rready <;> simp [consoleRead, ha, ASide.events, doWr, doRd, hfsm, hr]
  · simp only [step, ha, Option.elim_some, ASide.step]
    split
    · contradiction
    all_goals split <;> rfl

theorem Due.idle (hinv : AsyncFifo.Inv s.con ins popped c) (hf : s.a.fsm = .idle)
    (hp : s.a.conPop = false)
    (hs : AsyncFifo.Sampling s.con (i.c.map fifoWrite) (i.a.map (fifoRead s.a))) :
    Due (step p s i).a (step p s i).con.rvalid (ins ++ consoleIn s i) popped
      (popped ++ consoleRead p s i.a) := by
  have hread : consoleRead p s i.a = (i.a.elim [] s.a.events).flatMap fun
      | .start x => returned x (step p s i).a.rdata
      | _ => [] := rfl
  cases begins (p := p) (i := i) hf hp with
  | nothing fsm conPop ev => exact .nothing conPop (by rw [hread, ev]; exact List.append_nil _)
  | window x fsm conPop serves ev =>
    refine .nothing conPop ?_
    simp [hread, ev, returned, Access.console, serves.1]
  | plain x win fsm conPop byte ev =>
    have hx : consoleRead p s i.a = if x.console && s.con.rvalid then [s.con.rdata] else [] := by
      simp [hread, ev, byte]
    cases hv : x.console && s.con.rvalid with
    | false => exact .nothing (conPop.trans hv) (by simp [hx, hv])
    | true =>
      rw [Bool.and_eq_true] at hv
      have hw : x.write = false := by
        have := hv.1
        simp only [Access.console, Bool.and_eq_true, Bool.not_eq_true'] at this
        exact this.1.1
      refine .byte s.con.rdata (conPop.trans (by simp [hv])) (by simp [fsm, Access.answer, hw])
        (hinv.rvalid_step hs hv.2 ?_) ?_ (by simp [hx, hv])
      · cases i.a with
        | none => rfl
        | some e => simp [AsyncFifo.rmoves, AsyncFifo.pops, fifoRead, hp]
      · have hhead := owed_head hinv hv.2
        rwa [List.getElem?_append_left (List.getElem?_eq_some_iff.mp hhead).1]

theorem Due.step (hinv : AsyncFifo.Inv s.con ins popped c)
    (hd : Due s.a s.con.rvalid ins popped outs)
    (hs : AsyncFifo.Sampling s.con (i.c.map fifoWrite) (i.a.map (fifoRead s.a))) :
    Due (step p s i).a (step p s i).con.rvalid (ins ++ consoleIn s i)
      (popped ++ AsyncFifo.popped s.con (i.a.map (fifoRead s.a)))
      (outs ++ consoleRead p s i.a) := by
  cases hd with
  | nothing conPop ho =>
    rw [popped_settled conPop, List.append_nil, ho]
    by_cases hf : s.a.fsm = .idle
    · exact .idle hinv hf conPop hs
    · rcases ha : i.a with _ | e
      · exact .nothing (by simp [Host.step, ha, conPop]) (List.append_nil _)
      · obtain ⟨hread, hpop⟩ := consoleRead_busy (p := p) hf ha
        exact .nothing hpop (by rw [← ha, hread, List.append_nil])
  | byte b conPop fsm valid head ho =>
    rcases ha : i.a with _ | e
    · have hst : (Host.step p s i).a = s.a := by simp [Host.step, ha]
      rw [hst]
      refine .byte b conPop fsm (hinv.rvalid_step hs valid (by rw [ha]; rfl)) ?_ ?_
      · rw [show popped ++ AsyncFifo.popped s.con ((none : Option AEdge).map _) = popped from
          List.append_nil _, List.getElem?_append_left (List.getElem?_eq_some_iff.mp head).1]
        exact head
      · rw [ho]
        simp [AsyncFifo.popped, consoleRead]
    · obtain ⟨hread, hpop⟩ := consoleRead_busy (p := p) (s := s) (by simp [fsm]) ha
      have hb : s.con.rdata = b := Option.some.inj ((owed_head hinv valid).symm.trans head)
      refine .nothing hpop ?_
      rw [← ha, hread, ho, ha]
      simp [AsyncFifo.popped, AsyncFifo.pops, fifoRead, conPop, valid, hb]

theorem due_of_reaches (h : Reaches p AsyncFifo.AtZero s ins outs) :
    ∃ popped c, AsyncFifo.Inv s.con ins popped c ∧ Due s.a s.con.rvalid ins popped outs := by
  induction h with
  | reset h =>
    obtain ⟨mem, hmem⟩ := h.con
    obtain ⟨c, hc⟩ := AsyncFifo.inv_of_reachable (.reset mem)
    exact ⟨[], c, hmem ▸ hc, .nothing h.conPop rfl⟩
  | step _ hs ih =>
    obtain ⟨popped, c, hinv, hd⟩ := ih
    obtain ⟨c', hc', -⟩ := hinv.step hs
    exact ⟨_, c', hc', hd.step hinv hs⟩
  | @crst s ins outs _ hz a e hs ih =>
    obtain ⟨popped, c, hinv, hd⟩ := ih
    have hs' := AsyncFifo.sampling_wrst hz hs
    obtain ⟨c', hc', -⟩ := (hinv.wrst hz).step hs'
    -- the read side does not see the reset
    have hd' := Due.step (p := p) (s := { s with con := s.con.wrst }) (i := ⟨a, none⟩)
      (hinv.wrst hz) hd hs'
    rw [← AsyncFifo.stepWrst_eq, show AsyncFifo.accepted s.con.wrst none = [] from rfl,
      List.append_nil] at hc'
    refine ⟨_, c', hc', ?_⟩
    rw [show consoleIn { s with con := s.con.wrst } ⟨a, none⟩ = [] from rfl,
      List.append_nil] at hd'
    show Due _ (AsyncFifo.stepWrst s.con _).rvalid _ _ _
    rw [AsyncFifo.stepWrst_eq]
    exact hd'

/-- The bytes that CONSOLE reads return are bytes the FIFO accepted, in order. -/
theorem console_returns_accepted (p : Params) (s : State) (ins outs : List (BitVec 8))
    (h : Reaches p AsyncFifo.AtZero s ins outs) : outs.Sublist ins := by
  obtain ⟨popped, c, hinv, hd⟩ := due_of_reaches h
  cases hd with
  | nothing _ ho => exact ho ▸ hinv.order ▸ List.take_sublist _ _
  | byte b _ _ _ head ho =>
    have htake : outs = ins.take (c.read + 1) := by
      rw [List.take_add_one, ← hinv.order, hinv.read, head, ho]
      rfl
    exact htake ▸ List.take_sublist _ _

/-- Both clocks tick; every flop sees the old value. -/
def consoleInput (write read : Bool) (s : State) : Input where
  a := some ⟨0#32, false, 0#32, 0#4, false, true, 0x10#32, read, true, false, 0#32, s.con.wgray,
    false, 0#32⟩
  c := some ⟨write, 0x41#8, false, s.a.rq, s.con.rgray, fun _ => 0#32, fun _ => 0#32⟩

theorem Reaches.tick {P : AsyncFifo.State (BitVec 8) 4 → Prop} (h : Reaches p P s ins outs)
    (write read : Bool) : Reaches p P (Host.step p s (consoleInput write read s))
      (ins ++ consoleIn s (consoleInput write read s))
      (outs ++ consoleRead p s (consoleInput write read s).a) := by
  refine h.step ⟨?_, ?_⟩
  · rintro e ⟨⟩
    exact fun i => .inl rfl
  · rintro e ⟨⟩
    exact fun i => .inl rfl

theorem benchStart_reaches (P : AsyncFifo.State (BitVec 8) 4 → Prop) :
    Reaches benchParams P benchStart [] [] :=
  .reset ⟨rfl, rfl, rfl, ⟨rfl, rfl, rfl, rfl, rfl, rfl, rfl, rfl⟩, ⟨rfl, rfl⟩, _, rfl⟩

def quietEdge : CEdge :=
  ⟨false, 0#8, false, ⟨false, false, 0#16, 0#32⟩, 0#7, fun _ => 0#32, fun _ => 0#32⟩

/-- A byte is written and read, the button is pressed, and a byte is read again. -/
theorem reset_invents_byte : ∃ s ins outs,
    Reaches benchParams (fun _ => True) s ins outs ∧ ¬outs.Sublist ins := by
  have hread := (((((benchStart_reaches fun _ => True).tick true false).tick false false).tick
    false false).tick false true).tick false false
  have hcrst := hread.crst (a := none) (e := quietEdge) trivial fun f h => by cases h
  exact ⟨_, _, _, ((hcrst.tick false false).tick false false).tick false true, by decide +kernel⟩

/-- The button is pressed first, and a byte is written and read. -/
theorem console_returns_byte : ∃ s ins outs, Reaches benchParams AsyncFifo.AtZero s ins outs ∧
    outs = [0x41#8] ∧ outs.Sublist ins := by
  have hcrst := (benchStart_reaches AsyncFifo.AtZero).crst (a := none) (e := quietEdge)
    ⟨rfl, rfl⟩ fun f h => by cases h
  have hread := (((hcrst.tick true false).tick false false).tick false false).tick false true
  exact ⟨_, _, _, hread, by decide +kernel, console_returns_accepted _ _ _ _ hread⟩

end Host
end RiscvScratch
