import RiscvScratch.Oz.HostHandshake

/-! Whole runs of the host port, for every interleaving of the two clocks. -/
namespace RiscvScratch.Host
open Crossing (Toggle)

section run
variable {p : Params} (r : Run p)

def trace (t : ℕ) : List Event := Clocked.emitted (fun u => events (r.state u) (r.input u)) t

def received (t : ℕ) : List (BitVec 8) :=
  Clocked.emitted (fun u => consoleIn (r.state u) (r.input u)) t

def drained (t : ℕ) : List (BitVec 8) :=
  Clocked.emitted (fun u => AsyncFifo.popped (r.state u).con
    ((r.input u).a.map (fifoRead (r.state u).a))) t

/-- The host at `t` with `k` flops to go, the abstract host and the counts of the FIFO. -/
structure Linked (t k : ℕ) (sp : Spec) (c : Crossing.Counts) : Prop where
  le : k ≤ 8
  toggles : ∃ req, toggle (r.state t) = Toggle.pending k req
  spec : Spec.run (trace r t) = some sp
  consistent : Consistent (r.state t) (received r t) (drained r t) k sp
  fifo : AsyncFifo.Inv (r.state t).con (received r t) (drained r t) c

variable {r}

theorem linked_zero : ∃ c, Linked r 0 0 ⟨.idle, []⟩ c := by
  have hr : Reset (r.state 0) := r.starts
  obtain ⟨mem, hmem⟩ := hr.con
  have hreach : AsyncFifo.Reachable (r.state 0).con [] [] := hmem ▸ .reset mem
  obtain ⟨c, hc⟩ := AsyncFifo.inv_of_reachable hreach
  refine ⟨c, by decide, ⟨false, ?_⟩, rfl, .idle hr.fsm ⟨hr.conPop, rfl⟩, hc⟩
  obtain ⟨h1, h2, h3, h4, h5, h6, h7, h8⟩ := hr.toggles
  obtain ⟨h9, h10⟩ := hr.quiet
  simp [toggle, Toggle.pending, h1, h2, h3, h4, h5, h6, h7, h8, h9, h10]

variable {t k : ℕ} {sp : Spec} {c : Crossing.Counts} {n : ℕ}

theorem Linked.step (h : Linked r t k sp c)
    (hs : Sampling p (r.state t) (r.input t)) :
    ∃ k' sp' c', Linked r (t + 1) k' sp' c' ∧
      Toggle.Next k (asks (r.state t) (r.input t)) (r.input t).a.isSome (r.input t).c.isSome k' ∧
      ((r.input t).a = none → c'.r1 = c.r1 ∧ c'.r2 = c.r2) ∧
      ((r.input t).a.isSome = true → c.written ≤ c'.r1 ∧ c'.r2 = c.r1) := by
  obtain ⟨req, ht⟩ := h.toggles
  obtain ⟨k', hk', req', sp', ht', hnext, hev, hcons⟩ :=
    h.consistent.follows h.fifo ht h.le hs
  obtain ⟨c', hc', hnone, hsome⟩ := h.fifo.step hs.con
  have hst : r.state (t + 1) = Host.step p (r.state t) (r.input t) := r.steps t
  refine ⟨k', sp', c', ⟨hk', ⟨req', hst ▸ ht'⟩, ?_, ?_, ?_⟩, hnext, fun ha => hnone ?_,
    fun ha => hsome ?_⟩
  · rw [trace, Clocked.emitted_succ, Spec.run_append]
    show (Spec.run (trace r t)).bind _ = _
    rw [h.spec]
    exact hev
  · rw [hst, received, drained, Clocked.emitted_succ, Clocked.emitted_succ]
    exact hcons
  · rw [hst, received, drained, Clocked.emitted_succ, Clocked.emitted_succ]
    exact hc'
  · rw [ha]
    rfl
  · rw [Option.isSome_map]
    exact ha

theorem linked (hs : ∀ t, Sampling p (r.state t) (r.input t)) (t : ℕ) :
    ∃ k sp c, Linked r t k sp c := by
  induction t with
  | zero =>
    obtain ⟨c, hc⟩ := linked_zero (r := r)
    exact ⟨0, _, c, hc⟩
  | succ t ih =>
    obtain ⟨k, sp, c, h⟩ := ih
    obtain ⟨k', sp', c', h', -⟩ := h.step (hs t)
    exact ⟨k', sp', c', h'⟩

theorem Linked.bytes (h : Linked r t k sp c) :
    sp.bytes <+: drained r t := by
  have hset {bytes : List (BitVec 8)} (hx : Settled (r.state t) bytes (drained r t)) :
      bytes <+: drained r t := hx.outs ▸ List.prefix_rfl
  cases h.consistent with
  | idle _ settled | asked _ _ _ settled | firing _ _ settled | captured _ settled
  | acked _ _ _ settled | answered _ _ settled => exact hset settled
  | plain _ _ owed =>
    cases owed with
    | nothing _ settled => exact hset settled
    | popping _ _ _ _ _ ho => exact ho ▸ List.prefix_rfl
    | popped b _ settled => exact (List.prefix_append _ [b]).trans (hset settled)

def waiting (s : State) : Prop := s.a.fsm = .memW ∨ s.a.fsm = .memR

theorem Linked.pos (h : Linked r t k sp c)
    (hw : waiting (r.state t)) : 0 < k := by
  have hanswer {x : Access} (hf : (r.state t).a.fsm = x.answer) : False := by
    unfold Access.answer at hf
    rcases hw with hw | hw <;> rw [hw] at hf <;> split at hf <;> cases hf
  cases h.consistent with
  | idle fsm _ => rcases hw with hw | hw <;> rw [hw] at fsm <;> cases fsm
  | plain _ fsm _ => exact (hanswer fsm).elim
  | answered fsm _ _ => exact (hanswer fsm).elim
  | asked hk _ _ _ => omega
  | firing _ _ _ => decide
  | captured _ _ => decide
  | acked hk _ _ _ => omega

theorem not_asks_of_waiting {s : State} {i : Input} (hw : waiting s) : asks s i = false := by
  cases ha : i.a with
  | none => simp [asks, ha]
  | some e => rcases hw with hw | hw <;> simp [asks, ha, doWr, doRd, hw]

def brings (k : ℕ) (i : Input) : Bool := if 4 ≤ k then i.c.isSome else i.a.isSome

theorem next_le {k' : ℕ} {a c : Bool} (h : Toggle.Next k false a c k') : k' ≤ k := by
  unfold Toggle.Next at h
  rw [if_neg (by decide)] at h
  split_ifs at h <;> omega

theorem next_lt {k' : ℕ} {i : Input} (hk : 0 < k) (hb : brings k i = true)
    (h : Toggle.Next k false i.a.isSome i.c.isSome k') : k' < k := by
  unfold Toggle.Next at h
  unfold brings at hb
  rw [if_neg (by decide)] at h
  by_cases h5 : 4 < k
  · rw [if_pos h5] at h
    rw [if_pos (by omega)] at hb
    rw [hb, Bool.toNat_true] at h
    omega
  · rw [if_neg h5] at h
    by_cases h4 : k = 4
    · rw [if_pos (by omega)] at hb
      rw [if_pos h4, if_pos hb] at h
      omega
    · rw [if_neg (by omega)] at hb
      rw [if_neg h4, hb, Bool.toNat_true] at h
      omega

theorem not_waiting_forever (hs : ∀ t, Sampling p (r.state t) (r.input t))
    (ha : ∀ t, ∃ u ≥ t, (r.input u).a.isSome = true)
    (hc : ∀ t, ∃ u ≥ t, (r.input u).c.isSome = true) (n : ℕ) :
    ∀ t k sp c, k ≤ n → Linked r t k sp c → (∀ u ≥ t, waiting (r.state u)) → False := by
  induction n with
  | zero =>
    intro t k sp c hk h hw
    have := h.pos (hw t le_rfl)
    omega
  | succ n ih =>
    intro t k sp c hk h hw
    have hpos := h.pos (hw t le_rfl)
    obtain ⟨u, hu, hb⟩ : ∃ u ≥ t, brings k (r.input u) = true := by
      unfold brings
      split
      · exact hc t
      · exact ha t
    -- the rank does not rise on the way to the edge
    have hway (v : ℕ) (hv : t ≤ v) : v ≤ u → ∃ k' sp' c', k' ≤ k ∧ Linked r v k' sp' c' := by
      induction v, hv using Nat.le_induction with
      | base => exact fun _ => ⟨k, sp, c, le_rfl, h⟩
      | succ v hv ihv =>
        intro hvu
        obtain ⟨k₁, sp₁, c₁, hk₁, h₁⟩ := ihv (by omega)
        obtain ⟨k₂, sp₂, c₂, h₂, hn, -⟩ := h₁.step (hs v)
        rw [not_asks_of_waiting (hw v hv)] at hn
        exact ⟨k₂, sp₂, c₂, (next_le hn).trans hk₁, h₂⟩
    obtain ⟨k₁, sp₁, c₁, hk₁, h₁⟩ := hway u hu le_rfl
    rcases Nat.lt_or_ge k₁ k with hlt | hge
    · exact ih u k₁ sp₁ c₁ (by omega) h₁ fun v hv => hw v (by omega)
    · obtain rfl : k₁ = k := by omega
      obtain ⟨k₂, sp₂, c₂, h₂, hn, -⟩ := h₁.step (hs u)
      rw [not_asks_of_waiting (hw u hu)] at hn
      have := next_lt hpos hb hn
      exact ih (u + 1) k₂ sp₂ c₂ (by omega) h₂ fun v hv => hw v (by omega)

theorem step_waiting (hw : waiting (r.state t)) : waiting (r.state (t + 1)) ∨
    (r.state (t + 1)).a.fsm = .b ∨ (r.state (t + 1)).a.fsm = .r := by
  have hst : r.state (t + 1) = step p (r.state t) (r.input t) := r.steps t
  rw [hst]
  cases ha : (r.input t).a with
  | none => exact .inl (by simpa [step, ha, waiting] using hw)
  | some e =>
    rcases hw with hw | hw <;> cases hd : memDone (r.state t).a <;>
      simp [step, ha, ASide.step, hw, hd, ASide.sync, waiting]

theorem answered_of_waiting (hs : ∀ t, Sampling p (r.state t) (r.input t))
    (ha : ∀ t, ∃ u ≥ t, (r.input u).a.isSome = true)
    (hc : ∀ t, ∃ u ≥ t, (r.input u).c.isSome = true) (hw : waiting (r.state t)) :
    ∃ u > t, (r.state u).a.fsm = .b ∨ (r.state u).a.fsm = .r := by
  by_contra hno
  push Not at hno
  have hforever (u : ℕ) (hu : t ≤ u) : waiting (r.state u) := by
    induction u, hu using Nat.le_induction with
    | base => exact hw
    | succ u hu ih =>
      rcases step_waiting ih with h | h | h
      · exact h
      · exact absurd h (hno (u + 1) (by omega)).1
      · exact absurd h (hno (u + 1) (by omega)).2
  obtain ⟨k, sp, c, h⟩ := linked hs t
  exact not_waiting_forever hs ha hc k t k sp c le_rfl h hforever

theorem received_length_mono {u : ℕ} (h : t ≤ u) :
    (received r t).length ≤ (received r u).length :=
  (Clocked.emitted_mono _ h).length_le

/-- A received byte is within the write pointer's first flop after one edge of `aclk` and within the
second after two. -/
theorem seen_twice (hs : ∀ t, Sampling p (r.state t) (r.input t)) {v v' : ℕ}
    (hn : n < (received r t).length) (htv : t ≤ v) (hv : (r.input v).a.isSome = true)
    (hvv : v < v') (hv' : (r.input v').a.isSome = true) (u : ℕ) (hu : v + 1 ≤ u) :
    ∃ k sp c, Linked r u k sp c ∧ n < c.r1 ∧ (v' < u → n < c.r2) := by
  have hedge {u k r1 : ℕ} {sp : Spec} {c : Crossing.Counts} (h : Linked r u k sp c) (hu : t ≤ u)
      (hr1 : c.written ≤ r1) : n < r1 := by
    rw [h.fifo.written] at hr1
    exact hn.trans_le ((received_length_mono hu).trans hr1)
  induction u, hu using Nat.le_induction with
  | base =>
    obtain ⟨k, sp, c, h⟩ := linked hs v
    obtain ⟨k', sp', c', h', -, -, hsome⟩ := h.step (hs v)
    exact ⟨k', sp', c', h', hedge h htv (hsome hv).1, fun hlt => by omega⟩
  | succ u hu ih =>
    obtain ⟨k, sp, c, h, hr1, hr2⟩ := ih
    obtain ⟨k', sp', c', h', -, hnone, hsome⟩ := h.step (hs u)
    refine ⟨k', sp', c', h', ?_⟩
    cases ha : (r.input u).a with
    | none =>
      obtain ⟨h1, h2⟩ := hnone ha
      have hne : v' ≠ u := by
        rintro rfl
        simp [ha] at hv'
      rw [h1, h2]
      exact ⟨hr1, fun hlt => hr2 (by omega)⟩
    | some e =>
      obtain ⟨h1, h2⟩ := hsome (by rw [ha]; rfl)
      rw [h2]
      exact ⟨hedge h (by omega) h1, fun _ => hr1⟩

theorem Linked.shown {u : ℕ} (h : Linked r u k sp c)
    (hidle : (r.state u).a.fsm = .idle) (hn : sp.bytes.length ≤ n) (hr2 : n < c.r2) :
    (r.state u).con.rvalid = true := by
  have hbytes : sp.bytes = drained r u := by
    have hwait {x : Access} (hf : (r.state u).a.fsm = x.wait) : False := by
      unfold Access.wait at hf
      rw [hidle] at hf
      split at hf <;> cases hf
    have hanswer {x : Access} (hf : (r.state u).a.fsm = x.answer) : False := by
      unfold Access.answer at hf
      rw [hidle] at hf
      split at hf <;> cases hf
    cases h.consistent with
    | idle _ settled => exact settled.outs.symm
    | plain _ fsm _ | answered fsm _ _ => exact (hanswer fsm).elim
    | asked _ fsm _ _ | firing fsm _ _ | captured fsm _ | acked _ _ fsm _ => exact (hwait fsm).elim
  rw [h.fifo.encodes.rvalid_iff h.fifo.ordered, h.fifo.read, ← hbytes]
  omega

end run

/-- Whatever the clocks and the master do: each transaction makes its one pulse and finishes before
the next, window reads return the word of their pulse, and console reads the bytes in order. -/
theorem host_serves (p : Params) (r : Run p) (hs : ∀ t, Sampling p (r.state t) (r.input t)) :
    (∀ t, ∃ sp, Spec.run (trace r t) = some sp ∧ sp.bytes <+: received r t) ∧
    ((∀ t, ∃ u ≥ t, (r.input u).a.isSome = true) →
      (∀ t, ∃ u ≥ t, (r.input u).c.isSome = true) → ∀ t, waiting (r.state t) →
        ∃ u > t, (r.state u).a.fsm = .b ∨ (r.state u).a.fsm = .r) ∧
    ∀ t v v' u n, n < (received r t).length → t ≤ v → v < v' → v' < u →
      (r.input v).a.isSome = true → (r.input v').a.isSome = true →
      (r.state u).a.fsm = .idle →
      ∀ sp, Spec.run (trace r u) = some sp → sp.bytes.length ≤ n →
        (r.state u).con.rvalid = true := by
  refine ⟨fun t => ?_, fun ha hc t hw => answered_of_waiting hs ha hc hw, ?_⟩
  · obtain ⟨k, sp, c, h⟩ := linked hs t
    refine ⟨sp, h.spec, h.bytes.trans ?_⟩
    rw [h.fifo.order]
    exact List.take_prefix _ _
  · intro t v v' u n hn htv hvv hvu hv hv' hidle sp hsp hle
    obtain ⟨k, sp', c, h, -, hr2⟩ := seen_twice hs hn htv hv hvv hv' u (by omega)
    obtain rfl : sp' = sp := Option.some.inj (h.spec.symm.trans hsp)
    exact h.shown hidle hle (hr2 hvu)

def benchParams : Params := ⟨0#32, 0x4000#32, 0x4000#32, 0#32, 50000000#32⟩

def benchInput (s : State) : Input where
  a := some {
    awaddr := 0x00100004#32, awvalid := true, wdata := 0x13#32, wstrb := 0xF#4, wvalid := true
    bready := true, araddr := 0#32, arvalid := false, rready := true
    ackSeen := s.c.ackTgl, respSeen := s.c.resp, wgraySeen := s.con.wgray
    halted := false, exitCode := 0#32 }
  c := some {
    conValid := false, conData := 0#8
    reqSeen := s.a.reqTgl, rqSeen := s.a.rq, rgraySeen := s.con.rgray
    imem := fun _ => 0#32, dmem := fun _ => 0#32 }

def benchStart : State where
  a := ⟨.idle, false, false, ⟨false, false, 0#16, 0#32⟩, 0#32, false, false, false, false, false,
    false, 0#32⟩
  c := ⟨false, false, false, false, false, false, ⟨false, false, 0#16, 0#32⟩, 0#32, false, 0#32,
    0#32⟩
  con := AsyncFifo.reset fun _ => 0#8

def benchRun : Run benchParams :=
  (machine benchParams).runOf (fun _ => benchInput) benchStart
    ⟨rfl, rfl, rfl, ⟨rfl, rfl, rfl, rfl, rfl, rfl, rfl, rfl⟩, ⟨rfl, rfl⟩, _, rfl⟩

/-- The write of the first cycle is answered. -/
theorem benchRun_answers : waiting (benchRun.state 1) ∧
    ∃ u > 1, (benchRun.state u).a.fsm = .b ∨ (benchRun.state u).a.fsm = .r := by
  have hs (t : ℕ) : Sampling benchParams (benchRun.state t) (benchRun.input t) := by
    constructor
    · rintro e ⟨⟩
      exact .inl rfl
    · rintro e ⟨⟩ -
      rfl
    · rintro e ⟨⟩
      exact .inl rfl
    · rintro e ⟨⟩ -
      rfl
    · constructor
      · rintro e ⟨⟩
        exact fun i => .inl rfl
      · rintro e ⟨⟩
        exact fun i => .inl rfl
  have hw : waiting (benchRun.state 1) := .inl (by decide)
  exact ⟨hw, (host_serves benchParams benchRun hs).2.1 (fun t => ⟨t, le_rfl, rfl⟩)
    (fun t => ⟨t, le_rfl, rfl⟩) 1 hw⟩

end RiscvScratch.Host
