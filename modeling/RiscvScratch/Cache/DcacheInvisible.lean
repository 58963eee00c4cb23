import RiscvScratch.Cache.DcachePort

/-! The write-back cache is invisible to the core. The abstraction is `view`, where a valid line
overrides main memory; a clean line must agree with it. -/
namespace RiscvScratch.Cache.Dcache

variable {g : Geometry}

def view (g : Geometry) (s : State) (mem : MainMemory) (w : ℕ) : Word :=
  let i := w / g.lineWords % g.lines
  if s.valid i && s.tags i == w / g.lineWords / g.lines then s.lines i (w % g.lineWords)
  else mem w

structure Coherent (g : Geometry) (s : State) (mem : MainMemory) : Prop where
  lt : ∀ i, s.valid i = true → i < g.lines
  fits : ∀ i, s.valid i = true → g.Fits (s.tags i) i
  clean : ∀ i, s.valid i = true → s.dirty i = false → ∀ k < g.lineWords,
    s.lines i k = mem (g.lineNum (s.tags i) i * g.lineWords + k)

/-- What memory does in a cycle, once the request is known to be held: it answers the
request on the port, or nothing. -/
structure MemStep (g : Geometry) (s : State) (i : Input) (mem mem' : MainMemory) : Prop where
  quiet : i.mDone = false → mem' = mem
  write : i.mDone = true → s.mWe = true → mem' = mem.writeLine g s.mAddr (mWdata g s i)
  read : i.mDone = true → s.mWe = false →
    mem' = mem ∧ ∀ k < g.lineWords, i.mRdata k = mem.readLine g s.mAddr k
  asked : i.mDone = true → s.mReq = true

theorem view_addr (s : State) (mem : MainMemory) (addr : Word) :
    view g s mem (addr.toNat / 4) =
      if hit g s addr then rdata g s addr else mem (addr.toNat / 4) := by
  simp only [view, hit, rdata, Geometry.idx, Geometry.tag, Geometry.word, Geometry.lineOf_eq]

variable {s : State} {mem : MainMemory}

theorem Coherent.writeBack (h : Coherent g s mem) {j : ℕ}
    (hv : s.valid j = true) :
    let mem' := mem.writeLine g (g.lineAddr (s.tags j) j) (s.lines j)
    (∀ i, s.valid i = true → (s.dirty i = false ∨ i = j) → ∀ k < g.lineWords,
      s.lines i k = mem' (g.lineNum (s.tags i) i * g.lineWords + k)) ∧
    view g s mem' = view g s mem := by
  have hj := h.lt j hv
  have hl : g.lineOf (g.lineAddr (s.tags j) j) = g.lineNum (s.tags j) j :=
    g.lineOf_lineAddr (h.fits j hv)
  constructor
  · intro i hi hd k hk
    by_cases hij : i = j
    · subst hij
      rw [← hl, MainMemory.writeLine_line g mem hk]
    · rw [MainMemory.writeLine_of_ne, ← h.clean i hi (hd.resolve_right hij) k hk]
      rw [hl, mul_comm, Nat.mul_add_div g.lineWords_pos, Nat.div_eq_of_lt hk, add_zero]
      intro heq
      apply hij
      rw [← g.lineNum_mod (s.tags i) (h.lt i hi), heq, g.lineNum_mod _ hj]
  · funext w
    by_cases hw : w / g.lineWords = g.lineNum (s.tags j) j
    · simp [view, hw, g.lineNum_mod _ hj, g.lineNum_div _ hj, hv]
    · simp only [view]
      rw [MainMemory.writeLine_of_ne g mem (by rwa [hl])]

theorem Coherent.view_fill (h : Coherent g s mem) {addr : Word}
    (hd : (s.valid (g.idx addr) && s.dirty (g.idx addr)) = false) {line : Line}
    (hl : ∀ k < g.lineWords, line k = mem (g.lineOf addr * g.lineWords + k)) {s' : State}
    (hv : s'.valid = Function.update s.valid (g.idx addr) true)
    (ht : s'.tags = Function.update s.tags (g.idx addr) (g.tag addr))
    (hs : s'.lines = Function.update s.lines (g.idx addr) line) :
    view g s' mem = view g s mem := by
  funext w
  have hk : w % g.lineWords < g.lineWords := Nat.mod_lt _ g.lineWords_pos
  have hsplit : w / g.lineWords * g.lineWords + w % g.lineWords = w := by
    rw [mul_comm]
    exact Nat.div_add_mod _ _
  have hnum (t : ℕ) (e : t = w / g.lineWords / g.lines) :
      g.lineNum t (w / g.lineWords % g.lines) = w / g.lineWords := by
    rw [e, Geometry.lineNum, mul_comm]
    exact Nat.div_add_mod _ _
  -- whichever of the two lines covers `w` holds the content of memory there
  have hold : view g s mem w = mem w ∨ w / g.lineWords % g.lines ≠ g.idx addr := by
    by_cases hi : w / g.lineWords % g.lines = g.idx addr
    · left
      simp only [view]
      split
      · rename_i hh
        simp only [Bool.and_eq_true, beq_iff_eq] at hh
        have hc : s.dirty (w / g.lineWords % g.lines) = false := by
          rw [hi] at hh ⊢
          simpa [hh.1] using hd
        rw [h.clean _ hh.1 hc _ hk, hnum _ hh.2, hsplit]
      · rfl
    · exact .inr hi
  by_cases hi : w / g.lineWords % g.lines = g.idx addr
  · rw [hold.resolve_right (not_not.mpr hi)]
    simp only [view, hv, ht, hs, hi, Function.update_self, Bool.true_and]
    split
    · rename_i htag
      have hline : w / g.lineWords = g.lineOf addr := by
        rw [← hnum _ (beq_iff_eq.mp htag), hi, g.lineNum_tag_idx]
      rw [hl _ hk, ← hline, hsplit]
    · rfl
  · simp only [view, hv, ht, hs, Function.update_of_ne hi]

theorem view_write {s' : State} {addr v : Word}
    (hh : hit g s addr = true) (hv : s'.valid = s.valid) (ht : s'.tags = s.tags)
    (hs : s'.lines = Function.update s.lines (g.idx addr)
      (Function.update (s.lines (g.idx addr)) (g.word addr) v)) :
    view g s' mem = Function.update (view g s mem) (addr.toNat / 4) v := by
  funext w
  by_cases hw : w = addr.toNat / 4
  · subst hw
    have hh' : hit g s' addr = true := by rw [hit, hv, ht]; exact hh
    rw [view_addr, if_pos hh', Function.update_self, rdata, hs, Function.update_self,
      Function.update_self]
  · rw [Function.update_of_ne hw]
    simp only [view, hv, ht, hs]
    split
    · rename_i hc
      by_cases hi : w / g.lineWords % g.lines = g.idx addr
      · have hword : w % g.lineWords ≠ g.word addr := by
          intro he
          apply hw
          simp only [hit, hi, Bool.and_eq_true, beq_iff_eq] at hh hc
          have hline : w / g.lineWords = g.lineOf addr := by
            rw [← g.lineNum_tag_idx addr, Geometry.lineNum, ← hh.2, hc.2, ← hi, mul_comm]
            exact (Nat.div_add_mod _ _).symm
          rw [g.wordIndex_eq addr, ← hline, ← he, mul_comm]
          exact (Nat.div_add_mod _ _).symm
        rw [hi, Function.update_self, Function.update_of_ne hword]
      · rw [Function.update_of_ne hi]
    · rfl

def accepted (g : Geometry) (s : State) (i : Input) : Bool := ready g s i && i.we != 0#4

theorem Coherent.step {i : Input} {mem' : MainMemory} (h : Coherent g s mem)
    (hp : Port g s i) (hm : MemStep g s i mem mem') :
    Coherent g (step g s i) mem' ∧ view g (step g s i) mem' =
      if accepted g s i then Function.update (view g s mem) (i.addr.toNat / 4)
        (mergeBytes i.we i.wdata (view g s mem (i.addr.toNat / 4)))
      else view g s mem := by
  have he := step_edge g s i
  generalize Dcache.step g s i = s' at he ⊢
  have hbusy : s.fsm ≠ .idle → accepted g s i = false := fun hf => by
    simp [accepted, ready_of_not_idle hf]
  have hquiet : s.mReq = false → mem' = mem := fun hr => by
    apply hm.quiet
    by_contra hd
    simp [hm.asked (by simpa using hd)] at hr
  have hidle : s.fsm = .idle → mem' = mem := fun hf => by
    simp only [Port, hf] at hp
    exact hquiet hp
  have hsweep : s.fsm = .clean → s.cwb = false → mem' = mem := fun hf hb => by
    simp only [Port, hf] at hp
    exact hquiet (hp.2.1.trans hb)
  cases he with
  | sweep hf hq _ _ | rest hf hq =>
    rw [hidle hf]
    simp only [accepted, ready, hq, Bool.false_and, Bool.false_eq_true, ↓reduceIte]
    exact ⟨⟨h.lt, h.fits, h.clean⟩, rfl⟩
  | readHit hf hq hh hw =>
    rw [hidle hf]
    simp only [accepted, hw, bne_self_eq_false, Bool.and_false, Bool.false_eq_true, ↓reduceIte]
    exact ⟨⟨h.lt, h.fits, h.clean⟩, rfl⟩
  | writeHit hf hq hh hw =>
    have hacc : accepted g s i = true := by simp [accepted, ready, hf, hq, hh, hw]
    have hview : view g s mem (i.addr.toNat / 4) = rdata g s i.addr := by
      rw [view_addr, if_pos hh]
    rw [hidle hf, if_pos hacc, hview]
    refine ⟨⟨h.lt, h.fits, fun j hj hjd k hk => ?_⟩, view_write hh rfl rfl rfl⟩
    have hne : j ≠ g.idx i.addr := by
      rintro rfl
      simp at hjd
    simpa [hne] using h.clean j hj (by simpa [hne] using hjd) k hk
  | evict hf hq hh hv hd | fetch hf hq hh hd =>
    rw [hidle hf]
    simp only [accepted, ready_of_miss hh, Bool.false_and, Bool.false_eq_true, ↓reduceIte]
    exact ⟨⟨h.lt, h.fits, h.clean⟩, rfl⟩
  | wait hn hd _ =>
    rw [hbusy hn, hm.quiet hd]
    exact ⟨⟨h.lt, h.fits, h.clean⟩, rfl⟩
  | evicted hf hd =>
    rw [hbusy (by simp [hf])]
    simp only [Port, hf] at hp
    obtain ⟨-, hw, -, ha, hv, -⟩ := hp
    have hwb := h.writeBack hv
    have hmem := hm.write hd hw
    simp only [ha, mWdata, hf, reduceCtorEq, ↓reduceIte] at hmem
    rw [← hmem] at hwb
    refine ⟨⟨h.lt, h.fits, fun k hk hkd => hwb.1 k hk ?_⟩, hwb.2⟩
    by_cases hkj : k = g.idx i.addr
    · exact .inr hkj
    · exact .inl (by simpa [hkj] using hkd)
  | filled hf hd =>
    rw [hbusy (by simp [hf])]
    simp only [Port, hf] at hp
    obtain ⟨-, hw, -, ha, hvd, -⟩ := hp
    obtain ⟨hmem, hrd⟩ := hm.read hd hw
    have hline : ∀ k < g.lineWords, i.mRdata k = mem (g.lineOf i.addr * g.lineWords + k) := by
      intro k hk
      rw [hrd k hk, MainMemory.readLine, ha, g.lineOf_lineAddr (g.fits_addr _),
        g.lineNum_tag_idx]
    rw [hmem]
    refine ⟨⟨fun j hj => ?_, fun j hj => ?_, fun j hj hjd k hk => ?_⟩,
      h.view_fill hvd hline rfl rfl rfl⟩
    all_goals by_cases hji : j = g.idx i.addr
    · exact hji ▸ g.idx_lt _
    · exact h.lt j (by simpa [hji] using hj)
    · simpa [hji] using g.fits_addr i.addr
    · simpa [hji] using h.fits j (by simpa [hji] using hj)
    · simpa [hji, g.lineNum_tag_idx] using hline k hk
    · simpa [hji] using h.clean j (by simpa [hji] using hj) (by simpa [hji] using hjd) k hk
  | swept hf hb _ | sweepWb hf hb _ _ _ | sweepNext hf hb _ _ =>
    rw [hbusy (by simp [hf]), hsweep hf hb]
    exact ⟨⟨h.lt, h.fits, h.clean⟩, rfl⟩
  | sweepDone hf hb hd =>
    rw [hbusy (by simp [hf])]
    simp only [Port, hf] at hp
    obtain ⟨hw, hlt, hv, ha⟩ := hp.2.2 hb
    have hci : ciIdx g s = s.ci := Nat.mod_eq_of_lt hlt
    have hwb := h.writeBack hv
    have hmem := hm.write hd hw
    simp only [ha, mWdata, hf, hci, ↓reduceIte] at hmem
    rw [← hmem] at hwb
    refine ⟨⟨h.lt, h.fits, fun k hk hkd => hwb.1 k hk ?_⟩, hwb.2⟩
    by_cases hkj : k = s.ci
    · exact .inr hkj
    · exact .inl (by simpa [hkj, hci] using hkd)

section run
variable (r : (machine g).Run) (mem : ℕ → MainMemory)

/-- The core holds address, mask and data of a request until `ready`. -/
def CoreHolds : Prop :=
  Clocked.Holds (fun t => (r.input t).req) (fun t => ready g (r.state t) (r.input t))
    (fun t => ((r.input t).addr, (r.input t).we, (r.input t).wdata))

/-- A line memory with content `mem t` in cycle `t`: it answers with a one-cycle `done`, as late as
it likes, a request sampled since the previous answer. -/
structure LineMemory : Prop where
  quiet : ∀ t, (r.input t).mDone = false → mem (t + 1) = mem t
  answer : ∀ t, (r.input t).mDone = true → ∃ a,
    Clocked.Sampled (fun u => (r.state u).mReq) (fun u => (r.input u).mDone) a t ∧
    if (r.state a).mWe then
      mem (t + 1) = (mem t).writeLine g (r.state a).mAddr (mWdata g (r.state a) (r.input a))
    else mem (t + 1) = mem t ∧
      ∀ k < g.lineWords, (r.input t).mRdata k = (mem t).readLine g (r.state a).mAddr k

/-- Lane `k` of word `w` as the last accepted masked write before cycle `t` left it, or as
it was in the initial memory. -/
def lastByte (w k : ℕ) : ℕ → BitVec 8
  | 0 => lane (mem 0 w) k
  | t + 1 =>
    let i := r.input t
    if ready g (r.state t) i && i.we.getLsbD k && i.addr.toNat / 4 == w then lane i.wdata k
    else lastByte w k t

variable {r mem}

theorem CoreHolds.repeats (hc : CoreHolds r) (t : ℕ) :
    Repeats g (r.state t) (r.input t) (r.input (t + 1)) := by
  intro hq hr
  obtain ⟨hq', hp⟩ := hc t hq hr
  exact ⟨hq', congrArg Prod.fst hp⟩

theorem CoreHolds.port (hc : CoreHolds r) (t : ℕ) : Port g (r.state t) (r.input t) := by
  induction t with
  | zero =>
    obtain ⟨tags, lines, h⟩ := r.starts
    rw [h]
    exact (rfl : false = false)
  | succ t ih =>
    rw [r.steps]
    exact ih.step (hc.repeats t)

theorem CoreHolds.mem_holds (hc : CoreHolds r) :
    Clocked.Holds (fun t => (r.state t).mReq) (fun t => (r.input t).mDone)
      (fun t => ((r.state t).mWe, (r.state t).mAddr, mWdata g (r.state t) (r.input t))) := by
  intro t hreq hd
  obtain ⟨h1, h2, h3, h4⟩ := (hc.port t).held (hc.repeats t) hreq hd
  have hs : r.state (t + 1) = Dcache.step g (r.state t) (r.input t) := r.steps t
  simp only [hs]
  exact ⟨h1, by rw [h2, h3, h4]⟩

theorem LineMemory.memStep (hm : LineMemory r mem) (hc : CoreHolds r) (t : ℕ) :
    MemStep g (r.state t) (r.input t) (mem t) (mem (t + 1)) := by
  cases hd : (r.input t).mDone with
  | false => exact ⟨fun _ => hm.quiet t hd, by simp [hd], by simp [hd], by simp [hd]⟩
  | true =>
    obtain ⟨a, hs, ha⟩ := hm.answer t hd
    obtain ⟨hreq, hpay⟩ := hc.mem_holds.sampled hs
    simp only [Prod.mk.injEq] at hpay
    rw [← hpay.1, ← hpay.2.1, ← hpay.2.2] at ha
    refine ⟨by simp [hd], fun _ hw => ?_, fun _ hw => ?_, fun _ => hreq⟩
    · rwa [if_pos hw] at ha
    · rwa [if_neg (by simp [hw])] at ha

theorem LineMemory.coherent (hm : LineMemory r mem) (hc : CoreHolds r) (t : ℕ) :
    Coherent g (r.state t) (mem t) := by
  induction t with
  | zero =>
    obtain ⟨tags, lines, h⟩ := r.starts
    rw [h]
    exact ⟨by simp [reset], by simp [reset], by simp [reset]⟩
  | succ t ih =>
    rw [r.steps]
    exact (ih.step (hc.port t) (hm.memStep hc t)).1

theorem LineMemory.lane_view (hm : LineMemory r mem) (hc : CoreHolds r) (w : ℕ) {k : ℕ}
    (hk : k < 4) (t : ℕ) :
    lane (view g (r.state t) (mem t) w) k = lastByte r mem w k t := by
  induction t with
  | zero =>
    obtain ⟨tags, lines, h⟩ := r.starts
    simp [h, view, reset, lastByte]
  | succ t ih =>
    have hs : r.state (t + 1) = Dcache.step g (r.state t) (r.input t) := r.steps t
    have hv := ((hm.coherent hc t).step (hc.port t) (hm.memStep hc t)).2
    rw [hs, hv, lastByte]
    by_cases hacc : accepted g (r.state t) (r.input t) = true
    · have hr : ready g (r.state t) (r.input t) = true := by
        simp only [accepted, Bool.and_eq_true] at hacc
        exact hacc.1
      by_cases hw : w = (r.input t).addr.toNat / 4
      · subst hw
        simp only [hacc, ↓reduceIte, Function.update_self, lane_mergeBytes _ _ _ hk, hr, ih,
          Bool.true_and, beq_self_eq_true, Bool.and_true]
      · have hw' : ((r.input t).addr.toNat / 4 == w) = false := by
          simpa using fun h => hw h.symm
        simp only [hacc, ↓reduceIte, Function.update_of_ne hw, ih, hw', Bool.and_false,
          Bool.false_eq_true]
    · -- a request that is ready and not accepted has an empty mask
      have hno : (ready g (r.state t) (r.input t) && (r.input t).we.getLsbD k) = false := by
        by_contra hne
        simp only [Bool.not_eq_false, Bool.and_eq_true] at hne
        apply hacc
        simp only [accepted, hne.1, Bool.true_and, bne_iff_ne]
        intro h0
        simp [h0] at hne
      simp only [hacc, hno, Bool.false_and, Bool.false_eq_true, ↓reduceIte, ih]

/-- Every read returns, in each byte lane, what an accepted masked write left there last, or the
initial content of memory. -/
theorem read_lastByte (g : Geometry) (r : (machine g).Run) (mem : ℕ → MainMemory)
    (hc : CoreHolds r) (hm : LineMemory r mem) (t : ℕ)
    (hr : ready g (r.state t) (r.input t) = true) (k : ℕ) (hk : k < 4) :
    lane (rdata g (r.state t) (r.input t).addr) k =
      lastByte r mem ((r.input t).addr.toNat / 4) k t := by
  have hh : hit g (r.state t) (r.input t).addr = true := by
    simp only [ready, Bool.and_eq_true] at hr
    exact hr.1.2
  rw [← hm.lane_view hc _ hk, view_addr, if_pos hh]

end run

/-- Two lines of two words. The core writes a word at address 0 and then reads it back forever. -/
def writeThenRead : (machine ⟨1, 1⟩).Run :=
  (machine ⟨1, 1⟩).runOf
    (fun t s => ⟨0#32, true, if t < 3 then 0xF#4 else 0#4, 0x11223344#32, false, s.mReq,
      fun _ => 0#32⟩)
    (reset (fun _ => 0) (fun _ _ => 0#32)) ⟨_, _, rfl⟩

private theorem writeThenRead_state (t : ℕ) :
    writeThenRead.state (t + 3) = writeThenRead.state 3 ∧
      writeThenRead.input (t + 3) = writeThenRead.input 3 := by
  have hin (t : ℕ) (hs : writeThenRead.state (t + 3) = writeThenRead.state 3) :
      writeThenRead.input (t + 3) = writeThenRead.input 3 := by
    have h3 : ¬ t + 3 < 3 := by omega
    simp only [writeThenRead, Clocked.Machine.runOf] at hs ⊢
    simp only [hs, h3, lt_irrefl]
  induction t with
  | zero => exact ⟨rfl, rfl⟩
  | succ t ih =>
    have hs : writeThenRead.state (t + 1 + 3) = writeThenRead.state 3 := by
      rw [Nat.add_right_comm, writeThenRead.steps, ih.1, ih.2]
      rfl
    exact ⟨hs, hin (t + 1) hs⟩

private theorem writeThenRead_ready (t : ℕ) :
    ready ⟨1, 1⟩ (writeThenRead.state (t + 2)) (writeThenRead.input (t + 2)) = true ∧
      (writeThenRead.input (t + 2)).mDone = false := by
  cases t with
  | zero => exact ⟨by decide, by decide⟩
  | succ t =>
    obtain ⟨hs, hi⟩ := writeThenRead_state t
    rw [Nat.add_right_comm, hs, hi]
    exact ⟨by decide, by decide⟩

private theorem writeThenRead_holds : CoreHolds writeThenRead := by
  intro t hq hr
  match t with
  | 0 | 1 => exact ⟨rfl, rfl⟩
  | t + 2 => simp [(writeThenRead_ready t).1] at hr

private theorem writeThenRead_memory : LineMemory writeThenRead (fun _ _ => 0#32) where
  quiet _ _ := rfl
  answer t hd := by
    match t with
    | 0 => exact absurd hd (by decide)
    | 1 =>
      refine ⟨1, ⟨le_rfl, rfl, fun u h1 h2 => by omega⟩, ?_⟩
      exact ⟨rfl, fun k _ => rfl⟩
    | t + 2 => simp [(writeThenRead_ready t).2] at hd

theorem read_lastByte_written :
    ready ⟨1, 1⟩ (writeThenRead.state 3) (writeThenRead.input 3) = true ∧
    lane (rdata ⟨1, 1⟩ (writeThenRead.state 3) (writeThenRead.input 3).addr) 1 =
      lastByte writeThenRead (fun _ _ => 0#32) 0 1 3 ∧
    lastByte writeThenRead (fun _ _ => 0#32) 0 1 3 = 0x33#8 :=
  ⟨by decide, read_lastByte ⟨1, 1⟩ writeThenRead _ writeThenRead_holds writeThenRead_memory 3
    (by decide) 1 (by decide), by decide⟩

end RiscvScratch.Cache.Dcache
