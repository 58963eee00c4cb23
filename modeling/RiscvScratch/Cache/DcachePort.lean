import RiscvScratch.Cache.Dcache

/-! What one clock edge of the data cache can do, and the memory port it owns. The port invariant
needs only a core that repeats an unanswered request. -/
namespace RiscvScratch.Cache.Dcache

variable {g : Geometry}

/-- The memory port belongs to the state of the controller; in `S_WB` and `S_FILL` also to the live
core address. -/
def Port (g : Geometry) (s : State) (i : Input) : Prop :=
  match s.fsm with
  | .idle => s.mReq = false
  | .wb => s.mReq = true ∧ s.mWe = true ∧ i.req = true ∧
      s.mAddr = g.lineAddr (s.tags (g.idx i.addr)) (g.idx i.addr) ∧
      s.valid (g.idx i.addr) = true ∧ hit g s i.addr = false
  | .fill => s.mReq = true ∧ s.mWe = false ∧ i.req = true ∧
      s.mAddr = g.lineAddr (g.tag i.addr) (g.idx i.addr) ∧
      (s.valid (g.idx i.addr) && s.dirty (g.idx i.addr)) = false ∧ hit g s i.addr = false
  | .clean => s.ci ≤ g.lines ∧ s.mReq = s.cwb ∧ (s.cwb = true → s.mWe = true ∧
      s.ci < g.lines ∧ s.valid s.ci = true ∧ s.mAddr = g.lineAddr (s.tags s.ci) s.ci)

def Repeats (g : Geometry) (s : State) (i i' : Input) : Prop :=
  i.req = true → ready g s i = false → i'.req = true ∧ i'.addr = i.addr

inductive Edge (g : Geometry) (s : State) (i : Input) : State → Prop
  | sweep : s.fsm = .idle → i.req = false → i.clean = true → s.cleaned = false →
      Edge g s i { s with cleaned := s.cleaned && i.clean, ci := 0, cwb := false, fsm := .clean }
  | rest : s.fsm = .idle → i.req = false →
      Edge g s i { s with cleaned := s.cleaned && i.clean }
  | readHit : s.fsm = .idle → i.req = true → hit g s i.addr = true → i.we = 0#4 →
      Edge g s i { s with cleaned := s.cleaned && i.clean }
  | writeHit : s.fsm = .idle → i.req = true → hit g s i.addr = true → i.we ≠ 0#4 →
      Edge g s i { s with
        cleaned := s.cleaned && i.clean
        lines := Function.update s.lines (g.idx i.addr)
          (Function.update (s.lines (g.idx i.addr)) (g.word i.addr) (newWord g s i))
        dirty := Function.update s.dirty (g.idx i.addr) true }
  | evict : s.fsm = .idle → i.req = true → hit g s i.addr = false →
      s.valid (g.idx i.addr) = true → s.dirty (g.idx i.addr) = true →
      Edge g s i { s with
        cleaned := s.cleaned && i.clean, mReq := true, mWe := true, fsm := .wb
        mAddr := g.lineAddr (s.tags (g.idx i.addr)) (g.idx i.addr) }
  | fetch : s.fsm = .idle → i.req = true → hit g s i.addr = false →
      (s.valid (g.idx i.addr) && s.dirty (g.idx i.addr)) = false →
      Edge g s i { s with
        cleaned := s.cleaned && i.clean, mReq := true, mWe := false, fsm := .fill
        mAddr := g.lineAddr (g.tag i.addr) (g.idx i.addr) }
  | wait : s.fsm ≠ .idle → i.mDone = false → s.fsm ≠ .clean ∨ s.cwb = true →
      Edge g s i { s with cleaned := s.cleaned && i.clean }
  | evicted : s.fsm = .wb → i.mDone = true →
      Edge g s i { s with
        cleaned := s.cleaned && i.clean
        dirty := Function.update s.dirty (g.idx i.addr) false
        mWe := false, fsm := .fill
        mAddr := g.lineAddr (g.tag i.addr) (g.idx i.addr) }
  | filled : s.fsm = .fill → i.mDone = true →
      Edge g s i { s with
        cleaned := s.cleaned && i.clean
        lines := Function.update s.lines (g.idx i.addr) i.mRdata
        tags := Function.update s.tags (g.idx i.addr) (g.tag i.addr)
        valid := Function.update s.valid (g.idx i.addr) true
        dirty := Function.update s.dirty (g.idx i.addr) false
        mReq := false, fsm := .idle }
  | swept : s.fsm = .clean → s.cwb = false → s.ci = g.lines →
      Edge g s i { s with cleaned := true, fsm := .idle }
  | sweepWb : s.fsm = .clean → s.cwb = false → s.ci ≠ g.lines →
      s.valid (ciIdx g s) = true → s.dirty (ciIdx g s) = true →
      Edge g s i { s with
        cleaned := s.cleaned && i.clean, mReq := true, mWe := true, cwb := true
        mAddr := g.lineAddr (s.tags (ciIdx g s)) (ciIdx g s) }
  | sweepNext : s.fsm = .clean → s.cwb = false → s.ci ≠ g.lines →
      (s.valid (ciIdx g s) && s.dirty (ciIdx g s)) = false →
      Edge g s i { s with cleaned := s.cleaned && i.clean, ci := s.ci + 1 }
  | sweepDone : s.fsm = .clean → s.cwb = true → i.mDone = true →
      Edge g s i { s with
        cleaned := s.cleaned && i.clean
        dirty := Function.update s.dirty (ciIdx g s) false
        mReq := false, mWe := false, cwb := false, ci := s.ci + 1 }

theorem step_edge (g : Geometry) (s : State) (i : Input) : Edge g s i (step g s i) := by
  unfold step
  cases hf : s.fsm with
  | idle =>
    cases hq : i.req with
    | false =>
      by_cases hc : (i.clean && !s.cleaned) = true
      · have hc' := hc
        simp only [Bool.and_eq_true, Bool.not_eq_true'] at hc'
        simpa [hf, hc] using Edge.sweep hf hq hc'.1 hc'.2
      · simpa [hf, hc] using Edge.rest (g := g) hf hq
    | true =>
      cases hh : hit g s i.addr with
      | true =>
        by_cases hw : i.we = 0#4
        · simpa [hf, hh, onHit, hw] using Edge.readHit hf hq hh hw
        · simpa [hf, hh, onHit, hw, newWord, rdata] using Edge.writeHit hf hq hh hw
      | false =>
        cases hd : s.valid (g.idx i.addr) && s.dirty (g.idx i.addr) with
        | true =>
          simp only [Bool.and_eq_true] at hd
          simpa [hf, hh, onMiss, hd] using Edge.evict hf hq hh hd.1 hd.2
        | false => simpa [hf, hh, onMiss, hd] using Edge.fetch hf hq hh hd
  | wb =>
    cases hd : i.mDone with
    | true => simpa [hf, onWb, hd] using Edge.evicted (g := g) hf hd
    | false =>
      have hn : s.fsm ≠ .idle ∧ s.fsm ≠ .clean := by simp [hf]
      simpa [hf, onWb, hd] using Edge.wait (g := g) hn.1 hd (.inl hn.2)
  | fill =>
    cases hd : i.mDone with
    | true => simpa [hf, onFill, hd] using Edge.filled (g := g) hf hd
    | false =>
      have hn : s.fsm ≠ .idle ∧ s.fsm ≠ .clean := by simp [hf]
      simpa [hf, onFill, hd] using Edge.wait (g := g) hn.1 hd (.inl hn.2)
  | clean =>
    cases hb : s.cwb with
    | true =>
      cases hd : i.mDone with
      | true => simpa [hf, onClean, hb, hd, ciIdx] using Edge.sweepDone (g := g) hf hb hd
      | false =>
        have hn : s.fsm ≠ .idle := by simp [hf]
        simpa [hf, onClean, hb, hd] using Edge.wait (g := g) hn hd (.inr hb)
    | false =>
      by_cases hci : s.ci = g.lines
      · simpa [hf, onClean, hb, hci] using Edge.swept (i := i) hf hb hci
      · cases hd : s.valid (ciIdx g s) && s.dirty (ciIdx g s) with
        | true =>
          simp only [Bool.and_eq_true] at hd
          have hd' := hd
          simp only [ciIdx] at hd'
          simpa [hf, onClean, hb, hci, ciIdx, hd'] using Edge.sweepWb (i := i) hf hb hci hd.1 hd.2
        | false =>
          have hd' := hd
          simp only [ciIdx] at hd'
          simpa [hf, onClean, hb, hci, ciIdx, hd'] using Edge.sweepNext (i := i) hf hb hci hd

variable {s : State} {i : Input}

theorem ready_of_not_idle (h : s.fsm ≠ .idle) : ready g s i = false := by
  simp [ready, h]

theorem ready_of_miss (h : hit g s i.addr = false) :
    ready g s i = false := by
  simp [ready, h]

theorem Port.step {i' : Input} (h : Port g s i) (hr : Repeats g s i i') :
    Port g (step g s i) i' := by
  have he := step_edge g s i
  generalize Dcache.step g s i = s' at he ⊢
  cases he with
  | sweep hf _ _ _ =>
    simp only [Port, hf] at h
    simp [Port, h]
  | rest hf _ | readHit hf _ _ _ | writeHit hf _ _ _ =>
    simp only [Port, hf] at h ⊢
    exact h
  | evict hf hq hh hv _ | fetch hf hq hh hv =>
    obtain ⟨hq', ha⟩ := hr hq (ready_of_miss hh)
    unfold Port
    rw [ha]
    exact ⟨rfl, rfl, hq', rfl, hv, hh⟩
  | wait hn _ _ =>
    cases hf : s.fsm with
    | idle => exact absurd hf hn
    | wb | fill =>
      simp only [Port, hf] at h ⊢
      obtain ⟨hq', ha⟩ := hr h.2.2.1 (ready_of_not_idle hn)
      rw [ha]
      exact ⟨h.1, h.2.1, hq', h.2.2.2⟩
    | clean =>
      simp only [Port, hf] at h ⊢
      exact h
  | evicted hf _ =>
    simp only [Port, hf] at h
    obtain ⟨hm, -, hq, -, -, hh⟩ := h
    obtain ⟨hq', ha⟩ := hr hq (ready_of_not_idle (by simp [hf]))
    unfold Port
    rw [ha]
    exact ⟨hm, rfl, hq', rfl, by simp, hh⟩
  | filled _ _ => exact (rfl : false = false)
  | swept hf hb _ =>
    simp only [Port, hf] at h
    exact h.2.1.trans hb
  | sweepWb hf hb hci hv _ =>
    simp only [Port, hf] at h
    have hlt : s.ci < g.lines := lt_of_le_of_ne h.1 hci
    rw [ciIdx, Nat.mod_eq_of_lt hlt] at hv ⊢
    simpa [Port, hf, hv, hlt] using h.1
  | sweepNext hf hb hci _ =>
    simp only [Port, hf] at h ⊢
    refine ⟨lt_of_le_of_ne h.1 hci, h.2.1, fun hc => ?_⟩
    simp [hb] at hc
  | sweepDone hf hb _ =>
    simp only [Port, hf] at h
    have hlt := (h.2.2 hb).2.1
    simpa [Port, hf] using hlt

theorem Port.held {i' : Input} (h : Port g s i) (hr : Repeats g s i i')
    (hreq : s.mReq = true) (hd : i.mDone = false) :
    (Dcache.step g s i).mReq = true ∧ (Dcache.step g s i).mWe = s.mWe ∧
    (Dcache.step g s i).mAddr = s.mAddr ∧ mWdata g (Dcache.step g s i) i' = mWdata g s i := by
  have he := step_edge g s i
  generalize Dcache.step g s i = s' at he ⊢
  have hidle : s.fsm ≠ .idle := fun hf => by simp [Port, hf, hreq] at h
  have hsweep : s.fsm = .clean → s.cwb = true := fun hf => by
    simp only [Port, hf] at h
    exact h.2.1 ▸ hreq
  cases he with
  | sweep hf _ _ _ | rest hf _ | readHit hf _ _ _ | writeHit hf _ _ _ | evict hf _ _ _ _
  | fetch hf _ _ _ => exact absurd hf hidle
  | evicted _ hd' | filled _ hd' | sweepDone _ _ hd' => simp [hd] at hd'
  | swept hf hb _ | sweepWb hf hb _ _ _ | sweepNext hf hb _ _ => simp [hsweep hf] at hb
  | wait _ _ _ =>
    refine ⟨hreq, rfl, rfl, ?_⟩
    by_cases hf : s.fsm = .clean
    · simp only [mWdata, hf, ↓reduceIte, ciIdx]
    · have hq : i.req = true := by
        cases hfs : s.fsm with
        | idle => exact absurd hfs hidle
        | clean => exact absurd hfs hf
        | wb | fill => simp only [Port, hfs] at h; exact h.2.2.1
      obtain ⟨-, ha⟩ := hr hq (ready_of_not_idle hidle)
      simp only [mWdata, hf, ↓reduceIte, ha]

end RiscvScratch.Cache.Dcache
