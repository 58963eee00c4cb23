import RiscvScratch.Cache.DcacheInvisible

/-! What a sweep of the data cache leaves: no dirty line, and a cache that writes nothing to
memory until the core stores again. -/
namespace RiscvScratch.Cache.Dcache

variable {g : Geometry} {s : State} {i : Input} {mem : MainMemory}

/-- The first `n` lines hold nothing that memory has not. -/
def Swept (s : State) (n : ℕ) : Prop := ∀ j < n, (s.valid j && s.dirty j) = false

structure Clean (g : Geometry) (s : State) : Prop where
  swept : Swept s g.lines
  evicts : s.fsm ≠ .wb
  sweeps : s.fsm = .clean → s.cwb = false

theorem Swept.zero (s : State) : Swept s 0 := fun _ hj => absurd hj (Nat.not_lt_zero _)

theorem Swept.succ {n : ℕ} (h : Swept s n) (hn : (s.valid n && s.dirty n) = false) :
    Swept s (n + 1) := by
  intro j hj
  obtain hj | rfl := Nat.lt_succ_iff_lt_or_eq.mp hj
  · exact h j hj
  · exact hn

theorem Swept.update {n k : ℕ} (h : Swept s n) {s' : State}
    (hv : ∀ j, j ≠ k → s'.valid j = s.valid j)
    (hd : s'.dirty = Function.update s.dirty k false) : Swept s' n := by
  intro j hj
  by_cases hjk : j = k
  · simp [hd, hjk]
  · rw [hd, Function.update_of_ne hjk, hv j hjk]
    exact h j hj

/-- Outside a sweep, `cleaned` follows `clean`, and a sweep starts only on request. -/
theorem rest_step (hf : s.fsm ≠ .clean) :
    (step g s i).cleaned = (s.cleaned && i.clean) ∧
      ((step g s i).fsm ≠ .clean ∨
        (step g s i).fsm = .clean ∧ (step g s i).ci = 0 ∧ i.clean = true ∧ s.cleaned = false) := by
  have he := step_edge g s i
  generalize Dcache.step g s i = s' at he ⊢
  cases he with
  | sweep _ _ h1 h2 => exact ⟨rfl, .inr ⟨rfl, rfl, h1, h2⟩⟩
  | rest _ _ | readHit _ _ _ _ | writeHit _ _ _ _ | wait _ _ _ => exact ⟨rfl, .inl hf⟩
  | evict _ _ _ _ _ | fetch _ _ _ _ | evicted _ _ | filled _ _ => exact ⟨rfl, .inl (by simp)⟩
  | swept h _ _ | sweepWb h _ _ _ _ | sweepNext h _ _ _ | sweepDone h _ _ => exact absurd h hf

/-- One edge of the sweep: it stays on its line, or it ends, or the line is clean and it goes
on to the next. -/
theorem sweep_step (hf : s.fsm = .clean) (hp : Port g s i) (h : Swept s s.ci) :
    ((step g s i).fsm = .clean ∧ (step g s i).cleaned = (s.cleaned && i.clean) ∧
      Swept (step g s i) (step g s i).ci) ∨
    ((step g s i).fsm = .idle ∧ (step g s i).cleaned = true ∧ Clean g (step g s i)) := by
  simp only [Port, hf] at hp
  have he := step_edge g s i
  generalize Dcache.step g s i = s' at he ⊢
  cases he with
  | sweep hi _ _ _ | rest hi _ | readHit hi _ _ _ | writeHit hi _ _ _ | evict hi _ _ _ _
  | fetch hi _ _ _ | evicted hi _ | filled hi _ => simp [hf] at hi
  | wait _ _ _ => exact .inl ⟨hf, rfl, h⟩
  | swept _ _ hci => exact .inr ⟨rfl, rfl, fun j hj => h j (hci ▸ hj), by simp, by simp⟩
  | sweepWb _ _ _ _ _ => exact .inl ⟨hf, rfl, h⟩
  | sweepNext _ _ hci hd =>
    rw [ciIdx, Nat.mod_eq_of_lt (lt_of_le_of_ne hp.1 hci)] at hd
    exact .inl ⟨hf, rfl, h.succ hd⟩
  | sweepDone _ hb _ =>
    have hci : ciIdx g s = s.ci := Nat.mod_eq_of_lt (hp.2.2 hb).2.1
    refine .inl ⟨hf, rfl, Swept.succ ?_ (by simp [hci])⟩
    exact h.update (fun _ _ => rfl) rfl

theorem Clean.step (h : Clean g s) (hs : accepted g s i = false) : Clean g (step g s i) := by
  have he := step_edge g s i
  generalize Dcache.step g s i = s' at he ⊢
  cases he with
  | sweep _ _ _ _ => exact ⟨h.swept, by simp, fun _ => rfl⟩
  | rest _ _ | readHit _ _ _ _ | wait _ _ _ | sweepNext _ _ _ _ =>
    exact ⟨h.swept, h.evicts, h.sweeps⟩
  | writeHit hf hq hh hw => simp [accepted, ready, hf, hq, hh, hw] at hs
  | evict _ _ _ hv hd =>
    have := h.swept _ (g.idx_lt i.addr)
    simp [hv, hd] at this
  | fetch _ _ _ _ => exact ⟨h.swept, by simp, by simp⟩
  | evicted hf _ => exact absurd hf h.evicts
  | filled _ _ =>
    refine ⟨h.swept.update (k := g.idx i.addr) (fun j hj => ?_) rfl, by simp, by simp⟩
    exact Function.update_of_ne hj _ _
  | swept _ _ _ => exact ⟨h.swept, by simp, by simp⟩
  | sweepWb _ _ _ hv hd =>
    have := h.swept _ (Nat.mod_lt s.ci g.lines_pos)
    rw [ciIdx] at hv hd
    simp [hv, hd] at this
  | sweepDone hf hb _ => simp [h.sweeps hf] at hb

theorem Clean.reads (h : Clean g s) (hp : Port g s i) (hq : s.mReq = true) : s.mWe = false := by
  cases hf : s.fsm with
  | idle => simp [Port, hf, hq] at hp
  | wb => exact absurd hf h.evicts
  | fill =>
    simp only [Port, hf] at hp
    exact hp.2.1
  | clean =>
    simp only [Port, hf] at hp
    simp [hq, h.sweeps hf] at hp

theorem Clean.view (h : Clean g s) (hc : Coherent g s mem) (w : ℕ) : view g s mem w = mem w := by
  have hlt : w / g.lineWords % g.lines < g.lines := Nat.mod_lt _ g.lines_pos
  simp only [Dcache.view]
  split
  · rename_i hh
    simp only [Bool.and_eq_true, beq_iff_eq] at hh
    have hd : s.dirty (w / g.lineWords % g.lines) = false := by
      simpa [hh.1] using h.swept _ hlt
    rw [hc.clean _ hh.1 hd _ (Nat.mod_lt _ g.lineWords_pos), hh.2]
    congr 1
    rw [Geometry.lineNum, mul_comm (w / g.lineWords / g.lines), Nat.div_add_mod, mul_comm,
      Nat.div_add_mod]
  · rfl

/-- Dirty lines, and the write-back on the port, have addresses in `Q`. -/
structure DirtyIn (g : Geometry) (Q : Word → Prop) (s : State) : Prop where
  line : ∀ j, s.valid j = true → s.dirty j = true → Q (g.lineAddr (s.tags j) j)
  port : s.mWe = true → Q s.mAddr

theorem DirtyIn.step {Q : Word → Prop} (h : DirtyIn g Q s)
    (hs : accepted g s i = true → Q (g.lineAddr (g.tag i.addr) (g.idx i.addr))) :
    DirtyIn g Q (step g s i) := by
  have he := step_edge g s i
  generalize Dcache.step g s i = s' at he ⊢
  cases he with
  | sweep _ _ _ _ | rest _ _ | readHit _ _ _ _ | wait _ _ _ | swept _ _ _ | sweepNext _ _ _ _ =>
    exact ⟨h.line, h.port⟩
  | writeHit hf hq hh hw =>
    refine ⟨fun j hv hd => ?_, h.port⟩
    by_cases hj : j = g.idx i.addr
    · subst hj
      have htag : s.tags (g.idx i.addr) = g.tag i.addr := by
        simp only [hit, Bool.and_eq_true, beq_iff_eq] at hh
        exact hh.2
      simpa [htag] using hs (by simp [accepted, ready, hf, hq, hh, hw])
    · exact h.line j hv (by simpa [hj] using hd)
  | evict _ _ _ hv hd => exact ⟨h.line, fun _ => h.line _ hv hd⟩
  | fetch _ _ _ _ => exact ⟨h.line, by simp⟩
  | evicted _ _ =>
    refine ⟨fun j hv hd => ?_, by simp⟩
    by_cases hj : j = g.idx i.addr
    · simp [hj] at hd
    · exact h.line j hv (by simpa [hj] using hd)
  | filled _ _ =>
    refine ⟨fun j hv hd => ?_, h.port⟩
    by_cases hj : j = g.idx i.addr
    · simp [hj] at hd
    · simpa [hj] using h.line j (by simpa [hj] using hv) (by simpa [hj] using hd)
  | sweepWb _ _ _ hv hd => exact ⟨h.line, fun _ => h.line _ hv hd⟩
  | sweepDone _ _ _ =>
    refine ⟨fun j hv hd => ?_, by simp⟩
    by_cases hj : j = ciIdx g s
    · simp [hj] at hd
    · exact h.line j hv (by simpa [hj] using hd)

end RiscvScratch.Cache.Dcache
