import RiscvScratch.Clocked.Machine

/-! Stuttering refinement of a sequential machine by a clocked one that emits late: a cycle commits
one abstract step or none, and what is not yet emitted is pending. -/
namespace Clocked
variable {α ε : Type*}

/-- Output of the first `k` steps of an abstract deterministic machine. -/
def seqTrace (astep : α → α) (aout : α → List ε) (a : α) (k : ℕ) : List ε :=
  emitted (fun j => aout (astep^[j] a)) k

theorem seqTrace_succ (astep : α → α) (aout : α → List ε) (a : α) (k : ℕ) :
    seqTrace astep aout a (k + 1) = seqTrace astep aout a k ++ aout (astep^[k] a) :=
  emitted_succ _ k

/-- The abstract state reached after the commits of the first `t` cycles. -/
def committed (astep : α → α) (a : α) (c : ℕ → Bool) (t : ℕ) : α := astep^[count c t] a

theorem committed_succ (astep : α → α) (a : α) (c : ℕ → Bool) (t : ℕ) :
    committed astep a c (t + 1) =
      bif c t then astep (committed astep a c t) else committed astep a c t := by
  cases hc : c t
  · simp [committed, count, hc]
  · simp only [committed, count, hc, Bool.toNat_true, cond_true]
    rw [Function.iterate_succ_apply']

/-- Conservation: what is emitted now and pending afterwards is what was pending before and what the
committed step `j` adds, `aout j`. -/
structure Trails (aout : ℕ → List ε) (c : ℕ → Bool) (out pend : ℕ → List ε) : Prop where
  start : pend 0 = []
  cycle : ∀ t, out t ++ pend (t + 1) = pend t ++ bif c t then aout (count c t) else []

namespace Trails
variable {aout : ℕ → List ε} {c : ℕ → Bool} {out pend : ℕ → List ε}

theorem trace_eq (h : Trails aout c out pend) (n : ℕ) :
    emitted out n ++ pend n = emitted aout (count c n) := by
  induction n with
  | zero => simp [h.start, count]
  | succ n ih =>
    rw [emitted_succ, List.append_assoc, h.cycle, ← List.append_assoc, ih]
    cases hc : c n
    · simp [count, hc]
    · simp only [count, hc, Bool.toNat_true, cond_true, emitted_succ]

theorem sound (h : Trails aout c out pend) (n : ℕ) :
    emitted out n <+: emitted aout (count c n) :=
  ⟨pend n, h.trace_eq n⟩

/-- Liveness: where pending output leaves again and again and commits never cease, all of the
abstract output appears. -/
theorem complete (h : Trails aout c out pend)
    (hdrain : ∀ t, ∃ u ≥ t, ∃ n, emitted out u ++ pend u <+: emitted out n)
    (hlive : ∀ n, ∃ t ≥ n, c t = true) (k : ℕ) :
    ∃ n, emitted aout k <+: emitted out n := by
  obtain ⟨t, ht⟩ := exists_count_ge c hlive k
  obtain ⟨u, hu, n, hn⟩ := hdrain t
  refine ⟨n, ?_⟩
  calc emitted aout k <+: emitted aout (count c u) :=
        emitted_mono _ (ht.trans (count_mono c hu))
    _ = emitted out u ++ pend u := (h.trace_eq u).symm
    _ <+: emitted out n := hn

end Trails

structure EmitsLate (astep : α → α) (aout : α → List ε) (a : α) (c : ℕ → Bool)
    (out pend : ℕ → List ε) : Prop where
  start : pend 0 = []
  cycle : ∀ t, out t ++ pend (t + 1) =
    pend t ++ bif c t then aout (committed astep a c t) else []

namespace EmitsLate
variable {astep : α → α} {aout : α → List ε} {a : α} {c : ℕ → Bool} {out pend : ℕ → List ε}

theorem trails (h : EmitsLate astep aout a c out pend) :
    Trails (fun j => aout (astep^[j] a)) c out pend := ⟨h.start, h.cycle⟩

theorem sound (h : EmitsLate astep aout a c out pend) (n : ℕ) :
    emitted out n <+: seqTrace astep aout a (count c n) := h.trails.sound n

theorem complete (h : EmitsLate astep aout a c out pend)
    (hdrain : ∀ t, ∃ u ≥ t, ∃ n, emitted out u ++ pend u <+: emitted out n)
    (hlive : ∀ n, ∃ t ≥ n, c t = true) (k : ℕ) :
    ∃ n, seqTrace astep aout a k <+: emitted out n := h.trails.complete hdrain hlive k

end EmitsLate

section sampled
variable {c v : ℕ → Bool} {t u : ℕ}

theorem count_lt_of_hit (h : c t = true) (htu : t < u) : count c t < count c u := by
  have hm := count_mono c (Nat.succ_le_of_lt htu)
  simp only [count, h, Bool.toNat_true] at hm
  omega

theorem hit_unique (ht : c t = true) (hu : c u = true) (h : count c t = count c u) : t = u := by
  obtain hlt | heq | hgt := Nat.lt_trichotomy t u
  · have := count_lt_of_hit ht hlt
    omega
  · exact heq
  · have := count_lt_of_hit hu hgt
    omega

open Classical in
/-- The value of `v` in the cycle of hit number `k`. -/
noncomputable def sampled (c v : ℕ → Bool) (k : ℕ) : Bool :=
  decide (∃ t, c t = true ∧ count c t = k ∧ v t = true)

open Classical in
theorem sampled_count (h : c t = true) : sampled c v (count c t) = v t := by
  cases hv : v t with
  | true => exact decide_eq_true ⟨t, h, rfl, hv⟩
  | false =>
    apply decide_eq_false
    rintro ⟨u, hu, he, hvu⟩
    obtain rfl := hit_unique hu h he
    simp [hv] at hvu

theorem exists_sampled {β : Type*} [Nonempty β] (moves : ℕ → Bool) (x : ℕ → β) :
    ∃ y : ℕ → β, ∀ t, moves t = true → y (count moves t) = x t := by
  classical
  refine ⟨fun k => if h : ∃ t, moves t = true ∧ count moves t = k then x h.choose
    else Classical.arbitrary β, ?_⟩
  intro t ht
  have hex : ∃ u, moves u = true ∧ count moves u = count moves t := ⟨t, ht, rfl⟩
  obtain ⟨hu, hcount⟩ := hex.choose_spec
  dsimp only
  rw [dif_pos hex, hit_unique hu ht hcount]

end sampled

/-- A machine that stands still in some cycles is where one is that moves every time, given the
inputs of the moving cycles. -/
theorem stutter {β : Type*} {moves : ℕ → Bool} (σ : ℕ → α) (f : β → α → α) {x y : ℕ → β}
    {run : ℕ → α}
    (hmove : ∀ t, moves t = true → σ (t + 1) = f (x t) (σ t))
    (hstill : ∀ t, moves t = false → σ (t + 1) = σ t)
    (hy : ∀ t, moves t = true → y (count moves t) = x t)
    (hzero : run 0 = σ 0) (hrun : ∀ k, run (k + 1) = f (y k) (run k)) (t : ℕ) :
    σ t = run (count moves t) := by
  induction t with
  | zero => exact hzero.symm
  | succ t ih =>
    cases ht : moves t with
    | false => rw [hstill t ht, ih, count, ht, Bool.toNat_false, Nat.add_zero]
    | true => rw [hmove t ht, ih, count, ht, Bool.toNat_true, hrun, hy t ht]

end Clocked
