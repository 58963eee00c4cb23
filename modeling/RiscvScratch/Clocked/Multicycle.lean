import RiscvScratch.Clocked.Refinement

/-! Multi-cycle implementations: an abstract step takes some number of cycles, and what the
circuit emits in them is the output of the step. -/
namespace Clocked
variable {α ε : Type*}

/-- What the cycles `t` to `t + n - 1` emit. -/
def span (out : ℕ → List ε) (t n : ℕ) : List ε := (List.range' t n).flatMap out

@[simp] theorem span_zero (out : ℕ → List ε) (t : ℕ) : span out t 0 = [] := rfl

theorem span_succ (out : ℕ → List ε) (t n : ℕ) :
    span out t (n + 1) = out t ++ span out (t + 1) n := by
  simp [span, List.range'_succ]

theorem span_one (out : ℕ → List ε) (t : ℕ) : span out t 1 = out t := by
  simp [span]

theorem span_add (out : ℕ → List ε) (t m n : ℕ) :
    span out t (m + n) = span out t m ++ span out (t + m) n := by
  induction m generalizing t with
  | zero => simp
  | succ m ih =>
    rw [Nat.succ_add, span_succ, span_succ, ih, List.append_assoc, Nat.succ_add_eq_add_succ]

theorem emitted_add (out : ℕ → List ε) (t n : ℕ) :
    emitted out (t + n) = emitted out t ++ span out t n := by
  induction n with
  | zero => simp
  | succ n ih =>
    rw [← Nat.add_assoc, emitted_succ, ih, span_add, span_one, List.append_assoc]

variable {ε' : Type*}

theorem span_flatMap (f : ε → List ε') (out : ℕ → List ε) (t n : ℕ) :
    span (fun u => (out u).flatMap f) t n = (span out t n).flatMap f := by
  rw [span, span, List.flatMap_assoc]

theorem emitted_flatMap (f : ε → List ε') (out : ℕ → List ε) (n : ℕ) :
    emitted (fun u => (out u).flatMap f) n = (emitted out n).flatMap f := by
  rw [emitted, emitted, List.flatMap_assoc]

section paces
variable (astep : α → α) (aout : α → List ε) (out : ℕ → List ε)

structure Parked (t : ℕ) (a : α) : Prop where
  out : ∀ u ≥ t, out u = []
  aout : aout a = []
  stuck : astep a = a

def Paces (At : ℕ → α → Prop) : Prop :=
  ∀ t a, At t a → (∃ n > 0, At (t + n) (astep a) ∧ span out t n = aout a) ∨
    Parked astep aout out t a

variable {astep aout out} {At : ℕ → α → Prop} {t₀ : ℕ} {a : α}

section
variable (h : Paces astep aout out At) (h0 : At t₀ a) (hs : emitted out t₀ = [])
include h h0 hs

theorem Paces.milestone (k : ℕ) : ∃ t ≥ k, emitted out t = seqTrace astep aout a k ∧
      (At t (astep^[k] a) ∨
        Parked astep aout out t (astep^[k] a) ∧ ∃ u, At u (astep^[k] a)) := by
  induction k with
  | zero => exact ⟨t₀, Nat.zero_le _, hs, .inl h0⟩
  | succ k ih =>
    obtain ⟨t, hk, he, hat⟩ := ih
    have hnext : (Parked astep aout out t (astep^[k] a) ∧ ∃ u, At u (astep^[k] a)) ∨
        ∃ n > 0, At (t + n) (astep (astep^[k] a)) ∧ span out t n = aout (astep^[k] a) := by
      obtain hat | hp := hat
      · obtain hgo | hp := h t _ hat
        · exact .inr hgo
        · exact .inl ⟨hp, t, hat⟩
      · exact .inl hp
    rw [Function.iterate_succ_apply', seqTrace_succ]
    obtain ⟨hp, hu⟩ | ⟨n, hn, hat', hspan⟩ := hnext
    · refine ⟨t + 1, by omega, ?_, .inr ⟨⟨fun u hu => hp.out u (by omega), ?_, ?_⟩, ?_⟩⟩
      · rw [emitted_succ, hp.out t le_rfl, he, hp.aout]
      · rw [hp.stuck, hp.aout]
      · rw [hp.stuck, hp.stuck]
      · rwa [hp.stuck]
    · refine ⟨t + n, by omega, ?_, .inl hat'⟩
      rw [emitted_add, he, hspan]

theorem Paces.reaches (k : ℕ) : ∃ t, At t (astep^[k] a) := by
  obtain ⟨t, -, -, hat | ⟨-, hat⟩⟩ := h.milestone h0 hs k
  · exact ⟨t, hat⟩
  · exact hat

theorem Paces.sound (n : ℕ) : ∃ k, emitted out n <+: seqTrace astep aout a k := by
  obtain ⟨t, ht, he, -⟩ := h.milestone h0 hs n
  exact ⟨n, he ▸ emitted_mono out ht⟩

theorem Paces.complete (k : ℕ) : ∃ n, seqTrace astep aout a k <+: emitted out n := by
  obtain ⟨t, -, he, -⟩ := h.milestone h0 hs k
  exact ⟨t, he ▸ List.prefix_rfl⟩

end

theorem Paces.flatMap {ε' : Type*} (f : ε → List ε') (h : Paces astep aout out At) :
    Paces astep (fun a => (aout a).flatMap f) (fun t => (out t).flatMap f) At := by
  intro t a hat
  obtain ⟨n, hn, hat', hspan⟩ | hp := h t a hat
  · refine .inl ⟨n, hn, hat', ?_⟩
    rw [span_flatMap, hspan]
  · refine .inr ⟨fun u hu => ?_, ?_, hp.stuck⟩
    · rw [hp.out u hu, List.flatMap_nil]
    · rw [hp.aout, List.flatMap_nil]

end paces

def SameEvents (out out' : ℕ → List ε) : Prop :=
  (∀ n, ∃ k, emitted out n <+: emitted out' k) ∧ ∀ n, ∃ k, emitted out' n <+: emitted out k

theorem SameEvents.flatMap {out out' : ℕ → List ε} (f : ε → List ε')
    (h : SameEvents out out') :
    SameEvents (fun t => (out t).flatMap f) (fun t => (out' t).flatMap f) := by
  have hpre {x y : List ε} (hxy : x <+: y) : x.flatMap f <+: y.flatMap f := by
    obtain ⟨z, rfl⟩ := hxy
    rw [List.flatMap_append]
    exact List.prefix_append _ _
  constructor <;> intro n
  · obtain ⟨k, hk⟩ := h.1 n
    refine ⟨k, ?_⟩
    rw [emitted_flatMap, emitted_flatMap]
    exact hpre hk
  · obtain ⟨k, hk⟩ := h.2 n
    refine ⟨k, ?_⟩
    rw [emitted_flatMap, emitted_flatMap]
    exact hpre hk

theorem Paces.sameEvents {astep : α → α} {aout : α → List ε} {out out' : ℕ → List ε}
    {At At' : ℕ → α → Prop} {t t' : ℕ} {a : α} (h : Paces astep aout out At) (h0 : At t a)
    (hs : emitted out t = []) (h' : Paces astep aout out' At') (h0' : At' t' a)
    (hs' : emitted out' t' = []) : SameEvents out out' := by
  constructor
  · intro n
    obtain ⟨k, hk⟩ := h.sound h0 hs n
    obtain ⟨m, hm⟩ := h'.complete h0' hs' k
    exact ⟨m, hk.trans hm⟩
  · intro n
    obtain ⟨k, hk⟩ := h'.sound h0' hs' n
    obtain ⟨m, hm⟩ := h.complete h0 hs k
    exact ⟨m, hk.trans hm⟩

end Clocked
