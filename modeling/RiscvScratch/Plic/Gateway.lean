import RiscvScratch.Plic.Sifive

/-! The gateway protocol of the interrupt controller: a claim starts a source's service and only a
completion ends it. -/
namespace RiscvScratch.Plic

variable {p : Params} {s : State} {i : Input}

variable {k c : ℕ}

theorem wants_pos {j : ℕ} (h : wants s c j = true) : 0 < s.prio j := by
  simp only [wants, Bool.and_eq_true, decide_eq_true_eq] at h
  omega

theorem best_winner (h : best p s c ≠ 0) :
    Arbiter.Winner (wants s c) s.prio p.sources (best p s c) :=
  Arbiter.scan_winner (fun _ => wants_pos) h

theorem eip_iff (c : ℕ) :
    eip p s c = true ↔ ∃ k, 1 ≤ k ∧ k ≤ p.sources ∧ wants s c k = true := by
  rw [eip, bne_iff_ne]
  exact Arbiter.scan_ne_zero (fun _ => wants_pos) p.sources

theorem best_le (c : ℕ) : best p s c ≤ p.sources := by
  by_cases h : best p s c = 0
  · omega
  · exact (best_winner h).le

theorem isSource_iff : isSource p k = true ↔ 1 ≤ k ∧ k ≤ p.sources := by
  simp [isSource]

theorem claims_inv (h : claims p s i k = true) :
    s.pend k = true ∧ 1 ≤ k ∧ k ≤ p.sources := by
  simp only [claims, claimRd, claimed, Bool.and_eq_true, beq_iff_eq] at h
  obtain ⟨⟨⟨-, hc⟩, hk⟩, he⟩ := h
  rw [isSource_iff] at hk
  rw [hc, if_pos rfl] at he
  have hw := (best_winner (p := p) (s := s) (c := aC i.addr) (by omega)).asks
  rw [he] at hw
  simp only [wants, Bool.and_eq_true] at hw
  exact ⟨hw.1.1, hk⟩

theorem not_completes_of_claims (h : claims p s i k = true) (j : ℕ) :
    completes p i j = false := by
  simp only [claims, claimRd, Bool.and_eq_true, Bool.not_eq_true'] at h
  simp [completes, writes, h.1.1.1.1.2]

theorem addr_bit {addr : BitVec 26} {v : BitVec 14} (h : addr.extractLsb' 12 14 = v) :
    addr.getLsbD 21 = v.getLsbD 9 := by
  rw [← h]
  simp

theorem aCtx_only {addr : BitVec 26} (h : aCtx addr = true) :
    aPrio addr = false ∧ aPend addr = false ∧ aEn addr = false := by
  simp only [aCtx, Bool.and_eq_true, beq_iff_eq] at h
  have hbit : addr.getLsbD 21 = true := by
    have := congrArg (·.getLsbD 0) h.1
    simpa using this
  have hne (v : BitVec 14) (hv : v.getLsbD 9 = false) : (addr.extractLsb' 12 14 == v) = false := by
    by_contra hx
    have := addr_bit (beq_iff_eq.mp (Bool.eq_true_of_not_eq_false hx))
    rw [hbit, hv] at this
    cases this
  refine ⟨hne 0#14 rfl, ?_, ?_⟩
  · simp [aPend, hne 1#14 rfl]
  · simp [aEn, hne 2#14 rfl]

theorem rdata_claim (h : claimRd p i = true) :
    rdata p s i = BitVec.ofNat 32 (best p s (aC i.addr)) := by
  simp only [claimRd, aClaim, Bool.and_eq_true] at h
  obtain ⟨⟨-, hctx, h2⟩, hok⟩ := h
  obtain ⟨h3, h4, h5⟩ := aCtx_only hctx
  simp [rdata, h3, h4, h5, h2, aClaim, hctx, claimed, hok]

def Exclusive (s : State) : Prop := ∀ k, ¬ (s.pend k = true ∧ s.infl k = true)

theorem step_exclusive (h : Exclusive s) : Exclusive (step p s i) := by
  rintro k ⟨hp, hf⟩
  simp only [step] at hp hf
  cases hc : claims p s i k with
  | true => simp [hc] at hp
  | false =>
    simp only [hc, Bool.false_eq_true, ↓reduceIte] at hp hf
    have hf' : s.infl k = true := by
      split_ifs at hf
      exact hf
    simp only [hf', Bool.not_true, Bool.and_false, Bool.false_and, Bool.false_eq_true,
      ↓reduceIte] at hp
    exact h k ⟨hp, hf'⟩

theorem step_claimed (h : claims p s i k = true) : (step p s i).infl k = true := by
  simp [step, h]

theorem step_serving (h : s.infl k = true) (hc : completes p i k = false) :
    (step p s i).infl k = true := by
  simp [step, h, hc]

theorem step_asserted (hk : isSource p k = true) (hs : i.src k = true)
    (hc : ¬ (s.infl k = true ∧ completes p i k = true)) :
    (step p s i).pend k = true ∨ (step p s i).infl k = true := by
  cases hcl : claims p s i k with
  | true => exact .inr (step_claimed hcl)
  | false =>
    cases hf : s.infl k with
    | true =>
      right
      exact step_serving hf (by simpa [hf] using hc)
    | false =>
      left
      cases hp : s.pend k <;> simp [step, hcl, hk, hs, hf, hp]

theorem step_completed (he : Exclusive s) (hf : s.infl k = true)
    (hc : completes p i k = true) :
    (step p s i).pend k = false ∧ (step p s i).infl k = false := by
  have hp : s.pend k = false := by
    by_contra hp
    exact he k ⟨Bool.eq_true_of_not_eq_false hp, hf⟩
  have hcl : claims p s i k = false := by
    by_contra hcl
    simp [not_completes_of_claims (Bool.eq_true_of_not_eq_false hcl) k] at hc
  simp [step, hcl, hc, hp, hf]

theorem step_raised (h0 : s.pend k = false) (h1 : (step p s i).pend k = true) :
    i.src k = true := by
  simp only [step, h0] at h1
  split_ifs at h1 with h2 h3
  simp only [Bool.and_eq_true] at h3
  exact h3.2

theorem run_exclusive (r : Run p) (t : ℕ) : Exclusive (r.state t) := by
  refine r.invariant (fun _ => True) Exclusive ?_ ?_ (fun _ => trivial) t
  · rintro s rfl k ⟨h, -⟩
    simp [reset] at h
  · intro s i _ h
    exact step_exclusive h

/-- A claim read by context `c` that returns source `k`. -/
structure ClaimRead (r : Run p) (t c k : ℕ) : Prop where
  access : claimRd p (r.input t) = true
  context : aC (r.input t).addr = c
  source : 1 ≤ k ∧ k ≤ p.sources
  value : rdata p (r.state t) (r.input t) = BitVec.ofNat 32 k

theorem ClaimRead.claims {r : Run p} {t : ℕ} (h : ClaimRead r t c k) :
    claims p (r.state t) (r.input t) k = true := by
  have hok : ctxOk p (r.input t) = true := by
    have := h.access
    simp only [claimRd, Bool.and_eq_true] at this
    exact this.2
  have hv := h.value
  rw [rdata_claim h.access] at hv
  have hb := best_le (p := p) (s := r.state t) (aC (r.input t).addr)
  have hs := p.sources_le
  have hk := h.source
  have he : best p (r.state t) (aC (r.input t).addr) = k := by
    have := congrArg BitVec.toNat hv
    rw [BitVec.toNat_ofNat, BitVec.toNat_ofNat, Nat.mod_eq_of_lt (by omega),
      Nat.mod_eq_of_lt (by omega)] at this
    exact this
  simp [Plic.claims, h.access, isSource_iff.mpr hk, claimed, hok, he]

theorem serving_until (r : Run p) {t u : ℕ}
    (hc : claims p (r.state t) (r.input t) k = true) (hu : t < u)
    (hno : ∀ v, t < v → v < u → completes p (r.input v) k = false) :
    (r.state u).infl k = true := by
  induction u, Nat.succ_le_of_lt hu using Nat.le_induction with
  | base =>
    rw [Nat.succ_eq_add_one, r.steps]
    exact step_claimed hc
  | succ u hut ih =>
    rw [r.steps]
    exact step_serving (ih hut fun v h1 h2 => hno v h1 (by omega)) (hno u hut (Nat.lt_succ_self u))

structure Protocol (r : Run p) : Prop where
  exclusive : ∀ t k, ¬ ((r.state t).pend k = true ∧ (r.state t).infl k = true)
  completed : ∀ t u c c' k, t < u → ClaimRead r t c k → ClaimRead r u c' k →
    ∃ v, t < v ∧ v < u ∧ completes p (r.input v) k = true
  asserted : ∀ t k, 1 ≤ k → k ≤ p.sources → (r.input t).src k = true →
    ¬ ((r.state t).infl k = true ∧ completes p (r.input t) k = true) →
    (r.state (t + 1)).pend k = true ∨ (r.state (t + 1)).infl k = true
  ended : ∀ t k, (r.state t).infl k = true → completes p (r.input t) k = true →
    (r.state (t + 1)).pend k = false ∧ (r.state (t + 1)).infl k = false ∧
      ((r.input (t + 1)).src k = true → (r.state (t + 2)).pend k = true)
  raised : ∀ t k, (r.state t).pend k = false → (r.state (t + 1)).pend k = true →
    (r.input t).src k = true
  claim : ∀ t, claimRd p (r.input t) = true → ∃ k,
    rdata p (r.state t) (r.input t) = BitVec.ofNat 32 k ∧
      ((k = 0 ∧ ∀ j, 1 ≤ j → j ≤ p.sources →
          wants (r.state t) (aC (r.input t).addr) j = false) ∨
        Arbiter.Winner (wants (r.state t) (aC (r.input t).addr)) (r.state t).prio p.sources k)
  eip : ∀ t c, eip p (r.state t) c = true ↔
    ∃ k, 1 ≤ k ∧ k ≤ p.sources ∧ wants (r.state t) c k = true

theorem claim_reads_best (h : claimRd p i = true) : ∃ k, rdata p s i = BitVec.ofNat 32 k ∧
    ((k = 0 ∧ ∀ j, 1 ≤ j → j ≤ p.sources → wants s (aC i.addr) j = false) ∨
      Arbiter.Winner (wants s (aC i.addr)) s.prio p.sources k) := by
  refine ⟨best p s (aC i.addr), rdata_claim h, ?_⟩
  by_cases hb : best p s (aC i.addr) = 0
  · left
    refine ⟨hb, fun j h1 h2 => ?_⟩
    by_contra hj
    have := (eip_iff (p := p) (aC i.addr)).mpr ⟨j, h1, h2, Bool.eq_true_of_not_eq_false hj⟩
    simp [eip, hb] at this
  · exact .inr (best_winner hb)

/-- In every run; the cycle that ends a service is the one in which an asserted source is not taken
up. -/
theorem gateway_protocol (p : Params) (r : Run p) : Protocol r where
  exclusive := run_exclusive r
  completed t u c c' k htu h1 h2 := by
    by_contra hno
    push Not at hno
    have hf := serving_until r h1.claims htu fun v hv hv' => by simpa using hno v hv hv'
    exact run_exclusive r u k ⟨(claims_inv h2.claims).1, hf⟩
  asserted t k h1 h2 hs hc := by
    rw [r.steps]
    exact step_asserted (isSource_iff.mpr ⟨h1, h2⟩) hs hc
  ended t k hf hc := by
    have hstep (t : ℕ) : r.state (t + 1) = step p (r.state t) (r.input t) := r.steps t
    obtain ⟨h1, h2⟩ := step_completed (run_exclusive r t) hf hc
    rw [← hstep] at h1 h2
    refine ⟨h1, h2, fun hs => ?_⟩
    have hk : isSource p k = true := by
      simp only [completes, Bool.and_eq_true] at hc
      exact hc.1.2
    have hcl : claims p (r.state (t + 1)) (r.input (t + 1)) k = false := by
      by_contra hcl
      simp [(claims_inv (Bool.eq_true_of_not_eq_false hcl)).1] at h1
    rw [hstep (t + 1)]
    simp [step, hcl, hk, h1, h2, hs]
  raised t k h0 h1 := by
    rw [r.steps] at h1
    exact step_raised h0 h1
  claim t h := claim_reads_best h
  eip t c := eip_iff c

/-- One source and one context. -/
def Params.single : Params := ⟨1, 1, 3, by decide⟩

/-- Priority 1 and the enable bit are written, the source is claimed and completed. -/
def serviceAccess (t : ℕ) : Input :=
  match t with
  | 0 => ⟨true, true, 0x4#26, 1#32, fun _ => true⟩
  | 1 => ⟨true, true, 0x2000#26, 2#32, fun _ => true⟩
  | 2 => ⟨true, false, 0x200004#26, 0#32, fun _ => true⟩
  | 3 => ⟨true, true, 0x200004#26, 1#32, fun _ => true⟩
  | _ => ⟨false, false, 0#26, 0#32, fun _ => true⟩

def serviceRun : Run Params.single :=
  (machine Params.single).runOf (fun t _ => serviceAccess t) reset rfl

/-- The source is asserted in the cycle of its completion, and neither pending nor in service in
the next. -/
theorem asserted_while_completed :
    (serviceRun.input 3).src 1 = true ∧ (serviceRun.state 4).pend 1 = false ∧
      (serviceRun.state 4).infl 1 = false ∧ (serviceRun.state 3).infl 1 = true ∧
      rdata Params.single (serviceRun.state 2) (serviceRun.input 2) = 1#32 := by
  decide

end RiscvScratch.Plic
