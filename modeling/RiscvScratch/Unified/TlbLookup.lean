import RiscvScratch.Sv32.Walk
import RiscvScratch.Unified.Tlb

/-! What a lookup in the TLB returns. -/
namespace RiscvScratch.Tlb

theorem step_hold (entries : ℕ) (s : State) {f : Fill} {x : Flush} (hf : f.en = false)
    (ha : x.all = false) (ho : x.one = false) : step entries s f x = s := by
  simp [step, hf, ha, ho, Entry.flushOne]

variable {s : State} {va : Word}

theorem find_some {n k : ℕ} (h : find s va n = some k) :
    k < n ∧ (s.entry k).covers (vpn va) = true := by
  induction n with
  | zero => simp [find] at h
  | succ n ih =>
    rw [find] at h
    split at h
    · obtain rfl := Option.some.inj h
      exact ⟨Nat.lt_succ_self _, ‹_›⟩
    · exact ⟨Nat.lt_succ_of_lt (ih h).1, (ih h).2⟩

theorem find_isSome {n k : ℕ} (hk : k < n)
    (hc : (s.entry k).covers (vpn va) = true) : (find s va n).isSome = true := by
  induction n with
  | zero => omega
  | succ n ih =>
    rw [find]
    split
    · rfl
    · rename_i hn
      have hne : k ≠ n := fun h => hn (h ▸ hc)
      exact ih (by omega)

theorem lookup_hit {entries : ℕ} :
    (lookup entries s va).hit = (find s va entries).isSome := by
  unfold lookup
  cases find s va entries <;> rfl

theorem step_victim {entries : ℕ} (he : 0 < entries) (h : s.victim < entries)
    (f : Fill) (x : Flush) : (step entries s f x).victim < entries := by
  unfold step
  dsimp only
  split_ifs <;> simp only [] <;> omega

theorem leaf_pa (l : Sv32.Leaf) (f : Fill) (hp : f.ppn = l.ppn) (hs : f.sp = l.super)
    : f.entry.pa va = (l.addr va).setWidth 32 := by
  rw [Entry.pa, Fill.entry, hp, hs, Sv32.Leaf.addr]
  cases l.super with
  | true =>
    apply BitVec.eq_of_getLsbD_eq
    intro j hj
    have h1 : ¬ j < 22 → j - 22 < 10 := by omega
    simp only [↓reduceIte, BitVec.getLsbD_setWidth, BitVec.getLsbD_append,
      BitVec.getLsbD_extractLsb', hj, decide_true, Bool.true_and]
    by_cases h : j < 22
    · simp [h]
    · simp [h, h1 h, show j - 22 < 12 by omega]
  | false =>
    apply BitVec.eq_of_getLsbD_eq
    intro j hj
    simp only [Bool.false_eq_true, ↓reduceIte, BitVec.getLsbD_setWidth, BitVec.getLsbD_append,
      BitVec.getLsbD_extractLsb', hj, decide_true, Bool.true_and]
    by_cases h : j < 12
    · simp [h]
    · simp [h, show j - 12 < 20 by omega]

end RiscvScratch.Tlb
