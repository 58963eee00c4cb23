import RiscvScratch.Unified.TlbLookup

/-! The TLB over one page table: whatever it holds, a hit is what the walk would have found. -/
namespace RiscvScratch.Tlb

section walk
variable {svade : Bool} {superOk : Sv32.Pte → Bool} {fetch : BitVec 34 → Option Sv32.Pte}
  {root : BitVec 22} {va va' : Word}

theorem vpn1_eq (va : Word) : Sv32.vpn1 va = (vpn va).extractLsb' 10 10 := by
  unfold Sv32.vpn1 vpn
  apply BitVec.eq_of_getLsbD_eq
  intro j hj
  simp [hj, show 10 + j < 20 by omega, show 12 + (10 + j) = 22 + j by omega]

theorem vpn0_eq (va : Word) : Sv32.vpn0 va = (vpn va).extractLsb' 0 10 := by
  unfold Sv32.vpn0 vpn
  apply BitVec.eq_of_getLsbD_eq
  intro j hj
  simp [hj, show j < 20 by omega]

theorem walk_congr (h : vpn va' = vpn va) :
    Sv32.walkWith svade superOk fetch root va' = Sv32.walkWith svade superOk fetch root va := by
  unfold Sv32.walkWith Sv32.walk0
  rw [vpn1_eq, vpn0_eq, vpn1_eq, vpn0_eq, h]

theorem walk0_small {pte : Sv32.Pte} {leaf : Sv32.Leaf}
    (h : Sv32.walk0 svade fetch va pte = some leaf) : leaf.super = false := by
  unfold Sv32.walk0 at h
  split at h
  · cases h
  · split at h
    · cases h
    · cases h
      rfl

theorem walk_super {leaf : Sv32.Leaf} (hs : leaf.super = true)
    (hw : Sv32.walkWith svade superOk fetch root va = some leaf)
    (h : (vpn va').extractLsb' 10 10 = (vpn va).extractLsb' 10 10) :
    Sv32.walkWith svade superOk fetch root va' = some leaf := by
  unfold Sv32.walkWith at hw ⊢
  rw [vpn1_eq, h, ← vpn1_eq]
  split at hw
  · cases hw
  · split at hw
    · cases hw
    · rename_i hi
      rw [if_neg hi]
      split at hw
      · rename_i hl
        rw [if_pos hl]
        exact hw
      · rw [walk0_small hw] at hs
        cases hs

end walk

section table
variable (entries : ℕ) (walk : Word → Option Sv32.Leaf)

def Fill.Sound (s : State) (f : Fill) : Prop :=
  f.en = true → (lookup entries s f.va).hit = false ∧ walk f.va = some ⟨f.ppn, f.sp, f.perm⟩

inductive Reachable : State → Prop
  | reset (s : State) : Reachable (reset s)
  | step {s : State} (h : Reachable s) {f : Fill} (hf : f.Sound entries walk s) (x : Flush) :
      Reachable (step entries s f x)

def Entry.Backed (e : Entry) : Prop :=
  ∀ va, e.covers (vpn va) = true → walk va = some ⟨e.ppn, e.sp, e.perm⟩

structure Inv (s : State) : Prop where
  backed : ∀ k < entries, (s.entry k).Backed walk
  unique : ∀ j < entries, ∀ k < entries, ∀ va,
    (s.entry j).covers (vpn va) = true → (s.entry k).covers (vpn va) = true → j = k

end table

section inv
variable {entries : ℕ} {svade : Bool} {superOk : Sv32.Pte → Bool}
  {fetch : BitVec 34 → Option Sv32.Pte} {root : BitVec 22} {walk : Word → Option Sv32.Leaf}
  {s s' : State} {f : Fill}

theorem Inv.of_fewer (h : Inv entries walk s)
    (hs : ∀ k n, (s'.entry k).covers n = true → (s.entry k).covers n = true ∧
      (s'.entry k).ppn = (s.entry k).ppn ∧ (s'.entry k).sp = (s.entry k).sp ∧
      (s'.entry k).perm = (s.entry k).perm) : Inv entries walk s' := by
  constructor
  · intro k hk va hc
    obtain ⟨hc, hp, hsp, hperm⟩ := hs k _ hc
    rw [hp, hsp, hperm]
    exact h.backed k hk va hc
  · intro j hj k hk va hcj hck
    exact h.unique j hj k hk va (hs j _ hcj).1 (hs k _ hck).1

theorem covers_invalid (e : Entry) (n : BitVec 20) :
    ({ e with v := false } : Entry).covers n = false := rfl

theorem covers_flushOne {e : Entry} {x : Flush} {n : BitVec 20}
    (h : (e.flushOne x).covers n = true) : e.flushOne x = e := by
  unfold Entry.flushOne at h ⊢
  split at h
  · rw [covers_invalid] at h
    cases h
  · rw [if_neg ‹_›]

theorem Inv.flushOne (h : Inv entries walk s) (x : Flush) :
    Inv entries walk { s with entry := fun k => (s.entry k).flushOne x } := by
  apply h.of_fewer
  intro k n hc
  have heq : (s.entry k).flushOne x = s.entry k := covers_flushOne hc
  dsimp only at hc ⊢
  rw [heq] at hc ⊢
  exact ⟨hc, rfl, rfl, rfl⟩

theorem covers_iff (e : Entry) (hv : e.v = true) (n : BitVec 20) : e.covers n = true ↔
    (e.sp = true ∧ e.tag.extractLsb' 10 10 = n.extractLsb' 10 10) ∨ (e.sp = false ∧ e.tag = n) := by
  unfold Entry.covers
  cases hs : e.sp <;> simp [hv]

theorem backed_fill
    (hw : Sv32.walkWith svade superOk fetch root f.va = some ⟨f.ppn, f.sp, f.perm⟩) :
    f.entry.Backed (Sv32.walkWith svade superOk fetch root) := by
  intro va hc
  rcases (covers_iff f.entry rfl _).mp hc with ⟨hs, ht⟩ | ⟨hs, ht⟩
  · exact walk_super hs hw ht.symm
  · exact (walk_congr ht.symm).trans hw

theorem covers_of_shared {e : Entry} (hb : e.Backed walk) (hn : f.entry.Backed walk) {va : Word}
    (he : e.covers (vpn va) = true) (hf : f.entry.covers (vpn va) = true) :
    e.covers (vpn f.va) = true := by
  have hv : e.v = true := by
    unfold Entry.covers at he
    rw [Bool.and_eq_true] at he
    exact he.1
  -- the walk gives one leaf for the shared address
  have hsp : e.sp = f.sp := by
    have hleaf := (hb va he).symm.trans (hn va hf)
    exact congrArg Sv32.Leaf.super (Option.some.inj hleaf)
  rw [covers_iff e hv] at he ⊢
  rcases (covers_iff f.entry rfl _).mp hf with ⟨hs, ht⟩ | ⟨hs, ht⟩
  · have hes : e.sp = true := hsp.trans hs
    rcases he with ⟨-, het⟩ | ⟨hes', -⟩
    · exact .inl ⟨hes, het.trans ht.symm⟩
    · rw [hes] at hes'
      cases hes'
  · have hva : vpn f.va = vpn va := ht
    rw [hva]
    exact he

theorem miss_covers (h : (lookup entries s f.va).hit = false) {k : ℕ} (hk : k < entries) :
    (s.entry k).covers (vpn f.va) = false := by
  rw [lookup_hit] at h
  by_contra hc
  rw [find_isSome hk (Bool.not_eq_false _ ▸ hc)] at h
  cases h

theorem Inv.fill (h : Inv entries (Sv32.walkWith svade superOk fetch root) s)
    (hmiss : ∀ k < entries, (s.entry k).covers (vpn f.va) = false)
    (hw : Sv32.walkWith svade superOk fetch root f.va = some ⟨f.ppn, f.sp, f.perm⟩)
    (victim victim' : ℕ) : Inv entries (Sv32.walkWith svade superOk fetch root)
      ⟨Function.update s.entry victim f.entry, victim'⟩ := by
  have hnew := backed_fill hw
  have hapart (k : ℕ) (hk : k < entries) (va : Word) (he : (s.entry k).covers (vpn va) = true) :
      f.entry.covers (vpn va) = false := by
    by_contra hf
    have := covers_of_shared (h.backed k hk) hnew he (Bool.not_eq_false _ ▸ hf)
    rw [hmiss k hk] at this
    cases this
  constructor <;> dsimp only
  · intro k hk
    by_cases hkv : k = victim
    · subst hkv
      rw [Function.update_self]
      exact hnew
    · rw [Function.update_of_ne hkv]
      exact h.backed k hk
  · intro j hj k hk va hcj hck
    by_cases hjv : j = victim <;> by_cases hkv : k = victim
    · exact hjv.trans hkv.symm
    · subst hjv
      rw [Function.update_self] at hcj
      rw [Function.update_of_ne hkv] at hck
      rw [hapart k hk va hck] at hcj
      cases hcj
    · subst hkv
      rw [Function.update_self] at hck
      rw [Function.update_of_ne hjv] at hcj
      rw [hapart j hj va hcj] at hck
      cases hck
    · rw [Function.update_of_ne hjv] at hcj
      rw [Function.update_of_ne hkv] at hck
      exact h.unique j hj k hk va hcj hck

theorem Inv.step (h : Inv entries (Sv32.walkWith svade superOk fetch root) s)
    (hf : f.Sound entries (Sv32.walkWith svade superOk fetch root) s) (x : Flush) :
    Inv entries (Sv32.walkWith svade superOk fetch root) (step entries s f x) := by
  unfold Tlb.step
  split
  · apply h.of_fewer
    intro k n hc
    cases hc
  · dsimp only
    split
    · obtain ⟨hmiss, hw⟩ := hf ‹_›
      refine (h.flushOne x).fill (fun k hk => ?_) hw _ _
      have hk' := miss_covers hmiss hk
      dsimp only
      by_contra hc
      rw [Bool.not_eq_false] at hc
      rw [covers_flushOne hc, hk'] at hc
      cases hc
    · exact h.flushOne x

theorem inv_of_reachable (h : Reachable entries (Sv32.walkWith svade superOk fetch root) s) :
    Inv entries (Sv32.walkWith svade superOk fetch root) s := by
  induction h with
  | reset s =>
    constructor
    · intro k _ va hc
      cases hc
    · intro j _ k _ va hc
      cases hc
  | step _ hf x ih => exact ih.step hf x

end inv

/-- At most one entry matches, and a hit is the walk's own answer. -/
theorem tlb_transparent (entries : ℕ) (svade : Bool) (superOk : Sv32.Pte → Bool)
    (fetch : BitVec 34 → Option Sv32.Pte) (root : BitVec 22) (s : State)
    (h : Reachable entries (Sv32.walkWith svade superOk fetch root) s) (va : Word) :
    (∀ j < entries, ∀ k < entries, (s.entry j).covers (vpn va) = true →
      (s.entry k).covers (vpn va) = true → j = k) ∧
    ((lookup entries s va).hit = true → ∃ leaf,
      Sv32.walkWith svade superOk fetch root va = some leaf ∧
      (lookup entries s va).pa = (leaf.addr va).setWidth 32 ∧
      (lookup entries s va).perm = leaf.perm) := by
  have hinv := inv_of_reachable h
  refine ⟨fun j hj k hk => hinv.unique j hj k hk va, fun hhit => ?_⟩
  rw [lookup_hit, Option.isSome_iff_exists] at hhit
  obtain ⟨k, hk⟩ := hhit
  obtain ⟨hlt, hc⟩ := find_some hk
  refine ⟨_, hinv.backed k hlt va hc, ?_, ?_⟩
  · rw [lookup, hk]
    exact leaf_pa ⟨(s.entry k).ppn, (s.entry k).sp, (s.entry k).perm⟩
      ⟨true, va, (s.entry k).ppn, (s.entry k).sp, (s.entry k).perm⟩ rfl rfl
  · rw [lookup, hk]

/-- One word of a page table in which every level-1 entry is the superpage at `0x00400000`. -/
def superPte : Sv32.Pte := 0x001000DF#32

def superFill : Fill := ⟨true, 0x80001000#32, superPte.ppn, true, 0xF#4⟩

def emptyTlb : State := reset ⟨fun _ => ⟨false, false, 0#20, 0#22, 0#4⟩, 0⟩

def superTlb : State := step 3 emptyTlb superFill ⟨false, true, 0#32⟩

theorem superTlb_hit : (lookup 3 superTlb 0x803FF004#32).hit = true ∧
    ∃ leaf, Sv32.walk false (fun _ => some superPte) 0#22 0x803FF004#32 = some leaf ∧
      (lookup 3 superTlb 0x803FF004#32).pa = (leaf.addr 0x803FF004#32).setWidth 32 := by
  have hreach : Reachable 3 (Sv32.walk false (fun _ => some superPte) 0#22) superTlb :=
    .step (.reset _) (fun _ => ⟨by decide, by decide⟩) _
  have hhit : (lookup 3 superTlb 0x803FF004#32).hit = true := by decide
  obtain ⟨leaf, hw, hpa, -⟩ := (tlb_transparent 3 false Sv32.Pte.aligned (fun _ => some superPte)
    0#22 superTlb hreach 0x803FF004#32).2 hhit
  exact ⟨hhit, leaf, hw, hpa⟩

end RiscvScratch.Tlb
