import RiscvScratch.Unified.Bench
import RiscvScratch.Unified.Frame

/-! Completeness of `sfence.vma`. The fence clears both TLBs but does not stop a walk that is under
way; a fence that no walk crosses is complete. -/
namespace RiscvScratch

namespace Ptw
variable {svade : Bool} {s : State} {i : Input}

theorem reach_l0 (h : (step svade s i).fsm = .l0) :
    (s.fsm = .l0 ∧ (step svade s i).l0Ppn = s.l0Ppn) ∨
      (s.fsm = .l1 ∧ i.memOk = true ∧ i.memReady = true ∧
        (step svade s i).l0Ppn = i.memRdata.extractLsb' 10 22) := by
  cases hf : s.fsm with
  | idle => cases hd : i.startD <;> cases hi : i.startI <;> simp [step, hf, hd, hi] at h
  | l1 =>
    right
    cases hn : noread s i with
    | true => simp [step, hf, hn] at h
    | false =>
      have hok : i.memOk = true := by
        have e1 : (Fsm.l1 != Fsm.idle) = true := rfl
        simpa [noread, busy, hf, e1] using hn
      cases hr : i.memReady with
      | false => simp [step, hf, hn, hr] at h
      | true =>
        cases hx : pteBad svade i.memRdata || pteLeaf i.memRdata with
        | true => simp [step, hf, hn, hr, hx] at h
        | false => exact ⟨rfl, hok, rfl, by simp [step, hf, hn, hr, hx]⟩
  | l0 =>
    left
    refine ⟨rfl, ?_⟩
    cases hx : noread s i || i.memReady <;> simp [step, hf, hx]

theorem good_inv (h : good svade s i = true) :
    i.memOk = true ∧ i.memReady = true ∧ (s.fsm = .l1 ∨ s.fsm = .l0) := by
  simp only [good, atL1, atL0, noread, busy, Bool.and_eq_true, Bool.or_eq_true, Bool.not_eq_true',
    beq_iff_eq, Bool.and_eq_false_iff] at h
  obtain ⟨hn, ⟨⟨hf, hr⟩, -⟩ | ⟨⟨hf, hr⟩, -⟩⟩ := h <;> simp_all

end Ptw

namespace Tlb

theorem step_entry {entries : ℕ} {s : State} {f : Fill} {x : Flush} {k : ℕ}
    (h : ((step entries s f x).entry k).v = true) :
    x.all = false ∧
      ((f.en = true ∧ s.victim = k ∧ (step entries s f x).entry k = f.entry) ∨
        (step entries s f x).entry k = s.entry k) := by
  cases ha : x.all with
  | true => simp [step, ha] at h
  | false =>
    refine ⟨rfl, ?_⟩
    have hsweep : ((s.entry k).flushOne x).v = true → (s.entry k).flushOne x = s.entry k := by
      intro hv
      unfold Entry.flushOne at hv ⊢
      split_ifs at hv ⊢
      rfl
    cases he : f.en with
    | false =>
      right
      simp only [step, ha, he, Bool.false_eq_true, ↓reduceIte] at h ⊢
      exact hsweep h
    | true =>
      simp only [step, ha, he, Bool.false_eq_true, ↓reduceIte] at h ⊢
      by_cases hk : k = s.victim
      · left
        simp [hk]
      · right
        rw [Function.update_of_ne hk] at h ⊢
        exact hsweep h

end Tlb

namespace Unified
variable {c : Cfg}

/-- An `sfence.vma` with `rs1 = x0` commits. -/
def fullFence (c : Cfg) (s : State) (i : Input) : Bool := sfenceEx c s i && s.idex.rs1 == 0#5

/-- A walk is under way that neither ends in this cycle nor has been dropped. -/
def WalkCrosses (c : Cfg) (s : State) (i : Input) : Prop :=
  ptwBusy c s = true ∧ Ptw.good c.svade s.ptw (ptwInput c s i) = false ∧
    Ptw.bad c.svade s.ptw (ptwInput c s i) = false ∧ Ptw.drop s.ptw (ptwInput c s i) = false

instance (c : Cfg) (s : State) (i : Input) : Decidable (WalkCrosses c s i) :=
  inferInstanceAs (Decidable (_ ∧ _ ∧ _ ∧ _))

def tlbOf (side : Bool) (s : State) : Tlb.State := if side then s.itlb else s.dtlb

def hitOn (c : Cfg) (s : State) (side : Bool) : Option ℕ :=
  Tlb.find (tlbOf side s) (if side then s.pc else dtlbVa c s) c.tlbEntries

/-- A page-table word is read, at the address given by the walker and the `satp` of the cycle. -/
structure ReadsPte (r : Run c) (u : ℕ) : Prop where
  req : dReq c (r.state u) (r.input u) = true
  we : dWe c (r.state u) = 0#4
  addr : dAddr c (r.state u) = Ptw.memAddr (r.state u).ptw (r.state u).csr.satp
  ready : (r.input u).dReady = true

/-- One walk: the walker is idle in cycle `a` and busy from then to cycle `t`. -/
structure Walking (r : Run c) (a t : ℕ) : Prop where
  idle : ptwBusy c (r.state a) = false
  lt : a < t
  busy : ∀ w, a < w → w ≤ t → ptwBusy c (r.state w) = true

/-- The word that led to the level-0 table of cycle `t` was read in cycle `u`. -/
structure RootRead (r : Run c) (u t : ℕ) : Prop where
  l1 : (r.state u).ptw.fsm = .l1
  reads : ReadsPte r u
  table : (r.state t).ptw.l0Ppn = (r.input u).dRdata.extractLsb' 10 22

/-- Entry `k` comes from the walk that started after `a`, read its level-1 word in `u` and its leaf
in `v`. -/
structure EntryFrom (r : Run c) (side : Bool) (k t a u v : ℕ) : Prop where
  walking : Walking r a v
  order : a < u ∧ u ≤ v ∧ v < t
  root : (r.state u).ptw.fsm = .l1 ∧ ReadsPte r u
  leaf : ReadsPte r v
  level0 : u < v → (r.state v).ptw.fsm = .l0 ∧ RootRead r u v
  fill : ptwFill c (r.state v) (r.input v) = true ∧ (r.state v).ptw.sideI = side ∧
    (tlbOf side (r.state v)).victim = k
  kept : ∀ w, v < w → w ≤ t →
    (tlbOf side (r.state w)).entry k = (tlbFill c (r.state v) (r.input v) side).entry

theorem reads_of_busy (hm : c.mmu = true) (r : Run c) {u : ℕ}
    (hb : ptwBusy c (r.state u) = true) (hok : ptwMemOk c (r.state u) = true)
    (hr : (r.input u).dReady = true) : ReadsPte r u :=
  ⟨by simp [dReq, hb, hok], by simp [dWe, hb], by simp [dAddr, hb, ptwAddr, hm, satpVal_mmu hm],
    hr⟩

/-- What is known about the walker after a fence: its result is dropped, or its walk started
after the fence. -/
def LateWalk (r : Run c) (t₀ t : ℕ) : Prop :=
  ptwBusy c (r.state t) = true → (r.state t).ptw.killed = false →
    ∃ a, t₀ ≤ a ∧ Walking r a t ∧
      ((r.state t).ptw.fsm = .l0 → ∃ u, a < u ∧ u < t ∧ RootRead r u t)

theorem busy_fsm {s : State} (hm : c.mmu = true) : ptwBusy c s = true ↔ s.ptw.fsm ≠ .idle := by
  simp [ptwBusy, hm, Ptw.busy]

variable {t t₀ : ℕ}

section
variable (hm : c.mmu = true) (r : Run c)
include hm r

theorem walking_start (hi : ptwBusy c (r.state t) = false)
    (hb : ptwBusy c (r.state (t + 1)) = true) :
    Walking r t (t + 1) ∧ (r.state (t + 1)).ptw.fsm ≠ .l0 := by
  refine ⟨⟨hi, Nat.lt_succ_self t, fun w h1 h2 => ?_⟩, fun h0 => ?_⟩
  · obtain rfl : w = t + 1 := by omega
    exact hb
  · have hidle : (r.state t).ptw.fsm = .idle := by
      by_contra hn
      simp [(busy_fsm hm).mpr hn] at hi
    rw [r.steps] at h0
    have hst : (step c (r.state t) (r.input t)).ptw = _ := ptw_step (i := r.input t) hm
    change (step c (r.state t) (r.input t)).ptw.fsm = .l0 at h0
    rw [hst] at h0
    obtain ⟨hx, -⟩ | ⟨hx, -⟩ := Ptw.reach_l0 h0 <;> simp [hidle] at hx

theorem lateWalk_step (ht : t₀ ≤ t)
    (h : ptwBusy c (r.state t) = true → ptwBusy c (r.state (t + 1)) = true →
      (r.state (t + 1)).ptw.killed = false → LateWalk r t₀ t) : LateWalk r t₀ (t + 1) := by
  intro hb hk
  cases hbt : ptwBusy c (r.state t) with
  | false =>
    obtain ⟨hw, h0⟩ := walking_start hm r hbt hb
    exact ⟨t, ht, hw, fun hx => absurd hx h0⟩
  | true =>
    have hst : (r.state (t + 1)).ptw =
        Ptw.step c.svade (r.state t).ptw (ptwInput c (r.state t) (r.input t)) := by
      rw [r.steps]
      exact ptw_step hm
    have hkt : (r.state t).ptw.killed = false := by
      have := (Ptw.step_busy c.svade (i := ptwInput c (r.state t) (r.input t))
        (ptwBusy_mmu hbt).2).2.2.1
      rw [← hst, hk] at this
      exact (Bool.or_eq_false_iff.mp this.symm).1
    obtain ⟨a, ha, hw, hl0⟩ := h hbt hb hk hbt hkt
    refine ⟨a, ha, ⟨hw.idle, by have := hw.lt; omega, fun w h1 h2 => ?_⟩, fun h0 => ?_⟩
    · obtain h2 | rfl := Nat.le_succ_iff.mp h2
      · exact hw.busy w h1 h2
      · exact hb
    · rw [hst] at h0
      obtain ⟨hx, hp⟩ | ⟨hx, hok, hr, hp⟩ := Ptw.reach_l0 h0
      · obtain ⟨u, hau, hut, hread⟩ := hl0 hx
        refine ⟨u, hau, by omega, hread.l1, hread.reads, ?_⟩
        rw [hst, hp]
        exact hread.table
      · exact ⟨t, hw.lt, Nat.lt_succ_self t, hx, reads_of_busy hm r hbt hok hr,
          by rw [hst, hp]; rfl⟩

theorem lateWalk_of_fence (hn : ¬ WalkCrosses c (r.state t₀) (r.input t₀)) (ht : t₀ + 1 ≤ t) :
    LateWalk r t₀ t := by
  induction t, ht using Nat.le_induction with
  | base =>
    refine lateWalk_step hm r le_rfl fun hb hb' hk => absurd ?_ hn
    obtain ⟨-, -, hkill, ⟨-, hg, hbad⟩ | ⟨hidle, -⟩⟩ := Ptw.step_busy c.svade
      (i := ptwInput c (r.state t₀) (r.input t₀)) (ptwBusy_mmu hb).2
    · rw [← ptw_step hm, ← show r.state (t₀ + 1) = step c _ _ from r.steps t₀, hk] at hkill
      exact ⟨hb, hg, hbad, hkill.symm⟩
    · rw [← ptw_step hm, ← show r.state (t₀ + 1) = step c _ _ from r.steps t₀] at hidle
      simp [ptwBusy, hidle] at hb'
  | succ t ht ih => exact lateWalk_step hm r (by omega) fun _ _ _ => ih

theorem tlbOf_step (side : Bool) (t : ℕ) :
    tlbOf side (r.state (t + 1)) = Tlb.step c.tlbEntries (tlbOf side (r.state t))
      (tlbFill c (r.state t) (r.input t) side) (tlbFlush c (r.state t) (r.input t)) := by
  rw [r.steps]
  cases side <;> simp [tlbOf, machine, step, hm]

theorem fill_late (hw : LateWalk r t₀ t)
    (hf : ptwFill c (r.state t) (r.input t) = true) :
    ∃ a u, t₀ ≤ a ∧ Walking r a t ∧ a < u ∧ u ≤ t ∧
      ((r.state u).ptw.fsm = .l1 ∧ ReadsPte r u) ∧ ReadsPte r t ∧
      (u < t → (r.state t).ptw.fsm = .l0 ∧ RootRead r u t) := by
  have hb := ptwFill_busy hf
  simp only [ptwFill, Ptw.doneFill, Ptw.drop, Bool.and_eq_true, Bool.not_eq_true',
    Bool.or_eq_false_iff] at hf
  obtain ⟨hok, hr, hfsm⟩ := Ptw.good_inv hf.2.1
  have hread := reads_of_busy hm r hb hok hr
  obtain ⟨a, ha, hwalk, hl0⟩ := hw hb hf.2.2.1
  obtain h1 | h0 := hfsm
  · exact ⟨a, t, ha, hwalk, hwalk.lt, le_rfl, ⟨h1, hread⟩, hread, fun h => absurd h (by omega)⟩
  · obtain ⟨u, hau, hut, hroot⟩ := hl0 h0
    exact ⟨a, u, ha, hwalk, hau, hut.le, ⟨hroot.l1, hroot.reads⟩, hread, fun _ => ⟨h0, hroot⟩⟩

theorem entry_late (hf : fullFence c (r.state t₀) (r.input t₀) = true)
    (hn : ¬ WalkCrosses c (r.state t₀) (r.input t₀)) (side : Bool) (k : ℕ) (ht : t₀ + 1 ≤ t)
    (hv : ((tlbOf side (r.state t)).entry k).v = true) :
    ∃ a u v, t₀ ≤ a ∧ EntryFrom r side k t a u v := by
  induction t, ht using Nat.le_induction with
  | base =>
    -- the fence wins over a fill of its own cycle
    rw [tlbOf_step hm] at hv
    have hall := (Tlb.step_entry hv).1
    simp only [tlbFlush] at hall
    simp only [fullFence] at hf
    simp [hf] at hall
  | succ t ht ih =>
    have hst := tlbOf_step hm r side t
    rw [hst] at hv
    obtain ⟨-, ⟨hen, hvic, hent⟩ | hsame⟩ := Tlb.step_entry hv
    · rw [← hst] at hent
      simp only [tlbFill, Bool.and_eq_true, beq_iff_eq] at hen
      obtain ⟨a, u, ha, hwalk, hau, hut, hroot, hleaf, hl0⟩ :=
        fill_late hm r (lateWalk_of_fence hm r hn ht) hen.1
      refine ⟨a, u, t, ha, hwalk, ⟨hau, hut, Nat.lt_succ_self t⟩, hroot, hleaf, hl0,
        ⟨hen.1, hen.2, hvic⟩, fun w h1 h2 => ?_⟩
      obtain rfl : w = t + 1 := by omega
      exact hent
    · rw [hsame] at hv
      obtain ⟨a, u, v, ha, he⟩ := ih hv
      rw [← hst] at hsame
      refine ⟨a, u, v, ha, he.walking, ⟨he.order.1, he.order.2.1, by have := he.order.2.2; omega⟩,
        he.root, he.leaf, he.level0, he.fill, fun w h1 h2 => ?_⟩
      obtain h2 | rfl := Nat.le_succ_iff.mp h2
      · exact he.kept w h1 h2
      · rw [hsame]
        exact he.kept t (by have := he.order.2.2; omega) le_rfl

end

/-- A full fence that no walk crosses is complete: every later hit is on an entry whose walk
started after the fence. -/
theorem fence_complete (c : Cfg) (hm : c.mmu = true) (r : Run c) (t₀ : ℕ)
    (hf : fullFence c (r.state t₀) (r.input t₀) = true)
    (hn : ¬ WalkCrosses c (r.state t₀) (r.input t₀)) (t : ℕ) (ht : t₀ < t) (side : Bool) (k : ℕ)
    (hh : hitOn c (r.state t) side = some k) :
    ∃ a u v, t₀ ≤ a ∧ EntryFrom r side k t a u v := by
  obtain ⟨-, hc⟩ := Tlb.find_some hh
  simp only [Tlb.Entry.covers, Bool.and_eq_true] at hc
  exact entry_late hm r hf hn side k ht hc.1

def fenceCfg : Cfg := { Cfg.paged with aExt := true }

/-- S-mode fences in the last word of a page; the fetch behind it misses. The `sc.w` fails, which
delays the fence by a cycle. -/
def fenceImage (a : Word) : Word :=
  match a with
  | 0x10#32 => 0xFF010113#32 -- addi x2, x2, -16
  | 0x1004#32 => 0x00000801#32 -- level-0 table at 0x2000
  | 0x2000#32 => 0x001000CF#32 -- leaf for page 0x400
  | 0x3FFFF0#32 => 0x00002283#32 -- lw x5, 0(x0)
  | 0x3FFFF8#32 => 0x180021AF#32 -- sc.w x3, x0, (x0)
  | 0x3FFFFC#32 => 0x12300073#32 -- sfence.vma x0, x3
  | _ => superImage a

def fenceRun (dReady : ℕ → Bool) : Run fenceCfg :=
  benchRun fenceCfg fenceImage (fun _ => true) dReady

/-- With an ideal memory the walk ends in the cycle of the fence, and the page is walked again. -/
theorem fence_complete_ideal :
    ∃ a u v, 22 ≤ a ∧ EntryFrom (fenceRun fun _ => true) true 0 26 a u v :=
  fence_complete fenceCfg rfl (fenceRun fun _ => true) 22 (by decide +kernel) (by decide +kernel)
    26 (by decide) true 0 (by decide +kernel)

/-- The I-TLB hit of cycle 24 is on an entry whose level-1 word was read before the fence. -/
theorem walk_crosses_fence : fenceCfg.mmu = true ∧
    fullFence fenceCfg ((fenceRun fun t => t != 22).state 22)
      ((fenceRun fun t => t != 22).input 22) = true ∧
    hitOn fenceCfg ((fenceRun fun t => t != 22).state 24) true = some 0 ∧
    ¬ ∃ a u v, 22 < u ∧ EntryFrom (fenceRun fun t => t != 22) true 0 24 a u v := by
  refine ⟨rfl, by decide +kernel, by decide +kernel, ?_⟩
  rintro ⟨a, u, v, hu, he⟩
  obtain rfl : u = 23 := by
    have := he.order
    omega
  have h23 : ((fenceRun fun t => t != 22).state 23).ptw.fsm = .l0 := by decide +kernel
  have hr := he.root.1
  simp [h23] at hr

end Unified
end RiscvScratch
