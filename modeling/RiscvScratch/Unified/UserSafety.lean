import RiscvScratch.Unified.Frame
import RiscvScratch.Unified.PmaSafety
import RiscvScratch.Unified.Provenance

/-! User-page safety: an instruction that commits in U-mode was fetched through an entry a user may
execute, and so for its data accesses. -/
namespace RiscvScratch

namespace Tlb

/-- Some entry translates `va` to `pa`, and its permissions satisfy `ok`. -/
def Grants (entries : ℕ) (s : State) (va pa : Word) (ok : BitVec 4 → Prop) : Prop :=
  ∃ k < entries, (s.entry k).covers (vpn va) = true ∧ (s.entry k).pa va = pa ∧
    ok (s.entry k).perm

theorem lookup_grants {entries : ℕ} {s : State} {va : Word} {ok : BitVec 4 → Prop}
    (hh : (lookup entries s va).hit = true) (ho : ok (lookup entries s va).perm) :
    Grants entries s va (lookup entries s va).pa ok := by
  unfold lookup at hh ho ⊢
  cases hf : find s va entries with
  | none => simp [hf] at hh
  | some k =>
    simp only [hf] at ho ⊢
    obtain ⟨hk, hc⟩ := find_some hf
    exact ⟨k, hk, hc, rfl, ho⟩

/-- The permissions `{U, X, W, R}` let a user execute. -/
def UserExec (p : BitVec 4) : Prop := p.getLsbD 3 = true ∧ p.getLsbD 2 = true

def UserAccess (mxr write : Bool) (p : BitVec 4) : Prop :=
  p.getLsbD 3 = true ∧
    if write then p.getLsbD 1 = true else p.getLsbD 0 = true ∨ mxr = true ∧ p.getLsbD 2 = true

end Tlb

theorem Csr.write_priv (p : Csr.Params) (s : Csr.State) (addr : BitVec 12) (src : Word)
    (f3 : BitVec 3) : (Csr.write p s addr src f3).priv = s.priv := by
  unfold Csr.write
  simp only [apply_ite Csr.State.priv, ite_self]

theorem Csr.step_priv (p : Csr.Params) (s : Csr.State) {k : Csr.Command}
    (ht : k.takeTrap = false) (hm : k.isMret = false) (hs : k.isSret = false) :
    (Csr.step p s k).priv = s.priv := by
  have hst : (Csr.step p s k).priv = (Csr.commit p s k).priv := rfl
  rw [hst, Csr.commit]
  cases k.we <;> simp [ht, hm, hs, Csr.write_priv]

namespace Unified
variable {c : Cfg} {s : State} {i : Input}

theorem csrCommit_satp_not_user (hc : csrCommit c s i = true) (ha : s.idex.csrAddr = Csr.satpA) :
    inUser s = false := by
  have hx := hc
  simp only [csrCommit, Bool.and_eq_true, Bool.not_eq_true'] at hx
  obtain ⟨⟨hg, hcsr⟩, hnt⟩ := hx
  have hbad : csrBad c s = false := by
    by_contra hb
    simp [takeTrap, hg, exception, exIllegal, Bool.eq_true_of_not_eq_false hb] at hnt
  by_contra hu
  have hp : s.csr.priv = Csr.privU := by simpa [inUser] using hu
  simp [csrBad, hcsr, ha, hp, Csr.satpA, Csr.privU] at hbad

theorem user_stays (hu : inUser (step c s i) = true) (hr : redirect c s i = false) :
    inUser s = true ∧ (step c s i).csr.satp = s.csr.satp := by
  simp only [redirect, Bool.or_eq_false_iff] at hr
  have hp : (step c s i).csr.priv = s.csr.priv :=
    Csr.step_priv _ _ hr.1.1.1 hr.1.1.2 hr.1.2
  have hs : inUser s = true := by rwa [inUser, hp] at hu
  refine ⟨hs, ?_⟩
  by_contra hne
  obtain ⟨hc, ha, -⟩ := satp_moves hne
  simp [csrCommit_satp_not_user hc ha] at hs

variable {t : ℕ}

/-- What is in ID or EX while the core is in U-mode was fetched in U-mode, under this `satp`. -/
theorem user_front (r : Run c) {g : ℕ} (hg : g ∈ front r t) (hu : inUser (r.state t) = true) :
    inUser (r.state g) = true ∧ (r.state t).csr.satp = (r.state g).csr.satp := by
  induction t with
  | zero => simp [(front_conveyor r).start] at hg
  | succ t ih =>
    have hr : redirect c (r.state t) (r.input t) = false := by
      by_contra hr
      rw [front_of_redirect r (Bool.eq_true_of_not_eq_false hr)] at hg
      simp at hg
    rw [r.steps] at hu ⊢
    obtain ⟨hu', hs⟩ := user_stays hu hr
    obtain hg | hg := List.mem_append.mp (((front_conveyor r).step t).subset hg)
    · obtain ⟨h1, h2⟩ := ih hg hu'
      exact ⟨h1, hs.trans h2⟩
    · rw [List.mem_singleton.mp hg]
      exact ⟨hu', hs⟩

/-- The instruction in EX in cycle `t` came in cycle `f` through an entry a user may execute. -/
structure UserFetched (r : Run c) (t f : ℕ) : Prop where
  lt : f < t
  user : inUser (r.state f) = true
  satp : (r.state f).csr.satp = (r.state t).csr.satp
  accepted : iReq c (r.state f) (r.input f) = true ∧ (r.input f).iReady = true
  pc : (r.state t).idex.pc = (r.state f).pc
  instr : (r.state t).idex.instr = (r.input f).iRdata
  entry : Tlb.Grants c.tlbEntries (r.state f).itlb (r.state f).pc (iAddr c (r.state f))
    Tlb.UserExec

theorem vmOn_user (hm : c.mmu = true) (hu : inUser s = true)
    (hs : s.csr.satp.getLsbD 31 = true) : vmOn c s = true := by
  have hp : s.csr.priv = Csr.privU := by simpa [inUser] using hu
  simp [vmOn, hm, inM, hp, satpVal_mmu hm, hs, Csr.privU, Csr.privM]

theorem fetch_hits (hv : vmOn c s = true) (hf : ifFault c s = false)
    (hw : ifWalk c s = false) : (itlb c s).hit = true := by
  by_contra hn
  have hn := Bool.eq_false_of_not_eq_true hn
  simp only [ifFault, Bool.or_eq_false_iff] at hf
  have hp := hf.1
  simp [ifPfault, hv, hn] at hp
  simp [ifWalk, hv, hn, hp] at hw

theorem fetch_grants (hv : vmOn c s = true) (hu : inUser s = true) (hf : ifFault c s = false)
    (hw : ifWalk c s = false) :
    Tlb.Grants c.tlbEntries s.itlb s.pc (iAddr c s) Tlb.UserExec := by
  have hit := fetch_hits hv hf hw
  simp only [ifFault, Bool.or_eq_false_iff] at hf
  have hok : fetchOk c s = true := by simpa [ifPfault, hv, hit] using hf.1
  simp only [fetchOk, hu, ↓reduceIte, Bool.and_eq_true] at hok
  simp only [itlb, vmOn_mmu hv, ↓reduceIte] at hit hok
  simp only [iAddr, hv, ↓reduceIte, itlb, vmOn_mmu hv]
  exact Tlb.lookup_grants hit ⟨hok.2, hok.1⟩

/-- An instruction that leaves EX without a trap came from the I-port in the cycle `f`. -/
structure Delivered (r : Run c) (t f : ℕ) : Prop where
  mem : f ∈ front r t
  noFault : ifFault c (r.state f) = false
  noWalk : ifWalk c (r.state f) = false
  accepted : iReq c (r.state f) (r.input f) = true ∧ (r.input f).iReady = true
  pc : (r.state t).idex.pc = (r.state f).pc
  instr : (r.state t).idex.instr = (r.input f).iRdata

theorem delivered_of_keep (r : Run c) (hk : exKeep c (r.state t) (r.input t) = true) :
    Delivered r t (tags r t).idex := by
  obtain ⟨hg, he, -⟩ := exKeep_inv hk
  have hv := (exGo_inv hg).1
  obtain ⟨⟨d1, d2, hd⟩, hok⟩ := (run_traced r t).idex hv
  have hnf : ifFault c (r.state (tags r t).idex) = false := by
    simp only [exception, Bool.or_eq_false_iff] at he
    have hi := he.1.1.1.1.1.1.1.1
    rwa [hd] at hi
  have hreq : iReq c (r.state (tags r t).idex) (r.input (tags r t).idex) = true ∧
      (r.input (tags r t).idex).iReady = true := by
    simpa [ifOk, hnf] using hok
  have hnw : ifWalk c (r.state (tags r t).idex) = false := by
    have := hreq.1
    simp only [iReq, Bool.and_eq_true, Bool.not_eq_true'] at this
    exact this.2
  refine ⟨by simp [front_cons r hv], hnf, hnw, hreq, by rw [hd]; rfl, ?_⟩
  rw [hd]
  simp [decode, fetched, hnf]

theorem user_fetch (hm : c.mmu = true) (r : Run c) (hk : exKeep c (r.state t) (r.input t) = true)
    (hu : inUser (r.state t) = true)
    (hs : (r.state t).csr.satp.getLsbD 31 = true) : UserFetched r t (tags r t).idex := by
  have hd := delivered_of_keep r hk
  obtain ⟨huf, hsf⟩ := user_front r hd.mem hu
  have hon : vmOn c (r.state (tags r t).idex) = true := vmOn_user hm huf (hsf ▸ hs)
  exact ⟨(front_conveyor r).lt hd.mem, huf, hsf.symm, hd.accepted, hd.pc, hd.instr,
    fetch_grants hon huf hd.noFault hd.noWalk⟩

theorem issued_sameMode (r : Run c) {w : ℕ} (h : Issued r t w)
    (hp : exMem (r.state w) = true) : Csr.SameMode (r.state w).csr (r.state t).csr := by
  have hfirst : Csr.SameMode (r.state w).csr (r.state (w + 1)).csr := by
    have hw := run_idex_wf r w
    have hplain : (r.state w).idex.special = false := by
      by_contra hx
      have := hw.plain (Bool.eq_true_of_not_eq_false hx)
      simp [exMem, this] at hp
    simp only [IdEx.special, Bool.or_eq_false_iff] at hplain
    have hnt : takeTrap c (r.state w) (r.input w) = false := by
      have := h.keep
      simp only [exKeep, Bool.and_eq_true, Bool.not_eq_true'] at this
      exact this.2
    rw [r.steps]
    apply Csr.step_sameMode
    · exact hnt
    · simp [csrCommand, mretEx, hplain]
    · simp [csrCommand, sretEx, hplain]
    · simp [csrCommand, csrCommit, hplain]
  have hrest : ∀ v, w + 1 ≤ v → v ≤ t → Csr.SameMode (r.state w).csr (r.state v).csr := by
    intro v hv
    induction v, hv using Nat.le_induction with
    | base => exact fun _ => hfirst
    | succ v hv ih =>
      intro hvt
      have hf := h.waits v (by omega) (by omega)
      have hs := (idle_of_not_exGo (not_exGo_of_freeze hf)).sameMode
      have h0 := ih (by omega)
      rw [r.steps]
      exact ⟨hs.priv.trans h0.priv, hs.satp.trans h0.satp, hs.sum.trans h0.sum,
        hs.mxr.trans h0.mxr⟩
  exact hrest t h.lt le_rfl

theorem access_hits (hv : VecHeld c s) (hk : exKeep c s i = true) (hx : exMem s = true)
    (hon : vmOn c s = true) :
    dtlbVa c s = exVa c s ∧ (dtlb c s).hit = true ∧ permOk c s = true ∧
      exPa c s = (dtlb c s).pa := by
  obtain ⟨hdf, -, hmis, hwalk⟩ := exKeep_no_fault hk
  have hnact : vMemActive c s = false := by
    by_contra ha
    have hb := vMemActive_busy (Bool.eq_true_of_not_eq_false ha)
    have hh := exHold_of_wait (hv.wait (i := i) hb)
    simp [(exGo_inv (exKeep_inv hk).1).2.2] at hh
  have hxl : exXlate c s = true := by simp [exXlate, hx, hon, hmis]
  have hit : (dtlb c s).hit = true := by
    by_contra hn
    have hn := Bool.eq_false_of_not_eq_true hn
    simp only [exDfault, hxl, hn, Bool.true_and, Bool.false_eq_true, ↓reduceIte] at hdf
    simp [exDwalk, hxl, hn, hdf] at hwalk
  refine ⟨by simp [dtlbVa, hnact], hit, ?_, by simp [exPa, hxl]⟩
  simpa [exDfault, hxl, hit] using hdf

/-- The request in MEM, seen from the cycle `w` in which its instruction left EX. -/
structure UserAccessed (r : Run c) (t w : ℕ) : Prop where
  issued : Issued r t w
  mode : Csr.SameMode (r.state w).csr (r.state t).csr
  entry : inUser (r.state w) = true → (r.state w).csr.satp.getLsbD 31 = true →
    Tlb.Grants c.tlbEntries (r.state w).dtlb (exVa c (r.state w)) (dAddr c (r.state t))
      (Tlb.UserAccess (Csr.mxr (r.state w).csr) (dWe c (r.state t) != 0#4))

theorem mReq_inv (h : mReq c s i = true) :
    mPort s = true ∧ ptwBusy c s = false ∧ i.halt = false := by
  simpa [mReq, and_assoc] using h

theorem needs_of_port (hw : s.idex.Wf) {m : State} (he : m.exmem = executed c s i)
    (hp : mPort m = true) :
    (mWrite m = false → needR s = true) ∧ (mWrite m = true → needW s = true) ∧
      (s.idex.memRead = true ∨ s.idex.memWrite = true) := by
  have hrmw : s.idex.rmw = true → s.idex.memRead = true ∧ s.idex.sc = false := by
    intro hr
    refine ⟨(hw.amo (.inr (.inr hr))).1, ?_⟩
    by_contra hsc
    simp [hw.amoKind.2 (Bool.eq_true_of_not_eq_false hsc)] at hr
  have hscr : s.idex.sc = true → s.idex.memRead = true := fun h => (hw.amo (.inr (.inl h))).1
  simp only [mPort, mLoad, mStore, scOk, he, executed, Bool.or_eq_true, Bool.and_eq_true,
    Bool.not_eq_true'] at hp
  refine ⟨fun hn => ?_, fun hn => ?_, by tauto⟩
  · simp only [mWrite, mStore, scOk, he, executed, Bool.or_eq_false_iff] at hn
    simp only [needR, Bool.and_eq_true, Bool.not_eq_true']
    obtain (h | h | h) | h := hp
    · exact h.1
    · simp [h] at hn
    · simp [h] at hn
    · exact hrmw h
  · simp only [mWrite, mStore, scOk, he, executed, Bool.or_eq_true, Bool.and_eq_true] at hn
    simp only [needW, Bool.or_eq_true]
    tauto

theorem user_access (hm : c.mmu = true) (r : Run c) (h : mReq c (r.state t) (r.input t) = true) :
    UserAccessed r t (tags r t).left := by
  obtain ⟨hp, hb, -⟩ := mReq_inv h
  have hi := run_issued r t (valid_of_port r hp)
  have hact := (run_vecHeld r t).not_active hp
  obtain ⟨hwe, haddr⟩ := mem_port hb hact
  generalize (tags r t).left = w at hi
  obtain ⟨hR, hW, hmem⟩ := needs_of_port (run_idex_wf r w) hi.exmem hp
  have hx : exMem (r.state w) = true := by
    have := (exGo_inv (exKeep_inv hi.keep).1).1
    simpa [exMem, this] using hmem
  refine ⟨hi, issued_sameMode r hi hx, fun hu hs => ?_⟩
  have hon := vmOn_user hm hu hs
  obtain ⟨hva, hit, hok, hpa⟩ := access_hits (run_vecHeld r w) hi.keep hx hon
  have hd : dAddr c (r.state t) = (dtlb c (r.state w)).pa := by
    rw [haddr, hi.exmem]
    exact hpa
  simp only [permOk, userOk, hu, ↓reduceIte, Bool.and_eq_true] at hok
  rw [hd]
  simp only [dtlb, hm, ↓reduceIte, hva, readable] at hit hok ⊢
  refine Tlb.lookup_grants hit ⟨hok.1.1, ?_⟩
  cases hmw : mWrite (r.state t) with
  | true =>
    have : dWe c (r.state t) ≠ 0#4 := fun h0 => by simp [hwe.mp h0] at hmw
    simpa [this, hW hmw] using hok.2
  | false =>
    have : dWe c (r.state t) = 0#4 := hwe.mpr hmw
    simpa [this, hR hmw] using hok.1.2

theorem user_element (hm : c.mmu = true) (h : vReqG c s i = true) (hu : inUser s = true)
    (hs : s.csr.satp.getLsbD 31 = true) :
    Tlb.Grants c.tlbEntries s.dtlb (vMemVa c s) (dAddr c s)
      (Tlb.UserAccess (Csr.mxr s.csr) (dWe c s != 0#4)) := by
  have hon := vmOn_user hm hu hs
  obtain ⟨-, hact⟩ := vReqG_active h
  obtain ⟨haddr, hwe⟩ := vec_port h
  have hok : vXlOk c s = true := by
    simp only [vReqG, vMemReq, Vec.memReq, Bool.and_eq_true] at h
    exact h.1.1.2.1.2
  simp only [vXlOk, hon, vPermOk, userOk, hu, readable, dtlb, hm, dtlbVa, hact, ↓reduceIte,
    Bool.not_true, Bool.false_or, Bool.and_eq_true] at hok
  rw [haddr]
  simp only [vPa, hon, dtlb, hm, dtlbVa, hact, ↓reduceIte]
  refine Tlb.lookup_grants hok.1 ⟨hok.2.1, ?_⟩
  cases hst : vMemStore c s with
  | true =>
    have : dWe c s ≠ 0#4 := fun h0 => by simp [hwe.mp h0] at hst
    simpa [this, hst] using hok.2.2
  | false =>
    have : dWe c s = 0#4 := hwe.mpr hst
    simpa [this, hst] using hok.2.2

structure UserSafe (r : Run c) (t : ℕ) : Prop where
  fetch : exKeep c (r.state t) (r.input t) = true → inUser (r.state t) = true →
    (r.state t).csr.satp.getLsbD 31 = true → UserFetched r t (tags r t).idex
  data : mReq c (r.state t) (r.input t) = true → UserAccessed r t (tags r t).left
  element : vReqG c (r.state t) (r.input t) = true → inUser (r.state t) = true →
    (r.state t).csr.satp.getLsbD 31 = true →
    Tlb.Grants c.tlbEntries (r.state t).dtlb (vMemVa c (r.state t)) (dAddr c (r.state t))
      (Tlb.UserAccess (Csr.mxr (r.state t).csr) (dWe c (r.state t) != 0#4))

/-- U-mode executes and accesses user pages only. -/
theorem user_pages_only (c : Cfg) (hm : c.mmu = true) (r : Run c) (t : ℕ) : UserSafe r t :=
  ⟨user_fetch hm r, user_access hm r, user_element hm⟩

/-- Boots into U-mode at `0x100`, where one load reads address 0. -/
def userImage (a : Word) : Word :=
  match a with
  | 0x00#32 => 0x800000B7#32 -- lui x1, 0x80000
  | 0x04#32 => 0x00108093#32 -- addi x1, x1, 1
  | 0x08#32 => 0x18009073#32 -- csrw satp, x1
  | 0x0C#32 => 0x10000113#32 -- addi x2, x0, 0x100
  | 0x10#32 => 0x34111073#32 -- csrw mepc, x2
  | 0x14#32 => 0x30200073#32 -- mret
  | 0x100#32 => 0x00002183#32 -- lw x3, 0(x0)
  | 0x1000#32 => 0x000000DF#32 -- user leaf for the first 4 MiB
  | _ => nop

def userRun : Run Cfg.paged := benchRun Cfg.paged userImage (fun _ => true) (fun _ => true)

/-- The load leaves EX in cycle 14 and is on the D-port in cycle 15. -/
theorem user_load_safe : (exKeep Cfg.paged (userRun.state 14) (userRun.input 14) = true ∧
      inUser (userRun.state 14) = true ∧ (userRun.state 14).csr.satp.getLsbD 31 = true) ∧
    mReq Cfg.paged (userRun.state 15) (userRun.input 15) = true ∧
    UserSafe userRun 14 ∧ UserSafe userRun 15 :=
  ⟨by decide +kernel, by decide +kernel, user_pages_only _ rfl _ _, user_pages_only _ rfl _ _⟩

end Unified
end RiscvScratch
