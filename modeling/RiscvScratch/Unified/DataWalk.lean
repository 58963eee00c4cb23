import RiscvScratch.Mmu.Walks
import RiscvScratch.Unified.Operands

/-! A load or store of U-mode in EX behind an empty D-TLB leaves EX with the Sv32 access of its
address. -/
namespace RiscvScratch

namespace Tlb
variable {entries : ℕ} {s : State}

def Empty (entries : ℕ) (s : State) : Prop := ∀ n < entries, (s.entry n).v = false

theorem find_empty (h : Empty entries s) (va : Word) {n : ℕ} (hn : n ≤ entries) :
    find s va n = none := by
  induction n with
  | zero => rfl
  | succ n ih => simp [find, Entry.covers, h n hn, ih (by omega)]

theorem lookup_empty (h : Empty entries s) (va : Word) : (lookup entries s va).hit = false := by
  rw [lookup_hit, find_empty h va le_rfl]
  rfl

theorem covers_fill (f : Fill) : f.entry.covers (vpn f.va) = true := by
  simp [Entry.covers, Fill.entry]

theorem lookup_fill (h : Empty entries s) (hv : s.victim < entries) {f : Fill} {x : Flush}
    (he : f.en = true) (ha : x.all = false) (ho : x.one = false) :
    lookup entries (step entries s f x) f.va = ⟨true, f.entry.pa f.va, f.perm⟩ := by
  have hentry (n : ℕ) : (step entries s f x).entry n =
      if n = s.victim then f.entry else s.entry n := by
    simp [step, he, ha, Entry.flushOne, ho, Function.update_apply]
  have hk := hentry s.victim
  rw [if_pos rfl] at hk
  have hsome := find_isSome (s := step entries s f x) hv (by rw [hk]; exact covers_fill f)
  obtain ⟨k, hfind⟩ := Option.isSome_iff_exists.mp hsome
  obtain ⟨hlt, hc⟩ := find_some hfind
  have hkv : k = s.victim := by
    by_contra hne
    rw [hentry, if_neg hne] at hc
    simp [Entry.covers, h k hlt] at hc
  rw [lookup, hfind]
  simp only [hkv, hk]
  rfl

end Tlb

namespace Unified
variable {c : Cfg} {s : State} {i : Input}

/-- What the other two translators have: no Svade and no PMA regions. -/
structure Cfg.PlainSv32 (c : Cfg) : Prop where
  mmu : c.mmu = true
  svade : c.svade = false
  pma : c.pmaN = 0

theorem Cfg.PlainSv32.allows (h : c.PlainSv32) (a : Word) :
    c.allowsR a = true ∧ c.allowsW a = true := by
  have hp : c.pma a = 0b111#3 := by
    rw [Cfg.pma, h.pma]
    rfl
  simp [Cfg.allowsR, Cfg.allowsW, hp]

/-- EX holds a load or store of U-mode for `va` that nothing but its translation can stop. -/
structure Accessing (c : Cfg) (satp va : Word) (k : Sv32.Kind) (s : State) : Prop where
  valid : s.idex.valid = true
  reads : s.idex.memRead = (k == .load)
  writes : s.idex.memWrite = (k == .store)
  notAmo : exAmo s = false
  target : exVa c s = va
  user : inUser s = true
  root : s.csr.satp = satp
  mxr : Csr.mxr s.csr = false
  aligned : exMisal c s = false
  delivered : s.idex.ifault = false
  legal : s.idex.illegal = false

theorem UpToDate.forward_stays {a : BitVec 5} {d : Word} (h : UpToDate s a d)
    (hs : freeze c s i = true ∨ exHold c s i = true) :
    forward (step c s i) a (forward s a d) = forward s a d := by
  obtain ⟨-, -, ⟨-, hx, hm⟩ | ⟨hf, hx, -⟩⟩ := stays_move hs
  · cases he : s.exmem.regWrite && s.exmem.rd != 0#5 && s.exmem.rd == a with
    | true => simp [forward, hx, he]
    | false =>
      rw [forward, hx, he, hm]
      simp [MemWb.bubble]
  · rw [(h.relatch hs).forward_eq (by simp [hx, ExMem.bubble]), h.forward_step hf]

theorem stays (hv : s.idex.valid = true) (hg : exGo c s i = false) :
    freeze c s i = true ∨ exHold c s i = true := by
  simpa [exGo, hv, or_iff_not_imp_left] using hg

theorem operands_stay (ho : OperandsUp s) (hv : s.idex.valid = true)
    (hs : freeze c s i = true ∨ exHold c s i = true) :
    opA (step c s i) = opA s ∧ opB (step c s i) = opB s := by
  obtain ⟨h1, h2⟩ := ho hv
  have hid := (stays_move hs).2.1
  constructor
  · rw [opA, hid]
    exact h1.forward_stays hs
  · rw [opB, hid]
    exact h2.forward_stays hs

theorem exVa_stays (ho : OperandsUp s) (hv : s.idex.valid = true)
    (hs : freeze c s i = true ∨ exHold c s i = true) : exVa c (step c s i) = exVa c s := by
  obtain ⟨ha, hb⟩ := operands_stay ho hv hs
  simp only [exVa, exAmo, aluResult, aluB, ha, hb, (stays_move hs).2.1, relatched]
  rfl

variable {satp va : Word} {k : Sv32.Kind}

namespace Accessing

section
variable (h : Accessing c satp va k s)
include h

theorem plain (hw : s.idex.Wf) : s.idex.special = false := by
  by_contra hx
  obtain ⟨h1, h2, -⟩ := hw.plain (Bool.eq_true_of_not_eq_false hx)
  rw [h.reads] at h1
  rw [h.writes] at h2
  revert h1 h2
  cases k <;> decide

theorem exMem : exMem s = true := by
  rw [Unified.exMem, h.valid, h.reads, h.writes]
  cases k <;> rfl

theorem needs : needR s = (k == .load) ∧ needW s = (k == .store) := by
  have ha := h.notAmo
  simp only [exAmo, Bool.or_eq_false_iff] at ha
  simp [needR, needW, ha, h.reads, h.writes]

theorem vmOn (hm : c.mmu = true) (hon : satp.getLsbD 31 = true) :
    vmOn c s = true := by
  have hu : s.csr.priv = Csr.privU := by simpa [inUser] using h.user
  simp [Unified.vmOn, hm, inM, hu, satpVal_mmu hm, h.root, hon, Csr.privU, Csr.privM]

theorem exXlate (hm : c.mmu = true)
    (hon : satp.getLsbD 31 = true) : exXlate c s = true := by
  rw [Unified.exXlate, h.exMem, h.vmOn hm hon, h.aligned]
  rfl

theorem dtlb_eq (hm : c.mmu = true) (hw : s.idex.Wf)
    (hv : VecHeld c s) : dtlbVa c s = va ∧ dtlb c s = Tlb.lookup c.tlbEntries s.dtlb va := by
  have hp := h.plain hw
  simp only [IdEx.special, Bool.or_eq_false_iff] at hp
  have hact : vMemActive c s = false := by
    by_contra ha
    have hb := vMemActive_busy (Bool.eq_true_of_not_eq_false ha)
    simp [hv.vec (by simp [vRunning, hb])] at hp
  have hva : dtlbVa c s = va := by simp [dtlbVa, hact, h.target]
  exact ⟨hva, by rw [dtlb, if_pos hm, hva]⟩

theorem step (ho : OperandsUp s) (hg : exGo c s i = false) :
    Accessing c satp va k (step c s i) := by
  have hs := stays h.valid hg
  have hid := (stays_move hs).2.1
  have hva := exVa_stays ho h.valid hs
  have hm := (idle_of_not_exGo hg).sameMode
  constructor
  · rw [hid]; exact h.valid
  · rw [hid]; exact h.reads
  · rw [hid]; exact h.writes
  · rw [exAmo, hid]; exact h.notAmo
  · rw [hva, h.target]
  · rw [inUser_congr hm, h.user]
  · rw [hm.satp, h.root]
  · rw [hm.mxr, h.mxr]
  · have ha := h.aligned
    rw [exMisal, ← hva] at ha
    rw [exMisal, Unified.exMem, hid]
    exact ha
  · rw [hid]; exact h.delivered
  · rw [hid]; exact h.legal

theorem exception_eq (hp : c.PlainSv32) (hw : s.idex.Wf) :
    exIllegal c s = false ∧ exImisal c s = false ∧ exDafPma c s = false ∧
      exception c s = exDfault c s := by
  have hsp := h.plain hw
  simp only [IdEx.special, Bool.or_eq_false_iff] at hsp
  obtain ⟨⟨⟨⟨⟨⟨⟨hcsr, hmret⟩, hsret⟩, hsf⟩, hec⟩, heb⟩, -⟩, hvec⟩ := hsp
  have hill : exIllegal c s = false := by
    simp [exIllegal, csrBad, h.legal, hcsr, hvec, hmret, hsret, hsf]
  have hj : exImisal c s = false := by
    have hmem : s.idex.memRead = true ∨ s.idex.memWrite = true := by
      rw [h.reads, h.writes]
      cases k <;> simp
    obtain ⟨hb, hj, -⟩ := hw.noJump hmem
    simp [exImisal, exTaken, hb, hj]
  have hpma : exDafPma c s = false := by simp [exDafPma, hp.allows]
  refine ⟨hill, hj, hpma, ?_⟩
  simp [exception, h.delivered, hill, hec, heb, hpma, h.aligned, hj, vFaultNow, hvec]

theorem exHold_eq (hw : s.idex.Wf) :
    exHold c s i = exDwalk c s := by
  have hsp := h.plain hw
  simp only [IdEx.special, Bool.or_eq_false_iff] at hsp
  simp [exHold, vWait, fenceiWait, hsp]

end

end Accessing

def walkFound (mem : Word → Word) (satp va : Word) : Option Sv32.Leaf :=
  Ptw.found false mem (fun _ => true) satp va

inductive Result (c : Cfg) (mem : Word → Word) (satp va : Word) (s : State) : Prop
  | filled (leaf : Sv32.Leaf) (found : walkFound mem satp va = some leaf)
      (hit : Tlb.lookup c.tlbEntries s.dtlb va = ⟨true, (leaf.addr va).setWidth 32, leaf.perm⟩)
  | failed (found : walkFound mem satp va = none) (empty : Tlb.Empty c.tlbEntries s.dtlb)
      (fault : exWresFault c s = true) (page : s.wresAf = false)

inductive Phase (c : Cfg) (mem : Word → Word) (satp va : Word) (s : State) : Prop
  | waiting (other : ptwBusy c s = true → s.ptw.sideI = true)
      (empty : Tlb.Empty c.tlbEntries s.dtlb) (clear : exWresFault c s = false)
  | walking (past : List Word) (stage : Ptw.Stage mem (fun _ => true) satp va s.ptw past)
      (side : s.ptw.sideI = false) (kept : s.ptw.killed = false)
      (empty : Tlb.Empty c.tlbEntries s.dtlb) (clear : exWresFault c s = false)
      (port : mPort s = false)
  | done (result : Result c mem satp va s) (idle : ptwBusy c s = false) (port : mPort s = false)

variable {mem : Word → Word}

theorem exWresFault_stays (hva : exVa c (step c s i) = exVa c s) (h : Idle c s i)
    (h1 : ptwFill c s i = false) (h2 : ptwFault c s i = false) :
    exWresFault c (step c s i) = exWresFault c s := by
  obtain ⟨e1, e2, e3⟩ := wres_same h h1 h2
  rw [exWresFault, exWresFault, e1, e2, e3, hva]

theorem exWresFault_fetch (hva : exVa c (step c s i) = exVa c s) (h : Idle c s i)
    (hs : s.ptw.sideI = true) (hc : exWresFault c s = false) :
    exWresFault c (step c s i) = false := by
  cases hf : ptwFault c s i with
  | true =>
    obtain ⟨-, e2, -⟩ := wres_of_fault h hf
    simp [exWresFault, e2, hs]
  | false =>
    cases hg : ptwFill c s i with
    | false => rw [exWresFault_stays hva h hg hf, hc]
    | true =>
      have e1 : (step c s i).wresValid = true → s.wresValid = true := by
        simp only [step, nextWresValid, h.takeTrap, h.sfence, hf, Bool.or_self,
          Bool.false_eq_true, ↓reduceIte]
        split_ifs <;> simp
      have e2 : (step c s i).wresI = s.wresI := by simp [step, wresWrite, hf]
      have e3 : (step c s i).wresVpn = s.wresVpn := by simp [step, wresWrite, hf]
      rw [exWresFault] at hc ⊢
      rw [e2, e3, hva]
      cases hv : (step c s i).wresValid with
      | false => rfl
      | true => rw [← hc, e1 hv]

theorem port_stays (hf : freeze c s i = true) (hx : (step c s i).exmem = s.exmem)
    (hd : mDone c s i = false) : mPort (step c s i) = mPort s ∧ mLast (step c s i) = mLast s := by
  have ht := (idle_of_not_exGo (not_exGo_of_freeze hf)).takeTrap
  have h1 : (step c s i).resvValid = s.resvValid := by simp [step, nextResvValid, ht, hd, hf]
  have h2 : (step c s i).resvAddr = s.resvAddr := by simp [step, hd]
  have h3 : (step c s i).amoPh = s.amoPh := by simp [step, nextAmoPh, hd]
  simp only [mPort, mLoad, mStore, scOk, mLast, hx, h1, h2, h3, and_self]

theorem mPort_stays (hs : freeze c s i = true ∨ exHold c s i = true) (h : mPort s = false) :
    mPort (step c s i) = false := by
  obtain ⟨-, -, ⟨hf, hx, -⟩ | ⟨-, hx, -⟩⟩ := stays_move hs
  · have hd : mDone c s i = false := by simp [mDone, mReq, h]
    rw [(port_stays hf hx hd).1, h]
  · exact mPort_bubble hx

theorem ptw_rests (hm : c.mmu = true) (hb : ptwBusy c s = false)
    (hgo : mPort s = true ∨ i.halt = true) : ptwBusy c (step c s i) = false := by
  have hfsm : s.ptw.fsm = .idle := by simpa [ptwBusy, hm, Ptw.busy] using hb
  have hd : (ptwInput c s i).startD = false := by
    rcases hgo with h | h <;> simp [ptwInput, ptwStartD, h]
  have hi : (ptwInput c s i).startI = false := by
    rcases hgo with h | h <;> simp [ptwInput, ptwStartI, h]
  simp [ptwBusy, ptw_step hm, Ptw.busy, Ptw.step_idle c.svade hfsm hd hi]

structure Staying (c : Cfg) (mem : Word → Word) (satp va : Word) (k : Sv32.Kind) (s : State)
    (i : Input) : Prop where
  cfg : c.PlainSv32
  mode : satp.getLsbD 31 = true
  access : Accessing c satp va k s
  wf : s.idex.Wf
  vec : VecHeld c s
  up : OperandsUp s
  victim : s.dtlb.victim < c.tlbEntries
  ram : ptwBusy c s = true → i.dReady = true → i.dRdata = mem (dAddr c s)

namespace Staying

section
variable (h : Staying c mem satp va k s i)
include h

theorem walks (he : Tlb.Empty c.tlbEntries s.dtlb)
    (hc : exWresFault c s = false) : exDwalk c s = true := by
  have hit : (dtlb c s).hit = false := by
    rw [(h.access.dtlb_eq h.cfg.mmu h.wf h.vec).2]
    exact Tlb.lookup_empty he va
  rw [exDwalk, h.access.exXlate h.cfg.mmu h.mode, hit, hc]
  rfl

theorem no_go (hw : exDwalk c s = true) :
    exGo c s i = false := by
  simp [exGo, h.access.exHold_eq h.wf, hw]

theorem step_waiting
    (other : ptwBusy c s = true → s.ptw.sideI = true) (empty : Tlb.Empty c.tlbEntries s.dtlb)
    (clear : exWresFault c s = false) : Phase c mem satp va (step c s i) := by
  have hwalk := h.walks empty clear
  have hg := h.no_go hwalk
  have hidle := idle_of_not_exGo hg
  have hs := stays h.access.valid hg
  have hva := exVa_stays h.up h.access.valid hs
  have hptw := ptw_step (s := s) (i := i) h.cfg.mmu
  cases hb : ptwBusy c s with
  | true =>
    have hside := other hb
    obtain ⟨-, hs', -⟩ := Ptw.step_busy c.svade (i := ptwInput c s i) (ptwBusy_mmu hb).2
    refine .waiting (fun _ => ?_) ?_ (exWresFault_fetch hva hidle hside clear)
    · rw [hptw, hs', hside]
    · rw [dtlb_hold hidle (by simp [tlbFill, hside])]
      exact empty
  | false =>
    have hdt := dtlb_hold hidle (no_fill_of_idle (i := i) false hb)
    obtain ⟨hnf, hnx⟩ := no_result_of_idle (i := i) hb
    have hcl : exWresFault c (step c s i) = false := by
      rw [exWresFault_stays hva hidle hnf hnx, clear]
    cases hgo : mPort s || i.halt with
    | true =>
      refine .waiting (fun hx => ?_) (by rwa [hdt]) hcl
      simp [ptw_rests h.cfg.mmu hb (by simpa using hgo)] at hx
    | false =>
      simp only [Bool.or_eq_false_iff] at hgo
      have hfsm : s.ptw.fsm = .idle := by
        simpa [ptwBusy, h.cfg.mmu, Ptw.busy] using hb
      have hd : (ptwInput c s i).startD = true := by
        simp [ptwInput, ptwStartD, hwalk, hgo]
      have hst := hptw.trans (Ptw.step_startD c.svade hfsm hd)
      refine .walking [] ?_ (by rw [hst]) (by rw [hst]) (by rwa [hdt]) hcl (mPort_stays hs hgo.1)
      refine .l1 (by rw [hst]) ?_ rfl
      rw [hst]
      exact (h.access.dtlb_eq h.cfg.mmu h.wf h.vec).1

theorem served (hb : ptwBusy c s = true)
    (side : s.ptw.sideI = false) (kept : s.ptw.killed = false) :
    Ptw.Served mem (fun _ => true) satp s.ptw (ptwInput c s i) where
  root := (satpVal_mmu h.cfg.mmu).trans h.access.root
  readable := (h.cfg.allows _).1
  data hr := by
    have ha : dAddr c s = Ptw.memAddr s.ptw satp := by
      rw [dAddr, if_pos hb, ptwAddr, if_pos h.cfg.mmu, satpVal_mmu h.cfg.mmu, h.access.root]
    rw [← ha]
    exact h.ram hb hr
  kept := by simp [Ptw.drop, side, kept]

end

variable {past : List Word}

section
variable (h : Staying c mem satp va k s i)
include h

theorem walking_busy
    (stage : Ptw.Stage mem (fun _ => true) satp va s.ptw past) : ptwBusy c s = true := by
  cases stage with
  | l1 hf => simp [ptwBusy, h.cfg.mmu, Ptw.busy_l1 hf]
  | l0 _ hf => simp [ptwBusy, h.cfg.mmu, Ptw.busy_l0 hf]

theorem reports : ptwFill c s i = Ptw.doneFill false s.ptw (ptwInput c s i) ∧
      ptwFault c s i = Ptw.doneFault false s.ptw (ptwInput c s i) := by
  rw [ptwFill, ptwFault, h.cfg.mmu, h.cfg.svade, Bool.true_and, Bool.true_and]
  exact ⟨rfl, rfl⟩

theorem walking_ends
    (stage : Ptw.Stage mem (fun _ => true) satp va s.ptw past) (side : s.ptw.sideI = false)
    (kept : s.ptw.killed = false) (empty : Tlb.Empty c.tlbEntries s.dtlb)
    (clear : exWresFault c s = false) (hb' : ptwBusy c (step c s i) = false) :
    Result c mem satp va (step c s i) := by
  have hg := h.no_go (h.walks empty clear)
  have hidle := idle_of_not_exGo hg
  have hva := exVa_stays h.up h.access.valid (stays h.access.valid hg)
  have hserved := h.served (h.walking_busy stage) side kept
  obtain ⟨hfill, hfault⟩ := h.reports
  have hwva : s.ptw.va = va := by
    cases stage with
    | l1 _ hv => exact hv
    | l0 _ _ hv => exact hv
  rw [ptwBusy, ptw_step h.cfg.mmu, h.cfg.mmu, Bool.true_and, h.cfg.svade] at hb'
  obtain ⟨hends, -⟩ := stage.ends hserved hb'
  cases hres : Ptw.found false mem (fun _ => true) satp va with
  | some l =>
    have hf : ptwFill c s i = true := by
      rw [hfill, hends.fill, hres]
      rfl
    have hrep := hends.leaf l hres
    have hen : (tlbFill c s i false).en = true := by simp [tlbFill, hf, side]
    have hlook := Tlb.lookup_fill empty h.victim hen hidle.flush.1 hidle.flush.2
    have htlb : (step c s i).dtlb =
        Tlb.step c.tlbEntries s.dtlb (tlbFill c s i false) (tlbFlush c s i) := by
      simp [step, h.cfg.mmu]
    have hfva : (tlbFill c s i false).va = va := hwva
    have hperm : (tlbFill c s i false).perm = l.perm := by
      rw [tlbFill, h.cfg.svade, ← hrep]
      rfl
    rw [← htlb, hfva, hperm, Tlb.leaf_pa l _ (by rw [← hrep]; rfl) (by rw [← hrep]; rfl)] at hlook
    exact .filled l hres hlook
  | none =>
    have hx : ptwFault c s i = true := by rw [hfault, hends.fault, hres]
    have hnf : ptwFill c s i = false := by
      by_contra hc
      rw [hfill, Bool.not_eq_false, hends.fill, hres] at hc
      simp at hc
    obtain ⟨e1, e2, e3⟩ := wres_of_fault hidle hx
    refine .failed hres ?_ ?_ ?_
    · rw [dtlb_hold hidle (by simp [tlbFill, hnf])]
      exact empty
    · rw [exWresFault, e1, e2, e3, hva, h.access.target, hwva, side]
      simp
    · have hno : Ptw.noread s.ptw (ptwInput c s i) = false := by
        rw [Ptw.noread, hserved.readable]
        simp
      simp [step, hidle.takeTrap, hidle.sfence, hx, Ptw.doneAf, hno]

theorem step_walking
    (stage : Ptw.Stage mem (fun _ => true) satp va s.ptw past) (side : s.ptw.sideI = false)
    (kept : s.ptw.killed = false) (empty : Tlb.Empty c.tlbEntries s.dtlb)
    (clear : exWresFault c s = false) (port : mPort s = false) :
    Phase c mem satp va (step c s i) := by
  have hg := h.no_go (h.walks empty clear)
  have hidle := idle_of_not_exGo hg
  have hs := stays h.access.valid hg
  have hport := mPort_stays hs port
  have hptw := ptw_step (s := s) (i := i) h.cfg.mmu
  have hb := h.walking_busy stage
  cases hb' : ptwBusy c (step c s i) with
  | false => exact .done (h.walking_ends stage side kept empty clear hb') hb' hport
  | true =>
    rw [ptwBusy, hptw, h.cfg.mmu, Bool.true_and, h.cfg.svade] at hb'
    obtain ⟨hnf, hnx⟩ := Ptw.no_report hb'
    rw [← h.reports.1] at hnf
    rw [← h.reports.2] at hnx
    rw [h.cfg.svade] at hptw
    obtain ⟨-, hs', hk', -⟩ := Ptw.step_busy false (i := ptwInput c s i) (ptwBusy_mmu hb).2
    refine .walking _ (hptw ▸ stage.next (h.served hb side kept) hb') ?_ ?_ ?_ ?_ hport
    · rw [hptw, hs', side]
    · rw [hptw, hk', side, kept, Bool.and_false, Bool.or_false]
    · rw [dtlb_hold hidle (by simp [tlbFill, hnf])]
      exact empty
    · rw [exWresFault_stays (exVa_stays h.up h.access.valid hs) hidle hnf hnx, clear]

theorem halted (hg : exGo c s i = false)
    (hd : exDwalk c s = false) (port : mPort s = false) : i.halt = true := by
  have hs := stays h.access.valid hg
  rw [h.access.exHold_eq h.wf, hd] at hs
  simpa [freeze, port] using hs

theorem filled_walk {l : Sv32.Leaf}
    (hit : Tlb.lookup c.tlbEntries s.dtlb va = ⟨true, (l.addr va).setWidth 32, l.perm⟩) :
    dtlb c s = ⟨true, (l.addr va).setWidth 32, l.perm⟩ ∧ exDwalk c s = false := by
  have hd : dtlb c s = ⟨true, (l.addr va).setWidth 32, l.perm⟩ := by
    rw [(h.access.dtlb_eq h.cfg.mmu h.wf h.vec).2, hit]
  exact ⟨hd, by simp [exDwalk, hd]⟩

theorem result_walk (hr : Result c mem satp va s) :
    exDwalk c s = false := by
  cases hr with
  | filled l found hit => exact (h.filled_walk hit).2
  | failed found empty fault => simp [exDwalk, fault]

theorem step (hg : exGo c s i = false)
    (hp : Phase c mem satp va s) : Phase c mem satp va (step c s i) := by
  have hidle := idle_of_not_exGo hg
  have hs := stays h.access.valid hg
  cases hp with
  | waiting other empty clear => exact h.step_waiting other empty clear
  | walking past stage side kept empty clear port =>
    exact h.step_walking stage side kept empty clear port
  | done result idle port =>
    have hh := h.halted hg (h.result_walk result) port
    have hdt := dtlb_hold hidle (no_fill_of_idle (i := i) false idle)
    refine .done ?_ (ptw_rests h.cfg.mmu idle (.inr hh)) (mPort_stays hs port)
    cases result with
    | filled l found hit => exact .filled l found (by rw [hdt, hit])
    | failed found empty fault page =>
      obtain ⟨hnf, hnx⟩ := no_result_of_idle (i := i) idle
      have hva := exVa_stays h.up h.access.valid hs
      refine .failed found (by rw [hdt]; exact empty) ?_ ?_
      · rw [exWresFault_stays hva hidle hnf hnx, fault]
      · simp [Unified.step, hidle.takeTrap, hidle.sfence, hnx, page]

end

end Staying

/-- What an access that leaves EX does: the exception that it raises, or the address that MEM
receives. -/
def accessed (c : Cfg) (s : State) (i : Input) : Except Word Word :=
  if exception c s then .error (trapCause c s i) else .ok (executed c s i).addr

namespace Staying

theorem permOk_eq (h : Staying c mem satp va k s i) {l : Sv32.Leaf} {pa : Word}
    (hd : dtlb c s = ⟨true, pa, l.perm⟩) : permOk c s = l.userOk k := by
  obtain ⟨hr, hw⟩ := h.access.needs
  simp only [permOk, userOk, readable, h.access.user, h.access.mxr, hd, hr, hw,
    Sv32.Leaf.userOk]
  cases k <;> simp [Sv32.Kind.bit, show (Sv32.Kind.store == Sv32.Kind.load) = false from rfl,
    show (Sv32.Kind.load == Sv32.Kind.store) = false from rfl]

theorem trapCause_eq (h : Staying c mem satp va k s i) (hf : exDfault c s = true)
    (ha : exDafWalk c s = false) : trapCause c s i = k.cause := by
  obtain ⟨hill, hj, hpma, -⟩ := h.access.exception_eq h.cfg h.wf
  have hsp := h.access.plain h.wf
  simp only [IdEx.special, Bool.or_eq_false_iff] at hsp
  simp only [trapCause, h.access.delivered, hill, hsp, hj, h.access.aligned, exDaf, ha, hpma, hf,
    h.access.needs.2, Bool.or_self, Bool.false_eq_true, ↓reduceIte]
  cases k <;> rfl

theorem leaves (h : Staying c mem satp va k s i) (hp : Phase c mem satp va s)
    (hg : exGo c s i = true) : accessed c s i = Mmu.sv32 mem satp va k := by
  obtain ⟨-, -, -, hexc⟩ := h.access.exception_eq h.cfg h.wf
  have hxl := h.access.exXlate h.cfg.mmu h.mode
  rw [accessed, hexc, Mmu.sv32]
  cases hp with
  | waiting _ empty clear | walking _ _ _ _ empty clear =>
    simp [h.no_go (h.walks empty clear)] at hg
  | done result =>
  cases result with
  | filled l found hit =>
    obtain ⟨hd, -⟩ := h.filled_walk hit
    have hf : exDfault c s = !l.userOk k := by
      rw [exDfault, hxl, hd, Bool.true_and, if_pos rfl, h.permOk_eq hd]
    rw [hf, show Ptw.found false mem (fun _ => true) satp va = some l from found,
      Sv32.userAccess]
    cases hok : l.userOk k with
    | true => simp [executed, exPa, hxl, hd, Except.map]
    | false =>
      have haf : exDafWalk c s = false := by simp [exDafWalk, hd]
      rw [h.trapCause_eq (by rw [hf, hok]; rfl) haf]
      rfl
  | failed found empty fault page =>
    have hit : (dtlb c s).hit = false := by
      rw [(h.access.dtlb_eq h.cfg.mmu h.wf h.vec).2]
      exact Tlb.lookup_empty empty va
    have hf : exDfault c s = true := by simp [exDfault, hxl, hit, fault]
    rw [hf, show Ptw.found false mem (fun _ => true) satp va = none from found,
      h.trapCause_eq hf (by simp [exDafWalk, page])]
    rfl

end Staying

def rank (c : Cfg) (s : State) : ℕ :=
  if ptwBusy c s then (if s.ptw.sideI then 6 else 0) + (if s.ptw.fsm = .l1 then 2 else 1)
  else if mPort s then (if mLast s then 4 else 5)
  else 3

theorem level_step (svade : Bool) {w : Ptw.State} {x : Ptw.Input} (hb : Ptw.busy w = true)
    (hb' : Ptw.busy (Ptw.step svade w x) = true) :
    (if (Ptw.step svade w x).fsm = .l1 then 2 else 1) + x.memReady.toNat ≤
      if w.fsm = .l1 then 2 else 1 := by
  cases hr : x.memReady with
  | true =>
    obtain ⟨h0, hn⟩ := Ptw.step_ready hr hb' hb
    have h1 : w.fsm = .l1 := by
      cases hf : w.fsm with
      | idle => simp [Ptw.busy, hf] at hb
      | l1 => rfl
      | l0 => exact absurd hf hn
    simp [h0, h1]
  | false =>
    cases hf : w.fsm with
    | idle => simp [Ptw.busy, hf] at hb
    | l1 =>
      simp only [↓reduceIte, Bool.toNat_false, Nat.add_zero]
      split_ifs <;> omega
    | l0 => simp [(Ptw.step_l0 hf hb').2]

theorem rank_busy (h : ptwBusy c s = true) :
    rank c s = (if s.ptw.sideI then 6 else 0) + (if s.ptw.fsm = .l1 then 2 else 1) := by
  rw [rank, if_pos h]

theorem rank_idle (h : ptwBusy c s = false) : 3 ≤ rank c s ∧ rank c s ≤ 5 := by
  simp only [rank, h, Bool.false_eq_true, ↓reduceIte]
  split_ifs <;> omega

theorem rank_mem (hg : exGo c s i = false) (hb : ptwBusy c s = false)
    (hb' : ptwBusy c (step c s i) = false) (hh : i.halt = false) (hp : mPort s = true) :
    rank c (step c s i) + i.dReady.toNat ≤ rank c s := by
  have hreq : mReq c s i = true := by simp [mReq, hp, hb, hh]
  have hidle := idle_of_not_exGo hg
  cases hd : i.dReady with
  | false =>
    have hdone : mDone c s i = false := by simp [mDone, hd]
    have hf : freeze c s i = true := by simp [freeze, hp, hdone]
    have hx : (step c s i).exmem = s.exmem := by simp [step, nextExmem, hf]
    obtain ⟨hp', hl'⟩ := port_stays hf hx hdone
    simp [rank, hb, hb', hp', hl', hp]
  | true =>
    have hdone : mDone c s i = true := by simp [mDone, hreq, hd]
    cases hl : mLast s with
    | true =>
      have hf : freeze c s i = false := by simp [freeze, hh, hdone, hl]
      have hx : (step c s i).exmem = ExMem.bubble := by
        simp [step, nextExmem, hf, hidle.keep]
      simp [rank, hb, hp, hl, hb', mPort_bubble hx]
    | false =>
      have hf : freeze c s i = true := by simp [freeze, hp, hl]
      have hx : (step c s i).exmem = s.exmem := by simp [step, nextExmem, hf]
      have ha : s.exmem.rmw = true ∧ s.amoPh = false := by simpa [mLast] using hl
      have hp' : mPort (step c s i) = true := by simp [mPort, hx, ha]
      have hl' : mLast (step c s i) = true := by
        simp [mLast, step, nextAmoPh, ha, hdone]
      simp [rank, hb, hp, hl, hb', hp', hl']

theorem Staying.rank_step {i' : Input} (h : Staying c mem satp va k s i)
    (h' : Staying c mem satp va k (Unified.step c s i) i') (hp : Phase c mem satp va s)
    (hp' : exDwalk c (Unified.step c s i) = true) (hh : i.halt = false)
    (hg : exGo c s i = false) :
    rank c (Unified.step c s i) + i.dReady.toNat ≤ rank c s := by
  have hmmu := h.cfg.mmu
  have hptw := ptw_step (s := s) (i := i) hmmu
  have hbusy (hb : ptwBusy c s = true) (hb' : ptwBusy c (Unified.step c s i) = true) :
      rank c (Unified.step c s i) + i.dReady.toNat ≤ rank c s := by
    obtain ⟨-, hside, -⟩ := Ptw.step_busy c.svade (i := ptwInput c s i) (ptwBusy_mmu hb).2
    have hl := level_step c.svade (x := ptwInput c s i) (ptwBusy_mmu hb).2
      (by rw [← hptw]; exact (ptwBusy_mmu hb').2)
    have hr : (ptwInput c s i).memReady = i.dReady := rfl
    rw [rank_busy hb, rank_busy hb', hptw, hside]
    rw [hr] at hl
    omega
  cases hp with
  | waiting other empty clear =>
    cases hb : ptwBusy c s with
    | true =>
      cases hb' : ptwBusy c (Unified.step c s i) with
      | true => exact hbusy hb hb'
      | false =>
        have h1 := (rank_idle hb').2
        have h2 : i.dReady.toNat ≤ 1 := Bool.toNat_le _
        rw [rank_busy hb, other hb, if_pos rfl]
        split_ifs <;> omega
    | false =>
      cases hm : mPort s with
      | true => exact rank_mem hg hb (ptw_rests hmmu hb (.inl hm)) hh hm
      | false =>
        have hfsm : s.ptw.fsm = .idle := by simpa [ptwBusy, hmmu, Ptw.busy] using hb
        have hd : (ptwInput c s i).startD = true := by
          simp [ptwInput, ptwStartD, h.walks empty clear, hm, hh]
        have hst := hptw.trans (Ptw.step_startD c.svade hfsm hd)
        have h1 : rank c (Unified.step c s i) = 2 := by
          rw [rank_busy (by rw [ptwBusy, hmmu, hst]; rfl), hst]
          rfl
        have h2 : i.dReady.toNat ≤ 1 := Bool.toNat_le _
        have h3 := (rank_idle hb).1
        omega
  | walking past stage side kept empty clear port =>
    cases hb' : ptwBusy c (Unified.step c s i) with
    | true => exact hbusy (h.walking_busy stage) hb'
    | false =>
      simp [h'.result_walk (h.walking_ends stage side kept empty clear hb')] at hp'
  | done result idle port => simp [h.halted hg (h.result_walk result) port] at hh

/-- An access in EX at cycle `t₀` behind an empty D-TLB, with no data walk under way. The walker
reads `mem`. -/
structure DataAccess (r : Run c) (mem : Word → Word) (satp va : Word) (k : Sv32.Kind) (t₀ : ℕ) :
    Prop where
  access : Accessing c satp va k (r.state t₀)
  empty : Tlb.Empty c.tlbEntries (r.state t₀).dtlb
  noWalk : ptwBusy c (r.state t₀) = true → (r.state t₀).ptw.sideI = true
  noFailure : exWresFault c (r.state t₀) = false
  ram : ∀ u ≥ t₀, ptwBusy c (r.state u) = true → (r.input u).dReady = true →
    (r.input u).dRdata = mem (dAddr c (r.state u))

/-- The instruction in EX at `t₀` is still there at `n`. -/
def StaysTo (r : Run c) (t₀ n : ℕ) : Prop :=
  t₀ ≤ n ∧ ∀ u ≥ t₀, u < n → exGo c (r.state u) (r.input u) = false

namespace DataAccess
variable {r : Run c} {t₀ n : ℕ}

section
variable (h : DataAccess r mem satp va k t₀) (hc : c.PlainSv32) (hon : satp.getLsbD 31 = true)
include h hc hon

theorem staying (hn : t₀ ≤ n) (ha : Accessing c satp va k (r.state n)) :
    Staying c mem satp va k (r.state n) (r.input n) where
  cfg := hc
  mode := hon
  access := ha
  wf := run_idex_wf r n
  vec := run_vecHeld r n
  up := run_operands r n
  victim := (run_victim r n).2
  ram := h.ram n hn

theorem phase (hs : StaysTo r t₀ n) :
    Accessing c satp va k (r.state n) ∧ Phase c mem satp va (r.state n) := by
  obtain ⟨hn, hs⟩ := hs
  induction n, hn using Nat.le_induction with
  | base => exact ⟨h.access, .waiting h.noWalk h.empty h.noFailure⟩
  | succ n hn ih =>
    obtain ⟨ha, hp⟩ := ih fun u h1 h2 => hs u h1 (by omega)
    have hg := hs n hn (by omega)
    have hst := run_step r n
    rw [hst]
    exact ⟨ha.step (run_operands r n) hg, (h.staying hc hon hn ha).step hg hp⟩

theorem leaves (hs : StaysTo r t₀ n)
    (hg : exGo c (r.state n) (r.input n) = true) :
    accessed c (r.state n) (r.input n) = Mmu.sv32 mem satp va k := by
  obtain ⟨ha, hp⟩ := h.phase hc hon hs
  exact (h.staying hc hon hs.1 ha).leaves hp hg

theorem walks (hs : StaysTo r t₀ (n + 1))
    (hh : (r.input n).halt = false) (hn : t₀ ≤ n) : exDwalk c (r.state n) = true := by
  have hs' : StaysTo r t₀ n := ⟨hn, fun u h1 h2 => hs.2 u h1 (by omega)⟩
  obtain ⟨ha, hp⟩ := h.phase hc hon hs'
  have hst := h.staying hc hon hn ha
  cases hp with
  | waiting _ empty clear => exact hst.walks empty clear
  | walking _ _ _ _ empty clear => exact hst.walks empty clear
  | done result _ port =>
    simp [hst.halted (hs.2 n hn (by omega)) (hst.result_walk result) port] at hh

theorem terminates (hfair : ∀ n, ∃ u ≥ n, (r.input u).dReady = true)
    (hh : ∀ u ≥ t₀, (r.input u).halt = false) :
    ∃ n, StaysTo r t₀ n ∧ exGo c (r.state n) (r.input n) = true := by
  by_contra hno
  have hgo : ∀ n ≥ t₀, StaysTo r t₀ n := by
    intro n hn
    induction n, hn using Nat.le_induction with
    | base => exact ⟨le_rfl, fun u h1 h2 => by omega⟩
    | succ n hn ih =>
      refine ⟨by omega, fun u h1 h2 => ?_⟩
      obtain hlt | rfl := Nat.lt_succ_iff_lt_or_eq.mp h2
      · exact ih.2 u h1 hlt
      · by_contra hx
        exact hno ⟨u, ih, Bool.eq_true_of_not_eq_false hx⟩
  apply Clocked.false_of_descent (fun u => (r.input u).dReady) hfair fun u => rank c (r.state u)
  intro n (hn : t₀ ≤ n)
  obtain ⟨ha, hp⟩ := h.phase hc hon (hgo n hn)
  obtain ⟨ha', -⟩ := h.phase hc hon (hgo (n + 1) (by omega))
  have hg := (hgo (n + 1) (by omega)).2 n hn (by omega)
  have hw := h.walks hc hon (hgo (n + 2) (by omega)) (hh (n + 1) (by omega)) (by omega)
  have hst := run_step r n
  have hnext := h.staying hc hon (n := n + 1) (by omega) ha'
  rw [hst] at hw hnext
  rw [hst]
  exact (h.staying hc hon hn ha).rank_step hnext hp hw (hh n hn) hg

end

end DataAccess

end Unified
end RiscvScratch
