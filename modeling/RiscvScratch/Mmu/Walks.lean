import RiscvScratch.Mmu.CpuMcMmu
import RiscvScratch.Unified.PtwWalk

/-! The combinational translator and the walk states of the multi-cycle core against one Sv32
access in U-mode. -/
namespace RiscvScratch

namespace Mmu

def sv32 (mem : Word → Word) (satp va : Word) (k : Sv32.Kind) : Except Word Word :=
  (Sv32.userAccess k (Ptw.found false mem (fun _ => true) satp va) va).map (·.setWidth 32)

def grants (k : Sv32.Kind) (pte : Word) : Bool :=
  pte.getLsbD 4 && pte.getLsbD (match k with | .load => 1 | .store => 2)

variable {mem : Word → Word} {satp va : Word} {k : Sv32.Kind}

theorem offset_eq (n : BitVec 10) :
    (0#20 ++ n ++ 0#2 : BitVec 32).zeroExtend 34 = (n ++ 0#2 : BitVec 12).setWidth 34 := by
  apply BitVec.eq_of_getLsbD_eq
  intro j hj
  simp only [BitVec.truncate_eq_setWidth, BitVec.getLsbD_setWidth, BitVec.getLsbD_append,
    BitVec.getLsbD_zero]
  by_cases h2 : j < 2
  · simp [h2]
  · by_cases h12 : j - 2 < 10
    · simp [h2, h12]
    · simp [h2, h12, BitVec.getLsbD_of_ge n (j - 2) (by omega)]

theorem walkAddr1_eq (satp va : Word) : walkAddr1 satp va = (Ptw.addr1 satp va).setWidth 32 := by
  rw [walkAddr1, offset_eq]
  rfl

theorem walkAddr2_eq (pte1 va : Word) :
    walkAddr2 pte1 va = (Sv32.pteAddr (Sv32.Pte.ppn pte1) (Sv32.vpn0 va)).setWidth 32 := by
  rw [walkAddr2, offset_eq]
  rfl

theorem bus_eq (a : BitVec 34) : Ptw.bus mem (fun _ => true) a = some (mem (a.setWidth 32)) := rfl

theorem pteBad_eq (pte : Word) : Ptw.pteBad false pte = pteBad pte := by
  simp [Ptw.pteBad, pteBad]

theorem perm_bits : ∀ u x w r : Bool,
    let p := BitVec.ofBool u ++ BitVec.ofBool x ++ BitVec.ofBool w ++ BitVec.ofBool r
    p.getLsbD 3 = u ∧ p.getLsbD 1 = w ∧ p.getLsbD 0 = r := by
  decide

theorem userOk_ofPte (super : Bool) (pte : Word) :
    (Sv32.Leaf.ofPte false super pte).userOk k = grants k pte := by
  simp only [Sv32.Leaf.userOk, Sv32.Leaf.ofPte, Sv32.Pte.perm, Bool.not_false, Bool.or_true,
    Bool.and_true]
  obtain ⟨hu, hw, hr⟩ :=
    perm_bits (pte.getLsbD 4) (pte.getLsbD 3) (pte.getLsbD 2) (pte.getLsbD 1)
  rw [hu]
  cases k with
  | load => rw [Sv32.Kind.bit, hr, grants]
  | store => rw [Sv32.Kind.bit, hw, grants]

def through (k : Sv32.Kind) (pte pa : Word) : Except Word Word :=
  if grants k pte then .ok pa else .error k.cause

theorem access_super (pte : Word) :
    (Sv32.userAccess k (some (.ofPte false true pte)) va).map (·.setWidth 32) =
      through k pte (paSuper pte va) := by
  rw [Sv32.userAccess, userOk_ofPte, through]
  cases grants k pte with
  | false => rfl
  | true =>
    have hppn : (Sv32.Pte.ppn pte).extractLsb' 10 12 = pte.extractLsb' 20 12 := by
      apply BitVec.eq_of_getLsbD_eq
      intro j hj
      simp [Sv32.Pte.ppn, hj, show 10 + j < 22 by omega, ← Nat.add_assoc]
    simp [Except.map, Sv32.Leaf.addr, Sv32.Leaf.ofPte, hppn, paSuper]

theorem access_page (pte : Word) :
    (Sv32.userAccess k (some (.ofPte false false pte)) va).map (·.setWidth 32) =
      through k pte (pa4k pte va) := by
  rw [Sv32.userAccess, userOk_ofPte, through]
  cases grants k pte <;> rfl

theorem sv32_eq (mem : Word → Word) (satp va : Word) (k : Sv32.Kind) :
    let pte1 := mem (walkAddr1 satp va)
    let pte0 := mem (walkAddr2 pte1 va)
    sv32 mem satp va k =
      if pteBad pte1 then .error k.cause
      else if pteLeaf pte1 then through k pte1 (paSuper pte1 va)
      else if pteBad pte0 || !pteLeaf pte0 then .error k.cause
      else through k pte0 (pa4k pte0 va) := by
  intro pte1 pte0
  have h1 : Ptw.bus mem (fun _ => true) (Ptw.addr1 satp va) = some pte1 := by
    rw [bus_eq, ← walkAddr1_eq]
  unfold sv32
  cases hb : pteBad pte1 with
  | true =>
    have hstop : (Ptw.pteBad false pte1 || Ptw.pteLeaf pte1) = true := by simp [pteBad_eq, hb]
    rw [(Ptw.found_stop h1 hstop).1]
    simp [pteBad_eq, hb, Sv32.userAccess, Except.map]
  | false =>
    cases hl : pteLeaf pte1 with
    | true =>
      have hl' : Ptw.pteLeaf pte1 = true := hl
      have hstop : (Ptw.pteBad false pte1 || Ptw.pteLeaf pte1) = true := by simp [hl']
      rw [(Ptw.found_stop h1 hstop).1]
      simpa [pteBad_eq, hb] using access_super pte1
    | false =>
      have h0 : Ptw.bus mem (fun _ => true)
          (Sv32.pteAddr (Sv32.Pte.ppn pte1) (Sv32.vpn0 va)) = some pte0 := by
        rw [bus_eq, ← walkAddr2_eq]
      rw [(Ptw.found_pointer false h1 hb hl).1, h0]
      simp only [Option.bind_some, pteBad_eq, Bool.false_eq_true, ↓reduceIte]
      change Except.map _ (Sv32.userAccess k
        (if (pteBad pte0 || !pteLeaf pte0) = true then none else _) va) = _
      cases hx : pteBad pte0 || !pteLeaf pte0 with
      | true => rfl
      | false => simpa using access_page pte0

theorem active_userInput (mem : Word → Word) (va : Word) (k : Sv32.Kind)
    (hm : satp.getLsbD 31 = true) : active (userInput mem satp va k) = true := by
  simp [active, userInput, hm]

def leafWord (i : Input) : Word := if useSuper i then i.walkData1 else i.walkData2

theorem permFault_eq (h : walkFault (userInput mem satp va k) = false) :
    permFault (userInput mem satp va k) = !grants k (leafWord (userInput mem satp va k)) := by
  have e1 : (Sv32.Kind.store == Sv32.Kind.load) = false := rfl
  have e2 : (Sv32.Kind.load == Sv32.Kind.store) = false := rfl
  simp only [permFault, h, leafU, leafR, leafW, leafWord, grants]
  cases useSuper (userInput mem satp va k) <;> cases k <;> simp [userInput, e1, e2]

theorem outcome_walk (hm : satp.getLsbD 31 = true)
    (h : walkFault (userInput mem satp va k) = false) :
    outcome (userInput mem satp va k) =
      through k (leafWord (userInput mem satp va k)) (paXlat (userInput mem satp va k)) := by
  have ha := active_userInput mem va k hm
  have hreq : (userInput mem satp va k).req = true := rfl
  rw [outcome, fault, ha, hreq, h, permFault_eq h, pa, ha, through]
  cases grants k (leafWord (userInput mem satp va k)) with
  | false => cases k <;> rfl
  | true => rfl

theorem outcome_walkFault (hm : satp.getLsbD 31 = true)
    (h : walkFault (userInput mem satp va k) = true) :
    outcome (userInput mem satp va k) = .error k.cause := by
  have ha := active_userInput mem va k hm
  have hreq : (userInput mem satp va k).req = true := rfl
  rw [outcome, fault, ha, hreq, h]
  cases k <;> rfl

theorem outcome_eq (hm : satp.getLsbD 31 = true) :
    outcome (userInput mem satp va k) = sv32 mem satp va k := by
  rw [sv32_eq]
  set pte1 := mem (walkAddr1 satp va) with h1
  set pte0 := mem (walkAddr2 pte1 va) with h0
  have hfault : walkFault (userInput mem satp va k) =
      if pteBad pte1 then true else if pteLeaf pte1 then false
      else if pteBad pte0 then true else !pteLeaf pte0 := rfl
  cases hb : pteBad pte1 with
  | true => exact outcome_walkFault hm (by simp [hfault, hb])
  | false =>
    cases hl : pteLeaf pte1 with
    | true =>
      have hs : useSuper (userInput mem satp va k) = true := hl
      rw [outcome_walk hm (by simp [hfault, hb, hl]), leafWord, paXlat, hs]
      rfl
    | false =>
      have hs : useSuper (userInput mem satp va k) = false := hl
      cases hb0 : pteBad pte0 with
      | true => exact outcome_walkFault hm (by simp [hfault, hb, hl, hb0])
      | false =>
        cases hl0 : pteLeaf pte0 with
        | true =>
          rw [outcome_walk hm (by simp [hfault, hb, hl, hb0, hl0]), leafWord, paXlat, hs]
          rfl
        | false => exact outcome_walkFault hm (by simp [hfault, hb, hl, hb0, hl0])

end Mmu

namespace CpuMcMmu
open Sys

/-- How a walk ends: in the page-fault state with a cause, or with the access on the port. -/
def ended (s : State) (i : Input) : Option (Except Word Word) :=
  match s.fsm with
  | .pf => some (.error (trapCause s i))
  | .acc => some (.ok (dmemAddr s i))
  | _ => none

variable {resetPc : Word}

/-- A load or store of U-mode in EXEC at cycle `t` that traps for no other reason, with both
memories answering a cycle later. -/
structure Access (r : Run resetPc) (imem mem : Word → Word) (satp va : Word) (k : Sv32.Kind)
    (t : ℕ) : Prop where
  exec : (r.state t).fsm = .exec
  user : inUser (r.state t) = true
  root : (r.state t).csr.satp = satp
  noTrap : execTrap (r.state t) (r.input t) = false
  reads : (ctrlOf (instr (r.input t))).memRead = (k == .load)
  writes : (ctrlOf (instr (r.input t))).memWrite = (k == .store)
  target : aluResult (r.state t) (r.input t) = va
  fetched : (r.input t).imemRdata = imem (r.state t).pc
  rom : ∀ u ≥ t, u < t + 4 → (r.input (u + 1)).imemRdata = imem (r.state u).pc
  ram : ∀ u ≥ t, u < t + 4 →
    (r.input (u + 1)).dmemRdata = mem (dmemAddr (r.state u) (r.input u))
  running : ∀ u ≥ t, u < t + 4 → (r.input u).halt = false

structure Walking (imem : Word → Word) (satp va : Word) (k : Sv32.Kind) (s : State) (i : Input) :
    Prop where
  user : inUser s = true
  root : s.csr.satp = satp
  fetched : i.imemRdata = imem s.pc
  reads : (ctrlOf (instr i)).memRead = (k == .load)
  writes : (ctrlOf (instr i)).memWrite = (k == .store)
  target : aluResult s i = va

section cycle
variable {imem : Word → Word} {satp va : Word} {k : Sv32.Kind} {s : State} {i i' : Input}

def inWalk (s : State) : Bool := s.fsm == .ptw1 || s.fsm == .ptw1d || s.fsm == .ptw0d

theorem inWalk_states (h : inWalk s = true) : s.fsm = .ptw1 ∨ s.fsm = .ptw1d ∨ s.fsm = .ptw0d := by
  simpa [inWalk, or_assoc] using h

structure Quiet (s : State) (i : Input) : Prop where
  pc : (step s i).pc = s.pc
  csr : (step s i).csr = s.csr
  regs : (step s i).regs = s.regs

theorem regs_quiet (h : rfWe s i = false) : (step s i).regs = s.regs := by
  simp [step, Regs.write, h]

theorem quiet_walk (h : inWalk s = true) : Quiet s i where
  pc := by
    change (control s i).pc = s.pc
    unfold control
    obtain h | h | h := inWalk_states h <;> rw [h] <;> dsimp only <;> split_ifs <;> rfl
  csr := by
    apply Zicsr.step_idle <;> obtain h | h | h := inWalk_states h <;>
      simp [csrCommand, takeTrap, inExec, inPf, h]
  regs := by
    apply regs_quiet
    obtain h | h | h := inWalk_states h <;> simp [rfWe, h]

theorem isSystem_of_isMem {w : Word} (h : isMem w = true) : isSystem w = false := by
  by_contra hs
  simp [isMem, ctrlOf_system (Bool.eq_true_of_not_eq_false hs), Ctrl.default] at h

theorem quiet_exec (hf : s.fsm = .exec) (ht : execTrap s i = false)
    (hm : isMem (instr i) = true) : Quiet s i where
  pc := by
    change (control s i).pc = s.pc
    unfold control
    rw [hf, ht, hm]
    cases i.halt <;> rfl
  csr := by
    have hs := isSystem_of_isMem hm
    apply Zicsr.step_idle
    · simp [csrCommand, takeTrap, inPf, ht, hf]
    · simp [csrCommand, isMret, hs]
    · simp [csrCommand, isCsr, hs]
  regs := regs_quiet (by simp [rfWe, hf, hm])

theorem Walking.next (h : Walking imem satp va k s i) (q : Quiet s i)
    (hi : i'.imemRdata = imem s.pc) : Walking imem satp va k (step s i) i' := by
  have hw : instr i' = instr i := hi.trans h.fetched.symm
  have ha : aluResult (step s i) i' = aluResult s i := by
    simp only [aluResult, rs1Data, rs2Data, q.pc, q.regs, hw]
  exact ⟨by rw [inUser, q.csr]; exact h.user, by rw [q.csr, h.root], by rw [hi, q.pc],
    by rw [hw, h.reads], by rw [hw, h.writes], ha.trans h.target⟩

theorem Walking.active (h : Walking imem satp va k s i) (hm : satp.getLsbD 31 = true) :
    xlateActive s = true := by
  rw [xlateActive, h.user, h.root, hm, Bool.and_self]

theorem Walking.granted (h : Walking imem satp va k s i) : permOk i = Mmu.grants k (pte i) := by
  rw [permOk, h.reads, h.writes]
  have e1 : (Sv32.Kind.store == Sv32.Kind.load) = false := rfl
  have e2 : (Sv32.Kind.load == Sv32.Kind.store) = false := rfl
  cases k <;> simp [Mmu.grants, e1, e2]

theorem ended_fault (hf : s.fsm = .pf) (hs : s.dpfStore = (k == .store)) :
    ended s i = some (.error k.cause) := by
  have hp : inPf s = true := by simp [inPf, hf]
  rw [ended, hf, trapCause, hp, hs]
  cases k <;> rfl

theorem ended_access (hf : s.fsm = .acc) (ha : xlateActive s = true) :
    ended s i = some (.ok s.paReg) := by
  rw [ended, hf]
  dsimp only
  rw [dmemAddr, hf]
  dsimp only
  rw [memPa, ha, if_pos rfl]

theorem ended_none (h : s.fsm = .exec ∨ inWalk s = true) : ended s i = none := by
  obtain h | h := h
  · rw [ended, h]
  · obtain h | h | h := inWalk_states h <;> rw [ended, h]

section
variable (h : Walking imem satp va k s i)
include h

theorem Walking.fails
    (hc : control s i = { s with dpf := true, dpfStore := (ctrlOf (instr i)).memWrite,
                                 fsm := .pf }) :
    ended (step s i) i' = some (.error k.cause) := by
  apply ended_fault
  · simp only [step, hc]
  · simp only [step, hc, h.writes]

theorem Walking.reaches (hm : satp.getLsbD 31 = true)
    (q : Quiet s i) {pa : Word} (hc : control s i = { s with paReg := pa, fsm := .acc }) :
    ended (step s i) i' = some (.ok pa) := by
  have hx : xlateActive (step s i) = true := by
    have := h.active hm
    rwa [xlateActive, inUser, ← q.csr] at this
  have hp : (step s i).paReg = pa := by simp only [step, hc]
  rw [ended_access (by simp only [step, hc]) hx, hp]

theorem Walking.level1 (i' : Input) (hm : satp.getLsbD 31 = true)
    (hf : s.fsm = .ptw1d) (hh : i.halt = false) :
    (Mmu.pteBad (pte i) = false ∧ Mmu.pteLeaf (pte i) = false ∧ (step s i).fsm = .ptw0d) ∨
    ((Mmu.pteBad (pte i) = true ∨ Mmu.pteLeaf (pte i) = true) ∧
      ended (step s i) i' = some (if Mmu.pteBad (pte i) then .error k.cause
        else Mmu.through k (pte i) (Mmu.paSuper (pte i) va))) := by
  have hctl : control s i = if pteBad i then
        { s with dpf := true, dpfStore := (ctrlOf (instr i)).memWrite, fsm := .pf }
      else if pteLeaf i then
        if !permOk i then
          { s with dpf := true, dpfStore := (ctrlOf (instr i)).memWrite, fsm := .pf }
        else { s with paReg := paSuper s i, fsm := .acc }
      else { s with fsm := .ptw0d } := by
    rw [control, hh, hf]
    rfl
  rw [h.granted] at hctl
  change (pteBad i = false ∧ pteLeaf i = false ∧ _) ∨ ((pteBad i = true ∨ pteLeaf i = true) ∧
    _ = some (if pteBad i then _ else _))
  cases hb : pteBad i with
  | true => exact .inr ⟨.inl rfl, h.fails (by rw [hctl, hb, if_pos rfl])⟩
  | false =>
    cases hl : pteLeaf i with
    | false => exact .inl ⟨rfl, rfl,
        by simp only [step, hctl, hb, hl, Bool.false_eq_true, ↓reduceIte]⟩
    | true =>
      refine .inr ⟨.inr rfl, ?_⟩
      rw [Mmu.through]
      cases hg : Mmu.grants k (pte i) with
      | false => exact h.fails (by simp [hctl, hb, hl, hg])
      | true =>
        refine h.reaches hm (quiet_walk (by simp [inWalk, hf])) ?_
        simp [hctl, hb, hl, hg, paSuper, h.target]

theorem Walking.level0 (hm : satp.getLsbD 31 = true)
    (hf : s.fsm = .ptw0d) (hh : i.halt = false) :
    ended (step s i) i' = some (if Mmu.pteBad (pte i) || !Mmu.pteLeaf (pte i) then .error k.cause
      else Mmu.through k (pte i) (Mmu.pa4k (pte i) va)) := by
  have hctl : control s i = if pteBad i || !pteLeaf i || !permOk i then
        { s with dpf := true, dpfStore := (ctrlOf (instr i)).memWrite, fsm := .pf }
      else { s with paReg := pa4k s i, fsm := .acc } := by
    rw [control, hh, hf]
    rfl
  rw [h.granted] at hctl
  change _ = some (if pteBad i || !pteLeaf i then _ else _)
  cases hx : pteBad i || !pteLeaf i with
  | true => exact h.fails (by simp [hctl, hx])
  | false =>
    rw [Mmu.through]
    cases hg : Mmu.grants k (pte i) with
    | false => exact h.fails (by simp [hctl, hg])
    | true =>
      refine h.reaches hm (quiet_walk (by simp [inWalk, hf])) ?_
      rw [hctl, hx, hg]
      simp [pa4k, h.target]

end

end cycle

section run
variable {r : Run resetPc} {imem mem : Word → Word} {satp va : Word} {k : Sv32.Kind} {t : ℕ}

theorem Access.ends (h : Access r imem mem satp va k t) (hm : satp.getLsbD 31 = true) :
    ∃ n, t < n ∧ n ≤ t + 4 ∧ (∀ u ≥ t, u < n → ended (r.state u) (r.input u) = none) ∧
      ended (r.state n) (r.input n) = some (Mmu.sv32 mem satp va k) := by
  have hst (u : ℕ) : r.state (u + 1) = step (r.state u) (r.input u) := r.steps u
  have hmem : isMem (instr (r.input t)) = true := by
    rw [isMem, h.reads, h.writes]
    cases k <;> rfl
  have w0 : Walking imem satp va k (r.state t) (r.input t) :=
    ⟨h.user, h.root, h.fetched, h.reads, h.writes, h.target⟩
  -- EXEC starts the walk and PTW1 posts the level-1 read.
  have f1 : (r.state (t + 1)).fsm = .ptw1 := by
    rw [hst]
    change (control _ _).fsm = _
    simp [control, h.running t le_rfl (by omega), h.exec, h.noTrap, hmem, w0.active hm]
  have w1 : Walking imem satp va k (r.state (t + 1)) (r.input (t + 1)) := by
    have := w0.next (quiet_exec h.exec h.noTrap hmem) (h.rom t le_rfl (by omega))
    rwa [← hst] at this
  have q1 : Quiet (r.state (t + 1)) (r.input (t + 1)) := quiet_walk (by simp [inWalk, f1])
  have f2 : (r.state (t + 2)).fsm = .ptw1d := by
    rw [hst]
    change (control _ _).fsm = _
    simp [control, h.running (t + 1) (by omega) (by omega), f1]
  have w2 : Walking imem satp va k (r.state (t + 2)) (r.input (t + 2)) := by
    have := w1.next q1 (h.rom (t + 1) (by omega) (by omega))
    rwa [← hst] at this
  have d2 : pte (r.input (t + 2)) = mem (Mmu.walkAddr1 satp va) := by
    rw [pte, h.ram (t + 1) (by omega) (by omega), dmemAddr, f1]
    simp only [pte1Addr, w1.root, w1.target]
  have n0 : ended (r.state t) (r.input t) = none := ended_none (.inl h.exec)
  have n1 : ended (r.state (t + 1)) (r.input (t + 1)) = none :=
    ended_none (.inr (by simp [inWalk, f1]))
  have n2 : ended (r.state (t + 2)) (r.input (t + 2)) = none :=
    ended_none (.inr (by simp [inWalk, f2]))
  have hsv := Mmu.sv32_eq mem satp va k
  rw [← d2] at hsv
  obtain ⟨hb, hl, f3⟩ | ⟨hx, hend⟩ :=
    w2.level1 (r.input (t + 3)) hm f2 (h.running (t + 2) (by omega) (by omega))
  · rw [← hst] at f3
    have w3 : Walking imem satp va k (r.state (t + 3)) (r.input (t + 3)) := by
      have := w2.next (quiet_walk (by simp [inWalk, f2])) (h.rom (t + 2) (by omega) (by omega))
      rwa [← hst] at this
    have d3 : pte (r.input (t + 3)) = mem (Mmu.walkAddr2 (pte (r.input (t + 2))) va) := by
      have hb' : pteBad (r.input (t + 2)) = false := hb
      have hl' : pteLeaf (r.input (t + 2)) = false := hl
      rw [pte.eq_1 (r.input (t + 3)), h.ram (t + 2) (by omega) (by omega), dmemAddr, f2]
      simp only [hb', hl', pte0Addr, w2.target, Bool.or_self, Bool.false_eq_true, ↓reduceIte]
    refine ⟨t + 4, by omega, le_rfl, ?_, ?_⟩
    · intro u hu hlt
      obtain rfl | rfl | rfl | rfl : u = t ∨ u = t + 1 ∨ u = t + 2 ∨ u = t + 3 := by omega
      · exact n0
      · exact n1
      · exact n2
      · exact ended_none (.inr (by simp [inWalk, f3]))
    · rw [hst, w3.level0 hm f3 (h.running (t + 3) (by omega) (by omega)), hsv, d3]
      simp only [hb, hl, Bool.false_eq_true, ↓reduceIte]
  · refine ⟨t + 3, by omega, by omega, ?_, ?_⟩
    · intro u hu hlt
      obtain rfl | rfl | rfl : u = t ∨ u = t + 1 ∨ u = t + 2 := by omega
      · exact n0
      · exact n1
      · exact n2
    · rw [hst, hend, hsv]
      cases hb : Mmu.pteBad (pte (r.input (t + 2))) with
      | true => rfl
      | false =>
        have hl : Mmu.pteLeaf (pte (r.input (t + 2))) = true := by simpa [hb] using hx
        simp only [hl, Bool.false_eq_true, ↓reduceIte]

end run
end CpuMcMmu
end RiscvScratch
