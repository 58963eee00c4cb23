import RiscvScratch.Sbi.Calls
import RiscvScratch.Sbi.Clint

/-! The timer of a payload in S-mode: the CSR file (`csr_s.v`), the CLINT (`clint_sifive.v`) and the
resident SBI between them. The counter ticks between any two actions. -/
namespace RiscvScratch.Sbi
open Platform
open Csr (privM privS)

structure System where
  csr : Csr.State
  clint : Clint.State
  /-- What the SBI has still to do; empty outside M-mode. -/
  firmware : List Op
  /-- The argument of the last `set_timer`. -/
  last : Option (BitVec 64)

inductive Action where
  | tick
  /-- An instruction of the payload, as the CSR file sees it. -/
  | payload (k : Csr.Command)
  /-- An exception of the payload that is delegated to it. -/
  | exception (pc cause tval : Word)
  /-- An interrupt, with the levels of the external lines. -/
  | interrupt (ext sExt : Bool) (pc : Word) (regs : Regs)
  /-- An `ecall` from S-mode with the registers of the payload. -/
  | ecall (pc : Word) (regs : Regs)
  /-- The next instruction of the SBI. -/
  | firmware

def System.lines (s : System) (ext sExt : Bool) : Csr.Lines := ⟨Clint.timerIrq s.clint, ext, sExt⟩

def trapCommand (pc cause tval : Word) : Csr.Command :=
  ⟨true, pc, cause, tval, false, false, false, 0#12, 0#32, 0#3, false⟩

def csrCommand (f3 : BitVec 3) (addr : BitVec 12) (src : Word) : Csr.Command :=
  ⟨false, 0#32, 0#32, 0#32, false, false, true, addr, src, f3, false⟩

def mretCommand : Csr.Command :=
  ⟨false, 0#32, 0#32, 0#32, true, false, false, 0#12, 0#32, 0#3, false⟩

/-- What S- or U-mode executes: no trap, no `mret`, `sret` only in S-mode, and no CSR of a higher
privilege. -/
def payloadMay (priv : BitVec 2) (k : Csr.Command) : Bool :=
  !k.takeTrap && !k.isMret && (!k.isSret || priv == privS) &&
    (!k.we || (k.addr.extractLsb' 8 2).ule priv)

def mtiCause : Word := 0x80000007#32
def ecallSCause : Word := 9#32

/-- `sbi_trap_entry` around the body of `sbi_trap`: the stacks are swapped through `mscratch`. -/
def handler (csr : Csr.State) (regs : Regs) (body : List Op) : List Op :=
  csrWrite Csr.mscratchA (regs 2#5) :: (body ++ [csrWrite Csr.mscratchA csr.mscratch, .mret])

section step
variable (p : Csr.Params) (ramSize : Word) (csrRead : BitVec 12 → Word)

def Op.apply (csr : Csr.State) (clint : Clint.State) : Op → Csr.State × Clint.State
  | .mtimecmp high w => (csr, Clint.step clint (Clint.cmpWrite high w))
  | .csr f3 addr src => (Csr.step p csr (csrCommand f3 addr src), clint)
  | .mret => (Csr.step p csr mretCommand, clint)

/-- `none` where the action is not possible or ends the run: a trap the payload cannot handle, a
power-off or a reset. -/
def System.step (s : System) : Action → Option System
  | .tick =>
    if s.clint.mtime = BitVec.allOnes 64 then none
    else some { s with clint := Clint.step s.clint Clint.idle }
  | .payload k =>
    if s.csr.priv ≠ privM ∧ payloadMay s.csr.priv k then some { s with csr := Csr.step p s.csr k }
    else none
  | .exception pc cause tval =>
    if cause.getLsbD 31 = false ∧ Csr.deleg p s.csr cause then
      some { s with csr := Csr.step p s.csr (trapCommand pc cause tval) }
    else none
  | .interrupt ext sExt pc regs =>
    let cause := Csr.irqCause s.csr (s.lines ext sExt)
    if !Csr.irqPending s.csr (s.lines ext sExt) then none
    else
      let csr := Csr.step p s.csr (trapCommand pc cause 0#32)
      if Csr.deleg p s.csr cause then some { s with csr := csr }
      else if cause = mtiCause then
        some { s with csr := csr, firmware := handler s.csr regs timerTrap }
      else none
  | .ecall pc regs =>
    if s.csr.priv = privS ∧ Csr.deleg p s.csr ecallSCause = false then
      let call := decode ramSize csrRead regs
      match call with
      | .reset _ _ => none
      | .setTimer _ t =>
        some
          { s with
            csr := Csr.step p s.csr (trapCommand pc ecallSCause 0#32), last := some t
            firmware := handler s.csr regs (call.ops ++ [csrWrite Csr.mepcA (pc + 4#32)]) }
      | _ =>
        some
          { s with
            csr := Csr.step p s.csr (trapCommand pc ecallSCause 0#32)
            firmware := handler s.csr regs (call.ops ++ [csrWrite Csr.mepcA (pc + 4#32)]) }
    else none
  | .firmware =>
    match s.firmware with
    | [] => none
    | op :: rest =>
      if s.clint.mtime = BitVec.allOnes 64 then none
      else
        let x := op.apply p s.csr s.clint
        some { s with csr := x.1, clint := x.2, firmware := rest }

def System.run (s : System) (actions : List Action) : Option System :=
  actions.foldlM (System.step p ramSize csrRead) s

end step

/-- `STIP` and `MTIE`. -/
def stip (csr : Csr.State) : Bool := csr.mipSw.getLsbD 5
def mtie (csr : Csr.State) : Bool := csr.mie.getLsbD 7

structure View where
  cmp : BitVec 64
  mtie : Bool
  stip : Bool

def view (csr : Csr.State) (clint : Clint.State) : View := ⟨clint.mtimecmp, mtie csr, stip csr⟩

def nxBit (old src : Bool) (f3 : BitVec 3) : Bool :=
  if f3.extractLsb' 0 2 = 0b01#2 then src
  else if f3.extractLsb' 0 2 = 0b10#2 then old || src
  else if f3.extractLsb' 0 2 = 0b11#2 then old && !src
  else old

def View.step (v : View) : Op → View
  | .mtimecmp high w => { v with cmp := Clint.setHalf v.cmp high w }
  | .csr f3 addr src =>
    if addr = Csr.mieA then { v with mtie := nxBit v.mtie (src.getLsbD 7) f3 }
    else if addr = Csr.mipA then { v with stip := nxBit v.stip (src.getLsbD 5) f3 }
    else v
  | .mret => v

/-- The comparison value is the last argument, one of the two interrupts is open, and the
supervisor's is pending only when due. -/
structure Settled (v : View) (mtime t : BitVec 64) : Prop where
  cmp : v.cmp = t
  mtie : v.mtie = !v.stip
  due : v.stip = true → t ≤ mtime

/-- An instruction of the SBI before the final `mret`: it leaves `mstatus` and the mode alone. -/
def Op.Tame : Op → Prop
  | .mtimecmp _ _ => True
  | .csr _ addr _ =>
    addr = Csr.mscratchA ∨ addr = Csr.mepcA ∨ addr = Csr.mieA ∨ addr = Csr.mipA
  | .mret => False

structure Resident (csr : Csr.State) (firmware : List Op) : Prop where
  body : ∃ ops, firmware = ops ++ [.mret] ∧ ∀ op ∈ ops, op.Tame
  mie : csr.mstatus.getLsbD 3 = false
  mpp : csr.mstatus.extractLsb' 11 2 ≠ privM

structure Inv (s : System) : Prop where
  payload : s.csr.priv ≠ privM → s.firmware = []
  resident : s.csr.priv = privM → Resident s.csr s.firmware
  /-- Once the SBI has finished. -/
  settled : ∀ t, s.last = some t →
    Settled (s.firmware.foldl View.step (view s.csr s.clint)) s.clint.mtime t

section frame
variable {p : Csr.Params} {csr : Csr.State}

theorem nxMasked_bit {mask old src : Word} {f3 : BitVec 3} {k : ℕ}
    (hm : mask.getLsbD k = false) (hk : k < 32) :
    (Csr.nxMasked mask old src f3).getLsbD k = old.getLsbD k := by
  rw [Csr.nxMasked, BitVec.getLsbD_or, BitVec.getLsbD_and, BitVec.getLsbD_and, BitVec.getLsbD_not,
    hm]
  simp [hk]

/-- The timer bits and the mode are those of `csr`. -/
def SameTimer (csr csr' : Csr.State) : Prop :=
  mtie csr' = mtie csr ∧ stip csr' = stip csr ∧ csr'.priv = csr.priv

theorem write_payload {addr : BitVec 12} (ha : addr.extractLsb' 8 2 ≠ 0b11#2) (src : Word)
    (f3 : BitVec 3) : SameTimer csr (Csr.write p csr addr src f3) := by
  apply Csr.write_below ha
  · exact fun _ _ _ _ _ _ => ⟨rfl, rfl, rfl⟩
  · exact ⟨rfl, rfl, rfl⟩
  · exact ⟨nxMasked_bit (by decide) (by decide), rfl, rfl⟩
  · exact ⟨rfl, nxMasked_bit (by decide) (by decide), rfl⟩

theorem step_payload (hU : p.hasU = true) {k : Csr.Command}
    (h : payloadMay csr.priv k = true) (hp : csr.priv ≠ privM) :
    mtie (Csr.step p csr k) = mtie csr ∧ stip (Csr.step p csr k) = stip csr ∧
      (Csr.step p csr k).priv ≠ privM := by
  simp only [payloadMay, Bool.and_eq_true, Bool.not_eq_true', Bool.or_eq_true] at h
  obtain ⟨⟨⟨htrap, hmret⟩, -⟩, hwe⟩ := h
  show mtie (Csr.commit p csr k) = mtie csr ∧ stip (Csr.commit p csr k) = stip csr ∧
    (Csr.commit p csr k).priv ≠ privM
  simp only [Csr.commit, htrap, hmret, Bool.false_eq_true, if_false]
  cases hs : k.isSret with
  | true =>
    refine ⟨rfl, rfl, ?_⟩
    simp only [if_true, Csr.sret, Csr.least, hU]
    split <;> decide
  | false =>
    rw [if_neg Bool.false_ne_true]
    cases hw : k.we with
    | false => exact ⟨rfl, rfl, hp⟩
    | true =>
      have haddr : k.addr.extractLsb' 8 2 ≠ 0b11#2 := by
        have hle : (k.addr.extractLsb' 8 2).ule csr.priv = true := by simpa [hw] using hwe
        have hall : ∀ x y : BitVec 2, y ≠ privM → x.ule y = true → x ≠ 0b11#2 := by decide
        exact hall _ _ hp hle
      obtain ⟨h1, h2, h3⟩ := @write_payload p csr _ haddr k.wsrc k.funct3
      exact ⟨h1, h2, h3.trans_ne hp⟩

theorem step_trap (pc cause tval : Word) :
    mtie (Csr.step p csr (trapCommand pc cause tval)) = mtie csr ∧
      stip (Csr.step p csr (trapCommand pc cause tval)) = stip csr := by
  show mtie (Csr.trapEnter p csr pc cause tval) = _ ∧ stip (Csr.trapEnter p csr pc cause tval) = _
  unfold Csr.trapEnter
  split <;> exact ⟨rfl, rfl⟩

theorem nx_bit (old src : Word) (f3 : BitVec 3) {k : ℕ} (hk : k < 32) :
    (Csr.nx old src f3).getLsbD k = nxBit (old.getLsbD k) (src.getLsbD k) f3 := by
  unfold Csr.nx nxBit
  split_ifs <;> simp [hk]

theorem view_apply {op : Op} (clint : Clint.State) (h : op.Tame ∨ op = .mret) :
    view (op.apply p csr clint).1 (op.apply p csr clint).2 = (view csr clint).step op := by
  cases op with
  | mtimecmp high w => simp [Op.apply, view, View.step]
  | mret => rfl
  | csr f3 addr src =>
    obtain (rfl | rfl | rfl | rfl) | h := h
    · rfl
    · rfl
    · show (⟨_, (Csr.nx csr.mie src f3).getLsbD 7, _⟩ : View) = _
      rw [nx_bit _ _ _ (by decide)]
      rfl
    · show (⟨_, _, (Csr.nx csr.mipSw src f3).getLsbD 5⟩ : View) = _
      rw [nx_bit _ _ _ (by decide)]
      rfl
    · simp at h

theorem apply_mtime {op : Op} (clint : Clint.State) (h : clint.mtime ≠ BitVec.allOnes 64) :
    clint.mtime ≤ (op.apply p csr clint).2.mtime := by
  cases op with
  | mtimecmp high w =>
    simp only [Op.apply, Clint.step_cmpWrite_mtime]
    exact Clint.le_succ h
  | csr f3 addr src => exact BitVec.le_refl _
  | mret => exact BitVec.le_refl _

end frame

section mode
variable {p : Csr.Params} {csr : Csr.State}

theorem setBit_other (w : Word) {j k : ℕ} (b : Bool) (h : j ≠ k) (hj : j < 32) :
    (Csr.setBit w k b).getLsbD j = w.getLsbD j := by
  have hone : (1#32 <<< k).getLsbD j = false := by
    rw [BitVec.getLsbD_shiftLeft, BitVec.getLsbD_one]
    by_cases hlt : j < k
    · simp [hlt]
    · simp [show j - k ≠ 0 by omega]
  unfold Csr.setBit
  split
  · rw [BitVec.getLsbD_or, hone, Bool.or_false]
  · rw [BitVec.getLsbD_and, BitVec.getLsbD_not, hone]
    simp [hj]

theorem setPair_other (w : Word) {j k : ℕ} (v : BitVec 2) (h : j ≠ k) (h' : j ≠ k + 1)
    (hj : j < 32) : (Csr.setPair w k v).getLsbD j = w.getLsbD j := by
  have hpair (x : Word) (hx : x.toNat < 2 ^ 2) : (x <<< k).getLsbD j = false := by
    rw [BitVec.getLsbD_shiftLeft]
    by_cases hlt : j < k
    · simp [hlt]
    · have hle : 2 ^ 2 ≤ 2 ^ (j - k) := Nat.pow_le_pow_right two_pos (by omega)
      rw [BitVec.getLsbD, Nat.testBit_lt_two_pow (hx.trans_le hle), Bool.and_false]
  have hv : (v.zeroExtend 32).toNat < 2 ^ 2 := by
    have := v.isLt
    simp only [BitVec.truncate_eq_setWidth, BitVec.toNat_setWidth]
    omega
  unfold Csr.setPair
  rw [BitVec.getLsbD_or, BitVec.getLsbD_and, BitVec.getLsbD_not, hpair 3#32 (by decide),
    hpair _ hv]
  simp [hj]

theorem fixStatus_mode (dirty : Bool) (m : Word) :
    (Csr.fixStatus p csr dirty m).getLsbD 3 = m.getLsbD 3 ∧
      (Csr.fixStatus p csr dirty m).extractLsb' 11 2 = m.extractLsb' 11 2 := by
  have hbit (k : ℕ) (hk : k < 31) (h9 : k ≠ 9) (h10 : k ≠ 10) :
      (Csr.fixStatus p csr dirty m).getLsbD k = m.getLsbD k := by
    simp only [Csr.fixStatus]
    rw [setBit_other _ _ (by omega) (by omega)]
    have hpair := fun w v => setPair_other w v h9 h10 (by omega)
    split_ifs <;> simp only [hpair]
  refine ⟨hbit 3 (by decide) (by decide) (by decide), BitVec.eq_of_getLsbD_eq fun k hk => ?_⟩
  rw [BitVec.getLsbD_extractLsb', BitVec.getLsbD_extractLsb',
    hbit (11 + k) (by omega) (by omega) (by omega)]

theorem setPair_same (w : Word) (v : BitVec 2) : (Csr.setPair w 11 v).extractLsb' 11 2 = v := by
  refine BitVec.eq_of_getLsbD_eq fun k hk => ?_
  have hclear : (3#32 <<< 11).getLsbD (11 + k) = true := by
    obtain rfl | rfl : k = 0 ∨ k = 1 := by omega
    · decide
    · decide
  have hset : (v.zeroExtend 32 <<< 11).getLsbD (11 + k) = v.getLsbD k := by
    simp [show 11 + k < 32 by omega]
  rw [BitVec.getLsbD_extractLsb', Csr.setPair, BitVec.getLsbD_or, BitVec.getLsbD_and,
    BitVec.getLsbD_not, hclear, hset]
  simp [hk]

theorem step_trap_machine {cause : Word} (hd : Csr.deleg p csr cause = false) (pc tval : Word) :
    (Csr.step p csr (trapCommand pc cause tval)).priv = privM ∧
      (Csr.step p csr (trapCommand pc cause tval)).mstatus.getLsbD 3 = false ∧
      (Csr.step p csr (trapCommand pc cause tval)).mstatus.extractLsb' 11 2 = csr.priv := by
  have henter : Csr.trapEnter p csr pc cause tval =
      { csr with
        mepc := pc, mcause := cause, mtval := tval, priv := privM
        mstatus := Csr.setPair (Csr.setBit (Csr.setBit csr.mstatus 7 (csr.mstatus.getLsbD 3)) 3
          false) 11 csr.priv } := by
    simp [Csr.trapEnter, hd]
  obtain ⟨h3, h11⟩ := @fixStatus_mode p csr false
    (Csr.trapEnter p csr pc cause tval).mstatus
  show (Csr.trapEnter p csr pc cause tval).priv = privM ∧
    (Csr.fixStatus p csr false (Csr.trapEnter p csr pc cause tval).mstatus).getLsbD 3 = false ∧
    (Csr.fixStatus p csr false (Csr.trapEnter p csr pc cause tval).mstatus).extractLsb' 11 2 =
      csr.priv
  rw [h3, h11, henter]
  refine ⟨rfl, ?_, setPair_same _ _⟩
  rw [setPair_other _ _ (by decide) (by decide) (by decide)]
  simp [Csr.setBit]

theorem step_trap_deleg {cause : Word} (hd : Csr.deleg p csr cause = true) (pc tval : Word) :
    (Csr.step p csr (trapCommand pc cause tval)).priv ≠ privM := by
  show (Csr.trapEnter p csr pc cause tval).priv ≠ privM
  simp only [Csr.trapEnter, hd, if_true]
  decide

theorem irqPending_machine (l : Csr.Lines) (hp : csr.priv = privM)
    (hm : csr.mstatus.getLsbD 3 = false) : Csr.irqPending csr l = false := by
  have hM : Csr.globM csr = false := by
    rw [Csr.globM, hp, hm]
    decide
  have hS : Csr.globS csr = false := by
    rw [Csr.globS, hp]
    simp [privM, privS]
  simp [Csr.irqPending, Csr.firesM, Csr.firesS, hM, hS]

theorem bit_ite (b : Bool) (w : Word) (k : ℕ) :
    (if b then w else 0#32).getLsbD k = (b && w.getLsbD k) := by
  cases b <;> simp

theorem mip_mtip (l : Csr.Lines) : (Csr.mip csr l).getLsbD 7 = l.timer := by
  simp only [Csr.mip, BitVec.getLsbD_or, BitVec.getLsbD_and, bit_ite]
  simp [Csr.sIntMask]

theorem mip_stip (l : Csr.Lines) : (Csr.mip csr l).getLsbD 5 = stip csr := by
  simp only [Csr.mip, BitVec.getLsbD_or, BitVec.getLsbD_and, bit_ite, stip]
  simp [Csr.sIntMask]

theorem due_of_mti {ext sExt : Bool} {clint : Clint.State}
    (h : Csr.irqCause csr ⟨Clint.timerIrq clint, ext, sExt⟩ = mtiCause) :
    clint.mtimecmp ≤ clint.mtime := by
  have hf : Csr.firesM csr ⟨Clint.timerIrq clint, ext, sExt⟩ 7 = true := by
    by_contra hne
    simp only [Csr.irqCause, hne, if_false] at h
    split_ifs at h <;> simp [mtiCause] at h
  simp only [Csr.firesM, Csr.raised, mip_mtip, Bool.and_eq_true] at hf
  exact BitVec.ule_iff_le.mp hf.1.2

theorem apply_mode {op : Op} (clint : Clint.State) (h : op.Tame) :
    (op.apply p csr clint).1.priv = csr.priv ∧
      (op.apply p csr clint).1.mstatus.getLsbD 3 = csr.mstatus.getLsbD 3 ∧
      (op.apply p csr clint).1.mstatus.extractLsb' 11 2 = csr.mstatus.extractLsb' 11 2 := by
  cases op with
  | mtimecmp high w => exact ⟨rfl, rfl, rfl⟩
  | mret => exact h.elim
  | csr f3 addr src =>
    obtain rfl | rfl | rfl | rfl := h
    all_goals exact ⟨rfl, @fixStatus_mode p csr false csr.mstatus⟩

end mode

theorem view_handler (csr : Csr.State) (regs : Regs) (body : List Op) (v : View) :
    (handler csr regs body).foldl View.step v = body.foldl View.step v := by
  simp only [handler, List.foldl_cons, List.foldl_append, List.foldl_nil]
  rfl

theorem view_setTimer (t : BitVec 64) (v : View) :
    (setTimer t).foldl View.step v = ⟨t, true, false⟩ := by
  simp only [setTimer, csrClear, csrSet, List.foldl_cons, List.foldl_nil, View.step,
    Clint.setHalf_pair, Clint.halves_append]
  simp [nxBit, mipStip, mipMtip, Csr.mipA, Csr.mieA]

theorem view_timerTrap (v : View) :
    timerTrap.foldl View.step v = ⟨v.cmp, false, true⟩ := by
  simp [timerTrap, csrClear, csrSet, View.step, nxBit, mipStip, mipMtip, Csr.mipA, Csr.mieA]

theorem resident_handler {csr csr' : Csr.State} (regs : Regs) {body : List Op}
    (hb : ∀ op ∈ body, op.Tame) (hm : csr'.mstatus.getLsbD 3 = false)
    (hp : csr'.mstatus.extractLsb' 11 2 ≠ privM) : Resident csr' (handler csr regs body) := by
  refine ⟨⟨csrWrite Csr.mscratchA (regs 2#5) :: (body ++ [csrWrite Csr.mscratchA csr.mscratch]),
    by simp [handler], fun op hop => ?_⟩, hm, hp⟩
  simp only [List.mem_cons, List.mem_append, List.not_mem_nil, or_false] at hop
  obtain rfl | hop | rfl := hop
  · exact .inl rfl
  · exact hb op hop
  · exact .inl rfl

theorem tame_setTimer (t : BitVec 64) : ∀ op ∈ setTimer t, op.Tame := by
  simp [setTimer, Op.Tame, csrClear, csrSet]

theorem tame_ops (call : Call) : ∀ op ∈ call.ops, op.Tame := by
  cases call with
  | setTimer legacy t => exact tame_setTimer t
  | legacyPutchar | legacyGetchar | reset | writeByte | write | read | answer => simp [Call.ops]

theorem tame_timerTrap : ∀ op ∈ timerTrap, op.Tame := by
  simp [timerTrap, Op.Tame, csrClear, csrSet]

theorem Settled.mono {v : View} {m m' t : BitVec 64} (h : Settled v m t) (hm : m ≤ m') :
    Settled v m' t :=
  ⟨h.cmp, h.mtie, fun hs => BitVec.le_trans (h.due hs) hm⟩

section inv
variable {p : Csr.Params} {s s' : System}

theorem Inv.of_payload (h : Inv s) (hp : s.csr.priv ≠ privM) {csr : Csr.State}
    (hp' : csr.priv ≠ privM) (hm : mtie csr = mtie s.csr) (hs : stip csr = stip s.csr) :
    Inv { s with csr := csr } := by
  refine ⟨fun _ => h.payload hp, fun hM => absurd hM hp', fun t ht => ?_⟩
  have := h.settled t ht
  rw [show view s.csr s.clint = view csr s.clint by simp [view, hm, hs]] at this
  exact this

theorem Inv.tick (h : Inv s) (hw : s.clint.mtime ≠ BitVec.allOnes 64) :
    Inv { s with clint := Clint.step s.clint Clint.idle } :=
  ⟨h.payload, h.resident, fun t ht => (h.settled t ht).mono (Clint.le_succ hw)⟩

theorem Inv.of_trap (hp : s.csr.priv ≠ privM) {cause : Word}
    (hd : Csr.deleg p s.csr cause = false) (pc : Word) (regs : Regs) {body : List Op}
    (hb : ∀ op ∈ body, op.Tame) {last : Option (BitVec 64)}
    (hs : ∀ t, last = some t → Settled (body.foldl View.step (view s.csr s.clint))
      s.clint.mtime t) :
    Inv ⟨Csr.step p s.csr (trapCommand pc cause 0#32), s.clint, handler s.csr regs body, last⟩ := by
  obtain ⟨hM, h3, h11⟩ := step_trap_machine hd pc 0#32
  obtain ⟨hm, hst⟩ := @step_trap p s.csr pc cause 0#32
  refine ⟨fun hne => absurd hM hne, fun _ => resident_handler regs hb h3 (h11 ▸ hp), fun t ht => ?_⟩
  show Settled ((handler s.csr regs body).foldl View.step (view _ _)) _ _
  rw [view_handler, show view (Csr.step p s.csr (trapCommand pc cause 0#32)) s.clint =
    view s.csr s.clint by simp [view, hm, hst]]
  exact hs t ht

theorem Inv.firmware (h : Inv s) {op : Op} {rest : List Op} (hf : s.firmware = op :: rest)
    (hw : s.clint.mtime ≠ BitVec.allOnes 64) :
    Inv ⟨(op.apply p s.csr s.clint).1, (op.apply p s.csr s.clint).2, rest, s.last⟩ := by
  have hM : s.csr.priv = privM := by
    by_contra hne
    simp [h.payload hne] at hf
  obtain ⟨⟨ops, hops, htame⟩, hmie, hmpp⟩ := h.resident hM
  have hsettled (hop : op.Tame ∨ op = .mret) (t : BitVec 64) (ht : s.last = some t) :
      Settled (rest.foldl View.step (view (op.apply p s.csr s.clint).1
        (op.apply p s.csr s.clint).2)) (op.apply p s.csr s.clint).2.mtime t := by
    have := (h.settled t ht).mono (@apply_mtime p s.csr op s.clint hw)
    rw [hf, List.foldl_cons] at this
    rwa [view_apply _ hop]
  rw [hf] at hops
  cases ops with
  | nil =>
    obtain ⟨rfl, rfl⟩ : op = .mret ∧ rest = [] := by simpa using hops
    exact ⟨fun _ => rfl, fun hp => absurd hp hmpp, hsettled (.inr rfl)⟩
  | cons o os =>
    obtain ⟨rfl, rfl⟩ : op = o ∧ rest = os ++ [.mret] := by simpa using hops
    have hop := htame op (List.mem_cons_self ..)
    obtain ⟨hp', h3, h11⟩ := @apply_mode p s.csr op s.clint hop
    refine ⟨fun hne => absurd (hp'.trans hM) hne, fun _ => ⟨⟨os, rfl, fun x hx => ?_⟩, ?_, ?_⟩,
      hsettled (.inl hop)⟩
    · exact htame x (List.mem_cons_of_mem _ hx)
    · exact h3.trans hmie
    · exact h11 ▸ hmpp

theorem priv_ne_of_deleg {csr : Csr.State} {cause : Word} (h : Csr.deleg p csr cause = true) :
    csr.priv ≠ privM := by
  simp only [Csr.deleg, Bool.and_eq_true, bne_iff_ne] at h
  exact h.1.2

variable {ramSize : Word} {csrRead : BitVec 12 → Word}

theorem Inv.interrupt (h : Inv s) {ext sExt : Bool}
    {pc : Word} {regs : Regs}
    (hs : s.step p ramSize csrRead (.interrupt ext sExt pc regs) = some s') : Inv s' := by
  simp only [System.step] at hs
  cases hp : Csr.irqPending s.csr (s.lines ext sExt) with
  | false => simp [hp] at hs
  | true =>
    have hpriv : s.csr.priv ≠ privM := by
      intro hM
      have := irqPending_machine (s.lines ext sExt) hM (h.resident hM).mie
      simp [hp] at this
    simp only [hp, Bool.not_true, Bool.false_eq_true, if_false] at hs
    split_ifs at hs with hd hc
    · obtain rfl := Option.some.inj hs
      obtain ⟨hm, hst⟩ := @step_trap p s.csr pc
        (Csr.irqCause s.csr (s.lines ext sExt)) 0#32
      exact h.of_payload hpriv (step_trap_deleg hd pc 0#32) hm hst
    · obtain rfl := Option.some.inj hs
      refine Inv.of_trap hpriv (by simpa using hd) pc regs tame_timerTrap fun t ht => ?_
      have hset := h.settled t ht
      rw [h.payload hpriv, List.foldl_nil] at hset
      rw [view_timerTrap]
      exact ⟨hset.cmp, rfl, fun _ => hset.cmp ▸ due_of_mti hc⟩

theorem Inv.ecall (h : Inv s) {pc : Word}
    {regs : Regs} (hs : s.step p ramSize csrRead (.ecall pc regs) = some s') : Inv s' := by
  simp only [System.step] at hs
  by_cases hg : s.csr.priv = privS ∧ Csr.deleg p s.csr ecallSCause = false
  · rw [if_pos hg] at hs
    have hpriv : s.csr.priv ≠ privM := by
      rw [hg.1]
      decide
    have htame (call : Call) : ∀ op ∈ call.ops ++ [csrWrite Csr.mepcA (pc + 4#32)], op.Tame := by
      intro op hop
      obtain hop | hop := List.mem_append.mp hop
      · exact tame_ops call op hop
      · obtain rfl := List.mem_singleton.mp hop
        exact .inr (.inl rfl)
    have hold (t : BitVec 64) (ht : s.last = some t) :
        Settled (view s.csr s.clint) s.clint.mtime t := by
      have := h.settled t ht
      rwa [h.payload hpriv] at this
    cases hc : decode ramSize csrRead regs with
    | reset type reason => simp [hc] at hs
    | setTimer legacy t =>
      simp only [hc] at hs
      obtain rfl := Option.some.inj hs
      refine Inv.of_trap hpriv hg.2 pc regs (htame _) fun t' ht' => ?_
      obtain rfl := Option.some.inj ht'
      rw [List.foldl_append, Call.ops, view_setTimer]
      refine ⟨rfl, rfl, fun hst => ?_⟩
      simp [View.step, csrWrite, Csr.mepcA, Csr.mieA, Csr.mipA] at hst
    | legacyPutchar | legacyGetchar | writeByte | write | read | answer =>
      simp only [hc] at hs
      obtain rfl := Option.some.inj hs
      exact Inv.of_trap hpriv hg.2 pc regs (htame _) hold
  · simp [hg] at hs

theorem Inv.step (hU : p.hasU = true) (h : Inv s) {a : Action}
    (hs : s.step p ramSize csrRead a = some s') : Inv s' := by
  cases a with
  | tick =>
    simp only [System.step] at hs
    split_ifs at hs with hw
    obtain rfl := Option.some.inj hs
    exact h.tick hw
  | payload k =>
    simp only [System.step] at hs
    split_ifs at hs with hk
    obtain rfl := Option.some.inj hs
    obtain ⟨hm, hst, hp⟩ := step_payload hU hk.2 hk.1
    exact h.of_payload hk.1 hp hm hst
  | exception pc cause tval =>
    simp only [System.step] at hs
    split_ifs at hs with hk
    obtain rfl := Option.some.inj hs
    obtain ⟨hm, hst⟩ := @step_trap p s.csr pc cause tval
    exact h.of_payload (priv_ne_of_deleg hk.2) (step_trap_deleg hk.2 pc tval) hm hst
  | interrupt ext sExt pc regs => exact h.interrupt hs
  | ecall pc regs => exact h.ecall hs
  | firmware =>
    simp only [System.step] at hs
    split at hs
    · simp at hs
    · rename_i op rest hf
      split_ifs at hs with hw
      obtain rfl := Option.some.inj hs
      exact h.firmware hf hw

theorem Inv.run (hU : p.hasU = true) (h : Inv s) {actions : List Action}
    (hs : s.run p ramSize csrRead actions = some s') : Inv s' := by
  induction actions generalizing s with
  | nil =>
    obtain rfl := Option.some.inj hs
    exact h
  | cons a actions ih =>
    simp only [System.run, List.foldlM_cons, Option.bind_eq_bind, Option.bind_eq_some_iff] at hs
    obtain ⟨s₁, h₁, hrest⟩ := hs
    exact ih (h.step hU h₁) hrest

end inv

structure HandOver (s : System) : Prop where
  priv : s.csr.priv ≠ privM
  firmware : s.firmware = []
  last : s.last = none

/-- The payload's timer interrupt is pending only from the time it asked for, and from then on it is
pending or about to be. -/
theorem timer_forwarded (p : Csr.Params) (hU : p.hasU = true) (ramSize : Word)
    (csrRead : BitVec 12 → Word) (s₀ s : System) (h₀ : HandOver s₀) (actions : List Action)
    (hrun : s₀.run p ramSize csrRead actions = some s) (hp : s.csr.priv ≠ privM) (t : BitVec 64)
    (ht : s.last = some t) (ext sExt : Bool) :
    ((Csr.mip s.csr (s.lines ext sExt)).getLsbD 5 = true → t ≤ s.clint.mtime) ∧
      (t ≤ s.clint.mtime → (Csr.mip s.csr (s.lines ext sExt)).getLsbD 5 = true ∨
        Csr.firesM s.csr (s.lines ext sExt) 7 = true) ∧
      (s.csr.mie.getLsbD 7 = true ↔ (Csr.mip s.csr (s.lines ext sExt)).getLsbD 5 = false) := by
  have hinv : Inv s := by
    refine Inv.run hU ⟨fun _ => h₀.firmware, fun hM => absurd hM h₀.priv, ?_⟩ hrun
    intro t ht
    simp [h₀.last] at ht
  have hset := hinv.settled t ht
  rw [hinv.payload hp, List.foldl_nil] at hset
  have hglob : Csr.globM s.csr = true := by
    have hlt : ∀ x : BitVec 2, x ≠ privM → x.ult privM = true := by decide
    simp [Csr.globM, hlt _ hp]
  have hmtie : s.csr.mie.getLsbD 7 = !stip s.csr := hset.mtie
  have hcmp : s.clint.mtimecmp = t := hset.cmp
  rw [mip_stip]
  refine ⟨hset.due, fun hle => ?_, ?_⟩
  · cases hst : stip s.csr with
    | true => exact .inl rfl
    | false =>
      right
      simp only [Csr.firesM, Csr.raised, mip_mtip, hmtie, hst, hglob, System.lines, Clint.timerIrq,
        hcmp]
      simpa [BitVec.ule_iff_le] using hle
  · rw [hmtie]
    cases stip s.csr <;> simp

def bootParams : Csr.Params := ⟨true, true, true, true⟩

def payloadStart : System where
  csr := { Csr.reset bootParams with
    priv := privS, medeleg := 0xB1FF#32, mideleg := 0x222#32, mscratch := fwStackTop }
  clint := Clint.reset
  firmware := []
  last := none

def askActions : List Action :=
  let regs : Regs := fun a => if a = 10#5 then 3#32 else 0#32
  .ecall payloadBase regs :: List.replicate 9 .firmware ++
    .interrupt false false payloadBase regs :: List.replicate 5 .firmware

def forwarded : System :=
  (payloadStart.run bootParams 0x00100000#32 (fun _ => 0#32) askActions).getD payloadStart

theorem askActions_run :
    payloadStart.run bootParams 0x00100000#32 (fun _ => 0#32) askActions = some forwarded := by
  have hsome : (payloadStart.run bootParams 0x00100000#32 (fun _ => 0#32) askActions).isSome :=
    by decide +kernel
  obtain ⟨s, hs⟩ := Option.isSome_iff_exists.mp hsome
  rw [forwarded, hs, Option.getD_some]

/-- The supervisor timer interrupt is pending, and it is due. -/
theorem payload_timer_forwarded :
    (Csr.mip forwarded.csr (forwarded.lines false false)).getLsbD 5 = true ∧
      3#64 ≤ forwarded.clint.mtime := by
  have hstip : (Csr.mip forwarded.csr (forwarded.lines false false)).getLsbD 5 = true := by
    decide +kernel
  exact ⟨hstip, (timer_forwarded bootParams rfl 0x00100000#32 (fun _ => 0#32) payloadStart
    forwarded ⟨by decide, rfl, rfl⟩ askActions askActions_run (by decide +kernel) 3#64
    (by decide +kernel) false false).1 hstip⟩

end RiscvScratch.Sbi
