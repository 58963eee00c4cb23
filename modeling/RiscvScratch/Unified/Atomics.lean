import RiscvScratch.Unified.Drain
import RiscvScratch.Unified.Operands
import RiscvScratch.Unified.PortHold

/-! RV32A in the unified core. -/
namespace RiscvScratch.Unified

variable {c : Cfg} {s : State} {i : Input}

inductive AmoOp
  | swap | add | xor | and | or | min | max | minu | maxu
  deriving DecidableEq, Repr

namespace AmoOp

def ofF5 (f5 : BitVec 5) : Option AmoOp :=
  match f5 with
  | 0b00001#5 => some .swap
  | 0b00000#5 => some .add
  | 0b00100#5 => some .xor
  | 0b01100#5 => some .and
  | 0b01000#5 => some .or
  | 0b10000#5 => some .min
  | 0b10100#5 => some .max
  | 0b11000#5 => some .minu
  | 0b11100#5 => some .maxu
  | _ => none

def apply (op : AmoOp) (old src : Word) : Word :=
  match op with
  | .swap => src
  | .add => old + src
  | .xor => old ^^^ src
  | .and => old &&& src
  | .or => old ||| src
  | .min => if old.toInt ≤ src.toInt then old else src
  | .max => if src.toInt ≤ old.toInt then old else src
  | .minu => if old ≤ src then old else src
  | .maxu => if src ≤ old then old else src

end AmoOp

theorem ite_weaken {p q : Prop} [Decidable p] [Decidable q] {a b : Word} (h : q ↔ p ∨ a = b) :
    (if p then a else b) = if q then a else b := by
  by_cases hp : p
  · simp [hp, h]
  · by_cases he : a = b
    · simp [he]
    · simp [hp, h, he]

theorem toInt_le_iff (a b : Word) : a.toInt ≤ b.toInt ↔ a.slt b = true ∨ a = b := by
  rw [BitVec.slt_iff_toInt_lt, ← BitVec.toInt_inj]
  omega

theorem le_iff_ult (a b : Word) : a ≤ b ↔ a.ult b = true ∨ a = b := by
  rw [BitVec.ult_iff_lt, BitVec.lt_def, BitVec.le_def, ← BitVec.toNat_inj]
  omega

theorem amoResult_eq {f5 : BitVec 5} {op : AmoOp} (h : AmoOp.ofF5 f5 = some op) (old src : Word) :
    amoResult f5 old src = op.apply old src := by
  unfold AmoOp.ofF5 at h
  split at h <;> cases h
  case h_6 => exact ite_weaken (toInt_le_iff old src)
  case h_7 => exact ite_weaken (by rw [toInt_le_iff, @eq_comm _ src old])
  case h_8 => exact ite_weaken (le_iff_ult old src)
  case h_9 => exact ite_weaken (by rw [le_iff_ult, @eq_comm _ src old])
  all_goals rfl

theorem mDone_req (h : mDone c s i = true) : dReq c s i = true ∧ i.dReady = true := by
  simp only [mDone, Bool.and_eq_true] at h
  exact ⟨by simp [dReq, h.1], h.2⟩

theorem dReq_mem (hv : VecHeld c s) (hx : s.exmem.valid = true) (hb : ptwBusy c s = false)
    (h : dReq c s i = true) : mReq c s i = true := by
  obtain ⟨hb', -⟩ | hq | ⟨hm, -, -⟩ := dReq_cases hv h
  · simp [hb] at hb'
  · have hact := vMemActive_busy (vReqG_active hq).2
    have hbub := hv.exmem (by simp [vRunning, hact])
    simp [hbub, ExMem.bubble] at hx
  · exact hm

theorem rmw_port (hw : s.exmem.Wf) (hv : VecHeld c s) (hb : ptwBusy c s = false)
    (hr : s.exmem.rmw = true) :
    dAddr c s = s.exmem.addr ∧ dWe c s = (if s.amoPh then 0b1111#4 else 0#4) ∧
      dWdata c s = amoNew s := by
  have ha := hv.not_active (by simp [mPort, hr])
  have hst := mStore_of_rmw hw hr
  refine ⟨by simp [dAddr, hb, ha], ?_, by simp [dWdata, ha, hr]⟩
  simp [dWe, hb, ha, mWrite, hst, hr]

/-- In cycle `a` the memory answers the read of an AMO. -/
structure AmoReads (r : Run c) (a : ℕ) : Prop where
  rmw : (r.state a).exmem.rmw = true
  done : mDone c (r.state a) (r.input a) = true
  read : dWe c (r.state a) = 0#4

/-- The AMO that has read in cycle `a` is about to write. -/
structure Writing (r : Run c) (a v : ℕ) : Prop where
  exmem : (r.state v).exmem = (r.state a).exmem
  phase : (r.state v).amoPh = true
  old : (r.state v).amoOld = (r.input a).dRdata
  idle : ptwBusy c (r.state v) = false

variable {u : ℕ} {r : Run c} {a v t : ℕ} {x : ℕ × Atomic} {w : ℕ}

theorem valid_of_atomic (r : Run c) (h : (r.state t).exmem.lr = true ∨
    (r.state t).exmem.sc = true ∨ (r.state t).exmem.rmw = true) :
    (r.state t).exmem.valid = true := by
  obtain hv | hv := run_exmem_bubble r t
  · exact hv
  · simp [hv, ExMem.bubble] at h

theorem idle_of_port (hp : mPort s = true) (hb : ptwBusy c s = false) :
    ptwBusy c (step c s i) = false :=
  ptwBusy_stays_idle hb (by simp [ptwStartD, hp]) (by simp [ptwStartI, hp])

theorem AmoReads.phase (h : AmoReads r a) : (r.state a).amoPh = false := by
  have hp := (rmw_port (run_exmem_wf r a) (run_vecHeld r a) (mDone_inv h.done).2.1 h.rmw).2.1
  rw [h.read] at hp
  by_contra hph
  simp [hph] at hp

theorem AmoReads.writing (h : AmoReads r a) : Writing r a (a + 1) := by
  have hstep := run_step r a
  have hph := h.phase
  have hp : mPort (r.state a) = true := by simp [mPort, h.rmw]
  have hf : freeze c (r.state a) (r.input a) = true := by simp [freeze, hp, mLast, h.rmw, hph]
  refine ⟨?_, ?_, ?_, ?_⟩
  · simp [hstep, step, nextExmem, hf]
  · simp [hstep, step, nextAmoPh, h.rmw, h.done, hph]
  · simp [hstep, step, h.rmw, h.done, hph]
  · rw [hstep]
    exact idle_of_port hp (mDone_inv h.done).2.1

theorem Writing.next (h : Writing r a v)
    (hr : (r.state a).exmem.rmw = true) (hd : mDone c (r.state v) (r.input v) = false) :
    Writing r a (v + 1) := by
  have hstep := run_step r v
  have hp : mPort (r.state v) = true := by simp [mPort, h.exmem, hr]
  have hf : freeze c (r.state v) (r.input v) = true := by simp [freeze, hp, hd]
  refine ⟨?_, ?_, ?_, ?_⟩
  · simp [hstep, step, nextExmem, hf, h.exmem]
  · simp [hstep, step, nextAmoPh, hd, h.phase]
  · simp [hstep, step, hd, h.old]
  · rw [hstep]
    exact idle_of_port hp h.idle

theorem AmoReads.writing_until (h : AmoReads r a) (hv : a < v)
    (hno : ∀ x, a < x → x < v → mDone c (r.state x) (r.input x) = false) : Writing r a v := by
  induction v, Nat.succ_le_of_lt hv using Nat.le_induction with
  | base => exact h.writing
  | succ v hav ih =>
    exact (ih hav fun x h1 h2 => hno x h1 (by omega)).next h.rmw (hno v hav (Nat.lt_succ_self v))

/-- The write of the AMO that has read in cycle `a`. -/
def amoWrite (r : Run c) (a : ℕ) : PortWrite where
  addr := (r.state a).exmem.addr
  we := 0b1111#4
  wdata := amoResult (r.state a).exmem.amoF5 (r.input a).dRdata (r.state a).exmem.store

def onPort (c : Cfg) (s : State) : PortWrite := ⟨dAddr c s, dWe c s, dWdata c s⟩

theorem Writing.port (h : Writing r a v)
    (hr : (r.state a).exmem.rmw = true) : onPort c (r.state v) = amoWrite r a := by
  obtain ⟨h1, h2, h3⟩ := rmw_port (run_exmem_wf r v) (run_vecHeld r v) h.idle (by rw [h.exmem, hr])
  simp [onPort, amoWrite, h1, h2, h3, h.phase, amoNew, h.exmem, h.old]

theorem Writing.req (h : Writing r a v)
    (hr : (r.state a).exmem.rmw = true) (hq : dReq c (r.state v) (r.input v) = true) :
    mReq c (r.state v) (r.input v) = true :=
  dReq_mem (run_vecHeld r v) (valid_of_atomic r (.inr (.inr (by rw [h.exmem, hr])))) h.idle hq

theorem AmoReads.next_request (h : AmoReads r a) (hv : a < v)
    (hno : ∀ x, a < x → x < v →
      ¬ (dReq c (r.state x) (r.input x) = true ∧ (r.input x).dReady = true)) :
    onPort c (r.state v) = amoWrite r a :=
  (h.writing_until hv fun x h1 h2 => by
    by_contra hd
    exact hno x h1 h2 (mDone_req (Bool.eq_true_of_not_eq_false hd))).port h.rmw

def memInstr (r : Run c) (u : ℕ) : Word := (r.state (tags r u).left).idex.instr

/-- The value of a source register of the instruction that leaves MEM in cycle `u`: every older
instruction has written by the next cycle. -/
def operand (r : Run c) (u : ℕ) (a : BitVec 5) : Word := (r.state (u + 1)).regs.read a

theorem Issued.decoded (h : Issued r u w) : ∃ f d1 d2, (r.state w).idex = decode c f d1 d2 := by
  obtain ⟨⟨d1, d2, hd⟩, -⟩ := (run_traced r w).idex (exGo_inv (exKeep_inv h.keep).1).1
  exact ⟨_, d1, d2, hd⟩

theorem exmem_fields (r : Run c) (hv : (r.state u).exmem.valid = true) :
    (r.state u).exmem.rd = rdOf (memInstr r u) ∧
      (r.state u).exmem.amoF5 = amoF5Of (memInstr r u) := by
  have hi := run_issued r u hv
  obtain ⟨f, d1, d2, hd⟩ := hi.decoded
  rw [hi.exmem]
  simp [executed, memInstr, hd, decode]

theorem exmem_store (r : Run c) (hv : (r.state u).exmem.valid = true) :
    (r.state u).exmem.store = operand r u (rs2Of (memInstr r u)) := by
  have hi := run_issued r u hv
  obtain ⟨f, d1, d2, hd⟩ := hi.decoded
  have hrs : (r.state (tags r u).left).idex.rs2 = rs2Of (memInstr r u) := by
    simp [memInstr, hd, decode]
  rw [hi.exmem, operand, ← hrs]
  exact (operands_of_leave r hi).2

theorem amo_returns (r : Run c) (h : (r.state u).exmem.lr = true ∨
    (r.state u).exmem.sc = true ∨ (r.state u).exmem.rmw = true)
    (hf : freeze c (r.state u) (r.input u) = false) :
    (r.state (u + 1)).memwb =
      ⟨true, true, rdOf (memInstr r u), memValue (r.state u) (r.input u)⟩ := by
  have hv := valid_of_atomic r h
  have hi := run_issued r u hv
  have hw := run_idex_wf r (tags r u).left
  have hm := (hw.amo (by simpa [hi.exmem, executed] using h)).1
  have hcsr : (r.state (tags r u).left).idex.isCsr = false := by
    by_contra hc
    have := (hw.plain (by simp [IdEx.special, hc])).1
    simp [hm] at this
  have hreg : (r.state u).exmem.regWrite = true := by
    simp [hi.exmem, executed, (hw.memRead hm).1]
  have hsel : (r.state u).exmem.wbSel = .mem := by
    simp [hi.exmem, executed, hcsr, hw.wbSel.mpr hm]
  have hstep := run_step r u
  simp [hstep, step, nextMemwb, hf, hreg, hv, (exmem_fields r hv).1, memwbValue, hsel]

/-- The AMO that leaves MEM in cycle `u` has read in cycle `a` and writes in cycle `u`, with no
other request in between. -/
structure AmoDone (r : Run c) (a u : ℕ) : Prop where
  lt : a < u
  own : (tags r a).exmem = (tags r u).exmem
  reads : AmoReads r a
  addr : dAddr c (r.state a) = (r.state u).exmem.addr
  quiet : ∀ x, a < x → x < u →
    ¬ (dReq c (r.state x) (r.input x) = true ∧ (r.input x).dReady = true)
  writes : dReq c (r.state u) (r.input u) = true ∧ (r.input u).dReady = true
  written : onPort c (r.state u) = ⟨(r.state u).exmem.addr, 0b1111#4,
    amoResult (amoF5Of (memInstr r u)) (r.input a).dRdata (operand r u (rs2Of (memInstr r u)))⟩
  op : ∀ o, AmoOp.ofF5 (amoF5Of (memInstr r u)) = some o →
    dWdata c (r.state u) = o.apply (r.input a).dRdata (operand r u (rs2Of (memInstr r u)))
  returned : (r.state (u + 1)).memwb = ⟨true, true, rdOf (memInstr r u), (r.input a).dRdata⟩

theorem amo_done (r : Run c) (hr : (r.state u).exmem.rmw = true)
    (hf : freeze c (r.state u) (r.input u) = false) : ∃ a, AmoDone r a u := by
  have hv := valid_of_atomic r (.inr (.inr hr))
  have hm : InMem r u (tags r u).exmem := ⟨hv, rfl⟩
  have hiu := run_issued r u hv
  obtain ⟨a, hau, hread, -, hacc⟩ := atomic_once r hm hf hr
  have ha := (hacc a).mpr (.inl rfl)
  have hwa : (tags r u).left < a := by
    rw [← (accessed_le r hm hf ha).2]
    exact (run_issued r a ha.inMem.1).lt
  have hea := (issued_stays r hiu hwa hau.le).1
  have hreads : AmoReads r a := ⟨by rw [hea, hr], ha.1, hread⟩
  have hno (x : ℕ) (h1 : a < x) (h2 : x < u) : mDone c (r.state x) (r.input x) = false := by
    by_contra hd
    have hg := (issued_stays r hiu (by omega) h2.le).2
    obtain rfl | rfl := (hacc x).mp ⟨Bool.eq_true_of_not_eq_false hd, hg⟩ <;> omega
  have hwr := hreads.writing_until hau hno
  obtain ⟨hdu, -⟩ := last_of_leave hf (by simp [mPort, hr])
  have hport : onPort c (r.state u) = ⟨(r.state u).exmem.addr, 0b1111#4,
      amoResult (amoF5Of (memInstr r u)) (r.input a).dRdata
        (operand r u (rs2Of (memInstr r u)))⟩ := by
    rw [hwr.port hreads.rmw, amoWrite, hea, (exmem_fields r hv).2, exmem_store r hv]
  refine ⟨a, hau, ha.2, hreads, ?_, fun x h1 h2 hq => ?_, mDone_req hdu, hport, fun o ho => ?_, ?_⟩
  · rw [(rmw_port (run_exmem_wf r a) (run_vecHeld r a) (mDone_inv ha.1).2.1 hreads.rmw).1, hea]
  · have hx := hreads.writing_until h1 fun y h3 h4 => hno y h3 (by omega)
    have hd : mDone c (r.state x) (r.input x) = true := by
      simp [mDone, hx.req hreads.rmw hq.1, hq.2]
    simp [hno x h1 h2] at hd
  · rw [← amoResult_eq ho]
    exact congrArg PortWrite.wdata hport
  · have hsc : (r.state u).exmem.sc = false := by
      by_contra hs
      simp [(run_exmem_wf r u).sc (Bool.eq_true_of_not_eq_false hs)] at hr
    rw [amo_returns r (.inr (.inr hr)) hf]
    simp [memValue, hsc, hr, hwr.old]

/-- The writes that the memory accepts from cycle `w + 1` to cycle `u`. -/
def writesSince (r : Run c) (w u : ℕ) : List PortWrite :=
  (List.range' (w + 1) (u - w)).flatMap (portOut r)

theorem writesSince_last (r : Run c) (h : w < u)
    (hno : ∀ v, w < v → v < u → portOut r v = []) : writesSince r w u = portOut r u := by
  obtain ⟨n, rfl⟩ : ∃ n, u = w + 1 + n := ⟨u - (w + 1), by omega⟩
  have hn : w + 1 + n - w = n + 1 := by omega
  have hnil : (List.range' (w + 1) n).flatMap (portOut r) = [] := by
    rw [List.flatMap_eq_nil_iff]
    intro v hv
    rw [List.mem_range'_1] at hv
    exact hno v (by omega) (by omega)
  rw [writesSince, hn, List.range'_1_concat, List.flatMap_append, hnil]
  simp

theorem accepted_nil (hv : VecHeld c s) (hx : s.exmem.valid = true)
    (hd : mDone c s i = false) : accepted c s i = [] := by
  rw [accepted, if_neg]
  intro h
  simp only [Bool.and_eq_true, bne_iff_ne] at h
  obtain ⟨⟨hq, hr⟩, hw⟩ := h
  cases hb : ptwBusy c s with
  | true => simp [dWe, hb] at hw
  | false =>
    have := dReq_mem hv hx hb hq
    simp [mDone, this, hr] at hd

theorem accepted_store (hv : VecHeld c s) (hd : mDone c s i = true) (hr : s.exmem.rmw = false)
    (hst : mStore s = true) : accepted c s i = [⟨s.exmem.addr, stMask s, stData s⟩] := by
  obtain ⟨hp, hb, -⟩ := mDone_inv hd
  have ha := hv.not_active hp
  have hwe : dWe c s = stMask s := by simp [dWe, hb, ha, mWrite, hst, hr]
  rw [accepted, if_pos (by simp [mDone_req hd, hwe, stMask_ne_zero])]
  simp [dAddr, hb, ha, dWdata, hr, hwe]

/-- The SC that leaves MEM in cycle `u` returns 0 with one write to memory while it was in MEM, or 1
with none. -/
structure ScDone (r : Run c) (u : ℕ) : Prop where
  wb : (r.state (u + 1)).memwb.regWrite = true ∧
    (r.state (u + 1)).memwb.rd = rdOf (memInstr r u)
  returned : (r.state (u + 1)).memwb.data = 0#32 ∨ (r.state (u + 1)).memwb.data = 1#32
  zero : (r.state (u + 1)).memwb.data = 0#32 ↔ writesSince r (tags r u).left u =
    [⟨(r.state u).exmem.addr, 0b1111#4, operand r u (rs2Of (memInstr r u))⟩]
  one : (r.state (u + 1)).memwb.data = 1#32 ↔ writesSince r (tags r u).left u = []

theorem waits_write_nothing (r : Run c) (hv : (r.state u).exmem.valid = true)
    (hr : (r.state u).exmem.rmw = false) (h1 : (tags r u).left < v) (h2 : v < u) :
    portOut r v = [] := by
  have hi := run_issued r u hv
  have he := (issued_stays r hi h1 h2.le).1
  apply accepted_nil (run_vecHeld r v) (he ▸ hv)
  by_contra hd
  have hl : mLast (r.state v) = true := by simp [mLast, he, hr]
  have := hi.waits v h1 h2
  simp [freeze_of_last (Bool.eq_true_of_not_eq_false hd) hl] at this

theorem sc_store (r : Run c) (h : (r.state u).exmem.sc = true) :
    stMask (r.state u) = 0b1111#4 ∧ stData (r.state u) = (r.state u).exmem.store := by
  have hi := run_issued r u (valid_of_atomic r (.inr (.inl h)))
  obtain ⟨f, d1, d2, hd⟩ := hi.decoded
  have hf : (r.state u).exmem.funct3 = 0b010#3 := by
    rw [hi.exmem] at h ⊢
    simp only [executed, hd, decode, idSc, Bool.and_eq_true] at h ⊢
    simp [h.1]
  constructor
  · simp [stMask, hf]
  · simp [stData, hf]

theorem sc_done (r : Run c) (hs : (r.state u).exmem.sc = true)
    (hf : freeze c (r.state u) (r.input u) = false) : ScDone r u := by
  have hv := valid_of_atomic r (.inr (.inl hs))
  have hr := (run_exmem_wf r u).sc hs
  have hmw := ((run_exmem_wf r u).amo (.inr (.inl hs))).2
  have hwb := amo_returns r (.inr (.inl hs)) hf
  have hdata : (r.state (u + 1)).memwb.data = if scOk (r.state u) then 0#32 else 1#32 := by
    simp [hwb, memValue, hs]
  have hlast := writesSince_last r (run_issued r u hv).lt fun v => waits_write_nothing r hv hr
  have hwrites : writesSince r (tags r u).left u = if scOk (r.state u) then
      [⟨(r.state u).exmem.addr, 0b1111#4, operand r u (rs2Of (memInstr r u))⟩] else [] := by
    rw [hlast, portOut]
    cases hok : scOk (r.state u) with
    | true =>
      obtain ⟨hd, -⟩ := last_of_leave hf (by simp [mPort, mStore, hok])
      rw [accepted_store (run_vecHeld r u) hd hr (by simp [mStore, hok]), (sc_store r hs).1,
        (sc_store r hs).2, exmem_store r hv]
      rfl
    | false =>
      apply accepted_nil (run_vecHeld r u) hv
      simp [mDone, mReq, mPort, mLoad, mStore, hok, hs, hmw, hr]
  refine ⟨by simp [hwb], ?_, ?_, ?_⟩
  all_goals
    simp only [hdata, hwrites]
    cases scOk (r.state u) <;> simp

/-- What concerns the reservation, by the instruction that does it. -/
inductive Atomic
  | lr (addr : Word) | sc (addr : Word) (ok : Bool) | amo (addr : Word) | trap
  deriving DecidableEq, Repr

def atomicOf (s : State) : List Atomic :=
  if s.exmem.lr then [.lr s.exmem.addr]
  else if s.exmem.sc then [.sc s.exmem.addr (scOk s)]
  else if s.exmem.rmw then [.amo s.exmem.addr]
  else []

def memOut (r : Run c) (t : ℕ) : List (ℕ × Atomic) :=
  if freeze c (r.state t) (r.input t) then []
  else (atomicOf (r.state t)).map (Prod.mk (tags r t).exmem)

def trapOut (r : Run c) (t : ℕ) : List (ℕ × Atomic) :=
  if takeTrap c (r.state t) (r.input t) then [((tags r t).idex, .trap)] else []

def atomicOut (r : Run c) (t : ℕ) : List (ℕ × Atomic) := memOut r t ++ trapOut r t

def atomicLog (r : Run c) (t : ℕ) : List (ℕ × Atomic) := Clocked.emitted (atomicOut r) t

def Reserved (s : State) (log : List (ℕ × Atomic)) : Prop :=
  ∀ a, log.getLast?.map Prod.snd = some (.lr a) ↔ resvOf s = some a

theorem atomicLog_succ (r : Run c) (t : ℕ) : atomicLog r (t + 1) = atomicLog r t ++ atomicOut r t :=
  Clocked.emitted_succ _ _

theorem run_reserved (r : Run c) (t : ℕ) : Reserved (r.state t) (atomicLog r t) := by
  induction t with
  | zero =>
    obtain ⟨u, hu⟩ := r.starts
    intro a
    simp [atomicLog, hu, reset, resvOf]
  | succ t ih =>
    have hw := run_exmem_wf r t
    have hstep := run_step r t
    intro a
    rw [hstep, atomicLog_succ, atomicOut]
    cases hf : freeze c (r.state t) (r.input t) with
    | true =>
      have ht := (idle_of_not_exGo (not_exGo_of_freeze hf)).takeTrap
      obtain ⟨h1, h2⟩ := resv_frozen hw hf
      have hr : resvOf (step c (r.state t) (r.input t)) = resvOf (r.state t) := by
        rw [resvOf, h1, h2, resvOf]
      rw [hr]
      simpa [memOut, trapOut, hf, ht] using ih a
    | false =>
      rw [resv_leave hw hf]
      cases ht : takeTrap c (r.state t) (r.input t) with
      | true => simp [trapOut, ht]
      | false =>
        simp only [memOut, trapOut, hf, ht, Bool.false_eq_true, ↓reduceIte, List.append_nil]
        cases hl : (r.state t).exmem.lr with
        | true => simp [atomicOf, hl, drainResv]
        | false =>
          cases hs : (r.state t).exmem.sc with
          | true => simp [atomicOf, hl, hs, drainResv]
          | false =>
            cases hr : (r.state t).exmem.rmw with
            | true => simp [atomicOf, hl, hs, hr, drainResv]
            | false => simpa [atomicOf, hl, hs, hr, drainResv] using ih a

theorem exGo_order (r : Run c) (hw : exGo c (r.state w) (r.input w) = true)
    (hu : exGo c (r.state u) (r.input u) = true) (h : w < u) :
    (tags r w).idex < (tags r u).idex := by
  have hmu := mem_front r (exGo_inv hu).1
  by_contra hle
  have hlt := (front_conveyor r).lt (mem_front r (exGo_inv hw).1)
  have hback := (front_conveyor r).mem_of_le hmu (by omega) h.le
  have hge := (front_conveyor r).head_le (front_cons r (exGo_inv hw).1) hback
  have heq : (tags r w).idex = (tags r u).idex := by omega
  exact not_mem_front_of_exGo r hw h (heq ▸ hmu)

/-- The entry `x` belongs to an instruction that left EX in cycle `w`. -/
structure LeftEx (r : Run c) (x : ℕ × Atomic) (w : ℕ) : Prop where
  go : exGo c (r.state w) (r.input w) = true
  tag : x.1 = (tags r w).idex

theorem mem_memOut (r : Run c) (hx : x ∈ memOut r t) :
    freeze c (r.state t) (r.input t) = false ∧ (r.state t).exmem.valid = true ∧
      LeftEx r x (tags r t).left := by
  cases hf : freeze c (r.state t) (r.input t) with
  | true => simp [memOut, hf] at hx
  | false =>
    have hv : (r.state t).exmem.valid = true := by
      obtain hv | hv := run_exmem_bubble r t
      · exact hv
      · simp [memOut, hf, atomicOf, hv, ExMem.bubble] at hx
    have hi := run_issued r t hv
    simp only [memOut, hf, Bool.false_eq_true, ↓reduceIte, List.mem_map] at hx
    obtain ⟨y, -, rfl⟩ := hx
    exact ⟨rfl, hv, (exKeep_inv hi.keep).1, hi.tag⟩

theorem mem_trapOut (r : Run c) (hx : x ∈ trapOut r t) :
    takeTrap c (r.state t) (r.input t) = true ∧ LeftEx r x t := by
  cases ht : takeTrap c (r.state t) (r.input t) with
  | false => simp [trapOut, ht] at hx
  | true =>
    simp only [trapOut, ht, ↓reduceIte, List.mem_singleton] at hx
    subst hx
    exact ⟨rfl, redirect_exGo (redirect_of_trap ht), rfl⟩

theorem LeftEx.lt {y : ℕ × Atomic} (hx : LeftEx r x w)
    (hy : LeftEx r y u) (h : w < u) : x.1 < y.1 := by
  rw [hx.tag, hy.tag]
  exact exGo_order r hx.go hy.go h

theorem atomicLog_left (r : Run c) (t : ℕ) (hx : x ∈ atomicLog r t) :
    ∃ w < t, LeftEx r x w ∧ ((r.state t).exmem.valid = true → w < (tags r t).left) := by
  induction t with
  | zero => simp [atomicLog] at hx
  | succ t ih =>
    have hstep := run_step r t
    have hleft (hf : freeze c (r.state t) (r.input t) = false) : (tags r (t + 1)).left = t := by
      simp [tags, nextTags, hf]
    rw [atomicLog_succ] at hx
    obtain hx | hx := List.mem_append.mp hx
    · obtain ⟨w, hwt, hl, hw⟩ := ih hx
      refine ⟨w, by omega, hl, fun hv => ?_⟩
      cases hf : freeze c (r.state t) (r.input t) with
      | true =>
        have he : (r.state (t + 1)).exmem = (r.state t).exmem := by
          simp [hstep, step, nextExmem, hf]
        simpa [tags, nextTags, hf] using hw (he ▸ hv)
      | false => rwa [hleft hf]
    · obtain hx | hx := List.mem_append.mp hx
      · obtain ⟨hf, hv, hl⟩ := mem_memOut r hx
        have hlt := (run_issued r t hv).lt
        exact ⟨_, by omega, hl, fun _ => by rwa [hleft hf]⟩
      · obtain ⟨ht, hl⟩ := mem_trapOut r hx
        refine ⟨t, Nat.lt_succ_self t, hl, fun hv => ?_⟩
        have hf := (exGo_inv hl.go).2.1
        simp [hstep, step, nextExmem, hf, exKeep, ht, ExMem.bubble] at hv

theorem atomicLog_sorted (r : Run c) (t : ℕ) :
    (atomicLog r t).Pairwise (fun x y => x.1 < y.1) := by
  induction t with
  | zero => simp [atomicLog]
  | succ t ih =>
    rw [atomicLog_succ, List.pairwise_append, atomicOut, List.pairwise_append]
    refine ⟨ih, ⟨?_, ?_, fun x hx y hy => ?_⟩, fun x hx y hy => ?_⟩
    · unfold memOut atomicOf
      split_ifs <;> simp
    · unfold trapOut
      split_ifs <;> simp
    · obtain ⟨-, hv, hx⟩ := mem_memOut r hx
      exact hx.lt (mem_trapOut r hy).2 (run_issued r t hv).lt
    · obtain ⟨w, hwt, hx, hw⟩ := atomicLog_left r t hx
      obtain hy | hy := List.mem_append.mp hy
      · obtain ⟨-, hv, hy⟩ := mem_memOut r hy
        exact hx.lt hy (hw hv)
      · exact hx.lt (mem_trapOut r hy).2 hwt

structure Rv32a (r : Run c) : Prop where
  next : ∀ a, AmoReads r a → ∀ v, a < v → (∀ x, a < x → x < v →
    ¬ (dReq c (r.state x) (r.input x) = true ∧ (r.input x).dReady = true)) →
    dReq c (r.state v) (r.input v) = true → onPort c (r.state v) = amoWrite r a
  amo : ∀ u, freeze c (r.state u) (r.input u) = false → (r.state u).exmem.rmw = true →
    ∃ a, AmoDone r a u
  sc : ∀ u, freeze c (r.state u) (r.input u) = false → (r.state u).exmem.sc = true → ScDone r u
  order : ∀ t, (atomicLog r t).Pairwise (fun x y => x.1 < y.1)
  pair : ∀ u, freeze c (r.state u) (r.input u) = false → (r.state u).exmem.sc = true →
    (r.state (u + 1)).memwb.data = 0#32 →
    ∃ g, (atomicLog r u).getLast? = some (g, .lr (r.state u).exmem.addr)

theorem scOk_reserved (h : scOk s = true) : resvOf s = some s.exmem.addr := by
  simp only [scOk, Bool.and_eq_true, beq_iff_eq] at h
  simp [resvOf, h.1.2, h.2]

/-- An AMO's write follows its read, an SC writes exactly when it returns 0, and it does so only
right behind an LR of its address. -/
theorem rv32a_atomics (c : Cfg) (r : Run c) : Rv32a r where
  next a ha v hv hno _ := ha.next_request hv hno
  amo u hf hr := amo_done r hr hf
  sc u hf hs := sc_done r hs hf
  order := atomicLog_sorted r
  pair u hf hs h0 := by
    have hok : scOk (r.state u) = true := by
      by_contra hno
      rw [amo_returns r (.inr (.inl hs)) hf] at h0
      simp [memValue, hs, hno] at h0
    obtain ⟨⟨g, x⟩, hx, he⟩ := Option.map_eq_some_iff.mp
      ((run_reserved r u (r.state u).exmem.addr).mpr (scOk_reserved hok))
    exact ⟨g, by rw [hx, ← he]⟩

end RiscvScratch.Unified
