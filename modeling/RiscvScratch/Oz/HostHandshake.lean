import RiscvScratch.Crossing.Toggle
import RiscvScratch.Oz.AsyncFifoOrder
import RiscvScratch.Oz.Host

/-! The host port refines a machine that serves one transaction at a time. -/
namespace RiscvScratch.Host
open Crossing (Toggle)

inductive Phase
  | idle
  | started (x : Access)
  | pulsed (x : Access) (word : Word)
  deriving DecidableEq

/-- The abstract host, with the bytes its console reads have returned. -/
structure Spec where
  phase : Phase
  bytes : List (BitVec 8)
  deriving DecidableEq

def Serves (q : Request) (x : Access) : Prop :=
  window x.addr = some q.dmem ∧ q.we = x.write ∧ q.addr = x.addr.extractLsb' 2 16 ∧
    (x.write = true → q.wdata = x.wdata)

instance (q : Request) (x : Access) : Decidable (Serves q x) := by
  unfold Serves
  infer_instance

def Access.console (x : Access) : Bool :=
  !x.write && (window x.addr).isNone && x.addr.extractLsb' 0 8 == 0x10#8

def returned (x : Access) (rdata : Word) : List (BitVec 8) :=
  if x.console && rdata.getLsbD 8 then [rdata.extractLsb' 0 8] else []

def Spec.step (s : Spec) : Event → Option Spec
  | .start x => if s.phase = .idle then some ⟨.started x, s.bytes⟩ else none
  | .pulse q word =>
    match s.phase with
    | .started x => if Serves q x then some ⟨.pulsed x word, s.bytes⟩ else none
    | _ => none
  | .finish rdata =>
    match s.phase with
    | .started x => if window x.addr = none then some ⟨.idle, s.bytes ++ returned x rdata⟩ else none
    | .pulsed x word =>
      if x.write = true ∨ rdata = word then some ⟨.idle, s.bytes⟩ else none
    | .idle => none

def Spec.run (es : List Event) : Option Spec := es.foldlM Spec.step ⟨.idle, []⟩

theorem Spec.run_append (es es' : List Event) :
    Spec.run (es ++ es') = (Spec.run es).bind fun s => es'.foldlM Spec.step s := by
  rw [Spec.run, List.foldlM_append]
  rfl

section toggles
variable {p : Params} {s : State} {i : Input} {k : ℕ} {req : Bool}

def toggle (s : State) : Toggle where
  req := s.a.reqTgl
  c1 := s.c.reqC1
  c2 := s.c.reqC2
  c3 := s.c.reqC3
  fired := s.c.hEn
  captured := s.c.hCap
  ack := s.c.ackTgl
  a1 := s.a.ackA1
  a2 := s.a.ackA2
  a3 := s.a.ackA3

def asks (s : State) (i : Input) : Bool :=
  i.a.elim false fun e =>
    (doWr s.a e && (window e.awaddr).isSome) || (doRd s.a e && (window e.araddr).isSome)

variable (a : ASide) (conAvail : Bool) (conByte : BitVec 8)

theorem step_acks (e : AEdge) :
    (a.step p conAvail conByte e).ackA1 = e.ackSeen ∧
      (a.step p conAvail conByte e).ackA2 = a.ackA1 ∧
      (a.step p conAvail conByte e).ackA3 = a.ackA2 := by
  unfold ASide.step ASide.onIdle
  repeat' split
  all_goals exact ⟨rfl, rfl, rfl⟩

theorem step_reqTgl (e : AEdge) :
    (a.step p conAvail conByte e).reqTgl = (a.reqTgl ^^
      ((doWr a e && (window e.awaddr).isSome) || (doRd a e && (window e.araddr).isSome))) := by
  cases hf : a.fsm with
  | idle =>
    unfold ASide.step ASide.onIdle
    rw [hf]
    dsimp only
    cases hw : doWr a e with
    | true =>
      have hr : doRd a e = false := by simp [doRd, hw]
      cases hx : window e.awaddr <;> simp [ASide.sync, hr]
    | false =>
      cases hr : doRd a e with
      | true => cases hx : window e.araddr <;> simp [ASide.sync]
      | false => simp [ASide.sync]
  | memW | memR | b | r =>
    have hw : doWr a e = false := by simp [doWr, hf]
    have hr : doRd a e = false := by simp [doRd, hf]
    unfold ASide.step
    rw [hf, hw, hr]
    dsimp only
    split <;> simp [ASide.sync]

theorem toggle_step : toggle (step p s i) =
    (toggle s).step (asks s i) (i.a.map AEdge.ackSeen) (i.c.map CEdge.reqSeen) := by
  obtain ⟨a, c⟩ := i
  have ha : ∀ e, a = some e →
      (s.a.step p s.con.rvalid s.con.rdata e).ackA1 = e.ackSeen ∧
      (s.a.step p s.con.rvalid s.con.rdata e).ackA2 = s.a.ackA1 ∧
      (s.a.step p s.con.rvalid s.con.rdata e).ackA3 = s.a.ackA2 := fun e _ => step_acks ..
  have hcap (x b : Bool) : (if b then !x else x) = (x ^^ b) := by cases x <;> cases b <;> rfl
  cases a with
  | none =>
    cases c with
    | none => simp [toggle, step, Toggle.step, asks]
    | some f => simp [toggle, step, Toggle.step, asks, CSide.step, hcap]
  | some e =>
    obtain ⟨h1, h2, h3⟩ := ha e rfl
    cases c with
    | none => simp [toggle, step, Toggle.step, asks, step_reqTgl, h1, h2, h3]
    | some f => simp [toggle, step, Toggle.step, asks, step_reqTgl, h1, h2, h3, CSide.step, hcap]

theorem toggle_sampled (hs : Sampling p s i) :
    (toggle s).Sampled (asks s i) (i.a.map AEdge.ackSeen) (i.c.map CEdge.reqSeen) := by
  unfold Toggle.Sampled
  rw [← toggle_step (p := p)]
  constructor
  · intro v hv
    obtain ⟨e, he, rfl⟩ := Option.map_eq_some_iff.mp hv
    exact hs.req e he
  · intro v hv
    obtain ⟨e, he, rfl⟩ := Option.map_eq_some_iff.mp hv
    exact hs.ack e he

/-! What the registers show of the handshake. -/

theorem crossing_iff (b : Bool) (m k : ℕ) :
    ((b ^^ decide (m + 1 ≤ k)) != (b ^^ decide (m ≤ k))) = decide (k = m) := by
  rcases lt_trichotomy k m with h | h | h
  · cases b <;> simp [show ¬m + 1 ≤ k by omega, show ¬m ≤ k by omega, show ¬k = m by omega]
  · cases b <;> simp [h]
  · cases b <;> simp [show m + 1 ≤ k by omega, show m ≤ k by omega, show ¬k = m by omega]

section
variable (ht : toggle s = Toggle.pending k req)
include ht

theorem fires_iff : (s.c.reqC2 != s.c.reqC3) = decide (k = 6) := by
  have h2 : s.c.reqC2 = (req ^^ decide (7 ≤ k)) := congrArg Toggle.c2 ht
  have h3 : s.c.reqC3 = (req ^^ decide (6 ≤ k)) := congrArg Toggle.c3 ht
  rw [h2, h3, crossing_iff]

theorem memDone_iff : memDone s.a = decide (k = 1) := by
  have h2 : s.a.ackA2 = (req ^^ decide (2 ≤ k)) := congrArg Toggle.a2 ht
  have h3 : s.a.ackA3 = (req ^^ decide (1 ≤ k)) := congrArg Toggle.a3 ht
  rw [memDone, h2, h3, crossing_iff]

theorem hEn_iff : s.c.hEn = decide (k = 5) :=
  congrArg Toggle.fired ht

theorem hCap_iff : s.c.hCap = decide (k = 4) :=
  congrArg Toggle.captured ht

end

end toggles

section sides
variable {p : Params} {s : State} {i : Input} {k : ℕ} {req : Bool}

theorem c_side (ht : toggle s = Toggle.pending k req) :
    (k ≠ 6 → (step p s i).c.h = s.c.h) ∧ (k ≠ 4 → (step p s i).c.resp = s.c.resp) ∧
      (k ≠ 5 → hRdata (step p s i).c = hRdata s.c ∧ i.c.elim [] s.c.events = []) := by
  obtain ⟨a, c⟩ := i
  cases c with
  | none => exact ⟨fun _ => rfl, fun _ => rfl, fun _ => ⟨rfl, rfl⟩⟩
  | some e =>
    have h6 := fires_iff ht
    have h5 := hEn_iff ht
    have h4 := hCap_iff ht
    refine ⟨fun hk => ?_, fun hk => ?_, fun hk => ⟨?_, ?_⟩⟩
    · simp [step, CSide.step, h6, hk]
    · simp [step, CSide.step, h4, hk]
    · simp [step, CSide.step, hRdata, h5, hk]
    · simp [CSide.events, h5, hk]

variable {e : CEdge}

theorem c_fires (ht : toggle s = Toggle.pending 6 req) (hc : i.c = some e) :
    (step p s i).c.h = e.rqSeen := by
  simp [step, CSide.step, hc, fires_iff ht]

theorem c_reads (ht : toggle s = Toggle.pending 5 req) (hc : i.c = some e) :
    ∃ word, i.c.elim [] s.c.events = [.pulse s.c.h word] ∧ hRdata (step p s i).c = word := by
  have h5 := hEn_iff ht
  refine ⟨if s.c.h.dmem then e.dmem s.c.h.addr else e.imem s.c.h.addr, ?_, ?_⟩
  · simp [hc, CSide.events, h5]
  · cases hd : s.c.h.dmem <;> simp [step, CSide.step, hRdata, hc, h5, hd]

theorem c_captures (ht : toggle s = Toggle.pending 4 req) (hc : i.c = some e) :
    (step p s i).c.resp = hRdata s.c := by
  simp [step, CSide.step, hc, hCap_iff ht]

end sides

def Access.wait (x : Access) : Fsm := if x.write then .memW else .memR
def Access.answer (x : Access) : Fsm := if x.write then .b else .r

section follow
variable {p : Params} {s : State} {i : Input} {k : ℕ} {req : Bool} {x : Access}
  {bytes ins outs : List (BitVec 8)}

structure Settled (s : State) (bytes outs : List (BitVec 8)) : Prop where
  conPop : s.a.conPop = false
  outs : outs = bytes

/-- A read has been answered; a byte in it is popped at the next edge of `aclk`. -/
inductive Owed (s : State) (x : Access) (bytes ins outs : List (BitVec 8)) : Prop
  | nothing (byte : returned x s.a.rdata = []) (settled : Settled s bytes outs)
  | popping (b : BitVec 8) (byte : returned x s.a.rdata = [b]) (conPop : s.a.conPop = true)
      (valid : s.con.rvalid = true) (head : ins[outs.length]? = some b) (outs : outs = bytes)
  | popped (b : BitVec 8) (byte : returned x s.a.rdata = [b])
      (settled : Settled s (bytes ++ [b]) outs)

/-- The host with `k` flops to go stands for a state of the abstract host. -/
inductive Consistent (s : State) (ins outs : List (BitVec 8)) : ℕ → Spec → Prop
  | idle {bytes : List (BitVec 8)} (fsm : s.a.fsm = .idle) (settled : Settled s bytes outs) :
      Consistent s ins outs 0 ⟨.idle, bytes⟩
  | plain {x : Access} {bytes : List (BitVec 8)} (win : window x.addr = none)
      (fsm : s.a.fsm = x.answer) (owed : Owed s x bytes ins outs) :
      Consistent s ins outs 0 ⟨.started x, bytes⟩
  | asked {x : Access} {bytes : List (BitVec 8)} {k : ℕ} (hk : 6 ≤ k) (fsm : s.a.fsm = x.wait)
      (serves : Serves s.a.rq x) (settled : Settled s bytes outs) :
      Consistent s ins outs k ⟨.started x, bytes⟩
  | firing {x : Access} {bytes : List (BitVec 8)} (fsm : s.a.fsm = x.wait)
      (serves : Serves s.c.h x) (settled : Settled s bytes outs) :
      Consistent s ins outs 5 ⟨.started x, bytes⟩
  | captured {x : Access} {bytes : List (BitVec 8)} (fsm : s.a.fsm = x.wait)
      (settled : Settled s bytes outs) : Consistent s ins outs 4 ⟨.pulsed x (hRdata s.c), bytes⟩
  | acked {x : Access} {bytes : List (BitVec 8)} {k : ℕ} (hk : 1 ≤ k) (hk' : k ≤ 3)
      (fsm : s.a.fsm = x.wait) (settled : Settled s bytes outs) :
      Consistent s ins outs k ⟨.pulsed x s.c.resp, bytes⟩
  | answered {x : Access} {word : Word} {bytes : List (BitVec 8)} (fsm : s.a.fsm = x.answer)
      (rdata : x.write = false → s.a.rdata = word) (settled : Settled s bytes outs) :
      Consistent s ins outs 0 ⟨.pulsed x word, bytes⟩

theorem popped_settled (h : s.a.conPop = false) :
    AsyncFifo.popped s.con (i.a.map (fifoRead s.a)) = [] := by
  cases i.a with
  | none => rfl
  | some e => simp [AsyncFifo.popped, AsyncFifo.pops, fifoRead, h]

def Follows (p : Params) (s : State) (i : Input) (ins outs : List (BitVec 8)) (k : ℕ)
    (sp : Spec) : Prop :=
  ∃ k' ≤ 8, ∃ req' sp', toggle (step p s i) = Toggle.pending k' req' ∧
    Toggle.Next k (asks s i) i.a.isSome i.c.isSome k' ∧
    (events s i).foldlM Spec.step sp = some sp' ∧
    Consistent (step p s i) (ins ++ consoleIn s i)
      (outs ++ AsyncFifo.popped s.con (i.a.map (fifoRead s.a))) k' sp'

theorem Follows.of_next {sp sp' : Spec} (ht : toggle s = Toggle.pending k req) (hk : k ≤ 8)
    (hask : asks s i = true → k = 0) (hs : Sampling p s i)
    (hev : (events s i).foldlM Spec.step sp = some sp')
    (h : ∀ k', Toggle.Next k (asks s i) i.a.isSome i.c.isSome k' →
      Consistent (step p s i) (ins ++ consoleIn s i)
        (outs ++ AsyncFifo.popped s.con (i.a.map (fifoRead s.a))) k' sp') :
    Follows p s i ins outs k sp := by
  have hsample := toggle_sampled hs
  rw [ht] at hsample
  have hask' : asks s i = true → (⟨k, by omega⟩ : Fin 9) = 0 ∧
      (i.a.map AEdge.ackSeen).isSome = true := by
    intro h
    refine ⟨Fin.ext (hask h), ?_⟩
    cases ha : i.a with
    | none => simp [asks, ha] at h
    | some e => rfl
  obtain ⟨k', hstep, hnext⟩ := Toggle.pending_step (k := ⟨k, by omega⟩) hask' hsample
  have hn : Toggle.Next k (asks s i) i.a.isSome i.c.isSome k' := by simpa using hnext
  refine ⟨k', by omega, req ^^ asks s i, sp', ?_, hn, hev, h k' hn⟩
  rw [toggle_step, ht]
  exact hstep

theorem events_nil (hc : i.c.elim [] s.c.events = []) (ha : i.a.elim [] s.a.events = [])
    (sp : Spec) : (events s i).foldlM Spec.step sp = some sp := by
  rw [events, hc, ha]
  rfl

theorem Settled.keep {s' : State} (h : Settled s bytes outs) (hp : s'.a.conPop = false) :
    Settled s' bytes (outs ++ AsyncFifo.popped s.con (i.a.map (fifoRead s.a))) := by
  rw [popped_settled h.conPop, List.append_nil]
  exact ⟨hp, h.outs⟩

/-- While the core's side is at work the AXI side keeps its request. -/
theorem a_waits (ht : toggle s = Toggle.pending k req) (hk : k = 1 → i.a = none)
    (fsm : s.a.fsm = x.wait) (settled : Settled s bytes outs) :
    (step p s i).a.fsm = x.wait ∧ (step p s i).a.rq = s.a.rq ∧
      Settled (step p s i) bytes (outs ++ AsyncFifo.popped s.con (i.a.map (fifoRead s.a))) ∧
      i.a.elim [] s.a.events = [] ∧ asks s i = false := by
  suffices h : (step p s i).a.fsm = s.a.fsm ∧ (step p s i).a.rq = s.a.rq ∧
      (step p s i).a.conPop = false ∧ i.a.elim [] s.a.events = [] ∧ asks s i = false from
    ⟨h.1.trans fsm, h.2.1, settled.keep h.2.2.1, h.2.2.2⟩
  cases ha : i.a with
  | none => simp [step, asks, ha, settled.conPop]
  | some e =>
    have hd : memDone s.a = false := by
      rw [memDone_iff ht]
      exact decide_eq_false fun h => by simp [hk h] at ha
    unfold Access.wait at fsm
    split at fsm <;>
      simp [step, ha, ASide.step, fsm, hd, ASide.sync, ASide.events, doWr, doRd, asks]

theorem follows_asked (ht : toggle s = Toggle.pending k req) (hk8 : k ≤ 8) (hs : Sampling p s i)
    (hk : 6 ≤ k) (fsm : s.a.fsm = x.wait) (serves : Serves s.a.rq x)
    (settled : Settled s bytes outs) : Follows p s i ins outs k ⟨.started x, bytes⟩ := by
  obtain ⟨hfsm, hrq, hset, hev, hask⟩ :=
    a_waits (p := p) (i := i) ht (fun h => absurd h (by omega)) fsm settled
  obtain ⟨-, -, hc⟩ := c_side (p := p) (i := i) ht
  refine .of_next ht hk8 (by simp [hask]) hs (events_nil (hc (by omega)).2 hev _) fun k' hnext => ?_
  simp only [hask, Toggle.Next, Bool.false_eq_true, if_false, if_pos (show 4 < k by omega)] at hnext
  by_cases hlast : k = 6 ∧ i.c.isSome = true
  · obtain ⟨rfl, hsome⟩ := hlast
    obtain ⟨e, he⟩ := Option.isSome_iff_exists.mp hsome
    have hh : (step p s i).c.h = s.a.rq := (c_fires ht he).trans (hs.rq e he hrq)
    rw [hsome] at hnext
    subst hnext
    exact .firing hfsm (hh ▸ serves) hset
  · have h6 : 6 ≤ k' := by
      cases hsome : i.c.isSome with
      | false =>
        rw [hsome, Bool.toNat_false] at hnext
        omega
      | true =>
        have : k ≠ 6 := fun h => hlast ⟨h, hsome⟩
        rw [hsome, Bool.toNat_true] at hnext
        omega
    exact .asked h6 hfsm (hrq ▸ serves) hset

theorem follows_firing (ht : toggle s = Toggle.pending 5 req) (hs : Sampling p s i)
    (fsm : s.a.fsm = x.wait) (serves : Serves s.c.h x)
    (settled : Settled s bytes outs) : Follows p s i ins outs 5 ⟨.started x, bytes⟩ := by
  obtain ⟨hfsm, -, hset, hev, hask⟩ := a_waits (p := p) (i := i) ht nofun fsm settled
  obtain ⟨hh, -, -⟩ := c_side (p := p) (i := i) ht
  rcases hc : i.c with _ | e
  · refine .of_next ht (by decide) (by simp [hask]) hs (events_nil (by rw [hc]; rfl) hev _) ?_
    intro k' hnext
    obtain rfl : k' = 5 := by simpa [hask, Toggle.Next, hc] using hnext
    exact .firing hfsm (hh (by decide) ▸ serves) hset
  · obtain ⟨word, hpulse, hword⟩ := c_reads (p := p) ht hc
    have hev' : (events s i).foldlM Spec.step ⟨.started x, bytes⟩ =
        some ⟨.pulsed x word, bytes⟩ := by
      rw [events, hpulse, hev]
      show (if Serves s.c.h x then some _ else none) >>= _ = _
      rw [if_pos serves]
      rfl
    refine .of_next ht (by decide) (by simp [hask]) hs hev' fun k' hnext => ?_
    obtain rfl : k' = 4 := by simpa [hask, Toggle.Next, hc] using hnext
    rw [← hword]
    exact .captured hfsm hset

theorem follows_captured (ht : toggle s = Toggle.pending 4 req) (hs : Sampling p s i)
    (fsm : s.a.fsm = x.wait) (settled : Settled s bytes outs) :
    Follows p s i ins outs 4 ⟨.pulsed x (hRdata s.c), bytes⟩ := by
  obtain ⟨hfsm, -, hset, hev, hask⟩ := a_waits (p := p) (i := i) ht nofun fsm settled
  obtain ⟨-, -, hcs⟩ := c_side (p := p) (i := i) ht
  obtain ⟨hrd, hcev⟩ := hcs (by decide)
  refine .of_next ht (by decide) (by simp [hask]) hs (events_nil hcev hev _) fun k' hnext => ?_
  simp only [hask, Toggle.Next, Bool.false_eq_true, if_false, lt_irrefl, if_true] at hnext
  rcases hc : i.c with _ | e
  · rw [hc] at hnext
    subst hnext
    rw [← hrd]
    exact .captured hfsm hset
  · rw [hc, Option.isSome_some, if_pos rfl] at hnext
    rw [← c_captures (p := p) ht hc]
    rcases hnext with rfl | ⟨-, rfl⟩
    · exact .acked (by decide) le_rfl hfsm hset
    · exact .acked (by decide) (by decide) hfsm hset

variable {c : Crossing.Counts} {e : AEdge}

theorem a_done (hf : s.a.fsm = x.wait) (hd : memDone s.a = true) (ha : i.a = some e) :
    (step p s i).a.fsm = x.answer ∧ (x.write = false → (step p s i).a.rdata = e.respSeen) ∧
      (step p s i).a.conPop = false ∧ i.a.elim [] s.a.events = [] ∧ asks s i = false := by
  unfold Access.wait at hf
  unfold Access.answer
  cases hw : x.write <;> rw [hw] at hf <;>
    simp [step, ha, ASide.step, hf, hd, ASide.sync, ASide.events, doWr, doRd, asks]

theorem follows_acked (ht : toggle s = Toggle.pending k req) (hs : Sampling p s i) (hk : 1 ≤ k)
    (hk3 : k ≤ 3) (fsm : s.a.fsm = x.wait) (settled : Settled s bytes outs) :
    Follows p s i ins outs k ⟨.pulsed x s.c.resp, bytes⟩ := by
  obtain ⟨-, hkeep, hcs⟩ := c_side (p := p) (i := i) ht
  have hresp := hkeep (by omega)
  obtain ⟨-, hcev⟩ := hcs (by omega)
  have hnext {k' : ℕ} (h : Toggle.Next k false i.a.isSome i.c.isSome k') :
      k' = k - i.a.isSome.toNat := by
    simpa [Toggle.Next, show ¬4 < k by omega, show k ≠ 4 by omega] using h
  by_cases hlast : k = 1 ∧ i.a.isSome = true
  · obtain ⟨rfl, hsome⟩ := hlast
    obtain ⟨e, he⟩ := Option.isSome_iff_exists.mp hsome
    obtain ⟨hfsm, hrd, hpop, haev, hask⟩ := a_done (p := p) fsm (memDone_iff ht) he
    refine .of_next ht (by decide) (by simp [hask]) hs (events_nil hcev haev _) fun k' hn => ?_
    rw [hask] at hn
    obtain rfl : k' = 0 := by rw [hnext hn, hsome]; rfl
    refine .answered hfsm (fun hw => ?_) (settled.keep hpop)
    rw [hrd hw, hs.resp e he hresp]
  · -- either not at the last flop, or no edge
    have hdone : k = 1 → i.a = none := fun h => by simpa [h] using hlast
    obtain ⟨hfsm, -, hset, haev, hask⟩ := a_waits (p := p) ht hdone fsm settled
    refine .of_next ht (by omega) (by simp [hask]) hs (events_nil hcev haev _) fun k' hn => ?_
    rw [hask] at hn
    have hk' := hnext hn
    have hk1 : 1 ≤ k' := by
      have hle := Bool.toNat_le i.a.isSome
      have hz : k = 1 → i.a.isSome.toNat = 0 := fun h => by rw [hdone h]; rfl
      omega
    rw [← hresp]
    exact .acked hk1 (by omega) hfsm hset

theorem a_answers (hf : s.a.fsm = x.answer) (ha : i.a = some e) :
    (step p s i).a.rdata = s.a.rdata ∧ (step p s i).a.conPop = false ∧
      (((step p s i).a.fsm = x.answer ∧ i.a.elim [] s.a.events = []) ∨
        ((step p s i).a.fsm = .idle ∧ i.a.elim [] s.a.events = [.finish s.a.rdata])) := by
  unfold Access.answer at hf ⊢
  cases hw : x.write with
  | true =>
    rw [hw, if_pos rfl] at hf
    cases hb : e.bready <;>
      simp [step, ha, ASide.step, hf, ASide.sync, ASide.events, doWr, doRd, hb]
  | false =>
    rw [hw, if_neg (by decide)] at hf
    cases hb : e.rready <;>
      simp [step, ha, ASide.step, hf, ASide.sync, ASide.events, doWr, doRd, hb]

theorem not_asks_of_answer (hf : s.a.fsm = x.answer) : asks s i = false := by
  unfold Access.answer at hf
  cases ha : i.a with
  | none => simp [asks, ha]
  | some e =>
    cases hw : x.write <;> rw [hw] at hf <;> simp [asks, ha, doWr, doRd, hf]

/-- A host at rest follows what its AXI side shows. -/
theorem Follows.rest {sp sp' : Spec} {ev : List Event} (ht : toggle s = Toggle.pending 0 req)
    (hs : Sampling p s i) (hask : asks s i = false) (ha : i.a.elim [] s.a.events = ev)
    (hev : ev.foldlM Spec.step sp = some sp')
    (h : Consistent (step p s i) (ins ++ consoleIn s i)
      (outs ++ AsyncFifo.popped s.con (i.a.map (fifoRead s.a))) 0 sp') :
    Follows p s i ins outs 0 sp := by
  obtain ⟨-, -, hcs⟩ := c_side (p := p) (i := i) ht
  have hfold : (events s i).foldlM Spec.step sp = some sp' := by
    rw [events, (hcs (by decide)).2, ha, List.nil_append, hev]
  refine .of_next ht (by decide) (fun _ => rfl) hs hfold fun k' hn => ?_
  obtain rfl : k' = 0 := by simpa [hask, Toggle.Next] using hn
  exact h

theorem follows_answered {word : Word} (ht : toggle s = Toggle.pending 0 req)
    (hs : Sampling p s i) (fsm : s.a.fsm = x.answer)
    (rdata : x.write = false → s.a.rdata = word) (settled : Settled s bytes outs) :
    Follows p s i ins outs 0 ⟨.pulsed x word, bytes⟩ := by
  have hask : asks s i = false := not_asks_of_answer fsm
  rcases ha : i.a with _ | e
  · have hst : (step p s i).a = s.a := by simp [step, ha]
    exact .rest ht hs hask (by rw [ha]) rfl
      (.answered (hst ▸ fsm) (hst ▸ rdata) (settled.keep (hst ▸ settled.conPop)))
  · obtain ⟨hrd, hpop, ⟨hfsm, haev⟩ | ⟨hfsm, haev⟩⟩ := a_answers (p := p) fsm ha
    · exact .rest ht hs hask haev rfl
        (.answered hfsm (fun hw => hrd.trans (rdata hw)) (settled.keep hpop))
    · refine .rest ht hs hask haev ?_ (.idle hfsm (settled.keep hpop))
      have hok : x.write = true ∨ s.a.rdata = word := by
        cases hw : x.write with
        | true => exact .inl rfl
        | false => exact .inr (rdata hw)
      show (if x.write = true ∨ s.a.rdata = word then some _ else none) >>= _ = _
      rw [if_pos hok]
      rfl

theorem owed_head (hcon : AsyncFifo.Inv s.con ins outs c)
    (hv : s.con.rvalid = true) : ins[outs.length]? = some s.con.rdata := by
  rw [← hcon.read]
  exact (hcon.head hv).2

theorem Owed.keep (h : Owed s x bytes ins outs) (ha : i.a = none) :
    Owed (step p s i) x bytes (ins ++ consoleIn s i) outs := by
  have hst : (step p s i).a = s.a := by simp [step, ha]
  cases h with
  | nothing byte settled => exact .nothing (hst ▸ byte) ⟨hst ▸ settled.conPop, settled.outs⟩
  | popped b byte settled => exact .popped b (hst ▸ byte) ⟨hst ▸ settled.conPop, settled.outs⟩
  | popping b byte conPop valid head ho =>
    have hv : (step p s i).con.rvalid = s.con.rvalid := by
      simp only [step, ha]
      cases i.c <;> rfl
    refine .popping b (hst ▸ byte) (hst ▸ conPop) (hv.trans valid) ?_ ho
    rw [List.getElem?_append_left (List.getElem?_eq_some_iff.mp head).1]
    exact head

theorem Owed.pop (hcon : AsyncFifo.Inv s.con ins outs c)
    (h : Owed s x bytes ins outs) (ha : i.a = some e) :
    outs ++ AsyncFifo.popped s.con (i.a.map (fifoRead s.a)) = bytes ++ returned x s.a.rdata := by
  cases h with
  | nothing byte settled =>
    rw [popped_settled settled.conPop, byte, settled.outs]
  | popped b byte settled =>
    rw [popped_settled settled.conPop, byte, settled.outs, List.append_nil]
  | popping b byte conPop valid head ho =>
    have hb : s.con.rdata = b := Option.some.inj ((owed_head hcon valid).symm.trans head)
    rw [byte, ho, ha]
    simp [AsyncFifo.popped, AsyncFifo.pops, fifoRead, conPop, valid, hb]

theorem follows_plain (hcon : AsyncFifo.Inv s.con ins outs c)
    (ht : toggle s = Toggle.pending 0 req) (hs : Sampling p s i) (win : window x.addr = none)
    (fsm : s.a.fsm = x.answer) (owed : Owed s x bytes ins outs) :
    Follows p s i ins outs 0 ⟨.started x, bytes⟩ := by
  have hask : asks s i = false := not_asks_of_answer fsm
  rcases ha : i.a with _ | e
  · have hst : (step p s i).a = s.a := by simp [step, ha]
    refine .rest ht hs hask (by rw [ha]) rfl (.plain win (hst ▸ fsm) ?_)
    rw [ha]
    exact (List.append_nil outs).symm ▸ owed.keep ha
  · have hpopped := owed.pop hcon ha
    obtain ⟨hrd, hpop, ⟨hfsm, haev⟩ | ⟨hfsm, haev⟩⟩ := a_answers (p := p) fsm ha
    · refine .rest ht hs hask haev rfl (.plain win hfsm ?_)
      rw [hpopped]
      unfold returned
      split
      · refine .popped _ ?_ ⟨hpop, rfl⟩
        rw [returned, hrd, if_pos ‹_›]
      · refine .nothing ?_ ⟨hpop, List.append_nil _⟩
        rw [returned, hrd, if_neg ‹_›]
    · refine .rest ht hs hask haev ?_ (.idle hfsm ⟨hpop, hpopped⟩)
      show (if window x.addr = none then some _ else none) >>= _ = _
      rw [if_pos win]
      rfl

/-- What an idle host does at an edge of `aclk`. -/
inductive Begins (p : Params) (s : State) (i : Input) : Prop
  | nothing (fsm : (step p s i).a.fsm = .idle) (conPop : (step p s i).a.conPop = false)
      (ev : i.a.elim [] s.a.events = []) (ask : asks s i = false)
  | window (x : Access) (fsm : (step p s i).a.fsm = x.wait)
      (conPop : (step p s i).a.conPop = false) (serves : Serves (step p s i).a.rq x)
      (ev : i.a.elim [] s.a.events = [.start x]) (ask : asks s i = true)
  | plain (x : Access) (win : Host.window x.addr = none) (fsm : (step p s i).a.fsm = x.answer)
      (conPop : (step p s i).a.conPop = (x.console && s.con.rvalid))
      (byte : returned x (step p s i).a.rdata =
        if x.console && s.con.rvalid then [s.con.rdata] else [])
      (ev : i.a.elim [] s.a.events = [.start x]) (ask : asks s i = false)

theorem readReg_console (a : ASide) (conAvail : Bool) (conByte : BitVec 8) :
    (readReg p a conAvail conByte 0x10#8).getLsbD 8 = conAvail ∧
      (readReg p a conAvail conByte 0x10#8).extractLsb' 0 8 = conByte := by
  have hreg : readReg p a conAvail conByte 0x10#8 =
      (BitVec.ofBool conAvail ++ conByte).zeroExtend 32 := rfl
  rw [hreg]
  clear hreg
  revert conAvail conByte
  decide +kernel

theorem begins (hf : s.a.fsm = .idle) (hp : s.a.conPop = false) : Begins p s i := by
  rcases ha : i.a with _ | e
  · refine .nothing ?_ ?_ (by rw [ha]; rfl) (by simp [asks, ha])
    · simp [step, ha, hf]
    · simp [step, ha, hp]
  have hstep : (step p s i).a = s.a.onIdle p s.con.rvalid s.con.rdata e := by
    simp [step, ha, ASide.step, hf]
  cases hw : doWr s.a e with
  | true =>
    have hr : doRd s.a e = false := by simp [doRd, hw]
    have hev : i.a.elim [] s.a.events = [.start ⟨true, e.awaddr, e.wdata⟩] := by
      simp [ha, ASide.events, hw]
    cases hwin : Host.window e.awaddr with
    | some d =>
      refine .window ⟨true, e.awaddr, e.wdata⟩ ?_ ?_ ?_ hev ?_
      · simp [hstep, ASide.onIdle, hw, hwin, Access.wait]
      · simp [hstep, ASide.onIdle, hw, hwin, ASide.sync]
      · simp [hstep, ASide.onIdle, hw, hwin, Serves]
      · simp [asks, ha, hw, hwin]
    | none =>
      refine .plain ⟨true, e.awaddr, e.wdata⟩ hwin ?_ ?_ ?_ hev ?_
      · simp [hstep, ASide.onIdle, hw, hwin, Access.answer]
      · simp [hstep, ASide.onIdle, hw, hwin, ASide.sync, Access.console]
      · simp [returned, Access.console]
      · simp [asks, ha, hw, hwin, hr]
  | false =>
    cases hr : doRd s.a e with
    | true =>
      have hev : i.a.elim [] s.a.events = [.start ⟨false, e.araddr, 0#32⟩] := by
        simp [ha, ASide.events, hw, hr]
      cases hwin : Host.window e.araddr with
      | some d =>
        refine .window ⟨false, e.araddr, 0#32⟩ ?_ ?_ ?_ hev ?_
        · simp [hstep, ASide.onIdle, hw, hr, hwin, Access.wait]
        · simp [hstep, ASide.onIdle, hw, hr, hwin, ASide.sync]
        · simp [hstep, ASide.onIdle, hw, hr, hwin, Serves]
        · simp [asks, ha, hr, hwin]
      | none =>
        have hrd : (step p s i).a.rdata =
            readReg p s.a s.con.rvalid s.con.rdata (e.araddr.extractLsb' 0 8) := by
          simp [hstep, ASide.onIdle, hw, hr, hwin]
        refine .plain ⟨false, e.araddr, 0#32⟩ hwin ?_ ?_ ?_ hev ?_
        · simp [hstep, ASide.onIdle, hw, hr, hwin, Access.answer]
        · simp [hstep, ASide.onIdle, hw, hr, hwin, Access.console]
        · by_cases hcon : e.araddr.extractLsb' 0 8 = 0x10#8
          · obtain ⟨hbit, hbyte⟩ := readReg_console (p := p) s.a s.con.rvalid s.con.rdata
            rw [hrd, hcon, returned, hbit, hbyte]
          · simp [returned, Access.console, hcon]
        · simp [asks, ha, hw, hr, hwin]
    | false =>
      refine .nothing ?_ ?_ ?_ ?_
      · simp [hstep, ASide.onIdle, hw, hr, ASide.sync, hf]
      · simp [hstep, ASide.onIdle, hw, hr, ASide.sync]
      · simp [ha, ASide.events, hw, hr, hf]
      · simp [asks, ha, hw, hr]

theorem follows_idle (hcon : AsyncFifo.Inv s.con ins outs c)
    (ht : toggle s = Toggle.pending 0 req) (hs : Sampling p s i) (fsm : s.a.fsm = .idle)
    (settled : Settled s bytes outs) : Follows p s i ins outs 0 ⟨.idle, bytes⟩ := by
  cases begins (p := p) (i := i) fsm settled.conPop with
  | nothing fsm' conPop ev ask =>
    exact .rest ht hs ask ev rfl (.idle fsm' (settled.keep conPop))
  | window x fsm' conPop serves ev ask =>
    obtain ⟨-, -, hcs⟩ := c_side (p := p) (i := i) ht
    have hev : (events s i).foldlM Spec.step ⟨.idle, bytes⟩ = some ⟨.started x, bytes⟩ := by
      rw [events, (hcs (by decide)).2, ev]
      rfl
    refine .of_next ht (by decide) (fun _ => rfl) hs hev fun k' hn => ?_
    rw [ask] at hn
    refine .asked ?_ fsm' serves (settled.keep conPop)
    rcases hn with rfl | ⟨-, rfl⟩ <;> decide
  | plain x win fsm' conPop byte ev ask =>
    refine .rest ht hs ask ev rfl (.plain win fsm' ?_)
    rw [popped_settled settled.conPop, List.append_nil]
    cases hb : x.console && s.con.rvalid with
    | false =>
      rw [hb] at conPop byte
      exact .nothing byte ⟨conPop, settled.outs⟩
    | true =>
      rw [hb] at conPop byte
      have hv : s.con.rvalid = true := (Bool.and_eq_true_iff.mp hb).2
      have hhead := owed_head hcon hv
      refine .popping s.con.rdata byte conPop ?_ ?_ settled.outs
      · refine hcon.rvalid_step hs.con hv ?_
        cases i.a with
        | none => rfl
        | some e => simp [AsyncFifo.rmoves, AsyncFifo.pops, fifoRead, settled.conPop]
      · rw [List.getElem?_append_left (List.getElem?_eq_some_iff.mp hhead).1]
        exact hhead

theorem Consistent.follows {sp : Spec} (h : Consistent s ins outs k sp)
    (hcon : AsyncFifo.Inv s.con ins outs c) (ht : toggle s = Toggle.pending k req) (hk : k ≤ 8)
    (hs : Sampling p s i) : Follows p s i ins outs k sp := by
  cases h with
  | idle fsm settled => exact follows_idle hcon ht hs fsm settled
  | plain win fsm owed => exact follows_plain hcon ht hs win fsm owed
  | asked h6 fsm serves settled => exact follows_asked ht hk hs h6 fsm serves settled
  | firing fsm serves settled => exact follows_firing ht hs fsm serves settled
  | captured fsm settled => exact follows_captured ht hs fsm settled
  | acked h1 h3 fsm settled => exact follows_acked ht hs h1 h3 fsm settled
  | answered fsm rdata settled => exact follows_answered ht hs fsm rdata settled

end follow

end RiscvScratch.Host
