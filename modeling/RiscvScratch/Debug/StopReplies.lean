import RiscvScratch.Debug.Transparent
import RiscvScratch.Debug.Breakpoints

/-!
The stop replies of the server and the state of the core when they are sent.
-/
namespace RiscvScratch.Gdbstub

open Program

variable {μ : Type} {e : Setup μ}

def Server.halted (s : Server μ) : Bool := s.soc.cpu.halted

def Holds (d : Dmi) : Prop := DebugModule.dbgStep d = false ∧ DebugModule.dbgResume d = false

theorem holds_idle : Holds .idle := by
  constructor <;> rfl

theorem holds_read (a : BitVec 8) : Holds (.read a) := by
  constructor <;> rfl

theorem holds_write {a : BitVec 8} (h : a ≠ DebugModule.control) (v : Word) :
    Holds (.write a v) := by
  have hw : DebugModule.wr (.write a v) DebugModule.control = false := by
    simpa [DebugModule.wr, Dmi.write] using h
  constructor
  · rw [DebugModule.dbgStep, hw, Bool.false_and]
  · rw [DebugModule.dbgResume, hw, Bool.false_and]

variable {s : Server μ} {r : Str} {d : Dmi} {body : Str} {s' : Server μ}

theorem tick_halted (hd : Holds d) (h : s.halted = true) :
    (tick e d s).halted = true := by
  have hh : s.soc.cpu.halted = true := h
  change (DebugSoc.step e.fetch e.bus nbp s.soc ⟨e.timer s.cycle, d⟩).cpu.halted = true
  rw [DebugSoc.halted_step, hh, hd.1, hd.2]
  rfl

theorem wait_halted (n : ℕ) (h : s.halted = true) : (wait e n s).halted = true := by
  induction n generalizing s with
  | zero => exact h
  | succ n ih => exact ih (tick_halted holds_idle h)

theorem access_halted (hidle : ∀ t, 0 < e.idle t) (h : (tick e .idle (tick e d s)).halted = true) :
    (access e d s).halted = true := by
  obtain ⟨n, hn⟩ := Nat.exists_eq_succ_of_ne_zero (hidle s.cycle).ne'
  rw [access, hn]
  exact wait_halted n h

theorem halt_halted (s : Server μ) :
    (tick e .idle (tick e (.write DebugModule.control 1#32) s)).halted = true := by
  have hcmd : DebugModule.dbgStep (.write DebugModule.control 1#32) = false ∧
      DebugModule.dbgResume (.write DebugModule.control 1#32) = false ∧
      (DebugModule.wr (.write DebugModule.control 1#32) DebugModule.control &&
        (1#32).getLsbD 0) = true := by
    decide
  generalize ht : tick e (.write DebugModule.control 1#32) s = t
  have hreq : t.soc.dm.haltReq = true := by
    rw [← ht]
    refine (DebugSoc.haltReq_step s.soc ⟨e.timer s.cycle, _⟩).trans ?_
    dsimp only
    rw [hcmd.1, hcmd.2.1]
    exact if_pos hcmd.2.2
  change (DebugSoc.step e.fetch e.bus nbp t.soc ⟨e.timer t.cycle, .idle⟩).cpu.halted = true
  rw [DebugSoc.halted_step]
  cases t.soc.cpu.halted with
  | true => rfl
  | false => simp [CpuCoreDbg.haltNow, DebugSoc.hooks, hreq]

theorem step_halted (h : s.halted = true) :
    (tick e .idle (tick e (.write DebugModule.control 4#32) s)).halted = true := by
  have hh : s.soc.cpu.halted = true := h
  have hcmd : DebugModule.dbgStep (.write DebugModule.control 4#32) = true := by decide
  generalize ht : tick e (.write DebugModule.control 4#32) s = t
  have hsoc : t.soc = DebugSoc.step e.fetch e.bus nbp s.soc
      ⟨e.timer s.cycle, .write DebugModule.control 4#32⟩ := by
    rw [← ht]
    rfl
  have hrun : t.soc.cpu.halted = false := by
    rw [hsoc, DebugSoc.halted_step, hh, hcmd]
    rfl
  have hmode : t.soc.cpu.stepMode = true := by
    rw [hsoc, DebugSoc.stepMode_step, hh, hcmd]
    rfl
  have hskip : t.soc.cpu.skipBp = true := by
    rw [hsoc, DebugSoc.skipBp_step, hh, hcmd]
    rfl
  have hreq : t.soc.dm.haltReq = false := by
    rw [hsoc, DebugSoc.haltReq_step, hcmd]
    rfl
  change (DebugSoc.step e.fetch e.bus nbp t.soc ⟨e.timer t.cycle, .idle⟩).cpu.halted = true
  rw [DebugSoc.halted_step]
  simp [DebugSoc.commits, CpuCoreDbg.run, CpuCoreDbg.haltNow, CpuCoreDbg.bpHit, DebugSoc.hooks,
    hrun, hmode, hskip, hreq]

theorem wait_record (n : ℕ) (s : Server μ) :
    (wait e n s).trace = s.trace ∧ (wait e n s).buf = s.buf := by
  induction n generalizing s with
  | zero => exact ⟨rfl, rfl⟩
  | succ n ih => exact ih _

structure Quiet (s s' : Server μ) : Prop where
  trace : s'.trace = s.trace
  buf : s'.buf = s.buf
  halted : s.halted = true → s'.halted = true

theorem Quiet.refl (s : Server μ) : Quiet s s := ⟨rfl, rfl, id⟩

theorem Quiet.trans {t u : Server μ} (h : Quiet s t) (h' : Quiet t u) : Quiet s u :=
  ⟨h'.trace.trans h.trace, h'.buf.trans h.buf, fun hs => h'.halted (h.halted hs)⟩

theorem quiet_access (hd : Holds d) (s : Server μ) : Quiet s (access e d s) where
  trace := (wait_record _ _).1
  buf := (wait_record _ _).2
  halted h := wait_halted _ (tick_halted hd h)

abbrev Answers (c : Stub μ Str) : Prop := Moves Quiet (· ≠ stopped) c

abbrev Works {α : Type} (c : Stub μ α) : Prop := Moves Quiet (fun _ => True) c

section operations

variable {α : Type}

theorem works_pure (a : α) : Works (pure a : Stub μ α) := moves_pure Quiet.refl trivial

theorem Works.then {β : Type} {c : Stub μ α} {f : α → Stub μ β} {V : β → Prop} (hc : Works c)
    (hf : ∀ a, Moves Quiet V (f a)) : Moves Quiet V (c >>= f) :=
  hc.bind (fun _ _ _ => Quiet.trans) fun a _ => hf a

theorem works_require (x : Option α) : Works (require x : Stub μ α) := by
  cases x with
  | none => exact moves_throw Quiet.refl _
  | some a => exact works_pure a

theorem works_w32 {a : BitVec 8} (h : a ≠ DebugModule.control) (v : ℤ) : Works (w32 e a v) :=
  moves_modify (quiet_access (holds_write h _)) trivial

theorem works_r32 (a : BitVec 8) : Works (r32 e a) :=
  ⟨fun s => ⟨quiet_access (holds_read a) s, trivial⟩⟩

theorem works_rdReg (i : ℤ) : Works (rdReg e i) := by
  unfold rdReg
  split_ifs
  · exact works_r32 _
  · exact (works_w32 (by decide) _).then fun _ => works_r32 _

theorem works_wrReg (i v : ℤ) : Works (wrReg e i v) := by
  unfold wrReg
  split_ifs
  · exact works_w32 (by decide) _
  · exact (works_w32 (by decide) _).then fun _ => works_w32 (by decide) _

theorem works_rdWord (a : ℤ) : Works (rdWord e a) :=
  (works_w32 (by decide) _).then fun _ => works_r32 _

theorem works_wrWord (a v : ℤ) : Works (wrWord e a v) :=
  (works_w32 (by decide) _).then fun _ => works_w32 (by decide) _

theorem works_rdMem (addr : ℤ) (n : ℕ) : Works (rdMem e addr n) := by
  induction n generalizing addr with
  | zero => exact works_pure _
  | succ n ih => exact (works_rdWord _).then fun _ => (ih _).then fun _ => works_pure _

theorem works_wrMem (addr : ℤ) (bytes : List (BitVec 8)) : Works (wrMem e addr bytes) := by
  induction bytes generalizing addr with
  | nil => exact works_pure _
  | cons b rest ih => exact (works_rdWord _).then fun _ => (works_wrWord _ _).then fun _ => ih _

theorem works_slots (f : Server μ → List (ℤ × ℕ)) :
    Works (modify fun s => { s with slots := f s } : Stub μ PUnit) :=
  moves_modify (fun _ => ⟨rfl, rfl, id⟩) trivial

theorem works_get : Works (get : Stub μ (Server μ)) := ⟨fun s => ⟨Quiet.refl s, trivial⟩⟩

theorem works_setBp (a : ℤ) : Works (setBp e a) :=
  works_get.then fun _ => (works_slots _).then fun _ =>
    (works_w32 (by decide) _).then fun _ => works_w32 (by decide) _

theorem works_clrBp (a : ℤ) : Works (clrBp e a) := by
  refine works_get.then fun s => ?_
  cases s.slots.lookup a with
  | none => exact works_pure _
  | some idx =>
    exact (works_w32 (by decide) _).then fun _ => (works_w32 (by decide) _).then fun _ =>
      works_slots _

end operations

theorem digit_ne (n : ℕ) : Nat.digitChar (n % 16) ≠ 'S' := by
  have h : n % 16 < 16 := Nat.mod_lt _ (by decide)
  generalize n % 16 = m at h
  interval_cases m <;> decide

theorem hex2_ne (n : ℕ) : 'S' ∉ hex2 n := by
  intro h
  rcases List.mem_cons.mp h with h | h
  · exact digit_ne _ h.symm
  · exact digit_ne _ (List.mem_singleton.mp h).symm

theorem flatMap_hex2_ne (l : List ℕ) : 'S' ∉ l.flatMap hex2 := by
  intro h
  obtain ⟨n, -, hn⟩ := List.mem_flatMap.mp h
  exact hex2_ne n hn

theorem hexreg_ne (v : ℕ) : 'S' ∉ hexreg v := by
  intro h
  obtain ⟨i, -, hi⟩ := List.mem_flatMap.mp h
  exact hex2_ne _ hi

theorem ne_stopped (h : 'S' ∉ r) : r ≠ stopped := by
  rintro rfl
  exact h (by decide)

theorem moves_readAll (i n : ℕ) : Moves Quiet (fun r => 'S' ∉ r) (readAll e i n) := by
  induction n generalizing i with
  | zero => exact moves_pure Quiet.refl List.not_mem_nil
  | succ n ih =>
    refine (works_rdReg _).then fun v => ?_
    refine (ih (i + 1)).bind (fun _ _ _ => Quiet.trans) fun rest hrest => ?_
    refine moves_pure Quiet.refl ?_
    rw [List.mem_append]
    rintro (h | h)
    · exact hexreg_ne v h
    · exact hrest h

theorem works_writeAll (data : Str) (i n : ℕ) : Works (writeAll e data i n) := by
  induction n generalizing i with
  | zero => exact works_pure _
  | succ n ih => exact (works_require _).then fun _ => (works_wrReg _ _).then fun _ => ih _

theorem answers_ok : Answers (pure ok : Stub μ Str) := moves_pure Quiet.refl (by decide)

theorem answers_empty : Answers (pure [] : Stub μ Str) := moves_pure Quiet.refl (by decide)

theorem answers_readOne (arg : Str) : Answers (readOne e arg) :=
  (works_require _).then fun _ => (works_rdReg _).then fun v =>
    moves_pure Quiet.refl (ne_stopped (hexreg_ne v))

theorem answers_writeOne (arg : Str) : Answers (writeOne e arg) :=
  (works_require _).then fun _ => (works_require _).then fun _ => (works_require _).then fun _ =>
    (works_wrReg _ _).then fun _ => answers_ok

theorem answers_readMemory (arg : Str) : Answers (readMemory e arg) :=
  (works_require _).then fun _ => (works_require _).then fun _ => (works_require _).then fun _ =>
    (works_rdMem _ _).then fun bytes => moves_pure Quiet.refl (ne_stopped (flatMap_hex2_ne bytes))

theorem answers_writeMemory (arg : Str) : Answers (writeMemory e arg) :=
  (works_require _).then fun _ => (works_require _).then fun _ => (works_require _).then fun _ =>
    (works_require _).then fun _ => (works_wrMem _ _).then fun _ => answers_ok

theorem answers_breakpoint (b : Bool) (arg : Str) : Answers (breakpoint e b arg) := by
  refine (works_require _).then fun x => ?_
  obtain ⟨typ, addr, _⟩ := x
  dsimp only
  by_cases htyp : typ = ['0'] ∨ typ = ['1']
  · rw [if_pos htyp]
    refine (works_require _).then fun a => ?_
    cases b with
    | true => exact (works_setBp a).then fun _ => answers_ok
    | false => exact (works_clrBp a).then fun _ => answers_ok
  · rw [if_neg htyp]
    exact answers_empty

/-- The packet does not let the core run, and orders a step only of a halted core. -/
def Settled (body : Str) (halted : Bool) : Prop :=
  body.head? ≠ some 'c' ∧ (body.head? = some 's' → halted = true)

instance (body : Str) (halted : Bool) : Decidable (Settled body halted) :=
  inferInstanceAs (Decidable (_ ∧ _))

structure Handled (body : Str) (s : Server μ) (r : Str) (s' : Server μ) : Prop where
  trace : s'.trace = s.trace
  buf : s'.buf = s.buf
  halted : Settled body s.halted → s.halted = true → s'.halted = true
  stop : Settled body s.halted → r = stopped → s'.halted = true

theorem Quiet.handled (h : Quiet s s') (hr : r ≠ stopped) :
    Handled body s r s' :=
  ⟨h.trace, h.buf, fun _ => h.halted, fun _ hc => absurd hc hr⟩

/-- Handling `body` in `s`; an exception leaves the core as an operation would. -/
abbrev Handles (body : Str) (s : Server μ) (c : Stub μ Str) : Prop :=
  Wp c (Handled body s) (fun _ => Quiet s) s

theorem Moves.handles {c : Stub μ Str} (hc : Answers c) (body : Str) (s : Server μ) :
    Handles body s c :=
  (hc.wp s).imp (fun _ _ h => h.1.handled h.2) fun _ _ h => h

theorem handles_command {v : ℤ} (h : Settled body s.halted →
      (access e (.write DebugModule.control (BitVec.ofInt 32 v)) s).halted = true) :
    Handles body s (do w32 e DebugModule.control v; pure stopped) :=
  ⟨(wait_record _ _).1, (wait_record _ _).2, fun hb _ => h hb, fun hb _ => h hb⟩

theorem handles_handle (hidle : ∀ t, 0 < e.idle t) (body : Str) (s : Server μ) :
    Handles body s (handle e body) := by
  unfold handle
  by_cases hq : "qSupported".toList.isPrefixOf body = true
  · rw [if_pos hq]
    exact Moves.handles (moves_pure Quiet.refl (by decide)) body s
  · rw [if_neg hq]
    cases hl : queries.lookup body with
    | some reply =>
      have hne : ∀ p ∈ queries, p.2 ≠ stopped := by decide
      obtain ⟨l₁, l₂, hq, -⟩ := List.lookup_eq_some_iff.mp hl
      have hmem : (body, reply) ∈ queries := by
        rw [hq]
        simp
      exact Moves.handles (moves_pure Quiet.refl (hne _ hmem)) body s
    | none =>
      dsimp only
      split
      · exact handles_command fun _ => access_halted hidle (halt_halted s)
      · exact Moves.handles ((moves_readAll 0 33).imp fun _ => ne_stopped) _ s
      · exact Moves.handles ((works_writeAll _ 0 33).then fun _ => answers_ok) _ s
      · exact Moves.handles (answers_readOne _) _ s
      · exact Moves.handles (answers_writeOne _) _ s
      · exact Moves.handles (answers_readMemory _) _ s
      · exact Moves.handles (answers_writeMemory _) _ s
      · exact handles_command fun hb => absurd rfl hb.1
      · exact handles_command fun hb => access_halted hidle (step_halted (hb.2 rfl))
      · exact Moves.handles (answers_breakpoint true _) _ s
      · exact Moves.handles (answers_breakpoint false _) _ s
      · exact Moves.handles answers_empty _ s

theorem frame_inj {r' : Str} (h : frame r = frame r') : r = r' := by
  have hl : r.length = r'.length := by
    have := congrArg List.length h
    simpa [frame, hex2] using this
  exact (List.append_inj (List.cons.inj h).2 hl).1

def IsStop (text : Str) : Prop := text = frame stopped ∨ text = '+' :: frame stopped

instance (text : Str) : Decidable (IsStop text) := inferInstanceAs (Decidable (_ ∨ _))

def Truthful (trace : List Event) : Prop :=
  ∀ text halted, Event.sent text halted ∈ trace → IsStop text → halted = true

def AllSettled (trace : List Event) : Prop :=
  ∀ body halted, Event.packet body halted ∈ trace → Settled body halted

/-- The record grows; if its packets are settled then its stop replies stay true, and a halted core
is halted again. -/
structure Advances (s s' : Server μ) : Prop where
  trace : s.trace <+: s'.trace
  truthful : AllSettled s'.trace → Truthful s.trace → Truthful s'.trace
  halted : AllSettled s'.trace → s.halted = true → s'.halted = true

theorem AllSettled.of_prefix {l l' : List Event} (h : AllSettled l') (hp : l <+: l') :
    AllSettled l := fun body halted hm => h body halted (hp.subset hm)

theorem Advances.trans {t u : Server μ} (h : Advances s t) (h' : Advances t u) :
    Advances s u where
  trace := h.trace.trans h'.trace
  truthful hs ht := h'.truthful hs (h.truthful (hs.of_prefix h'.trace) ht)
  halted hs hh := h'.halted hs (h.halted (hs.of_prefix h'.trace) hh)

theorem advances_same (ht : s'.trace = s.trace) (hh : s.halted = true → s'.halted = true) :
    Advances s s' := by
  constructor
  · rw [ht]
  · rw [ht]
    exact fun _ h => h
  · exact fun _ => hh

theorem Quiet.advances (h : Quiet s s') : Advances s s' := advances_same h.trace h.halted

theorem advances_append {ev : Event} (ht : s'.trace = s.trace ++ [ev])
    (hev : AllSettled s.trace → ∀ text halted, ev = .sent text halted → IsStop text →
      halted = true)
    (hh : AllSettled s.trace → s.halted = true → s'.halted = true) : Advances s s' := by
  have hp : s.trace <+: s'.trace := ht ▸ List.prefix_append _ _
  refine ⟨hp, fun hs hold text halted hm hstop => ?_, fun hs => hh (hs.of_prefix hp)⟩
  rw [ht] at hm
  rcases List.mem_append.mp hm with hm | hm
  · exact hold text halted hm hstop
  · exact hev (hs.of_prefix hp) text halted (List.mem_singleton.mp hm).symm hstop

def interrupted (e : Setup μ) (s : Server μ) : Server μ :=
  let t := access e (.write DebugModule.control (BitVec.ofInt 32 1)) s
  { t with
    trace := t.trace ++ [.sent ('+' :: frame stopped) t.halted]
    buf := s.buf.drop 1 }

def accepted (s : Server μ) (body rest : Str) : Server μ :=
  { s with
    buf := rest
    trace := (s.trace ++ [.packet body s.halted]) ++ [.sent ['+'] s.halted] }

theorem turn_interrupt (h : s.buf.head? = some ctrlC) :
    turn e s = .ok ⟨⟩ (interrupted e s) := by
  change (if s.buf.head? = some ctrlC then _ else _ : Stub μ PUnit) s = _
  rw [if_pos h]
  rfl

theorem turn_packet (h : s.buf.head? ≠ some ctrlC) :
    turn e s = .error .valueError s ∨ ∃ body rest, rest.length < s.buf.length ∧
      turn e s = (do let reply ← handle e body; sendall (frame reply)) (accepted s body rest) := by
  have hturn : turn e s = (if s.buf.head? = some ctrlC then _ else _ : Stub μ PUnit) s := rfl
  rw [hturn, if_neg h]
  dsimp only
  by_cases hi : s.buf.length ≤ s.buf.idxOf '$'
  · rw [if_pos hi]
    exact .inl rfl
  · rw [if_neg hi]
    by_cases hn : s.buf.length ≤ s.buf.idxOf '$' + (s.buf.drop (s.buf.idxOf '$')).idxOf '#'
    · rw [if_pos hn]
      exact .inl rfl
    · rw [if_neg hn]
      refine .inr ⟨_, _, ?_, rfl⟩
      rw [List.length_drop]
      omega

theorem interrupted_halted (hidle : ∀ t, 0 < e.idle t) (s : Server μ) :
    (interrupted e s).halted = true := access_halted hidle (halt_halted s)

theorem interrupted_advances (hidle : ∀ t, 0 < e.idle t) (s : Server μ) :
    Advances s (interrupted e s) := by
  have hh := interrupted_halted hidle s
  refine advances_append (congrArg (· ++ _) (wait_record _ _).1) (fun _ text halted he _ => ?_)
    fun _ _ => hh
  exact (Event.sent.inj he).2 ▸ hh

theorem accepted_advances (s : Server μ) (body rest : Str) :
    Advances s (accepted s body rest) := by
  have hpacket : Advances s { s with trace := s.trace ++ [.packet body s.halted] } :=
    advances_append rfl nofun fun _ hh => hh
  refine hpacket.trans (advances_append rfl (fun _ text halted he hstop => ?_) fun _ hh => hh)
  obtain ⟨rfl, -⟩ := Event.sent.inj he
  exact absurd hstop (by decide)

theorem Handled.advances (h : Handled body s r s')
    (hb : AllSettled s.trace → Settled body s.halted) :
    Advances s { s' with trace := s'.trace ++ [.sent (frame r) s'.halted] } := by
  refine advances_append (congrArg (· ++ _) h.trace) (fun hs text halted he hstop => ?_)
    fun hs => h.halted (hb hs)
  obtain ⟨rfl, rfl⟩ := Event.sent.inj he
  rcases hstop with hstop | hstop
  · exact h.stop (hb hs) (frame_inj hstop)
  · exact absurd (List.cons.inj hstop).1 (by decide)

theorem turn_advances (hidle : ∀ t, 0 < e.idle t) (s : Server μ) :
    Wp (turn e) (fun _ s' => Advances s s' ∧ s'.buf.length < s.buf.length)
      (fun _ s' => Advances s s') s := by
  by_cases h : s.buf.head? = some ctrlC
  · have hlen : 0 < s.buf.length := List.length_pos_of_ne_nil (by rintro hn; simp [hn] at h)
    unfold Wp
    rw [turn_interrupt h]
    refine ⟨interrupted_advances hidle s, ?_⟩
    change (s.buf.drop 1).length < _
    rw [List.length_drop]
    omega
  · rcases turn_packet (e := e) h with ht | ⟨body, rest, hlen, ht⟩
    · unfold Wp
      rw [ht]
      exact (Quiet.refl s).advances
    · have hacc := accepted_advances s body rest
      have hb : AllSettled (accepted s body rest).trace →
          Settled body (accepted s body rest).halted := by
        intro hs
        refine hs body _ ?_
        simp [accepted, Server.halted]
      have hw : Wp (do let reply ← handle e body; sendall (frame reply))
          (fun _ s' => Advances s s' ∧ s'.buf.length < s.buf.length)
          (fun _ s' => Advances s s') (accepted s body rest) := by
        refine (handles_handle hidle body (accepted s body rest)).bind ?_ ?_
        · intro r s' hr
          refine wp_modify.mpr ⟨hacc.trans (hr.advances hb), ?_⟩
          change s'.buf.length < _
          rw [hr.buf]
          exact hlen
        · exact fun _ s' hq => hacc.trans hq.advances
      unfold Wp at hw ⊢
      rw [ht]
      exact hw

theorem turns_succ (n : ℕ) (s : Server μ) :
    turns e (n + 1) s =
      if complete s.buf = true then (do turn e; turns e n) s else .ok ⟨⟩ s := by
  change (if complete s.buf = true then _ else _ : Stub μ PUnit) s = _
  split_ifs <;> rfl

theorem turns_advances (hidle : ∀ t, 0 < e.idle t) (n : ℕ) (s : Server μ)
    (hn : s.buf.length ≤ n) :
    Wp (turns e n) (fun _ s' => Advances s s' ∧ complete s'.buf = false)
      (fun _ s' => Advances s s') s := by
  induction n generalizing s with
  | zero =>
    refine wp_pure.mpr ⟨(Quiet.refl s).advances, ?_⟩
    unfold complete
    exact decide_eq_false (by omega)
  | succ n ih =>
    by_cases hc : complete s.buf = true
    · have hw : Wp (do turn e; turns e n)
          (fun _ s' => Advances s s' ∧ complete s'.buf = false) (fun _ s' => Advances s s') s := by
        refine (turn_advances hidle s).bind ?_ fun _ _ h => h
        rintro _ s₁ ⟨h₁, hlen⟩
        refine (ih s₁ (by omega)).imp ?_ ?_
        · rintro _ s' ⟨h, hd⟩
          exact ⟨h₁.trans h, hd⟩
        · exact fun _ _ h => h₁.trans h
      unfold Wp at hw ⊢
      rw [turns_succ, if_pos hc]
      exact hw
    · unfold Wp
      rw [turns_succ, if_neg hc]
      exact ⟨(Quiet.refl s).advances, by simpa using hc⟩

def arrived (e : Setup μ) (delay : ℕ) (data : Str) (s : Server μ) : Server μ :=
  { wait e delay s with buf := s.buf ++ data }

theorem arrived_advances (delay : ℕ) (data : Str) (s : Server μ) :
    Advances s (arrived e delay data s) :=
  advances_same (wait_record delay s).1 (wait_halted delay)

theorem recv_eq (delay : ℕ) (data : Str) (s : Server μ) :
    recv e delay data s =
      turns e (arrived e delay data s).buf.length (arrived e delay data s) := rfl

theorem recv_advances (hidle : ∀ t, 0 < e.idle t) (delay : ℕ) (data : Str) (s : Server μ) :
    Wp (recv e delay data) (fun _ s' => Advances s s' ∧ complete s'.buf = false)
      (fun _ s' => Advances s s') s := by
  have ha := arrived_advances (e := e) delay data s
  have hw := turns_advances hidle _ (arrived e delay data s) le_rfl
  unfold Wp
  rw [recv_eq]
  refine hw.imp ?_ ?_
  · rintro _ s' ⟨h, hd⟩
    exact ⟨ha.trans h, hd⟩
  · exact fun _ _ h => ha.trans h

theorem recv_interrupt (hidle : ∀ t, 0 < e.idle t) {delay : ℕ} {data : Str}
    (hh : (s.buf ++ data).head? = some ctrlC) (hc : complete (s.buf ++ data) = true) :
    Wp (recv e delay data) (fun _ s' => AllSettled s'.trace → s'.halted = true)
      (fun _ s' => AllSettled s'.trace → s'.halted = true) s := by
  generalize ha : arrived e delay data s = a
  have hbuf : a.buf = s.buf ++ data := by
    rw [← ha]
    rfl
  rw [← hbuf] at hh hc
  obtain ⟨n, hn⟩ : ∃ n, a.buf.length = n + 1 := by
    cases hb : a.buf with
    | nil =>
      rw [hb] at hh
      cases hh
    | cons c rest => exact ⟨rest.length, rfl⟩
  have hrun : recv e delay data s = turns e n (interrupted e a) := by
    rw [recv_eq, ha, hn, turns_succ, if_pos hc]
    change EStateM.bind (turn e) (fun _ => turns e n) a = _
    unfold EStateM.bind
    rw [turn_interrupt hh]
  have hlen : (interrupted e a).buf.length ≤ n := by
    change (a.buf.drop 1).length ≤ n
    rw [List.length_drop]
    omega
  have hw := turns_advances hidle n (interrupted e a) hlen
  have hhalt := interrupted_halted hidle a
  unfold Wp
  rw [hrun]
  exact hw.imp (fun _ _ h hs => h.1.halted hs hhalt) fun _ _ h hs => h.halted hs hhalt

theorem serve_advances (hidle : ∀ t, 0 < e.idle t) (chunks : List (ℕ × Str)) (s : Server μ) :
    Wp (serve e chunks) (fun _ s' => Advances s s') (fun _ s' => Advances s s') s := by
  induction chunks generalizing s with
  | nil => exact wp_pure.mpr (Quiet.refl s).advances
  | cons chunk rest ih =>
    refine (recv_advances hidle chunk.1 chunk.2 s).bind ?_ fun _ _ h => h
    rintro _ s₁ ⟨h₁, -⟩
    exact (ih s₁).imp (fun _ _ h => h₁.trans h) fun _ _ h => h₁.trans h

theorem final_of_wp {α : Type} {c : Stub μ α} {P : Server μ → Prop}
    (h : Wp c (fun _ => P) (fun _ => P) s) : P (final c s) := by
  unfold Wp at h
  unfold final
  cases hc : c s with
  | ok a s' => rw [hc] at h; exact h
  | error x s' => rw [hc] at h; exact h

/-- Where no packet lets the core run and only a halted core is stepped, every stop reply is true,
and a `Ctrl-C` at the head of a buffer with a complete packet halts the core. -/
theorem stop_replies_true (e : Setup μ) (hidle : ∀ t, 0 < e.idle t) (resetPc resvAddr : Word)
    (regs : Regs) (mem : μ) (chunks : List (ℕ × Str)) (delay : ℕ) (data : Str) (s : Server μ)
    (hserve : serve e chunks (start resetPc resvAddr regs mem) = .ok ⟨⟩ s)
    (hsettled : AllSettled (final (recv e delay data) s).trace)
    (hprompt : ctrlC ∈ data →
      (s.buf ++ data).head? = some ctrlC ∧ complete (s.buf ++ data) = true) :
    Truthful (final (recv e delay data) s).trace ∧
      (ctrlC ∈ data → (final (recv e delay data) s).halted = true) := by
  have hall : Advances (start resetPc resvAddr regs mem) s := by
    have hw := serve_advances hidle chunks (start resetPc resvAddr regs mem)
    unfold Wp at hw
    rw [hserve] at hw
    exact hw
  have hlast : Advances s (final (recv e delay data) s) :=
    final_of_wp ((recv_advances hidle delay data s).imp (fun _ _ h => h.1) fun _ _ h => h)
  constructor
  · exact (hall.trans hlast).truthful hsettled fun _ _ hm => absurd hm List.not_mem_nil
  · intro hm
    obtain ⟨hh, hc⟩ := hprompt hm
    exact final_of_wp (P := fun s' => AllSettled s'.trace → s'.halted = true)
      (recv_interrupt hidle hh hc) hsettled

def attended : List (ℕ × Str) := [(3, "$?#3f".toList), (5, "$s#73".toList)]

def settledAll (trace : List Event) : Bool :=
  trace.all fun ev => match ev with
    | .packet body halted => decide (Settled body halted)
    | .sent _ _ => true

theorem allSettled_of_all {trace : List Event} (h : settledAll trace = true) :
    AllSettled trace :=
  fun _ _ hm => of_decide_eq_true (List.all_eq_true.mp h _ hm)

theorem attended_halts :
    (final (recv nops 2 (ctrlC :: "$?#3f".toList)) (final (serve nops attended) fresh)).halted =
      true := by
  refine (stop_replies_true nops (fun _ => Nat.one_pos) 0#32 0#32 (fun _ => 0#32) () attended 2
    (ctrlC :: "$?#3f".toList) (final (serve nops attended) fresh) rfl ?_ ?_).2 (by decide)
  · apply allSettled_of_all
    decide +kernel
  · intro _
    decide +kernel

/-- The core is continued, and the interrupt comes alone. -/
theorem continued_unattended : Event.sent (frame stopped) false ∈
        (final (serve nops [(3, "$?#3f".toList), (5, "$c#63".toList)]) fresh).trace ∧
      (final (serve nops [(3, "$?#3f".toList), (5, "$c#63".toList), (7, [ctrlC])]) fresh).halted =
        false := by
  decide +kernel

end RiscvScratch.Gdbstub
