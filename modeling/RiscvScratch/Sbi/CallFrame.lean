import RiscvScratch.Sbi.Frame

/-! What `sbi_trap` does to the machine, and the contract of a whole SBI call. -/
namespace RiscvScratch.Sbi
open Platform
open Csr (privM privS)
open ByteMem (Mem load32 store32 Apart)

section kept
variable {υ : Type*} {p : Csr.Params} {dev : UartDev υ} {fuel : ℕ} {m m' m'' : Machine υ}
  {readable writable : Word → Prop} {changed : BitVec 5 → Prop}

/-- The C code reads and writes the firmware's RAM and the given bytes, and changes the given words
of the frame. -/
structure Kept (readable writable : Word → Prop) (changed : BitVec 5 → Prop)
    (m m' : Machine υ) : Prop where
  regs : m'.regs = m.regs
  scratch : m'.csr.mscratch = m.csr.mscratch
  csr : CsrKept m.csr m'.csr
  word : ∀ i, ¬changed i → m'.word i = m.word i
  mem : ∀ a, ¬InFirmware a 1 → ¬writable a → m'.mem a = m.mem a
  loads : ∀ a ∈ m'.loads, a ∈ m.loads ∨ InFirmware a 1 ∨ readable a
  stores : ∀ a ∈ m'.stores, a ∈ m.stores ∨ InFirmware a 1 ∨ writable a

theorem Kept.trans (h : Kept readable writable changed m m')
    (h' : Kept readable writable changed m' m'') : Kept readable writable changed m m'' := by
  refine ⟨h'.regs.trans h.regs, h'.scratch.trans h.scratch, h.csr.trans h'.csr,
    fun i hi => (h'.word i hi).trans (h.word i hi),
    fun a ha hw => (h'.mem a ha hw).trans (h.mem a ha hw), fun a ha => ?_, fun a ha => ?_⟩
  · obtain ha | ha := h'.loads a ha
    · exact h.loads a ha
    · exact .inr ha
  · obtain ha | ha := h'.stores a ha
    · exact h.stores a ha
    · exact .inr ha

theorem kept_loads (m : Machine υ) (u : υ) {l : List Word}
    (hl : ∀ a ∈ l, InFirmware a 1 ∨ readable a) :
    Kept readable writable changed m { m with loads := l ++ m.loads, uart := u } := by
  refine ⟨rfl, rfl, ⟨rfl, rfl, rfl⟩, fun _ _ => rfl, fun _ _ _ => rfl, fun a ha => ?_,
    fun _ ha => .inl ha⟩
  obtain ha | ha := List.mem_append.mp ha
  · exact .inr (hl a ha)
  · exact .inl ha

theorem kept_uart (m : Machine υ) (u : υ) :
    Kept readable writable changed m { m with uart := u } :=
  kept_loads (l := []) m u nofun

theorem kept_storeWord (m : Machine υ) {i : BitVec 5} (v : Word) (hi : changed i) :
    Kept readable writable changed m (m.storeWord (frameBase + slot i) v) := by
  have hf := frameOnly_storeWord m i v
  refine ⟨hf.regs, rfl, ⟨rfl, rfl, rfl⟩, fun j hj => ?_, fun a ha _ => hf.mem a ha,
    fun a ha => .inl ha, fun a ha => ?_⟩
  · rw [storeWord_word, if_neg]
    rintro rfl
    exact hj hi
  · obtain ha | ha := hf.stores a ha
    · exact .inl ha
    · exact .inr (.inl ha)

theorem kept_results (m : Machine υ) (err val : Word) (h0 : changed a0) (h1 : changed a1) :
    Kept readable writable changed m (m.results frameBase err val) :=
  (kept_storeWord m err h0).trans (kept_storeWord _ val h1)

def Op.Timed : Op → Prop
  | .mtimecmp _ _ => True
  | .csr _ addr _ => addr = Csr.mieA ∨ addr = Csr.mipA
  | .mret => False

theorem csrKept_apply {op : Op} (h : op.Timed) (csr : Csr.State) (clint : Clint.State) :
    CsrKept csr (op.apply p csr clint).1 ∧ (op.apply p csr clint).1.mscratch = csr.mscratch := by
  cases op with
  | mtimecmp high w => exact ⟨⟨rfl, rfl, rfl⟩, rfl⟩
  | mret => exact h.elim
  | csr f3 addr src =>
    obtain rfl | rfl := h
    · exact ⟨⟨rfl, rfl, (fixStatus_mode false csr.mstatus).2⟩, rfl⟩
    · exact ⟨⟨rfl, rfl, (fixStatus_mode false csr.mstatus).2⟩, rfl⟩

theorem kept_applyOps {ops : List Op} (h : ∀ op ∈ ops, op.Timed) :
    Kept readable writable changed m (m.applyOps p ops) := by
  induction ops generalizing m with
  | nil => exact kept_uart m m.uart
  | cons op ops ih =>
    obtain ⟨hk, hs⟩ := csrKept_apply (p := p) (h op (List.mem_cons_self ..)) m.csr m.clint
    have hfirst : Kept readable writable changed m { m with
        csr := (op.apply p m.csr m.clint).1, clint := (op.apply p m.csr m.clint).2 } :=
      ⟨rfl, hs, hk, fun _ _ => rfl, fun _ _ _ => rfl, fun _ ha => .inl ha, fun _ ha => .inl ha⟩
    exact hfirst.trans (ih fun o ho => h o (List.mem_cons_of_mem _ ho))

theorem timed_setTimer (t : BitVec 64) : ∀ op ∈ setTimer t, op.Timed := by
  simp [setTimer, Op.Timed, csrClear, csrSet]

theorem timed_timerTrap : ∀ op ∈ timerTrap, op.Timed := by
  simp [timerTrap, Op.Timed, csrClear, csrSet]

theorem putc_ok {c : BitVec 8} (h : m.putc dev fuel c = .ok m') :
    ∃ u, m' = { m with uart := u } := by
  unfold Machine.putc at h
  split at h
  · exact ⟨_, (Except.ok.inj h).symm⟩
  · simp at h

variable {buf : Word} {k : ℕ}

theorem kept_writeLoop {i : Word}
    (hr : ∀ j < k, readable (buf + (i + BitVec.ofNat 32 j)))
    (h : writeLoop dev fuel buf k i m = .ok m') : Kept readable writable changed m m' := by
  induction k generalizing i m with
  | zero =>
    obtain rfl := Except.ok.inj h
    exact kept_uart m m.uart
  | succ k ih =>
    simp only [writeLoop, bind, Except.bind] at h
    split at h
    · simp at h
    · rename_i m₁ hp
      obtain ⟨u, rfl⟩ := putc_ok hp
      have h0 : ∀ a ∈ [buf + i], InFirmware a 1 ∨ readable a := by
        simpa using Or.inr (hr 0 (by omega))
      refine (kept_loads m u h0).trans (ih (fun j hj => ?_) h)
      have := hr (j + 1) (by omega)
      rwa [show i + BitVec.ofNat 32 (j + 1) = i + 1#32 + BitVec.ofNat 32 j by bv_omega] at this

theorem kept_storeByte (m : Machine υ) {a : Word} (b : BitVec 8) (ha : ¬InFirmware a 1)
    (hw : writable a) : Kept readable writable changed m (m.storeByte a b) := by
  refine ⟨rfl, rfl, ⟨rfl, rfl, rfl⟩, fun i _ => ?_, fun x _ hx => ?_, fun _ hx => .inl hx,
    fun x hx => ?_⟩
  · refine ByteMem.load32_congr fun k hk => Function.update_of_ne ?_ _ _
    rintro rfl
    exact ha (inFirmware_slot i hk)
  · refine Function.update_of_ne ?_ _ _
    rintro rfl
    exact hx hw
  · obtain rfl | hx := List.mem_cons.mp hx
    · exact .inr (.inr hw)
    · exact .inl hx

theorem readLoop_none {val : Word} {u : υ} (h : getc dev m.uart = (none, u)) :
    readLoop dev buf (k + 1) val m = (val, { m with uart := u }) := by
  simp only [readLoop, h]

theorem readLoop_some {val : Word} {u : υ} {b : BitVec 8}
    (h : getc dev m.uart = (some b, u)) :
    readLoop dev buf (k + 1) val m =
      readLoop dev buf k (val + 1#32)
        (({ m with uart := u } : Machine υ).storeByte (buf + val) b) := by
  simp only [readLoop, h]

theorem kept_readLoop (buf : Word) (k : ℕ) (val : Word) (m : Machine υ) :
    ∃ c ≤ k, (readLoop dev buf k val m).1 = val + BitVec.ofNat 32 c ∧
      ((∀ j < c, ¬InFirmware (buf + (val + BitVec.ofNat 32 j)) 1 ∧
          writable (buf + (val + BitVec.ofNat 32 j))) →
        Kept readable writable changed m (readLoop dev buf k val m).2) := by
  induction k generalizing val m with
  | zero => exact ⟨0, le_rfl, by simp [readLoop], fun _ => kept_uart m m.uart⟩
  | succ k ih =>
    obtain ⟨o, u, hg⟩ : ∃ o u, getc dev m.uart = (o, u) := ⟨_, _, rfl⟩
    cases o with
    | none =>
      rw [readLoop_none hg]
      exact ⟨0, by omega, (BitVec.add_zero val).symm, fun _ => kept_uart m u⟩
    | some b =>
      rw [readLoop_some hg]
      obtain ⟨c, hc, hval, hk⟩ := ih (val + 1#32)
        (({ m with uart := u } : Machine υ).storeByte (buf + val) b)
      have hshift (j : ℕ) : val + 1#32 + BitVec.ofNat 32 j = val + BitVec.ofNat 32 (j + 1) := by
        bv_omega
      refine ⟨c + 1, by omega, hval.trans (hshift c), fun hw => ?_⟩
      have h0 := hw 0 (by omega)
      rw [BitVec.add_zero] at h0
      refine ((kept_uart m u).trans (kept_storeByte _ b h0.1 h0.2)).trans (hk fun j hj => ?_)
      rw [hshift]
      exact hw (j + 1) (by omega)

end kept

/-- A byte of a buffer that lies in the payload's part of the RAM. -/
structure InBuffer (ramSize buf n a : Word) : Prop where
  base : payloadBase.toNat ≤ buf.toNat
  top : buf.toNat + n.toNat ≤ (ramBase + ramSize).toNat
  lower : buf.toNat ≤ a.toNat
  upper : a.toNat < buf.toNat + n.toNat

/-- The payload's bytes a call may read. -/
def Call.Reads (ramSize : Word) : Call → Word → Prop
  | .write buf n, a => InBuffer ramSize buf n a
  | _, _ => False

/-- The payload's bytes a call may write when it has returned `count`. -/
def Call.Writes (ramSize count : Word) : Call → Word → Prop
  | .read buf n, a => InBuffer ramSize buf n a ∧ a.toNat < buf.toNat + count.toNat
  | _, _ => False

/-- The registers a call returns its results in. -/
def Call.Changes : Call → BitVec 5 → Prop
  | .setTimer true _, i | .legacyPutchar _, i | .legacyGetchar, i => i = a0
  | .setTimer false _, i | .reset _ _, i | .writeByte _, i | .write _ _, i | .read _ _, i
  | .answer _ _, i => i = a0 ∨ i = a1

def Call.Checked (ramSize : Word) : Call → Prop
  | .write buf n | .read buf n => ∃ hi, payloadBuffer ramSize buf hi n = true
  | _ => True

theorem decode_checked (ramSize : Word) (csrRead : BitVec 12 → Word) (r : BitVec 5 → Word) :
    (decode ramSize csrRead r).Checked ramSize := by
  have hbase : (baseCall csrRead r).Checked ramSize := by
    unfold baseCall
    repeat' refine iteInduction (fun _ => trivial) fun _ => ?_
    trivial
  have hdbcn : (dbcnCall ramSize r).Checked ramSize := by
    unfold dbcnCall
    refine iteInduction (fun _ => trivial) fun _ => iteInduction (fun _ => ?_) fun _ => trivial
    refine iteInduction (fun _ => trivial) fun hok => ?_
    have hbuf : ∃ hi, payloadBuffer ramSize (r 11#5) hi (r 10#5) = true :=
      ⟨r 12#5, by simpa using hok⟩
    exact iteInduction (fun _ => hbuf) fun _ => hbuf
  have hsrst : (srstCall r).Checked ramSize := by
    unfold srstCall
    exact iteInduction (fun _ => trivial) fun _ => trivial
  unfold decode
  iterate 4 refine iteInduction (fun _ => trivial) fun _ => ?_
  refine iteInduction (fun _ => hbase) fun _ => iteInduction (fun _ => ?_) fun _ => ?_
  · exact iteInduction (fun _ => trivial) fun _ => trivial
  · exact iteInduction (fun _ => hdbcn) fun _ => iteInduction (fun _ => hsrst) fun _ => trivial

theorem inBuffer {ramSize buf hi n : Word} (h : payloadBuffer ramSize buf hi n = true) {j : ℕ}
    (hj : j < n.toNat) : InBuffer ramSize buf n (buf + (0#32 + BitVec.ofNat 32 j)) ∧
      (buf + (0#32 + BitVec.ofNat 32 j)).toNat = buf.toNat + j := by
  simp only [payloadBuffer, Bool.and_eq_true, BitVec.ule_iff_le] at h
  obtain ⟨⟨⟨-, hbase⟩, hwrap⟩, htop⟩ := h
  have hbase' : payloadBase.toNat ≤ buf.toNat := hbase
  have hlt := n.isLt
  have hsum : (buf + n).toNat = buf.toNat + n.toNat := by bv_omega
  have htop' : buf.toNat + n.toNat ≤ (ramBase + ramSize).toNat := hsum ▸ htop
  have hat : (buf + (0#32 + BitVec.ofNat 32 j)).toNat = buf.toNat + j := by
    have := (ramBase + ramSize).isLt
    rw [BitVec.zero_add, BitVec.toNat_add, BitVec.toNat_ofNat]
    omega
  exact ⟨⟨hbase', htop', by omega, by omega⟩, hat⟩

theorem InBuffer.not_inFirmware {ramSize buf n a : Word} (h : InBuffer ramSize buf n a) :
    ¬InFirmware a 1 := by
  rintro ⟨-, hlt⟩
  have := h.base
  have := h.lower
  have hlt' : a.toNat < payloadBase.toNat := hlt
  omega

section perform
variable {υ : Type*} {p : Csr.Params} {dev : UartDev υ} {fuel : ℕ} {m m' : Machine υ}
  {ramSize : Word}

theorem bind_eq_ok {x : Except Stop (Machine υ)} {f : Machine υ → Except Stop (Machine υ)}
    (h : (x >>= f) = .ok m') : ∃ m₁, x = .ok m₁ ∧ f m₁ = .ok m' := by
  cases x with
  | error e => cases h
  | ok m₁ => exact ⟨m₁, rfl, h⟩

theorem kept_perform {call : Call} (hc : call.Checked ramSize)
    (h : m.perform p dev fuel frameBase call = .ok m') :
    Kept (call.Reads ramSize) (call.Writes ramSize (m'.word a1)) call.Changes m m' := by
  cases call with
  | setTimer legacy t =>
    cases legacy with
    | true =>
      obtain rfl := Except.ok.inj h
      exact (kept_applyOps (timed_setTimer t)).trans (kept_storeWord _ _ rfl)
    | false =>
      obtain rfl := Except.ok.inj h
      exact (kept_applyOps (timed_setTimer t)).trans (kept_results _ _ _ (.inl rfl) (.inr rfl))
  | legacyPutchar c =>
    obtain ⟨m₁, hp, he⟩ := bind_eq_ok h
    obtain ⟨u, rfl⟩ := putc_ok hp
    obtain rfl := Except.ok.inj he
    exact (kept_uart m u).trans (kept_storeWord _ _ rfl)
  | legacyGetchar =>
    obtain rfl := Except.ok.inj h
    exact (kept_uart m _).trans (kept_storeWord _ _ rfl)
  | reset type reason => cases h
  | writeByte c =>
    obtain ⟨m₁, hp, he⟩ := bind_eq_ok h
    obtain ⟨u, rfl⟩ := putc_ok hp
    obtain rfl := Except.ok.inj he
    exact (kept_uart m u).trans (kept_results _ _ _ (.inl rfl) (.inr rfl))
  | write buf n =>
    obtain ⟨hi, hbuf⟩ := hc
    obtain ⟨m₁, hw, he⟩ := bind_eq_ok h
    obtain rfl := Except.ok.inj he
    exact (kept_writeLoop (fun j hj => (inBuffer hbuf hj).1) hw).trans
      (kept_results _ _ _ (.inl rfl) (.inr rfl))
  | read buf n =>
    obtain ⟨hi, hbuf⟩ := hc
    obtain rfl := Except.ok.inj h
    obtain ⟨c, hcn, hval, hk⟩ := kept_readLoop buf n.toNat 0#32 m
    have hcount : (((readLoop dev buf n.toNat 0#32 m).2.results frameBase success
        (readLoop dev buf n.toNat 0#32 m).1).word a1).toNat = c := by
      have hn := n.isLt
      rw [Machine.results, storeWord_word, if_pos rfl, hval, BitVec.zero_add, BitVec.toNat_ofNat]
      omega
    refine (hk fun j hj => ?_).trans (kept_results _ _ _ (.inl rfl) (.inr rfl))
    obtain ⟨hin, hat⟩ := inBuffer hbuf (show j < n.toNat by omega)
    exact ⟨hin.not_inFirmware, hin, by omega⟩
  | answer err val =>
    obtain rfl := Except.ok.inj h
    exact kept_results _ _ _ (.inl rfl) (.inr rfl)

/-- The transmitter becomes ready when it is polled often enough. -/
def UartDev.Drains (dev : UartDev υ) : Prop :=
  ∀ u, ∃ n, (dev.lsr ((fun u => (dev.lsr u).2)^[n] u)).1.getLsbD 5 = true

theorem putc_returns (hd : dev.Drains) (u : υ) (c : BitVec 8) :
    ∃ u' bound, ∀ fuel ≥ bound, Sbi.putc dev fuel u c = some u' := by
  obtain ⟨n, hn⟩ := hd u
  induction n generalizing u with
  | zero =>
    refine ⟨dev.thr (dev.lsr u).2 c, 1, fun fuel hf => ?_⟩
    obtain ⟨k, rfl⟩ := Nat.exists_eq_add_of_le' hf
    exact if_pos hn
  | succ n ih =>
    by_cases hready : (dev.lsr u).1.getLsbD 5 = true
    · refine ⟨dev.thr (dev.lsr u).2 c, 1, fun fuel hf => ?_⟩
      obtain ⟨k, rfl⟩ := Nat.exists_eq_add_of_le' hf
      exact if_pos hready
    · obtain ⟨u', bound, hu⟩ := ih (dev.lsr u).2 hn
      refine ⟨u', bound + 1, fun fuel hf => ?_⟩
      obtain ⟨k, rfl⟩ := Nat.exists_eq_add_of_le' (show 1 ≤ fuel by omega)
      exact (if_neg hready).trans (hu k (by omega))

/-- With enough fuel the result is one machine. -/
def Returns (x : ℕ → Except Stop (Machine υ)) : Prop := ∃ m' bound, ∀ fuel ≥ bound, x fuel = .ok m'

theorem Returns.bind {x : ℕ → Except Stop (Machine υ)} {f : ℕ → Machine υ → Except Stop (Machine υ)}
    (hx : Returns x) (hf : ∀ m, Returns fun fuel => f fuel m) :
    Returns fun fuel => x fuel >>= f fuel := by
  obtain ⟨m₁, b₁, h₁⟩ := hx
  obtain ⟨m₂, b₂, h₂⟩ := hf m₁
  refine ⟨m₂, max b₁ b₂, fun fuel hf => ?_⟩
  dsimp only
  rw [h₁ fuel (le_trans (le_max_left ..) hf)]
  exact h₂ fuel (le_trans (le_max_right ..) hf)

theorem machine_putc_returns (hd : dev.Drains) (m : Machine υ) (c : BitVec 8) :
    Returns fun fuel => m.putc dev fuel c := by
  obtain ⟨u, bound, hu⟩ := putc_returns hd m.uart c
  refine ⟨{ m with uart := u }, bound, fun fuel hf => ?_⟩
  simp only [Machine.putc, hu fuel hf]

theorem writeLoop_returns (hd : dev.Drains) (buf : Word) (k : ℕ) (i : Word) (m : Machine υ) :
    Returns fun fuel => writeLoop dev fuel buf k i m := by
  induction k generalizing i m with
  | zero => exact ⟨m, 0, fun _ _ => rfl⟩
  | succ k ih => exact (machine_putc_returns hd _ _).bind fun m₁ => ih (i + 1#32) m₁

theorem perform_returns (hd : dev.Drains) (m : Machine υ) (r : Word) (call : Call) :
    (Returns fun fuel => m.perform p dev fuel r call) ∨
      ∃ type reason, call = .reset type reason := by
  have hnow (m' : Machine υ) : Returns fun _ => .ok m' := ⟨m', 0, fun _ _ => rfl⟩
  cases call with
  | setTimer legacy t => cases legacy <;> exact .inl (hnow _)
  | legacyPutchar c | writeByte c =>
    exact .inl ((machine_putc_returns hd m (c.extractLsb' 0 8)).bind fun m₁ => hnow _)
  | write buf n => exact .inl ((writeLoop_returns hd buf n.toNat 0#32 m).bind fun m₁ => hnow _)
  | reset type reason => exact .inr ⟨type, reason, rfl⟩
  | legacyGetchar | read | answer => exact .inl (hnow _)

end perform

section call
variable {υ : Type*} {p : Csr.Params} {gp : Word} {dev : UartDev υ} {fuel : ℕ} {m m' : Machine υ}
  {ramSize : Word} {csrRead : BitVec 12 → Word}

structure Clobbered (m m' : Machine υ) : Prop where
  sp : m'.regs.read sp = frameBase
  word : ∀ i, m'.word i = m.word i
  mem : ∀ a, ¬InFirmware a 1 → m'.mem a = m.mem a
  csr : m'.csr = m.csr
  loads : m'.loads = m.loads
  stores : m'.stores = m.stores

theorem clobbered_havoc (h : Havoc) (hsp : m.regs.read sp = frameBase) :
    Clobbered m (m.havoc h) := by
  refine ⟨hsp, fun i => ?_, fun a ha => ?_, rfl, rfl, rfl⟩
  · refine ByteMem.load32_congr fun k hk => ?_
    have hi := i.isLt
    have hs := slot_toNat i
    have habove : (frameBase + slot i + BitVec.ofNat 32 k).ult frameBase = false := by
      rw [← Bool.not_eq_true, BitVec.ult_iff_lt]
      unfold frameBase
      bv_omega
    show (if _ && _ then _ else _) = _
    rw [hsp, habove, Bool.and_false]
    rfl
  · show (if _ && _ then _ else _) = _
    rw [hsp, if_neg]
    intro hlt
    rw [Bool.and_eq_true, BitVec.ule_iff_le, BitVec.ult_iff_lt] at hlt
    refine ha ⟨hlt.1, ?_⟩
    have hbelow := hlt.2
    unfold frameBase at hbelow
    unfold payloadBase ramBase fwRamSize
    bv_omega

theorem decode_congr {r r' : BitVec 5 → Word} (h : ∀ i, i ≠ 0#5 → r i = r' i) :
    decode ramSize csrRead r = decode ramSize csrRead r' := by
  unfold decode baseCall dbcnCall srstCall timerArg
  rw [h 10#5 (by decide), h 11#5 (by decide), h 12#5 (by decide), h 16#5 (by decide),
    h 17#5 (by decide)]

structure Resumed (m m' : Machine υ) (pc : Word) (changes : BitVec 5 → Prop)
    (reads writes : Word → Prop) : Prop where
  priv : m'.csr.priv = m.csr.priv
  pc : m'.pc = pc
  regs : ∀ i, ¬changes i → m'.regs.read i = m.regs.read i
  scratch : m'.csr.mscratch = fwStackTop
  mem : ∀ a, ¬InFirmware a 1 → ¬writes a → m'.mem a = m.mem a
  loads : ∀ a ∈ m'.loads, InFirmware a 1 ∨ reads a
  stores : ∀ a ∈ m'.stores, InFirmware a 1 ∨ writes a

variable {cause : Word}

/-- From the return of `sbi_trap` to the payload. -/
def Machine.leave (p : Csr.Params) (gp : Word) (h : Havoc) (m : Machine υ) : Machine υ :=
  (exitCode.foldl (Machine.exec p gp) (m.havoc h)).mret p

theorem trap_enters (hs : m.csr.mscratch = fwStackTop) (hd : Csr.deleg p m.csr cause = false)
    (h : Havoc) : ∃ m₁, Entered (m.trap p cause) m₁ ∧ m₁.csr.mcause = cause ∧
      m₁.csr.mepc = m.pc ∧ ∀ fuel, (m.trap p cause).sbiTrapEntry p gp dev ramSize csrRead fuel h =
        (m₁.sbiTrap p dev ramSize csrRead fuel frameBase).map (Machine.leave p gp h) := by
  have htrap : (Csr.trapEnter p m.csr m.pc cause 0#32).mscratch = m.csr.mscratch ∧
      (Csr.trapEnter p m.csr m.pc cause 0#32).mcause = cause ∧
      (Csr.trapEnter p m.csr m.pc cause 0#32).mepc = m.pc := by
    simp [Csr.trapEnter, hd]
  have hent := entered (m := m.trap p cause) p gp (htrap.1.trans hs)
  refine ⟨_, hent, hent.csr.mcause.trans htrap.2.1, hent.csr.mepc.trans htrap.2.2, fun fuel => ?_⟩
  rw [← hent.a0]
  rfl

theorem leave_read (hsp : m.regs.read sp = frameBase) (gp : Word) (h : Havoc) {i : BitVec 5}
    (h0 : i ≠ 0#5) (hisp : i ≠ sp) : (m.leave p gp h).regs.read i = m.word i := by
  have hcl := clobbered_havoc h hsp
  exact ((left p gp hcl.sp).regs i h0 hisp).trans (hcl.word i)

theorem resumed_of_kept (hd : Csr.deleg p m.csr cause = false)
    {changes : BitVec 5 → Prop} {reads writes : Word → Prop} {m₁ m₂ m₃ : Machine υ}
    (hent : Entered (m.trap p cause) m₁) (hk : Kept reads writes changes m₁ m₂)
    (hm₃ : m₃ = { m₂ with csr := m₃.csr, clint := m₃.clint })
    (hmpp : m₃.csr.mstatus.extractLsb' 11 2 = m₂.csr.mstatus.extractLsb' 11 2)
    (hscratch : m₃.csr.mscratch = m₂.csr.mscratch) (gp : Word) (h : Havoc) :
    Resumed m (m₃.leave p gp h) m₃.csr.mepc changes reads writes := by
  unfold Machine.leave
  have hsp₃ : m₃.regs.read sp = frameBase := by
    rw [hm₃]
    exact (congrArg (Regs.read · sp) hk.regs).trans hent.sp
  have hword (i : BitVec 5) : m₃.word i = m₂.word i := by
    rw [hm₃]
    rfl
  have hmem : m₃.mem = m₂.mem ∧ m₃.loads = m₂.loads ∧ m₃.stores = m₂.stores := by
    rw [hm₃]
    exact ⟨rfl, rfl, rfl⟩
  have hcl := clobbered_havoc h hsp₃
  have hleft := left p gp hcl.sp
  refine ⟨?_, ?_, fun i hi => ?_, hleft.scratch, fun a ha hw => ?_, fun a ha => ?_, fun a ha => ?_⟩
  · rw [hleft.priv, hcl.csr, hmpp, hk.csr.mpp, hent.csr.mpp]
    exact (step_trap_machine hd m.pc 0#32).2.2
  · exact hleft.pc.trans (congrArg Csr.State.mepc hcl.csr)
  · by_cases h0 : i = 0#5
    · rw [h0]
      rfl
    by_cases hisp : i = sp
    · rw [hisp, hleft.sp, hcl.csr]
      exact hscratch.trans (hk.scratch.trans hent.scratch)
    · rw [hleft.regs i h0 hisp, hcl.word, hword]
      exact (hk.word i hi).trans (hent.word i h0)
  · rw [hleft.mem, hcl.mem a ha, hmem.1]
    exact (hk.mem a ha hw).trans (hent.mem a ha)
  · obtain ha | ha := hleft.loads a ha
    · rw [hcl.loads, hmem.2.1] at ha
      obtain ha | ha := hk.loads a ha
      · rw [hent.loads] at ha
        exact absurd ha (List.not_mem_nil)
      · exact ha
    · exact .inl ha
  · rw [hleft.stores, hcl.stores, hmem.2.2] at ha
    obtain ha | ha := hk.stores a ha
    · obtain ha | ha := hent.stores a ha
      · exact absurd ha (List.not_mem_nil)
      · exact .inl ha
    · exact ha

theorem timer_resumes (hs : m.csr.mscratch = fwStackTop)
    (hd : Csr.deleg p m.csr mtiCause = false) (h : Havoc) :
    ∃ m', (∀ fuel, (m.trap p mtiCause).sbiTrapEntry p gp dev ramSize csrRead fuel h = .ok m') ∧
      Resumed m m' m.pc (fun _ => False) (fun _ => False) (fun _ => False) := by
  obtain ⟨m₁, hent, hcause, hmepc, hentry⟩ := trap_enters hs hd h
  obtain ⟨m₂, hm₂⟩ : ∃ m₂, m₂ = m₁.applyOps p timerTrap := ⟨_, rfl⟩
  have hk : Kept (fun _ => False) (fun _ => False) (fun _ => False) m₁ m₂ :=
    hm₂ ▸ kept_applyOps timed_timerTrap
  refine ⟨m₂.leave p gp h, fun fuel => ?_, ?_⟩
  · rw [hentry, Machine.sbiTrap, if_pos hcause, Except.map, hm₂]
  · rw [← hmepc, ← hk.csr.mepc]
    exact resumed_of_kept hd hent hk rfl rfl rfl gp h

theorem ecall_resumes (hdrain : dev.Drains) (hs : m.csr.mscratch = fwStackTop)
    (hd : Csr.deleg p m.csr ecallSCause = false) (h : Havoc) {call : Call}
    (hcall : decode ramSize csrRead (fun i => m.regs.read i) = call) :
    (∃ m' bound, (∀ fuel ≥ bound,
        (m.trap p ecallSCause).sbiTrapEntry p gp dev ramSize csrRead fuel h = .ok m') ∧
      Resumed m m' (m.pc + 4#32) call.Changes (call.Reads ramSize)
        (call.Writes ramSize (m'.regs.read a1))) ∨
      (∃ type reason, call = .reset type reason) ∧ ∀ fuel,
        (m.trap p ecallSCause).sbiTrapEntry p gp dev ramSize csrRead fuel h = .error .ended := by
  obtain ⟨m₁, hent, hcause, hmepc, hentry⟩ := trap_enters hs hd h
  -- the frame holds the registers of the payload
  have hdec : decode ramSize csrRead (m₁.frameRegs frameBase) = call := by
    rw [← hcall]
    exact decode_congr fun i hi => hent.word i hi
  let m₂ := { m₁ with
    loads := argSlots.flatMap (fun i => wordBytes (frameBase + slot i)) ++ m₁.loads }
  have hunfold (fuel : ℕ) : (m.trap p ecallSCause).sbiTrapEntry p gp dev ramSize csrRead fuel h =
      (m₂.perform p dev fuel frameBase call).map fun m₃ =>
        (m₃.applyOps p [csrWrite Csr.mepcA (m₃.csr.mepc + 4#32)]).leave p gp h := by
    rw [hentry, Machine.sbiTrap, if_neg (by rw [hcause]; decide), if_pos hcause, Machine.ecall,
      hdec]
    cases m₂.perform p dev fuel frameBase call <;>
      simp only [Except.map, bind, Except.bind, pure, Except.pure]
  obtain ⟨m₃, bound, hret⟩ | hreset := perform_returns (p := p) hdrain m₂ frameBase call
  · left
    have hk : Kept (call.Reads ramSize) (call.Writes ramSize (m₃.word a1)) call.Changes m₁ m₃ := by
      refine (kept_loads m₁ m₁.uart fun a ha => ?_).trans
        (kept_perform (hcall ▸ decode_checked ..) (hret bound le_rfl))
      obtain ⟨i, -, hi⟩ := List.mem_flatMap.mp ha
      exact .inl (wordBytes_slot hi)
    let m₄ := m₃.applyOps p [csrWrite Csr.mepcA (m₃.csr.mepc + 4#32)]
    have hmepc₄ : m₄.csr.mepc = m.pc + 4#32 := by
      rw [← hmepc, ← hk.csr.mepc]
      rfl
    have hm₄ : m₄ = { m₃ with csr := m₄.csr, clint := m₄.clint } := rfl
    have hsp : m₄.regs.read sp = frameBase := (congrArg (Regs.read · sp) hk.regs).trans hent.sp
    have hcount : (m₄.leave p gp h).regs.read a1 = m₃.word a1 := by
      rw [leave_read hsp gp h (by decide) (by decide)]
      rfl
    refine ⟨m₄.leave p gp h, bound, fun fuel hf => ?_, ?_⟩
    · rw [hunfold]
      exact congrArg (Except.map _) (hret fuel hf)
    · rw [hcount, ← hmepc₄]
      exact resumed_of_kept hd hent hk hm₄ (fixStatus_mode false _).2 rfl gp h
  · right
    refine ⟨hreset, fun fuel => ?_⟩
    obtain ⟨type, reason, hreset⟩ := hreset
    rw [hunfold, hreset]
    rfl

end call

/-- A payload that makes an SBI call or is interrupted by the machine timer goes on in its mode with
its registers and memory, but for the results of the call. Only a reset does not return. -/
theorem sbi_call_frame {υ : Type*} (p : Csr.Params) (gp : Word) (dev : UartDev υ)
    (hdrain : dev.Drains) (ramSize : Word) (csrRead : BitVec 12 → Word) (m : Machine υ)
    (hs : m.csr.mscratch = fwStackTop) (h : Havoc) :
    (Csr.deleg p m.csr mtiCause = false → ∃ m',
      (∀ fuel, (m.trap p mtiCause).sbiTrapEntry p gp dev ramSize csrRead fuel h = .ok m') ∧
        Resumed m m' m.pc (fun _ => False) (fun _ => False) (fun _ => False)) ∧
    (Csr.deleg p m.csr ecallSCause = false →
      (∃ m' bound, (∀ fuel ≥ bound,
          (m.trap p ecallSCause).sbiTrapEntry p gp dev ramSize csrRead fuel h = .ok m') ∧
        Resumed m m' (m.pc + 4#32) (decode ramSize csrRead fun i => m.regs.read i).Changes
          ((decode ramSize csrRead fun i => m.regs.read i).Reads ramSize)
          ((decode ramSize csrRead fun i => m.regs.read i).Writes ramSize (m'.regs.read a1))) ∨
        (∃ type reason, (decode ramSize csrRead fun i => m.regs.read i) = .reset type reason) ∧
          ∀ fuel, (m.trap p ecallSCause).sbiTrapEntry p gp dev ramSize csrRead fuel h =
            .error .ended) :=
  ⟨fun hd => timer_resumes hs hd h, fun hd => ecall_resumes hdrain hs hd h rfl⟩

def idleUart : UartDev Unit where
  lsr := fun u => (0x60#8, u)
  rbr := fun u => (0#8, u)
  thr := fun u _ => u

def versionCall : Machine Unit where
  pc := payloadBase
  regs := fun i => if i = 17#5 then extBase else if i = 16#5 then 0#32 else i.zeroExtend 32
  mem := fun _ => 0#8
  csr := payloadStart.csr
  clint := Clint.reset
  uart := ()
  loads := []
  stores := []

theorem versionCall_frame : ∃ m' bound, (∀ fuel ≥ bound,
    (versionCall.trap bootParams ecallSCause).sbiTrapEntry bootParams 0#32 idleUart 0x00100000#32
      (fun _ => 0#32) fuel ⟨fun _ => 0#32, fun _ => 0#8⟩ = .ok m') ∧
    m'.csr.priv = privS ∧ m'.pc = payloadBase + 4#32 ∧ m'.regs.read 12#5 = 12#32 := by
  have hdrain : idleUart.Drains := fun _ => ⟨0, by simp [idleUart]⟩
  have hcall : (decode 0x00100000#32 (fun _ => 0#32) fun i => versionCall.regs.read i) =
    .answer success specVersion := by decide
  obtain ⟨m', bound, hret, hres⟩ | ⟨⟨type, reason, hreset⟩, -⟩ :=
    (sbi_call_frame bootParams 0#32 idleUart hdrain 0x00100000#32 (fun _ => 0#32) versionCall rfl
      ⟨fun _ => 0#32, fun _ => 0#8⟩).2 (by decide)
  · refine ⟨m', bound, hret, hres.priv, hres.pc, (hres.regs 12#5 ?_).trans (by decide)⟩
    rw [hcall]
    rintro (h | h) <;> exact absurd h (by decide)
  · rw [hcall] at hreset
    cases hreset

end RiscvScratch.Sbi
