import RiscvScratch.Memory.Bytes
import RiscvScratch.Program.Trace

/-! The serial bootloader of the Spartan-6 SoC (boot.c), with the UART calls of bsp.c it makes. The
line is the list of the bytes `uart_getc` will return; where it ends the loader waits. The loader
runs from the RAM it writes to, so a store may change the loader itself, and so may the application,
which may write anywhere and take bytes from the line. Waiting for room to transmit and the CSR
writes before the jump change nothing modelled. -/
namespace RiscvScratch.S6Boot

open ByteMem

/-- What the loader does, in order. `header` stands where both words of a header have been read. -/
inductive Event where
  | got (b : BitVec 8)
  | put (c : BitVec 8)
  | header (entry len : BitVec 32)
  | store (a : BitVec 32) (b : BitVec 8)
  | jump (entry : BitVec 32)
  deriving DecidableEq, Repr

/-- `trace` is history. -/
structure Machine where
  line : List (BitVec 8)
  mem : Mem
  trace : List Event

inductive Stop where
  /-- The line is quiet and `uart_getc` waits. -/
  | waiting
  /-- The application does not return. -/
  | running
  /-- The loader is not in memory as it was: what runs from here on is not boot.c. -/
  | overwritten
  deriving DecidableEq, Repr

abbrev Boot := EStateM Stop Machine

/-- What an application does: `none` if it never returns, otherwise the memory it leaves and how
many bytes it took from the line. -/
abbrev App := BitVec 32 → Mem → List (BitVec 8) → Option (Mem × ℕ)

/-- The RAM, where the loader lies in it, and the application it may be sent. -/
structure Setup where
  app : App
  /-- What `SYS_MEM_WORDS` reads. -/
  memWords : BitVec 32
  /-- `_end` of link.ld: the loader's code and data are below. -/
  imageEnd : ℕ
  /-- The loader's frames are from here to the top of RAM. -/
  frame : ℕ

namespace Setup
variable (u : Setup)

def ramBytes : BitVec 32 := u.memWords * 4#32

/-- The byte at `k` belongs to the loader. -/
def Own (k : ℕ) : Prop := k < u.imageEnd ∨ u.frame ≤ k ∧ k < u.ramBytes.toNat

instance (k : ℕ) : Decidable (u.Own k) := inferInstanceAs (Decidable (_ ∨ _))

/-- The loader is in `m'` as it was in `m`. -/
def Intact (m m' : Mem) : Prop :=
  ∀ k < u.ramBytes.toNat, u.Own k → m' (BitVec.ofNat 32 k) = m (BitVec.ofNat 32 k)

instance (m m' : Mem) : Decidable (u.Intact m m') := inferInstanceAs (Decidable (∀ _ < _, _))

/-- An application that returns leaves the loader as it found it. -/
def AppKeeps : Prop :=
  ∀ entry m line m' n, u.app entry m line = some (m', n) → u.Intact m m'

end Setup

variable (u : Setup)

def record (e : Event) : Boot PUnit := modify fun s => { s with trace := s.trace ++ [e] }

def uartGetc : Boot (BitVec 8) := do
  match (← get).line with
  | [] => throw .waiting
  | b :: rest =>
    modify fun s => { s with line := rest, trace := s.trace ++ [.got b] }
    pure b

def uartPutc (c : BitVec 8) : Boot PUnit := record (.put c)

/-- A character constant of the source. -/
def ch (c : Char) : BitVec 8 := BitVec.ofNat 8 c.toNat

def uartPuts : List Char → Boot PUnit
  | [] => pure ()
  | c :: cs => do
    if c = '\n' then
      uartPutc (ch '\r')
    uartPutc (ch c)
    uartPuts cs

def getU32 : Boot (BitVec 32) := do
  let mut v := 0#32
  v := v ||| (← uartGetc).setWidth 32 <<< 0
  v := v ||| (← uartGetc).setWidth 32 <<< 8
  v := v ||| (← uartGetc).setWidth 32 <<< 16
  v := v ||| (← uartGetc).setWidth 32 <<< 24
  pure v

def store (a : BitVec 32) (b : BitVec 8) : Boot PUnit := do
  let s ← get
  modify fun s => { s with mem := Function.update s.mem a b, trace := s.trace ++ [.store a b] }
  if u.Own a.toNat ∧ s.mem a ≠ b then throw .overwritten

/-- The download loop from `dst[i]` on, with `n` bytes to go; the result is `got`. -/
def download (dst : BitVec 32) : ℕ → BitVec 32 → BitVec 32 → Boot (BitVec 32)
  | 0, _, got => pure got
  | n + 1, i, got => do
    let b ← uartGetc
    store u (dst + i) b
    download dst n (i + 1#32) (got + b.setWidth 32)

def bootStackHeadroom : BitVec 32 := 1024#32

def accepts (ramBytes entry len : BitVec 32) : Bool :=
  !(entry.ult 0x100#32 || (ramBytes - bootStackHeadroom).ult (entry + len))

def callApp (entry : BitVec 32) : Boot PUnit := do
  record (.jump entry)
  let s ← get
  match u.app entry s.mem s.line with
  | none => throw .running
  | some (mem, n) =>
    modify fun s => { s with mem := mem, line := s.line.drop n }
    if ¬u.Intact s.mem mem then throw .overwritten

def banner : List Char := "\ns6boot: waiting for an image (S6LD)\n".toList
def returned : List Char := "\ns6boot: application returned\n".toList

def receive (entry len : BitVec 32) : Boot PUnit := do
  if !accepts u.ramBytes entry len then
    uartPutc (ch 'B')
  else
    let got ← download u entry len.toNat 0#32 0#32
    let want ← getU32
    if got ≠ want then
      uartPutc (ch 'E')
    else
      uartPutc (ch 'K')
      callApp u entry
      uartPuts returned

def pass : Boot PUnit := do
  if (← uartGetc) ≠ ch 'S' then return
  if (← uartGetc) ≠ ch '6' then return
  if (← uartGetc) ≠ ch 'L' then return
  if (← uartGetc) ≠ ch 'D' then return
  uartPutc (ch 'R')
  let len ← getU32
  let entry ← getU32
  record (.header entry len)
  receive u entry len

def passes : ℕ → Boot PUnit
  | 0 => pure ()
  | n + 1 => do
    pass u
    passes n

/-- `main`, for `n` passes of its endless loop. -/
def main (n : ℕ) : Boot PUnit := do
  uartPuts banner
  passes u n

def final {α : Type} (c : Boot α) (s : Machine) : Machine :=
  match c s with
  | .ok _ s' => s'
  | .error _ s' => s'

/-! ### The passes end with the line

Every pass takes a byte, so more passes than bytes are as good as the endless loop. -/

open Program

/-- The loader has stored on itself, or may be overwritten by its application. -/
def Setup.Lost (s : Machine) : Prop :=
  (∃ a b, .store a b ∈ s.trace ∧ u.Own a.toNat) ∨ ¬u.AppKeeps

/-- A program that takes at least `k` bytes when it returns; one that overwrites the loader does so
in one of the two ways. -/
structure Takes {α : Type} (k : ℕ) (c : Boot α) : Prop where
  wp : ∀ s, Wp c (fun _ s' => s'.line.length + k ≤ s.line.length)
    (fun e s' => e = .overwritten → u.Lost s') s

variable {u} {α : Type} {k : ℕ} {c : Boot α}

theorem Takes.bind {β : Type} {j : ℕ} {f : α → Boot β} (hc : Takes u j c)
    (hf : ∀ a, Takes u k (f a)) : Takes u (j + k) (c >>= f) := by
  constructor
  intro s
  refine (hc.wp s).bind ?_ fun _ _ h => h
  intro a s₁ h₁
  refine ((hf a).wp s₁).imp ?_ fun _ _ h => h
  intro b s₂ h₂
  omega

theorem Takes.mono {j : ℕ} (hc : Takes u j c) (h : k ≤ j) : Takes u k c := by
  constructor
  intro s
  refine (hc.wp s).imp ?_ fun _ _ h => h
  intro a s' hs
  omega

theorem Takes.stops {s : Machine} (hc : Takes u k c)
    (hk : s.line.length < k) : ∃ e s', c s = .error e s' := by
  have hstop : Wp c (fun _ _ => False) (fun _ _ => True) s :=
    (hc.wp s).imp (by intro _ _ _; omega) fun _ _ _ => trivial
  obtain ⟨e, s', hs, -⟩ := hstop.stops
  exact ⟨e, s', hs⟩

theorem Takes.ite {p : Prop} [Decidable p] {d : Boot α} (hc : Takes u k c)
    (hd : Takes u k d) : Takes u k (if p then c else d) := by
  by_cases h : p
  · rwa [if_pos h]
  · rwa [if_neg h]

theorem takes_pure (a : α) : Takes u 0 (pure a : Boot α) := ⟨fun _ => Nat.le_refl _⟩

theorem takes_record (e : Event) : Takes u 0 (record e) := ⟨fun _ => Nat.le_refl _⟩

theorem takes_uartGetc : Takes u 1 uartGetc := by
  constructor
  rintro ⟨line, mem, trace⟩
  cases line with
  | nil =>
    intro h
    cases h
  | cons b rest => exact Nat.le_refl _

theorem takes_uartPuts (cs : List Char) : Takes u 0 (uartPuts cs) := by
  induction cs with
  | nil => exact takes_pure _
  | cons c cs ih =>
    have hrest := (takes_record (u := u) (.put (ch c))).bind fun _ => ih
    rw [uartPuts]
    exact Takes.ite ((takes_record _).bind fun _ => hrest) hrest

theorem takes_getU32 : Takes u 4 getU32 :=
  takes_uartGetc.bind fun _ => takes_uartGetc.bind fun _ => takes_uartGetc.bind fun _ =>
    takes_uartGetc.bind fun _ => takes_pure _

variable (u)

theorem store_eq (a : BitVec 32) (b : BitVec 8) (s : Machine) :
    store u a b s = (if u.Own a.toNat ∧ s.mem a ≠ b then throw .overwritten else pure ⟨⟩ :
      Boot PUnit) { s with mem := Function.update s.mem a b, trace := s.trace ++ [.store a b] } :=
  rfl

theorem takes_store (a : BitVec 32) (b : BitVec 8) : Takes u 0 (store u a b) := by
  constructor
  intro s
  unfold Wp
  rw [store_eq]
  refine Wp.ite (fun h => wp_throw.mpr fun _ => ?_) fun _ => wp_pure.mpr le_rfl
  exact Or.inl ⟨a, b, List.mem_append_right _ List.mem_cons_self, h.1⟩

theorem takes_download (dst : BitVec 32) (n : ℕ) (i got : BitVec 32) :
    Takes u 0 (download u dst n i got) := by
  induction n generalizing i got with
  | zero => exact takes_pure _
  | succ n ih =>
    exact (takes_uartGetc.bind fun b => (takes_store u (dst + i) b).bind fun _ => ih _ _).mono
      (Nat.zero_le _)

/-- An application does not return, or does and the loader goes on if it is still there. -/
theorem callApp_cases (entry : BitVec 32) (s : Machine) :
    callApp u entry s = .error .running { s with trace := s.trace ++ [.jump entry] } ∨
      ∃ m n, u.app entry s.mem s.line = some (m, n) ∧
        callApp u entry s = (if ¬u.Intact s.mem m then throw .overwritten else pure ⟨⟩ :
          Boot PUnit)
          { s with trace := s.trace ++ [.jump entry], mem := m, line := s.line.drop n } := by
  have heq : callApp u entry s = (match u.app entry s.mem s.line with
      | none => throw .running
      | some (m, n) => do
        modify fun s => { s with mem := m, line := s.line.drop n }
        if ¬u.Intact s.mem m then throw .overwritten : Boot PUnit)
      { s with trace := s.trace ++ [.jump entry] } := rfl
  rw [heq]
  cases u.app entry s.mem s.line with
  | none => exact Or.inl rfl
  | some r => exact Or.inr ⟨r.1, r.2, rfl, rfl⟩

theorem takes_callApp (entry : BitVec 32) : Takes u 0 (callApp u entry) := by
  constructor
  intro s
  unfold Wp
  rcases callApp_cases u entry s with h | ⟨m, n, happ, h⟩
  · rw [h]
    intro h'
    cases h'
  · rw [h]
    refine Wp.ite (fun hne => wp_throw.mpr fun _ => Or.inr fun hk => hne ?_) fun _ =>
      wp_pure.mpr ?_
    · exact hk entry s.mem s.line m n happ
    · rw [List.length_drop]
      exact Nat.sub_le _ _

theorem takes_receive (entry len : BitVec 32) : Takes u 0 (receive u entry len) := by
  apply Takes.ite (takes_record _)
  refine ((takes_download u entry len.toNat 0#32 0#32).bind fun got => takes_getU32.bind fun want =>
    Takes.ite (takes_record _) ?_).mono (Nat.zero_le _)
  exact (takes_record _).bind fun _ => (takes_callApp u entry).bind fun _ =>
    takes_uartPuts returned

theorem takes_pass : Takes u 1 (pass u) := by
  have hexpect : ∀ {c : BitVec 8} {d : Boot PUnit}, Takes u 0 d →
      Takes u 1 (uartGetc >>= fun b => if b ≠ c then pure ⟨⟩ else d) := fun hd =>
    takes_uartGetc.bind fun _ => Takes.ite (takes_pure _) hd
  refine hexpect ((hexpect ((hexpect ((hexpect ?_).mono (Nat.zero_le _))).mono
    (Nat.zero_le _))).mono (Nat.zero_le _))
  exact ((takes_record _).bind fun _ => takes_getU32.bind fun len => takes_getU32.bind fun entry =>
    (takes_record _).bind fun _ => takes_receive u entry len).mono (Nat.zero_le _)

theorem takes_passes (n : ℕ) : Takes u n (passes u n) := by
  induction n with
  | zero => exact takes_pure _
  | succ n ih => exact ((takes_pass u).bind fun _ => ih).mono (by omega)

theorem takes_main (n : ℕ) : Takes u n (main u n) := by
  unfold main
  generalize banner = cs
  exact ((takes_uartPuts cs).bind fun _ => takes_passes u n).mono (by omega)

/-- More passes than bytes on the line are enough: the loader ends, waiting or jumping. -/
theorem main_stops {n : ℕ} {s : Machine} (hn : s.line.length < n) :
    ∃ e s', main u n s = .error e s' := (takes_main u n).stops hn

end RiscvScratch.S6Boot
