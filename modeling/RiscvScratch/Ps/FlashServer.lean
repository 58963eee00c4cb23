import RiscvScratch.Program.Matcher
import RiscvScratch.Ps.Qspi
import RiscvScratch.Spartan6.Boot

/-! The PS's flash server: `main`'s loop once the RISC-V is released, without the report that it has
powered off, and `serve_flash` (main.c). -/
namespace RiscvScratch.Ps

open ByteMem Rvbi
open S6Boot (ch)

def getc : Prog (BitVec 8) := do
  match (← get).line with
  | [] => throw .waiting
  | b :: rest =>
    modify fun s => { s with line := rest }
    return b

def get32 : Prog (BitVec 32) := do
  let mut v := 0#32
  v := v ||| (← getc).setWidth 32 <<< 0
  v := v ||| (← getc).setWidth 32 <<< 8
  v := v ||| (← getc).setWidth 32 <<< 16
  v := v ||| (← getc).setWidth 32 <<< 24
  return v

def receive : ℕ → Prog (List (BitVec 8))
  | 0 => return []
  | n + 1 => do
    let b ← getc
    return b :: (← receive n)

/-- How `serve_flash` ends. -/
inductive Answer
  | lengthOutOfRange
  | badCrc (got crc : BitVec 32)
  | notBootbin (why : Refusal)
  | failed (why : Why)
  | done (n : BitVec 32)

def Answer.text : Answer → List Out
  | .lengthOutOfRange => [.text "flash: refused: length out of range\n"]
  | .badCrc got crc =>
    [.text "flash: FAILED: CRC-32 0x", .hex got, .text ", sent 0x", .hex crc,
      .text ": bytes lost on the way, nothing written\n"]
  | .notBootbin why =>
    [.text "flash: FAILED: not riscv_linux's BOOT.BIN: ", .text why.why,
      .text ". Nothing written\n"]
  | .failed why => [.text "flash: FAILED: ", .text why.text, .text "\n"]
  | .done n =>
    [.text "flash: done, ", .dec n, .text (" bytes written and read back. " ++
      "Set the boot mode to QSPI and power-cycle.\n")]

def answer (a : Answer) : Prog Answer := do
  say a.text
  return a

def flashProgress (done n : ℕ) : Prog PUnit :=
  if done = n ∨ done % 0x100000 = 0 then
    say [.text "flash: ", .dec (BitVec.ofNat 32 (done >>> 10)), .text " of ",
      .dec (BitVec.ofNat 32 (n >>> 10)), .text " KiB\n"]
  else pure ()

def sayFlash (b : Bootbin) : Prog PUnit :=
  say [.text " bitstream ", .dec (4#32 * b.bitWords), .text " bytes, RISC-V image ",
    .dec b.imgBytes, .text " bytes"]

/-- `serve_flash` once the bytes are there and their CRC is right. -/
def serveChecked (n : BitVec 32) (img : List (BitVec 8)) : Prog Answer := do
  match bootbinParse img with
  | .error _ => throw .outside
  | .ok (.error why) => answer (.notBootbin why)
  | .ok (.ok b) =>
    say [.text "flash: CRC ok, BOOT.BIN:"]
    sayFlash b
    say [.text "\n", .text "flash: JEDEC ID 0x"]
    let id ← qspiJedecId
    say [.hex id, .text "; erasing and writing\n"]
    match ← qspiWrite (img.getD · 0#8) n.toNat flashProgress with
    | some why => answer (.failed why)
    | none => answer (.done n)

def serveFlash : Prog Answer := do
  let n ← get32
  let crc ← get32
  if n.toNat < 0xa0 ∨ n.toNat > qspiFlashBytes then
    answer .lengthOutOfRange
  else
    say [.text "flash: receiving ", .dec n, .text " bytes\n"]
    let img ← receive n.toNat
    let got := crc32Update 0#32 img
    if got ≠ crc then answer (.badCrc got crc) else serveChecked n img

def flashMagic : List (BitVec 8) := "RVFLASH1".toList.map ch

/-- A pass of the loop that reads a byte; where `entered`, `serve_flash` leads to `stop`. -/
structure Pass where
  byte : BitVec 8
  entered : Bool
  answer : Option Answer
  start : Board
  stop : Board

/-- The passes of `main`'s loop, `k` at most, until no byte comes. -/
def serve : ℕ → ℕ → Board → List Pass
  | 0, _, _ => []
  | k + 1, matched, s =>
    match s.line with
    | [] => []
    | c :: line =>
      let s := { s with line := line }
      let matched := Matcher.advance flashMagic matched c
      if matched = flashMagic.length then
        match serveFlash s with
        | .ok a s' => ⟨c, true, some a, s, s'⟩ :: serve k 0 s'
        | .error _ s' => [⟨c, true, none, s, s'⟩]
      else ⟨c, false, none, s, s⟩ :: serve k matched s

structure Request where
  n : BitVec 32
  crc : BitVec 32
  data : List (BitVec 8)

def Request.bytes (q : Request) : List (BitVec 8) := le32 q.n ++ (le32 q.crc ++ q.data)

/-- The length is in range, the data have the CRC announced, and they are a BOOT.BIN. -/
structure Request.Good (q : Request) : Prop where
  least : 0xa0 ≤ q.n.toNat
  most : q.n.toNat ≤ qspiFlashBytes
  length : q.data.length = q.n.toNat
  crc : crc32Update 0#32 q.data = q.crc
  bootbin : ∃ b, bootbinParse q.data = .ok (.ok b)

def Requested (s : Board) (q : Request) : Prop := q.Good ∧ q.bytes <+: s.line

open Program

section proofs
variable {s : Board}

/-- The bytes `l`, read off the line. -/
def Reads (s : Board) (l : List (BitVec 8)) (s' : Board) : Prop :=
  s.line = l ++ s'.line ∧ s'.dev = s.dev

theorem Reads.trans {s' s'' : Board} {l l' : List (BitVec 8)} (h : Reads s l s')
    (h' : Reads s' l' s'') : Reads s (l ++ l') s'' :=
  ⟨by rw [h.1, h'.1, List.append_assoc], h'.2.trans h.2⟩

theorem getc_reads (s : Board) :
    Wp getc (fun b s' => Reads s [b] s') (fun _ s' => s'.dev = s.dev) s := by
  unfold getc
  refine wp_bind.mpr (wp_get.mpr ?_)
  split
  · exact wp_throw.mpr rfl
  · next b rest hl => exact wp_bind.mpr (wp_modify.mpr (wp_pure.mpr ⟨hl, rfl⟩))

theorem get32_reads (s : Board) :
    Wp get32 (fun v s' => Reads s (le32 v) s') (fun _ s' => s'.dev = s.dev) s := by
  unfold get32
  refine (getc_reads s).bind (fun b₀ s₀ h₀ => ?_) fun _ _ h => h
  refine (getc_reads s₀).bind (fun b₁ s₁ h₁ => ?_) fun _ _ h => h.trans h₀.2
  refine (getc_reads s₁).bind (fun b₂ s₂ h₂ => ?_) fun _ _ h => h.trans (h₀.trans h₁).2
  refine (getc_reads s₂).bind (fun b₃ s₃ h₃ => ?_) fun _ _ h => h.trans ((h₀.trans h₁).trans h₂).2
  refine wp_pure.mpr ?_
  rw [show le32 _ = [b₀, b₁, b₂, b₃] from le32_or b₀ b₁ b₂ b₃]
  exact ((h₀.trans h₁).trans h₂).trans h₃

theorem receive_reads (n : ℕ) (s : Board) :
    Wp (receive n) (fun l s' => Reads s l s' ∧ l.length = n) (fun _ s' => s'.dev = s.dev) s := by
  induction n generalizing s with
  | zero => exact wp_pure.mpr ⟨⟨rfl, rfl⟩, rfl⟩
  | succ n ih =>
    refine (getc_reads s).bind (fun b s₁ h₁ => ?_) fun _ _ h => h
    refine (ih s₁).bind (fun l s₂ h₂ => wp_pure.mpr ⟨h₁.trans h₂.1, ?_⟩) fun _ _ h => h.trans h₁.2
    rw [List.length_cons, h₂.2]

theorem wp_any {α : Type} {c : Prog α} : Wp c (fun _ _ => True) (fun _ _ => True) s := by
  unfold Wp
  split <;> trivial

theorem word_inj {f g : ℕ → BitVec 8} {a : ℕ} (h : word f a = word g a) {j : ℕ} (hj : j < 4) :
    f (a + j) = g (a + j) := by
  have hle := congrArg le32 h
  rw [word, word, le32_bytes, le32_bytes] at hle
  simp only [List.cons.injEq, and_true] at hle
  obtain ⟨h0, h1, h2, h3⟩ := hle
  interval_cases j <;> assumption

theorem readsBack_eq {f src : ℕ → BitVec 8} {n : ℕ} (h : readsBack f src n = true) {i : ℕ}
    (hi : i < n) : f i = src i := by
  unfold readsBack at h
  simp only [Bool.and_eq_true, List.all_eq_true, List.mem_range, beq_iff_eq] at h
  obtain ⟨hwords, hbytes⟩ := h
  by_cases hw : i / 4 < n / 4
  · have := word_inj (hwords (i / 4) hw) (Nat.mod_lt i (by decide))
    rwa [Nat.div_add_mod] at this
  · have := hbytes (i - n / 4 * 4) (by omega)
    rwa [show n / 4 * 4 + (i - n / 4 * 4) = i by omega] at this

theorem qspiWrite_readBack (src : ℕ → BitVec 8) (n : ℕ) (progress : ℕ → ℕ → Prog PUnit) :
    Wp (qspiWrite src n progress)
      (fun r s' => r = none → ∀ i < n, s'.dev.flash.mem i = src i) (fun _ _ => True) s := by
  unfold qspiWrite
  refine Wp.ite (fun _ => wp_pure.mpr nofun) fun _ => ?_
  refine wp_bind.mpr (wp_modify.mpr (wp_any.bind (fun _ _ _ => ?_) fun _ _ h => h))
  refine wp_any.bind (fun r _ _ => ?_) fun _ _ h => h
  cases r with
  | some why => exact wp_any.bind (fun _ _ _ => wp_any.bind (fun _ _ _ => wp_pure.mpr nofun)
      fun _ _ h => h) fun _ _ h => h
  | none =>
    refine wp_any.bind (fun _ s' _ => wp_bind.mpr (wp_get.mpr ?_)) fun _ _ h => h
    refine Wp.ite (fun hb => wp_pure.mpr fun _ i hi => readsBack_eq hb hi) fun _ => ?_
    exact wp_pure.mpr nofun

/-- A change of the flash, or the answer that it is done, has a good request behind it. -/
def Justified (s : Board) (a : Option Answer) (s' : Board) : Prop :=
  (s'.dev.flash.mem ≠ s.dev.flash.mem → ∃ q, Requested s q) ∧
    ∀ n, a = some (.done n) → ∃ q, Requested s q ∧ q.n = n ∧
      ∀ i < n.toNat, s'.dev.flash.mem i = q.data.getD i 0#8

theorem Justified.same {s' : Board} (h : s'.dev = s.dev) {a : Option Answer}
    (ha : ∀ n, a ≠ some (.done n)) : Justified s a s' :=
  ⟨fun hne => absurd (congrArg (·.flash.mem) h) hne, fun n hn => absurd hn (ha n)⟩

theorem serveChecked_justified {s₀ : Board} {q : Request} (hs : s.dev = s₀.dev)
    (hq : (∃ b, bootbinParse q.data = .ok (.ok b)) → Requested s₀ q) :
    Wp (serveChecked q.n q.data) (fun a s' => Justified s₀ (some a) s')
      (fun _ s' => Justified s₀ none s') s := by
  unfold serveChecked
  split
  · exact wp_throw.mpr (.same hs nofun)
  · exact wp_bind.mpr (wp_modify.mpr (wp_pure.mpr (.same hs nofun)))
  · next b hb =>
    have hreq := hq ⟨b, hb⟩
    have hstop {α : Type} {s : Board} {c : Prog α} {Q : α → Board → Prop}
        (h : Wp c Q (fun _ _ => True) s) : Wp c Q (fun _ s' => Justified s₀ none s') s :=
      h.imp (fun _ _ h => h) fun _ _ _ => ⟨fun _ => ⟨q, hreq⟩, nofun⟩
    refine hstop ?_
    iterate 5 refine wp_any.bind (fun _ _ _ => ?_) fun _ _ h => h
    refine (qspiWrite_readBack _ _ _).bind (fun r s' hr => ?_) fun _ _ h => h
    cases r with
    | some why =>
      exact wp_bind.mpr (wp_modify.mpr (wp_pure.mpr ⟨fun _ => ⟨q, hreq⟩, nofun⟩))
    | none =>
      refine wp_bind.mpr (wp_modify.mpr (wp_pure.mpr ⟨fun _ => ⟨q, hreq⟩, fun n hn => ?_⟩))
      cases hn
      exact ⟨q, hreq, rfl, hr rfl⟩

theorem serveFlash_justified (s : Board) :
    Wp serveFlash (fun a s' => Justified s (some a) s') (fun _ s' => Justified s none s') s := by
  unfold serveFlash
  refine (get32_reads s).bind (fun n s₁ h₁ => ?_) fun _ _ h => .same h nofun
  refine (get32_reads s₁).bind (fun crc s₂ h₂ => ?_) fun _ _ h => .same (h.trans h₁.2) nofun
  have h := h₁.trans h₂
  refine Wp.ite (fun _ => ?_) fun hlen => ?_
  · exact wp_bind.mpr (wp_modify.mpr (wp_pure.mpr (.same h.2 nofun)))
  refine wp_bind.mpr (wp_modify.mpr ?_)
  refine (receive_reads _ _).bind (fun img s₃ h₃ => ?_) fun _ _ he => .same (he.trans h.2) nofun
  have hdev : s₃.dev = s.dev := h₃.1.2.trans h.2
  refine Wp.ite (fun _ => ?_) fun hcrc => ?_
  · exact wp_bind.mpr (wp_modify.mpr (wp_pure.mpr (.same hdev nofun)))
  obtain ⟨hmin, hmax⟩ := not_or.mp hlen
  refine serveChecked_justified (q := ⟨n, crc, img⟩) hdev fun hb =>
    ⟨⟨not_lt.mp hmin, not_lt.mp hmax, h₃.2, not_not.mp hcrc, hb⟩, ?_⟩
  · refine ⟨s₃.line, ?_⟩
    rw [h.1, h₃.1.1, Request.bytes, List.append_assoc, List.append_assoc, List.append_assoc]

end proofs

/-- Each pass takes its byte off the line; `serve_flash` is entered exactly where the bytes since
the last request, `seg` before the passes, first end with the magic. -/
def Scanned : Board → List (BitVec 8) → List Pass → Prop
  | _, _, [] => True
  | s, seg, x :: xs => { x.start with line := x.byte :: x.start.line } = s ∧
      (x.entered = true ↔ flashMagic <:+ seg ++ [x.byte]) ∧
      Scanned x.stop (if x.entered then [] else seg ++ [x.byte]) xs

theorem serve_justified (k matched : ℕ) (s : Board) : ∀ x ∈ serve k matched s,
    (x.entered = false → x.stop = x.start) ∧ Justified x.start x.answer x.stop := by
  induction k generalizing matched s with
  | zero => exact List.forall_mem_nil _
  | succ k ih =>
    unfold serve
    split
    · exact List.forall_mem_nil _
    · next c line _ =>
      dsimp only
      have hserve := serveFlash_justified { s with line := line }
      unfold Wp at hserve
      split_ifs
      · split
        · next a s' hrun =>
          rw [hrun] at hserve
          exact List.forall_mem_cons.mpr ⟨⟨nofun, hserve⟩, ih _ _⟩
        · next e s' hrun =>
          rw [hrun] at hserve
          exact List.forall_mem_singleton.mpr ⟨nofun, hserve⟩
      · exact List.forall_mem_cons.mpr ⟨⟨fun _ => rfl, .same rfl nofun⟩, ih _ _⟩

end RiscvScratch.Ps
