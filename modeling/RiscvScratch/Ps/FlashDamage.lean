import RiscvScratch.Crc.Burst
import RiscvScratch.Image.Hunt
import RiscvScratch.Ps.FlashServer

/-! Uploads to the flash server with a burst of wrong bits in the data. -/
namespace RiscvScratch.Ps

open ByteMem Rvbi

theorem crc32Update_ne_of_burst {x y : List (BitVec 8)} (h : Crc.Burst 32 x y) :
    crc32Update 0#32 x ≠ crc32Update 0#32 y := by
  rw [crc32Update_eq, crc32Update_eq, crc32, crc32, foldl_crc32Byte, foldl_crc32Byte]
  intro heq
  exact Crc.run_ne_of_burst (by decide) (by decide) _ h (BitVec.not_inj.mp heq)

/-- The upload `q` comes, with a burst of at most 32 bits in its data. -/
def Damaged (q : Request) (line : List (BitVec 8)) : Prop :=
  crc32Update 0#32 q.data = q.crc ∧ ∃ data rest, Crc.Burst 32 q.data data ∧
    data.length = q.n.toNat ∧ line = le32 q.n ++ (le32 q.crc ++ (data ++ rest))

theorem Damaged.not_requested {q q' : Request} {s : Board} (h : Damaged q s.line) :
    ¬Requested s q' := by
  rintro ⟨hgood, hpre⟩
  obtain ⟨hcrc, data, rest, hburst, hlen, hline⟩ := h
  obtain ⟨t, ht⟩ := hpre
  rw [hline, Request.bytes, List.append_assoc, List.append_assoc] at ht
  obtain ⟨hn, ht⟩ := List.append_inj ht rfl
  obtain ⟨hc, ht⟩ := List.append_inj ht rfl
  have hlen' : q'.data.length = data.length := by
    rw [hgood.length, hlen, le32_injective hn]
  obtain ⟨hdata, -⟩ := List.append_inj ht hlen'
  apply crc32Update_ne_of_burst hburst
  rw [hcrc, ← le32_injective hc, ← hgood.crc, hdata]

/-- No burst of at most 32 bits gets an upload into the flash. -/
theorem damaged_never_written (s : Board) (k : ℕ) (q : Request) (x : Pass)
    (hx : x ∈ serve k 0 s) (h : Damaged q x.start.line) :
    x.stop.dev.flash.mem = x.start.dev.flash.mem ∧ ∀ n, x.answer ≠ some (.done n) := by
  obtain ⟨-, hmem, hdone⟩ := serve_justified k 0 s x hx
  constructor
  · by_contra hne
    obtain ⟨q', hq'⟩ := hmem hne
    exact h.not_requested hq'
  · intro n hn
    obtain ⟨q', hq', -⟩ := hdone n hn
    exact h.not_requested hq'

/-- What is left of the magic leads into `serve_flash`, with what follows it to read. -/
theorem serve_magic {c : BitVec 8} {p q rest : List (BitVec 8)} (hp : flashMagic = p ++ c :: q)
    {s : Board} (hs : s.line = c :: (q ++ rest)) :
    ∃ x, (serve (q.length + 1) p.length s)[q.length]? = some x ∧
      x.start = { s with line := rest } := by
  induction q generalizing c p s with
  | nil =>
    have hadv : Matcher.advance flashMagic p.length c = flashMagic.length := by
      simp [Matcher.advance, hp]
    simp only [serve, hs, List.nil_append, hadv, if_true]
    cases serveFlash { s with line := rest } with
    | ok a s' => exact ⟨_, rfl, rfl⟩
    | error e s' => exact ⟨_, rfl, rfl⟩
  | cons d q ih =>
    have hadv : Matcher.advance flashMagic p.length c = (p ++ [c]).length := by
      simp [Matcher.advance, hp]
    have hne : (p ++ [c]).length ≠ flashMagic.length := by simp [hp]
    obtain ⟨x, hx, hstart⟩ := ih (p := p ++ [c]) (s := { s with line := d :: (q ++ rest) })
      (by simpa using hp) rfl
    refine ⟨x, ?_, hstart⟩
    rw [serve]
    simp only [hs, List.cons_append, hadv, if_neg hne]
    exact hx

/-- Four bytes of ones clear the register, which zeros then leave alone. -/
theorem crc32Update_idle (n : ℕ) (l : List (BitVec 8)) :
    crc32Update 0#32 (List.replicate 4 0xff#8 ++ (List.replicate n 0#8 ++ l)) =
      crc32Update 0xffffffff#32 l := by
  have hones : crc32 0#32 (List.replicate 4 0xff#8) = 0xffffffff#32 := by decide +kernel
  have hzero : crc32 0xffffffff#32 [0#8] = 0xffffffff#32 := by decide +kernel
  have hzeros : crc32 0xffffffff#32 (List.replicate n 0#8) = 0xffffffff#32 := by
    induction n with
    | zero => rfl
    | succ n ih => rw [List.replicate_succ, ← List.singleton_append, ← crc32_append, hzero, ih]
  rw [crc32Update_eq, crc32Update_eq, ← crc32_append, hones, ← crc32_append, hzeros]

/-- The shortest upload whose length passes: ones, then zeros. -/
def shortest : Request :=
  ⟨0xa0#32, 0xffffffff#32, List.replicate 4 0xff#8 ++ (List.replicate 155 0#8 ++ [0#8])⟩

/-- `shortest` behind its magic, with one bit of the last byte wrong. -/
def noisyBoard : Board where
  dev := ⟨⟨fun _ => 0xff#8, false, 0, false, false, 0, 0#8, 0#32, 0, fun _ => 0xff#8⟩,
    0#32, 0#32, 0#32, 0#32, [], []⟩
  timedOut := false
  line := flashMagic ++ (le32 0xa0#32 ++ (le32 0xffffffff#32 ++
    (List.replicate 4 0xff#8 ++ (List.replicate 155 0#8 ++ [1#8]) ++ [])))
  out := []

theorem noisyBoard_unwritten : ∃ x, (serve 8 0 noisyBoard)[7]? = some x ∧
    ¬(shortest.n.toNat < 0xa0 ∨ shortest.n.toNat > qspiFlashBytes) ∧
    x.stop.dev.flash.mem = x.start.dev.flash.mem ∧ ∀ n, x.answer ≠ some (.done n) := by
  obtain ⟨x, hx, hstart⟩ := serve_magic (p := []) (q := flashMagic.tail) rfl
    (s := noisyBoard) rfl
  have hcrc : crc32Update 0#32 shortest.data = shortest.crc :=
    (crc32Update_idle 155 [0#8]).trans (by decide +kernel)
  have hbits : ∀ b, Crc.bits (List.replicate 4 0xff#8 ++ (List.replicate 155 0#8 ++ [b])) =
      Crc.bits (List.replicate 4 0xff#8 ++ List.replicate 155 0#8) ++ Crc.bits [b] ++ [] := by
    intro b
    rw [← List.append_assoc, List.append_nil, Crc.bits, List.flatMap_append]
    rfl
  have hburst : Crc.Burst 32 shortest.data
      (List.replicate 4 0xff#8 ++ (List.replicate 155 0#8 ++ [1#8])) :=
    ⟨_, _, _, _, hbits 0#8, hbits 1#8, by decide, by decide, by decide⟩
  exact ⟨x, hx, by decide, damaged_never_written noisyBoard 8 shortest x (List.mem_of_getElem? hx)
    ⟨hcrc, _, [], hburst, by simp [shortest], congrArg Board.line hstart⟩⟩

end RiscvScratch.Ps
