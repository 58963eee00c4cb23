import RiscvScratch.Crossing.Gray

/-! The pointers of a queue between two clock domains. Each side judges the queue by a copy of the
other pointer that passed two flops. -/
namespace Crossing

theorem ofNat_inj {w a b : ℕ} (h : a ≤ b) (hb : b < a + 2 ^ w) :
    BitVec.ofNat w a = BitVec.ofNat w b ↔ a = b := by
  constructor
  · intro he
    have hmod : a % 2 ^ w = b % 2 ^ w := by
      simpa only [BitVec.toNat_ofNat] using congrArg BitVec.toNat he
    have hzero : (b - a) % 2 ^ w = 0 := Nat.sub_mod_eq_zero_of_mod_eq hmod.symm
    rw [Nat.mod_eq_of_lt (by omega)] at hzero
    omega
  · intro he
    rw [he]

theorem sampled_count {w a b : ℕ} {v : BitVec w} (hab : a ≤ b) (hb : b ≤ a + 1)
    (h : Gray.Sampled (Gray.gray (BitVec.ofNat w a)) (Gray.gray (BitVec.ofNat w b)) v) :
    ∃ k, a ≤ k ∧ k ≤ b ∧ v = Gray.gray (BitVec.ofNat w k) := by
  rcases Nat.lt_or_ge a b with hlt | hge
  · obtain rfl : b = a + 1 := by omega
    rw [BitVec.ofNat_add] at h
    rcases h.gray_add_one with hv | hv
    · exact ⟨a, le_rfl, hab, hv⟩
    · exact ⟨a + 1, by omega, le_rfl, by rw [BitVec.ofNat_add, hv]⟩
  · obtain rfl : b = a := by omega
    exact ⟨b, le_rfl, le_rfl, h.eq_self⟩

/-- `w1`, `w2` are the write side's copies of `read`, and `r1`, `r2` the read side's copies of
`written`. -/
structure Counts where
  written : ℕ
  read : ℕ
  w1 : ℕ
  w2 : ℕ
  r1 : ℕ
  r2 : ℕ

structure Counts.Ordered (depth : ℕ) (c : Counts) : Prop where
  stale : c.w2 ≤ c.w1
  behind : c.w1 ≤ c.read
  nonempty : c.read ≤ c.r2
  stale' : c.r2 ≤ c.r1
  behind' : c.r1 ≤ c.written
  room : c.written ≤ c.w2 + depth

structure Edge where
  seen : ℕ
  moves : Bool

def Counts.step (c : Counts) (w r : Option Edge) : Counts where
  written := c.written + (w.elim false Edge.moves).toNat
  read := c.read + (r.elim false Edge.moves).toNat
  w1 := w.elim c.w1 Edge.seen
  w2 := w.elim c.w2 fun _ => c.w1
  r1 := r.elim c.r1 Edge.seen
  r2 := r.elim c.r2 fun _ => c.r1

/-- A side moves only if its copy allows it, and samples the other pointer before or after the
step. -/
structure Counts.Allowed (depth : ℕ) (c : Counts) (w r : Option Edge) : Prop where
  accept : ∀ e, w = some e → e.moves = true → c.written ≠ c.w2 + depth
  pop : ∀ e, r = some e → e.moves = true → c.read ≠ c.r2
  seesRead : ∀ e, w = some e → c.read ≤ e.seen ∧ e.seen ≤ (c.step w r).read
  seesWritten : ∀ e, r = some e → c.written ≤ e.seen ∧ e.seen ≤ (c.step w r).written

theorem Counts.Ordered.step {depth : ℕ} {c : Counts} (h : c.Ordered depth) {w r : Option Edge}
    (ha : c.Allowed depth w r) : (c.step w r).Ordered depth := by
  obtain ⟨h1, h2, h3, h4, h5, h6⟩ := h
  have hmove (b : Bool) : b.toNat ≤ 1 := Bool.toNat_le b
  cases w with
  | none =>
    cases r with
    | none => exact ⟨h1, h2, h3, h4, h5, h6⟩
    | some f =>
      have hs := ha.seesWritten f rfl
      have hm := hmove f.moves
      have hp : f.moves.toNat = 1 → c.read ≠ c.r2 := fun hf => ha.pop f rfl (by simpa using hf)
      constructor <;> simp only [Counts.step, Option.elim, Bool.toNat_false] at hs ⊢ <;> omega
  | some e =>
    have hs := ha.seesRead e rfl
    have hm := hmove e.moves
    have hacc : e.moves.toNat = 1 → c.written ≠ c.w2 + depth := fun he =>
      ha.accept e rfl (by simpa using he)
    cases r with
    | none =>
      constructor <;> simp only [Counts.step, Option.elim, Bool.toNat_false] at hs ⊢ <;> omega
    | some f =>
      have hs' := ha.seesWritten f rfl
      have hm' := hmove f.moves
      have hp : f.moves.toNat = 1 → c.read ≠ c.r2 := fun hf => ha.pop f rfl (by simpa using hf)
      constructor <;> simp only [Counts.step, Option.elim] at hs hs' ⊢ <;> omega

end Crossing
