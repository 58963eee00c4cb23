import Mathlib.Tactic

/-! Little-endian words in a byte-addressed memory. -/
namespace ByteMem

abbrev Mem := BitVec 32 → BitVec 8

def load32 (m : Mem) (a : BitVec 32) : BitVec 32 :=
  m (a + 3#32) ++ m (a + 2#32) ++ m (a + 1#32) ++ m a

def store32 (m : Mem) (a v : BitVec 32) : Mem := fun x =>
  if (x - a).toNat < 4 then v.extractLsb' (8 * (x - a).toNat) 8 else m x

/-- The bytes of a word, the low one first. -/
def le32 (v : BitVec 32) : List (BitVec 8) :=
  [v.extractLsb' 0 8, v.extractLsb' 8 8, v.extractLsb' 16 8, v.extractLsb' 24 8]

theorem le32_or (b₀ b₁ b₂ b₃ : BitVec 8) :
    le32 (0#32 ||| b₀.setWidth 32 <<< 0 ||| b₁.setWidth 32 <<< 8 ||| b₂.setWidth 32 <<< 16 |||
      b₃.setWidth 32 <<< 24) = [b₀, b₁, b₂, b₃] := by
  simp only [le32, List.cons.injEq, and_true]
  refine ⟨?_, ?_, ?_, ?_⟩ <;> (apply BitVec.eq_of_getLsbD_eq; intro i hi; simp; grind)

/-- The byte at `x` does not belong to the word at `a`. -/
def Apart (x a : BitVec 32) : Prop := 4 ≤ (x - a).toNat

variable {m : Mem} {a : BitVec 32}

theorem store32_apart {x : BitVec 32} (v : BitVec 32) (h : Apart x a) :
    store32 m a v x = m x := if_neg (Nat.not_lt.mpr h)

theorem store32_byte (m : Mem) (a v : BitVec 32) {k : ℕ} (hk : k < 4) :
    store32 m a v (a + BitVec.ofNat 32 k) = v.extractLsb' (8 * k) 8 := by
  have hsub : (a + BitVec.ofNat 32 k - a).toNat = k := by bv_omega
  rw [store32, hsub, if_pos hk]

theorem bytes_append (v : BitVec 32) :
    v.extractLsb' 24 8 ++ v.extractLsb' 16 8 ++ v.extractLsb' 8 8 ++ v.extractLsb' 0 8 = v := by
  apply BitVec.eq_of_toNat_eq
  have := v.isLt
  simp only [BitVec.toNat_append, BitVec.extractLsb'_toNat]
  rw [← Nat.shiftLeft_add_eq_or_of_lt (Nat.mod_lt _ (by decide)),
    ← Nat.shiftLeft_add_eq_or_of_lt (Nat.mod_lt _ (by decide)),
    ← Nat.shiftLeft_add_eq_or_of_lt (Nat.mod_lt _ (by decide))]
  simp only [Nat.shiftLeft_eq, Nat.shiftRight_eq_div_pow]
  omega

theorem load32_store32 (m : Mem) (a v : BitVec 32) : load32 (store32 m a v) a = v := by
  have h0 := store32_byte m a v (k := 0) (by decide)
  have h1 := store32_byte m a v (k := 1) (by decide)
  have h2 := store32_byte m a v (k := 2) (by decide)
  have h3 := store32_byte m a v (k := 3) (by decide)
  rw [show a + BitVec.ofNat 32 0 = a by simp] at h0
  rw [load32, h3, h2, h1, h0]
  exact bytes_append v

theorem load32_congr {m' : Mem}
    (h : ∀ k < 4, m (a + BitVec.ofNat 32 k) = m' (a + BitVec.ofNat 32 k)) :
    load32 m a = load32 m' a := by
  have h0 := h 0 (by decide)
  rw [show a + BitVec.ofNat 32 0 = a by simp] at h0
  rw [load32, load32, h0, h 1 (by decide), h 2 (by decide), h 3 (by decide)]

theorem load32_store32_apart {b : BitVec 32} (v : BitVec 32)
    (h : ∀ k < 4, Apart (b + BitVec.ofNat 32 k) a) : load32 (store32 m a v) b = load32 m b :=
  load32_congr fun k hk => store32_apart v (h k hk)

end ByteMem
