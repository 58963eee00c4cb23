import RiscvScratch.Fpu.FpuF

/-! The fields of a single, and the word they are put together to. -/
namespace RiscvScratch.FpuF

variable (a : Word)

theorem expo_lt : expo a < 256 := (a.extractLsb' 23 8).isLt

theorem frac_lt : frac a < 2 ^ 23 := (a.extractLsb' 0 23).isLt

def magBits : ℕ := expo a * 2 ^ 23 + frac a

theorem toNat_word : a.toNat = (sign a).toNat * 2 ^ 31 + magBits a := by
  have ha := a.isLt
  have hs : sign a = decide (a.toNat / 2 ^ 31 % 2 = 1) := by
    rw [sign, BitVec.getLsbD, Nat.testBit_eq_decide_div_mod_eq]
  rw [hs, magBits, expo, frac, BitVec.extractLsb'_toNat, BitVec.extractLsb'_toNat,
    Nat.shiftRight_eq_div_pow, Nat.shiftRight_zero]
  by_cases h : a.toNat / 2 ^ 31 % 2 = 1
  · simp only [h, decide_true, Bool.toNat_true]
    omega
  · simp only [h, decide_false, Bool.toNat_false]
    omega

theorem magBits_lt : magBits a < 2 ^ 31 := by
  have := expo_lt a
  have := frac_lt a
  unfold magBits
  omega

theorem magBits_eq : (a.extractLsb' 0 31).toNat = magBits a := by
  have := toNat_word a
  have := magBits_lt a
  rw [BitVec.extractLsb'_toNat, Nat.shiftRight_zero]
  omega

theorem word_ext {a b : Word} (hs : sign a = sign b) (hm : magBits a = magBits b) : a = b :=
  BitVec.eq_of_toNat_eq (by rw [toNat_word, toNat_word, hs, hm])

theorem isZero_iff : isZero a = true ↔ magBits a < 2 ^ 23 := by
  have := frac_lt a
  rw [isZero, beq_iff_eq, magBits]
  omega

theorem toNat_pack {s : Bool} {e f : ℕ} (he : e < 256) (hf : f < 2 ^ 23) :
    (pack s e f).toNat = s.toNat * 2 ^ 31 + (e * 2 ^ 23 + f) := by
  rw [pack, BitVec.toNat_append, BitVec.toNat_append,
    ← Nat.shiftLeft_add_eq_or_of_lt (BitVec.ofNat 23 f).isLt,
    ← Nat.shiftLeft_add_eq_or_of_lt (BitVec.ofNat 8 e).isLt, Nat.shiftLeft_eq, Nat.shiftLeft_eq,
    BitVec.toNat_ofNat, BitVec.toNat_ofNat, Nat.mod_eq_of_lt he, Nat.mod_eq_of_lt hf,
    BitVec.toNat_ofBool]
  omega

theorem fields_pack {s : Bool} {e f : ℕ} (he : e < 256) (hf : f < 2 ^ 23) :
    sign (pack s e f) = s ∧ expo (pack s e f) = e ∧ frac (pack s e f) = f := by
  have hp := toNat_pack (s := s) he hf
  have hw := toNat_word (pack s e f)
  have hx := expo_lt (pack s e f)
  have hy := frac_lt (pack s e f)
  unfold magBits at hw
  refine ⟨?_, ?_⟩
  · cases hs : sign (pack s e f) <;> cases s <;> simp only [hs, Bool.toNat_true, Bool.toNat_false]
      at hp hw <;> first | rfl | omega
  · cases hs : sign (pack s e f) <;> cases s <;> simp only [hs, Bool.toNat_true, Bool.toNat_false]
      at hp hw <;> omega

theorem pack_fields : pack (sign a) (expo a) (frac a) = a := by
  apply BitVec.eq_of_toNat_eq
  rw [toNat_pack (expo_lt a) (frac_lt a), toNat_word, magBits]

end RiscvScratch.FpuF
