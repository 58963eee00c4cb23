import RiscvScratch.Crc.Division
import RiscvScratch.Image.FlashCheck

/-! The CRC-32s of the ROM and of the flash writer, and the division both compute. -/
namespace RiscvScratch.Rvbi

open Polynomial

/-- The generator of IEEE 802.3. -/
noncomputable def ieee8023 : (ZMod 2)[X] :=
  X ^ 32 + X ^ 26 + X ^ 23 + X ^ 22 + X ^ 16 + X ^ 12 + X ^ 11 + X ^ 10 + X ^ 8 + X ^ 7 + X ^ 5 +
    X ^ 4 + X ^ 2 + X + 1

theorem divisor_crcPoly : Crc.divisor crcPoly = ieee8023 := by
  have hbits : ∀ i < 32, crcPoly.getMsbD i =
      decide (i ∈ [0, 1, 2, 4, 5, 7, 8, 10, 11, 12, 16, 22, 23, 26]) := by decide
  rw [Crc.divisor, Crc.toPoly, Finset.sum_congr rfl fun i hi =>
    congrArg (fun b => monomial i (Crc.coefficient b)) (hbits i (Finset.mem_range.mp hi))]
  simp only [Finset.sum_range_succ, Finset.sum_range_zero, ieee8023]
  simp [Crc.coefficient, ← X_pow_eq_monomial]
  ring

/-- Both programs' CRC-32 is the complement of the remainder under the IEEE 802.3 generator; and it
composes. -/
theorem crc32_agreement (c : BitVec 32) (x y : List (BitVec 8)) :
    crc32Update c x = crc32 c x ∧
      (∀ r : BitVec 32,
        Crc.toPoly r = (Crc.toPoly (~~~c) * X ^ (8 * x.length) + Crc.message x * X ^ 32) %ₘ
          ieee8023 ↔ crc32 c x = ~~~r) ∧
      crc32 (crc32 c x) y = crc32 c (x ++ y) ∧
      crc32Update (crc32Update c x) y = crc32Update c (x ++ y) := by
  have hdiv : Crc.toPoly (~~~crc32 c x) =
      (Crc.toPoly (~~~c) * X ^ (8 * x.length) + Crc.message x * X ^ 32) %ₘ ieee8023 := by
    rw [crc32, BitVec.not_not, foldl_crc32Byte, Crc.toPoly_run (by decide), Crc.remainder,
      divisor_crcPoly]
  refine ⟨crc32Update_eq c x, fun r => ?_, crc32_append c x y, ?_⟩
  · rw [← hdiv, Crc.toPoly_injective.eq_iff]
    constructor
    · rintro rfl
      rw [BitVec.not_not]
    · intro h
      rw [h, BitVec.not_not]
  · rw [crc32Update_eq, crc32Update_eq, crc32Update_eq, crc32_append]

end RiscvScratch.Rvbi
