import Mathlib.Data.Nat.Size
import Mathlib.NumberTheory.Padics.PadicVal.Basic
import RiscvScratch.Bits.Words
import RiscvScratch.Unified.Bench
import RiscvScratch.Unified.ZbInstructions

/-! What the bit-manipulation instructions compute, in terms of numbers, bits and polynomials over
the field of two elements. -/
namespace RiscvScratch.Zb

open Bits Polynomial

/-- The shift amount: the low five bits of the second operand. -/
def amount (b : Word) : ℕ := b.toNat % 32

/-- Bit `n + k` of the carry-less product as bit `k`. -/
noncomputable def productBits (a b : Word) (n : ℕ) : Word :=
  ofBits fun k => decide ((poly a * poly b).coeff (n + k) = 1)

noncomputable def Instr.meaning (a b : Word) : Instr → Word
  | .sh1add => BitVec.ofNat 32 (2 * a.toNat + b.toNat)
  | .sh2add => BitVec.ofNat 32 (4 * a.toNat + b.toNat)
  | .sh3add => BitVec.ofNat 32 (8 * a.toNat + b.toNat)
  | .andn => ofBits fun k => a.getLsbD k && !b.getLsbD k
  | .orn => ofBits fun k => a.getLsbD k || !b.getLsbD k
  | .xnor => ofBits fun k => a.getLsbD k == b.getLsbD k
  | .clz => BitVec.ofNat 32 (32 - a.toNat.size)
  | .ctz => BitVec.ofNat 32 (if a.toNat = 0 then 32 else padicValNat 2 a.toNat)
  | .cpop => BitVec.ofNat 32 ((Finset.range 32).filter fun k => a.getLsbD k = true).card
  | .min => BitVec.ofInt 32 (Min.min a.toInt b.toInt)
  | .minu => BitVec.ofNat 32 (Min.min a.toNat b.toNat)
  | .max => BitVec.ofInt 32 (Max.max a.toInt b.toInt)
  | .maxu => BitVec.ofNat 32 (Max.max a.toNat b.toNat)
  | .sextB => BitVec.ofInt 32 (Int.bmod a.toNat (2 ^ 8))
  | .sextH => BitVec.ofInt 32 (Int.bmod a.toNat (2 ^ 16))
  | .zextH => BitVec.ofNat 32 (a.toNat % 2 ^ 16)
  | .rol => ofBits fun k => a.getLsbD ((k + 32 - amount b) % 32)
  | .ror | .rori => ofBits fun k => a.getLsbD ((k + amount b) % 32)
  | .orcB => ofBits fun k => (List.range 8).any fun j => a.getLsbD (8 * (k / 8) + j)
  | .rev8 => ofBits fun k => a.getLsbD (8 * (3 - k / 8) + k % 8)
  | .clmul => productBits a b 0
  | .clmulh => productBits a b 32
  | .clmulr => productBits a b 31
  | .bclr | .bclri => ofBits fun k => a.getLsbD k && k != amount b
  | .bset | .bseti => ofBits fun k => a.getLsbD k || k == amount b
  | .binv | .binvi => ofBits fun k => a.getLsbD k ^^ (k == amount b)
  | .bext | .bexti => BitVec.ofNat 32 (a.getLsbD (amount b)).toNat

section counts
variable {x : Word}

theorem toNat_mod_succ (x : Word) (n : ℕ) :
    x.toNat % 2 ^ (n + 1) = x.toNat % 2 ^ n + 2 ^ n * (x.getLsbD n).toNat := by
  rw [Nat.mod_pow_succ, BitVec.getLsbD, Nat.toNat_testBit]

theorem clzFrom_eq (x : Word) {n : ℕ} (hn : n ≤ 32) :
    clzFrom x n = 32 - (x.toNat % 2 ^ n).size := by
  induction n with
  | zero => simp [clzFrom, Nat.mod_one]
  | succ n ih =>
    have hlt : x.toNat % 2 ^ n < 2 ^ n := Nat.mod_lt _ (by positivity)
    rw [clzFrom, toNat_mod_succ]
    cases hb : x.getLsbD n with
    | false => simp [ih (by omega)]
    | true =>
      have hsize : (x.toNat % 2 ^ n + 2 ^ n).size = n + 1 := by
        apply le_antisymm
        · rw [Nat.size_le, pow_succ]
          omega
        · rw [Nat.succ_le_iff, Nat.lt_size]
          omega
      simp [hsize]

theorem clz32_eq (x : Word) : clz32 x = BitVec.ofNat 32 (32 - x.toNat.size) := by
  rw [clz32, clzFrom_eq x le_rfl, Nat.mod_eq_of_lt x.isLt]

theorem ctzFrom_eq (x : Word) {n : ℕ} (hn : n ≤ 32) (hclear : 2 ^ (32 - n) ∣ x.toNat) :
    ctzFrom x n = if x.toNat = 0 then 32 else padicValNat 2 x.toNat := by
  induction n with
  | zero =>
    have hz : x.toNat = 0 := Nat.eq_zero_of_dvd_of_lt hclear x.isLt
    rw [ctzFrom, if_pos hz]
  | succ n ih =>
    obtain ⟨q, hq⟩ := hclear
    have hbit : x.getLsbD (31 - n) = decide (q % 2 = 1) := by
      rw [BitVec.getLsbD, hq, show 32 - (n + 1) = 31 - n by omega, Nat.testBit_eq_decide_div_mod_eq,
        Nat.mul_div_cancel_left _ (by positivity)]
    rw [ctzFrom, hbit]
    by_cases hodd : q % 2 = 1
    · have hne : x.toNat ≠ 0 := by
        rw [hq]
        exact Nat.mul_ne_zero (by positivity) (by omega)
      have hval : padicValNat 2 x.toNat = 31 - n := by
        rw [hq, padicValNat.mul (by positivity) (by omega), padicValNat.prime_pow,
          padicValNat.eq_zero_of_not_dvd (by omega)]
        omega
      rw [if_pos (by simpa using hodd), if_neg hne, hval]
    · rw [if_neg (by simpa using hodd)]
      apply ih (by omega)
      obtain ⟨r, rfl⟩ : 2 ∣ q := Nat.dvd_of_mod_eq_zero (by omega)
      refine ⟨r, ?_⟩
      rw [hq, show 32 - n = 32 - (n + 1) + 1 by omega, pow_succ]
      ring

theorem ctz32_eq (x : Word) :
    ctz32 x = BitVec.ofNat 32 (if x.toNat = 0 then 32 else padicValNat 2 x.toNat) := by
  rw [ctz32, ctzFrom_eq x le_rfl (by simp)]

theorem cpopFrom_eq (x : Word) (n : ℕ) :
    cpopFrom x n = ((Finset.range n).filter fun k => x.getLsbD k = true).card := by
  induction n with
  | zero => rfl
  | succ n ih =>
    rw [cpopFrom, ih, Finset.range_add_one, Finset.filter_insert]
    cases hb : x.getLsbD n with
    | false => simp
    | true => simp [Finset.card_insert_of_notMem]

end counts

theorem poly_clmulFrom (x y : Word) {n : ℕ} (hn : n ≤ 32) :
    poly (clmulFrom x y n) = poly x * polyUpTo y n := by
  induction n with
  | zero => simp [clmulFrom, polyUpTo]
  | succ n ih =>
    rw [clmulFrom, polyUpTo_succ]
    cases hb : y.getLsbD n with
    | false => simp [ih (by omega)]
    | true =>
      simp only [if_true, poly_xor, ih (by omega), mul_add]
      rw [BitVec.zeroExtend, poly_shiftLeft x (by omega)]

theorem getLsbD_clmul64 (x y : Word) (k : ℕ) :
    (clmul64 x y).getLsbD k = decide ((poly x * poly y).coeff k = 1) := by
  have h : poly (clmul64 x y) = poly x * poly y := poly_clmulFrom x y le_rfl
  rw [← h, poly_coeff]
  simp [coefficient_eq_one_iff]

theorem extract_clmul64 (x y : Word) (n : ℕ) :
    (clmul64 x y).extractLsb' n 32 = productBits x y n := by
  apply eq_ofBits
  intro k hk
  rw [BitVec.getLsbD_extractLsb', getLsbD_clmul64]
  simp [hk]

section words
variable (a b : Word)

theorem extract_amount : (b.extractLsb' 0 5).toNat = amount b := by
  simp [amount]

theorem amount_lt : amount b < 32 := Nat.mod_lt _ (by decide)

theorem shiftAdd_eq (n : ℕ) :
    (a <<< n) + b = BitVec.ofNat 32 (2 ^ n * a.toNat + b.toNat) := by
  apply BitVec.eq_of_toNat_eq
  rw [BitVec.toNat_add, BitVec.toNat_shiftLeft, BitVec.toNat_ofNat, Nat.shiftLeft_eq, mul_comm]
  simp

variable {sh k : ℕ}

theorem rol_eq (h : sh ≤ 32) :
    rol a sh = ofBits fun k => a.getLsbD ((k + 32 - sh) % 32) := by
  apply eq_ofBits
  intro k hk
  rw [rol, BitVec.getLsbD_or, BitVec.getLsbD_shiftLeft, BitVec.getLsbD_ushiftRight]
  by_cases hlt : k < sh
  · simp [hk, hlt, show (k + 32 - sh) % 32 = 32 - sh + k by omega]
  · rw [show (k + 32 - sh) % 32 = k - sh by omega, BitVec.getLsbD_of_ge a (32 - sh + k) (by omega)]
    simp [hk, hlt]

theorem ror_eq (h : sh < 32) :
    ror a sh = ofBits fun k => a.getLsbD ((k + sh) % 32) := by
  have hrol : ror a sh = rol a (32 - sh) := by
    rw [ror, rol, BitVec.or_comm, Nat.sub_sub_self h.le]
  rw [hrol, rol_eq a (Nat.sub_le 32 sh)]
  congr 1
  funext k
  rw [show k + 32 - (32 - sh) = k + sh by omega]

theorem getLsbD_bytes (x₃ x₂ x₁ x₀ : BitVec 8) (hk : k < 32) :
    (x₃ ++ x₂ ++ x₁ ++ x₀ : BitVec 32).getLsbD k =
      ([x₀, x₁, x₂, x₃].getD (k / 8) 0#8).getLsbD (k % 8) := by
  rw [BitVec.getLsbD_append, BitVec.getLsbD_append, BitVec.getLsbD_append]
  obtain h | h | h | h : k / 8 = 0 ∨ k / 8 = 1 ∨ k / 8 = 2 ∨ k / 8 = 3 := by omega
  · simp [h, show k < 8 by omega, show k % 8 = k by omega]
  · simp [h, show ¬k < 8 by omega, show k - 8 < 8 by omega, show k % 8 = k - 8 by omega]
  · simp [h, show ¬k < 8 by omega, show ¬k - 8 < 8 by omega, show k - 8 - 8 < 8 by omega,
      show k % 8 = k - 8 - 8 by omega]
  · simp [h, show ¬k < 8 by omega, show ¬k - 8 < 8 by omega, show ¬k - 8 - 8 < 8 by omega,
      show k % 8 = k - 8 - 8 - 8 by omega]

theorem orByte_eq (x : BitVec 8) {j : ℕ} (hj : j < 8) :
    (orByte x).getLsbD j = (List.range 8).any fun m => x.getLsbD m := by
  by_cases hx : x = 0#8
  · subst hx
    simp [orByte]
  · have hany : ∃ m < 8, x.getLsbD m = true := by
      by_contra hno
      apply hx
      apply BitVec.eq_of_getLsbD_eq
      intro m hm
      have := fun h => hno ⟨m, hm, h⟩
      simpa using this
    have hall : (0xFF#8).getLsbD j = true := by
      have : ∀ j < 8, (0xFF#8).getLsbD j = true := by decide
      exact this j hj
    rw [orByte, if_neg hx, hall]
    exact (List.any_eq_true.mpr (by simpa using hany)).symm

theorem orcB_eq :
    orcB a = ofBits fun k => (List.range 8).any fun j => a.getLsbD (8 * (k / 8) + j) := by
  apply eq_ofBits
  intro k hk
  have hlt : k % 8 < 8 := Nat.mod_lt _ (by decide)
  rw [orcB, getLsbD_bytes _ _ _ _ hk]
  obtain h | h | h | h : k / 8 = 0 ∨ k / 8 = 1 ∨ k / 8 = 2 ∨ k / 8 = 3 := by omega
  all_goals simp [h, orByte_eq _ hlt, List.range_succ]

theorem rev8_eq : rev8 a = ofBits fun k => a.getLsbD (8 * (3 - k / 8) + k % 8) := by
  apply eq_ofBits
  intro k hk
  have hlt : k % 8 < 8 := Nat.mod_lt _ (by decide)
  rw [rev8, getLsbD_bytes _ _ _ _ hk]
  obtain h | h | h | h : k / 8 = 0 ∨ k / 8 = 1 ∨ k / 8 = 2 ∨ k / 8 = 3 := by omega
  all_goals simp [h, hlt]

theorem getLsbD_onehot (h : sh < 32) :
    ((1#32) <<< sh).getLsbD k = (k == sh) := by
  rw [BitVec.getLsbD_shiftLeft, BitVec.getLsbD_one]
  rcases Nat.lt_trichotomy k sh with hlt | rfl | hgt
  · simp [hlt, hlt.ne]
  · simp [h]
  · simp [hgt.ne', show ¬k - sh = 0 by omega]

theorem getLsbD_not_of_lt (x : Word) (hk : k < 32) : (~~~x).getLsbD k = !x.getLsbD k := by
  rw [BitVec.getLsbD_not, decide_eq_true hk, Bool.true_and]

theorem bext_eq (h : sh < 32) :
    (if a &&& (1#32 <<< sh) = 0#32 then 0#32 else 1#32) =
      BitVec.ofNat 32 (a.getLsbD sh).toNat := by
  cases hb : a.getLsbD sh with
  | false =>
    have hz : a &&& (1#32 <<< sh) = 0#32 := by
      apply BitVec.eq_of_getLsbD_eq
      intro k hk
      rw [BitVec.getLsbD_and, getLsbD_onehot h]
      by_cases hks : k = sh
      · simp [hks, hb]
      · simp [hks]
    rw [if_pos hz]
    rfl
  | true =>
    have hne : ¬a &&& (1#32 <<< sh) = 0#32 := by
      intro hz
      have := congrArg (·.getLsbD sh) hz
      simp [getLsbD_onehot h, hb] at this
    rw [if_neg hne]
    rfl

theorem signExtend_eq (n : ℕ) :
    (a.extractLsb' 0 n).signExtend 32 = BitVec.ofInt 32 (Int.bmod a.toNat (2 ^ n)) := by
  rw [BitVec.signExtend, BitVec.toInt_eq_toNat_bmod, BitVec.extractLsb'_toNat, Nat.shiftRight_zero,
    Int.natCast_mod, Int.emod_bmod]

theorem zeroExtend_eq (n : ℕ) :
    (a.extractLsb' 0 n).zeroExtend 32 = BitVec.ofNat 32 (a.toNat % 2 ^ n) := by
  apply BitVec.eq_of_toNat_eq
  rw [BitVec.zeroExtend, BitVec.toNat_setWidth, BitVec.extractLsb'_toNat, Nat.shiftRight_zero,
    BitVec.toNat_ofNat]

theorem min_eq : (if a.slt b then a else b) = BitVec.ofInt 32 (Min.min a.toInt b.toInt) := by
  simp only [BitVec.slt, decide_eq_true_eq]
  by_cases h : a.toInt < b.toInt
  · rw [if_pos h, min_eq_left h.le, BitVec.ofInt_toInt]
  · rw [if_neg h, min_eq_right (not_lt.mp h), BitVec.ofInt_toInt]

theorem max_eq : (if a.slt b then b else a) = BitVec.ofInt 32 (Max.max a.toInt b.toInt) := by
  simp only [BitVec.slt, decide_eq_true_eq]
  by_cases h : a.toInt < b.toInt
  · rw [if_pos h, max_eq_right h.le, BitVec.ofInt_toInt]
  · rw [if_neg h, max_eq_left (not_lt.mp h), BitVec.ofInt_toInt]

theorem minu_eq : (if a.ult b then a else b) = BitVec.ofNat 32 (Min.min a.toNat b.toNat) := by
  simp only [BitVec.ult, decide_eq_true_eq]
  by_cases h : a.toNat < b.toNat
  · rw [if_pos h, min_eq_left h.le, BitVec.ofNat_toNat, BitVec.setWidth_eq]
  · rw [if_neg h, min_eq_right (not_lt.mp h), BitVec.ofNat_toNat, BitVec.setWidth_eq]

theorem maxu_eq : (if a.ult b then b else a) = BitVec.ofNat 32 (Max.max a.toNat b.toNat) := by
  simp only [BitVec.ult, decide_eq_true_eq]
  by_cases h : a.toNat < b.toNat
  · rw [if_pos h, max_eq_right h.le, BitVec.ofNat_toNat, BitVec.setWidth_eq]
  · rw [if_neg h, max_eq_left (not_lt.mp h), BitVec.ofNat_toNat, BitVec.setWidth_eq]

theorem output_eq_meaning (i : Instr) : i.output a b = i.meaning a b := by
  have hsh := amount_lt b
  have hamount := extract_amount b
  cases i with
  | sh1add => exact shiftAdd_eq a b 1
  | sh2add => exact shiftAdd_eq a b 2
  | sh3add => exact shiftAdd_eq a b 3
  | andn =>
    apply eq_ofBits
    intro k hk
    rw [Instr.output, BitVec.getLsbD_and, getLsbD_not_of_lt b hk]
  | orn =>
    apply eq_ofBits
    intro k hk
    rw [Instr.output, BitVec.getLsbD_or, getLsbD_not_of_lt b hk]
  | xnor =>
    apply eq_ofBits
    intro k hk
    rw [Instr.output, getLsbD_not_of_lt _ hk, BitVec.getLsbD_xor]
    cases a.getLsbD k <;> cases b.getLsbD k <;> rfl
  | clz => exact clz32_eq a
  | ctz => exact ctz32_eq a
  | cpop => exact congrArg (BitVec.ofNat 32) (cpopFrom_eq a 32)
  | min => exact min_eq a b
  | minu => exact minu_eq a b
  | max => exact max_eq a b
  | maxu => exact maxu_eq a b
  | sextB => exact signExtend_eq a 8
  | sextH => exact signExtend_eq a 16
  | zextH => exact zeroExtend_eq a 16
  | rol => rw [Instr.output, hamount]; exact rol_eq a hsh.le
  | ror | rori => rw [Instr.output, hamount]; exact ror_eq a hsh
  | orcB => exact orcB_eq a
  | rev8 => exact rev8_eq a
  | clmul => exact extract_clmul64 a b 0
  | clmulh => exact extract_clmul64 a b 32
  | clmulr => exact extract_clmul64 a b 31
  | bclr | bclri =>
    apply eq_ofBits
    intro k hk
    rw [Instr.output, hamount, BitVec.getLsbD_and, getLsbD_not_of_lt _ hk, getLsbD_onehot hsh]
    rfl
  | bset | bseti =>
    apply eq_ofBits
    intro k hk
    rw [Instr.output, hamount, BitVec.getLsbD_or, getLsbD_onehot hsh]
  | binv | binvi =>
    apply eq_ofBits
    intro k hk
    rw [Instr.output, hamount, BitVec.getLsbD_xor, getLsbD_onehot hsh]
  | bext | bexti => rw [Instr.output, hamount]; exact bext_eq a hsh

end words

end RiscvScratch.Zb

namespace RiscvScratch.Unified

variable {c : Cfg} {w : Word}

theorem not_isBase_of_isZb (h : IsZb c w) (j : Base.Instr) : ¬j.encoding.IsOf w := by
  obtain ⟨i, -, hi⟩ := h
  intro hj
  have := Encoding.Matches.apart hi hj
  rw [zb_apart_base] at this
  cases this

theorem exResult_zb {s : State} {inp : Input} {f : IfId} {d1 d2 : Word}
    (hw : opcodeOf f.instr = opR ∨ opcodeOf f.instr = opI) (hx : s.idex = decode c f d1 d2)
    (hz : IsZb c f.instr) : exResult c s inp = zbResult c s := by
  have hcsr : s.idex.isCsr = false := by
    rw [hx]
    rcases hw with h | h <;> simp [decode, idIsCsr, isSystem, h, opR, opI]
  have hvec : s.idex.vec = false := by
    rw [hx]
    rcases hw with h | h <;>
      simp [decode, idVec, Vec.isVec, Vec.isOpv, Vec.isLd, Vec.isSt, h, opR, opI]
  have hzb : s.idex.zb = true := by
    rw [hx]
    exact Zb.hit_iff.mpr hz
  rw [exResult, hcsr, hvec, hzb]
  rfl

/-- Of OP and OP-IMM the base and the configured M and bit-manipulation encodings are accepted, and
the unit and the EX stage compute what they mean. -/
theorem bit_manipulation (c : Cfg) (w : Word) (hw : opcodeOf w = opR ∨ opcodeOf w = opI) :
    (opOk w c = true ↔ IsBase c w ∨ IsZb c w) ∧
    (idZb w c = true ↔ IsZb c w) ∧
    (IsZb c w → ∀ j : Base.Instr, ¬j.encoding.IsOf w) ∧
    ∀ i : Zb.Instr, i.configured c.zb = true → i.encoding.IsOf w →
      (∀ a b, Zb.result c.zb (opcodeOf w) (funct3Of w) (funct7Of w) (rs2Of w) a b =
        i.meaning a b) ∧
      ∀ (s : State) (inp : Input) (f : IfId) (d1 d2 : Word), f.instr = w →
        s.idex = decode c f d1 d2 → exResult c s inp = i.meaning (opA s) (aluB s) := by
  refine ⟨opOk_iff hw, Zb.hit_iff, not_isBase_of_isZb, ?_⟩
  intro i hc hi
  have hres : ∀ a b, Zb.result c.zb (opcodeOf w) (funct3Of w) (funct7Of w) (rs2Of w) a b =
      i.meaning a b := by
    intro a b
    rw [Zb.result_of_matches hc hi, Zb.output_eq_meaning]
  refine ⟨hres, ?_⟩
  rintro s inp f d1 d2 rfl hx
  have hamo : idIsAmo f.instr c = false := by
    rcases hw with h | h <;> simp [idIsAmo, h, opR, opI]
  rw [exResult_zb hw hx ⟨i, hc, hi⟩, zbResult, hx, ← hres]
  simp only [decode, hamo, Bool.false_eq_true, if_false]

def carrylessCfg : Cfg := { Cfg.bare with zbc := true }

/-- `clmulh x1, x2, x3`. -/
theorem clmulh_computes : opOk 0x0A3130B3#32 carrylessCfg = true ∧
      Zb.result carrylessCfg.zb (opcodeOf 0x0A3130B3#32) (funct3Of 0x0A3130B3#32)
        (funct7Of 0x0A3130B3#32) (rs2Of 0x0A3130B3#32) 0x80000001#32 0x3#32 =
          Zb.Instr.clmulh.meaning 0x80000001#32 0x3#32 := by
  have hi : Zb.Instr.clmulh.encoding.IsOf 0x0A3130B3#32 :=
    ⟨by decide, by decide, by rintro _ ⟨⟩; decide, by rintro _ ⟨⟩⟩
  obtain ⟨hok, -, -, hres⟩ := bit_manipulation carrylessCfg 0x0A3130B3#32 (.inl (by decide))
  exact ⟨hok.mpr (.inr ⟨.clmulh, rfl, hi⟩), (hres .clmulh rfl hi).1 _ _⟩

end RiscvScratch.Unified
