import RiscvScratch.Memory.Slices

/-! The memory map of the boot platform (platform.h, rom.h): the RAM, its first 16 KiB that belong
to the resident firmware, and where an image left in memory begins. -/
namespace RiscvScratch.Platform

open ByteMem

def ramBase : BitVec 32 := 0x80000000#32
def fwRamSize : BitVec 32 := 0x00004000#32
def payloadBase : BitVec 32 := ramBase + fwRamSize
def dtbArea : BitVec 32 := 0x00002000#32
def bootmemAddr : BitVec 32 := 0x83000000#32

/-- `n` bytes at `a` inside the RAM the linker script gives the firmware. -/
def InFirmware (a : BitVec 32) (n : ℕ) : Prop :=
  ramBase.toNat ≤ a.toNat ∧ a.toNat + n ≤ payloadBase.toNat

def Separate (a : BitVec 32) (n : ℕ) (b : BitVec 32) (k : ℕ) : Prop :=
  a.toNat + n ≤ b.toNat ∨ b.toNat + k ≤ a.toNat

instance (a : BitVec 32) (n : ℕ) : Decidable (InFirmware a n) := inferInstanceAs (Decidable (_ ∧ _))

instance (a : BitVec 32) (n : ℕ) (b : BitVec 32) (k : ℕ) : Decidable (Separate a n b k) :=
  inferInstanceAs (Decidable (_ ∨ _))

theorem InFirmware.lt_payload {a x : BitVec 32} {n : ℕ} (h : InFirmware a n) (hx : Within a n x) :
    ramBase.toNat ≤ x.toNat ∧ x.toNat < payloadBase.toNat := by
  obtain ⟨hlo, hhi⟩ := h
  have hmax : payloadBase.toNat ≤ 2 ^ 32 := payloadBase.isLt.le
  obtain ⟨h₁, h₂⟩ := (within_iff (by omega)).mp hx
  omega

theorem Separate.not_within {a b x : BitVec 32} {n k : ℕ} (h : Separate a n b k)
    (ha : InFirmware a n) (hb : InFirmware b k) (hx : Within b k x) : ¬Within a n x := by
  intro hx'
  have hmax : payloadBase.toNat ≤ 2 ^ 32 := payloadBase.isLt.le
  have h₁ := (within_iff (by have := ha.2; omega)).mp hx'
  have h₂ := (within_iff (by have := hb.2; omega)).mp hx
  unfold Separate at h
  omega

end RiscvScratch.Platform
