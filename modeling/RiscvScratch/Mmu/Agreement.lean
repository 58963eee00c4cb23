import RiscvScratch.Unified.DataWalk
import RiscvScratch.Unified.UserSafety

/-! The three data-side translators make the same access: the combinational one, the multi-cycle
core's and the unified core's. -/
namespace RiscvScratch

/-- In U-mode under Sv32 all three fault with one cause or access one physical address. -/
theorem translators_agree (mem : Word → Word) (satp va : Word) (k : Sv32.Kind)
    (hm : satp.getLsbD 31 = true) :
    (∀ (resetPc : Word) (r : CpuMcMmu.Run resetPc) (imem : Word → Word) (t : ℕ),
      CpuMcMmu.Access r imem mem satp va k t →
      ∃ n, t < n ∧ n ≤ t + 4 ∧
        (∀ u ≥ t, u < n → CpuMcMmu.ended (r.state u) (r.input u) = none) ∧
        CpuMcMmu.ended (r.state n) (r.input n) =
          some (Mmu.outcome (Mmu.userInput mem satp va k))) ∧
    (∀ (c : Unified.Cfg) (r : Unified.Run c) (t₀ : ℕ), c.PlainSv32 →
      Unified.DataAccess r mem satp va k t₀ →
      (∀ n, Unified.StaysTo r t₀ n → Unified.exGo c (r.state n) (r.input n) = true →
        Unified.accessed c (r.state n) (r.input n) =
          Mmu.outcome (Mmu.userInput mem satp va k)) ∧
      ((∀ n, ∃ u ≥ n, (r.input u).dReady = true) → (∀ u ≥ t₀, (r.input u).halt = false) →
        ∃ n, Unified.StaysTo r t₀ n ∧ Unified.exGo c (r.state n) (r.input n) = true)) := by
  rw [Mmu.outcome_eq hm]
  exact ⟨fun _ _ _ _ h => h.ends hm, fun _ _ _ hc h =>
    ⟨fun _ hs hg => h.leaves hc hm hs hg, h.terminates hc hm⟩⟩

namespace CpuMcMmu

structure Board where
  cpu : State
  imemRdata : Word
  dmemRdata : Word

def Board.input (b : Board) : Input := ⟨false, false, b.imemRdata, b.dmemRdata⟩

def board (image : Word → Word) : ℕ → Board
  | 0 => ⟨reset 0#32 0#32 fun _ => 0#32, 0#32, 0#32⟩
  | n + 1 =>
    let b := board image n
    ⟨step b.cpu b.input, image b.cpu.pc, image (dmemAddr b.cpu b.input)⟩

def boardRun (image : Word → Word) : Run 0#32 where
  state n := (board image n).cpu
  input n := (board image n).input
  starts := ⟨0#32, fun _ => 0#32, rfl⟩
  steps _ := rfl

theorem boardRun_access :
    Access (boardRun Unified.userImage) Unified.userImage Unified.userImage 0x80000001#32 0#32
      .load 13 := by
  have h : (((boardRun Unified.userImage).state 13).fsm = .exec ∧
      inUser ((boardRun Unified.userImage).state 13) = true ∧
      ((boardRun Unified.userImage).state 13).csr.satp = 0x80000001#32 ∧
      execTrap ((boardRun Unified.userImage).state 13) ((boardRun Unified.userImage).input 13) =
        false) ∧
      instr ((boardRun Unified.userImage).input 13) = 0x00002183#32 ∧
      aluResult ((boardRun Unified.userImage).state 13) ((boardRun Unified.userImage).input 13) =
        0#32 ∧ ((boardRun Unified.userImage).state 13).pc = 0x100#32 := by decide +kernel
  obtain ⟨⟨hf, hu, hs, ht⟩, hi, ha, hpc⟩ := h
  exact ⟨hf, hu, hs, ht, by rw [hi]; rfl, by rw [hi]; rfl, ha, by rw [hpc]; exact hi,
    fun _ _ _ => rfl, fun _ _ _ => rfl, fun _ _ _ => rfl⟩

end CpuMcMmu

namespace Unified

theorem userRun_access : DataAccess userRun userImage 0x80000001#32 0#32 .load 12 := by
  have h : ((userRun.state 12).idex.valid = true ∧ (userRun.state 12).idex.memRead = true ∧
      (userRun.state 12).idex.memWrite = false ∧ exAmo (userRun.state 12) = false ∧
      exVa Cfg.paged (userRun.state 12) = 0#32 ∧ inUser (userRun.state 12) = true ∧
      (userRun.state 12).csr.satp = 0x80000001#32 ∧ Csr.mxr (userRun.state 12).csr = false ∧
      exMisal Cfg.paged (userRun.state 12) = false ∧ (userRun.state 12).idex.ifault = false ∧
      (userRun.state 12).idex.illegal = false) ∧
      ((userRun.state 12).dtlb.entry 0).v = false ∧
      ptwBusy Cfg.paged (userRun.state 12) = false ∧
      exWresFault Cfg.paged (userRun.state 12) = false := by decide +kernel
  obtain ⟨⟨h1, h2, h3, h4, h5, h6, h7, h8, h9, h10, h11⟩, hv, hb, hf⟩ := h
  refine ⟨⟨h1, by rw [h2]; rfl, by rw [h3]; rfl, h4, h5, h6, h7, h8, h9, h10, h11⟩, ?_, ?_, hf,
    fun _ _ _ _ => rfl⟩
  · intro n hn
    obtain rfl : n = 0 := Nat.lt_one_iff.mp hn
    exact hv
  · simp [hb]

end Unified

/-- One load of a user page: all three access address 0. -/
theorem user_load_agrees :
    Mmu.outcome (Mmu.userInput Unified.userImage 0x80000001#32 0#32 .load) = .ok 0#32 ∧
    (∃ n, 13 < n ∧ n ≤ 17 ∧
      CpuMcMmu.ended ((CpuMcMmu.boardRun Unified.userImage).state n)
        ((CpuMcMmu.boardRun Unified.userImage).input n) =
        some (Mmu.outcome (Mmu.userInput Unified.userImage 0x80000001#32 0#32 .load))) ∧
    Unified.accessed Unified.Cfg.paged (Unified.userRun.state 14) (Unified.userRun.input 14) =
      Mmu.outcome (Mmu.userInput Unified.userImage 0x80000001#32 0#32 .load) := by
  have hm : (0x80000001#32 : Word).getLsbD 31 = true := by decide
  obtain ⟨hmc, hpipe⟩ := translators_agree Unified.userImage 0x80000001#32 0#32 .load hm
  obtain ⟨n, h1, h2, -, h3⟩ := hmc 0#32 _ _ 13 CpuMcMmu.boardRun_access
  have hgo : Unified.exGo Unified.Cfg.paged (Unified.userRun.state 12)
      (Unified.userRun.input 12) = false ∧
      Unified.exGo Unified.Cfg.paged (Unified.userRun.state 13) (Unified.userRun.input 13) =
        false ∧
      Unified.exGo Unified.Cfg.paged (Unified.userRun.state 14) (Unified.userRun.input 14) =
        true := by decide +kernel
  have hstay : Unified.StaysTo Unified.userRun 12 14 := by
    refine ⟨by omega, fun u hu hlt => ?_⟩
    obtain rfl | rfl : u = 12 ∨ u = 13 := by omega
    · exact hgo.1
    · exact hgo.2.1
  exact ⟨by decide +kernel, ⟨n, h1, h2, h3⟩,
    (hpipe _ _ 12 ⟨rfl, rfl, rfl⟩ Unified.userRun_access).1 14 hstay hgo.2.2⟩

end RiscvScratch
