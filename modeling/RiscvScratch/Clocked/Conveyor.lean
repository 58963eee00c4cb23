import Mathlib.Data.List.Pairwise
import Mathlib.Tactic

/-! Conveyors. In each cycle at most one item joins the belt, at the back; items keep their order
and may drop out. An item is named by the cycle it joined in. -/
namespace Clocked

structure Conveyor (q : ℕ → List ℕ) : Prop where
  start : q 0 = []
  step : ∀ t, (q (t + 1)).Sublist (q t ++ [t])

namespace Conveyor
variable {q : ℕ → List ℕ} {g u t : ℕ}

theorem lt (h : Conveyor q) (hg : g ∈ q t) : g < t := by
  induction t with
  | zero => simp [h.start] at hg
  | succ t ih =>
    obtain hg | hg := List.mem_append.mp ((h.step t).subset hg)
    · exact Nat.lt_succ_of_lt (ih hg)
    · rw [List.mem_singleton.mp hg]
      exact Nat.lt_succ_self t

theorem sorted (h : Conveyor q) (t : ℕ) : (q t).Pairwise (· < ·) := by
  induction t with
  | zero => simp [h.start]
  | succ t ih =>
    refine List.Pairwise.sublist (h.step t) (List.pairwise_append.mpr ⟨ih, by simp, ?_⟩)
    intro a ha b hb
    rw [List.mem_singleton.mp hb]
    exact h.lt ha

theorem mem_of_le (h : Conveyor q) (hg : g ∈ q t) (hu : g < u) (hut : u ≤ t) : g ∈ q u := by
  induction t, hut using Nat.le_induction with
  | base => exact hg
  | succ t hut ih =>
    obtain hg | hg := List.mem_append.mp ((h.step t).subset hg)
    · exact ih hg
    · rw [List.mem_singleton.mp hg] at hu
      omega

theorem le_of_clear (h : Conveyor q) (hu : q u = []) (hut : u ≤ t) (hg : g ∈ q t) : u ≤ g := by
  by_contra hn
  have := h.mem_of_le hg (by omega) hut
  simp [hu] at this

theorem head_le (h : Conveyor q) {rest : List ℕ} {a : ℕ} (hq : q t = a :: rest)
    (hg : g ∈ q t) : a ≤ g := by
  have hs := h.sorted t
  rw [hq] at hs hg
  obtain rfl | hg := List.mem_cons.mp hg
  · exact le_rfl
  · exact ((List.pairwise_cons.mp hs).1 g hg).le

end Conveyor
end Clocked
