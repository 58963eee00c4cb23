import Mathlib.Data.List.Infix
import Mathlib.Data.List.Range
import Mathlib.Tactic

/-! Clocked machines: a state, one step per clock edge, and the runs from a set of start states
under an input stream or against an environment with a state of its own, and the request/acknowledge
ports between two of them. -/
namespace Clocked

structure Machine (σ ι : Type*) where
  init : σ → Prop
  step : σ → ι → σ

variable {σ ι ε : Type*}

/-- A run is indexed by the clock cycle; cycle `t` ends with the edge into `t + 1`. -/
structure Machine.Run (M : Machine σ ι) where
  state : ℕ → σ
  input : ℕ → ι
  starts : M.init (state 0)
  steps : ∀ t, state (t + 1) = M.step (state t) (input t)

namespace Machine

def drive (M : Machine σ ι) (env : ℕ → σ → ι) (s : σ) : ℕ → σ
  | 0 => s
  | t + 1 => M.step (drive M env s t) (env t (drive M env s t))

def runOf (M : Machine σ ι) (env : ℕ → σ → ι) (s : σ) (hs : M.init s) : M.Run where
  state := M.drive env s
  input t := env t (M.drive env s t)
  starts := hs
  steps _ := rfl

namespace Run
variable {M : Machine σ ι}

theorem invariant (r : M.Run) (Q : ι → Prop) (P : σ → Prop)
    (hinit : ∀ s, M.init s → P s)
    (hstep : ∀ s i, Q i → P s → P (M.step s i))
    (hin : ∀ t, Q (r.input t)) : ∀ t, P (r.state t) := by
  intro t
  induction t with
  | zero => exact hinit _ r.starts
  | succ t ih =>
    rw [r.steps]
    exact hstep _ _ (hin t) ih

end Run

section coupled
variable {η : Type*} (M : Machine σ ι) (answer : η → σ → ι) (react : η → σ → ι → η)

/-- The machine against an environment that keeps a state of its own. -/
def coupled (x : σ × η) : ℕ → σ × η
  | 0 => x
  | t + 1 =>
    let y := coupled x t
    (M.step y.1 (answer y.2 y.1), react y.2 y.1 (answer y.2 y.1))

def coupledRun (x : σ × η) (hx : M.init x.1) : M.Run where
  state t := (M.coupled answer react x t).1
  input t := answer (M.coupled answer react x t).2 (M.coupled answer react x t).1
  starts := hx
  steps _ := rfl

def coupledEnv (x : σ × η) (t : ℕ) : η := (M.coupled answer react x t).2

end coupled
end Machine

/-- Everything a stream of per-cycle observations emits in its first `n` cycles. -/
def emitted (out : ℕ → List ε) (n : ℕ) : List ε := (List.range n).flatMap out

@[simp] theorem emitted_zero (out : ℕ → List ε) : emitted out 0 = [] := rfl

theorem emitted_succ (out : ℕ → List ε) (n : ℕ) :
    emitted out (n + 1) = emitted out n ++ out n := by
  simp [emitted, List.range_succ, List.flatMap_append]

variable {m n : ℕ}

theorem emitted_mono (out : ℕ → List ε) (h : m ≤ n) :
    emitted out m <+: emitted out n := by
  induction n, h using Nat.le_induction with
  | base => exact List.prefix_rfl
  | succ n _ ih => exact ih.trans (emitted_succ out n ▸ List.prefix_append _ _)

theorem emitted_comparable (out : ℕ → List ε) {u v : List ε}
    (hu : u <+: emitted out m) (hv : v <+: emitted out n) : u <+: v ∨ v <+: u := by
  have hu' := hu.trans (emitted_mono out (Nat.le_max_left m n))
  have hv' := hv.trans (emitted_mono out (Nat.le_max_right m n))
  exact List.prefix_or_prefix_of_prefix hu' hv'

/-- How many of the first `n` cycles satisfy `c`. -/
def count (c : ℕ → Bool) : ℕ → ℕ
  | 0 => 0
  | n + 1 => count c n + (c n).toNat

theorem count_mono (c : ℕ → Bool) (h : m ≤ n) : count c m ≤ count c n := by
  induction n, h using Nat.le_induction with
  | base => exact le_rfl
  | succ n _ ih => exact ih.trans (Nat.le_add_right _ _)

theorem exists_count_ge (c : ℕ → Bool) (h : ∀ n, ∃ t ≥ n, c t = true) (k : ℕ) :
    ∃ n, k ≤ count c n := by
  induction k with
  | zero => exact ⟨0, le_rfl⟩
  | succ k ih =>
    obtain ⟨n, hn⟩ := ih
    obtain ⟨t, ht, hc⟩ := h n
    refine ⟨t + 1, ?_⟩
    have hm := count_mono c ht
    simp only [count, hc, Bool.toNat_true]
    omega

theorem false_of_descent (c : ℕ → Bool) (h : ∀ n, ∃ t ≥ n, c t = true) (rank : ℕ → ℕ) {t₀ : ℕ}
    (hstep : ∀ t ≥ t₀, rank (t + 1) + (c t).toNat ≤ rank t) : False := by
  have hsum : ∀ t ≥ t₀, rank t + count c t ≤ rank t₀ + count c t₀ := by
    intro t ht
    induction t, ht using Nat.le_induction with
    | base => exact le_rfl
    | succ t ht ih =>
      have := hstep t ht
      simp only [count]
      omega
  obtain ⟨n, hn⟩ := exists_count_ge c h (rank t₀ + count c t₀ + 1)
  have hle := hsum (max n t₀) (le_max_right _ _)
  have hmono := count_mono c (le_max_left n t₀)
  omega

section handshake
variable {π : Type*} {req ack : ℕ → Bool} {payload : ℕ → π}

/-- A requester that holds its payload until the acknowledge may be sampled in any cycle of the
transaction. -/
def Holds (req ack : ℕ → Bool) (payload : ℕ → π) : Prop :=
  ∀ t, req t = true → ack t = false → req (t + 1) = true ∧ payload (t + 1) = payload t

/-- The transaction acknowledged in cycle `t` was already on the port in cycle `a`. -/
structure Sampled (req ack : ℕ → Bool) (a t : ℕ) : Prop where
  le : a ≤ t
  req : req a = true
  quiet : ∀ u, a ≤ u → u < t → ack u = false

theorem Sampled.held (payload : ℕ → π) {a t : ℕ} (hs : Sampled req ack a t)
    (h : ∀ u < t, req u = true → ack u = false →
      req (u + 1) = true ∧ payload (u + 1) = payload u) :
    req t = true ∧ payload t = payload a := by
  obtain ⟨hle, hreq, hquiet⟩ := hs
  induction t, hle using Nat.le_induction with
  | base => exact ⟨hreq, rfl⟩
  | succ t hat ih =>
    obtain ⟨hr, hp⟩ := ih (fun u hu => h u (by omega)) fun u hu hut => hquiet u hu (by omega)
    obtain ⟨hr', hp'⟩ := h t (by omega) hr (hquiet t hat (by omega))
    exact ⟨hr', hp'.trans hp⟩

theorem Holds.sampled (h : Holds req ack payload) {a t : ℕ} (hs : Sampled req ack a t) :
    req t = true ∧ payload t = payload a :=
  hs.held payload fun u _ => h u

end handshake
end Clocked
