import Mathlib.Order.Basic
import Mathlib.Tactic

/-! Fixed-order arbitration: a scan over the requesters `1, 2, …, n` keeps the first one of the
highest priority; requester 0 stands for nobody. -/
namespace Arbiter

variable {P : Type*} [LinearOrder P]

/-- The winner among the first `n` requesters and its priority, starting from `bot`. -/
def scan (bot : P) (req : ℕ → Bool) (prio : ℕ → P) : ℕ → ℕ × P
  | 0 => (0, bot)
  | n + 1 =>
    let b := scan bot req prio n
    if req (n + 1) = true ∧ b.2 < prio (n + 1) then (n + 1, prio (n + 1)) else b

/-- Requester `k` has the highest priority of all, and the lowest number among its equals. -/
structure Winner (req : ℕ → Bool) (prio : ℕ → P) (n k : ℕ) : Prop where
  pos : 1 ≤ k
  le : k ≤ n
  asks : req k = true
  max : ∀ j, 1 ≤ j → j ≤ n → req j = true → prio j ≤ prio k
  first : ∀ j, 1 ≤ j → j ≤ n → req j = true → prio j = prio k → k ≤ j

/-- The state of the scan after `n` requesters. -/
inductive Scanned (bot : P) (req : ℕ → Bool) (prio : ℕ → P) (n : ℕ) (b : ℕ × P) : Prop
  | nobody (hb : b = (0, bot)) (none : ∀ j, 1 ≤ j → j ≤ n → req j = false)
  | winner (hp : b.2 = prio b.1) (win : Winner req prio n b.1)

variable {bot : P} {req : ℕ → Bool} {prio : ℕ → P}

theorem Winner.keep {n k : ℕ} (h : Winner req prio n k)
    (hn : req (n + 1) = true → prio (n + 1) ≤ prio k) : Winner req prio (n + 1) k where
  pos := h.pos
  le := Nat.le_succ_of_le h.le
  asks := h.asks
  max j h1 h2 hr := by
    obtain h2 | rfl := Nat.le_succ_iff.mp h2
    · exact h.max j h1 h2 hr
    · exact hn hr
  first j h1 h2 hr he := by
    obtain h2 | rfl := Nat.le_succ_iff.mp h2
    · exact h.first j h1 h2 hr he
    · exact Nat.le_succ_of_le h.le

theorem Winner.new {n : ℕ} (hr : req (n + 1) = true)
    (hn : ∀ j, 1 ≤ j → j ≤ n → req j = true → prio j < prio (n + 1)) :
    Winner req prio (n + 1) (n + 1) where
  pos := Nat.succ_pos n
  le := le_rfl
  asks := hr
  max j h1 h2 hj := by
    obtain h2 | rfl := Nat.le_succ_iff.mp h2
    · exact (hn j h1 h2 hj).le
    · exact le_rfl
  first j h1 h2 hj he := by
    obtain h2 | rfl := Nat.le_succ_iff.mp h2
    · exact absurd he (hn j h1 h2 hj).ne
    · exact le_rfl

theorem scan_scanned (h : ∀ j, req j = true → bot < prio j) (n : ℕ) :
    Scanned bot req prio n (scan bot req prio n) := by
  induction n with
  | zero => exact .nobody rfl fun j h1 h2 => by omega
  | succ n ih =>
    unfold scan
    by_cases hc : req (n + 1) = true ∧ (scan bot req prio n).2 < prio (n + 1)
    · simp only [hc, and_self, ↓reduceIte]
      refine .winner rfl (Winner.new hc.1 fun j h1 h2 hj => ?_)
      cases ih with
      | nobody hb hno => simp [hno j h1 h2] at hj
      | winner hp win => exact (win.max j h1 h2 hj).trans_lt (hp ▸ hc.2)
    · simp only [hc, ↓reduceIte]
      cases ih with
      | nobody hb hno =>
        refine .nobody hb fun j h1 h2 => ?_
        obtain h2 | rfl := Nat.le_succ_iff.mp h2
        · exact hno j h1 h2
        · by_contra hr
          have hr := Bool.eq_true_of_not_eq_false hr
          exact hc ⟨hr, by rw [hb]; exact h _ hr⟩
      | winner hp win =>
        refine .winner hp (win.keep fun hr => ?_)
        rw [← hp]
        exact not_lt.mp fun hlt => hc ⟨hr, hlt⟩

theorem scan_winner (h : ∀ j, req j = true → bot < prio j) {n : ℕ}
    (hs : (scan bot req prio n).1 ≠ 0) : Winner req prio n (scan bot req prio n).1 := by
  cases scan_scanned h n with
  | nobody hb => simp [hb] at hs
  | winner _ win => exact win

theorem scan_ne_zero (h : ∀ j, req j = true → bot < prio j) (n : ℕ) :
    (scan bot req prio n).1 ≠ 0 ↔ ∃ j, 1 ≤ j ∧ j ≤ n ∧ req j = true := by
  constructor
  · intro hs
    have hw := scan_winner h hs
    exact ⟨_, hw.pos, hw.le, hw.asks⟩
  · rintro ⟨j, h1, h2, hr⟩ h0
    cases scan_scanned h n with
    | nobody _ hno => simp [hno j h1 h2] at hr
    | winner _ win =>
      have := win.pos
      omega

end Arbiter
