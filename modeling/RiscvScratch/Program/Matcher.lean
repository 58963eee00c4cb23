import Mathlib.Tactic

/-! A streaming search for a word whose first letter does not come again in it: what is kept is how
much of the word the letters so far end with. -/
namespace Matcher

variable {α : Type*}

def advance [DecidableEq α] (p : List α) (k : ℕ) (c : α) : ℕ :=
  if p[k]? = some c then k + 1 else if p[0]? = some c then 1 else 0

/-- The longest beginning of `p` that `l` ends with. -/
structure Longest (p l : List α) (k : ℕ) : Prop where
  lt : k < p.length
  suffix : p.take k <:+ l
  max : ∀ j ≤ p.length, p.take j <:+ l → j ≤ k

variable {p l : List α} {k j : ℕ} {c : α}

theorem take_suffix_concat (hj : j < p.length) :
    p.take (j + 1) <:+ l ++ [c] ↔ p[j]? = some c ∧ p.take j <:+ l := by
  rw [List.take_add_one, List.getElem?_eq_getElem hj, Option.toList_some, List.suffix_concat_iff,
    Option.some_inj]
  constructor
  · rintro (h | ⟨t, ht, hs⟩)
    · exact absurd (List.append_eq_nil_iff.mp h).2 (List.cons_ne_nil _ _)
    · obtain ⟨rfl, hc⟩ := List.append_inj' ht rfl
      exact ⟨List.singleton_inj.mp hc, hs⟩
  · rintro ⟨rfl, hs⟩
    exact .inr ⟨_, rfl, hs⟩

variable (h : Longest p l k) (hp : ∀ i, 0 < i → p[i]? ≠ p[0]?)
include h hp

theorem Longest.short (hj : j < k) (hs : p.take j <:+ l) : j = 0 := by
  by_contra hne
  have hk := h.lt
  have hin : p.take j <:+ p.take k :=
    List.suffix_of_suffix_length_le hs h.suffix (by simp; omega)
  obtain ⟨t, ht⟩ := hin
  have hlen : t.length = k - j := by
    have := congrArg List.length ht
    simp only [List.length_append, List.length_take] at this
    omega
  have hget := congrArg (·[k - j]?) ht
  simp only [List.getElem?_append_right hlen.le, hlen, Nat.sub_self, List.getElem?_take] at hget
  rw [if_pos (by omega), if_pos (by omega)] at hget
  exact hp (k - j) (by omega) hget.symm

theorem Longest.restart (hc : p[k]? ≠ some c) (hj : j < p.length)
    (hs : p.take (j + 1) <:+ l ++ [c]) : j = 0 ∧ p[0]? = some c := by
  obtain ⟨hget, hs⟩ := (take_suffix_concat hj).mp hs
  have hle := h.max j hj.le hs
  have hne : j ≠ k := fun e => hc (e ▸ hget)
  obtain rfl := h.short hp (by omega) hs
  exact ⟨rfl, hget⟩

variable [DecidableEq α] (c)

theorem Longest.advance : p.take (advance p k c) <:+ l ++ [c] ∧
    ∀ j ≤ p.length, p.take j <:+ l ++ [c] → j ≤ advance p k c := by
  have hk := h.lt
  unfold Matcher.advance
  split_ifs with hnext hfirst
  · refine ⟨(take_suffix_concat hk).mpr ⟨hnext, h.suffix⟩, fun j hj hs => ?_⟩
    rcases j with _ | j
    · exact Nat.zero_le _
    · have := h.max j (by omega) ((take_suffix_concat hj).mp hs).2
      omega
  · refine ⟨(take_suffix_concat (by omega)).mpr ⟨hfirst, by simp⟩, fun j hj hs => ?_⟩
    rcases j with _ | j
    · exact Nat.zero_le _
    · exact ((h.restart hp hnext hj hs).1 ▸ le_rfl)
  · refine ⟨by simp, fun j hj hs => ?_⟩
    rcases j with _ | j
    · exact le_rfl
    · exact absurd (h.restart hp hnext hj hs).2 hfirst

theorem Longest.next (hne : Matcher.advance p k c ≠ p.length) :
    Longest p (l ++ [c]) (Matcher.advance p k c) := by
  obtain ⟨hs, hmax⟩ := h.advance c hp
  refine ⟨?_, hs, hmax⟩
  have := h.lt
  unfold Matcher.advance at hne ⊢
  split_ifs at hne ⊢ <;> omega

end Matcher
