import Mathlib.Tactic

/-! Weakest preconditions for programs over a state that may stop before they return, keeping the
state they stopped in. -/
namespace Program

variable {σ ε α β : Type}

/-- From `s`, `c` returns into `Q` or stops in `E`. -/
def Wp (c : EStateM ε σ α) (Q : α → σ → Prop) (E : ε → σ → Prop) (s : σ) : Prop :=
  match c s with
  | .ok a s' => Q a s'
  | .error e s' => E e s'

variable {Q Q' : α → σ → Prop} {E E' : ε → σ → Prop} {s : σ}

theorem wp_pure {a : α} : Wp (pure a : EStateM ε σ α) Q E s ↔ Q a s := Iff.rfl

theorem wp_throw {e : ε} : Wp (throw e : EStateM ε σ α) Q E s ↔ E e s := Iff.rfl

theorem wp_modify {f : σ → σ} {Q : PUnit → σ → Prop} :
    Wp (modify f : EStateM ε σ PUnit) Q E s ↔ Q ⟨⟩ (f s) := Iff.rfl

theorem wp_set {t : σ} {Q : PUnit → σ → Prop} :
    Wp (set t : EStateM ε σ PUnit) Q E s ↔ Q ⟨⟩ t := Iff.rfl

theorem wp_get {Q : σ → σ → Prop} : Wp (get : EStateM ε σ σ) Q E s ↔ Q s s := Iff.rfl

variable {c : EStateM ε σ α}

theorem wp_bind {f : α → EStateM ε σ β} {R : β → σ → Prop} :
    Wp (c >>= f) R E s ↔ Wp c (fun a => Wp (f a) R E) E s := by
  change Wp (EStateM.bind c f) R E s ↔ _
  unfold Wp EStateM.bind
  cases c s <;> exact Iff.rfl

theorem Wp.imp (h : Wp c Q E s) (hQ : ∀ a s', Q a s' → Q' a s')
    (hE : ∀ e s', E e s' → E' e s') : Wp c Q' E' s := by
  unfold Wp at h ⊢
  cases hc : c s with
  | ok a s' => rw [hc] at h; exact hQ a s' h
  | error e s' => rw [hc] at h; exact hE e s' h

theorem Wp.bind {f : α → EStateM ε σ β} {R : β → σ → Prop}
    (h : Wp c Q E' s) (hf : ∀ a s', Q a s' → Wp (f a) R E s') (hE : ∀ e s', E' e s' → E e s') :
    Wp (c >>= f) R E s := wp_bind.mpr (h.imp hf hE)

theorem Wp.ite {p : Prop} [Decidable p] {d : EStateM ε σ α} (hc : p → Wp c Q E s)
    (hd : ¬p → Wp d Q E s) : Wp (if p then c else d) Q E s := by
  by_cases h : p
  · rw [if_pos h]; exact hc h
  · rw [if_neg h]; exact hd h

theorem Wp.returns (h : Wp c Q (fun _ _ => False) s) :
    ∃ a s', c s = .ok a s' ∧ Q a s' := by
  unfold Wp at h
  cases hc : c s with
  | ok a s' => rw [hc] at h; exact ⟨a, s', rfl, h⟩
  | error e s' => rw [hc] at h; exact h.elim

theorem Wp.stops (h : Wp c (fun _ _ => False) E s) :
    ∃ e s', c s = .error e s' ∧ E e s' := by
  unfold Wp at h
  cases hc : c s with
  | ok a s' => rw [hc] at h; exact h.elim
  | error e s' => rw [hc] at h; exact ⟨e, s', rfl, h⟩

/-- However `c` ends, `R` relates the state before to the state after; what it returns meets `V`. -/
structure Moves (R : σ → σ → Prop) (V : α → Prop) (c : EStateM ε σ α) : Prop where
  wp : ∀ s, Wp c (fun a s' => R s s' ∧ V a) (fun _ s' => R s s') s

section moves
variable {R : σ → σ → Prop} {V : α → Prop} {W : β → Prop} {c : EStateM ε σ α}

theorem moves_pure (hR : ∀ s, R s s) {a : α} (ha : V a) : Moves R V (pure a : EStateM ε σ α) :=
  ⟨fun s => wp_pure.mpr ⟨hR s, ha⟩⟩

theorem moves_throw (hR : ∀ s, R s s) (e : ε) : Moves R V (throw e : EStateM ε σ α) :=
  ⟨fun s => wp_throw.mpr (hR s)⟩

theorem moves_modify {f : σ → σ} {V : PUnit → Prop} (hf : ∀ s, R s (f s)) (hV : V ⟨⟩) :
    Moves R V (modify f : EStateM ε σ PUnit) :=
  ⟨fun s => wp_modify.mpr ⟨hf s, hV⟩⟩

theorem Moves.bind {f : α → EStateM ε σ β} (hc : Moves R V c)
    (hR : ∀ s t u, R s t → R t u → R s u) (hf : ∀ a, V a → Moves R W (f a)) :
    Moves R W (c >>= f) := by
  constructor
  intro s
  refine (hc.wp s).bind ?_ fun _ _ h => h
  rintro a t ⟨ht, ha⟩
  refine ((hf a ha).wp t).imp ?_ ?_
  · rintro b u ⟨hu, hb⟩
    exact ⟨hR s t u ht hu, hb⟩
  · intro _ u hu
    exact hR s t u ht hu

theorem Moves.imp {V' : α → Prop} (hc : Moves R V c) (hV : ∀ a, V a → V' a) : Moves R V' c :=
  ⟨fun s => (hc.wp s).imp (fun a _ h => ⟨h.1, hV a h.2⟩) fun _ _ h => h⟩

end moves

end Program
