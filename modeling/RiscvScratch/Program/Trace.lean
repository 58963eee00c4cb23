import RiscvScratch.Program.Wp

/-! Programs that record what they do; one that stops early has recorded the beginning of a record
of one that returns. -/
namespace Program

variable {σ ε ι α β : Type} (tr : σ → List ι)

/-- Every run of `c` extends the record, by a `t` with `R a t` if it returns `a`, by the beginning
of one if it stops. -/
structure Traces (c : EStateM ε σ α) (R : α → List ι → Prop) : Prop where
  wp : ∀ s, Wp c (fun a s' => ∃ t, tr s' = tr s ++ t ∧ R a t)
    (fun _ s' => ∃ t, tr s' = tr s ++ t ∧ ∃ a u, R a u ∧ t <+: u) s

variable {tr} {c : EStateM ε σ α} {R R' : α → List ι → Prop}

theorem traces_pure (a : α) : Traces tr (pure a : EStateM ε σ α) (fun b t => b = a ∧ t = []) :=
  ⟨fun _ => wp_pure.mpr ⟨[], (List.append_nil _).symm, rfl, rfl⟩⟩

theorem Traces.mono (h : Traces tr c R) (hR : ∀ a t, R a t → R' a t) : Traces tr c R' := by
  constructor
  intro s
  refine (h.wp s).imp ?_ ?_
  · rintro a s' ⟨t, ht, hr⟩
    exact ⟨t, ht, hR a t hr⟩
  · rintro e s' ⟨t, ht, a, u, hr, hp⟩
    exact ⟨t, ht, a, u, hR a u hr, hp⟩

theorem Traces.exists_record (h : Traces tr c R) (s : σ) : ∃ a t, R a t := by
  have hs := h.wp s
  unfold Wp at hs
  split at hs
  · obtain ⟨t, -, hr⟩ := hs
    exact ⟨_, t, hr⟩
  · obtain ⟨t, -, a, u, hr, -⟩ := hs
    exact ⟨a, u, hr⟩

theorem Traces.bind {f : α → EStateM ε σ β} {S : α → β → List ι → Prop} (hc : Traces tr c R)
    (hf : ∀ a, Traces tr (f a) (S a)) :
    Traces tr (c >>= f) (fun b t => ∃ a t₁ t₂, R a t₁ ∧ S a b t₂ ∧ t = t₁ ++ t₂) := by
  constructor
  intro s
  refine (hc.wp s).bind ?_ ?_
  · rintro a s₁ ⟨t₁, ht₁, hr⟩
    refine ((hf a).wp s₁).imp ?_ ?_
    · rintro b s₂ ⟨t₂, ht₂, hs⟩
      exact ⟨t₁ ++ t₂, by rw [ht₂, ht₁, List.append_assoc], a, t₁, t₂, hr, hs, rfl⟩
    · rintro e s₂ ⟨t₂, ht₂, b, u, hs, hp⟩
      exact ⟨t₁ ++ t₂, by rw [ht₂, ht₁, List.append_assoc], b, t₁ ++ u,
        ⟨a, t₁, u, hr, hs, rfl⟩, (List.prefix_append_right_inj t₁).mpr hp⟩
  · rintro e s₁ ⟨t, ht, a, u, hr, hp⟩
    -- the second part never ran: any record of it completes the first's
    obtain ⟨b, v, hs⟩ := (hf a).exists_record s₁
    exact ⟨t, ht, b, u ++ v, ⟨a, u, v, hr, hs, rfl⟩, hp.trans (List.prefix_append u v)⟩

theorem Traces.ite {p : Prop} [Decidable p] {d : EStateM ε σ α} (hc : p → Traces tr c R)
    (hd : ¬p → Traces tr d R) : Traces tr (if p then c else d) R := by
  by_cases h : p
  · rw [if_pos h]; exact hc h
  · rw [if_neg h]; exact hd h

end Program
