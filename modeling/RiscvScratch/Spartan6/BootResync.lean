import RiscvScratch.Spartan6.BootWindow

/-! The bootloader's hunt for its magic through noise. A byte that breaks a partial match is not
looked at again, so the magic is seen just where the noise is whole failed passes. -/
namespace RiscvScratch.S6Boot

open Program

variable {u : Setup}

variable {α : Type} {noise : List (BitVec 8)}

theorem exists_parting {l m : List α} (hl : ¬l <+: m) (hm : ¬m <+: l) :
    ∃ p x y u v, l = p ++ x :: u ∧ m = p ++ y :: v ∧ x ≠ y := by
  induction l generalizing m with
  | nil => exact absurd List.nil_prefix hl
  | cons a l ih =>
    cases m with
    | nil => exact absurd List.nil_prefix hm
    | cons b m =>
      by_cases hab : a = b
      · subst hab
        rw [List.prefix_cons_inj] at hl hm
        obtain ⟨p, x, y, u, v, rfl, rfl, hxy⟩ := ih hl hm
        exact ⟨a :: p, x, y, u, v, rfl, rfl, hxy⟩
      · exact ⟨[], a, b, l, m, rfl, rfl, hab⟩

/-- The first occurrence of the magic in the noise and the magic after it is that magic. -/
def FirstAtEnd (noise : List (BitVec 8)) : Prop := ¬magic <:+: (noise ++ magic).dropLast

instance (noise : List (BitVec 8)) : Decidable (FirstAtEnd noise) :=
  inferInstanceAs (Decidable (¬_))

/-- Noise that a number of passes take whole, each up to the first byte that is not the one of the
magic it waits for. -/
inductive Dropped : List (BitVec 8) → Prop
  | nil : Dropped []
  | pass {p v l : List (BitVec 8)} {x y : BitVec 8} (hm : magic = p ++ y :: v) (hxy : x ≠ y)
      (hl : Dropped l) : Dropped (p ++ x :: l)

theorem parting_unique {p p' l l' v v' : List α} {x y x' y' : α} (hxy : x ≠ y) (hxy' : x' ≠ y')
    (hl : p ++ x :: l = p' ++ x' :: l') (hv : p ++ y :: v = p' ++ y' :: v') : l = l' := by
  induction p generalizing p' with
  | nil =>
    cases p' with
    | nil => exact (List.cons.inj hl).2
    | cons a p' => exact absurd ((List.cons.inj hl).1.trans (List.cons.inj hv).1.symm) hxy
  | cons a p ih =>
    cases p' with
    | nil => exact absurd ((List.cons.inj hl).1.symm.trans (List.cons.inj hv).1) hxy'
    | cons a' p' => exact ih (List.cons.inj hl).2 (List.cons.inj hv).2

theorem dropped_pass {p v l : List (BitVec 8)} {x y : BitVec 8} (hm : magic = p ++ y :: v)
    (hxy : x ≠ y) : Dropped (p ++ x :: l) ↔ Dropped l := by
  refine ⟨fun h => ?_, .pass hm hxy⟩
  generalize hn : p ++ x :: l = noise at h
  cases h with
  | nil => simp at hn
  | pass hm' hxy' hl' =>
    rw [parting_unique hxy hxy' hn (hm.symm.trans hm')]
    exact hl'

/-- A pass does not end inside the magic. -/
theorem not_dropped (hne : noise ≠ []) (hp : noise <+: magic) : ¬Dropped noise := by
  intro h
  cases h with
  | nil => exact hne rfl
  | @pass p v l x y hm hxy _ =>
    obtain ⟨w, hw⟩ := hp
    rw [hm, List.append_assoc, List.append_cancel_left_eq] at hw
    exact hxy (List.cons.inj hw).1

theorem FirstAtEnd.of_suffix {u : List (BitVec 8)} (h : FirstAtEnd noise)
    (hu : u <:+ noise) : FirstAtEnd u := by
  obtain ⟨w, rfl⟩ := hu
  intro hin
  apply h
  have hne : u ++ magic ≠ [] := by simp [magic]
  rw [List.append_assoc, List.dropLast_append_of_ne_nil hne]
  exact hin.trans (List.suffix_append w _).isInfix

/-- Noise before the first magic begins with a failed pass, or is the beginning of a magic. -/
theorem noise_parts (hne : noise ≠ []) (hfirst : FirstAtEnd noise) :
    (∃ p x y l v, noise = p ++ x :: l ∧ magic = p ++ y :: v ∧ x ≠ y) ∨
      noise <+: magic ∧ noise ≠ magic := by
  by_cases hp : noise <+: magic
  · right
    refine ⟨hp, ?_⟩
    rintro rfl
    exact hfirst (by decide)
  · left
    refine exists_parting hp fun hp' => hfirst ?_
    have hm : magic ≠ [] := by simp [magic]
    rw [List.dropLast_append_of_ne_nil hm]
    exact hp'.isInfix.trans (List.prefix_append noise _).isInfix

/-- One `if (uart_getc() != c) continue;` before the rest of a pass. -/
def expect (c : BitVec 8) (d : Boot PUnit) : Boot PUnit :=
  uartGetc >>= fun b => if b ≠ c then pure ⟨⟩ else d

def answer (u : Setup) : Boot PUnit := do
  uartPutc (ch 'R')
  let len ← getU32
  let entry ← getU32
  record (.header entry len)
  receive u entry len

theorem pass_eq : pass u = magic.foldr expect (answer u) := rfl

theorem expect_ne {b c : BitVec 8} (h : b ≠ c) (d : Boot PUnit) (line : List (BitVec 8))
    (mem : ByteMem.Mem) (tr : List Event) :
    expect c d ⟨b :: line, mem, tr⟩ = .ok ⟨⟩ ⟨line, mem, tr ++ [.got b]⟩ := by
  change (if b ≠ c then (pure ⟨⟩ : Boot PUnit) else d) ⟨line, mem, tr ++ [.got b]⟩ = _
  rw [if_pos h]
  rfl

theorem expect_eq (c : BitVec 8) (d : Boot PUnit) (line : List (BitVec 8)) (mem : ByteMem.Mem)
    (tr : List Event) :
    expect c d ⟨c :: line, mem, tr⟩ = d ⟨line, mem, tr ++ [.got c]⟩ := by
  change (if c ≠ c then (pure ⟨⟩ : Boot PUnit) else d) ⟨line, mem, tr ++ [.got c]⟩ = _
  rw [if_neg (not_not.mpr rfl)]

variable {d : Boot PUnit} {mem : ByteMem.Mem} {l v : List (BitVec 8)} {x y : BitVec 8}

theorem expects_of_parting (hxy : x ≠ y) (p : List (BitVec 8)) (tr : List Event) :
    (p ++ y :: v).foldr expect d ⟨p ++ x :: l, mem, tr⟩ =
      .ok ⟨⟩ ⟨l, mem, tr ++ heard (p ++ [x])⟩ := by
  induction p generalizing tr with
  | nil => exact expect_ne hxy _ l mem tr
  | cons a p ih =>
    rw [List.cons_append, List.foldr_cons, List.cons_append, expect_eq, ih, List.append_assoc]
    rfl

theorem expects_of_match (m : List (BitVec 8)) (tr : List Event) :
    m.foldr expect d ⟨m ++ l, mem, tr⟩ = d ⟨l, mem, tr ++ heard m⟩ := by
  induction m generalizing tr with
  | nil => simp [heard]
  | cons a m ih =>
    rw [List.foldr_cons, List.cons_append, expect_eq, ih, List.append_assoc]
    rfl

theorem bind_of_ok {β : Type} {c : Boot α} {f : α → Boot β} {s s' : Machine} {a : α}
    (h : c s = .ok a s') : (c >>= f) s = f a s' := by
  change EStateM.bind c f s = _
  unfold EStateM.bind
  rw [h]

theorem trace_prefix {c : Boot α} {R : α → List Event → Prop} (h : Records c R)
    (s : Machine) : s.trace <+: (final c s).trace := by
  obtain ⟨t, -, -, ht, -⟩ := final_of_records h s
  exact ⟨t, ht.symm⟩

theorem passes_magic (n : ℕ) (tr : List Event) :
    tr ++ heard magic ++ [.put (ch 'R')] <+:
      (final (passes u (n + 1)) ⟨magic ++ l, mem, tr⟩).trace := by
  have hrest := (getU32_records.bind fun len => getU32_records.bind fun entry =>
    (record_records (.header entry len)).bind fun _ =>
      receive_records u entry len).bind fun _ => passes_records u n
  have hpass : passes u (n + 1) ⟨magic ++ l, mem, tr⟩ =
      (answer u >>= fun _ => passes u n) ⟨l, mem, tr ++ heard magic⟩ := by
    change EStateM.bind (pass u) _ _ = EStateM.bind (answer u) _ _
    unfold EStateM.bind
    rw [pass_eq, expects_of_match]
  have hfinal : final (passes u (n + 1)) ⟨magic ++ l, mem, tr⟩ =
      final (answer u >>= fun _ => passes u n) ⟨l, mem, tr ++ heard magic⟩ :=
    by rw [final, hpass, final]
  rw [hfinal]
  exact trace_prefix hrest ⟨l, mem, tr ++ heard magic ++ [.put (ch 'R')]⟩

theorem final_passes {n : ℕ} {s s' : Machine} (h : pass u s = .ok ⟨⟩ s') :
    final (passes u (n + 1)) s = final (passes u n) s' := by
  rw [final, passes, bind_of_ok h, final]

theorem Session.head_got {P : BitVec 32 → BitVec 32 → Prop} {t : List Event} (h : Session P t) :
    ∃ b r, t = .got b :: r := by
  cases h with
  | @noMagic bs x b _ _ =>
    cases bs with
    | nil => exact ⟨b, [], rfl⟩
    | cons a bs => exact ⟨a, heard (bs ++ [b]), rfl⟩
  | header _ => exact ⟨ch 'S', _, rfl⟩

/-- Passes begin by taking a byte. -/
theorem passes_silent (n : ℕ) (s : Machine) (c : BitVec 8) :
    ¬s.trace ++ [.put c] <+: (final (passes u n) s).trace := by
  obtain ⟨t, -, -, ht, ⟨ss, rfl, hss⟩, hp⟩ := final_of_records (passes_records u n) s
  rw [ht, List.prefix_append_right_inj]
  intro hput
  have hflat := hput.trans hp
  cases ss with
  | nil => simp at hflat
  | cons x ss =>
    obtain ⟨b, r, rfl⟩ := (hss x List.mem_cons_self).head_got
    simp at hflat

/-- Bytes that begin no magic are taken one by one, without an answer. -/
theorem passes_skip (bs : List (BitVec 8)) (hbs : ch 'S' ∉ bs) (n : ℕ) (tr : List Event)
    (c : BitVec 8) :
    ¬tr ++ heard bs ++ [.put c] <+: (final (passes u n) ⟨bs ++ l, mem, tr⟩).trace := by
  induction bs generalizing n tr with
  | nil => simpa [heard] using passes_silent n ⟨l, mem, tr⟩ c
  | cons b bs ih =>
    rw [List.mem_cons, not_or] at hbs
    cases n with
    | zero =>
      intro hp
      have := hp.length_le
      simp [final, passes, pure, EStateM.pure] at this
    | succ n =>
      have hpass : pass u ⟨b :: bs ++ l, mem, tr⟩ = .ok ⟨⟩ ⟨bs ++ l, mem, tr ++ heard [b]⟩ :=
        expects_of_parting (v := [ch '6', ch 'L', ch 'D']) (Ne.symm hbs.1) [] tr
      rw [final_passes hpass]
      simpa [heard] using ih hbs.2 n (tr ++ heard [b])

/-- Behind the beginning of a magic, the next magic loses its `S` to it. -/
theorem partial_unanswered (hne : noise ≠ []) (hp : noise <+: magic) (hfull : noise ≠ magic)
    (n : ℕ) (tr : List Event) (rest : List (BitVec 8)) :
    ¬tr ++ heard (noise ++ magic) ++ [.put (ch 'R')] <+:
      (final (passes u (n + 1)) ⟨noise ++ magic ++ rest, mem, tr⟩).trace := by
  obtain ⟨w, hw⟩ := hp
  cases w with
  | nil => exact absurd (by simpa using hw) hfull
  | cons y v =>
    have hy : ch 'S' ≠ y := by
      cases noise with
      | nil => exact absurd rfl hne
      | cons a p =>
        have hmem : y ∈ [ch '6', ch 'L', ch 'D'] := by
          rw [← (List.cons.inj hw).2]
          simp
        rintro rfl
        exact absurd hmem (by decide)
    have hline : noise ++ magic ++ rest = noise ++ ch 'S' :: ([ch '6', ch 'L', ch 'D'] ++ rest) :=
      by simp [magic]
    have hpass : pass u ⟨noise ++ magic ++ rest, mem, tr⟩ = .ok ⟨⟩
        ⟨[ch '6', ch 'L', ch 'D'] ++ rest, mem, tr ++ heard (noise ++ [ch 'S'])⟩ := by
      rw [pass_eq, hline, ← hw]
      exact expects_of_parting hy noise tr
    have hheard : tr ++ heard (noise ++ magic) =
        tr ++ heard (noise ++ [ch 'S']) ++ heard [ch '6', ch 'L', ch 'D'] := by
      simp [heard, magic]
    rw [final_passes hpass, hheard]
    exact passes_skip _ (by decide) n _ _

/-- The magic after noise is answered at once, just where the noise is whole failed passes. -/
theorem resynchronises (u : Setup) (noise rest : List (BitVec 8)) (mem : ByteMem.Mem)
    (tr : List Event) (n : ℕ) (hn : noise.length < n) (hfirst : FirstAtEnd noise) :
    tr ++ heard (noise ++ magic) ++ [.put (ch 'R')] <+:
        (final (passes u n) ⟨noise ++ magic ++ rest, mem, tr⟩).trace ↔ Dropped noise := by
  induction n generalizing noise tr with
  | zero => omega
  | succ n ih =>
    by_cases hne : noise = []
    · subst hne
      exact iff_of_true (passes_magic n tr) .nil
    rcases noise_parts hne hfirst with ⟨p, x, y, l, v, rfl, hm, hxy⟩ | ⟨hp, hfull⟩
    · -- one pass takes `p` and `x`
      have hl := ih l (tr ++ heard (p ++ [x])) (by simp at hn; omega)
        (hfirst.of_suffix ⟨p ++ [x], by simp⟩)
      have hpass : pass u ⟨p ++ x :: l ++ magic ++ rest, mem, tr⟩ =
          .ok ⟨⟩ ⟨l ++ magic ++ rest, mem, tr ++ heard (p ++ [x])⟩ := by
        rw [pass_eq, hm]
        simpa using expects_of_parting (l := l ++ (p ++ y :: v) ++ rest) hxy p tr
      rw [final_passes hpass, dropped_pass hm hxy, ← hl]
      simp [heard]
    · exact iff_of_false (partial_unanswered hne hp hfull n tr rest) (not_dropped hne hp)

theorem newline_resynchronises : heard ([ch '\n'] ++ magic) ++ [.put (ch 'R')] <+:
      (final (passes kit 2) (fresh ([ch '\n'] ++ magic))).trace := by
  have hdrop : Dropped [ch '\n'] :=
    .pass (p := []) (v := [ch '6', ch 'L', ch 'D']) (y := ch 'S') rfl (by decide) .nil
  have h := (resynchronises kit [ch '\n'] [] (fun _ => 0#8) [] 2 (by decide) (by decide)).mpr hdrop
  rwa [List.nil_append, List.append_nil] at h

/-- One `S` before the magic: both are taken for noise, and the loader waits without an answer. -/
theorem doubled_unanswered : FirstAtEnd [ch 'S'] ∧
      (final (passes kit 6) (fresh (ch 'S' :: magic))).trace = heard (ch 'S' :: magic) := by
  decide +kernel

end RiscvScratch.S6Boot
