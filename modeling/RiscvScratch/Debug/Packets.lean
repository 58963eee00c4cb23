import RiscvScratch.Debug.StopReplies

/-!
The packets of a debugger through the receive loop. However the transport cuts their stream, they
are handled in order, each acknowledged and answered once, until a handler raises an exception.
-/
namespace RiscvScratch.Gdbstub

open Program

variable {μ : Type} {e : Setup μ} {s : Server μ} {a body more : Str} {ps : List (Str × Str)}

/-- What a debugger sends between packets: acknowledgements, and no interrupt. -/
def Acks (a : Str) : Prop := '$' ∉ a ∧ '#' ∉ a ∧ ctrlC ∉ a

/-- Bodies as they are sent, each with the acknowledgements before it. -/
def stream (ps : List (Str × Str)) : Str := ps.flatMap fun p => p.1 ++ frame p.2

def Sendable (ps : List (Str × Str)) : Prop := ∀ p ∈ ps, Acks p.1 ∧ '#' ∉ p.2

/-- Of the bodies, those before the rest are taken one after another, each acknowledged and
answered, and nothing else happens. -/
inductive Answered : List Str → List Str → List Event → Prop where
  | nil (rest : List Str) : Answered rest rest []
  | cons {bodies rest : List Str} {t : List Event} (body r : Str) (h h' : Bool)
      (ht : Answered bodies rest t) :
      Answered (body :: bodies) rest (.packet body h :: .sent ['+'] h :: .sent (frame r) h' :: t)

theorem Answered.trans {l m n : List Str} {t t' : List Event} (h : Answered l m t)
    (h' : Answered m n t') : Answered l n (t ++ t') := by
  induction h with
  | nil => exact h'
  | cons body r k k' _ ih => exact (ih h').cons body r k k'

/-- From `s` on bodies were answered up to one whose handler has raised an exception. -/
def Raised (bodies : List Str) (s s' : Server μ) : Prop :=
  ∃ t body rest h, Answered bodies (body :: rest) t ∧
    s'.trace = s.trace ++ (t ++ [.packet body h, .sent ['+'] h])

theorem Answered.raised {l m : List Str} {t : List Event} {s₁ s' : Server μ}
    (h : Answered l m t) (ht : s₁.trace = s.trace ++ t) (h' : Raised m s₁ s') :
    Raised l s s' := by
  obtain ⟨t', body, rest, k, ha, ht'⟩ := h'
  refine ⟨t ++ t', body, rest, k, h.trans ha, ?_⟩
  rw [ht', ht]
  simp only [List.append_assoc]

theorem idxOf_hash {rest : Str} (hb : '#' ∉ body) :
    ('$' :: (body ++ '#' :: rest)).idxOf '#' = body.length + 1 := by
  rw [List.idxOf_cons_ne _ (by decide), List.idxOf_append_of_notMem hb, List.idxOf_cons_self,
    Nat.add_zero]

theorem turn_frame {c₁ c₂ : Char} (ha : Acks a) (hb : '#' ∉ body)
    (hs : s.buf = a ++ '$' :: (body ++ '#' :: c₁ :: c₂ :: more)) :
    turn e s = (do let reply ← handle e body; sendall (frame reply)) (accepted s body more) := by
  have hhead : s.buf.head? ≠ some ctrlC := by
    rw [hs]
    cases a with
    | nil => simp [ctrlC]
    | cons c a =>
      intro h
      exact ha.2.2 (Option.some.inj h ▸ List.mem_cons_self)
  have hi : s.buf.idxOf '$' = a.length := by
    rw [hs, List.idxOf_append_of_notMem ha.1, List.idxOf_cons_self, Nat.add_zero]
  have hdrop : s.buf.drop a.length = '$' :: (body ++ '#' :: c₁ :: c₂ :: more) := by
    rw [hs, List.drop_left]
  have hlen : s.buf.length = a.length + (body.length + (more.length + 3) + 1) := by
    rw [hs]
    simp
  have hbody : (s.buf.drop (a.length + 1)).take body.length = body := by
    rw [← List.drop_drop, hdrop]
    exact List.take_left' rfl
  have hmore : s.buf.drop (a.length + (body.length + 1) + 3) = more := by
    rw [Nat.add_assoc, ← List.drop_drop, hdrop]
    simp
  have hturn : turn e s = (if s.buf.head? = some ctrlC then _ else _ : Stub μ PUnit) s := rfl
  rw [hturn, if_neg hhead]
  dsimp only
  rw [hi, if_neg (by omega), hdrop, idxOf_hash hb, if_neg (by omega), Nat.add_sub_cancel]
  change (do let reply ← handle e _; sendall (frame reply) : Stub μ PUnit) (accepted s _ _) = _
  rw [hbody, hmore]

theorem turn_answers (hidle : ∀ t, 0 < e.idle t) {c₁ c₂ : Char} (ha : Acks a) (hb : '#' ∉ body)
    (rest : List Str) (hs : s.buf = a ++ '$' :: (body ++ '#' :: c₁ :: c₂ :: more)) :
    Wp (turn e) (fun _ s' => s'.buf = more ∧
        ∃ t, s'.trace = s.trace ++ t ∧ Answered (body :: rest) rest t)
      (fun _ => Raised (body :: rest) s) s := by
  unfold Wp
  rw [turn_frame ha hb hs]
  refine (handles_handle hidle body (accepted s body more)).bind ?_ ?_
  · intro r s' hr
    refine ⟨hr.buf, _, ?_, .cons body r s.halted s'.halted (.nil rest)⟩
    change s'.trace ++ [_] = _
    rw [hr.trace, accepted]
    simp [Server.halted]
  · intro _ s' hq
    refine ⟨[], body, rest, s.halted, .nil _, ?_⟩
    rw [hq.trace, accepted]
    simp [Server.halted]

theorem stream_cons (p : Str × Str) (ps : List (Str × Str)) :
    stream (p :: ps) = p.1 ++ '$' :: (p.2 ++ '#' :: (hex2 (checksum p.2) ++ stream ps)) := by
  simp [stream, frame]

/-- A complete buffer holds the next packet whole. -/
theorem complete_stream {buf rest : Str} (hps : Sendable ps) (h : buf ++ rest = stream ps)
    (hc : complete buf = true) :
    ∃ p ps' more, ps = p :: ps' ∧ more ++ rest = stream ps' ∧
      buf = p.1 ++ '$' :: (p.2 ++ '#' :: (hex2 (checksum p.2) ++ more)) := by
  have hlt : buf.idxOf '#' + 2 < buf.length := of_decide_eq_true hc
  cases ps with
  | nil =>
    rw [(List.append_eq_nil_iff.mp h).1] at hlt
    exact absurd hlt (by decide)
  | cons p ps' =>
    obtain ⟨ha, hb⟩ := hps p List.mem_cons_self
    rw [stream_cons] at h
    have hmem : '#' ∈ buf := List.idxOf_lt_length_iff.mp (by omega)
    have hidx : buf.idxOf '#' = p.1.length + (p.2.length + 1) := by
      rw [← List.idxOf_append_of_mem hmem, h, List.idxOf_append_of_notMem ha.2.1, idxOf_hash hb]
    have hlen : (p.1 ++ frame p.2).length ≤ buf.length := by
      simp only [frame, hex2, List.length_append, List.length_cons, List.length_nil]
      omega
    have hpre : p.1 ++ frame p.2 <+: buf ++ rest := ⟨stream ps', by simp [h, frame]⟩
    obtain ⟨more, rfl⟩ := List.prefix_of_prefix_length_le hpre (List.prefix_append buf rest) hlen
    refine ⟨p, ps', more, rfl, ?_, by simp [frame]⟩
    simpa [frame] using h

theorem turns_answer (hidle : ∀ t, 0 < e.idle t) {rest : Str} (hps : Sendable ps) (n : ℕ)
    (hn : s.buf.length ≤ n) (h : s.buf ++ rest = stream ps) :
    Wp (turns e n) (fun _ s' => complete s'.buf = false ∧ ∃ ps' t, Sendable ps' ∧
        s'.buf ++ rest = stream ps' ∧ s'.trace = s.trace ++ t ∧
        Answered (ps.map Prod.snd) (ps'.map Prod.snd) t)
      (fun _ => Raised (ps.map Prod.snd) s) s := by
  induction n generalizing s ps with
  | zero =>
    refine wp_pure.mpr ⟨?_, ps, [], hps, h, (List.append_nil _).symm, .nil _⟩
    unfold complete
    exact decide_eq_false (by omega)
  | succ n ih =>
    unfold Wp
    rw [turns_succ]
    by_cases hc : complete s.buf = true
    · obtain ⟨p, ps', more, rfl, hmore, hbuf⟩ := complete_stream hps h hc
      obtain ⟨ha, hb⟩ := hps p List.mem_cons_self
      rw [if_pos hc]
      refine (turn_answers hidle ha hb (ps'.map Prod.snd) hbuf).bind ?_ fun _ _ h => h
      rintro _ s₁ ⟨rfl, t₁, ht₁, hq₁⟩
      have hlen : s₁.buf.length ≤ n := by
        rw [hbuf] at hn
        simp at hn
        omega
      refine (ih (fun q hq => hps q (List.mem_cons_of_mem p hq)) hlen hmore).imp ?_ ?_
      · rintro _ s' ⟨hd, ps'', t, hps'', hrest, ht, hq⟩
        refine ⟨hd, ps'', t₁ ++ t, hps'', hrest, ?_, hq₁.trans hq⟩
        rw [ht, ht₁, List.append_assoc]
      · intro _ s' hr
        exact hq₁.raised ht₁ hr
    · rw [if_neg hc]
      exact ⟨by simpa using hc, ps, [], hps, h, (List.append_nil _).symm, .nil _⟩

/-- Packets, cut into chunks in any way, are taken as they were sent, each acknowledged and answered
before the next; where a handler raises an exception the server ends. -/
theorem packets_in_order (e : Setup μ) (hidle : ∀ t, 0 < e.idle t) (ps : List (Str × Str))
    (hps : Sendable ps) (chunks : List (ℕ × Str)) (s : Server μ)
    (hs : complete s.buf = false) (h : s.buf ++ chunks.flatMap (·.2) = stream ps) :
    Wp (serve e chunks)
      (fun _ s' => s'.buf = [] ∧ ∃ t, s'.trace = s.trace ++ t ∧ Answered (ps.map Prod.snd) [] t)
      (fun _ => Raised (ps.map Prod.snd) s) s := by
  induction chunks generalizing s ps with
  | nil =>
    rw [List.flatMap_nil, List.append_nil] at h
    cases ps with
    | nil => exact wp_pure.mpr ⟨h, [], (List.append_nil _).symm, .nil _⟩
    | cons p ps =>
      obtain ⟨ha, hb⟩ := hps p List.mem_cons_self
      rw [h, stream_cons] at hs
      have hlt := of_decide_eq_false hs
      rw [List.idxOf_append_of_notMem ha.2.1, idxOf_hash hb] at hlt
      simp [hex2] at hlt
      omega
  | cons chunk rest ih =>
    have hbuf : (arrived e chunk.1 chunk.2 s).buf ++ rest.flatMap (·.2) = stream ps := by
      rw [← h, List.flatMap_cons, ← List.append_assoc]
      rfl
    have htrace : (arrived e chunk.1 chunk.2 s).trace = s.trace := (wait_record chunk.1 s).1
    have hrecv := turns_answer hidle hps _ le_rfl hbuf
    unfold Raised at hrecv
    rw [htrace] at hrecv
    refine Wp.bind (c := recv e chunk.1 chunk.2) hrecv ?_ fun _ _ h => h
    rintro _ s₁ ⟨hc, ps', t, hps', hrest, ht, hq⟩
    refine (ih ps' hps' s₁ hc hrest).imp ?_ fun _ _ hr => hq.raised ht hr
    rintro _ s' ⟨hb, t', ht', hq'⟩
    refine ⟨hb, t ++ t', ?_, hq.trans hq'⟩
    rw [ht', ht, List.append_assoc]

/-- Two packets, the first cut before its checksum. -/
theorem cut_packets_answered :
    Wp (serve nops [(0, "$?#".toList), (1, "3f+$qC#b4".toList)])
      (fun _ s' => s'.buf = [] ∧ ∃ t, s'.trace = [] ++ t ∧ Answered [['?'], ['q', 'C']] [] t)
      (fun _ => Raised [['?'], ['q', 'C']] fresh) fresh :=
  packets_in_order nops (fun _ => Nat.one_pos) [([], ['?']), (['+'], ['q', 'C'])]
    (by simp [Sendable, Acks, ctrlC]) _ fresh rfl (by decide)

end RiscvScratch.Gdbstub
