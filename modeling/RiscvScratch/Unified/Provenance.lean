import RiscvScratch.Clocked.Conveyor
import RiscvScratch.Unified.Decoded

/-! Where an instruction came from: every slot of the pipe is tagged with the cycle in which its
instruction was fetched. -/
namespace RiscvScratch.Unified

variable {c : Cfg}

/-- The fetch cycle of the instruction in each slot, and the cycle in which the one in MEM
left EX. -/
structure Tags where
  ifid : ℕ
  idex : ℕ
  exmem : ℕ
  memwb : ℕ
  left : ℕ

def nextTags (c : Cfg) (s : State) (i : Input) (t : ℕ) (g : Tags) : Tags where
  ifid := if freeze c s i || frontHold c s i then g.ifid else t
  idex := if freeze c s i || exHold c s i then g.idex else g.ifid
  exmem := if freeze c s i then g.exmem else g.idex
  memwb := if freeze c s i then g.memwb else g.exmem
  left := if freeze c s i then g.left else t

def tags (r : Run c) : ℕ → Tags
  | 0 => ⟨0, 0, 0, 0, 0⟩
  | t + 1 => nextTags c (r.state t) (r.input t) t (tags r t)

def slot (valid : Bool) (g : ℕ) : List ℕ := if valid then [g] else []

@[simp] theorem slot_true (g : ℕ) : slot true g = [g] := rfl
@[simp] theorem slot_false (g : ℕ) : slot false g = [] := rfl

variable (r : Run c)

def behind (t : ℕ) : List ℕ := slot (r.state t).ifid.valid (tags r t).ifid

def front (t : ℕ) : List ℕ :=
  slot (r.state t).idex.valid (tags r t).idex ++ behind r t

theorem slot_sublist (v : Bool) (g : ℕ) : (slot v g).Sublist [g] := by
  cases v <;> simp

theorem front_step (t : ℕ) :
    (exGo c (r.state t) (r.input t) = false ∧ (front r (t + 1)).Sublist (front r t ++ [t])) ∨
      (front r (t + 1)).Sublist (behind r t ++ [t]) := by
  have hstep := run_step r t
  cases step_move c (r.state t) (r.input t) with
  | frozen hf _ hid hex _ _ =>
    left
    refine ⟨not_exGo_of_freeze hf, ?_⟩
    simp [front, behind, hstep, hid, hex, tags, nextTags, hf, relatched]
  | held hf hh _ hid hex _ _ =>
    left
    refine ⟨not_exGo_of_hold hh, ?_⟩
    simp [front, behind, hstep, hid, hex, tags, nextTags, hf, hh, frontHold, relatched]
  | flushed _ _ _ hid hex _ _ =>
    right
    simp [front, behind, hstep, hid, hex, IfId.bubble, IdEx.bubble]
  | bubbled hf hh _ hl _ hid hex _ _ =>
    right
    simp [front, behind, hstep, hid, hex, tags, nextTags, hf, hh, frontHold, hl, IdEx.bubble]
  | advanced hf hh _ hl _ hid hex _ _ =>
    right
    have hnew : (behind r (t + 1)).Sublist [t] := by
      have : (tags r (t + 1)).ifid = t := by simp [tags, nextTags, hf, hh, frontHold, hl]
      rw [behind, this]
      exact slot_sublist _ _
    have hold : slot (r.state (t + 1)).idex.valid (tags r (t + 1)).idex = behind r t := by
      simp [behind, hstep, hex, tags, nextTags, hf, hh, decode]
    rw [front, hold]
    exact List.Sublist.append (List.Sublist.refl _) hnew

theorem behind_sublist_front (t : ℕ) : (behind r t).Sublist (front r t) :=
  List.sublist_append_right _ _

theorem front_conveyor : Clocked.Conveyor (front r) where
  start := by
    obtain ⟨u, hu⟩ := r.starts
    simp [front, behind, hu, reset, IfId.bubble, IdEx.bubble]
  step t := by
    obtain ⟨-, h⟩ | h := front_step r t
    · exact h
    · exact h.trans ((behind_sublist_front r t).append_right [t])

theorem front_of_redirect {t : ℕ}
    (h : redirect c (r.state t) (r.input t) = true) : front r (t + 1) = [] := by
  have hstep := run_step r t
  obtain ⟨-, hf, hh⟩ := exGo_inv (redirect_exGo h)
  cases step_move c (r.state t) (r.input t) with
  | frozen hf' => simp [hf] at hf'
  | held _ hh' => simp [hh] at hh'
  | flushed _ _ _ hid hex _ _ =>
    simp [front, behind, hstep, hid, hex, IfId.bubble, IdEx.bubble]
  | bubbled _ _ hr | advanced _ _ hr => simp [h] at hr

theorem front_cons {t : ℕ} (h : (r.state t).idex.valid = true) :
    front r t = (tags r t).idex :: behind r t := by
  simp [front, h]

theorem not_mem_front_of_exGo {t u : ℕ}
    (h : exGo c (r.state t) (r.input t) = true) (hu : t < u) :
    (tags r t).idex ∉ front r u := by
  obtain ⟨hv, -, -⟩ := exGo_inv h
  have hcons := front_cons r hv
  have hlt : (tags r t).idex < t := (front_conveyor r).lt (t := t) (by simp [hcons])
  have hgone : (tags r t).idex ∉ front r (t + 1) := by
    intro hm
    obtain ⟨hn, -⟩ | hs := front_step r t
    · simp [h] at hn
    · have hsort := (front_conveyor r).sorted t
      rw [hcons] at hsort
      obtain hb | hb := List.mem_append.mp (hs.subset hm)
      · exact (List.pairwise_cons.mp hsort).1 _ hb |>.ne rfl
      · rw [List.mem_singleton.mp hb] at hlt
        exact lt_irrefl _ hlt
  intro hm
  exact hgone ((front_conveyor r).mem_of_le hm (by omega) hu)

structure Traced (r : Run c) (t : ℕ) : Prop where
  ifid : (r.state t).ifid.valid = true →
    (r.state t).ifid = fetched c (r.state (tags r t).ifid) (r.input (tags r t).ifid) ∧
      ifOk c (r.state (tags r t).ifid) (r.input (tags r t).ifid) = true
  idex : (r.state t).idex.valid = true →
    (∃ d1 d2, (r.state t).idex =
      decode c (fetched c (r.state (tags r t).idex) (r.input (tags r t).idex)) d1 d2) ∧
      ifOk c (r.state (tags r t).idex) (r.input (tags r t).idex) = true

theorem relatched_decode {s : State} {f : IfId} {d1 d2 : Word} (h : s.idex = decode c f d1 d2) :
    relatched s = decode c f (opA s) (opB s) := by
  simp only [relatched, h]
  rfl

theorem run_traced (t : ℕ) : Traced r t := by
  induction t with
  | zero =>
    obtain ⟨u, hu⟩ := r.starts
    constructor <;> simp [hu, reset, IfId.bubble, IdEx.bubble]
  | succ t ih =>
    have hstep := run_step r t
    cases step_move c (r.state t) (r.input t) with
    | frozen hf _ hid hex _ _ =>
      constructor
      · intro hv
        rw [hstep, hid] at hv ⊢
        simpa [tags, nextTags, hf] using ih.ifid hv
      · intro hv
        rw [hstep, hex] at hv ⊢
        obtain ⟨⟨d1, d2, hd⟩, ho⟩ := ih.idex hv
        simp only [tags, nextTags, hf, Bool.true_or, ↓reduceIte]
        exact ⟨⟨_, _, relatched_decode hd⟩, ho⟩
    | held hf hh _ hid hex _ _ =>
      constructor
      · intro hv
        rw [hstep, hid] at hv ⊢
        simpa [tags, nextTags, hf, hh, frontHold] using ih.ifid hv
      · intro hv
        rw [hstep, hex] at hv ⊢
        obtain ⟨⟨d1, d2, hd⟩, ho⟩ := ih.idex hv
        simp only [tags, nextTags, hf, hh, Bool.or_true, ↓reduceIte]
        exact ⟨⟨_, _, relatched_decode hd⟩, ho⟩
    | flushed _ _ _ hid hex _ _ =>
      constructor <;> simp [hstep, hid, hex, IfId.bubble, IdEx.bubble]
    | bubbled hf hh _ hl _ hid hex _ _ =>
      constructor
      · intro hv
        rw [hstep, hid] at hv ⊢
        simpa [tags, nextTags, hf, frontHold, hl] using ih.ifid hv
      · simp [hstep, hex, IdEx.bubble]
    | advanced hf hh _ hl _ hid hex _ _ =>
      constructor
      · intro hv
        have hg : (tags r (t + 1)).ifid = t := by simp [tags, nextTags, hf, hh, frontHold, hl]
        cases ho : ifOk c (r.state t) (r.input t) with
        | false => simp [hstep, hid, ho, starved] at hv
        | true =>
          rw [hstep, hid, hg]
          simp [ho]
      · intro hv
        rw [hstep, hex] at hv ⊢
        obtain ⟨hi, ho⟩ := ih.ifid hv
        have hg : (tags r (t + 1)).idex = (tags r t).ifid := by simp [tags, nextTags, hf, hh]
        rw [hg]
        exact ⟨⟨_, _, by rw [← hi]⟩, ho⟩

/-- The instruction in MEM left EX in the cycle `left`, and has been waiting since. -/
structure Issued (r : Run c) (t w : ℕ) : Prop where
  lt : w < t
  keep : exKeep c (r.state w) (r.input w) = true
  exmem : (r.state t).exmem = executed c (r.state w) (r.input w)
  tag : (tags r t).exmem = (tags r w).idex
  waits : ∀ v, w < v → v < t → freeze c (r.state v) (r.input v) = true

theorem run_issued (t : ℕ) (hv : (r.state t).exmem.valid = true) :
    Issued r t (tags r t).left := by
  induction t with
  | zero =>
    obtain ⟨u, hu⟩ := r.starts
    simp [hu, reset, ExMem.bubble] at hv
  | succ t ih =>
    have hstep := run_step r t
    cases hf : freeze c (r.state t) (r.input t) with
    | true =>
      have he : (r.state (t + 1)).exmem = (r.state t).exmem := by
        simp [hstep, step, nextExmem, hf]
      have hx := ih (he ▸ hv)
      have hl : (tags r (t + 1)).left = (tags r t).left := by simp [tags, nextTags, hf]
      have hg : (tags r (t + 1)).exmem = (tags r t).exmem := by simp [tags, nextTags, hf]
      rw [hl]
      refine ⟨Nat.lt_succ_of_lt hx.lt, hx.keep, he.trans hx.exmem, hg.trans hx.tag, ?_⟩
      intro v hwv hvt
      obtain hvt | rfl := Nat.lt_succ_iff_lt_or_eq.mp hvt
      · exact hx.waits v hwv hvt
      · exact hf
    | false =>
      have he : (r.state (t + 1)).exmem = if exKeep c (r.state t) (r.input t) then
          executed c (r.state t) (r.input t) else ExMem.bubble := by
        simp [hstep, step, nextExmem, hf]
      cases hk : exKeep c (r.state t) (r.input t) with
      | false => simp [he, hk, ExMem.bubble] at hv
      | true =>
        have hl : (tags r (t + 1)).left = t := by simp [tags, nextTags, hf]
        have hg : (tags r (t + 1)).exmem = (tags r t).idex := by simp [tags, nextTags, hf]
        rw [hl]
        exact ⟨Nat.lt_succ_self t, hk, by simp [he, hk], hg, fun v h1 h2 => by omega⟩

end RiscvScratch.Unified
