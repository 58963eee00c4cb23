import Mathlib.Data.Set.Card
import Mathlib.Tactic

/-! First-in first-out queues that can be cleared, over whole runs. -/
namespace Queue

variable {α : Type*}

/-- One cycle of a queue: a pop takes the head the cycle starts with; a clear also discards what the
cycle pushes. -/
structure Op (α : Type*) where
  push : Option α
  pop : Bool
  clear : Bool

def step (q : List α) (o : Op α) : List α :=
  if o.clear then [] else (if o.pop then q.tail else q) ++ o.push.toList

section Run

variable (ops : ℕ → Op α) (src : ℕ → ℕ)

/-- What cycle `u` pushed still waits at `t`, where the pop at `v` returned what `src v` pushed. -/
structure Waiting (t u : ℕ) : Prop where
  before : u < t
  pushed : (ops u).push.isSome
  kept : ∀ v, u ≤ v → v < t → (ops v).clear = false
  unpopped : ∀ v < t, (ops v).pop → src v ≠ u

/-- Every pop returns the oldest push still waiting, and `count` is how many wait. -/
structure Serves (out : ℕ → α) (count : ℕ → ℕ) : Prop where
  counts : ∀ t, count t = {u | Waiting ops src t u}.ncard
  oldest : ∀ t, (ops t).pop → IsLeast {u | Waiting ops src t u} (src t)
  returns : ∀ t, (ops t).pop → (ops (src t)).push = some (out t)
  in_order : ∀ t v, t < v → (ops t).pop → (ops v).pop → src t < src v

/-- The cycles whose pushes are queued at `t`, oldest first. -/
def entries : ℕ → List ℕ
  | 0 => []
  | t + 1 => step (entries t)
      ⟨(ops t).push.map fun _ => t, (ops t).pop, (ops t).clear⟩

def source (t : ℕ) : ℕ := (entries ops t).headD 0

variable {ops}

theorem entries_succ (t : ℕ) : entries ops (t + 1) = if (ops t).clear then [] else
    (if (ops t).pop then (entries ops t).tail else entries ops t) ++
      ((ops t).push.map fun _ => t).toList := rfl

theorem entries_lt {t u : ℕ} (h : u ∈ entries ops t) : u < t := by
  induction t with
  | zero => simp [entries] at h
  | succ t ih =>
    rw [entries_succ] at h
    split_ifs at h with hc hp
    · simp at h
    · rcases List.mem_append.mp h with h | h
      · exact (ih (List.mem_of_mem_tail h)).trans (Nat.lt_succ_self t)
      · simp at h; omega
    · rcases List.mem_append.mp h with h | h
      · exact (ih h).trans (Nat.lt_succ_self t)
      · simp at h; omega

theorem entries_sorted (t : ℕ) : (entries ops t).Pairwise (· < ·) := by
  induction t with
  | zero => exact List.Pairwise.nil
  | succ t ih =>
    have hnew : ∀ l : List ℕ, l.Pairwise (· < ·) → (∀ u ∈ l, u < t) →
        (l ++ ((ops t).push.map fun _ => t).toList).Pairwise (· < ·) := by
      intro l hl hlt
      cases (ops t).push with
      | none => simpa using hl
      | some a => exact List.pairwise_append.mpr ⟨hl, List.pairwise_singleton _ t,
          by simpa using hlt⟩
    rw [entries_succ]
    split_ifs
    · exact List.Pairwise.nil
    · exact hnew _ (ih.sublist (List.tail_sublist _))
        fun u hu => entries_lt (List.mem_of_mem_tail hu)
    · exact hnew _ ih fun u hu => entries_lt hu

theorem mem_tail_iff {l : List ℕ} (hl : l.Pairwise (· < ·)) (hne : l ≠ []) {u : ℕ} :
    u ∈ l.tail ↔ u ∈ l ∧ l.headD 0 ≠ u := by
  cases l with
  | nil => exact absurd rfl hne
  | cons x l =>
    have hx : ∀ y ∈ l, x < y := (List.pairwise_cons.mp hl).1
    constructor
    · intro hu
      exact ⟨List.mem_cons_of_mem x hu, (hx u hu).ne⟩
    · rintro ⟨hu, hxu⟩
      exact (List.mem_cons.mp hu).resolve_left fun h => hxu h.symm

theorem mem_entries_iff (hpop : ∀ t, (ops t).pop → entries ops t ≠ []) (t u : ℕ) :
    u ∈ entries ops t ↔ Waiting ops (source ops) t u := by
  induction t with
  | zero =>
    constructor
    · intro h; simp [entries] at h
    · intro h; exact absurd h.before (Nat.not_lt_zero u)
  | succ t ih =>
    have hnew : u ∈ ((ops t).push.map fun _ => t).toList ↔ u = t ∧ (ops u).push.isSome := by
      constructor
      · intro h
        simp only [Option.mem_toList, Option.map_eq_some_iff] at h
        obtain ⟨a, ha, rfl⟩ := h
        exact ⟨rfl, by rw [ha]; rfl⟩
      · rintro ⟨rfl, h⟩
        obtain ⟨a, ha⟩ := Option.isSome_iff_exists.mp h
        simp [ha]
    have hold : u ∈ (if (ops t).pop then (entries ops t).tail else entries ops t) ↔
        Waiting ops (source ops) t u ∧ ((ops t).pop → source ops t ≠ u) := by
      rw [← ih]
      split_ifs with hp
      · rw [mem_tail_iff (entries_sorted t) (hpop t hp)]
        simp [source, hp]
      · simp [hp]
    rw [entries_succ]
    by_cases hc : (ops t).clear
    · rw [if_pos hc]
      constructor
      · intro h; simp at h
      · intro h
        have := h.kept t (Nat.lt_succ_iff.mp h.before) (Nat.lt_succ_self t)
        simp [hc] at this
    · rw [if_neg hc, List.mem_append, hnew, hold]
      have hc' : (ops t).clear = false := by simpa using hc
      constructor
      · rintro (⟨hw, hs⟩ | ⟨rfl, hs⟩)
        · refine ⟨hw.before.trans (Nat.lt_succ_self t), hw.pushed, ?_, ?_⟩
          · intro v huv hv
            rcases Nat.lt_succ_iff_lt_or_eq.mp hv with h | rfl
            · exact hw.kept v huv h
            · exact hc'
          · intro v hv hpv
            rcases Nat.lt_succ_iff_lt_or_eq.mp hv with h | rfl
            · exact hw.unpopped v h hpv
            · exact hs hpv
        · refine ⟨Nat.lt_succ_self u, hs, ?_, ?_⟩
          · intro v huv hv
            obtain rfl : v = u := by omega
            exact hc'
          · -- a pop up to now returned an earlier push
            intro v hv hpv hsv
            have hmem : source ops v ∈ entries ops v := by
              unfold source
              cases he : entries ops v with
              | nil => exact absurd he (hpop v hpv)
              | cons x l => exact List.mem_cons_self
            have := entries_lt hmem
            omega
      · intro hw
        rcases Nat.lt_succ_iff_lt_or_eq.mp hw.before with h | rfl
        · exact .inl ⟨⟨h, hw.pushed, fun v huv hv => hw.kept v huv (hv.trans (Nat.lt_succ_self t)),
            fun v hv => hw.unpopped v (hv.trans (Nat.lt_succ_self t))⟩,
            fun hp => hw.unpopped t (Nat.lt_succ_self t) hp⟩
        · exact .inr ⟨rfl, hw.pushed⟩

theorem contents_eq {q : ℕ → List α} (h0 : q 0 = []) (hq : ∀ t, q (t + 1) = step (q t) (ops t))
    (t : ℕ) : (q t).map some = (entries ops t).map fun u => (ops u).push := by
  induction t with
  | zero => rw [h0]; rfl
  | succ t ih =>
    have hone : (((ops t).push.map fun _ => t).toList.map fun u => (ops u).push) =
        (ops t).push.toList.map some := by
      cases h : (ops t).push with
      | none => rfl
      | some a => simp [h]
    rw [hq, entries_succ, step]
    split_ifs
    · rfl
    · rw [List.map_append, List.map_append, hone, List.map_tail, List.map_tail, ih]
    · rw [List.map_append, List.map_append, hone, ih]

/-- A list that follows `step` and is not popped when empty serves in order. -/
theorem serves_of_contents (q : ℕ → List α) (out : ℕ → α) (h0 : q 0 = [])
    (hq : ∀ t, q (t + 1) = step (q t) (ops t))
    (hout : ∀ t, (ops t).pop → (q t).head? = some (out t)) :
    Serves ops (source ops) out fun t => (q t).length := by
  have hmap := contents_eq h0 hq
  have hhead : ∀ t, (ops t).pop →
      source ops t ∈ entries ops t ∧ (ops (source ops t)).push = some (out t) := by
    intro t hp
    have ht := hmap t
    have ho := hout t hp
    unfold source
    cases hqt : q t with
    | nil => simp [hqt] at ho
    | cons a l =>
      cases he : entries ops t with
      | nil => simp [hqt, he] at ht
      | cons u us =>
        rw [hqt, he, List.map_cons, List.map_cons, List.cons.injEq] at ht
        rw [hqt, List.head?_cons, Option.some.injEq] at ho
        exact ⟨List.mem_cons_self, by rw [← ho]; exact ht.1.symm⟩
  have hmem := mem_entries_iff fun t hp => List.ne_nil_of_mem (hhead t hp).1
  have hleast : ∀ t, (ops t).pop → IsLeast {u | Waiting ops (source ops) t u} (source ops t) := by
    intro t hp
    refine ⟨(hmem t _).mp (hhead t hp).1, ?_⟩
    intro u hu
    have hu' := (hmem t u).mpr hu
    have hsort : (entries ops t).Pairwise (· < ·) := entries_sorted t
    unfold source
    cases he : entries ops t with
    | nil => simp [he] at hu'
    | cons x l =>
      rw [he] at hu' hsort
      rcases List.mem_cons.mp hu' with rfl | h
      · exact Nat.le_refl _
      · exact ((List.pairwise_cons.mp hsort).1 u h).le
  refine ⟨?_, hleast, fun t hp => (hhead t hp).2, ?_⟩
  · intro t
    have hset : {u | Waiting ops (source ops) t u} = ((entries ops t).toFinset : Set ℕ) := by
      ext u
      simp [hmem]
    have hnodup : (entries ops t).Nodup := (entries_sorted t).imp fun h => h.ne
    have hlen := congrArg List.length (hmap t)
    rw [List.length_map, List.length_map] at hlen
    rw [hset, Set.ncard_coe_finset, List.toFinset_card_of_nodup hnodup, hlen]
  · -- what waits at `v` is newer than what an earlier pop returned
    intro t v htv hpt hpv
    have hv := (hleast v hpv).1
    have hne : source ops t ≠ source ops v := hv.unpopped t htv hpt
    by_contra hlt
    have hle : source ops v < source ops t := by omega
    have ht := (hleast t hpt).1
    have hwait : Waiting ops (source ops) t (source ops v) := by
      refine ⟨hle.trans ht.before, hv.pushed, ?_, ?_⟩
      · intro w hw hwt
        exact hv.kept w hw (hwt.trans htv)
      · intro w hw hpw
        exact hv.unpopped w (hw.trans htv) hpw
    exact absurd ((hleast t hpt).2 hwait) (by omega)

end Run
end Queue
