import RiscvScratch.Queue.Cleared

/-! Ring buffers: a memory addressed by a wrapping read pointer, seen as the queue it holds. -/
namespace Queue

variable {α : Type*} {w : ℕ}

def segment (mem : BitVec w → α) (rd : BitVec w) (n : ℕ) : List α :=
  (List.range n).map fun i => mem (rd + BitVec.ofNat w i)

@[simp] theorem segment_zero (mem : BitVec w → α) (rd : BitVec w) : segment mem rd 0 = [] := rfl

@[simp] theorem length_segment (mem : BitVec w → α) (rd : BitVec w) (n : ℕ) :
    (segment mem rd n).length = n := by
  rw [segment, List.length_map, List.length_range]

theorem segment_succ (mem : BitVec w → α) (rd : BitVec w) (n : ℕ) :
    segment mem rd (n + 1) = mem rd :: segment mem (rd + 1) n := by
  rw [segment, List.range_succ_eq_map, List.map_cons, List.map_map, BitVec.add_zero, segment]
  congr 1
  apply List.map_congr_left
  intro i _
  rw [Function.comp_apply, Nat.succ_eq_add_one, Nat.add_comm i 1, BitVec.ofNat_add,
    ← BitVec.add_assoc]
  rfl

variable {n : ℕ}

theorem segment_update {mem : BitVec w → α} {rd : BitVec w} (hn : n < 2 ^ w) (x : α) :
    segment (Function.update mem (rd + BitVec.ofNat w n) x) rd (n + 1) =
      segment mem rd n ++ [x] := by
  rw [segment, List.range_succ, List.map_append, List.map_singleton, Function.update_self, segment]
  congr 1
  apply List.map_congr_left
  intro i hi
  apply Function.update_of_ne
  intro h
  have hin : BitVec.ofNat w i = BitVec.ofNat w n := (BitVec.add_right_inj rd).mp h
  have hlt : i < n := List.mem_range.mp hi
  have := congrArg BitVec.toNat hin
  rw [BitVec.toNat_ofNat, BitVec.toNat_ofNat, Nat.mod_eq_of_lt (hlt.trans hn),
    Nat.mod_eq_of_lt hn] at this
  omega

/-- One cycle of a ring: a push fills the cell behind the last, a pop moves the read pointer. -/
theorem segment_step (mem : BitVec w → α) (rd : BitVec w) (x : α) {push pop : Bool}
    (hpush : push → n < 2 ^ w) (hpop : pop → 0 < n) :
    segment (if push then Function.update mem (rd + BitVec.ofNat w n) x else mem)
        (if pop then rd + 1 else rd) (n + push.toNat - pop.toNat) =
      (if pop then (segment mem rd n).tail else segment mem rd n) ++ if push then [x] else [] := by
  have hfull : segment (if push then Function.update mem (rd + BitVec.ofNat w n) x else mem) rd
      (n + push.toNat) = segment mem rd n ++ if push then [x] else [] := by
    cases push with
    | false => simp
    | true => exact segment_update (hpush rfl) x
  cases pop with
  | false => exact hfull
  | true =>
    have hn := hpop rfl
    obtain ⟨k, hk⟩ : ∃ k, n + push.toNat = k + 1 := ⟨n + push.toNat - 1, by omega⟩
    have htail := congrArg List.tail hfull
    rw [hk, segment_succ, List.tail_cons] at htail
    have hne : segment mem rd n ≠ [] := by
      intro h
      have := congrArg List.length h
      rw [length_segment, List.length_nil] at this
      omega
    rw [List.tail_append_of_ne_nil hne] at htail
    rw [hk]
    exact htail

theorem ahead_step {rd wr : BitVec w} {push pop : Bool} (h : wr = rd + BitVec.ofNat w n)
    (hpop : pop → 0 < n) :
    (if push then wr + 1 else wr) =
      (if pop then rd + 1 else rd) + BitVec.ofNat w (n + push.toNat - pop.toNat) := by
  have hfull : (if push then wr + 1 else wr) = rd + BitVec.ofNat w (n + push.toNat) := by
    cases push with
    | false => exact h
    | true =>
      rw [if_pos rfl, h, Bool.toNat_true, BitVec.ofNat_add, BitVec.add_assoc]
      rfl
  rw [hfull]
  cases pop with
  | false => rfl
  | true =>
    have hn := hpop rfl
    obtain ⟨k, hk⟩ : ∃ k, n + push.toNat = 1 + k := ⟨n + push.toNat - 1, by omega⟩
    rw [hk, if_pos rfl, Bool.toNat_true, Nat.add_sub_cancel_left, BitVec.ofNat_add,
      ← BitVec.add_assoc]
    rfl

end Queue
