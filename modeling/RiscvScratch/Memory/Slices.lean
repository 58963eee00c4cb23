import RiscvScratch.Memory.Bytes

/-! Runs of bytes in a byte-addressed memory: reading them, writing them, and what stays. -/
namespace ByteMem

def slice (m : Mem) (a : BitVec 32) : ℕ → List (BitVec 8)
  | 0 => []
  | n + 1 => m a :: slice m (a + 1#32) n

/-- The bytes `l` written at `a`, in order. -/
def write (m : Mem) (a : BitVec 32) : List (BitVec 8) → Mem
  | [] => m
  | b :: l => write (Function.update m a b) (a + 1#32) l

/-- `x` is one of the `n` addresses from `a`. -/
def Within (a : BitVec 32) (n : ℕ) (x : BitVec 32) : Prop := (x - a).toNat < n

instance (a : BitVec 32) (n : ℕ) (x : BitVec 32) : Decidable (Within a n x) :=
  inferInstanceAs (Decidable (_ < _))

@[simp] theorem slice_length (m : Mem) (a : BitVec 32) (n : ℕ) : (slice m a n).length = n := by
  induction n generalizing a with
  | zero => rfl
  | succ n ih => rw [slice, List.length_cons, ih]

variable {a : BitVec 32} {n : ℕ} {x : BitVec 32}

theorem within_zero (h : 0 < n) : Within a n a := by
  rw [Within, BitVec.sub_self]
  exact h

theorem within_succ (h : Within (a + 1#32) n x) (hn : n < 2 ^ 32) :
    Within a (n + 1) x := by
  unfold Within at h ⊢
  bv_omega

theorem Within.mono {k : ℕ} (h : Within a n x) (hk : n ≤ k) : Within a k x :=
  Nat.lt_of_lt_of_le h hk

theorem Within.offset {o k : ℕ} (h : Within (a + BitVec.ofNat 32 o) n x)
    (hk : o + n ≤ k) (hmax : k ≤ 2 ^ 32) : Within a k x := by
  unfold Within at h ⊢
  bv_omega

theorem within_iff (h : a.toNat + n ≤ 2 ^ 32) :
    Within a n x ↔ a.toNat ≤ x.toNat ∧ x.toNat < a.toNat + n := by
  unfold Within
  bv_omega

theorem slice_congr {m m' : Mem} (hn : n ≤ 2 ^ 32)
    (h : ∀ x, Within a n x → m x = m' x) : slice m a n = slice m' a n := by
  induction n generalizing a with
  | zero => rfl
  | succ n ih =>
    rw [slice, slice, h a (within_zero (Nat.succ_pos n)),
      ih (by omega) fun x hx => h x (within_succ hx (by omega))]

theorem slice_getD (m : Mem) (a : BitVec 32) (n i : ℕ) (hi : i < n) (d : BitVec 8) :
    (slice m a n).getD i d = m (a + BitVec.ofNat 32 i) := by
  induction n generalizing a i with
  | zero => cases hi
  | succ n ih =>
    cases i with
    | zero => simp [slice]
    | succ i =>
      rw [slice, List.getD_cons_succ, ih (a + 1#32) i (by omega), BitVec.add_assoc,
        ← BitVec.ofNat_add 1 i, Nat.add_comm 1 i]

theorem write_of_not_within {m : Mem} {l : List (BitVec 8)}
    (hl : l.length ≤ 2 ^ 32) (h : ¬Within a l.length x) : write m a l x = m x := by
  induction l generalizing m a with
  | nil => rfl
  | cons b l ih =>
    rw [List.length_cons] at hl h
    have hx : x ≠ a := fun e => h (e ▸ within_zero (Nat.succ_pos _))
    rw [write, ih (by omega) fun hw => h (within_succ hw (by omega)), Function.update_of_ne hx]

theorem slice_write (m : Mem) (a : BitVec 32) {l : List (BitVec 8)} (hl : l.length ≤ 2 ^ 32) :
    slice (write m a l) a l.length = l := by
  induction l generalizing m a with
  | nil => rfl
  | cons b l ih =>
    rw [List.length_cons] at hl
    have hout : ¬Within (a + 1#32) l.length a := by unfold Within; bv_omega
    rw [List.length_cons, slice, write, write_of_not_within (by omega) hout, Function.update_self,
      ih _ _ (by omega)]

theorem slice_add (m : Mem) (a : BitVec 32) (n k : ℕ) :
    slice m a (n + k) = slice m a n ++ slice m (a + BitVec.ofNat 32 n) k := by
  induction n generalizing a with
  | zero => simp [slice]
  | succ n ih =>
    rw [Nat.succ_add, slice, slice, ih, List.cons_append, BitVec.add_assoc,
      ← BitVec.ofNat_add 1 n, Nat.add_comm 1 n]

theorem write_append (m : Mem) (a : BitVec 32) (l l' : List (BitVec 8)) :
    write m a (l ++ l') = write (write m a l) (a + BitVec.ofNat 32 l.length) l' := by
  induction l generalizing m a with
  | nil => simp [write]
  | cons b l ih =>
    rw [List.cons_append, write, write, ih, List.length_cons, BitVec.add_assoc,
      ← BitVec.ofNat_add 1 l.length, Nat.add_comm 1 l.length]

end ByteMem
