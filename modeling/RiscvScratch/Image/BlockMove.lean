import RiscvScratch.Memory.Slices

/-! The ROM library's block copies, on every pair of ranges. -/
namespace RiscvScratch.Lib

open ByteMem

/-- `while (n--) *a++ = *b++;` -/
def copyBytes (m : Mem) (a b : BitVec 32) : ℕ → Mem
  | 0 => m
  | n + 1 => copyBytes (Function.update m a (m b)) (a + 1#32) (b + 1#32) n

/-- The word loop, reached only with `n` a multiple of four. -/
def copyWords (m : Mem) (a b : BitVec 32) : ℕ → Mem
  | n + 4 => copyWords (store32 m a (load32 m b)) (a + 4#32) (b + 4#32) n
  | _ => m

def memcpy (m : Mem) (d s n : BitVec 32) : BitVec 32 × Mem :=
  (d, if (d ||| s ||| n) &&& 3#32 = 0#32 then copyWords m d s n.toNat
    else copyBytes m d s n.toNat)

/-- `while (n--) a[n] = b[n];` -/
def copyBack (m : Mem) (a b : BitVec 32) : ℕ → Mem
  | 0 => m
  | n + 1 =>
    copyBack (Function.update m (a + BitVec.ofNat 32 n) (m (b + BitVec.ofNat 32 n))) a b n

def memmove (m : Mem) (d s n : BitVec 32) : BitVec 32 × Mem :=
  if d ≤ s ∨ s + n ≤ d then memcpy m d s n else (d, copyBack m d s n.toNat)

/-- The `n` bytes from `a` are those `m` had from `b`, and the rest is that of `m`. -/
def Moved (m m' : Mem) (a b : BitVec 32) (n : ℕ) : Prop :=
  ∀ x, m' x = if (x - a).toNat < n then m (b + (x - a)) else m x

/-- A copy upwards reads each byte before it writes there. -/
def Upwards (a b : BitVec 32) (n : ℕ) : Prop := a = b ∨ n ≤ (a - b).toNat

variable {m m' : Mem} {a b : BitVec 32} {n : ℕ}

theorem Upwards.advance {k : ℕ} (h : Upwards a b (n + k)) :
    Upwards (a + BitVec.ofNat 32 k) (b + BitVec.ofNat 32 k) n := by
  have hdiff : a + BitVec.ofNat 32 k - (b + BitVec.ofNat 32 k) = a - b := by bv_omega
  rcases h with rfl | h
  · exact Or.inl rfl
  · exact Or.inr (hdiff ▸ (Nat.le_add_right n k).trans h)

theorem Upwards.unread {x : BitVec 32} {k : ℕ} (h : Upwards a b n) (hk : k ≤ (x - a).toNat)
    (hx : (x - a).toNat < n) : k ≤ (b + (x - a) - a).toNat := by
  rcases h with rfl | h <;> bv_omega

theorem copyBytes_moved (hn : n < 2 ^ 32) (h : Upwards a b n) :
    Moved m (copyBytes m a b n) a b n := by
  induction n generalizing m a b with
  | zero => exact fun x => (if_neg (Nat.not_lt_zero _)).symm
  | succ n ih =>
    intro x
    rw [copyBytes, ih (by omega) h.advance x]
    rcases eq_or_ne x a with rfl | hx
    · have hout : ¬(x - (x + 1#32)).toNat < n := by bv_omega
      rw [if_neg hout, Function.update_self, if_pos (by simp), BitVec.sub_self, BitVec.add_zero]
    · have hoff : (x - (a + 1#32)).toNat + 1 = (x - a).toNat := by bv_omega
      have hsrc : b + 1#32 + (x - (a + 1#32)) = b + (x - a) := by bv_omega
      rw [hsrc, ← hoff, Function.update_of_ne hx]
      by_cases hin : (x - (a + 1#32)).toNat < n
      · have hread : b + (x - a) ≠ a := fun e => by
          have := h.unread (k := 1) (x := x) (by omega) (by omega)
          rw [e, BitVec.sub_self] at this
          exact absurd this (by decide)
        rw [if_pos hin, if_pos (by omega), Function.update_of_ne hread]
      · rw [if_neg hin, if_neg (by omega)]

theorem store32_load32 {k : ℕ} (hk : k < 4) :
    store32 m a (load32 m b) (a + BitVec.ofNat 32 k) = m (b + BitVec.ofNat 32 k) := by
  rw [store32_byte m a _ hk, load32]
  interval_cases k
  · rw [BitVec.add_zero]
    exact BitVec.extractLsb'_append_eq_right
  · rw [BitVec.extractLsb'_append_eq_of_le (by decide)]
    exact BitVec.extractLsb'_append_eq_right
  · rw [BitVec.extractLsb'_append_eq_of_le (by decide),
      BitVec.extractLsb'_append_eq_of_le (by decide)]
    exact BitVec.extractLsb'_append_eq_right
  · rw [BitVec.extractLsb'_append_eq_of_le (by decide),
      BitVec.extractLsb'_append_eq_of_le (by decide)]
    exact BitVec.extractLsb'_append_eq_left

theorem copyWords_moved (hn : n < 2 ^ 32) (hmod : n % 4 = 0) (h : Upwards a b n) :
    Moved m (copyWords m a b n) a b n := by
  fun_induction copyWords m a b n with
  | case1 m a b n ih =>
    intro x
    rw [ih (by omega) (by omega) h.advance x]
    by_cases hw : (x - a).toNat < 4
    · have hout : ¬(x - (a + 4#32)).toNat < n := by bv_omega
      have hx : x = a + BitVec.ofNat 32 (x - a).toNat := by bv_omega
      rw [if_neg hout, if_pos (by omega)]
      conv_lhs => rw [hx, store32_load32 hw]
      rw [BitVec.ofNat_toNat, BitVec.setWidth_eq]
    · have hoff : (x - (a + 4#32)).toNat + 4 = (x - a).toNat := by bv_omega
      have hsrc : b + 4#32 + (x - (a + 4#32)) = b + (x - a) := by bv_omega
      rw [hsrc, ← hoff, store32_apart _ (Nat.not_lt.mp hw)]
      by_cases hin : (x - (a + 4#32)).toNat < n
      · have hread : Apart (b + (x - a)) a := h.unread (by omega) (by omega)
        rw [if_pos hin, if_pos (by omega), store32_apart _ hread]
      · rw [if_neg hin, if_neg (by omega)]
  | case2 n m a b hshort =>
    have hzero : n = 0 := by
      by_contra hne
      exact hshort (n - 4) (by omega)
    exact fun x => (if_neg (hzero ▸ Nat.not_lt_zero _)).symm

theorem copyBack_moved (h : (a - b).toNat + n ≤ 2 ^ 32) :
    Moved m (copyBack m a b n) a b n := by
  induction n generalizing m with
  | zero => exact fun x => (if_neg (Nat.not_lt_zero _)).symm
  | succ n ih =>
    intro x
    rw [copyBack, ih (by omega) x]
    by_cases hin : (x - a).toNat < n
    · have hread : b + (x - a) ≠ a + BitVec.ofNat 32 n := by bv_omega
      rw [if_pos hin, if_pos (by omega), Function.update_of_ne hread]
    · rw [if_neg hin]
      by_cases hx : x = a + BitVec.ofNat 32 n
      · have hoff : x - a = BitVec.ofNat 32 n := by bv_omega
        have hlast : (x - a).toNat < n + 1 := by bv_omega
        rw [if_pos hlast, hoff, hx, Function.update_self]
      · have hout : ¬(x - a).toNat < n + 1 := by bv_omega
        rw [if_neg hout, Function.update_of_ne hx]

theorem memcpy_moved {d s n : BitVec 32} (h : Upwards d s n.toNat) :
    Moved m (memcpy m d s n).2 d s n.toNat := by
  unfold memcpy
  split
  case isTrue hal =>
    have hmod : n.toNat % 4 = 0 := by
      rw [BitVec.and_or_distrib_right] at hal
      have hand := congrArg BitVec.toNat (BitVec.or_eq_zero_iff.mp hal).2
      rw [BitVec.toNat_and] at hand
      exact (Nat.and_two_pow_sub_one_eq_mod n.toNat 2).symm.trans hand
    exact copyWords_moved n.isLt hmod h
  case isFalse => exact copyBytes_moved n.isLt h

theorem memmove_moved {d s n : BitVec 32} (hd : d.toNat + n.toNat ≤ 2 ^ 32)
    (hs : s.toNat + n.toNat ≤ 2 ^ 32) : Moved m (memmove m d s n).2 d s n.toNat := by
  unfold memmove
  split
  case isTrue hup =>
    refine memcpy_moved (or_iff_not_imp_left.mpr fun hne => ?_)
    rcases hup with h | h <;> bv_omega
  case isFalse hdown =>
    obtain ⟨hlt, hov⟩ := not_or.mp hdown
    exact copyBack_moved (by bv_omega)

/-- `memmove` delivers the old bytes of the source, overlapping or not, and writes nothing else. -/
theorem memmove_bytes (m : Mem) (d s n : BitVec 32) (hd : d.toNat + n.toNat ≤ 2 ^ 32)
    (hs : s.toNat + n.toNat ≤ 2 ^ 32) :
    slice (memmove m d s n).2 d n.toNat = slice m s n.toNat ∧
      ∀ x, ¬Within d n.toNat x → (memmove m d s n).2 x = m x := by
  have hmoved := memmove_moved (m := m) hd hs
  refine ⟨List.ext_getElem (by simp) fun i hi _ => ?_, fun x hx => (hmoved x).trans (if_neg hx)⟩
  rw [slice_length] at hi
  have hoff : d + BitVec.ofNat 32 i - d = BitVec.ofNat 32 i := by bv_omega
  have hin : (d + BitVec.ofNat 32 i - d).toNat < n.toNat := by bv_omega
  rw [List.getElem_eq_getD 0#8, List.getElem_eq_getD 0#8, slice_getD _ _ _ _ hi,
    slice_getD _ _ _ _ hi, hmoved, if_pos hin, hoff]

/-- Six bytes moved up by two, over themselves. -/
theorem memmove_bytes_overlapping :
    slice (memmove (fun x => x.setWidth 8) 102#32 100#32 6#32).2 102#32 6 =
      [100#8, 101#8, 102#8, 103#8, 104#8, 105#8] :=
  (memmove_bytes (fun x => x.setWidth 8) 102#32 100#32 6#32 (by decide) (by decide)).1.trans
    (by decide)

end RiscvScratch.Lib
