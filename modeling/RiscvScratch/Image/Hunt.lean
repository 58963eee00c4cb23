import RiscvScratch.Image.Outcome

/-!
The hunt for the magic on the line: noise in which it does not occur earlier is skipped, up to the
first byte after it.
-/
namespace RiscvScratch.Rvbi

open ByteMem Program

/-- The window after `b` has been shifted in. -/
def shiftIn (w : BitVec 32) (b : BitVec 8) : BitVec 32 := (w >>> 8) ||| (b.setWidth 32 <<< 24)

def huntBytes (w : BitVec 32) : List (BitVec 8) → Option (List (BitVec 8))
  | [] => if w = rvbiMagic then some [] else none
  | b :: bs => if w = rvbiMagic then some (b :: bs) else huntBytes (shiftIn w b) bs

theorem le32_injective : Function.Injective le32 := by
  intro v w h
  simp only [le32, List.cons.injEq, and_true] at h
  obtain ⟨h₀, h₁, h₂, h₃⟩ := h
  rw [← bytes_append v, ← bytes_append w, h₀, h₁, h₂, h₃]

theorem le32_shiftIn (w : BitVec 32) (b : BitVec 8) :
    le32 (shiftIn w b) = (le32 w).tail ++ [b] := by
  have hbyte : ∀ k < 3, (shiftIn w b).extractLsb' (8 * k) 8 = w.extractLsb' (8 * k + 8) 8 := by
    intro k hk
    apply BitVec.eq_of_getLsbD_eq
    intro i hi
    simp only [shiftIn, BitVec.getLsbD_extractLsb', BitVec.getLsbD_or, BitVec.getLsbD_ushiftRight,
      BitVec.getLsbD_shiftLeft, hi, decide_true, Bool.true_and]
    rw [show 8 + (8 * k + i) = 8 * k + 8 + i by omega]
    simp [show 8 * k + i < 24 by omega]
  have htop : (shiftIn w b).extractLsb' 24 8 = b := by
    apply BitVec.eq_of_getLsbD_eq
    intro i hi
    simp only [shiftIn, BitVec.getLsbD_extractLsb', BitVec.getLsbD_or, BitVec.getLsbD_ushiftRight,
      BitVec.getLsbD_shiftLeft, BitVec.getLsbD_setWidth, hi, decide_true, Bool.true_and]
    rw [BitVec.getLsbD_of_ge w _ (by omega)]
    simp [show 24 + i < 32 by omega, show i < 32 by omega]
  rw [le32, htop, hbyte 0 (by decide), hbyte 1 (by decide), hbyte 2 (by decide)]
  rfl

theorem hunt_eq (w err : BitVec 32) (line : List Poll) :
    hunt w err line = if w = rvbiMagic then some (err, line) else
      (rx err line).bind fun r => hunt (shiftIn w r.2.1) r.1 r.2.2 := by
  rw [hunt]
  split
  · rfl
  · split
    · next h => rw [h]; rfl
    · next h => rw [h]; rfl

variable {line : List Poll}

theorem waitByte_mask {mask err e : BitVec 32} {b : BitVec 8} {rest : List Poll}
    (h : waitByte mask err line = some (e, b, rest)) (herr : err &&& mask = err) :
    e &&& mask = e := by
  induction line generalizing err with
  | nil => cases h
  | cons p ps ih =>
    have hnext : (err ||| (p.lsr &&& mask)) &&& mask = err ||| (p.lsr &&& mask) := by
      rw [BitVec.and_or_distrib_right, herr, BitVec.and_assoc, BitVec.and_self]
    rw [waitByte] at h
    split at h
    · cases h
      exact hnext
    · exact ih h hnext

theorem rx_clear (hclear : Clear line) {b : BitVec 8} {bs : List (BitVec 8)}
    (h : delivered line = b :: bs) :
    ∃ rest, rx 0#32 line = some (0#32, b, rest) ∧ delivered rest = bs ∧ Clear rest := by
  obtain ⟨e, rest, hwait, hd, hc, he⟩ := waitByte_clear lsrErrors 0#32 hclear h
  rw [BitVec.zero_and, waitByte_mask hwait BitVec.zero_and] at he
  exact ⟨rest, he ▸ hwait, hd, hc⟩

theorem hunt_clear {w : BitVec 32} (hclear : Clear line)
    {found : List (BitVec 8)} (h : huntBytes w (delivered line) = some found) :
    ∃ rest, hunt w 0#32 line = some (0#32, rest) ∧ delivered rest = found ∧ Clear rest := by
  obtain ⟨bs, hbs⟩ : ∃ bs, delivered line = bs := ⟨_, rfl⟩
  induction bs generalizing w line with
  | nil =>
    rw [hbs, huntBytes] at h
    split at h
    · next hw =>
      rw [hunt_eq, if_pos hw]
      exact ⟨line, rfl, hbs.trans (Option.some.inj h), hclear⟩
    · cases h
  | cons b bs ih =>
    rw [hbs, huntBytes] at h
    rw [hunt_eq]
    split at h
    · next hw =>
      rw [if_pos hw]
      exact ⟨line, rfl, hbs.trans (Option.some.inj h), hclear⟩
    · next hw =>
      obtain ⟨rest, hrx, hd, hc⟩ := rx_clear hclear hbs
      rw [if_neg hw, hrx]
      exact ih hc (hd ▸ h) hd

theorem huntBytes_found {w : BitVec 32} {bs rest : List (BitVec 8)}
    (hbefore : ∀ k < bs.length, ((le32 w ++ bs).drop k).take 4 ≠ le32 rvbiMagic)
    (hmagic : (le32 w ++ bs).drop bs.length = le32 rvbiMagic) :
    huntBytes w (bs ++ rest) = some rest := by
  induction bs generalizing w with
  | nil =>
    have hw : w = rvbiMagic := le32_injective (by simpa using hmagic)
    cases rest with
    | nil => exact if_pos hw
    | cons b rest => exact if_pos hw
  | cons b bs ih =>
    have hnext : le32 (shiftIn w b) ++ bs = (le32 w ++ b :: bs).drop 1 := by
      rw [le32_shiftIn, List.append_assoc]
      rfl
    have hw : w ≠ rvbiMagic := by
      rintro rfl
      exact hbefore 0 (Nat.zero_lt_succ _) rfl
    rw [List.cons_append, huntBytes, if_neg hw]
    refine ih (fun k hk => ?_) ?_
    · rw [hnext, List.drop_drop, Nat.add_comm]
      exact hbefore (k + 1) (Nat.succ_lt_succ hk)
    · rw [hnext, List.drop_drop, Nat.add_comm]
      exact hmagic

/-- In `noise` followed by `l` the magic first occurs at the start of `l`. -/
def FirstMagic (noise l : List (BitVec 8)) : Prop :=
  ∀ k < noise.length, ((noise ++ l).drop k).take 4 ≠ le32 rvbiMagic

theorem take_of_zeros {k : ℕ} (hk : k < 4) (bs : List (BitVec 8)) :
    ((le32 0#32 ++ bs).drop k).take 4 ≠ le32 rvbiMagic := by
  intro h
  have hhead : (((le32 0#32 ++ bs).drop k).take 4).head? = some 0#8 := by
    interval_cases k <;> rfl
  rw [h] at hhead
  exact absurd hhead (by decide)

theorem huntBytes_noise {noise rest : List (BitVec 8)}
    (h : FirstMagic noise (le32 rvbiMagic ++ rest)) :
    huntBytes 0#32 (noise ++ (le32 rvbiMagic ++ rest)) = some rest := by
  rw [← List.append_assoc]
  have hlen : (noise ++ le32 rvbiMagic).length = 4 + noise.length := by
    rw [List.length_append, Nat.add_comm]
    rfl
  refine huntBytes_found (fun k hk => ?_) ?_
  · rw [hlen] at hk
    by_cases hk4 : k < 4
    · exact take_of_zeros hk4 _
    · obtain ⟨j, rfl⟩ := Nat.exists_eq_add_of_le (Nat.le_of_not_lt hk4)
      have hfirst := h j (by omega)
      rw [← List.append_assoc, List.drop_append_of_le_length (by omega),
        List.take_append_of_le_length (by rw [List.length_drop]; omega)] at hfirst
      rw [← List.drop_drop]
      exact hfirst
  · rw [hlen, ← List.drop_drop]
    exact List.drop_left

theorem starts_onLine {c : Config} {noise l : List (BitVec 8)} {s : Machine}
    (hmsrc : s.msrc = 0#32) (hclear : Clear s.line) (hline : noise ++ l <+: delivered s.line)
    (hmagic : l.take 4 = le32 rvbiMagic) (hfirst : FirstMagic noise l) : Starts c l s := by
  obtain ⟨more, hmore⟩ := hline
  have hl : l = le32 rvbiMagic ++ l.drop 4 := by rw [← hmagic, List.take_append_drop]
  have hall : FirstMagic noise (le32 rvbiMagic ++ (l.drop 4 ++ more)) := by
    intro k hk
    have := hfirst k hk
    rwa [← List.append_assoc, ← List.append_assoc, List.append_assoc noise, ← hl,
      List.drop_append_of_le_length (by rw [List.length_append]; omega),
      List.take_append_of_le_length]
    have h4 : 4 ≤ l.length := by rw [hl, List.length_append]; exact Nat.le_add_right _ _
    rw [List.length_drop, List.length_append]
    omega
  have hhunt := huntBytes_noise hall
  rw [← List.append_assoc (le32 _), ← hl, ← List.append_assoc, hmore] at hhunt
  obtain ⟨rest, hrun, hd, hc⟩ := hunt_clear hclear hhunt
  unfold Starts magicWord
  rw [wp_bind, wp_get, if_neg (not_not.mpr hmsrc)]
  dsimp only
  rw [hrun]
  refine ⟨hmagic.symm, rfl, Or.inl ⟨hmsrc, hc, more, hd.symm⟩, ⟨?_, [], ?_, by simp⟩, rfl⟩
  · rw [if_pos hmsrc]
    exact congrArg BitVec.toNat hmsrc
  · exact (List.append_nil _).symm

end RiscvScratch.Rvbi
