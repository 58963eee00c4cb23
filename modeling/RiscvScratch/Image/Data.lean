import RiscvScratch.Image.Header

/-!
The data as the loader receives it from known bytes: each segment is its share of the data,
followed by zeros.
-/
namespace RiscvScratch.Rvbi

open ByteMem Platform Program

section Data

variable {c : Config}

def Config.segment (c : Config) (m : Mem) (data : List (BitVec 8)) (i : ℕ) : List (BitVec 8) :=
  (data.drop (c.fileBytes m i)).take (c.filesz m i).toNat ++
    List.replicate ((c.memsz m i).toNat - (c.filesz m i).toNat) 0#8

/-- Memory with the first `i` segments in place. -/
def Config.placed (c : Config) (m : Mem) (data : List (BitVec 8)) : ℕ → Mem
  | 0 => m
  | i + 1 => write (c.placed m data i) (c.segAddr m i) (c.segment m data i)

variable {data : List (BitVec 8)} {i : ℕ} {s₀ : Machine} {rest : List (BitVec 8)} {s : Machine}
  {crc : BitVec 32}

theorem segment_length {m : Mem} (hgood : ¬badSegment c m i)
    (hdata : c.fileBytes m (i + 1) ≤ data.length) :
    (c.segment m data i).length = (c.memsz m i).toNat := by
  have hfile := (not_badSegment_iff.mp hgood).1
  rw [c.fileBytes_succ] at hdata
  rw [Config.segment, List.length_append, List.length_take, List.length_drop,
    List.length_replicate]
  omega

theorem fileBytes_mono (m : Mem) {j : ℕ} (h : i ≤ j) : c.fileBytes m i ≤ c.fileBytes m j :=
  Finset.sum_le_sum_of_subset (Finset.range_subset_range.mpr h)

theorem placed_frame {m : Mem} {n : ℕ}
    (hgood : ∀ i < n, ¬badSegment c m i) (hdata : c.fileBytes m n ≤ data.length)
    {x : BitVec 32} (hx : ¬c.Payload x) : c.placed m data n x = m x := by
  induction n with
  | zero => rfl
  | succ n ih =>
    have hlen := segment_length (hgood n n.lt_succ_self) hdata
    have hmax := (c.memsz m n).isLt
    rw [Config.placed, write_of_not_within (by omega), ih fun i hi => hgood i (by omega)]
    · exact (fileBytes_mono m n.le_succ).trans hdata
    · intro hin
      exact hx (payload_of_within_start (hgood n n.lt_succ_self) hlen.le hin)

/-- The first `i` segments are in place and the rest of the data is still to come. -/
structure Placing (c : Config) (s₀ : Machine) (data rest : List (BitVec 8)) (i : ℕ)
    (crc : BitVec 32) (s : Machine) : Prop where
  mem : s.mem = c.placed s₀.mem data i
  feeds : Feeds c (data.drop (c.fileBytes s₀.mem i) ++ rest) s
  fetched : Fetched (c.fileBytes s₀.mem i) s₀ s
  crc_eq : crc = (data.take (c.fileBytes s₀.mem i)).foldl crc32Byte 0xFFFFFFFF#32
  lineErr : s.lineErr = s₀.lineErr

section
variable (h : Placing c s₀ data rest i crc s) (hgood : ∀ j < i, ¬badSegment c s₀.mem j)
  (hdata : c.fileBytes s₀.mem i ≤ data.length)
include h hgood hdata

theorem Placing.sameHdr : SameHdr c s₀.mem s.mem := by
  refine SameHdr.of_bytes fun x hx => ?_
  rw [h.mem, placed_frame hgood hdata (Config.Own.not_payload (Or.inl hx))]

theorem Placing.sameSeg {k : ℕ} (hk : k < rvbiMaxSegs) :
    SameSeg c s₀.mem s.mem k := by
  refine SameSeg.of_bytes hk fun x hx => ?_
  rw [h.mem, placed_frame hgood hdata (Config.Own.not_payload (Or.inr (Or.inl hx)))]

end

theorem loadSeg_placing (hi : i < rvbiMaxSegs) (hgood : ∀ j < i + 1, ¬badSegment c s₀.mem j)
    (hdata : c.fileBytes s₀.mem (i + 1) ≤ data.length) (h : Placing c s₀ data rest i crc s) :
    Wp (loadSeg c i crc) (fun crc' s' => Placing c s₀ data rest (i + 1) crc' s')
      (fun _ _ => False) s := by
  have hbad := hgood i i.lt_succ_self
  have hsofar := (fileBytes_mono s₀.mem i.le_succ).trans hdata
  obtain ⟨hfile, hlow, hend⟩ := not_badSegment_iff.mp hbad
  have hlow' : ramBase.toNat ≤ payloadBase.toNat := by decide
  have hroom : c.Room (c.segAddr s₀.mem i) (c.memsz s₀.mem i).toNat := ⟨by omega, hend⟩
  have hseg := h.sameSeg (fun j hj => hgood j (by omega)) hsofar hi
  have hsucc := c.fileBytes_succ s₀.mem i
  -- the data that is left splits at the end of this segment's file part
  obtain ⟨chunk, hchunk⟩ : ∃ chunk, chunk =
    (data.drop (c.fileBytes s₀.mem i)).take (c.filesz s₀.mem i).toNat := ⟨_, rfl⟩
  have hlen : chunk.length = (c.filesz s₀.mem i).toNat := by
    rw [hchunk, List.length_take, List.length_drop]
    omega
  have hsplit : data.drop (c.fileBytes s₀.mem i) =
      chunk ++ data.drop (c.fileBytes s₀.mem (i + 1)) := by
    rw [hchunk, hsucc, ← List.drop_drop, List.take_append_drop]
  have hfeeds := h.feeds
  rw [hsplit, List.append_assoc] at hfeeds
  unfold loadSeg
  rw [wp_bind, wp_get]
  dsimp only
  rw [hseg.segAddr, hseg.filesz]
  refine (getBytes_fed hlen (hroom.mono hfile) hfeeds).bind ?_ fun _ _ h => h
  rintro crc₁ s₁ ⟨hcrc₁, h₁⟩
  have hseg₁ : SameSeg c s₀.mem s₁.mem i := by
    refine SameSeg.of_bytes hi fun x hx => ?_
    have hown : ¬c.Payload x := Config.Own.not_payload (Or.inr (Or.inl hx))
    rw [h₁.mem, write_of_not_within (by have := (c.filesz s₀.mem i).isLt; omega) fun hin => hown ?_,
      h.mem, placed_frame (fun j hj => hgood j (by omega)) hsofar hown]
    exact payload_of_within_start hbad (hlen.le.trans hfile) hin
  rw [wp_bind, wp_get, hseg₁.filesz, hseg₁.memsz, BitVec.toNat_sub_of_le hfile]
  have hroomZ : c.Room (c.segAddr s₀.mem i + c.filesz s₀.mem i)
      ((c.memsz s₀.mem i).toNat - (c.filesz s₀.mem i).toNat) := by
    have := hroom.sub (c.filesz s₀.mem i).toNat
      ((c.memsz s₀.mem i).toNat - (c.filesz s₀.mem i).toNat) (by omega)
    rwa [BitVec.ofNat_toNat, BitVec.setWidth_eq] at this
  refine (memset_room hroomZ).bind ?_ fun _ _ h => h
  rintro _ s₂ ⟨hmem₂, hline₂, hmsrc₂, hreads₂, herr₂⟩
  refine wp_pure.mpr ⟨?_, ?_, ?_, ?_, ?_⟩
  · rw [hmem₂, h₁.mem, h.mem, Config.placed, Config.segment, write_append, ← hchunk, hlen,
      BitVec.ofNat_toNat, BitVec.setWidth_eq]
  · refine feeds_steady _ _ _ h₁.feeds hline₂ hmsrc₂ fun x hx => ?_
    rw [hmem₂]
    exact Config.Room.write_above (by rwa [List.length_replicate]) s₁.mem hx
  · rw [hsucc, ← hlen]
    exact (h.fetched.trans h₁.fetched).carry hmsrc₂ hreads₂
  · rw [hcrc₁, h.crc_eq, ← List.foldl_append, hsucc, List.take_add, hchunk]
  · rw [herr₂, h₁.lineErr, h.lineErr]

section
variable (hn : (c.nseg s₀.mem).toNat ≤ rvbiMaxSegs)
  (hgood : ∀ i < (c.nseg s₀.mem).toNat, ¬badSegment c s₀.mem i)
include hn hgood

theorem loadSegs_placing (hdata : c.fileBytes s₀.mem (c.nseg s₀.mem).toNat ≤ data.length) (k : ℕ) :
    ∀ i, i + k = (c.nseg s₀.mem).toNat → ∀ crc s, Placing c s₀ data rest i crc s →
      Wp (loadSegs c i crc)
        (fun crc' s' => Placing c s₀ data rest (c.nseg s₀.mem).toNat crc' s')
        (fun _ _ => False) s := by
  induction k with
  | zero =>
    intro i hi crc s h
    have hi : i = (c.nseg s₀.mem).toNat := hi
    rw [loadSegs, wp_bind, wp_get]
    dsimp only
    rw [(h.sameHdr (hi ▸ hgood) (hi ▸ hdata)).nseg, dif_neg (by omega)]
    exact wp_pure.mpr (hi ▸ h)
  | succ k ih =>
    intro i hi crc s h
    have hlt : i < (c.nseg s₀.mem).toNat := by omega
    have hdata' := (fileBytes_mono (c := c) s₀.mem hlt).trans hdata
    have hsame := h.sameHdr (fun j hj => hgood j (by omega))
      ((fileBytes_mono (c := c) s₀.mem hlt.le).trans hdata)
    rw [loadSegs, wp_bind, wp_get]
    dsimp only
    rw [hsame.nseg, dif_pos hlt]
    refine (loadSeg_placing (by omega) (fun j hj => hgood j (by omega)) hdata' h).bind ?_
      fun _ _ h => h
    exact fun crc₁ s₁ h₁ => ih (i + 1) (by omega) crc₁ s₁ h₁

theorem receiveData_fed {total : BitVec 32}
    (hdata : c.fileBytes s₀.mem (c.nseg s₀.mem).toNat = data.length)
    (h : Feeds c (data ++ rest) s₀) (herr : s₀.lineErr = 0#32) :
    Wp (receiveData c total)
      (fun code s' => code = (if crc32 0#32 data ≠ c.dataCrc s₀.mem then .dataCrc else .ok) ∧
        s'.mem = c.placed s₀.mem data (c.nseg s₀.mem).toNat ∧ Fetched data.length s₀ s')
      (fun _ _ => False) s₀ := by
  have hstart : Placing c s₀ data rest 0 0xFFFFFFFF#32 s₀ :=
    ⟨rfl, h, Fetched.of_eq rfl rfl, rfl, rfl⟩
  unfold receiveData
  refine (loadSegs_placing hn hgood hdata.le _ 0 (Nat.zero_add _) _ _ hstart).bind ?_
    fun _ _ h => h
  intro crc s₁ h₁
  have hsame := h₁.sameHdr hgood hdata.le
  have hfetched : Fetched data.length s₀ s₁ := hdata ▸ h₁.fetched
  have hcrc : ~~~crc = crc32 0#32 data := by
    rw [h₁.crc_eq, hdata, List.take_length]
    rfl
  rw [wp_bind, wp_modify, wp_bind, wp_get, if_neg (not_not.mpr (h₁.lineErr.trans herr))]
  dsimp only
  rw [hsame.dataCrc, hcrc]
  refine Wp.ite (fun hne => ?_) fun heq => ?_
  · exact ⟨(if_pos hne).symm, h₁.mem, hfetched.carry rfl rfl⟩
  · exact ⟨(if_neg heq).symm, h₁.mem, hfetched.carry rfl rfl⟩

end

end Data

end RiscvScratch.Rvbi
