import RiscvScratch.Image.Data

/-!
What `load_image` returns on known bytes, and how many of them it takes.
-/
namespace RiscvScratch.Rvbi

open ByteMem Platform Program

def metaBytes (l : List (BitVec 8)) : ℕ :=
  hdrBytes + ((u16 l 6).toNat * segBytes + (u16 l 16).toNat)

def imageBytes (l : List (BitVec 8)) : ℕ := metaBytes l + (u32 l 20).toNat

def tableOf (l : List (BitVec 8)) : List (BitVec 8) :=
  (l.drop hdrBytes).take ((u16 l 6).toNat * segBytes)

def cmdlineOf (l : List (BitVec 8)) : List (BitVec 8) :=
  (l.drop (hdrBytes + (u16 l 6).toNat * segBytes)).take (u16 l 16).toNat

/-- The header CRC, over the header with `hdr_crc` as zero, the table and the command line. -/
def HdrCrcOk (l : List (BitVec 8)) : Prop :=
  crc32 0#32 (l.take 28 ++ List.replicate 4 0#8 ++ (tableOf l ++ cmdlineOf l)) = u32 l 28

instance (l : List (BitVec 8)) : Decidable (HdrCrcOk l) := inferInstanceAs (Decidable (_ = _))

variable {l : List (BitVec 8)} {n k o : ℕ}

theorem getD_take_drop {i : ℕ} (h : i < n) :
    ((l.drop o).take n).getD i 0#8 = l.getD (o + i) 0#8 := by
  rw [List.getD_eq_getElem?_getD, List.getElem?_take_of_lt h, List.getElem?_drop,
    ← List.getD_eq_getElem?_getD]

theorem u16_part (h : k + 2 ≤ n) :
    u16 ((l.drop o).take n) k = u16 l (o + k) := by
  rw [u16, u16, getD_take_drop (by omega), getD_take_drop (by omega)]
  rfl

theorem u32_part (h : k + 4 ≤ n) :
    u32 ((l.drop o).take n) k = u32 l (o + k) := by
  rw [u32, u32, getD_take_drop (by omega), getD_take_drop (by omega), getD_take_drop (by omega),
    getD_take_drop (by omega)]
  rfl

theorem u16_take (h : k + 2 ≤ n) : u16 (l.take n) k = u16 l k := by
  simpa using u16_part (l := l) (o := 0) h

theorem u32_take (h : k + 4 ≤ n) : u32 (l.take n) k = u32 l k := by
  simpa using u32_part (l := l) (o := 0) h

theorem badHdr_take (l : List (BitVec 8)) : BadHdr (l.take hdrBytes) ↔ BadHdr l := by
  rw [BadHdr, BadHdr, u32_take (by decide), u16_take (by decide), u16_take (by decide),
    u16_take (by decide)]

section Outcome

variable {c : Config}

def Config.Small (c : Config) : Prop :=
  rvbiMaxSegs * (c.payloadEnd.toNat - payloadBase.toNat) < 2 ^ 32

theorem fileBytes_lt (hsmall : c.Small) {m : Mem} {n : ℕ} (hn : n ≤ rvbiMaxSegs)
    (hgood : ∀ i < n, ¬badSegment c m i) : c.fileBytes m n < 2 ^ 32 := by
  have hle : c.fileBytes m n ≤ n * (c.payloadEnd.toNat - payloadBase.toNat) := by
    have := Finset.sum_le_card_nsmul (Finset.range n) (fun j => (c.filesz m j).toNat)
      (c.payloadEnd.toNat - payloadBase.toNat) ?_
    · rwa [Finset.card_range, smul_eq_mul] at this
    · intro i hi
      obtain ⟨hfile, hlow, hend⟩ := not_badSegment_iff.mp (hgood i (Finset.mem_range.mp hi))
      omega
  calc c.fileBytes m n ≤ n * (c.payloadEnd.toNat - payloadBase.toNat) := hle
    _ ≤ rvbiMaxSegs * (c.payloadEnd.toNat - payloadBase.toNat) := Nat.mul_le_mul_right _ hn
    _ < 2 ^ 32 := hsmall

variable {l : List (BitVec 8)} {s : Machine}

/-- The checks between the header and the data: every row lies in the payload area, the file sizes
add up to `data_size`, and the entry point is in the file part of a row. -/
structure Config.Checked (c : Config) (m : Mem) : Prop where
  rows : ∀ i < (c.nseg m).toNat, ¬badSegment c m i
  sizes : c.fileBytes m (c.nseg m).toNat = (c.dataSize m).toNat
  entry : ∃ i < (c.nseg m).toNat, c.InFile m i (c.entry m)

theorem loadChecked_eq (c : Config) (s : Machine) :
    loadChecked c s = (match checkSegs c s.mem 0 0#32 false with
      | .error i => do
        modify fun s => { s with badSeg := i }
        return .range
      | .ok (total, entryOk) =>
        if total ≠ c.dataSize s.mem then return .sizes
        else if !entryOk then return .entry
        else receiveData c total : Rom ImgCode) s := rfl

theorem loadChecked_passes (h : c.Checked s.mem) :
    loadChecked c s = receiveData c (c.dataSize s.mem) s := by
  have hspec := checkSegs_all c s.mem
  cases hcheck : checkSegs c s.mem 0 0#32 false with
  | error i =>
    rw [hcheck] at hspec
    exact absurd hspec.2 (h.rows i hspec.1)
  | ok r =>
    obtain ⟨total, entryOk⟩ := r
    rw [hcheck] at hspec
    obtain ⟨-, htotal, hentry⟩ := hspec
    obtain ⟨i, hi, hin⟩ := h.entry
    have hok : entryOk = true := hentry.mpr ⟨i, hi, (entryIn_iff (h.rows i hi)).mpr hin⟩
    have hsum : total = c.dataSize s.mem := by
      rw [htotal, h.sizes, BitVec.ofNat_toNat, BitVec.setWidth_eq]
    rw [loadChecked_eq, hcheck]
    dsimp only
    rw [if_neg (not_not.mpr hsum), hok, hsum]
    rfl

/-- Segment checks that do not pass refuse before any data is taken. -/
theorem loadChecked_refuses (hsmall : c.Small) (hn : (c.nseg s.mem).toNat ≤ rvbiMaxSegs)
    (h : ¬c.Checked s.mem) :
    Wp (loadChecked c) (fun code s' => code ∈ [.range, .sizes, ImgCode.entry] ∧ Fetched 0 s s')
      (fun _ _ => False) s := by
  have hstay : Fetched 0 s s := Fetched.of_eq rfl rfl
  have hspec := checkSegs_all c s.mem
  unfold loadChecked
  rw [wp_bind, wp_get]
  dsimp only
  cases hcheck : checkSegs c s.mem 0 0#32 false with
  | error i => exact ⟨by decide, hstay.carry rfl rfl⟩
  | ok r =>
    obtain ⟨total, entryOk⟩ := r
    rw [hcheck] at hspec
    obtain ⟨hgood, htotal, hentry⟩ := hspec
    refine Wp.ite (fun _ => ⟨by decide, hstay⟩) fun hsum => ?_
    refine Wp.ite (fun _ => ⟨by decide, hstay⟩) fun hok => absurd ⟨hgood, ?_, ?_⟩ h
    · rw [← not_ne_iff.mp hsum, htotal, BitVec.toNat_ofNat,
        Nat.mod_eq_of_lt (fileBytes_lt hsmall hn hgood)]
    · obtain ⟨i, hi, hin⟩ := hentry.mp (by simpa using hok)
      exact ⟨i, hi, (entryIn_iff (hgood i hi)).mp hin⟩

theorem loadChecked_fed (hsmall : c.Small) {data rest : List (BitVec 8)}
    (hn : (c.nseg s.mem).toNat ≤ rvbiMaxSegs) (h : Feeds c (data ++ rest) s)
    (hlen : c.Checked s.mem → data.length = (c.dataSize s.mem).toNat) (herr : s.lineErr = 0#32) :
    Wp (loadChecked c)
      (fun code s' => (code ∈ [.range, .sizes, ImgCode.entry] ∧ Fetched 0 s s') ∨
        (c.Checked s.mem ∧ code ∈ [.ok, ImgCode.dataCrc] ∧ Fetched data.length s s'))
      (fun _ _ => False) s := by
  by_cases hpass : c.Checked s.mem
  · have hdata : c.fileBytes s.mem (c.nseg s.mem).toNat = data.length :=
      hpass.sizes.trans (hlen hpass).symm
    rw [Wp, loadChecked_passes hpass]
    refine (receiveData_fed hn hpass.rows hdata h herr).imp ?_ fun _ _ h => h
    rintro code s' ⟨rfl, -, hfetched⟩
    refine Or.inr ⟨hpass, ?_, hfetched⟩
    split <;> decide
  · exact (loadChecked_refuses hsmall hn hpass).imp (fun _ _ h => Or.inl h) fun _ _ h => h

theorem drop_split (l : List (BitVec 8)) (n k : ℕ) :
    l.drop n = (l.drop n).take k ++ l.drop (n + k) := by
  rw [← List.drop_drop, List.take_append_drop]

theorem length_take_drop {n k : ℕ} (h : n + k ≤ l.length) :
    ((l.drop n).take k).length = k := by
  rw [List.length_take, List.length_drop]
  omega

theorem take_hdr (l : List (BitVec 8)) :
    l.take 4 ++ (l.drop 4).take 24 ++ (l.drop 28).take 4 = l.take hdrBytes := by
  rw [← List.take_add, ← List.take_add]
  rfl

theorem tableOf_length (h : metaBytes l ≤ l.length) :
    (tableOf l).length = (u16 l 6).toNat * segBytes :=
  length_take_drop (by unfold metaBytes at h; omega)

theorem cmdlineOf_length (h : metaBytes l ≤ l.length) :
    (cmdlineOf l).length = (u16 l 16).toNat :=
  length_take_drop (by unfold metaBytes at h; omega)

theorem image_parts (l : List (BitVec 8)) :
    l.take 4 ++ ((l.drop 4).take 24 ++ ((l.drop 28).take 4 ++
      (tableOf l ++ (cmdlineOf l ++ l.drop (metaBytes l))))) = l := by
  have h28 : l.drop 28 = (l.drop 28).take 4 ++ l.drop hdrBytes := drop_split l 28 4
  have h4 : l.drop 4 = (l.drop 4).take 24 ++ l.drop 28 := drop_split l 4 24
  rw [metaBytes, ← Nat.add_assoc, cmdlineOf, ← drop_split, tableOf, ← drop_split, ← h28, ← h4,
    List.take_append_drop]

theorem receiveHeader_image (h : Starts c l s)
    (hgood : ¬BadHdr l) (hmeta : metaBytes l ≤ l.length) :
    Wp (receiveHeader c)
      (fun r s' => r = (if ¬HdrCrcOk l then some .hdrCrc else none) ∧
        Received c (metaBytes l) (l.drop (metaBytes l))
          (c.received s.mem (l.take hdrBytes) (tableOf l) (cmdlineOf l)) s s')
      (fun _ _ => False) s := by
  have hhdr : hdrBytes ≤ l.length := le_trans (Nat.le_add_right _ _) hmeta
  have hstart := h
  rw [← image_parts l] at hstart
  refine Wp.imp (receiveHeader_good ?_ ?_ ?_ ?_ ?_ ?_ hstart) ?_ fun _ _ h => h
  · exact List.length_take_of_le (le_trans (by decide) hhdr)
  · exact length_take_drop (le_trans (by decide) hhdr)
  · exact length_take_drop (le_trans (by decide) hhdr)
  · rwa [take_hdr, badHdr_take]
  · rw [tableOf_length hmeta, take_hdr, u16_take (by decide)]
  · rw [cmdlineOf_length hmeta, take_hdr, u16_take (by decide)]
  rintro r s₁ ⟨hr, hr₁⟩
  rw [take_hdr, ← List.take_add, u32_take (by decide)] at hr
  rw [take_hdr, tableOf_length hmeta, cmdlineOf_length hmeta] at hr₁
  exact ⟨hr, hr₁⟩

theorem received_image (m : Mem) (hgood : ¬BadHdr l)
    (hmeta : metaBytes l ≤ l.length) :
    HdrIs c (c.received m (l.take hdrBytes) (tableOf l) (cmdlineOf l)) (l.take hdrBytes) ∧
      ∀ i < (u16 l 6).toNat,
        SegIs c (c.received m (l.take hdrBytes) (tableOf l) (cmdlineOf l)) (tableOf l) i := by
  have hnseg : (u16 l 6).toNat ≤ rvbiMaxSegs := by unfold BadHdr at hgood; omega
  have hclen : (u16 l 16).toNat ≤ rvbiMaxCmd := by unfold BadHdr at hgood; omega
  have htbl : (tableOf l).length ≤ segBytes * rvbiMaxSegs := by
    rw [tableOf_length hmeta, Nat.mul_comm]
    exact Nat.mul_le_mul_left _ hnseg
  have hcmd : (cmdlineOf l).length ≤ rvbiMaxCmd := by rwa [cmdlineOf_length hmeta]
  refine ⟨received_hdr m (List.length_take_of_le ?_) htbl hcmd, fun i hi => ?_⟩
  · exact le_trans (Nat.le_add_right _ _) hmeta
  · refine received_seg m htbl hcmd ?_
    rw [tableOf_length hmeta, Nat.mul_comm]
    exact Nat.mul_le_mul_right _ hi

def rowAddr (l : List (BitVec 8)) (i : ℕ) : BitVec 32 := u32 l (hdrBytes + segBytes * i)
def rowFile (l : List (BitVec 8)) (i : ℕ) : BitVec 32 := u32 l (hdrBytes + segBytes * i + 4)
def rowMem (l : List (BitVec 8)) (i : ℕ) : BitVec 32 := u32 l (hdrBytes + segBytes * i + 8)

/-- `l` begins with a header and a table that pass every check made before the data. -/
structure Passed (c : Config) (l : List (BitVec 8)) : Prop where
  header : ¬BadHdr l
  crc : HdrCrcOk l
  rows : ∀ i < (u16 l 6).toNat, (rowFile l i).toNat ≤ (rowMem l i).toNat ∧
    payloadBase.toNat ≤ (rowAddr l i).toNat ∧
    (rowAddr l i).toNat + (rowMem l i).toNat ≤ c.payloadEnd.toNat
  sizes : ∑ i ∈ Finset.range (u16 l 6).toNat, (rowFile l i).toNat = (u32 l 20).toNat
  entry : ∃ i < (u16 l 6).toNat, (rowAddr l i).toNat ≤ (u32 l 8).toNat ∧
    (u32 l 8).toNat < (rowAddr l i).toNat + (rowFile l i).toNat

theorem row_lt {n i k : ℕ} (hi : i < n) (hk : k + 4 ≤ segBytes) :
    segBytes * i + k + 4 ≤ n * segBytes := by
  have := Nat.mul_le_mul_right segBytes hi
  unfold segBytes at *
  omega

/-- The checks on the received tables are those on the bytes they came from. -/
theorem checked_iff {m : Mem} (hhdr : HdrIs c m (l.take hdrBytes))
    (hseg : ∀ i < (u16 l 6).toNat, SegIs c m (tableOf l) i) (hgood : ¬BadHdr l)
    (hok : HdrCrcOk l) : c.Checked m ↔ Passed c l := by
  have hnseg : c.nseg m = u16 l 6 := by rw [hhdr.nseg, u16_take (by decide)]
  have hentry : c.entry m = u32 l 8 := by rw [hhdr.entry, u32_take (by decide)]
  have hsize : c.dataSize m = u32 l 20 := by rw [hhdr.dataSize, u32_take (by decide)]
  have hpart : ∀ i < (u16 l 6).toNat, ∀ k, k + 4 ≤ segBytes →
      u32 (tableOf l) (segBytes * i + k) = u32 l (hdrBytes + segBytes * i + k) :=
    fun i hi k hk => (u32_part (row_lt hi hk)).trans (by rw [Nat.add_assoc])
  have haddr : ∀ i < (u16 l 6).toNat, c.segAddr m i = rowAddr l i :=
    fun i hi => (hseg i hi).segAddr.trans (hpart i hi 0 (by decide))
  have hfile : ∀ i < (u16 l 6).toNat, c.filesz m i = rowFile l i :=
    fun i hi => (hseg i hi).filesz.trans (hpart i hi 4 (by decide))
  have hmem : ∀ i < (u16 l 6).toNat, c.memsz m i = rowMem l i :=
    fun i hi => (hseg i hi).memsz.trans (hpart i hi 8 (by decide))
  have hbytes : c.fileBytes m (u16 l 6).toNat =
      ∑ i ∈ Finset.range (u16 l 6).toNat, (rowFile l i).toNat :=
    Finset.sum_congr rfl fun i hi => by rw [hfile i (Finset.mem_range.mp hi)]
  have hrow : ∀ i < (u16 l 6).toNat, (¬badSegment c m i ↔
      (rowFile l i).toNat ≤ (rowMem l i).toNat ∧ payloadBase.toNat ≤ (rowAddr l i).toNat ∧
        (rowAddr l i).toNat + (rowMem l i).toNat ≤ c.payloadEnd.toNat) := by
    intro i hi
    rw [not_badSegment_iff, haddr i hi, hfile i hi, hmem i hi]
  have hin : ∀ i < (u16 l 6).toNat, (c.InFile m i (c.entry m) ↔
      (rowAddr l i).toNat ≤ (u32 l 8).toNat ∧
        (u32 l 8).toNat < (rowAddr l i).toNat + (rowFile l i).toNat) := by
    intro i hi
    rw [Config.InFile, haddr i hi, hfile i hi, hentry]
  constructor
  · rintro ⟨hrows, hsizes, i, hi, he⟩
    rw [hnseg] at hrows hsizes hi
    refine ⟨hgood, hok, fun j hj => (hrow j hj).mp (hrows j hj), ?_, i, hi, (hin i hi).mp he⟩
    rw [← hbytes, hsizes, hsize]
  · rintro ⟨-, -, hrows, hsizes, i, hi, he⟩
    refine ⟨?_, ?_, i, hnseg ▸ hi, (hin i hi).mpr he⟩
    · rw [hnseg]
      exact fun j hj => (hrow j hj).mpr (hrows j hj)
    · rw [hnseg, hbytes, hsizes, hsize]

theorem loadImage_fed (hsmall : c.Small) (h : Starts c l s)
    (hhdr : hdrBytes ≤ l.length) (hmeta : ¬BadHdr l → metaBytes l ≤ l.length)
    (hall : Passed c l → imageBytes l ≤ l.length) :
    Wp (loadImage c)
      (fun code s' => (BadHdr l ∧ code = .badHdr ∧ Fetched hdrBytes s s') ∨
        (¬BadHdr l ∧ ¬HdrCrcOk l ∧ code = .hdrCrc ∧ Fetched (metaBytes l) s s') ∨
        (¬BadHdr l ∧ HdrCrcOk l ∧ code ∈ [.range, .sizes, ImgCode.entry] ∧
          Fetched (metaBytes l) s s') ∨
        (Passed c l ∧ code ∈ [.ok, ImgCode.dataCrc] ∧ Fetched (imageBytes l) s s'))
      (fun _ _ => False) s := by
  unfold loadImage
  by_cases hbad : BadHdr l
  · have hstart := h
    rw [← image_parts l] at hstart
    refine Wp.bind (receiveHeader_bad ?_ ?_ ?_ hstart ?_) ?_ fun _ _ h => h
    · exact List.length_take_of_le (le_trans (by decide) hhdr)
    · exact length_take_drop (le_trans (by decide) hhdr)
    · exact length_take_drop (le_trans (by decide) hhdr)
    · rwa [take_hdr, badHdr_take]
    · rintro _ s' ⟨rfl, hr⟩
      exact Or.inl ⟨hbad, rfl, hr.fetched⟩
  have hmeta := hmeta hbad
  refine (receiveHeader_image h hbad hmeta).bind ?_ fun _ _ h => h
  rintro r s₁ ⟨rfl, hr₁⟩
  by_cases hok : HdrCrcOk l
  · rw [if_neg (not_not.mpr hok)]
    obtain ⟨hhdr₁, hseg₁⟩ := received_image (c := c) s.mem hbad hmeta
    rw [← hr₁.mem] at hhdr₁ hseg₁
    have hpassed := checked_iff hhdr₁ hseg₁ hbad hok
    have hsize : c.dataSize s₁.mem = u32 l 20 := by rw [hhdr₁.dataSize, u32_take (by decide)]
    have hdata : c.Checked s₁.mem →
        ((l.drop (metaBytes l)).take (u32 l 20).toNat).length = (u32 l 20).toNat :=
      fun hpass => length_take_drop (hall (hpassed.mp hpass))
    have hfeeds := hr₁.feeds
    rw [drop_split l (metaBytes l) (u32 l 20).toNat] at hfeeds
    refine (loadChecked_fed hsmall ?_ hfeeds (fun h => by rw [hdata h, hsize]) hr₁.lineErr).imp ?_
      fun _ _ h => h
    · rw [hhdr₁.nseg, u16_take (by decide)]
      unfold BadHdr at hbad
      omega
    · rintro code s₂ (⟨hcode, h₂⟩ | ⟨hpass, hcode, h₂⟩)
      · exact Or.inr (Or.inr (Or.inl ⟨hbad, hok, hcode, hr₁.fetched.trans h₂⟩))
      · exact Or.inr (Or.inr (Or.inr
          ⟨hpassed.mp hpass, hcode, hr₁.fetched.trans (hdata hpass ▸ h₂)⟩))
  · rw [if_pos hok]
    exact wp_pure.mpr (Or.inr (Or.inl ⟨hbad, hok, rfl, hr₁.fetched⟩))

theorem starts_inMemory (h : InMemory c l s)
    (hlen : 4 ≤ l.length) (halign : s.msrc.toNat % 4 = 0) : Starts c l s := by
  obtain ⟨hslice, hlow, hhigh⟩ := h
  have hfits := c.ram_fits
  have hbase := c.payloadEnd_ge
  have hram : ramBase.toNat ≤ payloadBase.toNat := by decide
  have hne : s.msrc ≠ 0#32 := by
    intro h0
    rw [h0] at hlow
    exact absurd (hbase.trans hlow) (by decide)
  have h3 : (s.msrc + 3#32).toNat = s.msrc.toNat + 3 := by bv_omega
  have h4 : (s.msrc + 4#32).toNat = s.msrc.toNat + 4 := by bv_omega
  have hin : c.InRam s.msrc ∧ c.InRam (s.msrc + 3#32) :=
    ⟨⟨by omega, by omega⟩, by omega, by omega⟩
  have hsplit := slice_add s.mem s.msrc 4 (l.length - 4)
  rw [Nat.add_sub_cancel' hlen, hslice] at hsplit
  unfold Starts magicWord
  rw [wp_bind, wp_get, if_pos hne, if_pos ⟨halign, hin⟩]
  refine ⟨?_, rfl, Or.inr ⟨?_, ?_, ?_⟩, ⟨?_, _, rfl, ?_⟩, rfl⟩
  · rw [hsplit, List.take_left' (slice_length _ _ 4)]
    exact le32_load32 s.mem s.msrc
  · rw [hsplit, List.drop_left' (slice_length _ _ 4), slice_length]
  · exact hlow.trans (h4 ▸ Nat.le_add_right _ 4)
  · rw [List.length_drop]
    exact h4 ▸ (by omega)
  · rw [if_neg hne]; exact h4
  · intro a ha
    have h1 : (s.msrc + 1#32).toNat = s.msrc.toNat + 1 := by bv_omega
    have h2 : (s.msrc + 2#32).toNat = s.msrc.toNat + 2 := by bv_omega
    change s.msrc.toNat ≤ a.toNat ∧ a.toNat < (s.msrc + 4#32).toNat
    simp only [List.mem_cons, List.not_mem_nil, or_false] at ha
    rcases ha with rfl | rfl | rfl | rfl <;> omega

end Outcome

end RiscvScratch.Rvbi
