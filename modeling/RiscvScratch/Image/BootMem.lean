import RiscvScratch.Image.Outcome

/-! Booting an image left in RAM (rom_main). The data size of the header is never compared with the
end of RAM, so an image that passes the checks and whose data runs past it faults. -/
namespace RiscvScratch.Rvbi

open ByteMem Platform Program

section BootMem

variable (c : Config)

/-- `rom_main` booting the image at `BOOTMEM_ADDR`, no key having arrived: `none` where it does not
try. `c` carries the `payload_end` set for it. -/
def bootMem : Rom (Option ImgCode) := do
  let s ← get
  if bootmemAddr + 32#32 ≤ ramBase + c.ramSize - dtbArea ∧
      load32 s.mem bootmemAddr = rvbiMagic then
    modify fun s => { s with msrc := bootmemAddr }
    let code ← loadImage c
    modify fun s => { s with msrc := 0#32 }
    return some code
  else return none

/-- The RAM from `BOOTMEM_ADDR` up. -/
def Config.bootmem (m : Mem) : List (BitVec 8) :=
  slice m bootmemAddr (ramBase.toNat + c.ramSize.toNat - bootmemAddr.toNat)

variable {c}

theorem bootmem_length (m : Mem) :
    (c.bootmem m).length = ramBase.toNat + c.ramSize.toNat - bootmemAddr.toNat :=
  slice_length _ _ _

theorem bootmem_room (h : bootmemAddr + 32#32 ≤ ramBase + c.ramSize - dtbArea) {n : ℕ}
    (hn : n ≤ hdrBytes + dtbArea.toNat) :
    bootmemAddr.toNat + n ≤ ramBase.toNat + c.ramSize.toNat := by
  have hfits := c.ram_fits
  unfold bootmemAddr ramBase hdrBytes dtbArea at *
  bv_omega

variable {l : List (BitVec 8)}

theorem small_of_bootmem (hend : c.payloadEnd = bootmemAddr) : c.Small := by
  unfold Config.Small
  rw [hend]
  decide

theorem metaBytes_le (h : ¬BadHdr l) : metaBytes l ≤ 383 := by
  unfold BadHdr rvbiMaxSegs rvbiMaxCmd at h
  unfold metaBytes hdrBytes segBytes
  omega

/-- The fault of a load just past the end of RAM. -/
def Config.PastRam (c : Config) (e : Stop) : Prop :=
  e = .fault (BitVec.ofNat 32 (ramBase.toNat + c.ramSize.toNat))

theorem copyLoop_faults {n : ℕ} :
    ∀ {p crc : BitVec 32} {s : Machine}, c.Room p n →
      ramBase.toNat ≤ s.msrc.toNat → s.msrc.toNat ≤ ramBase.toNat + c.ramSize.toNat →
      ramBase.toNat + c.ramSize.toNat < s.msrc.toNat + n →
      Wp (copyLoop c p n crc) (fun _ _ => False)
        (fun e _ => c.PastRam e) s := by
  have hfits := c.ram_fits
  induction n with
  | zero => intro p crc s _ _ hle hlt; omega
  | succ n ih =>
    intro p crc s hroom hlow hle hlt
    rw [copyLoop, wp_bind]
    unfold fetch
    rw [wp_bind, wp_get]
    by_cases hin : c.InRam s.msrc
    · rw [if_pos hin, wp_bind, wp_set, wp_pure]
      refine (store_room hroom _ _).bind ?_ fun _ _ h => h.elim
      rintro _ _ rfl
      have hadd : (s.msrc + 1#32).toNat = s.msrc.toNat + 1 := by
        have := hin.2
        bv_omega
      have := hin.2
      exact ih hroom.tail (by simp only [hadd]; omega) (by simp only [hadd]; omega)
        (by simp only [hadd]; omega)
    · rw [if_neg hin]
      refine wp_throw.mpr (congrArg Stop.fault (BitVec.eq_of_toNat_eq ?_))
      have hmsrc : s.msrc.toNat = ramBase.toNat + c.ramSize.toNat :=
        le_antisymm hle (Nat.not_lt.mp fun h => hin ⟨hlow, h⟩)
      rw [BitVec.toNat_ofNat, Nat.mod_eq_of_lt hfits, hmsrc]

section PastRam

variable {s₀ : Machine} {data : List (BitVec 8)}
  (hlow : ramBase.toNat ≤ s₀.msrc.toNat)
  (hend : s₀.msrc.toNat + data.length = ramBase.toNat + c.ramSize.toNat)
  (hn : (c.nseg s₀.mem).toNat ≤ rvbiMaxSegs)
  (hgood : ∀ i < (c.nseg s₀.mem).toNat, ¬badSegment c s₀.mem i)
include hlow hend hn hgood

/-- The copy of the segment in whose file part the RAM ends. -/
theorem loadSeg_faults {i : ℕ} {crc : BitVec 32} {s : Machine} (hi : i < (c.nseg s₀.mem).toNat)
    (hhave : c.fileBytes s₀.mem i ≤ data.length)
    (hshort : data.length < c.fileBytes s₀.mem (i + 1)) (h : Placing c s₀ data [] i crc s) :
    Wp (loadSeg c i crc) (fun _ _ => False) (fun e _ => c.PastRam e) s := by
  have hne : ∀ {a : BitVec 32}, ramBase.toNat ≤ a.toNat → ¬a = 0#32 := by
    rintro _ ha rfl
    exact absurd ha (by decide)
  have hmsrc : s.msrc.toNat = s₀.msrc.toNat + c.fileBytes s₀.mem i := by
    rw [h.fetched.msrc, if_neg (hne hlow)]
  obtain ⟨hfile, hpay, htop⟩ := not_badSegment_iff.mp (hgood i hi)
  have hram : ramBase.toNat ≤ payloadBase.toNat := by decide
  have hseg := h.sameSeg (fun j hj => hgood j (by omega)) hhave (by omega : i < rvbiMaxSegs)
  rw [c.fileBytes_succ] at hshort
  unfold loadSeg
  rw [wp_bind, wp_get]
  dsimp only
  rw [hseg.segAddr, hseg.filesz, wp_bind]
  unfold getBytes
  rw [wp_bind, wp_get, if_neg (hne (by omega))]
  exact (copyLoop_faults ⟨by omega, by omega⟩ (by omega) (by omega) (by omega)).imp
    (fun _ _ h => h.elim) fun _ _ h => h

theorem loadSegs_faults (hshort : data.length < c.fileBytes s₀.mem (c.nseg s₀.mem).toNat) (k : ℕ) :
    ∀ i, i + k = (c.nseg s₀.mem).toNat → c.fileBytes s₀.mem i ≤ data.length →
      ∀ crc s, Placing c s₀ data [] i crc s →
        Wp (loadSegs c i crc) (fun _ _ => False) (fun e _ => c.PastRam e) s := by
  induction k with
  | zero =>
    intro i hi hhave
    rw [show i = (c.nseg s₀.mem).toNat from hi] at hhave
    omega
  | succ k ih =>
    intro i hi hhave crc s h
    have hlt : i < (c.nseg s₀.mem).toNat := by omega
    rw [loadSegs, wp_bind, wp_get]
    dsimp only
    rw [(h.sameHdr (fun j hj => hgood j (by omega)) hhave).nseg, dif_pos hlt]
    -- this segment is still whole, or the copy runs out in it
    by_cases hnext : c.fileBytes s₀.mem (i + 1) ≤ data.length
    · refine (loadSeg_placing (by omega) (fun j hj => hgood j (by omega)) hnext h).bind ?_
        fun _ _ h => h.elim
      exact fun crc₁ s₁ h₁ => ih (i + 1) (by omega) hnext crc₁ s₁ h₁
    · exact (loadSeg_faults hlow hend hn hgood hlt hhave (by omega) h).bind
        (fun _ _ h => h.elim) fun _ _ h => h

theorem receiveData_faults {total : BitVec 32} (h : Feeds c data s₀)
    (hshort : data.length < c.fileBytes s₀.mem (c.nseg s₀.mem).toNat) :
    Wp (receiveData c total) (fun _ _ => False) (fun e _ => c.PastRam e) s₀ := by
  have hstart : Placing c s₀ data [] 0 0xFFFFFFFF#32 s₀ :=
    ⟨rfl, (List.append_nil data).symm ▸ h, Fetched.of_eq rfl rfl, rfl, rfl⟩
  unfold receiveData
  exact (loadSegs_faults hlow hend hn hgood hshort _ 0 (Nat.zero_add _) (Nat.zero_le _) _ _
    hstart).bind (fun _ _ h => h.elim) fun _ _ h => h

end PastRam

variable {s : Machine}

/-- An image that passes the checks and is not all in RAM faults at the end of RAM. -/
theorem loadImage_faults (hstart : Starts c l s)
    (hlow : ramBase.toNat ≤ s.msrc.toNat)
    (hend : s.msrc.toNat + l.length = ramBase.toNat + c.ramSize.toNat) (hp : Passed c l)
    (hmeta : metaBytes l ≤ l.length) (hout : l.length < imageBytes l) :
    Wp (loadImage c) (fun _ _ => False) (fun e _ => c.PastRam e) s := by
  unfold loadImage
  refine (receiveHeader_image hstart hp.header hmeta).bind ?_ fun _ _ h => h.elim
  rintro r s₁ ⟨rfl, hr₁⟩
  rw [if_neg (not_not.mpr hp.crc)]
  obtain ⟨hhdr, hseg⟩ := received_image (c := c) s.mem hp.header hmeta
  rw [← hr₁.mem] at hhdr hseg
  have hpass := (checked_iff hhdr hseg hp.header hp.crc).mpr hp
  have hn : (c.nseg s₁.mem).toNat ≤ rvbiMaxSegs := by
    have := hp.header
    unfold BadHdr at this
    rw [hhdr.nseg, u16_take (by decide)]
    omega
  have hmsrc : s₁.msrc.toNat = s.msrc.toNat + metaBytes l := by
    rw [hr₁.fetched.msrc, if_neg]
    intro h0
    rw [h0] at hlow
    exact absurd hlow (by decide)
  have hrest : (l.drop (metaBytes l)).length = l.length - metaBytes l := List.length_drop
  dsimp only
  rw [Wp, loadChecked_passes hpass]
  refine receiveData_faults (by omega) ?_ hn hpass.rows hr₁.feeds ?_
  · rw [hrest]
    omega
  · rw [hpass.sizes, hhdr.dataSize, u32_take (by decide), hrest]
    unfold imageBytes at hout
    omega

/-- The image in RAM as `load_image` starts on it. -/
theorem bootmem_starts (hend : c.payloadEnd = bootmemAddr)
    (hroom : bootmemAddr + 32#32 ≤ ramBase + c.ramSize - dtbArea) (s : Machine) :
    Starts c (c.bootmem s.mem) { s with msrc := bootmemAddr } := by
  have hlen := bootmem_length (c := c) s.mem
  have hhdr : bootmemAddr.toNat + hdrBytes ≤ ramBase.toNat + c.ramSize.toNat :=
    bootmem_room hroom (by decide)
  have h4 : 4 ≤ hdrBytes := by decide
  refine starts_inMemory ⟨?_, ?_, ?_⟩ (by omega) (show bootmemAddr.toNat % 4 = 0 by decide)
  · rw [hlen]; rfl
  · rw [hend]
  · rw [hlen]
    change bootmemAddr.toNat + _ ≤ _
    omega

theorem bootMem_faults (hend : c.payloadEnd = bootmemAddr)
    (hroom : bootmemAddr + 32#32 ≤ ramBase + c.ramSize - dtbArea)
    (hmagic : load32 s.mem bootmemAddr = rvbiMagic) (hp : Passed c (c.bootmem s.mem))
    (hout : ramBase.toNat + c.ramSize.toNat <
      bootmemAddr.toNat + imageBytes (c.bootmem s.mem)) :
    ∃ s', bootMem c s =
      .error (.fault (BitVec.ofNat 32 (ramBase.toNat + c.ramSize.toNat))) s' := by
  have hlen := bootmem_length (c := c) s.mem
  have hhdr : bootmemAddr.toNat + metaBytes (c.bootmem s.mem) ≤ ramBase.toNat + c.ramSize.toNat :=
    bootmem_room hroom ((metaBytes_le hp.header).trans (by decide))
  suffices h : Wp (bootMem c) (fun _ _ => False) (fun e _ => c.PastRam e) s by
    obtain ⟨_, s', hrun, rfl⟩ := h.stops
    exact ⟨s', hrun⟩
  unfold bootMem
  rw [wp_bind, wp_get, if_pos ⟨hroom, hmagic⟩, wp_bind, wp_modify, wp_bind]
  refine (loadImage_faults (bootmem_starts hend hroom s)
    (show ramBase.toNat ≤ bootmemAddr.toNat by decide) ?_ hp (by omega) (by omega)).imp
    (fun _ _ h => h.elim) fun _ _ h => h
  change bootmemAddr.toNat + _ = _
  omega

/-- The attempt returns and has read inside RAM only, exactly when the image lies inside RAM or is
refused before its data. -/
theorem boot_from_memory (c : Config) (hend : c.payloadEnd = bootmemAddr) (s : Machine)
    (hroom : bootmemAddr + 32#32 ≤ ramBase + c.ramSize - dtbArea)
    (hmagic : load32 s.mem bootmemAddr = rvbiMagic) :
    (∃ code s', bootMem c s = .ok (some code) s' ∧
      ∃ new, s'.reads = s.reads ++ new ∧
        ∀ a ∈ new, bootmemAddr.toNat ≤ a.toNat ∧ a.toNat < ramBase.toNat + c.ramSize.toNat) ↔
    (Passed c (c.bootmem s.mem) →
      bootmemAddr.toNat + imageBytes (c.bootmem s.mem) ≤ ramBase.toNat + c.ramSize.toNat) := by
  constructor
  · rintro ⟨code, s', hrun, -⟩ hp
    by_contra hout
    obtain ⟨s'', hfault⟩ := bootMem_faults hend hroom hmagic hp (Nat.not_le.mp hout)
    rw [hrun] at hfault
    cases hfault
  intro hfits
  have hlen := bootmem_length (c := c) s.mem
  have hhdr : bootmemAddr.toNat + hdrBytes ≤ ramBase.toNat + c.ramSize.toNat :=
    bootmem_room hroom (by decide)
  have hmeta : ¬BadHdr (c.bootmem s.mem) →
      bootmemAddr.toNat + metaBytes (c.bootmem s.mem) ≤ ramBase.toNat + c.ramSize.toNat :=
    fun hbad => bootmem_room hroom ((metaBytes_le hbad).trans (by decide))
  have hload := loadImage_fed (small_of_bootmem hend) (bootmem_starts hend hroom s) (by omega)
    (fun hbad => by have := hmeta hbad; omega) (fun hp => by have := hfits hp; omega)
  suffices h : Wp (bootMem c) (fun r s' => (∃ code, r = some code) ∧
      ∃ new, s'.reads = s.reads ++ new ∧
        ∀ a ∈ new, bootmemAddr.toNat ≤ a.toNat ∧ a.toNat < ramBase.toNat + c.ramSize.toNat)
      (fun _ _ => False) s by
    obtain ⟨r, s', hrun, ⟨code, rfl⟩, hreads⟩ := h.returns
    exact ⟨code, s', hrun, hreads⟩
  unfold bootMem
  rw [wp_bind, wp_get, if_pos ⟨hroom, hmagic⟩, wp_bind, wp_modify]
  refine hload.bind ?_ fun _ _ h => h
  intro code s₁ h₁
  -- whatever the outcome, what was fetched ends inside RAM
  obtain ⟨n, hn, hfetched⟩ : ∃ n, bootmemAddr.toNat + n ≤ ramBase.toNat + c.ramSize.toNat ∧
      Fetched n { s with msrc := bootmemAddr } s₁ := by
    rcases h₁ with ⟨-, -, h⟩ | ⟨hbad, -, -, h⟩ | ⟨hbad, -, -, h⟩ | ⟨hp, -, h⟩
    · exact ⟨hdrBytes, hhdr, h⟩
    · exact ⟨metaBytes (c.bootmem s.mem), hmeta hbad, h⟩
    · exact ⟨metaBytes (c.bootmem s.mem), hmeta hbad, h⟩
    · exact ⟨imageBytes (c.bootmem s.mem), hfits hp, h⟩
  obtain ⟨new, hreads, hrange⟩ := hfetched.reads
  refine ⟨⟨code, rfl⟩, new, hreads, fun a ha => ?_⟩
  have hmsrc := hfetched.msrc
  rw [if_neg (show ¬bootmemAddr = 0#32 by decide)] at hmsrc
  have := hrange a ha
  dsimp only at hmsrc this
  omega

def board : Config where
  ramSize := 0x04000000#32
  payloadEnd := bootmemAddr
  hdr := 0x80000000#32
  seg := 0x80000020#32
  cmdline := 0x80000080#32
  ram_fits := by decide
  payloadEnd_ge := by decide
  payloadEnd_le := by decide
  hdr_firmware := by decide
  seg_firmware := by decide
  cmdline_firmware := by decide
  hdr_seg := by decide
  hdr_cmdline := by decide
  seg_cmdline := by decide

/-- Header and table of an image with one segment at the payload's base, entered there. -/
def oneSegment (version : BitVec 16) (filesz memsz dataCrc hdrCrc : BitVec 32) :
    List (BitVec 8) :=
  le32 rvbiMagic ++ le16 version ++ le16 1#16 ++ le32 payloadBase ++ le32 0#32 ++ le16 0#16 ++
    le16 0#16 ++ le32 filesz ++ le32 dataCrc ++ le32 hdrCrc ++
    (le32 payloadBase ++ le32 filesz ++ le32 memsz)

/-- The machine at reset, with `l` left at `BOOTMEM_ADDR`. -/
def resetWith (l : List (BitVec 8)) : Machine where
  mem := write (fun _ => 0#8) bootmemAddr l
  line := []
  msrc := 0#32
  lineErr := 0#32
  badSeg := 0
  crcGot := 0#32
  rxErr := 0#32
  rxTotal := 0#32
  got := []
  reads := []
  wrote := []

theorem resetWith_inMemory (l : List (BitVec 8)) (hl : l.length ≤ 0x01000000) :
    InMemory board l { resetWith l with msrc := bootmemAddr } := by
  refine ⟨slice_write _ _ (by omega), le_rfl, ?_⟩
  change bootmemAddr.toNat + l.length ≤ ramBase.toNat + board.ramSize.toNat
  have hroom : bootmemAddr.toNat + 0x01000000 ≤ ramBase.toNat + board.ramSize.toNat := by decide
  exact (Nat.add_le_add_left hl _).trans hroom

/-- Four bytes of data and four of `.bss`. -/
def smallImage : List (BitVec 8) :=
  oneSegment rvbiVersion 4#32 8#32 0x63e8276d#32 0xb90e11a5#32 ++ [0x13#8, 0#8, 0#8, 0#8]

theorem take_drop_take {n a b : ℕ} (h : a + b ≤ n) :
    ((l.take n).drop a).take b = (l.drop a).take b := by
  rw [List.drop_take, List.take_take, Nat.min_eq_left (by omega)]

theorem metaBytes_take {n : ℕ} (hn : hdrBytes ≤ n) : metaBytes (l.take n) = metaBytes l := by
  unfold hdrBytes at hn
  rw [metaBytes, metaBytes, u16_take (by omega), u16_take (by omega)]

theorem imageBytes_take {n : ℕ} (hn : hdrBytes ≤ n) : imageBytes (l.take n) = imageBytes l := by
  rw [imageBytes, imageBytes, metaBytes_take hn, u32_take (le_trans (by decide) hn)]

/-- The checks read no further than the command line. -/
theorem passed_of_take {n : ℕ} (hn : metaBytes l ≤ n) (h : Passed c (l.take n)) : Passed c l := by
  have hhdr : hdrBytes ≤ n := le_trans (Nat.le_add_right _ _) hn
  have hle : ∀ {k}, k ≤ hdrBytes → k ≤ n := fun hk => hk.trans hhdr
  have h6 : u16 (l.take n) 6 = u16 l 6 := u16_take (hle (by decide))
  have h16 : u16 (l.take n) 16 = u16 l 16 := u16_take (hle (by decide))
  have hrow : ∀ i < (u16 l 6).toNat, ∀ k, k + 4 ≤ segBytes →
      u32 (l.take n) (hdrBytes + segBytes * i + k) = u32 l (hdrBytes + segBytes * i + k) := by
    intro i hi k hk
    have := row_lt hi hk
    unfold metaBytes at hn
    exact u32_take (by omega)
  obtain ⟨hgood, hcrc, hrows, hsizes, i, hi, hin⟩ := h
  rw [h6] at hrows hsizes hi
  rw [u32_take (hle (by decide))] at hsizes hin
  have hfile : ∀ i < (u16 l 6).toNat, rowFile (l.take n) i = rowFile l i :=
    fun i hi => hrow i hi 4 (by decide)
  have haddr : ∀ i < (u16 l 6).toNat, rowAddr (l.take n) i = rowAddr l i :=
    fun i hi => hrow i hi 0 (by decide)
  have hmem : ∀ i < (u16 l 6).toNat, rowMem (l.take n) i = rowMem l i :=
    fun i hi => hrow i hi 8 (by decide)
  refine ⟨?_, ?_, fun j hj => ?_, ?_, i, hi, ?_⟩
  · rwa [← badHdr_take, List.take_take, Nat.min_eq_left hhdr, badHdr_take] at hgood
  · unfold metaBytes at hn
    rw [HdrCrcOk, tableOf, cmdlineOf, h6, h16, take_drop_take (by omega), take_drop_take (by omega),
      List.take_take, Nat.min_eq_left (hle (by decide)), u32_take (hle (by decide))] at hcrc
    exact hcrc
  · rw [← hfile j hj, ← haddr j hj, ← hmem j hj]
    exact hrows j hj
  · rw [← hsizes]
    exact Finset.sum_congr rfl fun j hj => by rw [hfile j (Finset.mem_range.mp hj)]
  · rwa [← hfile i hi, ← haddr i hi]

theorem bootmem_take (h : l.length ≤ 0x01000000) :
    (board.bootmem (resetWith l).mem).take l.length = l := by
  have hroom : ramBase.toNat + board.ramSize.toNat - bootmemAddr.toNat = 0x01000000 := by decide
  have hlen : ramBase.toNat + board.ramSize.toNat - bootmemAddr.toNat =
      l.length + (0x01000000 - l.length) := by omega
  rw [Config.bootmem, hlen, slice_add, List.take_left' (slice_length _ _ _)]
  exact slice_write _ _ (by omega)

theorem smallImage_boots : ∃ code s', bootMem board (resetWith smallImage) = .ok (some code) s' ∧
      ∃ new, s'.reads = (resetWith smallImage).reads ++ new ∧
        ∀ a ∈ new, bootmemAddr.toNat ≤ a.toNat ∧
          a.toNat < ramBase.toNat + board.ramSize.toNat :=
  (boot_from_memory board rfl (resetWith smallImage) (by decide) (by decide +kernel)).mpr <| by
    intro _
    rw [← imageBytes_take (show hdrBytes ≤ smallImage.length by decide),
      bootmem_take (by decide)]
    decide +kernel

/-- 48 MiB less the firmware's 16 KiB, in a RAM that ends 16 MiB above `BOOTMEM_ADDR`. -/
def largeImage : List (BitVec 8) :=
  oneSegment rvbiVersion 0x02ffc000#32 0x02ffc000#32 0#32 0x36c0cb89#32

theorem largeImage_passed : Passed board largeImage := by
  constructor <;> decide +kernel

theorem largeImage_faults :
    ∃ s', bootMem board (resetWith largeImage) = .error (.fault 0x84000000#32) s' := by
  have htake := bootmem_take (l := largeImage) (by decide)
  have hmeta := metaBytes_take (l := board.bootmem (resetWith largeImage).mem)
    (show hdrBytes ≤ largeImage.length by decide)
  have himage := imageBytes_take (l := board.bootmem (resetWith largeImage).mem)
    (show hdrBytes ≤ largeImage.length by decide)
  rw [htake] at hmeta himage
  refine bootMem_faults rfl (by decide) (by decide +kernel) ?_ ?_
  · refine passed_of_take (n := largeImage.length) ?_ (htake.symm ▸ largeImage_passed)
    rw [← hmeta]
    decide +kernel
  · rw [← himage]
    decide +kernel

end BootMem

end RiscvScratch.Rvbi
