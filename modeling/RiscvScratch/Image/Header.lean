import RiscvScratch.Image.Source

/-!
The header, table and command line as the loader receives them from known bytes.
-/
namespace RiscvScratch.Rvbi

open ByteMem Platform Program

/-- Little-endian fields of a run of bytes. -/
def u16 (l : List (BitVec 8)) (k : ℕ) : BitVec 16 := l.getD (k + 1) 0#8 ++ l.getD k 0#8

def u32 (l : List (BitVec 8)) (k : ℕ) : BitVec 32 :=
  l.getD (k + 3) 0#8 ++ l.getD (k + 2) 0#8 ++ l.getD (k + 1) 0#8 ++ l.getD k 0#8

section slice
variable {m : Mem} {a : BitVec 32} {l : List (BitVec 8)} {k : ℕ} (h : slice m a l.length = l)
include h

theorem getD_of_slice (hk : k < l.length) : l.getD k 0#8 = m (a + BitVec.ofNat 32 k) := by
  rw [← slice_getD m a l.length k hk 0#8, h]

theorem load16_slice (hk : k + 2 ≤ l.length) : load16 m (a + BitVec.ofNat 32 k) = u16 l k := by
  rw [u16, getD_of_slice h (by omega), getD_of_slice h (by omega), load16, BitVec.add_assoc,
    ← BitVec.ofNat_add k 1]

theorem load32_slice (hk : k + 4 ≤ l.length) : load32 m (a + BitVec.ofNat 32 k) = u32 l k := by
  rw [u32, load32]
  iterate 4 rw [getD_of_slice h (by omega)]
  simp only [BitVec.add_assoc, ← BitVec.ofNat_add]

end slice

theorem le32_bytes (b₃ b₂ b₁ b₀ : BitVec 8) : le32 (b₃ ++ b₂ ++ b₁ ++ b₀) = [b₀, b₁, b₂, b₃] := by
  have hnat : (b₃ ++ b₂ ++ b₁ ++ b₀).toNat =
      b₃.toNat * 2 ^ 24 + b₂.toNat * 2 ^ 16 + b₁.toNat * 2 ^ 8 + b₀.toNat := by
    simp only [BitVec.toNat_append]
    rw [← Nat.shiftLeft_add_eq_or_of_lt b₂.isLt, ← Nat.shiftLeft_add_eq_or_of_lt b₁.isLt,
      ← Nat.shiftLeft_add_eq_or_of_lt b₀.isLt]
    simp only [Nat.shiftLeft_eq]
    omega
  have := b₀.isLt
  have := b₁.isLt
  have := b₂.isLt
  have := b₃.isLt
  have hbyte : ∀ k (b : BitVec 8), (b₃ ++ b₂ ++ b₁ ++ b₀).toNat / 2 ^ (8 * k) % 2 ^ 8 = b.toNat →
      (b₃ ++ b₂ ++ b₁ ++ b₀).extractLsb' (8 * k) 8 = b := by
    intro k b h
    apply BitVec.eq_of_toNat_eq
    rw [BitVec.extractLsb'_toNat, Nat.shiftRight_eq_div_pow, h]
  rw [hnat] at hbyte
  rw [le32, hbyte 0 b₀ (by omega), hbyte 1 b₁ (by omega), hbyte 2 b₂ (by omega),
    hbyte 3 b₃ (by omega)]

theorem le32_load32 (m : Mem) (a : BitVec 32) : le32 (load32 m a) = slice m a 4 := by
  have h₁ : a + 1#32 + 1#32 = a + 2#32 := by rw [BitVec.add_assoc]; rfl
  have h₂ : a + 2#32 + 1#32 = a + 3#32 := by rw [BitVec.add_assoc]; rfl
  simp only [slice, h₁, h₂, load32, le32_bytes]

section Header

variable {c : Config}

def BadHdr (l : List (BitVec 8)) : Prop :=
  u32 l 0 ≠ rvbiMagic ∨ u16 l 4 ≠ rvbiVersion ∨ u16 l 6 = 0#16 ∨
    rvbiMaxSegs < (u16 l 6).toNat ∨ rvbiMaxCmd < (u16 l 16).toNat

instance (l : List (BitVec 8)) : Decidable (BadHdr l) := inferInstanceAs (Decidable (_ ∨ _))

structure HdrIs (c : Config) (m : Mem) (l : List (BitVec 8)) : Prop where
  magic : c.magic m = u32 l 0
  version : c.version m = u16 l 4
  nseg : c.nseg m = u16 l 6
  entry : c.entry m = u32 l 8
  flags : c.flags m = u32 l 12
  cmdlineLen : c.cmdlineLen m = u16 l 16
  dataSize : c.dataSize m = u32 l 20
  dataCrc : c.dataCrc m = u32 l 24
  hdrCrc : c.hdrCrc m = u32 l 28

variable {a : BitVec 32} {l tbl rest : List (BitVec 8)} {s : Machine} {cmd : List (BitVec 8)}
  {m : Mem} {n : ℕ} {h₀ h₁ h₂ : List (BitVec 8)}

theorem HdrIs.of_slice (hlen : l.length = hdrBytes)
    (h : slice m c.hdr hdrBytes = l) : HdrIs c m l := by
  rw [← hlen] at h
  have h16 : ∀ k, k + 2 ≤ hdrBytes → load16 m (c.hdr + BitVec.ofNat 32 k) = u16 l k :=
    fun k hk => load16_slice h (by omega)
  have h32 : ∀ k, k + 4 ≤ hdrBytes → load32 m (c.hdr + BitVec.ofNat 32 k) = u32 l k :=
    fun k hk => load32_slice h (by omega)
  constructor
  · simpa [Config.magic] using h32 0 (by decide)
  · exact h16 4 (by decide)
  · exact h16 6 (by decide)
  · exact h32 8 (by decide)
  · exact h32 12 (by decide)
  · exact h16 16 (by decide)
  · exact h32 20 (by decide)
  · exact h32 24 (by decide)
  · exact h32 28 (by decide)

theorem HdrIs.badHeader (h : HdrIs c m l) :
    badHeader c m ↔ BadHdr l := by
  rw [Rvbi.badHeader, BadHdr, h.magic, h.version, h.nseg, h.cmdlineLen]

theorem Config.Room.of_firmware (h : InFirmware a n) : c.Room a n :=
  ⟨h.1, h.2.trans c.payloadEnd_ge⟩

theorem Config.Room.sub (h : c.Room a n) (o k : ℕ) (hk : o + k ≤ n) :
    c.Room (a + BitVec.ofNat 32 o) k := by
  have hlt := c.payloadEnd.isLt
  obtain ⟨hlow, hend⟩ := h
  have ha : (a + BitVec.ofNat 32 o).toNat = a.toNat + o := by bv_omega
  exact ⟨by omega, by omega⟩

theorem Config.Room.mono {k : ℕ} (h : c.Room a n) (hk : k ≤ n) : c.Room a k :=
  ⟨h.1, by have := h.2; omega⟩

theorem Config.Room.write_above (h : c.Room a l.length)
    (m : Mem) {x : BitVec 32} (hx : c.payloadEnd.toNat ≤ x.toNat) : write m a l x = m x := by
  have hlt := c.payloadEnd.isLt
  obtain ⟨hlow, hend⟩ := h
  refine write_of_not_within (by omega) fun hin => ?_
  have := (within_iff (by omega)).mp hin
  omega

theorem storeWord_room {v : BitVec 32} (h : c.Room a 4) (s : Machine) :
    Wp (storeWord c a v)
      (fun _ s' => s'.mem = write s.mem a (le32 v) ∧ s'.line = s.line ∧ s'.msrc = s.msrc ∧
        s'.reads = s.reads ∧ s'.lineErr = s.lineErr) (fun _ _ => False) s := by
  unfold storeWord
  refine (store_room h _ s).bind ?_ fun _ _ h => h
  rintro _ _ rfl
  refine (store_room (h.sub 1 3 (by decide)) _ _).bind ?_ fun _ _ h => h
  rintro _ _ rfl
  refine (store_room (h.sub 2 2 (by decide)) _ _).bind ?_ fun _ _ h => h
  rintro _ _ rfl
  refine (store_room (h.sub 3 1 (by decide)) _ _).imp ?_ fun _ _ h => h
  rintro _ _ rfl
  have h₁ : a + 1#32 + 1#32 = a + 2#32 := by rw [BitVec.add_assoc]; rfl
  have h₂ : a + 2#32 + 1#32 = a + 3#32 := by rw [BitVec.add_assoc]; rfl
  refine ⟨?_, rfl, rfl, rfl, rfl⟩
  simp only [le32, write, h₁, h₂]

/-- The loader finds the four bytes of the magic at the head of `l`, and the rest follows. -/
def Starts (c : Config) (l : List (BitVec 8)) (s : Machine) : Prop :=
  Wp (magicWord c)
    (fun w s' => le32 w = l.take 4 ∧ s'.mem = s.mem ∧ Feeds c (l.drop 4) s' ∧ Fetched 4 s s' ∧
      s'.lineErr = 0#32) (fun _ _ => False) { s with lineErr := 0#32 }

/-- `l` stands in the loader's variables at `a`, `rest` is still to come, the line has been
clear. -/
structure Received (c : Config) (n : ℕ) (rest : List (BitVec 8)) (m : Mem) (s s' : Machine) :
    Prop where
  mem : s'.mem = m
  feeds : Feeds c rest s'
  fetched : Fetched n s s'
  lineErr : s'.lineErr = 0#32

theorem receiveFixed_fed (len₀ : h₀.length = 4)
    (len₁ : h₁.length = 24) (len₂ : h₂.length = 4) (h : Starts c (h₀ ++ (h₁ ++ (h₂ ++ rest))) s) :
    Wp (receiveFixed c)
      (fun crc s' => crc = (h₀ ++ h₁ ++ List.replicate 4 0#8).foldl crc32Byte 0xFFFFFFFF#32 ∧
        Received c hdrBytes rest (write s.mem c.hdr (h₀ ++ h₁ ++ h₂)) s s')
      (fun _ _ => False) s := by
  have hroom : c.Room c.hdr hdrBytes := (Config.Room.of_firmware c.hdr_firmware)
  unfold receiveFixed
  rw [wp_bind, wp_modify]
  refine Wp.bind h ?_ fun _ _ h => h
  rintro w s₁ ⟨hw, hm₁, hf₁, hread₁, herr₁⟩
  rw [List.take_left' len₀] at hw
  rw [List.drop_left' len₀] at hf₁
  refine (storeWord_room (hroom.mono (by decide)) s₁).bind ?_ fun _ _ h => h
  rintro _ s₂ ⟨hm₂, hline₂, hmsrc₂, hread₂, herr₂⟩
  rw [hw, hm₁] at hm₂
  have hf₂ : Feeds c (h₁ ++ (h₂ ++ rest)) s₂ := by
    refine feeds_steady _ _ _ hf₁ hline₂ hmsrc₂ fun x hx => ?_
    rw [hm₂, hm₁]
    exact (hroom.mono (by rw [len₀]; decide)).write_above s.mem hx
  have hslice : slice (write s.mem c.hdr h₀) c.hdr 4 = h₀ := len₀ ▸ slice_write _ _ (by omega)
  have hcrc₀ : crc32 0#32 h₀ ^^^ 0xFFFFFFFF#32 = h₀.foldl crc32Byte 0xFFFFFFFF#32 := by
    rw [crc32, show (0xFFFFFFFF#32 : BitVec 32) = BitVec.allOnes 32 from rfl, BitVec.xor_allOnes,
      BitVec.not_not]
    rfl
  rw [wp_bind, wp_get, hm₂, hslice, hcrc₀]
  refine (getBytes_fed len₁ (hroom.sub 4 24 (by decide)) hf₂).bind ?_ fun _ _ h => h
  rintro crc s₃ ⟨hcrc, h₃⟩
  refine (getBytes_fed len₂ (hroom.sub 28 4 (by decide)) h₃.feeds).bind ?_ fun _ _ h => h
  rintro _ s₄ ⟨-, h₄⟩
  refine wp_pure.mpr ⟨?_, ?_, h₄.feeds, ?_, ?_⟩
  · rw [hcrc, List.foldl_append, List.foldl_append]
  · rw [h₄.mem, h₃.mem, hm₂, write_append, write_append, List.length_append, len₀, len₁]
  · have h₂₃ : Fetched 0 s₁ s₂ := Fetched.of_eq hmsrc₂ hread₂
    have := hread₁.trans (h₂₃.trans (h₃.fetched.trans h₄.fetched))
    rwa [len₁, len₂] at this
  · rw [h₄.lineErr, h₃.lineErr, herr₂, herr₁]

theorem write_tables_hdr (hl : l.length ≤ 2 ^ 32)
    (h : ∀ x, Within a l.length x → c.Tables x) (m : Mem) {x : BitVec 32}
    (hx : Within c.hdr hdrBytes x) : write m a l x = m x :=
  write_of_not_within hl fun hin => (h x hin).not_hdr hx

theorem receiveTables_fed {crc : BitVec 32} (hgood : ¬badHeader c s.mem)
    (htbl : tbl.length = (c.nseg s.mem).toNat * segBytes)
    (hcmd : cmd.length = (c.cmdlineLen s.mem).toNat) (h : Feeds c (tbl ++ (cmd ++ rest)) s)
    (herr : s.lineErr = 0#32) :
    Wp (receiveTables c crc)
      (fun r s' => r = (if ~~~((tbl ++ cmd).foldl crc32Byte crc) ≠ c.hdrCrc s.mem
          then some .hdrCrc else none) ∧
        Received c (tbl.length + cmd.length) rest
          (write (write s.mem c.seg tbl) c.cmdline (cmd ++ [0#8])) s s')
      (fun _ _ => False) s := by
  have hsegs : (c.nseg s.mem).toNat ≤ rvbiMaxSegs := by unfold badHeader at hgood; omega
  have hline : (c.cmdlineLen s.mem).toNat ≤ rvbiMaxCmd := by unfold badHeader at hgood; omega
  have hroomS : c.Room c.seg ((c.nseg s.mem).toNat * segBytes) :=
    (Config.Room.of_firmware c.seg_firmware).mono (by unfold segBytes at *; omega)
  have hroomC : c.Room c.cmdline ((c.cmdlineLen s.mem).toNat + 1) :=
    (Config.Room.of_firmware c.cmdline_firmware).mono (by omega)
  have htables : ∀ m x, Within c.hdr hdrBytes x → write m c.seg tbl x = m x := by
    intro m x hx
    unfold rvbiMaxSegs segBytes at *
    refine write_tables_hdr (by omega) (fun y hy => Or.inl (hy.mono ?_)) m hx
    unfold rvbiMaxSegs segBytes
    omega
  have hcmdline : ∀ l, l.length ≤ rvbiMaxCmd + 1 → ∀ m x, Within c.hdr hdrBytes x →
      write m c.cmdline l x = m x := by
    intro l hl m x hx
    unfold rvbiMaxCmd at hl
    exact write_tables_hdr (by omega) (fun y hy => Or.inr (hy.mono hl)) m hx
  unfold receiveTables
  rw [wp_bind, wp_get]
  refine (getBytes_fed htbl hroomS h).bind ?_ fun _ _ h => h
  rintro crc₁ s₁ ⟨hcrc₁, h₁⟩
  have hsame₁ : SameHdr c s.mem s₁.mem :=
    SameHdr.of_bytes fun x hx => by rw [h₁.mem, htables _ x hx]
  rw [wp_bind, wp_get]
  dsimp only
  rw [hsame₁.cmdlineLen]
  refine (getBytes_fed hcmd (hroomC.mono (Nat.le_succ _)) h₁.feeds).bind ?_ fun _ _ h => h
  rintro crc₂ s₂ ⟨hcrc₂, h₂⟩
  have hsame₂ : SameHdr c s.mem s₂.mem :=
    SameHdr.of_bytes fun x hx => by
      rw [h₂.mem, hcmdline cmd (by omega) _ x hx, h₁.mem, htables _ x hx]
  have hroomN : c.Room (c.cmdline + (c.cmdlineLen s.mem).setWidth 32) 1 := by
    rw [← BitVec.ofNat_toNat]
    exact hroomC.sub _ 1 le_rfl
  rw [wp_bind, wp_get, hsame₂.cmdlineLen]
  refine (store_room hroomN 0#8 s₂).bind ?_ fun _ _ h => h
  rintro _ _ rfl
  have hmem : Function.update s₂.mem (c.cmdline + (c.cmdlineLen s.mem).setWidth 32) 0#8 =
      write (write s.mem c.seg tbl) c.cmdline (cmd ++ [0#8]) := by
    rw [write_append, ← h₁.mem, ← h₂.mem, hcmd, BitVec.ofNat_toNat]
    rfl
  have hsame : SameHdr c s.mem (write (write s.mem c.seg tbl) c.cmdline (cmd ++ [0#8])) := by
    refine SameHdr.of_bytes fun x hx => ?_
    rw [hcmdline _ (by rw [List.length_append, hcmd]; exact Nat.succ_le_succ hline) _ x hx,
      htables _ x hx]
  rw [wp_bind, wp_modify, wp_bind, wp_get]
  dsimp only
  rw [hmem, hsame.hdrCrc, hcrc₂, hcrc₁, ← List.foldl_append]
  have hr : Received c (tbl.length + cmd.length) rest
      (write (write s.mem c.seg tbl) c.cmdline (cmd ++ [0#8])) s
      { s₂ with
        mem := write (write s.mem c.seg tbl) c.cmdline (cmd ++ [0#8])
        wrote := s₂.wrote ++ [c.cmdline + (c.cmdlineLen s.mem).setWidth 32]
        crcGot := ~~~((tbl ++ cmd).foldl crc32Byte crc) } := by
    refine ⟨rfl, ?_, ?_, ?_⟩
    · refine feeds_steady _ _ _ h₂.feeds rfl rfl fun x hx => ?_
      rw [← hmem]
      exact (show c.Room _ [0#8].length from hroomN).write_above s₂.mem hx
    · exact (h₁.fetched.trans h₂.fetched).carry rfl rfl
    · exact (h₂.lineErr.trans h₁.lineErr).trans herr
  refine Wp.ite (fun hcrc => ⟨(if_pos hcrc).symm, hr⟩) fun hcrc => ⟨(if_neg hcrc).symm, hr⟩

theorem slice_hdr (hlen : l.length = hdrBytes) (m : Mem) :
    slice (write m c.hdr l) c.hdr hdrBytes = l := hlen ▸ slice_write m c.hdr (by rw [hlen]; decide)

def Config.received (c : Config) (m : Mem) (hd tbl cmd : List (BitVec 8)) : Mem :=
  write (write (write m c.hdr hd) c.seg tbl) c.cmdline (cmd ++ [0#8])

theorem line_le (hcmd : cmd.length ≤ rvbiMaxCmd) : (cmd ++ [0#8]).length ≤ rvbiMaxCmd + 1 := by
  rw [List.length_append]
  exact Nat.succ_le_succ hcmd

theorem received_hdr {hd : List (BitVec 8)} (m : Mem) (hlen : hd.length = hdrBytes)
    (htbl : tbl.length ≤ segBytes * rvbiMaxSegs) (hcmd : cmd.length ≤ rvbiMaxCmd) :
    HdrIs c (c.received m hd tbl cmd) hd := by
  have hline := line_le hcmd
  refine HdrIs.of_slice hlen (Eq.trans (slice_congr (by decide) fun x hx => ?_) (slice_hdr hlen m))
  rw [Config.received,
    write_tables_hdr (hline.trans (by decide)) (fun y hy => Or.inr (hy.mono hline)) _ hx,
    write_tables_hdr (htbl.trans (by decide)) (fun y hy => Or.inl (hy.mono htbl)) _ hx]

/-- Row `i` of the table holds the row of `tbl`. -/
structure SegIs (c : Config) (m : Mem) (tbl : List (BitVec 8)) (i : ℕ) : Prop where
  segAddr : c.segAddr m i = u32 tbl (segBytes * i)
  filesz : c.filesz m i = u32 tbl (segBytes * i + 4)
  memsz : c.memsz m i = u32 tbl (segBytes * i + 8)

theorem SegIs.of_slice (h : slice m c.seg tbl.length = tbl)
    {i : ℕ} (hi : segBytes * (i + 1) ≤ tbl.length) : SegIs c m tbl i := by
  have hrow : ∀ k, k + 4 ≤ segBytes →
      load32 m (c.segAt i + BitVec.ofNat 32 k) = u32 tbl (segBytes * i + k) := by
    intro k hk
    rw [Config.segAt, BitVec.add_assoc, ← BitVec.ofNat_add]
    exact load32_slice h (by rw [Nat.mul_succ] at hi; omega)
  constructor
  · simpa [Config.segAddr] using hrow 0 (by decide)
  · exact hrow 4 (by decide)
  · exact hrow 8 (by decide)

theorem received_seg {hd : List (BitVec 8)} (m : Mem)
    (htbl : tbl.length ≤ segBytes * rvbiMaxSegs) (hcmd : cmd.length ≤ rvbiMaxCmd) {i : ℕ}
    (hi : segBytes * (i + 1) ≤ tbl.length) : SegIs c (c.received m hd tbl cmd) tbl i := by
  have hline := line_le hcmd
  refine SegIs.of_slice (Eq.trans (slice_congr (htbl.trans (by decide)) fun x hx => ?_)
    (slice_write (write m c.hdr hd) c.seg (htbl.trans (by decide)))) hi
  rw [Config.received, write_of_not_within (hline.trans (by decide)) fun hin => ?_]
  exact c.seg_cmdline.not_within c.seg_firmware c.cmdline_firmware (hin.mono hline) (hx.mono htbl)

theorem receiveHeader_bad (len₀ : h₀.length = 4)
    (len₁ : h₁.length = 24) (len₂ : h₂.length = 4) (h : Starts c (h₀ ++ (h₁ ++ (h₂ ++ rest))) s)
    (hbad : BadHdr (h₀ ++ h₁ ++ h₂)) :
    Wp (receiveHeader c)
      (fun r s' => r = some .badHdr ∧
        Received c hdrBytes rest (write s.mem c.hdr (h₀ ++ h₁ ++ h₂)) s s')
      (fun _ _ => False) s := by
  have hlen : (h₀ ++ h₁ ++ h₂).length = hdrBytes := by
    rw [List.length_append, List.length_append, len₀, len₁, len₂]; rfl
  unfold receiveHeader
  refine (receiveFixed_fed len₀ len₁ len₂ h).bind ?_ fun _ _ h => h
  rintro crc s₁ ⟨-, h₁⟩
  have hhdr : HdrIs c s₁.mem (h₀ ++ _ ++ h₂) :=
    HdrIs.of_slice hlen (by rw [h₁.mem]; exact slice_hdr hlen s.mem)
  rw [wp_bind, wp_get, if_pos (hhdr.badHeader.mpr hbad)]
  exact wp_pure.mpr ⟨rfl, h₁⟩

theorem receiveHeader_good (len₀ : h₀.length = 4) (len₁ : h₁.length = 24) (len₂ : h₂.length = 4)
    (hgood : ¬BadHdr (h₀ ++ h₁ ++ h₂))
    (htbl : tbl.length = (u16 (h₀ ++ h₁ ++ h₂) 6).toNat * segBytes)
    (hcmd : cmd.length = (u16 (h₀ ++ h₁ ++ h₂) 16).toNat)
    (h : Starts c (h₀ ++ (h₁ ++ (h₂ ++ (tbl ++ (cmd ++ rest))))) s) :
    Wp (receiveHeader c)
      (fun r s' =>
        r = (if crc32 0#32 (h₀ ++ h₁ ++ List.replicate 4 0#8 ++ (tbl ++ cmd)) ≠
          u32 (h₀ ++ h₁ ++ h₂) 28 then some .hdrCrc else none) ∧
        Received c (hdrBytes + (tbl.length + cmd.length)) rest
          (c.received s.mem (h₀ ++ h₁ ++ h₂) tbl cmd) s s')
      (fun _ _ => False) s := by
  have hlen : (h₀ ++ h₁ ++ h₂).length = hdrBytes := by
    rw [List.length_append, List.length_append, len₀, len₁, len₂]; rfl
  unfold receiveHeader
  refine (receiveFixed_fed len₀ len₁ len₂ h).bind ?_ fun _ _ h => h
  rintro crc s₁ ⟨hcrc, hr₁⟩
  have hhdr : HdrIs c s₁.mem (h₀ ++ h₁ ++ h₂) :=
    HdrIs.of_slice hlen (by rw [hr₁.mem]; exact slice_hdr hlen s.mem)
  have hgood' : ¬badHeader c s₁.mem := hhdr.badHeader.not.mpr hgood
  rw [wp_bind, wp_get, if_neg hgood']
  refine (receiveTables_fed hgood' (by rw [htbl, hhdr.nseg]) (by rw [hcmd, hhdr.cmdlineLen])
    hr₁.feeds hr₁.lineErr).imp ?_ fun _ _ h => h
  rintro r s₂ ⟨hr, hr₂⟩
  rw [hcrc, ← List.foldl_append, hhdr.hdrCrc] at hr
  refine ⟨hr, ?_, hr₂.feeds, hr₁.fetched.trans hr₂.fetched, hr₂.lineErr⟩
  rw [hr₂.mem, hr₁.mem, Config.received]

end Header

end RiscvScratch.Rvbi
