import RiscvScratch.Image.BootMem

/-! The check the flash writer makes (bootbin.c, `rvbi_ok`) against the one the ROM makes; it reads
neither the version nor the limit on the command line. -/
namespace RiscvScratch.Rvbi

open ByteMem Platform Program

def b16 (p : List (BitVec 8)) (k : ℕ) : BitVec 32 :=
  (p.getD k 0#8).setWidth 32 ||| (p.getD (k + 1) 0#8).setWidth 32 <<< 8

def b32 (p : List (BitVec 8)) (k : ℕ) : BitVec 32 := b16 p k ||| b16 p (k + 2) <<< 16

/-- `table[i]` of `crc32_update`. -/
def crcTable (i : BitVec 32) : BitVec 32 :=
  (fun c : BitVec 32 => if c &&& 1#32 ≠ 0#32 then crcPoly ^^^ (c >>> 1) else c >>> 1)^[8] i

def crc32Update (crc : BitVec 32) (l : List (BitVec 8)) : BitVec 32 :=
  ~~~(l.foldl (fun crc b => crcTable ((crc ^^^ b.setWidth 32) &&& 0xff#32) ^^^ (crc >>> 8))
    (~~~crc))

/-- `rvbi_ok` on the first `room` bytes of `p`; `*bytes` on success. -/
def rvbiOk (p : List (BitVec 8)) (room : BitVec 32) : Option (BitVec 32) :=
  if room < 32#32 ∨ b32 p 0 ≠ rvbiMagic then none
  else
    let nseg := b16 p 6
    let clen := b16 p 16
    let dsize := b32 p 20
    let hcrc := b32 p 28
    if nseg = 0#32 ∨ nseg > 8#32 then none
    else
      let size := 32#32 + 12#32 * nseg + clen
      if size > room then none
      else
        let c := crc32Update 0#32 (p.take 28)
        let c := crc32Update c (List.replicate 4 0#8)
        let c := crc32Update c ((p.drop 32).take (size - 32#32).toNat)
        if c ≠ hcrc ∨ dsize > room - size then none else some (size + dsize)

theorem crcTable_eq (i : BitVec 32) : crcTable i = (Crc.shift crcPoly)^[8] i := by
  have hstep : (fun c : BitVec 32 => if c &&& 1#32 ≠ 0#32 then crcPoly ^^^ (c >>> 1) else c >>> 1) =
      Crc.shift crcPoly := by
    funext c
    have hbit : c &&& 1#32 ≠ 0#32 ↔ c.getLsbD 0 = true := by
      rw [BitVec.and_one_eq_setWidth_ofBool_getLsbD]
      cases c.getLsbD 0 <;> decide
    rw [Crc.shift]
    exact if_congr hbit rfl rfl
  rw [crcTable, hstep]

theorem and_low_byte (x : BitVec 32) : x &&& 0xff#32 = (x.setWidth 8).setWidth 32 := by
  apply BitVec.eq_of_toNat_eq
  rw [BitVec.toNat_and, BitVec.toNat_setWidth, BitVec.toNat_setWidth]
  change x.toNat &&& (2 ^ 8 - 1) = _
  rw [Nat.and_two_pow_sub_one_eq_mod]
  omega

theorem crc32Update_eq (crc : BitVec 32) (l : List (BitVec 8)) :
    crc32Update crc l = crc32 crc l := by
  have hbyte : (fun (crc : BitVec 32) (b : BitVec 8) =>
      crcTable ((crc ^^^ b.setWidth 32) &&& 0xff#32) ^^^ (crc >>> 8)) = crc32Byte := by
    funext crc b
    rw [crcTable_eq, crc32Byte_eq, Crc.byte_eq_table, and_low_byte]
  rw [crc32Update, crc32, hbyte]

theorem crc32_append (crc : BitVec 32) (l l' : List (BitVec 8)) :
    crc32 (crc32 crc l) l' = crc32 crc (l ++ l') := by
  rw [crc32, crc32, crc32, BitVec.not_not, List.foldl_append]

theorem or_shift (n : ℕ) (hn : n ≤ 16) {a b : BitVec 32} (ha : a.toNat < 2 ^ n)
    (hb : b.toNat < 2 ^ (32 - n)) :
    (a ||| b <<< n).toNat = b.toNat * 2 ^ n + a.toNat := by
  have h := Nat.shiftLeft_add_eq_or_of_lt ha b.toNat
  have hlt : b.toNat <<< n < 2 ^ 32 := by
    rw [Nat.shiftLeft_eq]
    calc b.toNat * 2 ^ n < 2 ^ (32 - n) * 2 ^ n := Nat.mul_lt_mul_of_pos_right hb (by positivity)
      _ = 2 ^ 32 := by rw [← pow_add]; congr 1; omega
  rw [BitVec.toNat_or, BitVec.toNat_shiftLeft, Nat.mod_eq_of_lt hlt, Nat.or_comm, ← h,
    Nat.shiftLeft_eq]

theorem b16_bytes (a b : BitVec 8) :
    a.setWidth 32 ||| b.setWidth 32 <<< 8 = (b ++ a).setWidth 32 := by
  have := a.isLt
  have := b.isLt
  apply BitVec.eq_of_toNat_eq
  have ha : (a.setWidth 32).toNat = a.toNat := by rw [BitVec.toNat_setWidth]; omega
  have hb : (b.setWidth 32).toNat = b.toNat := by rw [BitVec.toNat_setWidth]; omega
  rw [or_shift 8 (by decide) (by omega) (by omega), ha, hb, BitVec.toNat_setWidth,
    BitVec.toNat_append, ← Nat.shiftLeft_add_eq_or_of_lt a.isLt, Nat.shiftLeft_eq]
  omega

theorem b32_bytes (a b c d : BitVec 8) :
    (b ++ a).setWidth 32 ||| (d ++ c).setWidth 32 <<< 16 = d ++ c ++ b ++ a := by
  apply BitVec.eq_of_toNat_eq
  have h16 : ∀ x y : BitVec 8, ((x ++ y).setWidth 32).toNat = x.toNat * 2 ^ 8 + y.toNat := by
    intro x y
    have := x.isLt
    have := y.isLt
    rw [BitVec.toNat_setWidth, BitVec.toNat_append, ← Nat.shiftLeft_add_eq_or_of_lt y.isLt,
      Nat.shiftLeft_eq]
    omega
  have := a.isLt
  have := b.isLt
  have := c.isLt
  have := d.isLt
  rw [or_shift 16 (by decide) (by rw [h16]; omega) (by rw [h16]; omega), h16, h16]
  simp only [BitVec.toNat_append]
  rw [← Nat.shiftLeft_add_eq_or_of_lt c.isLt, ← Nat.shiftLeft_add_eq_or_of_lt b.isLt,
    ← Nat.shiftLeft_add_eq_or_of_lt a.isLt]
  simp only [Nat.shiftLeft_eq]
  omega

theorem b16_eq (p : List (BitVec 8)) (k : ℕ) : b16 p k = (u16 p k).setWidth 32 :=
  b16_bytes (p.getD k 0#8) (p.getD (k + 1) 0#8)

theorem b32_eq (p : List (BitVec 8)) (k : ℕ) : b32 p k = u32 p k := by
  rw [b32, b16_eq, b16_eq]
  exact b32_bytes (p.getD k 0#8) (p.getD (k + 1) 0#8) (p.getD (k + 2) 0#8) (p.getD (k + 3) 0#8)

structure Accepted (p : List (BitVec 8)) (room bytes : BitVec 32) : Prop where
  hdr : hdrBytes ≤ room.toNat
  magic : u32 p 0 = rvbiMagic
  nseg_ne : u16 p 6 ≠ 0#16
  nseg_le : (u16 p 6).toNat ≤ rvbiMaxSegs
  crc : HdrCrcOk p
  fits : imageBytes p ≤ room.toNat
  bytes_eq : bytes.toNat = imageBytes p

variable {p : List (BitVec 8)}

theorem nseg_le_of_word (h : (u16 p 6).setWidth 32 ≤ 8#32) :
    (u16 p 6).toNat ≤ rvbiMaxSegs := by
  have := (u16 p 6).isLt
  rw [BitVec.le_def, BitVec.toNat_setWidth, BitVec.toNat_ofNat] at h
  unfold rvbiMaxSegs
  omega

theorem metaBytes_word (h : (u16 p 6).toNat ≤ rvbiMaxSegs) :
    (32#32 + 12#32 * (u16 p 6).setWidth 32 + (u16 p 16).setWidth 32).toNat = metaBytes p := by
  have := (u16 p 16).isLt
  unfold rvbiMaxSegs at h
  unfold metaBytes hdrBytes segBytes
  simp only [BitVec.toNat_add, BitVec.toNat_mul, BitVec.toNat_setWidth, BitVec.toNat_ofNat]
  omega

theorem tables_eq (p : List (BitVec 8)) :
    tableOf p ++ cmdlineOf p = (p.drop hdrBytes).take (metaBytes p - hdrBytes) := by
  rw [metaBytes, Nat.add_sub_cancel_left, List.take_add, List.drop_drop, tableOf, cmdlineOf]

theorem rvbiOk_accepted {room bytes : BitVec 32}
    (h : rvbiOk p room = some bytes) : Accepted p room bytes := by
  unfold rvbiOk at h
  rw [b32_eq, b16_eq, b16_eq, b32_eq, b32_eq] at h
  dsimp only at h
  split at h
  · cases h
  next hfirst =>
  split at h
  · cases h
  next hnseg =>
  split at h
  · cases h
  next hsize =>
  split at h
  · cases h
  next hlast =>
  rw [not_or, BitVec.not_lt] at hfirst
  simp only [not_or, gt_iff_lt, BitVec.not_lt] at hnseg hsize hlast
  obtain ⟨hroom, hmagic⟩ := hfirst
  obtain ⟨hzero, hmax⟩ := hnseg
  have hle := nseg_le_of_word hmax
  have hmeta := metaBytes_word hle
  rw [BitVec.le_def, hmeta] at hsize
  obtain ⟨hcrc, hdata⟩ := hlast
  have hhdr : hdrBytes ≤ metaBytes p := Nat.le_add_right _ _
  rw [BitVec.le_def, BitVec.toNat_sub_of_le (BitVec.le_def.mpr (hmeta ▸ hsize)), hmeta] at hdata
  have hsum : bytes.toNat = imageBytes p := by
    have := room.isLt
    rw [← Option.some.inj h, BitVec.toNat_add, hmeta, imageBytes]
    exact Nat.mod_eq_of_lt (by omega)
  refine ⟨hroom, not_not.mp hmagic, ?_, hle, ?_, by unfold imageBytes; omega, hsum⟩
  · intro h0
    rw [h0] at hzero
    exact hzero rfl
  · have hcrc := not_not.mp hcrc
    have hlen : (32#32 + 12#32 * (u16 p 6).setWidth 32 + (u16 p 16).setWidth 32 - 32#32).toNat =
        metaBytes p - hdrBytes := by
      rw [BitVec.toNat_sub_of_le (BitVec.le_def.mpr (hmeta.symm ▸ hhdr)), hmeta]
      rfl
    rw [crc32Update_eq, crc32Update_eq, crc32Update_eq, crc32_append, crc32_append, hlen] at hcrc
    rw [HdrCrcOk, tables_eq, List.append_assoc]
    exact hcrc

/-- What the flash writer accepts is a header to the ROM but for the two fields it does not read. -/
theorem Accepted.not_badHdr_iff {room bytes : BitVec 32} (h : Accepted p room bytes) :
    ¬BadHdr p ↔ u16 p 4 = rvbiVersion ∧ (u16 p 16).toNat ≤ rvbiMaxCmd := by
  have hmagic := h.magic
  have hne := h.nseg_ne
  have hle := Nat.not_lt.mpr h.nseg_le
  unfold BadHdr
  simp only [hmagic, hne, hle, not_or, ne_eq, not_true, not_false_iff, not_not, Nat.not_lt,
    true_and]

/-- What the flash writer accepts, the ROM takes from RAM exactly when the header has the ROM's
version and a command line within its limit. -/
theorem flash_check_agrees (c : Config) (hend : c.payloadEnd = bootmemAddr)
    (p : List (BitVec 8)) (room bytes : BitVec 32) (hp : p.length = room.toNat)
    (hok : rvbiOk p room = some bytes) (s : Machine) (hmsrc : s.msrc = bootmemAddr)
    (hmem : slice s.mem bootmemAddr p.length = p)
    (hram : bootmemAddr.toNat + room.toNat ≤ ramBase.toNat + c.ramSize.toNat) :
    (∃ code s', loadImage c s = .ok code s' ∧ code ≠ .badHdr ∧ code ≠ .hdrCrc ∧
      bytes.toNat = metaBytes p + (u32 p 20).toNat ∧
      (code ∈ [.range, .sizes, ImgCode.entry] →
        s'.msrc.toNat = bootmemAddr.toNat + metaBytes p) ∧
      (code ∉ [.range, .sizes, ImgCode.entry] →
        s'.msrc.toNat = bootmemAddr.toNat + bytes.toNat)) ↔
    u16 p 4 = rvbiVersion ∧ (u16 p 16).toNat ≤ rvbiMaxCmd := by
  have hacc := rvbiOk_accepted hok
  have hhdr : hdrBytes ≤ p.length := hp ▸ hacc.hdr
  have hfits : imageBytes p ≤ p.length := hp ▸ hacc.fits
  have hin : InMemory c p s := by
    unfold InMemory
    rw [hmsrc, hend, hp]
    exact ⟨hp ▸ hmem, le_rfl, hram⟩
  have hmeta : metaBytes p ≤ p.length := by
    unfold imageBytes at hfits
    omega
  have hstart := starts_inMemory hin (le_trans (by decide) hhdr) (by rw [hmsrc]; decide)
  obtain ⟨code, s', hrun, hout⟩ := (loadImage_fed (small_of_bootmem hend) hstart hhdr
    (fun _ => hmeta) fun _ => hfits).returns
  have hmoved : ∀ {n}, Fetched n s s' → s'.msrc.toNat = bootmemAddr.toNat + n := by
    intro n h
    rw [h.msrc, hmsrc, if_neg (by decide)]
  rw [← hacc.not_badHdr_iff]
  constructor
  · rintro ⟨code', s'', hrun', hbad, -⟩ h
    rw [hrun] at hrun'
    cases hrun'
    rcases hout with ⟨-, hcode, -⟩ | ⟨h', -⟩ | ⟨h', -⟩ | ⟨h', -⟩
    · exact hbad hcode
    · exact h' h
    · exact h' h
    · exact h'.header h
  intro hgood
  refine ⟨code, s', hrun, ?_⟩
  rcases hout with ⟨h, -⟩ | ⟨-, h, -⟩ | ⟨-, -, hcode, h⟩ | ⟨-, hcode, h⟩
  · exact absurd h hgood
  · exact absurd hacc.crc h
  · refine ⟨?_, ?_, hacc.bytes_eq, fun _ => hmoved h, fun hnot => absurd hcode hnot⟩
    · rintro rfl; exact absurd hcode (by decide)
    · rintro rfl; exact absurd hcode (by decide)
  · refine ⟨?_, ?_, hacc.bytes_eq, fun hin => ?_, fun _ => hacc.bytes_eq ▸ hmoved h⟩
    · rintro rfl; exact absurd hcode (by decide)
    · rintro rfl; exact absurd hcode (by decide)
    · simp only [List.mem_cons, List.not_mem_nil, or_false] at hcode hin
      rcases hcode with rfl | rfl <;> simp at hin

theorem smallImage_accepted :
    ∃ code s', loadImage board { resetWith smallImage with msrc := bootmemAddr } = .ok code s' ∧
      code ≠ .badHdr ∧ code ≠ .hdrCrc ∧
      (48#32).toNat = metaBytes smallImage + (u32 smallImage 20).toNat ∧
      (code ∈ [.range, .sizes, ImgCode.entry] →
        s'.msrc.toNat = bootmemAddr.toNat + metaBytes smallImage) ∧
      (code ∉ [.range, .sizes, ImgCode.entry] →
        s'.msrc.toNat = bootmemAddr.toNat + (48#32).toNat) :=
  (flash_check_agrees board rfl smallImage 48#32 48#32 (by decide) (by decide +kernel) _ rfl
    (resetWith_inMemory smallImage (by decide)).1 (by decide)).mpr
    ⟨by decide +kernel, by decide +kernel⟩

theorem bad_header_refused {l : List (BitVec 8)} (hlen : hdrBytes ≤ l.length)
    (hmax : l.length ≤ 0x01000000) (hbad : BadHdr l) :
    ∃ s', loadImage board { resetWith l with msrc := bootmemAddr } = .ok .badHdr s' := by
  have hstart := starts_inMemory (resetWith_inMemory l hmax) (le_trans (by decide) hlen)
    (show bootmemAddr.toNat % 4 = 0 by decide)
  obtain ⟨code, s', hrun, hout⟩ := (loadImage_fed (small_of_bootmem rfl) hstart hlen
    (fun h => absurd hbad h) fun h => absurd hbad h.header).returns
  rcases hout with ⟨-, rfl, -⟩ | ⟨h, -⟩ | ⟨h, -⟩ | ⟨h, -⟩
  · exact ⟨s', hrun⟩
  · exact absurd hbad h
  · exact absurd hbad h
  · exact absurd hbad h.header

/-- The same image with version 2 in its header. -/
def secondVersion : List (BitVec 8) :=
  oneSegment 2#16 4#32 8#32 0x63e8276d#32 0x93b2a12d#32 ++ [0x13#8, 0#8, 0#8, 0#8]

theorem secondVersion_refused : rvbiOk secondVersion 48#32 = some 48#32 ∧
      ∃ s', loadImage board { resetWith secondVersion with msrc := bootmemAddr } =
        .ok .badHdr s' :=
  ⟨by decide +kernel, bad_header_refused (by decide) (by decide) (by decide +kernel)⟩

end RiscvScratch.Rvbi
